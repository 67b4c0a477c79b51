import ModelAudit.Activity.Basic

namespace ModelAudit

-- Whether the signal is raised when so many looks were taken and so many records were delivered. It
-- stays raised from then on.
abbrev Timing :=
  (polls deliveries : Nat) → Bool

def Timing.never : Timing := fun _ _ => false

def Timing.always : Timing := fun _ _ => true

def Timing.after (records : Nat) : Timing := fun _ deliveries => decide (records ≤ deliveries)

inductive Ending (α : Type) where
  | value (a : α)
  | panicked (message : Option String)
  | waiting

structure Performance (α : Type) where
  log : List LogEvent
  records : List Record
  ending : Ending α

structure Progress where
  polls : Nat := 0
  deliveries : Nat := 0
  raised : Bool := false

namespace Activity

variable {α : Type}

def sees (timing : Timing) (p : Progress) : Bool :=
  p.raised || timing p.polls p.deliveries

def performFrom (timing : Timing) : Progress → Activity α → Performance α
  | _, done a => ⟨[], [], .value a⟩
  | _, panic message => ⟨[], [], .panicked message⟩
  | p, poll next =>
    (next (sees timing p)).performFrom timing
      { p with polls := p.polls + 1, raised := sees timing p }
  | p, press next => next.performFrom timing { p with raised := true }
  | p, emit event next =>
    let rest := next.performFrom timing p
    { rest with log := event :: rest.log }
  | p, deliver record next =>
    let rest := next.performFrom timing { p with deliveries := p.deliveries + 1 }
    { rest with records := record :: rest.records }
  | p, gate heedsFlag _ stopped =>
    if heedsFlag && sees timing p then
      stopped.performFrom timing { p with polls := p.polls + 1, raised := true }
    else ⟨[], [], .waiting⟩

def perform (timing : Timing) (a : Activity α) : Performance α :=
  a.performFrom timing {}

end Activity

end ModelAudit
