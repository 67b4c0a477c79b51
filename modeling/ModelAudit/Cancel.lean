import ModelAudit.Error

namespace ModelAudit

structure Signal where
  number : Nat
deriving DecidableEq, Repr

structure Signals where
  next : Nat := 0
  raised : List Signal := []
deriving DecidableEq, Repr

namespace Signals

def issue (s : Signals) : Signal × Signals :=
  (⟨s.next⟩, { s with next := s.next + 1 })

def raise (s : Signals) (signal : Signal) : Signals :=
  { s with raised := signal :: s.raised }

def IsRaised (s : Signals) (signal : Signal) : Prop :=
  signal ∈ s.raised

instance (s : Signals) (signal : Signal) : Decidable (s.IsRaised signal) :=
  inferInstanceAs (Decidable (_ ∈ _))

theorem isRaised_raise {s : Signals} {x y : Signal} :
    (s.raise x).IsRaised y ↔ y = x ∨ s.IsRaised y := by
  simp [raise, IsRaised]

end Signals

inductive CancelToken where
  | never
  | observing (signal : Signal)
deriving DecidableEq, Repr

namespace CancelToken

def IsCancelled (t : CancelToken) (s : Signals) : Prop :=
  match t with
  | never => False
  | observing signal => s.IsRaised signal

instance (t : CancelToken) (s : Signals) : Decidable (t.IsCancelled s) := by
  unfold IsCancelled; split <;> infer_instance

def check (t : CancelToken) (s : Signals) : Except AuditError Unit :=
  if t.IsCancelled s then .error .cancelled else .ok ()

end CancelToken

end ModelAudit
