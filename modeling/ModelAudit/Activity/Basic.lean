import ModelAudit.Record
import ModelAudit.LogEvent

namespace ModelAudit

inductive Activity (α : Type) where
  | done (a : α)
  | panic (message : Option String)
  | poll (next : Bool → Activity α)
  | press (next : Activity α)
  | emit (event : LogEvent) (next : Activity α)
  | deliver (record : Record) (next : Activity α)
  -- If it heeds the flag, it goes on at `stopped` when the run was asked to stop before it was let through.
  | gate (heedsFlag : Bool) (passed stopped : Activity α)

namespace Activity

variable {α β γ : Type}

def bind : Activity α → (α → Activity β) → Activity β
  | done a, f => f a
  | panic message, _ => panic message
  | poll next, f => poll fun b => (next b).bind f
  | press next, f => press (next.bind f)
  | emit event next, f => emit event (next.bind f)
  | deliver record next, f => deliver record (next.bind f)
  | gate heedsFlag passed stopped, f => gate heedsFlag (passed.bind f) (stopped.bind f)

instance : Monad Activity where
  pure := done
  bind := bind

def rescue : Activity α → (Option String → α) → Activity α
  | done a, _ => done a
  | panic message, f => done (f message)
  | poll next, f => poll fun b => (next b).rescue f
  | press next, f => press (next.rescue f)
  | emit event next, f => emit event (next.rescue f)
  | deliver record next, f => deliver record (next.rescue f)
  | gate heedsFlag passed stopped, f => gate heedsFlag (passed.rescue f) (stopped.rescue f)

theorem bind_done (a : Activity α) : a.bind done = a := by
  induction a with
  | poll next ih => exact congrArg poll (funext ih)
  | _ => simp_all [bind]

theorem bind_assoc (a : Activity α) (f : α → Activity β) (g : β → Activity γ) :
    (a.bind f).bind g = a.bind fun x => (f x).bind g := by
  induction a with
  | poll next ih => exact congrArg poll (funext ih)
  | _ => simp_all [bind]

instance : LawfulMonad Activity := LawfulMonad.mk' _
  (fun a => bind_done a)
  (fun _ _ => rfl)
  (fun a f g => bind_assoc a f g)

def panicMessage (message : Option String) : String :=
  message.getD "unknown panic"

end Activity

abbrev Checking (α : Type) :=
  ExceptT AuditError Activity α

namespace Checking

def ofExcept {α : Type} (e : Except AuditError α) : Checking α :=
  Activity.done e

def poll : Checking Unit :=
  Activity.poll fun cancelled => .done (if cancelled then .error .cancelled else .ok ())

def press : Checking Unit :=
  Activity.press (.done (.ok ()))

def emit (event : LogEvent) : Checking Unit :=
  Activity.emit event (.done (.ok ()))

def deliver (record : Record) : Checking Unit :=
  Activity.deliver record (.done (.ok ()))

def gate (heedsFlag : Bool) : Checking Unit :=
  Activity.gate heedsFlag (.done (.ok ())) (.done (.error .cancelled))

end Checking

end ModelAudit
