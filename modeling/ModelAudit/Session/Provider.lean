import ModelAudit.Document.Basic

namespace ModelAudit

structure Provider where
  current : Document
  version : Nat := 0
deriving DecidableEq, Repr

-- A follower is told that the document was replaced since the last look, but not how often.
structure Follower where
  seen : Nat
deriving DecidableEq, Repr

namespace Provider

def set (p : Provider) (d : Document) : Provider where
  current := d
  version := p.version + 1

def follow (p : Provider) : Follower where
  seen := p.version

def HasNews (p : Provider) (f : Follower) : Prop :=
  f.seen ≠ p.version

instance (p : Provider) (f : Follower) : Decidable (p.HasNews f) :=
  inferInstanceAs (Decidable (_ ≠ _))

end Provider

end ModelAudit
