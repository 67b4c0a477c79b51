import ModelAudit.Decimal.Binary64

namespace ModelAudit.Binary64

def ReadsBack (x : Binary64) (d : Decimal) : Prop :=
  (ofDecimal? x.negative d).map (·.magnitude) = some x.magnitude

instance (x : Binary64) (d : Decimal) : Decidable (x.ReadsBack d) :=
  inferInstanceAs (Decidable (_ = _))

def neighbours (x : Binary64) (exponent : Int) : Decimal × Decimal :=
  let (m, e) := x.scaled
  let low := m * Nat.pow 2 e.toNat * Nat.pow 10 (-exponent).toNat /
    (Nat.pow 2 (-e).toNat * Nat.pow 10 exponent.toNat)
  (⟨low, exponent⟩, ⟨low + 1, exponent⟩)

-- Halfway it is the even one.
def nearest (x : Binary64) (exponent : Int) : Decimal :=
  let (m, e) := x.scaled
  ⟨roundDiv (m * Nat.pow 2 e.toNat * Nat.pow 10 (-exponent).toNat)
    (Nat.pow 2 (-e).toNat * Nat.pow 10 exponent.toNat), exponent⟩

def hit? (x : Binary64) (exponent : Int) : Option Decimal :=
  let near := x.nearest exponent
  let (low, high) := x.neighbours exponent
  [near, low, high].find? fun d => x.ReadsBack d

def exact (x : Binary64) : Decimal :=
  let (m, e) := x.scaled
  ⟨m * Nat.pow 2 e.toNat * Nat.pow 5 (-e).toNat, -((-e).toNat : Int)⟩

-- An exponent that is too coarse to tell the number from its neighbours: the power of ten lies above
-- the number, since `30103 / 100000` is a little more than the decimal logarithm of two.
def coarsest (x : Binary64) : Int :=
  let (m, e) := x.scaled
  (((m.log2 : Int) + e) * 30103).fdiv 100000 + 2

def shortest (x : Binary64) : Decimal :=
  if x.magnitude = 0 then ⟨0, 0⟩
  else ((List.range 22).findSome? fun i : Nat => x.hit? (x.coarsest - i)).getD x.exact

theorem readsBack_of_hit? {x : Binary64} {exponent : Int} {d : Decimal}
    (h : x.hit? exponent = some d) : x.ReadsBack d := by
  simpa using List.find?_some h

end ModelAudit.Binary64
