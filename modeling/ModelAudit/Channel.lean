namespace ModelAudit

-- A receiver that fell further behind than the capacity allows is told once how many values it missed,
-- and goes on with the oldest one that is kept.
structure Channel (α : Type) where
  capacity : Nat
  -- Everything that was ever sent, the oldest first.
  sent : List α := []

structure Receiver where
  next : Nat
deriving DecidableEq, Repr

inductive Received (α : Type) where
  | value (a : α)
  | lagged (missed : Nat)
  | nothing

inductive Channel.Refusal where
  | empty
  | tooMany
  | tooLarge
deriving DecidableEq, Repr

namespace Channel

def Refusal.message : Refusal → String
  | empty => "broadcast channel capacity cannot be zero"
  | tooMany => "broadcast channel capacity exceeded \x60usize::MAX / 2\x60"
  | tooLarge => "capacity overflow"

variable {α : Type}

-- The largest size that can be asked for, in values or in bytes.
def maxSize : Nat := 9223372036854775807

-- The bytes that a slot is assumed to take up. That depends on how values are laid out in memory.
def slotSize : Nat := 72

-- The least power of two that is no less than the number, looked for from the given one on.
def roundUp (n : Nat) : Nat → Nat → Nat
  | 0, power => power
  | fuel + 1, power => if n ≤ power then power else roundUp n fuel (2 * power)

def create (capacity : Nat) : Except Refusal (Channel α) :=
  if capacity = 0 then .error .empty
  else if maxSize < capacity then .error .tooMany
  else
    let rounded := roundUp capacity 64 1
    if maxSize < rounded * slotSize then .error .tooLarge else .ok { capacity := rounded }

def send (c : Channel α) (a : α) : Channel α :=
  { c with sent := c.sent ++ [a] }

def subscribe (c : Channel α) : Receiver where
  next := c.sent.length

def oldest (c : Channel α) : Nat :=
  c.sent.length - c.capacity

def receive (c : Channel α) (r : Receiver) : Received α × Receiver :=
  if r.next < c.oldest then (.lagged (c.oldest - r.next), ⟨c.oldest⟩)
  else
    match c.sent[r.next]? with
    | some a => (.value a, ⟨r.next + 1⟩)
    | none => (.nothing, r)

-- What there is for a receiver, as often as the first number says at most.
def receiveUpTo (c : Channel α) : Nat → Receiver → List (Received α) × Receiver
  | 0, r => ([], r)
  | n + 1, r =>
    match c.receive r with
    | (.nothing, r) => ([], r)
    | (got, r) =>
      let (rest, r) := c.receiveUpTo n r
      (got :: rest, r)

def receiveAll (c : Channel α) (r : Receiver) : List (Received α) × Receiver :=
  -- besides the values there is one notice of missed ones at most
  c.receiveUpTo (c.sent.length - r.next + 1) r

end Channel

end ModelAudit
