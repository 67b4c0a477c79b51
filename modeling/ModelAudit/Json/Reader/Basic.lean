import ModelAudit.Json.Fault

namespace ModelAudit.Json

-- What is left of a text is a suffix of it. The proof goes along with the value, and readers that repeat
-- themselves end because of it.
structure Taken (α : Type) (s : List Char) where
  value : α
  rest : List Char
  suffix : rest <:+ s

def Reader (α : Type) :=
  (s : List Char) → Except Fault (Taken α s)

namespace Taken

variable {α β : Type} {s t : List Char}

def through (u : Taken α s) (h : s <:+ t) : Taken α t :=
  ⟨u.value, u.rest, u.suffix.trans h⟩

def map (f : α → β) (u : Taken α s) : Taken β s :=
  ⟨f u.value, u.rest, u.suffix⟩

theorem length_le (u : Taken α s) : u.rest.length ≤ s.length :=
  u.suffix.length_le

end Taken

def resume {α : Type} {s t : List Char} (h : s <:+ t) (read : Except Fault (Taken α s)) :
    Except Fault (Taken α t) :=
  read.map (·.through h)

namespace Reader

variable {α β : Type}

def pure (a : α) : Reader α := fun s =>
  .ok ⟨a, s, List.suffix_refl s⟩

def bind (r : Reader α) (f : α → Reader β) : Reader β := fun s =>
  match r s with
  | .error e => .error e
  | .ok u => resume u.suffix (f u.value u.rest)

instance : Monad Reader where
  pure := Reader.pure
  bind := Reader.bind

def failHere (reason : Reason) : Reader α := fun s =>
  .error (.here reason s)

def failNext (reason : Reason) : Reader α := fun s =>
  .error (.next reason s)

def failPending (reason : Reason) : Reader α := fun s =>
  .error (.pending reason s)

end Reader

def isGap (c : Char) : Bool :=
  c == ' ' || c == '\n' || c == '\t' || c == '\x0d'

def skipGap (s : List Char) : List Char :=
  s.dropWhile isGap

theorem skipGap_suffix (s : List Char) : skipGap s <:+ s :=
  List.dropWhile_suffix _

theorem suffix_of_skipGap_eq {s t : List Char} {c : Char} (h : skipGap s = c :: t) : t <:+ s :=
  (List.suffix_cons c t).trans (h ▸ skipGap_suffix s)

theorem length_lt_of_skipGap_eq {s t : List Char} {c : Char} (h : skipGap s = c :: t) :
    t.length < s.length := by
  have hs : (c :: t) <:+ s := h ▸ skipGap_suffix s
  exact hs.length_le

def behindGap {α : Type} {s u : List Char} (a : α) (h : skipGap s = u) : Taken α s :=
  ⟨a, u, h ▸ skipGap_suffix s⟩

def pastGap {α : Type} {s t : List Char} {c : Char} (a : α) (h : skipGap s = c :: t) : Taken α s :=
  ⟨a, t, suffix_of_skipGap_eq h⟩

def resumePastGap {α : Type} {s t : List Char} {c : Char} (h : skipGap s = c :: t)
    (read : Except Fault (Taken α t)) : Except Fault (Taken α s) :=
  resume (suffix_of_skipGap_eq h) read

def afterGap {α : Type} (r : Reader α) : Reader α := fun s =>
  resume (skipGap_suffix s) (r (skipGap s))

def letters {α : Type} (value : α) : List Char → Reader α
  | [] => Reader.pure value
  | l :: ls => fun s =>
    match s with
    | [] => .error (.here .endOfValue [])
    | c :: t =>
      if c = l then resume (List.suffix_cons c t) (letters value ls t)
      else .error (.next .expectedIdent (c :: t))

def digits : Reader (List Char) := fun s =>
  .ok ⟨s.takeWhile (·.isDigit), s.dropWhile (·.isDigit), List.dropWhile_suffix _⟩

end ModelAudit.Json
