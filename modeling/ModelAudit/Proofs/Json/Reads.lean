import ModelAudit.Json.Reader.Basic

namespace ModelAudit.Json

variable {α β : Type} {r : Reader α} {s t rest : List Char} {a : α} {b : β} {c : Char}

-- The reader finds the value in front of the text and stops before the rest. The proof that the rest is
-- a suffix is never looked at.
def Reads (r : Reader α) (s : List Char) (a : α) (rest : List Char) : Prop :=
  ∃ h, r s = .ok ⟨a, rest, h⟩

-- All that a reader can come to has the property.
def Yields (r : Reader α) (P : α → Prop) : Prop :=
  ∀ s u, r s = .ok u → P u.value

theorem resume_eq_ok {h : t <:+ s} {read : Except Fault (Taken α t)} {u : Taken α s}
    (hr : resume h read = .ok u) : ∃ v, read = .ok v ∧ u.value = v.value := by
  cases read
  case error => cases hr
  case ok v => cases hr; exact ⟨v, rfl, rfl⟩

namespace Reads

theorem resume {r' : Reader α} {h : t <:+ s} (he : r s = Json.resume h (r' t))
    (hr : Reads r' t a rest) : Reads r s a rest := by
  have ⟨_, hr⟩ := hr
  exact ⟨_, by rw [he, hr]; rfl⟩

theorem resumeMap {r : Reader β} {r' : Reader α} {f : α → β} {h : t <:+ s}
    (he : r s = Json.resume h ((r' t).map (·.map f))) (hr : Reads r' t a rest) :
    Reads r s (f a) rest := by
  have ⟨_, hr⟩ := hr
  exact ⟨_, by rw [he, hr]; rfl⟩

theorem pure (a : α) (s : List Char) : Reads (Reader.pure a) s a s :=
  ⟨_, rfl⟩

theorem bind {f : α → Reader β} (hr : Reads r s a t) (hf : Reads (f a) t b rest) :
    Reads (r.bind f) s b rest := by
  have ⟨_, hr⟩ := hr
  have ⟨_, hf⟩ := hf
  exact ⟨_, by rw [Reader.bind, hr]; simp only [hf]; rfl⟩

theorem map {f : α → β} (hr : Reads r s a rest) : Reads (f <$> r) s (f a) rest :=
  hr.bind <| pure (f a) rest

theorem afterGap (hr : Reads r (skipGap s) a rest) : Reads (Json.afterGap r) s a rest :=
  hr.resume rfl

end Reads

namespace Yields

variable {P : α → Prop} {Q : β → Prop}

theorem pure (h : P a) : Yields (Reader.pure a) P := by
  rintro s u ⟨⟩
  exact h

theorem bind {f : α → Reader β} (hr : Yields r P) (hf : ∀ a, P a → Yields (f a) Q) :
    Yields (r.bind f) Q := by
  intro s u h
  unfold Reader.bind at h
  split at h
  · cases h
  · rename_i v hv
    obtain ⟨w, hw, he⟩ := resume_eq_ok h
    exact he ▸ hf _ (hr _ _ hv) _ _ hw

theorem map {f : α → β} (hr : Yields r P) (hf : ∀ a, P a → Q (f a)) : Yields (f <$> r) Q :=
  hr.bind fun a h => pure (hf a h)

theorem afterGap (hr : Yields r P) : Yields (Json.afterGap r) P := by
  intro s u h
  have ⟨v, hv, he⟩ := resume_eq_ok h
  exact he ▸ hr _ _ hv

theorem trivial (r : Reader α) : Yields r fun _ => True :=
  fun _ _ _ => True.intro

end Yields

-- The text does not go on with a character of the kind.
def Stops (kind : Char → Bool) (s : List Char) : Prop :=
  ∀ c ∈ s.head?, kind c = false

theorem Stops.nil (kind : Char → Bool) : Stops kind [] :=
  nofun

theorem Stops.cons {kind : Char → Bool} (h : kind c = false) (s : List Char) : Stops kind (c :: s) := by
  rintro _ ⟨⟩
  exact h

theorem takeWhile_append_of_stops {kind : Char → Bool} {ds : List Char} (hd : ∀ c ∈ ds, kind c = true)
    (hs : Stops kind rest) : (ds ++ rest).takeWhile kind = ds := by
  have hr : rest.takeWhile kind = [] := by
    cases rest
    case nil => rfl
    case cons c rest => exact List.takeWhile_cons_of_neg (by simp [hs c rfl])
  rw [List.takeWhile_append_of_pos hd, hr, List.append_nil]

theorem dropWhile_append_of_stops {kind : Char → Bool} {ds : List Char} (hd : ∀ c ∈ ds, kind c = true)
    (hs : Stops kind rest) : (ds ++ rest).dropWhile kind = rest := by
  have hr : rest.dropWhile kind = rest := by
    cases rest
    case nil => rfl
    case cons c rest => exact List.dropWhile_cons_of_neg (by simp [hs c rfl])
  rw [List.dropWhile_append_of_pos hd, hr]

theorem skipGap_of_stops (h : Stops isGap s) : skipGap s = s :=
  have hd : ∀ c ∈ [], isGap c = true := nofun
  dropWhile_append_of_stops hd h

theorem skipGap_cons (h : isGap c = false) (s : List Char) : skipGap (c :: s) = c :: s :=
  skipGap_of_stops <| .cons h s

theorem Reads.ofGap (hs : Stops isGap s) (hr : Reads r s a rest) : Reads (Json.afterGap r) s a rest :=
  .afterGap <| (skipGap_of_stops hs).symm ▸ hr

theorem reads_letters (a : α) (ls : List Char) (s : List Char) : Reads (letters a ls) (ls ++ s) a s := by
  induction ls
  case nil => exact .pure a s
  case cons l ls hi => exact hi.resume (if_pos rfl)

theorem letters_yields {P : α → Prop} (h : P a) (ls : List Char) : Yields (letters a ls) P := by
  induction ls
  case nil => exact .pure h
  case cons l ls hi =>
    intro s u hu
    unfold letters at hu
    split at hu
    · cases hu
    · split at hu
      · have ⟨v, hv, he⟩ := resume_eq_ok hu
        exact he ▸ hi _ _ hv
      · cases hu

theorem reads_digits {ds : List Char} (hd : ∀ c ∈ ds, c.isDigit = true)
    (hs : Stops (·.isDigit) rest) : Reads digits (ds ++ rest) ds rest := by
  have ht := takeWhile_append_of_stops hd hs
  have hr := dropWhile_append_of_stops hd hs
  refine ⟨List.suffix_append _ _, ?_⟩
  simp only [digits, ht, hr]

end ModelAudit.Json
