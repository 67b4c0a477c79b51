import ModelAudit.Json.Layout
import ModelAudit.Proofs.Json.Values

namespace ModelAudit.Json

variable {α β : Type} {r : Reader α} {s t rest : List Char} {j : Json} {o : Option α}

section Soundness

variable {P : α → Prop} {l : Layout α}

theorem failHere_yields (reason : Reason) : Yields (Reader.failHere reason) P :=
  nofun

theorem failPending_yields (reason : Reason) : Yields (Reader.failPending reason) P :=
  nofun

theorem mismatch_yields (wanted : String) : Yields (mismatch wanted) P := by
  intro s u hu
  have hm {γ : Type} (r : Reader γ) (found : γ → Found) :
      Yields (r.bind fun a => refuseBehind (found a) wanted) P :=
    (Yields.trivial r).bind fun _ _ => failHere_yields _
  unfold mismatch at hu
  split at hu
  · cases hu
  · dsimp only at hu
    split_ifs at hu
    · exact (hm _ id).resume hu
    · exact (hm _ id).resume hu
    · exact (hm _ id).resume hu
    · exact (hm _ .number).resume hu
    · exact hm (numberBody false) .number _ _ hu
    · exact (hm _ .text).resume hu

theorem readList_yields (hr : Yields r P) : Yields (readList r) fun as => ∀ a ∈ as, P a := by
  have hi (acc : List α) (ha : ∀ a ∈ acc, P a) : Yields (pushItem r acc) fun as => ∀ a ∈ as, P a :=
    hr.map fun a h => List.forall_mem_cons.mpr ⟨h, ha⟩
  have hl : Yields (listTail r) fun as => ∀ a ∈ as, P a :=
    enclosed_yields <| (items_yields hi <| List.forall_mem_nil P).map fun as h a ha =>
      h a <| List.mem_reverse.mp ha
  refine .afterGap fun s u hu => ?_
  split at hu
  · exact hl.resume hu
  · exact mismatch_yields (P := fun as => ∀ a ∈ as, P a) _ _ _ hu

theorem readOptional_yields (hr : Yields r P) : Yields (readOptional r) fun o => ∀ a ∈ o, P a := by
  have hn : Yields (letters none ['u', 'l', 'l']) fun o => ∀ a ∈ o, P a := letters_yields (by simp) _
  have hs : Yields (some <$> r) fun o => ∀ a ∈ o, P a := hr.map fun a h => by simpa using h
  refine .afterGap fun s u hu => ?_
  split at hu
  · exact hn.resume hu
  · exact hs _ _ hu

-- Whatever the fields leave as it is for every record is so for the records that are read.
theorem Layout.member_yields (hf : ∀ f ∈ l.fields, Yields f.read fun change => ∀ a, P a → P (change a))
    {acc : List String × α} (ha : P acc.2) : Yields (l.member acc) fun acc => P acc.2 := by
  unfold Layout.member
  refine (Yields.trivial _).bind fun name _ => ?_
  split
  · refine (Yields.trivial _).bind fun _ _ => ?_
    exact (Yields.trivial _).bind fun _ _ => .pure ha
  · rename_i f hm
    split
    · exact failPending_yields _
    · refine (Yields.trivial _).bind fun _ _ => ?_
      exact (hf f <| List.mem_of_find?_eq_some hm).bind fun change hc => .pure <| hc _ ha

theorem Layout.readMembers_yields (hb : P l.blank)
    (hf : ∀ f ∈ l.fields, Yields f.read fun change => ∀ a, P a → P (change a)) :
    Yields l.readMembers P := by
  have hm (acc : List String × α) (ha : P acc.2) : Yields (l.member acc) fun acc => P acc.2 :=
    member_yields hf ha
  have hl : Yields (members l.member ([], l.blank)) fun acc => P acc.2 := members_yields hm hb
  unfold Layout.readMembers
  refine hl.bind ?_
  rintro ⟨seen, record⟩ ha
  dsimp only
  split
  · exact failPending_yields _
  · exact .pure ha

theorem Layout.readItems_yields {fs : List (Field α)}
    (hf : ∀ f ∈ fs, Yields f.read fun change => ∀ a, P a → P (change a)) (i : Nat) {record : α}
    (h : P record) : Yields (l.readItems i fs record) P := by
  induction fs generalizing i record
  case nil => exact .pure h
  case cons f fs hi =>
    have hi := hi fun g hg => hf g <| .tail f hg
    unfold Layout.readItems
    refine (Yields.trivial _).bind fun more _ => ?_
    split
    · exact (hf f <| .head fs).bind fun change hc => hi _ <| hc _ h
    · split
      · exact failPending_yields _
      · exact hi _ h

theorem Layout.read_yields (hb : P l.blank)
    (hf : ∀ f ∈ l.fields, Yields f.read fun change => ∀ a, P a → P (change a)) : Yields l.read P := by
  refine .afterGap fun s u hu => ?_
  split at hu
  · exact Yields.resume (enclosed_yields <| readItems_yields hf 0 hb) hu
  · exact Yields.resume (enclosed_yields <| readMembers_yields hb hf) hu
  · exact mismatch_yields _ _ _ hu

end Soundness

-- The reader takes a value off the front of the text and stops before the rest, or it refuses the text.
inductive Answers (r : Reader α) (s rest : List Char) : Option α → Prop
  | takes {a} (h : Reads r s a rest) : Answers r s rest (some a)
  | refuses {f} (h : r s = .error f) : Answers r s rest none

namespace Answers

theorem resume {r' : Reader α} {h : t <:+ s} (he : r s = Json.resume h (r' t))
    (ha : Answers r' t rest o) : Answers r s rest o := by
  cases ha
  case takes ha => exact .takes <| ha.resume he
  case refuses f hf => exact .refuses (f := f) <| by rw [he, hf]; rfl

theorem bind {f : α → Reader β} {g : α → Option β} (ha : Answers r s t o)
    (hf : ∀ a, o = some a → Answers (f a) t rest (g a)) : Answers (r.bind f) s rest (o.bind g) := by
  cases ha
  case refuses e he => exact .refuses (f := e) <| by rw [Reader.bind, he]
  case takes a ha =>
    have hf := hf a rfl
    generalize hg : g a = o at hf
    rw [Option.bind_some, hg]
    cases hf
    case takes hf => exact .takes <| ha.bind hf
    case refuses e he =>
      obtain ⟨_, ha⟩ := ha
      exact .refuses (f := e) <| by rw [Reader.bind, ha]; simp only [he]; rfl

theorem bind_of_reads {f : α → Reader β} {a : α} {o : Option β} (hr : Reads r s a t)
    (hf : Answers (f a) t rest o) : Answers (r.bind f) s rest o :=
  bind (g := fun _ => o) (.takes hr) fun _ he => Option.some.inj he ▸ hf

theorem congr {r' : Reader α} (he : r s = r' s) (ha : Answers r' s rest o) : Answers r s rest o := by
  cases ha
  case takes ha => exact .takes <| ha.imp fun _ ha => he.trans ha
  case refuses ha => exact .refuses <| he.trans ha

theorem map {f : α → β} (ha : Answers r s rest o) : Answers (f <$> r) s rest (o.map f) :=
  Option.map_eq_bind ▸ ha.bind fun a _ => .takes <| .pure (f a) rest

theorem afterGap (ha : Answers r (skipGap s) rest o) : Answers (Json.afterGap r) s rest o :=
  ha.resume rfl

theorem enclosed {close : (s : List Char) → Taken (Option Fault) s} (ha : Answers r s t o)
    (hc : (close t).value = none) (ht : (close t).rest = rest) :
    Answers (Json.enclosed close r) s rest o := by
  cases ha
  case takes ha => exact .takes <| reads_enclosed ha hc ht
  case refuses f hf =>
    refine .refuses (f := f.settle fun left => (close left).rest) ?_
    simp only [Json.enclosed, hf]

end Answers

-- A value that is written an entry a line is answered so by the reader, whatever blanks stand in front
-- of it and whatever follows.
structure Answered (r : Reader α) (j : Json) (o : Option α) : Prop where
  opens   : ∀ depth, ∃ c t, prettyChars depth j = c :: t ∧ isGap c = false ∧ c ≠ ']'
  answers : ∀ depth s rest, skipGap s = prettyChars depth j ++ rest → Answers r s rest o

theorem skipGap_lineBreak (depth : Nat) (s : List Char) : skipGap (lineBreak depth ++ s) = skipGap s := by
  unfold skipGap
  refine List.dropWhile_append_of_pos fun c hc => ?_
  simp only [lineBreak, List.mem_cons, List.mem_replicate] at hc
  obtain rfl | ⟨_, rfl⟩ := hc <;> rfl

namespace Answered

-- The blanks in front are those behind a bracket, a comma or a colon.
theorem skipGap_append (h : Answered r j o) (depth : Nat) (rest : List Char) :
    skipGap (prettyChars depth j ++ rest) = prettyChars depth j ++ rest := by
  have ⟨c, t, ht, hg, _⟩ := h.opens depth
  rw [ht]
  exact skipGap_cons hg _

theorem head_append (h : Answered r j o) (depth : Nat) (rest : List Char) :
    ∃ c t, c ≠ ']' ∧ prettyChars depth j ++ rest = c :: t := by
  have ⟨c, t, ht, _, hc⟩ := h.opens depth
  exact ⟨c, t ++ rest, hc, by rw [ht]; rfl⟩

-- A whole text is read as what stands in it, or it is refused.
theorem decode (h : Answered r j o) : (Json.decode r j.pretty).toOption = o := by
  have hp : j.pretty.toList = prettyChars 0 j ++ [] := by
    rw [pretty, String.toList_ofList, List.append_nil]
  have ha := h.answers 0 j.pretty.toList [] <| hp ▸ h.skipGap_append 0 []
  unfold Json.decode
  cases ha
  case refuses f hf => simp only [hf]; rfl
  case takes a ha =>
    have ⟨_, ha⟩ := ha
    simp only [ha]
    rfl

theorem map {f : α → β} (h : Answered r j o) : Answered (f <$> r) j (o.map f) where
  opens   := h.opens
  answers := fun depth s rest hs => (h.answers depth s rest hs).map

theorem of_eq {o' : Option α} (h : Answered r j o) (he : o = o') : Answered r j o' :=
  he ▸ h

theorem bind {f : α → Reader β} {a : α} {o : Option β} (h : Answered r j (some a))
    (hf : ∀ rest, Answers (f a) rest rest o) : Answered (r.bind f) j o where
  opens   := h.opens
  answers := by
    intro depth s rest hs
    refine (h.answers depth s rest hs).bind (g := fun _ => o) fun b he => ?_
    exact Option.some.inj he ▸ hf rest

theorem text (x : String) : Answered readText (.text x) (some x) where
  opens   := fun _ => ⟨_, _, rfl, rfl, by decide⟩
  answers := by
    intro depth s rest hs
    refine .afterGap ?_
    have hc : prettyChars depth (.text x) ++ rest = '"' :: (x.toList.flatMap escapeChar ++ '"' :: rest) := by
      simp [prettyChars, chars, textChars]
    rw [hs, hc]
    exact .takes <| (reads_textBody x rest).resume (h := List.suffix_cons _ _) rfl

theorem optional {x : String} (h : Answered r (.text x) o) :
    Answered (readOptional r) (.text x) (o.map some) where
  opens   := h.opens
  answers := by
    intro depth s rest hs
    have ha := (h.answers depth _ rest <| h.skipGap_append depth rest).map (f := some)
    have hc : prettyChars depth (.text x) ++ rest = '"' :: (x.toList.flatMap escapeChar ++ '"' :: rest) := by
      simp [prettyChars, chars, textChars]
    refine .afterGap ?_
    rw [hs, hc]
    rw [hc] at ha
    exact ha.congr rfl

end Answered

section List

variable {write : α → Json} {back : α → Option α} {as : List α}

theorem Answered.skipGap_lineBreak (h : Answered r j o) (depth : Nat) (rest : List Char) :
    skipGap (lineBreak depth ++ (prettyChars depth j ++ rest)) = prettyChars depth j ++ rest :=
  (Json.skipGap_lineBreak ..).trans <| h.skipGap_append depth rest

theorem Answered.head_lineBreak (h : Answered r j o) (depth : Nat) (rest : List Char) :
    ∃ c t, c ≠ ']' ∧ skipGap (lineBreak depth ++ (prettyChars depth j ++ rest)) = c :: t := by
  rw [h.skipGap_lineBreak]
  exact h.head_append depth rest

-- An item, and whatever comes of the items behind it.
theorem answers_item {a : α} (ha : Answered r (write a) (back a)) (acc : List α) (depth : Nat)
    (hi : ∀ acc, Answers (moreItems (pushItem r) acc) t rest ((as.mapM back).map (·.reverse ++ acc))) :
    Answers (Reader.bind (pushItem r acc) (moreItems (pushItem r)))
      (lineBreak depth ++ (prettyChars depth (write a) ++ t)) rest
      (((a :: as).mapM back).map (·.reverse ++ acc)) := by
  have hr := ha.answers _ _ _ <| ha.skipGap_lineBreak depth t
  have hb := (hr.map (f := (· :: acc))).bind fun acc' _ => hi acc'
  have ho : (((back a).map (· :: acc)).bind fun acc' => (as.mapM back).map (·.reverse ++ acc')) =
      ((a :: as).mapM back).map (·.reverse ++ acc) := by
    rw [List.mapM_cons]
    cases back a <;> cases as.mapM back <;> simp
  exact ho ▸ hb

-- The items behind the first one.
theorem answers_tail (h : ∀ a ∈ as, Answered r (write a) (back a)) (acc : List α) (depth : Nat)
    (rest : List Char) : Answers (moreItems (pushItem r) acc) (prettyTail depth (as.map write) ++ rest)
      (']' :: rest) ((as.mapM back).map (·.reverse ++ acc)) := by
  induction as generalizing acc
  case nil =>
    refine .takes <| moreItems_end _ acc ?_
    rw [List.map_nil, prettyTail, List.append_assoc, Json.skipGap_lineBreak]
    exact skipGap_cons rfl rest
  case cons a as hi =>
    have ha := h a <| .head as
    have hb := answers_item ha acc (depth + 1) <| hi fun b hb => h b <| .tail a hb
    have ⟨c, t, hc, ht⟩ := ha.head_lineBreak (depth + 1) (prettyTail depth (as.map write) ++ rest)
    rw [List.map_cons, prettyTail]
    simp only [List.cons_append, List.append_assoc]
    exact hb.resume <| moreItems_comma (skipGap_cons rfl _) ht hc

theorem answers_items (h : ∀ a ∈ as, Answered r (write a) (back a)) (depth : Nat) (rest : List Char) :
    Answers (items (pushItem r) []) ((prettyChars depth <| .list <| as.map write).tail ++ rest)
      (']' :: rest) ((as.mapM back).map List.reverse) := by
  cases as
  case nil => exact .takes <| items_end _ [] <| skipGap_cons rfl rest
  case cons a as =>
    have ha := h a <| .head as
    have hb := answers_item ha [] (depth + 1) fun acc =>
      answers_tail (fun b hb => h b <| .tail a hb) acc depth rest
    have ⟨c, t, hc, ht⟩ := ha.head_lineBreak (depth + 1) (prettyTail depth (as.map write) ++ rest)
    rw [List.map_cons, prettyChars]
    simp only [List.cons_append, List.append_assoc, List.tail_cons]
    simp only [List.append_nil] at hb
    exact hb.congr <| items_cons ht hc

theorem Answered.list (h : ∀ a ∈ as, Answered r (write a) (back a)) :
    Answered (readList r) (.list <| as.map write) (as.mapM back) where
  opens   := by
    intro depth
    cases as <;> exact ⟨_, _, rfl, rfl, by decide⟩
  answers := by
    intro depth s rest hs
    have ⟨hv, hr⟩ := closeList_bracket rest
    have ha := (answers_items h depth rest).map (f := List.reverse) |>.enclosed hv hr
    have hc : prettyChars depth (.list <| as.map write) =
        '[' :: (prettyChars depth (.list <| as.map write)).tail := by
      cases as <;> rfl
    have ho : ((as.mapM back).map List.reverse).map List.reverse = as.mapM back := by
      cases as.mapM back <;> simp
    rw [ho] at ha
    refine .afterGap ?_
    rw [hs, hc]
    exact ha.resume (h := List.suffix_cons _ _) rfl

theorem Answered.texts (xs : List String) :
    Answered (readList readText) (.list <| xs.map .text) (some xs) := by
  refine (Answered.list fun x _ => .text x).of_eq ?_
  have hp : xs.mapM pure = pure (xs.map id) := List.mapM_pure (m := Option)
  rwa [List.map_id] at hp

end List

section Record

variable {l : Layout α} {m : String × Json} {ms : List (String × Json)} {os : List (Option (α → α))}

-- The record after it was changed by its members, if none of them is refused.
def changed (record : α) (os : List (Option (α → α))) : Option α :=
  os.foldlM (fun record change? => change?.map (· record)) record

-- The member is read by the field of its name.
def Layout.Takes (l : Layout α) (m : String × Json) (change? : Option (α → α)) : Prop :=
  ∃ f, l.fields.find? (·.name == m.1) = some f ∧ Answered f.read m.2 change?

-- The names of an object that lacks none of the fields that must not be missing.
structure Layout.Complete (l : Layout α) (names : List String) : Prop where
  distinct  : names.Nodup
  inhabited : names ≠ []
  missing   : l.missing? names.reverse = none

theorem answers_member {change? : Option (α → α)} (h : l.Takes m change?) {acc : List String × α}
    (hn : m.1 ∉ acc.1) (depth : Nat) (rest : List Char) :
    Answers (l.member acc)
      (m.1.toList.flatMap escapeChar ++ '"' :: ':' :: ' ' :: (prettyChars depth m.2 ++ rest)) rest
      (change?.map fun change => (m.1 :: acc.1, change acc.2)) := by
  obtain ⟨f, hf, ha⟩ := h
  have hname : f.name = m.1 := by simpa using List.find?_some hf
  have hs : skipGap (' ' :: (prettyChars depth m.2 ++ rest)) = prettyChars depth m.2 ++ rest :=
    ha.skipGap_append depth rest
  have hm := (ha.answers depth _ rest hs).map (f := fun change => (f.name :: acc.1, change acc.2))
  unfold Layout.member
  refine .bind_of_reads (reads_textBody m.1 _) ?_
  simp only [hf, hname, if_neg hn]
  exact .bind_of_reads (reads_colon _) <| hname ▸ hm

theorem changed_cons (record : α) (change? : Option (α → α)) (os : List (Option (α → α))) :
    changed record (change? :: os) = change?.bind fun change => changed (change record) os := by
  cases change? <;> rfl

theorem changed_last (record : α) (o : Option β) (put : β → α → α) :
    changed record [o.map put] = o.map fun b => put b record := by
  cases o <;> rfl

-- The text of a member from its name on, and of all that follows in the object.
def memberText (depth : Nat) (m : String × Json) (ms : List (String × Json)) (rest : List Char) :
    List Char :=
  m.1.toList.flatMap escapeChar ++ '"' :: ':' :: ' ' ::
    (prettyChars (depth + 1) m.2 ++ (prettyMembers depth ms ++ rest))

theorem skipGap_member (depth : Nat) (m : String × Json) (ms : List (String × Json)) (rest : List Char) :
    skipGap (lineBreak (depth + 1) ++ '"' :: memberText depth m ms rest) =
      '"' :: memberText depth m ms rest :=
  (skipGap_lineBreak ..).trans <| skipGap_cons rfl _

theorem prettyMembers_cons (depth : Nat) (m : String × Json) (ms : List (String × Json))
    (rest : List Char) : prettyMembers depth (m :: ms) ++ rest =
      ',' :: (lineBreak (depth + 1) ++ '"' :: memberText depth m ms rest) := by
  simp [prettyMembers, memberText, textChars]

theorem prettyChars_object (depth : Nat) (m : String × Json) (ms : List (String × Json))
    (rest : List Char) : prettyChars depth (.object (m :: ms)) ++ rest =
      '\x7b' :: (lineBreak (depth + 1) ++ '"' :: memberText depth m ms rest) := by
  simp [prettyChars, memberText, textChars]

-- A member, and whatever comes of the members behind it.
theorem answers_memberText {change? : Option (α → α)} (hm : l.Takes m change?) {depth : Nat}
    (acc : List String × α) (hn : m.1 ∉ acc.1) (f : α → Option (List String × α))
    (hr : ∀ change : α → α, Answers (moreMembers l.member (m.1 :: acc.1, change acc.2))
      (prettyMembers depth ms ++ rest) ('\x7d' :: rest) (f (change acc.2))) :
    Answers (Reader.bind (l.member acc) (moreMembers l.member)) (memberText depth m ms rest)
      ('\x7d' :: rest) (change?.bind fun change => f (change acc.2)) := by
  have ha := answers_member hm hn (depth + 1) (prettyMembers depth ms ++ rest)
  have hb := ha.bind (f := moreMembers l.member) (g := fun acc => f acc.2) fun acc' he => by
    obtain ⟨change, _, rfl⟩ := Option.map_eq_some_iff.mp he
    exact hr change
  rwa [Option.bind_map] at hb

theorem answers_moreMembers (h : List.Forall₂ l.Takes ms os) (hd : (ms.map (·.1)).Nodup)
    (acc : List String × α) (hn : ∀ m ∈ ms, m.1 ∉ acc.1) (depth : Nat) (rest : List Char) :
    Answers (moreMembers l.member acc) (prettyMembers depth ms ++ rest) ('\x7d' :: rest)
      ((changed acc.2 os).map fun record => ((ms.map (·.1)).reverse ++ acc.1, record)) := by
  induction h generalizing acc
  case nil =>
    refine .takes <| moreMembers_end _ acc ?_
    rw [prettyMembers, List.append_assoc, skipGap_lineBreak]
    exact skipGap_cons rfl rest
  case cons m change? ms os hm _ hi =>
    obtain ⟨hd, hd'⟩ := List.nodup_cons.mp hd
    have hn' : ∀ m' ∈ ms, m'.1 ∉ m.1 :: acc.1 := by
      intro m' hm' he
      rcases List.mem_cons.mp he with he | he
      · exact hd <| List.mem_map.mpr ⟨m', hm', he⟩
      · exact hn m' (.tail m hm') he
    have hb := answers_memberText hm acc (hn m <| .head ms)
      (fun record => (changed record os).map fun record => ((ms.map (·.1)).reverse ++ m.1 :: acc.1, record))
      fun change => hi hd' (_, change acc.2) hn'
    rw [changed_cons, prettyMembers_cons, List.map_cons, List.reverse_cons, List.append_assoc,
      Option.map_bind]
    exact hb.resume <| moreMembers_comma (skipGap_cons rfl _) (skipGap_member ..)

theorem answers_members (h : List.Forall₂ l.Takes (m :: ms) os) (hd : ((m :: ms).map (·.1)).Nodup)
    (depth : Nat) (rest : List Char) :
    Answers (members l.member ([], l.blank))
      (lineBreak (depth + 1) ++ '"' :: memberText depth m ms rest) ('\x7d' :: rest)
      ((changed l.blank os).map fun record => (((m :: ms).map (·.1)).reverse, record)) := by
  cases h
  case cons change? os hm h =>
    obtain ⟨hd, hd'⟩ := List.nodup_cons.mp hd
    have hn : ∀ m' ∈ ms, m'.1 ∉ [m.1] := fun m' hm' he =>
      hd <| List.mem_map.mpr ⟨m', hm', List.mem_singleton.mp he⟩
    have hb := answers_memberText hm ([], l.blank) List.not_mem_nil
      (fun record => (changed record os).map fun record => ((ms.map (·.1)).reverse ++ [m.1], record))
      fun change => answers_moreMembers h hd' ([m.1], change l.blank) hn depth rest
    rw [changed_cons, List.map_cons, List.reverse_cons, Option.map_bind]
    exact hb.resume <| members_cons (skipGap_member ..)

theorem answers_readMembers (h : List.Forall₂ l.Takes (m :: ms) os)
    (hc : l.Complete <| (m :: ms).map (·.1)) (depth : Nat) (rest : List Char) :
    Answers l.readMembers (lineBreak (depth + 1) ++ '"' :: memberText depth m ms rest) ('\x7d' :: rest)
      (changed l.blank os) := by
  have ho : ((changed l.blank os).map fun record => (((m :: ms).map (·.1)).reverse, record)).bind
      (fun p => some p.2) = changed l.blank os := by
    cases changed l.blank os <;> rfl
  unfold Layout.readMembers
  rw [← ho]
  refine Answers.bind (answers_members h hc.distinct depth rest) ?_
  rintro p hp
  obtain ⟨record, _, rfl⟩ := Option.map_eq_some_iff.mp hp
  dsimp only
  rw [hc.missing]
  exact .takes <| .pure record _

-- A record is read by its layout if each of its members is read by the field of its name.
theorem Answered.record (h : List.Forall₂ l.Takes ms os) (hc : l.Complete <| ms.map (·.1)) :
    Answered l.read (.object ms) (changed l.blank os) := by
  cases ms
  case nil => exact absurd rfl hc.inhabited
  case cons m ms =>
    constructor
    case opens => exact fun _ => ⟨_, _, rfl, rfl, by decide⟩
    case answers =>
      intro depth s rest hs
      have ⟨hv, hr⟩ := closeObject_brace rest
      refine .afterGap ?_
      rw [hs, prettyChars_object]
      exact ((answers_readMembers h hc depth rest).enclosed hv hr).resume (h := List.suffix_cons _ _) rfl

end Record

end ModelAudit.Json
