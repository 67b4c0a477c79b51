import ModelAudit.Json.Reader.Value
import ModelAudit.Proofs.Json.Numbers
import ModelAudit.Proofs.Json.Texts

namespace ModelAudit.Json

variable {α : Type} {s t u rest : List Char} {j k : Json} {c : Char}

-- A value that can be read with so many brackets one in another.
inductive Proper : Nat → Json → Prop
  | null : Proper d .null
  | bool (b : Bool) : Proper d (.bool b)
  | number {n : Number} (h : n.InRange) : Proper d (.number n)
  | text (x : String) : Proper d (.text x)
  | list {items : List Json} (h : ∀ j ∈ items, Proper d j) : Proper (d + 1) (.list items)
  | object {ms : List (String × Json)} (ha : Ascending ms) (h : ∀ m ∈ ms, Proper d m.2) :
      Proper (d + 1) (.object ms)

section Soundness

variable {σ : Type} {P : σ → Prop} {item : σ → Reader σ} {acc : σ}

theorem enclosed_yields {close : (s : List Char) → Taken (Option Fault) s} {Q : α → Prop}
    {inside : Reader α} (h : Yields inside Q) : Yields (enclosed close inside) Q := by
  intro s u hu
  unfold enclosed at hu
  split at hu
  · cases hu
  · rename_i v hv
    dsimp only at hu
    split at hu <;> cases hu
    exact h s v hv

theorem moreItems_yields (hi : ∀ acc, P acc → Yields (item acc) P) (ha : P acc) :
    Yields (moreItems item acc) P := by
  intro s u hu
  fun_induction moreItems item acc s
  case case2 => cases hu; exact ha
  case case6 hv _ _ _ ih =>
    have ⟨w, hw, he⟩ := resume_eq_ok hu
    exact he ▸ ih (hi _ ha _ _ hv) w hw
  all_goals cases hu

theorem items_yields (hi : ∀ acc, P acc → Yields (item acc) P) (ha : P acc) :
    Yields (items item acc) P := by
  intro s u hu
  unfold items at hu
  split at hu
  · cases hu
  · cases hu; exact ha
  · exact (hi _ ha).bind (fun _ => moreItems_yields hi) _ _ hu

theorem moreMembers_yields (hi : ∀ acc, P acc → Yields (item acc) P) (ha : P acc) :
    Yields (moreMembers item acc) P := by
  intro s u hu
  fun_induction moreMembers item acc s
  case case2 => cases hu; exact ha
  case case5 hv _ _ ih =>
    have ⟨w, hw, he⟩ := resume_eq_ok hu
    exact he ▸ ih (hi _ ha _ _ hv) w hw
  all_goals cases hu

theorem members_yields (hi : ∀ acc, P acc → Yields (item acc) P) (ha : P acc) :
    Yields (members item acc) P := by
  intro s u hu
  unfold members at hu
  split at hu
  · cases hu
  · cases hu; exact ha
  · have ⟨w, hw, he⟩ := resume_eq_ok hu
    exact he ▸ (hi _ ha).bind (fun _ => moreMembers_yields hi) _ _ hw
  · cases hu

end Soundness

section Soundness

variable {list object : Reader Json}

theorem Yields.resume {r : Reader α} {P : α → Prop} {h : t <:+ s} {u : Taken α s} (hr : Yields r P)
    (hu : Json.resume h (r t) = .ok u) : P u.value := by
  have ⟨v, hv, he⟩ := resume_eq_ok hu
  exact he ▸ hr t v hv

theorem Yields.behind {r : Reader α} {P : α → Prop} (hr : Yields r P) : Yields (Json.behind r) P := by
  intro s u hu
  cases s
  case nil => exact hr _ _ hu
  case cons => exact hr.resume hu

theorem valueWith_yields {d : Nat} (hl : Yields list (Proper d)) (ho : Yields object (Proper d)) :
    Yields (valueWith list object) (Proper d) := by
  refine .afterGap fun s u hu => ?_
  dsimp only at hu
  split at hu
  · cases hu
  · split_ifs at hu
    · exact (letters_yields .null _).resume hu
    · exact (letters_yields (.bool true) _).resume hu
    · exact (letters_yields (.bool false) _).resume hu
    · exact ((numberBody_yields true).map fun _ => .number).resume hu
    · exact ((numberBody_yields false).map fun _ => Proper.number) _ _ hu
    · exact ((Yields.trivial textBody).map fun x _ => .text x).resume hu
    · exact hl _ _ hu
    · exact ho _ _ hu

theorem addMember_yields {d : Nat} {value : Reader Json} (hv : Yields value (Proper d))
    {acc : List (String × Json)} (ha : Ascending acc ∧ ∀ m ∈ acc, Proper d m.2) :
    Yields (addMember value acc) fun ms => Ascending ms ∧ ∀ m ∈ ms, Proper d m.2 := by
  unfold addMember
  refine (Yields.trivial _).bind fun name _ => ?_
  refine (Yields.trivial _).bind fun _ _ => ?_
  refine hv.bind fun j hj => ?_
  refine .pure ⟨ha.1.insert name j, fun m hm => ?_⟩
  rcases mem_insert hm with rfl | hm
  · exact hj
  · exact ha.2 m hm

-- Whatever is read is proper.
theorem value_yields (d : Nat) : Yields (value d) (Proper d) := by
  induction d
  case zero => exact valueWith_yields nofun nofun
  case succ d hi =>
    refine valueWith_yields (.behind <| .map (P := fun js => ∀ j ∈ js, Proper d j) ?_ fun _ => .list)
      (.behind <| .map (P := fun ms => Ascending ms ∧ ∀ m ∈ ms, Proper d m.2) (enclosed_yields ?_)
        fun _ h => .object h.1 h.2)
    · refine enclosed_yields <| .map (items_yields (P := fun js => ∀ j ∈ js, Proper d j) ?_ nofun) ?_
      · intro acc ha
        refine hi.map fun j hj k hk => ?_
        rcases List.mem_cons.mp hk with rfl | hk
        · exact hj
        · exact ha k hk
      · exact fun js h j hj => h j <| List.mem_reverse.mp hj
    · exact members_yields (fun acc => addMember_yields hi) ⟨.nil, nofun⟩

end Soundness

theorem decode_eq_ok {r : Reader α} {text : String} {a : α} (h : decode r text = .ok a) :
    ∃ u, r text.toList = .ok u ∧ u.value = a := by
  unfold decode at h
  split at h
  · cases h
  · rename_i u hu
    split at h <;> cases h
    exact ⟨u, hu, rfl⟩

theorem parse_proper {text : String} (h : parse text = .ok j) : Proper maxDepth j := by
  have ⟨u, hu, he⟩ := decode_eq_ok h
  exact he ▸ value_yields maxDepth _ u hu

section Completeness

variable {σ : Type} {item : σ → Reader σ} {acc a b : σ} {list object : Reader Json} {r : Reader Json}

theorem isGap_of_isDigit (h : c.isDigit = true) : isGap c = false := by
  by_contra hg
  have hg : ((c = ' ' ∨ c = '\n') ∨ c = '\t') ∨ c = '\x0d' := by
    simpa only [isGap, Bool.not_eq_false, Bool.or_eq_true, beq_iff_eq] using hg
  rcases hg with ((rfl | rfl) | rfl) | rfl <;> exact absurd h (by decide)

-- What a value starts with: neither a blank nor a bracket that ends a list.
theorem chars_head {d : Nat} (h : Proper d j) :
    ∃ c t, j.chars = c :: t ∧ isGap c = false ∧ c ≠ ']' := by
  cases h
  case null => exact ⟨_, _, rfl, rfl, by decide⟩
  case bool b => cases b <;> exact ⟨_, _, rfl, rfl, by decide⟩
  case text => exact ⟨_, _, rfl, rfl, by decide⟩
  case list items _ => cases items <;> exact ⟨_, _, rfl, rfl, by decide⟩
  case object ms _ _ => cases ms <;> exact ⟨_, _, rfl, rfl, by decide⟩
  case number n h =>
    have ⟨c, t, ht, hc⟩ := Number.digit_unsignedChars h
    rw [chars, Number.chars_eq, ht]
    split
    · exact ⟨_, _, rfl, rfl, by decide⟩
    · exact ⟨c, t, rfl, isGap_of_isDigit hc, by rintro rfl; exact absurd hc (by decide)⟩

theorem reads_number {n : Number} (hn : n.InRange) (hs : Stops goesOn rest) :
    Reads (valueWith list object) (n.chars ++ rest) (.number n) rest := by
  have hr := (reads_numberBody hn hs).map (f := Json.number)
  rw [Number.chars_eq]
  cases hm : n.isNegative
  case true =>
    rw [hm] at hr
    exact .ofGap (.cons rfl _) <| hr.resume rfl
  case false =>
    have ⟨c, t, ht, hc⟩ := Number.digit_unsignedChars hn
    rw [hm, ht] at hr
    rw [ht, if_neg (by decide), List.nil_append, List.cons_append]
    refine .ofGap (.cons (isGap_of_isDigit hc) _) ?_
    have ⟨hr, he⟩ := hr
    have hd (e : Char) (he : e.isDigit = false) : c ≠ e := by
      rintro rfl
      simp [he] at hc
    refine ⟨hr, ?_⟩
    simp only [if_neg (hd 'n' rfl), if_neg (hd 't' rfl), if_neg (hd 'f' rfl), if_neg (hd '-' rfl),
      if_pos hc]
    exact he

theorem reads_enclosed {close : (s : List Char) → Taken (Option Fault) s} {inside : Reader α} {a : α}
    (hr : Reads inside s a t) (hc : (close t).value = none) (ht : (close t).rest = rest) :
    Reads (enclosed close inside) s a rest := by
  have ⟨hs, hr⟩ := hr
  subst ht
  refine ⟨(close t).suffix.trans hs, ?_⟩
  simp only [enclosed, hr, hc]

theorem closeList_bracket (rest : List Char) :
    (closeList (']' :: rest)).value = none ∧ (closeList (']' :: rest)).rest = rest := by
  have h := skipGap_cons (c := ']') rfl rest
  unfold closeList
  split <;> simp_all [pastGap]

theorem closeObject_brace (rest : List Char) :
    (closeObject ('\x7d' :: rest)).value = none ∧ (closeObject ('\x7d' :: rest)).rest = rest := by
  have h := skipGap_cons (c := '\x7d') rfl rest
  unfold closeObject
  split <;> simp_all [pastGap]

theorem resume_resume {h : s <:+ t} {h' : t <:+ u} (read : Except Fault (Taken α s)) :
    resume h' (resume h read) = resume (h.trans h') read := by
  cases read <;> rfl

-- Blanks may stand in front of everything that items and members are made of.
section Gaps

variable {v : List Char}

theorem moreItems_end (item : σ → Reader σ) (acc : σ) (hs : skipGap s = ']' :: rest) :
    Reads (moreItems item acc) s acc (']' :: rest) := by
  refine ⟨hs ▸ skipGap_suffix s, ?_⟩
  rw [moreItems]
  split <;> grind [behindGap]

theorem moreItems_comma (hs : skipGap s = ',' :: t) (ht : skipGap t = c :: v) (hc : c ≠ ']') :
    moreItems item acc s =
      resume (suffix_of_skipGap_eq hs) (Reader.bind (item acc) (moreItems item) t) := by
  rw [moreItems]
  split
  case h_3 t' hs' =>
    obtain rfl : t = t' := by simpa using hs.symm.trans hs'
    split
    case h_3 =>
      unfold Reader.bind
      cases item acc t
      case error => rfl
      case ok => exact (resume_resume ..).symm
    all_goals grind
  all_goals grind

theorem items_end (item : σ → Reader σ) (acc : σ) (hs : skipGap s = ']' :: rest) :
    Reads (items item acc) s acc (']' :: rest) := by
  refine ⟨hs ▸ skipGap_suffix s, ?_⟩
  unfold items
  split <;> grind [behindGap]

theorem items_cons (hs : skipGap s = c :: t) (hc : c ≠ ']') :
    items item acc s = Reader.bind (item acc) (moreItems item) s := by
  unfold items
  split <;> grind

theorem moreMembers_end (item : σ → Reader σ) (acc : σ) (hs : skipGap s = '\x7d' :: rest) :
    Reads (moreMembers item acc) s acc ('\x7d' :: rest) := by
  refine ⟨hs ▸ skipGap_suffix s, ?_⟩
  rw [moreMembers]
  split <;> grind [behindGap]

theorem moreMembers_comma (hs : skipGap s = ',' :: t) (ht : skipGap t = '"' :: v) :
    moreMembers item acc s =
      resume ((suffix_of_skipGap_eq ht).trans (suffix_of_skipGap_eq hs))
        (Reader.bind (item acc) (moreMembers item) v) := by
  rw [moreMembers]
  split
  case h_3 t' hs' =>
    obtain rfl : t = t' := by simpa using hs.symm.trans hs'
    split
    case h_2 v' ht' =>
      obtain rfl : v = v' := by simpa using ht.symm.trans ht'
      unfold Reader.bind
      cases item acc v
      case error => rfl
      case ok => exact (resume_resume ..).symm
    all_goals grind
  all_goals grind

theorem members_end (item : σ → Reader σ) (acc : σ) (hs : skipGap s = '\x7d' :: rest) :
    Reads (members item acc) s acc ('\x7d' :: rest) := by
  refine ⟨hs ▸ skipGap_suffix s, ?_⟩
  unfold members
  split <;> grind [behindGap]

theorem members_cons (hs : skipGap s = '"' :: t) :
    members item acc s =
      resume (suffix_of_skipGap_eq hs) (Reader.bind (item acc) (moreMembers item) t) := by
  unfold members
  split
  case h_3 t' hs' =>
    obtain rfl : t = t' := by simpa using hs.symm.trans hs'
    rfl
  all_goals grind

end Gaps

-- The name of a later member is the greatest so far, so the member goes to the end.
theorem insert_of_forall_lt {name : String} {ms : List (String × Json)} (h : ∀ m ∈ ms, m.1 < name)
    (j : Json) : insert name j ms = ms ++ [(name, j)] := by
  induction ms
  case nil => rfl
  case cons m ms hi =>
    have hm := h m <| .head ms
    rw [insert, if_neg <| String.lt_asymm hm, if_neg (String.ne_of_lt hm).symm,
      hi fun m hm => h m <| .tail _ hm]
    rfl

theorem reads_colon (rest : List Char) : Reads colon (':' :: rest) () rest := by
  have h := skipGap_cons (c := ':') rfl rest
  refine ⟨List.suffix_cons _ _, ?_⟩
  unfold colon
  split <;> simp_all [pastGap]

theorem reads_member {value : Reader Json} {name : String} {ms : List (String × Json)}
    (hm : ∀ m ∈ ms, m.1 < name) (hr : Reads value s j rest) :
    Reads (addMember value ms) (name.toList.flatMap escapeChar ++ '"' :: ':' :: s)
      (ms ++ [(name, j)]) rest := by
  unfold addMember
  refine (reads_textBody name _).bind ?_
  refine (reads_colon s).bind ?_
  refine hr.bind ?_
  rw [insert_of_forall_lt hm]
  exact .pure _ rest

-- What stands behind an item or a member is no part of a number.
theorem tailChars_stops (js : List Json) (rest : List Char) : Stops goesOn (tailChars js ++ rest) := by
  cases js <;> exact .cons rfl _

theorem memberChars_stops (ms : List (String × Json)) (rest : List Char) :
    Stops goesOn (memberChars ms ++ rest) := by
  rcases ms with _ | ⟨⟨_, _⟩, _⟩ <;> exact .cons rfl _

-- Each of the values is read as itself wherever a list or an object has it.
def ReadsAll (r : Reader Json) (js : List Json) : Prop :=
  ∀ j ∈ js, (∃ d, Proper d j) ∧ ∀ rest, Stops goesOn rest → Reads r (j.chars ++ rest) j rest

theorem reads_tail {js : List Json} (h : ReadsAll r js) (acc : List Json) (rest : List Char) :
    Reads (moreItems (pushItem r) acc) (tailChars js ++ rest) (js.reverse ++ acc) (']' :: rest) := by
  induction js generalizing acc
  case nil => exact moreItems_end _ acc <| skipGap_cons rfl rest
  case cons j js hi =>
    have ⟨⟨_, hp⟩, hr⟩ := h j <| .head js
    have ⟨c, t, ht, hg, hc⟩ := chars_head hp
    have hr := (hr _ <| tailChars_stops js rest).map (f := (· :: acc))
    have hs := hr.bind <| hi (fun k hk => h k <| .tail j hk) (j :: acc)
    simp only [tailChars, List.reverse_cons, List.append_assoc, List.cons_append]
    rw [ht] at hs ⊢
    exact hs.resume <| moreItems_comma (skipGap_cons rfl _) (skipGap_cons hg _) hc

theorem reads_items {js : List Json} (h : ReadsAll r js) (rest : List Char) :
    Reads (items (pushItem r) []) (((Json.list js).chars).tail ++ rest) js.reverse (']' :: rest) := by
  cases js
  case nil => exact items_end _ [] <| skipGap_cons rfl rest
  case cons j js =>
    have ⟨⟨_, hp⟩, hr⟩ := h j <| .head js
    have ⟨c, t, ht, hg, hc⟩ := chars_head hp
    have hr := (hr _ <| tailChars_stops js rest).map (f := (· :: ([] : List Json)))
    have hs := hr.bind <| reads_tail (fun k hk => h k <| .tail j hk) [j] rest
    rw [chars, List.cons_append, List.tail_cons, List.append_assoc, List.reverse_cons]
    rw [ht] at hs ⊢
    have ⟨hs, he⟩ := hs
    exact ⟨hs, (items_cons (skipGap_cons hg _) hc).trans he⟩

theorem chars_list (js : List Json) : (Json.list js).chars = '[' :: (Json.list js).chars.tail := by
  cases js <;> rfl

theorem chars_object (ms : List (String × Json)) :
    (Json.object ms).chars = '\x7b' :: (Json.object ms).chars.tail := by
  rcases ms with _ | ⟨⟨_, _⟩, _⟩ <;> rfl

theorem reads_list {js : List Json} (h : ReadsAll r js) (rest : List Char) :
    Reads (behind (Json.list <$> listTail r)) ((Json.list js).chars ++ rest) (.list js) rest := by
  have ⟨hv, hr⟩ := closeList_bracket rest
  have hl := (reads_enclosed ((reads_items h rest).map (f := List.reverse)) hv hr).map (f := Json.list)
  rw [List.reverse_reverse] at hl
  rw [chars_list]
  exact hl.resume (h := List.suffix_cons _ _) rfl

theorem reads_memberTail {ms acc : List (String × Json)} (h : ReadsAll r (ms.map (·.2)))
    (ha : Ascending (acc ++ ms)) (rest : List Char) :
    Reads (moreMembers (addMember r) acc) (memberChars ms ++ rest) (acc ++ ms) ('\x7d' :: rest) := by
  induction ms generalizing acc
  case nil => rw [List.append_nil]; exact moreMembers_end _ acc <| skipGap_cons rfl rest
  case cons m ms hi =>
    obtain ⟨name, j⟩ := m
    have hr := (h j <| .head _).2 _ <| memberChars_stops ms rest
    have hn : ∀ m ∈ acc, m.1 < name := fun m hm =>
      (List.pairwise_append.mp ha).2.2 m hm (name, j) <| .head ms
    have hm := reads_member hn hr
    have ha' : Ascending ((acc ++ [(name, j)]) ++ ms) := by simpa using ha
    have hs := hi (fun k hk => h k <| .tail j hk) ha'
    rw [List.append_assoc, List.singleton_append] at hs
    have hb := (hm.bind hs).resume <| moreMembers_comma (skipGap_cons rfl _) (skipGap_cons rfl _)
    rw [memberChars, textChars]
    simpa using hb

theorem reads_members {ms : List (String × Json)} (h : ReadsAll r (ms.map (·.2)))
    (ha : Ascending ms) (rest : List Char) :
    Reads (members (addMember r) []) (((Json.object ms).chars).tail ++ rest) ms ('\x7d' :: rest) := by
  rcases ms with _ | ⟨⟨name, j⟩, ms⟩
  · exact members_end _ [] <| skipGap_cons rfl rest
  · have hr := (h j <| .head _).2 _ <| memberChars_stops ms rest
    have hn : ∀ m ∈ ([] : List (String × Json)), m.1 < name := nofun
    have hm := reads_member hn hr
    have hs : Reads (moreMembers (addMember r) [(name, j)]) (memberChars ms ++ rest)
        ([(name, j)] ++ ms) ('\x7d' :: rest) :=
      reads_memberTail (fun k hk => h k <| .tail j hk) ha rest
    have hb := (hm.bind hs).resume <| members_cons (skipGap_cons rfl _)
    rw [chars, textChars]
    simpa using hb

theorem reads_object {ms : List (String × Json)} (h : ReadsAll r (ms.map (·.2)))
    (ha : Ascending ms) (rest : List Char) :
    Reads (behind (Json.object <$> enclosed closeObject (members (addMember r) [])))
      ((Json.object ms).chars ++ rest) (.object ms) rest := by
  have ⟨hv, hr⟩ := closeObject_brace rest
  have ho := (reads_enclosed (reads_members h ha rest) hv hr).map (f := Json.object)
  rw [chars_object]
  exact ho.resume (h := List.suffix_cons _ _) rfl

theorem reads_text (x : String) (rest : List Char) :
    Reads (valueWith list object) ((Json.text x).chars ++ rest) (.text x) rest := by
  have hr := (reads_textBody x rest).map (f := Json.text)
  have hc : (Json.text x).chars ++ rest = '"' :: (x.toList.flatMap escapeChar ++ '"' :: rest) := by
    simp [chars, textChars]
  rw [hc]
  exact .ofGap (.cons rfl _) <| hr.resume (h := List.suffix_cons _ _) rfl

-- What is written in words: the absent value and the two truth values.
theorem reads_null (rest : List Char) : Reads (valueWith list object) (Json.null.chars ++ rest) .null rest :=
  .ofGap (.cons rfl _) <| (reads_letters Json.null ['u', 'l', 'l'] rest).resume rfl

theorem reads_bool (b : Bool) (rest : List Char) :
    Reads (valueWith list object) ((Json.bool b).chars ++ rest) (.bool b) rest := by
  cases b
  case true => exact .ofGap (.cons rfl _) <| (reads_letters _ ['r', 'u', 'e'] rest).resume rfl
  case false => exact .ofGap (.cons rfl _) <| (reads_letters _ ['a', 'l', 's', 'e'] rest).resume rfl

theorem value_eq (d : Nat) : ∃ list object, value d = valueWith list object := by
  cases d <;> exact ⟨_, _, rfl⟩

-- A proper value is read as itself, whatever stands behind it that no number goes on with.
theorem reads_value {d : Nat} (h : Proper d j) (hs : Stops goesOn rest) :
    Reads (value d) (j.chars ++ rest) j rest := by
  induction h generalizing rest
  case null d => have ⟨_, _, he⟩ := value_eq d; exact he ▸ reads_null rest
  case bool d b => have ⟨_, _, he⟩ := value_eq d; exact he ▸ reads_bool b rest
  case text d x => have ⟨_, _, he⟩ := value_eq d; exact he ▸ reads_text x rest
  case number d n hn => have ⟨_, _, he⟩ := value_eq d; exact he ▸ reads_number hn hs
  case list d js h hi =>
    have hr := reads_list (r := value d) (fun j hj => ⟨⟨d, h j hj⟩, fun _ => hi j hj⟩) rest
    rw [chars_list] at hr ⊢
    exact .ofGap (.cons rfl _) hr
  case object d ms ha h hi =>
    have hm : ReadsAll (value d) (ms.map (·.2)) := by
      intro j hj
      obtain ⟨m, hm, rfl⟩ := List.mem_map.mp hj
      exact ⟨⟨d, h m hm⟩, fun _ => hi m hm⟩
    have hr := reads_object hm ha rest
    rw [chars_object] at hr ⊢
    exact .ofGap (.cons rfl _) hr

end Completeness

theorem decode_of_reads {r : Reader α} {text : String} {a : α} (h : Reads r text.toList a []) :
    decode r text = .ok a := by
  have ⟨_, hr⟩ := h
  unfold decode
  rw [hr]
  rfl

theorem parse_compact (h : Proper maxDepth j) : parse j.compact = .ok j := by
  refine decode_of_reads ?_
  rw [compact, String.toList_ofList, ← List.append_nil j.chars]
  exact reads_value h <| .nil goesOn

-- Different values are written differently.
theorem compact_inj (hj : Proper maxDepth j) (hk : Proper maxDepth k) (h : j.compact = k.compact) :
    j = k := by
  have hp := parse_compact hj
  rw [h, parse_compact hk] at hp
  exact (Except.ok.inj hp).symm

end ModelAudit.Json
