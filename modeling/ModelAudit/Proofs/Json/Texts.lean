import ModelAudit.Json.Printer
import ModelAudit.Json.Reader.Text
import ModelAudit.Proofs.Json.Reads

namespace ModelAudit.Json

variable {s t rest cs : List Char} {c e : Char}

theorem hexValue?_hexDigit {n : Nat} (h : n < 16) : hexValue? (hexDigit n) = some n := by
  have : ∀ k < 16, hexValue? (hexDigit k) = some k := by decide
  exact this n h

theorem reads_codePoint (h : c.toNat < 0x20) :
    Reads codePoint ('0' :: '0' :: hexDigit (c.toNat / 16) :: hexDigit (c.toNat % 16) :: s) c s := by
  have hh : Reads hexEscape
      ('0' :: '0' :: hexDigit (c.toNat / 16) :: hexDigit (c.toNat % 16) :: s) c.toNat s := by
    refine ⟨⟨['0', '0', _, _], rfl⟩, ?_⟩
    have h0 : hexValue? '0' = some 0 := rfl
    have h1 := hexValue?_hexDigit (n := c.toNat / 16) (by omega)
    have h2 := hexValue?_hexDigit (n := c.toNat % 16) (by omega)
    simp only [hexEscape, h0, h1, h2]
    congr 2
    omega
  unfold codePoint
  refine hh.bind ?_
  have hl : isLowHalf c.toNat = false := by simp [isLowHalf]; omega
  have hu : isHighHalf c.toNat = false := by simp [isHighHalf]; omega
  simp only [hl, hu, Bool.false_eq_true, if_false, Char.ofNat_toNat]
  exact .pure c s

theorem reads_letter (hu : e ≠ 'u') (he : escape? e = some c) : Reads escaped (e :: s) c s := by
  refine ⟨List.suffix_cons e s, ?_⟩
  simp only [escaped, if_neg hu, he]

theorem reads_backslash (he : Reads escaped t c s) (hr : Reads textTail s cs rest) :
    Reads textTail ('\\' :: t) (c :: cs) rest := by
  have ⟨hs, he⟩ := he
  have ⟨ht, hr⟩ := hr
  refine ⟨(ht.trans hs).trans <| List.suffix_cons _ t, ?_⟩
  rw [textTail, if_neg (by decide), if_pos rfl, he]
  simp only [hr]
  rfl

-- However a character is written, it is read as itself.
theorem reads_escapeChar (c : Char) (hr : Reads textTail s cs rest) :
    Reads textTail (escapeChar c ++ s) (c :: cs) rest := by
  unfold escapeChar
  split
  case h_8 hq hb _ _ _ _ _ =>
    split
    case isTrue h =>
      have hc := (reads_codePoint (s := s) h).resume (r := escaped) (h := List.suffix_cons 'u' _) rfl
      exact reads_backslash hc hr
    case isFalse h =>
      rw [List.singleton_append]
      refine hr.resumeMap (r := textTail) (f := (c :: ·)) (h := List.suffix_cons c s) ?_
      rw [textTail, if_neg hq, if_neg hb, if_neg h]
  all_goals exact reads_backslash (reads_letter (by decide) rfl) hr

theorem reads_textBody (x : String) (rest : List Char) :
    Reads textBody (x.toList.flatMap escapeChar ++ '"' :: rest) x rest := by
  have ht (cs : List Char) : Reads textTail (cs.flatMap escapeChar ++ '"' :: rest) cs rest := by
    induction cs
    case nil =>
      rw [List.flatMap_nil, List.nil_append]
      exact ⟨List.suffix_cons _ _, by rw [textTail]; rfl⟩
    case cons c cs hi =>
      rw [List.flatMap_cons, List.append_assoc]
      exact reads_escapeChar c hi
  obtain ⟨h, ht⟩ := ht x.toList
  refine ⟨h, ?_⟩
  rw [textBody, ht, Except.map, Taken.map, String.ofList_toList]

end ModelAudit.Json
