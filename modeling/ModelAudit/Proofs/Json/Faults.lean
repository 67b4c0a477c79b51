import ModelAudit.Proofs.Json.Reads
import ModelAudit.Json.Reader.Value
import Mathlib.Tactic.SplitIfs

namespace ModelAudit.Json

-- The reason is about the form of a text. It has the same words whatever the text holds.
def Reason.IsFormal : Reason → Prop
  | wrongType .. | wrongValue .. | wrongLength .. | missingField _ | repeatedField _ | unknownName .. |
    refused _ => False
  | _ => True

variable {α β : Type} {s t : List Char}

-- If the text was refused, it was for its form.
def Formal (result : Except Fault (Taken α s)) : Prop :=
  ∀ f, result = .error f → f.reason.IsFormal

def Reader.Formal (r : Reader α) : Prop :=
  ∀ s, Json.Formal (r s)

namespace Formal

theorem ok (u : Taken α s) : Formal (.ok u) :=
  nofun

theorem error {f : Fault} (h : f.reason.IsFormal) : Formal (.error f : Except Fault (Taken α s)) := by
  rintro _ ⟨⟩
  exact h

theorem resume {h : t <:+ s} {result : Except Fault (Taken α t)} (hr : Formal result) :
    Formal (Json.resume h result) := by
  cases result
  case ok u => exact .ok _
  case error f => exact .error <| hr f rfl

theorem map {result : Except Fault (Taken α s)} (hr : Formal result) (f : Taken α s → Taken β s) :
    Formal (result.map f) := by
  cases result
  case ok u => exact .ok _
  case error f => exact .error <| hr f rfl

end Formal

namespace Reader.Formal

theorem pure (a : α) : (Reader.pure a).Formal :=
  fun _ => .ok _

theorem bind {r : Reader α} {f : α → Reader β} (hr : r.Formal) (hf : ∀ a, (f a).Formal) :
    (r.bind f).Formal := by
  intro s
  unfold Reader.bind
  split
  case h_1 e h => exact .error <| hr s e h
  case h_2 u _ => exact (hf _ _).resume

theorem map {r : Reader α} (hr : r.Formal) (f : α → β) : (f <$> r : Reader β).Formal :=
  hr.bind fun _ => pure _

theorem afterGap {r : Reader α} (hr : r.Formal) : (Json.afterGap r).Formal :=
  fun _ => (hr _).resume

end Reader.Formal

theorem letters_formal (a : α) (ls : List Char) : (letters a ls).Formal := by
  induction ls
  case nil => exact .pure a
  case cons l ls hi =>
    intro s
    unfold letters
    split
    · exact .error trivial
    · split
      · exact (hi _).resume
      · exact .error trivial

section Numbers

theorem wholeDigits_formal : wholeDigits.Formal := by
  intro s
  unfold wholeDigits
  split
  · exact .error trivial
  · split
    · split
      · exact .error trivial
      · exact .ok _
    · exact .ok _
  · split
    · exact .resume <| .ok _
    · exact .error trivial

theorem fractionDigits_formal : fractionDigits.Formal := by
  intro s
  unfold fractionDigits
  split
  · split
    · split <;> exact .error trivial
    · exact .resume <| .ok _
  · exact .ok _

theorem exponentDigits_formal (bounded : Bool) (n : Nat) : (exponentDigits bounded n).Formal := by
  intro s
  induction s generalizing n
  case nil => exact .ok _
  case cons c t hi =>
    unfold exponentDigits
    split
    · split
      · exact .error trivial
      · exact (hi _).resume
    · exact .ok _

theorem exponentValue_formal (bounded : Bool) : (exponentValue bounded).Formal := by
  intro s
  unfold exponentValue
  split
  · exact .error trivial
  · split
    · exact (exponentDigits_formal bounded _ _).resume
    · exact .error trivial

theorem signedExponent_formal (bounded : Bool) : (signedExponent bounded).Formal := by
  intro s
  unfold signedExponent
  split
  · exact .resume <| (exponentValue_formal _ _).map _
  · exact .resume <| (exponentValue_formal _ _).map _
  · exact (exponentValue_formal _ _).map _

theorem exponentPart_formal (bounded : Bool) : (exponentPart bounded).Formal := by
  intro s
  unfold exponentPart
  split
  · split
    · exact .resume <| (signedExponent_formal bounded _).map _
    · exact .ok _
  · exact .ok _

theorem numberBody_formal (negative : Bool) : (numberBody negative).Formal := by
  unfold numberBody
  refine wholeDigits_formal.bind fun _ => ?_
  refine fractionDigits_formal.bind fun _ => ?_
  refine (exponentPart_formal _).bind fun _ => ?_
  split
  · exact .pure _
  · split
    · exact .pure _
    · exact fun _ => .error trivial

end Numbers

section Texts

theorem hexEscape_formal : hexEscape.Formal := by
  intro s
  unfold hexEscape
  split
  · split
    · exact .ok _
    · exact .error trivial
  · split <;> exact .error trivial

theorem lowHalf_formal : lowHalf.Formal := by
  intro s
  unfold lowHalf
  split
  case h_3 t =>
    cases h : hexEscape t
    case error f => exact .error <| hexEscape_formal t f h
    case ok u =>
      show Formal (if isLowHalf u.value then _ else _)
      split
      · exact .ok _
      · exact .error trivial
  all_goals exact .error trivial

theorem codePoint_formal : codePoint.Formal := by
  unfold codePoint
  refine hexEscape_formal.bind fun _ => ?_
  split
  · exact fun _ => .error trivial
  · split
    · exact lowHalf_formal.bind fun _ => .pure _
    · exact .pure _

theorem escaped_formal : escaped.Formal := by
  intro s
  unfold escaped
  split
  · exact .error trivial
  · split
    · exact (codePoint_formal _).resume
    · split
      · exact .ok _
      · exact .error trivial

theorem textTail_formal (s : List Char) : Formal (textTail s) := by
  fun_induction textTail s
  case case1 => exact .error trivial
  case case2 => exact .ok _
  case case3 e he _ => exact .error <| escaped_formal _ e he
  case case4 hi => exact .resume <| hi.map _
  case case5 => exact .error trivial
  case case6 hi => exact .resume <| hi.map _

theorem textBody_formal : textBody.Formal :=
  fun s => (textTail_formal s).map _

end Texts

section Values

-- What closes a list or an object is wanting in its form, if at all.
theorem closeList_formal (s : List Char) : ∀ f, (closeList s).value = some f → f.reason.IsFormal := by
  intro f h
  unfold closeList at h
  split at h <;> cases h
  · trivial
  · dsimp only [Fault.next, Fault.ahead]
    split <;> trivial
  · trivial

theorem closeObject_formal (s : List Char) : ∀ f, (closeObject s).value = some f → f.reason.IsFormal := by
  intro f h
  unfold closeObject at h
  split at h <;> cases h <;> trivial

theorem Fault.reason_settle (f : Fault) (close : List Char → List Char) :
    (f.settle close).reason = f.reason := by
  unfold settle
  split <;> rfl

theorem enclosed_formal {close : (s : List Char) → Taken (Option Fault) s} {r : Reader α}
    (hc : ∀ s f, (close s).value = some f → f.reason.IsFormal) (hr : r.Formal) : (enclosed close r).Formal := by
  intro s
  unfold enclosed
  split
  case h_1 f h => exact .error <| f.reason_settle _ ▸ hr s f h
  case h_2 u _ =>
    dsimp only
    split
    case h_1 f h => exact .error <| hc _ f h
    case h_2 => exact .ok _

variable {item : α → Reader α}

theorem moreItems_formal (hi : ∀ a, (item a).Formal) (a : α) (s : List Char) :
    Formal (moreItems item a s) := by
  fun_induction moreItems item a s
  case case2 => exact .ok _
  case case5 e he _ _ => exact .error <| hi _ _ e he
  case case6 ih => exact ih.resume
  all_goals exact .error trivial

theorem items_formal (hi : ∀ a, (item a).Formal) (a : α) : (items item a).Formal := by
  intro s
  unfold items
  split
  · exact .error trivial
  · exact .ok _
  · exact (hi a).bind (moreItems_formal hi) s

theorem moreMembers_formal (hi : ∀ a, (item a).Formal) (a : α) (s : List Char) :
    Formal (moreMembers item a s) := by
  fun_induction moreMembers item a s
  case case2 => exact .ok _
  case case4 he => exact .error <| hi _ _ _ he
  case case5 ih => exact ih.resume
  all_goals exact .error trivial

theorem members_formal (hi : ∀ a, (item a).Formal) (a : α) : (members item a).Formal := by
  intro s
  unfold members
  split
  · exact .error trivial
  · exact .ok _
  · exact ((hi a).bind (moreMembers_formal hi) _).resume
  · exact .error trivial

theorem colon_formal : colon.Formal := by
  intro s
  unfold colon
  split
  · exact .error trivial
  · exact .ok _
  · exact .error trivial

theorem behind_formal {r : Reader α} (hr : r.Formal) : (behind r).Formal := by
  intro s
  cases s
  case nil => exact hr []
  case cons c t => exact (hr t).resume

theorem valueWith_formal {list object : Reader Json} (hl : list.Formal) (ho : object.Formal) :
    (valueWith list object).Formal := by
  refine .afterGap fun s => ?_
  dsimp only
  split
  · exact .error trivial
  · split_ifs
    · exact (letters_formal _ _ _).resume
    · exact (letters_formal _ _ _).resume
    · exact (letters_formal _ _ _).resume
    · exact ((numberBody_formal true).map _ _).resume
    · exact (numberBody_formal false).map _ _
    · exact (textBody_formal.map _ _).resume
    · exact hl _
    · exact ho _
    · exact .error trivial

theorem addMember_formal {value : Reader Json} (hv : value.Formal) (acc : List (String × Json)) :
    (addMember value acc).Formal := by
  unfold addMember
  refine textBody_formal.bind fun _ => ?_
  refine colon_formal.bind fun _ => ?_
  exact hv.bind fun _ => .pure _

theorem value_formal (d : Nat) : (value d).Formal := by
  induction d
  case zero => exact valueWith_formal (fun _ => .error trivial) fun _ => .error trivial
  case succ d hi =>
    have hitems := items_formal (fun acc => hi.map (· :: acc)) []
    have hlist : (listTail (value d)).Formal := enclosed_formal closeList_formal <| hitems.map _
    have hmembers := members_formal (addMember_formal hi) []
    exact valueWith_formal (behind_formal <| hlist.map _)
      (behind_formal <| (enclosed_formal closeObject_formal hmembers).map _)

end Values

theorem parse_formal {text : String} {e : ReadError} (h : parse text = .error e) : e.reason.IsFormal := by
  unfold parse decode at h
  split at h
  case h_1 f hf => cases h; exact value_formal _ _ f hf
  case h_2 => split at h <;> cases h; trivial

end ModelAudit.Json
