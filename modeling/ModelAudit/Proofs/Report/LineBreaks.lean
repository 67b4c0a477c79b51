import ModelAudit.Proofs.Json.Faults
import ModelAudit.Proofs.Runner.Isolation
import ModelAudit.Proofs.Check.DeadEnds
import ModelAudit.Proofs.Check.Reachability
import ModelAudit.Proofs.Check.ReceivedSends
import ModelAudit.Proofs.Spec.Merge

namespace ModelAudit

namespace Text

-- There is no line break in the text.
def Unbroken (s : String) : Prop :=
  '\n' ∉ s.toList

instance (s : String) : Decidable (Unbroken s) :=
  inferInstanceAs (Decidable (_ ∉ _))

variable {s t separator : String} {ts : List String}

theorem Unbroken.append (hs : Unbroken s) (ht : Unbroken t) : Unbroken (s ++ t) := by
  rw [Unbroken, String.toList_append, List.mem_append, not_or]
  exact ⟨hs, ht⟩

theorem unbroken_intercalate (hs : Unbroken separator) (ht : ∀ t ∈ ts, Unbroken t) :
    Unbroken (separator.intercalate ts) := by
  induction ts
  case nil => exact List.not_mem_nil
  case cons t ts hi =>
    have ⟨ht', hts⟩ := List.forall_mem_cons.mp ht
    cases ts
    case nil => rwa [String.intercalate_singleton]
    case cons t' ts =>
      have he : separator.intercalate (t :: t' :: ts) = t ++ separator ++ separator.intercalate (t' :: ts) := by
        rw [← String.toList_inj]
        simp [String.toList_intercalate]
      exact he ▸ (ht'.append hs).append (hi hts)

theorem unbroken_natural (n : Nat) : Unbroken (natural n) := by
  intro hm
  have hd := all_isDigit_numeral n '\n' <| by simpa [natural] using hm
  cases hd

end Text

open Text (Unbroken)

section Names

-- No name in the template has a line break.
structure Template.Unbroken (t : Template) : Prop where
  name      : Text.Unbroken t.name
  locations : ∀ l ∈ t.locations, Text.Unbroken l
  edges     : ∀ e ∈ t.edges, Text.Unbroken e.source ∧ Text.Unbroken e.target

def Document.Unbroken (d : Document) : Prop :=
  ∀ t ∈ d.templates, t.Unbroken

-- Neither the type that is asked for nor any of the texts that come with it has a line break.
structure Request.Unbroken (r : Request) : Prop where
  check : Text.Unbroken r.check
  texts : ∀ name text, r.text? name = some text → Text.Unbroken text

def Entry.Unbroken : Entry → Prop
  | request r => r.Unbroken
  | malformed _ e => Text.Unbroken e.message

structure Record.Unbroken (r : Record) : Prop where
  check   : Text.Unbroken r.check
  message : Text.Unbroken r.message

theorem unbroken_qualified {t : Template} {location : String} (ht : t.Unbroken) (hl : Unbroken location) :
    Unbroken (qualified t location) := by
  have hp : Unbroken "." := by decide
  exact ht.name.append hp |>.append hl

theorem Site.unbroken_name {s : Site} (ht : s.template.Unbroken) (hl : s.location ∈ s.template.locations) :
    Unbroken s.name :=
  unbroken_qualified ht <| ht.locations _ hl

end Names

section Errors

variable {name reason parameter : String}

theorem AuditError.unbroken_specification (hn : Unbroken name) (hr : Unbroken reason) :
    Unbroken (specification name reason).message := by
  have hm : Unbroken "malformed check specification at " := by decide +kernel
  have hc : Unbroken ": " := by decide
  exact hm.append hn |>.append hc |>.append hr

theorem AuditError.unbroken_check (hn : Unbroken name) (hr : Unbroken reason) :
    Unbroken (check name reason).message := by
  have hc : Unbroken "check '" := by decide
  have hf : Unbroken "' failed: " := by decide
  exact hc.append hn |>.append hf |>.append hr

theorem AuditError.unbroken_unknownCheck (hn : Unbroken name) : Unbroken (unknownCheck name).message := by
  have hu : Unbroken "unknown check type: " := by decide +kernel
  exact hu.append hn

theorem AuditError.unbroken_missingParameter (hn : Unbroken name) (hp : Unbroken parameter) :
    Unbroken (missingParameter name parameter).message := by
  have hc : Unbroken "check '" := by decide
  have hm : Unbroken "' is missing required parameter '" := by decide +kernel
  have hq : Unbroken "'" := by decide
  exact hc.append hn |>.append hm |>.append hp |>.append hq

end Errors

section Specifications

theorem Json.Reason.IsFormal.unbroken_message {r : Reason} (h : r.IsFormal) : Unbroken r.message := by
  cases r
  case wrongType | wrongValue | wrongLength | missingField | repeatedField | unknownName | refused => cases h
  all_goals decide +kernel

theorem Json.ReadError.unbroken_message {e : ReadError} (h : e.reason.IsFormal) : Unbroken e.message := by
  have hr := h.unbroken_message
  unfold message
  split
  · exact hr
  · have hl : Unbroken " at line " := by decide
    have hc : Unbroken " column " := by decide
    exact hr.append hl |>.append (Text.unbroken_natural _) |>.append hc |>.append (Text.unbroken_natural _)

theorem SpecError.unbroken_item (index : Nat) : Unbroken (item index) := by
  have hl : Unbroken "checks[" := by decide
  have hr : Unbroken "]" := by decide
  exact hl.append (Text.unbroken_natural _) |>.append hr

theorem SpecError.unbroken_fragment (e : SpecError) : Unbroken e.fragment := by
  have hd : Unbroken "<document>" := by decide
  have hc : Unbroken "checks" := by decide
  have ht : Unbroken ".type" := by decide
  cases e
  case unreadable | notObject => exact hd
  case checksMissing | checksNotList => exact hc
  case entryNotObject index => exact unbroken_item index
  case typeMissing index => exact (unbroken_item index).append ht

theorem SpecError.unbroken_reason {e : SpecError} (h : ∀ error, e = .unreadable error → error.reason.IsFormal) :
    Unbroken e.reason := by
  cases e <;> simp only [reason]
  case unreadable error => exact Json.ReadError.unbroken_message <| h error rfl
  all_goals decide

theorem SpecError.unbroken_message {e : SpecError} (h : ∀ error, e = .unreadable error → error.reason.IsFormal) :
    Unbroken e.message :=
  AuditError.unbroken_specification e.unbroken_fragment <| unbroken_reason h

theorem CheckSet.unbroken_of_error {text : String} {e : SpecError} (h : parse text = .error e) :
    Unbroken e.message := by
  refine SpecError.unbroken_message fun error he => ?_
  subst he
  unfold parse at h
  split at h
  · cases h
  · split at h
    case h_1 hp => cases h; exact Json.parse_formal hp
    case h_2 => unfold ofMembers at h; split at h <;> cases h
    case h_3 => cases h

theorem Entry.unbroken_ofItem {globals : List (String × Json)} {index : Nat} {raw : Json}
    (h : ∀ r, ofItem globals index raw = .request r → r.Unbroken) : (ofItem globals index raw).Unbroken := by
  unfold ofItem at h ⊢
  split
  case h_1 =>
    split
    case h_1 check hc =>
      simp only [hc] at h
      exact h _ rfl
    case h_2 => exact SpecError.unbroken_message nofun
  case h_2 => exact SpecError.unbroken_message nofun

theorem CheckSet.exists_item_of_parse {text : String} {spec : CheckSet} (h : parse text = .ok spec) :
    ∀ e ∈ spec.entries, ∃ globals index raw, e = Entry.ofItem globals index raw := by
  unfold parse at h
  split at h
  · cases h; nofun
  · split at h
    case h_1 | h_3 => cases h
    case h_2 =>
      unfold ofMembers at h
      split at h <;> cases h
      intro e he
      obtain ⟨index, _, rfl⟩ := List.mem_mapIdx.mp he
      exact ⟨_, _, _, rfl⟩

-- Whatever is malformed in a specification, it is the requests alone that can have line breaks.
theorem CheckSet.unbroken_of_parse {text : String} {spec : CheckSet} (h : parse text = .ok spec)
    (hr : ∀ r ∈ spec.requests, r.Unbroken) : ∀ e ∈ spec.entries, e.Unbroken := by
  intro e he
  obtain ⟨globals, index, raw, rfl⟩ := exists_item_of_parse h e he
  exact Entry.unbroken_ofItem fun r hq => hr r <| List.mem_filterMap.mpr ⟨_, hq ▸ he, rfl⟩

end Specifications

section Checks

-- Without being asked to stop, the check comes to a record or an error without line breaks.
inductive Checking.Unbroken (c : Checking Record) : Prop
  | record {r} (h : c.ComesTo (.ok r)) (hr : r.Unbroken)
  | error {e} (h : c.ComesTo (.error e)) (he : Text.Unbroken e.message)

namespace Check

variable {c : Context}

theorem unbroken_names {lead : String} {names : List String} (hl : Unbroken lead)
    (h : ∀ name ∈ names, Unbroken name) : Unbroken (lead ++ ", ".intercalate names) :=
  hl.append <| Text.unbroken_intercalate (by decide) h

theorem unbroken_templateLocations (hd : c.document.Unbroken) : (templateLocations.run c).Unbroken := by
  have hs : Unbroken "template-locations" := by decide
  refine .record ((unreachable_comesTo_names c.document.templates).bind <| .pure _) ?_
  split
  · exact ⟨hs, (by decide : Unbroken "All locations reachable")⟩
  · refine ⟨hs, unbroken_names (by decide) fun name hn => ?_⟩
    obtain ⟨s, hs, rfl⟩ := List.mem_map.mp hn
    have ⟨ht, hl⟩ := Document.mem_sites.mp <| List.mem_filter.mp hs |>.left
    exact Site.unbroken_name (hd _ ht) hl

theorem unbroken_deadlockLocations (hd : c.document.Unbroken) : (deadlockLocations.run c).Unbroken := by
  have hs : Unbroken "deadlock-locations" := by decide
  have ⟨trace, h⟩ := deadEnds_comesTo c.checker.producesTraces c.document.templates none
  rw [stuck_eq_names] at h
  refine .record (h.bind <| .pure _) ?_
  split
  · exact ⟨hs, (by decide : Unbroken "No deadlock locations")⟩
  · rw [deadEndRecord_eq]
    refine ⟨hs, unbroken_names (by decide) fun name hn => ?_⟩
    obtain ⟨s, hs, rfl⟩ := List.mem_map.mp hn
    have ⟨ht, hl, _⟩ := Document.mem_deadEnds.mp hs
    exact Site.unbroken_name (hd _ ht) hl

variable {channel : String}

theorem unbroken_unreceivedMessage {scope : Option String} {t : Template} {send : Edge} (ht : t.Unbroken)
    (he : send ∈ t.edges) (hc : Unbroken channel) (hs : ∀ name ∈ scope, Unbroken name) :
    Unbroken (unreceivedMessage channel scope t send) := by
  have ⟨hsource, htarget⟩ := ht.edges send he
  have hson : Unbroken "Send on '" := by decide
  have hat : Unbroken "' at " := by decide
  have harrow : Unbroken " -> " := by decide
  have hno : Unbroken " has no receiving edge" := by decide +kernel
  refine hson.append hc |>.append hat |>.append (unbroken_qualified ht hsource) |>.append harrow
    |>.append (unbroken_qualified ht htarget) |>.append hno |>.append ?_
  split
  case h_1 name =>
    have hin : Unbroken " in template " := by decide
    exact hin.append <| hs name rfl
  case h_2 => exact (by decide : Unbroken "")

theorem unbroken_scope? {r : Request} (hr : r.Unbroken) : ∀ name ∈ scope? r, Unbroken name := by
  intro name hn
  have ⟨ht, _⟩ := Option.filter_eq_some_iff.mp hn
  exact hr.texts _ _ ht

theorem unbroken_unreceived {t : Template} {send : Edge}
    (hm : Unbroken (unreceivedMessage channel (scope? c.request) t send)) :
    (unreceived c channel t send).Unbroken := by
  have hs : Unbroken "receivesyncs" := by decide
  have ⟨path?, h⟩ := t.pathTo_comesTo send.source
  unfold unreceived
  split
  case isFalse => exact .record (.pure _) ⟨hs, hm⟩
  case isTrue =>
    cases path?
    case none => exact .record (h.bind <| .pure _) ⟨hs, hm⟩
    case some =>
      refine .record (h.bind <| .pure _) ?_
      unfold Context.attachTrace
      split <;> exact ⟨hs, hm⟩

theorem unbroken_receiveSyncsOn (hd : c.document.Unbroken) (hr : c.request.Unbroken) (hc : Unbroken channel) :
    (receiveSyncsOn c channel).Unbroken := by
  have hs : Unbroken "receivesyncs" := by decide
  unfold receiveSyncsOn
  split
  case h_1 name hu =>
    have ⟨hn, _⟩ := Option.filter_eq_some_iff.mp hu
    refine .error (.throw _) ?_
    have hu : Unbroken "unknown template '" := by decide
    have hq : Unbroken "'" := by decide
    exact AuditError.unbroken_check hs <| hu.append (unbroken_scope? hr name hn) |>.append hq
  case h_2 =>
    split
    · have hl : Unbroken "All sends on '" := by decide
      have hr : Unbroken "' can be received" := by decide
      exact .record (.pure _) ⟨hs, hl.append hc |>.append hr⟩
    · split
      case h_1 =>
        have hl : Unbroken "Channel '" := by decide
        have hr : Unbroken "' is never sent on" := by decide
        exact .record (.pure _) ⟨hs, hl.append hc |>.append hr⟩
      case h_2 t send hf =>
        rw [firstSend?_eq_head?] at hf
        have ⟨ht, he, _⟩ := Document.mem_sends.mp <| List.mem_of_head? hf
        exact unbroken_unreceived <| unbroken_unreceivedMessage (hd t ht) he hc <| unbroken_scope? hr

theorem unbroken_receiveSyncs (hd : c.document.Unbroken) (hr : c.request.Unbroken) :
    (receiveSyncs.run c).Unbroken := by
  cases hq : c.request.require "channel"
  case error e =>
    refine .error (refuse_receiveSyncs hq) ?_
    rw [Request.error_of_require hq]
    exact AuditError.unbroken_missingParameter hr.check (by decide)
  case ok channel =>
    have hc : Unbroken channel := hr.texts "channel" channel <| by
      rw [Request.text?, (Request.require_eq_ok_iff.mp hq).left]
    cases unbroken_receiveSyncsOn hd hr hc
    case record h hr => exact .record (run_receiveSyncs hq h) hr
    case error h he => exact .error (run_receiveSyncs hq h) he

end Check

end Checks

namespace Catalog

variable {d : Document} {e : Entry} {record : Record}

theorem unbroken_of_get?_builtin {check : Check} {r : Request} (h : builtin.get? r.check = some check)
    (hd : d.Unbroken) (hr : r.Unbroken) (checker : Checker) : (check.run ⟨d, r, checker⟩).Unbroken := by
  have hm := List.mem_of_find?_eq_some h
  simp only [checks_builtin, List.mem_cons, List.not_mem_nil, or_false] at hm
  obtain rfl | rfl | rfl := hm
  · exact Check.unbroken_templateLocations hd
  · exact Check.unbroken_receiveSyncs hd hr
  · exact Check.unbroken_deadlockLocations hd

theorem unbroken_of_ofRequest {r : Request} {e : AuditError} (hr : r.Unbroken)
    (h : Checker.ofRequest r = .error e) : Unbroken e.message := by
  unfold Checker.ofRequest at h
  split at h
  · cases h
  · rename_i s hs
    split at h <;> cases h
    have hu : Unbroken "unknown checker type '" := by decide +kernel
    have hq : Unbroken "'" := by decide
    exact AuditError.unbroken_check hr.check <| hu.append (hr.texts _ s hs) |>.append hq

-- What is found in a document, and for an entry, without line breaks is said without them.
theorem Finds.unbroken (h : builtin.Finds d e record) (hd : d.Unbroken) (he : e.Unbroken) :
    record.Unbroken := by
  cases h
  case malformed => exact ⟨(by decide : Unbroken "specification"), he⟩
  case unknown => exact ⟨he.check, AuditError.unbroken_unknownCheck he.check⟩
  case misdirected r _ e _ hc => exact ⟨he.check, unbroken_of_ofRequest he hc⟩
  case failed r check checker e h _ hr =>
    cases unbroken_of_get?_builtin h hd he checker
    case record h _ => cases hr.unique h
    case error h hm =>
      cases hr.unique h
      exact ⟨he.check, hm⟩
  case panicked r check checker message h _ hr =>
    cases unbroken_of_get?_builtin h hd he checker
    case record h _ => cases hr.unique h
    case error h _ => cases hr.unique h
  case found r check checker h _ hr =>
    cases unbroken_of_get?_builtin h hd he checker
    case record h hu =>
      cases hr.unique h
      exact hu
    case error h _ => cases hr.unique h

theorem unbroken_of_finds {es : List Entry} {records : List Record}
    (h : List.Forall₂ (builtin.Finds d) es records) (hd : d.Unbroken) (he : ∀ e ∈ es, e.Unbroken) :
    ∀ r ∈ records, r.Unbroken := by
  induction h
  case nil => nofun
  case cons hf _ hi =>
    have ⟨he, hes⟩ := List.forall_mem_cons.mp he
    exact List.forall_mem_cons.mpr ⟨hf.unbroken hd he, hi hes⟩

-- The records of an undisturbed run.
theorem unbroken_of_runner {spec : CheckSet} (hd : d.Unbroken) (he : ∀ e ∈ spec.entries, e.Unbroken) :
    ∀ r ∈ ((builtin.runner spec d).perform .never).records, r.Unbroken :=
  unbroken_of_finds (finds_of_runner answers_builtin spec d) hd he

end Catalog

end ModelAudit
