import ModelAudit.Proofs.Document.RoundTrip
import ModelAudit.Proofs.Runner.Choice

namespace ModelAudit

namespace Request

-- The same request, but for that channel.
def forChannel (channel : String) (r : Request) : Request :=
  { r with parameters := Json.insert "channel" (.text channel) r.parameters }

-- Whatever channel it is for, the request cannot be answered for that document.
def Refused (r : Request) (d : Document) : Prop :=
  r.Misnames ∨ ∃ name, r.NamesReceiver name ∧ ∀ t ∈ d.templates, t.name ≠ name

variable {r : Request} {d : Document} {channel name : String}

theorem text?_forChannel_of_ne (h : name ≠ "channel") : (r.forChannel channel).text? name = r.text? name := by
  rw [text?, forChannel, Json.lookup_insert_of_ne h, text?]

theorem gives_forChannel_iff (h : name ≠ "channel") {text : String} :
    (r.forChannel channel).Gives name text ↔ r.Gives name text := by
  rw [← text?_eq_some_iff, text?_forChannel_of_ne h, text?_eq_some_iff]

theorem require_forChannel (h : ¬Text.IsBlankText channel) :
    (r.forChannel channel).require "channel" = .ok channel :=
  require_eq_ok_iff.mpr ⟨Json.lookup_insert_self .., h⟩

-- Whether it can be answered does not depend on the channel.
theorem refused_forChannel_iff : (r.forChannel channel).Refused d ↔ r.Refused d := by
  have hc : "checker" ≠ "channel" := by decide
  have ht : "template" ≠ "channel" := by decide
  simp only [Refused, Misnames, NamesReceiver, gives_forChannel_iff hc, gives_forChannel_iff ht]

end Request

theorem Document.plain_of_read {text : String} {d : Document} (h : Document.read text = .ok d) : d.Plain :=
  have ⟨u, hu, he⟩ := Json.decode_eq_ok h
  he ▸ Document.read_yields _ u hu

-- Blanks are taken off the labels of a document that is read, so no edge has such a channel.
theorem Document.Plain.not_syncsOn {d : Document} {channel : String} (hd : d.Plain)
    (hc : channel ≠ Text.trim channel) : ∀ t ∈ d.templates, ∀ e ∈ t.edges,
      ∀ direction, ¬e.SyncsOn channel direction := by
  intro t ht e he direction hs
  have hp : Sync.Plain ⟨channel, direction⟩ := hd t ht e he _ hs
  exact hc <| congrArg Sync.channel (Sync.plain_iff.mp hp).right.symm

namespace Check

variable {c : Context} {channel : String}

-- If no edge has the channel, it passes the check.
theorem receiveSyncsOn_of_unused (hu : unknownTemplate? c = none)
    (h : ∀ t ∈ c.document.templates, ∀ e ∈ t.edges, ∀ direction, ¬e.SyncsOn channel direction) :
    (receiveSyncsOn c channel).ComesTo
      (.ok <| .passed "receivesyncs" ("Channel '" ++ channel ++ "' is never sent on")) := by
  have hr : ¬isReceived c.document (scope? c.request) channel = true := by
    rw [isReceived_iff]
    exact fun ⟨t, ht, _, e, he, hs⟩ => h t ht e he _ hs
  have hs : firstSend? c.document channel = none := by
    rw [firstSend?_eq_head?, Document.sends_eq_nil_iff.mpr fun t ht e he => h t ht e he _]
    rfl
  rw [receiveSyncsOn, hu]
  dsimp only
  rw [if_neg hr, hs]
  exact .pure _

end Check

namespace Catalog

variable {d : Document} {r : Request} {channel : String} {record : Record}

theorem evaluate_of_comesTo {c : Catalog} {check : Check} {checker : Checker}
    {result : Except AuditError Record} (hg : c.get? r.check = some check)
    (hc : Checker.ofRequest r = .ok checker) (h : (check.run ⟨d, r, checker⟩).ComesTo result)
    (hs : (settle r.check result).ComesTo (.ok record)) :
    (c.evaluate d (.request r)).ComesTo (.ok record) := by
  rw [evaluate, runRequest_of_get? hg hc]
  exact (h.rescue_value _).bind hs

theorem evaluate_of_refused (hg : builtin.get? r.check = some Check.receiveSyncs)
    (hc : r.require "channel" = .ok channel) (h : r.Refused d) :
    ∃ record, (builtin.evaluate d (.request r)).ComesTo (.ok record) ∧ record.satisfied = false := by
  rcases r.misnames_or_picks with ⟨s, hs, hn, hn'⟩ | ⟨checker, hp⟩
  · have he := Checker.ofRequest_of_gives hs hn hn'
    refine ⟨.violated r.check (AuditError.check r.check <| Checker.unknown s).message, ?_, rfl⟩
    rw [evaluate, runRequest_misdirected hg he]
    exact Activity.Concludes.bind .done <| settle_error r.check (by simp)
  · have hc' := Checker.ofRequest_of_picks hp
    obtain ⟨name, hu⟩ : ∃ name, Check.unknownTemplate? ⟨d, r, checker⟩ = some name := by
      rcases h with ⟨_, hs, hn, hn'⟩ | ⟨name, hu⟩
      · cases hc'.symm.trans <| Checker.ofRequest_of_gives hs hn hn'
      · exact ⟨name, Check.unknownTemplate?_eq_some_iff.mpr hu⟩
    have hrun : (Check.receiveSyncsOn ⟨d, r, checker⟩ channel).ComesTo
        (.error <| .check "receivesyncs" ("unknown template '" ++ name ++ "'")) := by
      rw [Check.receiveSyncsOn, hu]
      exact .throw _
    have hrun := Check.run_receiveSyncs hc hrun
    exact ⟨_, evaluate_of_comesTo hg hc' hrun <| settle_error r.check (by simp), rfl⟩

-- What is found about the channel is what the request comes to.
theorem evaluate_of_answered (hg : builtin.get? r.check = some Check.receiveSyncs)
    (hc : r.require "channel" = .ok channel) (h : ¬r.Refused d) :
    ∃ checker, Check.unknownTemplate? ⟨d, r, checker⟩ = none ∧ ∀ record,
      (Check.receiveSyncsOn ⟨d, r, checker⟩ channel).ComesTo (.ok record) →
        (builtin.evaluate d (.request r)).ComesTo (.ok record) := by
  obtain ⟨hm, hn⟩ := not_or.mp h
  obtain ⟨checker, hp⟩ := r.misnames_or_picks.resolve_left hm
  have hu : Check.unknownTemplate? ⟨d, r, checker⟩ = none := by
    refine Option.eq_none_iff_forall_ne_some.mpr fun name hu => hn ⟨name, ?_⟩
    exact Check.unknownTemplate?_eq_some_iff.mp hu
  refine ⟨checker, hu, fun record hrun => ?_⟩
  exact evaluate_of_comesTo hg (Checker.ofRequest_of_picks hp) (Check.run_receiveSyncs hc hrun) <| .pure _

-- The records of a run with nothing else to do.
def recordsOf (d : Document) (r : Request) : List Record :=
  ((builtin.runner ⟨[], [.request r]⟩ d).perform .never).records

theorem recordsOf_eq (h : (builtin.evaluate d (.request r)).ComesTo (.ok record)) :
    recordsOf d r = [record] :=
  performFrom_runEntries_of_concludes (p := {}) (.cons h .nil) rfl |>.left

-- What becomes of a request for a channel, and of the same one for the channel without blanks around it.
structure Spaced (d : Document) (r : Request) (channel : String) (record trimmed : Record) : Prop where
  refused : r.Refused d → record.satisfied = false ∧ trimmed.satisfied = false
  unsent  : ¬r.Refused d → channel ≠ Text.trim channel →
    record = .passed "receivesyncs" ("Channel '" ++ channel ++ "' is never sent on")
  agree   : record.satisfied = trimmed.satisfied ↔
    channel = Text.trim channel ∨ r.Refused d ∨ trimmed.satisfied = true

theorem Spaced.of_refused {trimmed : Record} (h : r.Refused d) (hs : record.satisfied = false)
    (hs' : trimmed.satisfied = false) : Spaced d r channel record trimmed where
  refused := fun _ => ⟨hs, hs'⟩
  unsent  := fun hn => absurd h hn
  agree   := iff_of_true (hs.trans hs'.symm) <| .inr <| .inl h

theorem channel_with_blanks {text : String} (hd : Document.read text = .ok d)
    (hr : r.check = "receivesyncs") (hc : ¬Text.IsBlankText channel) :
    ∃ record trimmed, recordsOf d (r.forChannel channel) = [record] ∧
      recordsOf d (r.forChannel <| Text.trim channel) = [trimmed] ∧ Spaced d r channel record trimmed := by
  have hg (channel : String) : builtin.get? (r.forChannel channel).check = some Check.receiveSyncs := hr ▸ rfl
  have hq := Request.require_forChannel (r := r) hc
  have hq' := Request.require_forChannel (r := r) <| mt Text.isBlankText_trim_iff.mp hc
  by_cases h : r.Refused d
  case pos =>
    obtain ⟨record, he, hs⟩ := evaluate_of_refused (hg _) hq <| Request.refused_forChannel_iff.mpr h
    obtain ⟨trimmed, he', hs'⟩ := evaluate_of_refused (hg _) hq' <| Request.refused_forChannel_iff.mpr h
    exact ⟨record, trimmed, recordsOf_eq he, recordsOf_eq he', .of_refused h hs hs'⟩
  case neg =>
    have hn (channel : String) : ¬(r.forChannel channel).Refused d := mt Request.refused_forChannel_iff.mp h
    obtain ⟨checker, hu, he⟩ := evaluate_of_answered (hg _) hq <| hn _
    obtain ⟨checker', hu', he'⟩ := evaluate_of_answered (hg _) hq' <| hn _
    obtain ⟨trimmed, ht, _⟩ := Check.receiveSyncsOn_reports hu' (Text.trim channel)
    by_cases hb : channel = Text.trim channel
    case pos =>
      refine ⟨trimmed, trimmed, ?_, recordsOf_eq <| he' _ ht, ?_⟩
      · rw [hb]
        exact recordsOf_eq <| he' _ ht
      · exact ⟨fun hr => absurd hr h, fun _ hn => absurd hb hn, iff_of_true rfl <| .inl hb⟩
    case neg =>
      have hun := (Document.plain_of_read hd).not_syncsOn hb
      have hs := Check.receiveSyncsOn_of_unused hu hun
      refine ⟨_, trimmed, recordsOf_eq <| he _ hs, recordsOf_eq <| he' _ ht, ?_⟩
      refine ⟨fun hr => absurd hr h, fun _ _ => rfl, fun hs => .inr <| .inr hs.symm, ?_⟩
      rintro (hb' | hr | hs)
      · exact absurd hb' hb
      · exact absurd hr h
      · exact hs.symm

-- A document with a send that nobody receives.
def unreceivedText : String :=
  "\x7b\"name\": \"m\", \"templates\": [\x7b\"name\": \"T\", \"init\": \"a\", " ++
    "\"locations\": [\"a\", \"b\"], \"edges\": [[\"a\", \"b\", \"go !\"]]\x7d]\x7d"

-- A receiver is asked of a template that does not have one.
theorem channel_with_blanks_of_unreceived :
    let r : Request := ⟨"receivesyncs", [("checker", .text "concrete"), ("template", .text "T")]⟩
    ∃ d record trimmed, Document.read unreceivedText = .ok d ∧ ¬Text.IsBlankText " go " ∧
      recordsOf d (r.forChannel " go ") = [record] ∧ recordsOf d (r.forChannel <| Text.trim " go ") = [trimmed] ∧
      record.satisfied = true ∧ trimmed.satisfied = false ∧ Spaced d r " go " record trimmed := by
  intro r
  have h : (Document.read unreceivedText).toOption.any (fun d =>
      (recordsOf d (r.forChannel " go ")).all (·.satisfied) &&
        (recordsOf d (r.forChannel <| Text.trim " go ")).all (!·.satisfied)) = true := by
    decide +kernel
  obtain ⟨d, hd, h⟩ := exists_of_any h
  have hb : ¬Text.IsBlankText " go " := by decide
  obtain ⟨record, trimmed, hr, hr', hs⟩ := channel_with_blanks (r := r) hd rfl hb
  simp only [hr, hr', List.all_cons, List.all_nil, Bool.and_true, Bool.and_eq_true,
    Bool.not_eq_true'] at h
  exact ⟨d, record, trimmed, hd, hb, hr, hr', h.left, h.right, hs⟩

-- The check passes for the name with blanks, and it does not for the name alone.
theorem unreceived_with_blanks : ∃ d, Document.read unreceivedText = .ok d ∧
    recordsOf d (Request.forChannel " go " ⟨"receivesyncs", []⟩) =
      [.passed "receivesyncs" "Channel ' go ' is never sent on"] ∧
    (recordsOf d (Request.forChannel "go" ⟨"receivesyncs", []⟩)).map (fun r => (r.satisfied, r.message)) =
      [(false, "Send on 'go' at T.a -> T.b has no receiving edge")] := by
  have h : (Document.read unreceivedText).toOption.any (fun d =>
      recordsOf d (Request.forChannel " go " ⟨"receivesyncs", []⟩) ==
        [.passed "receivesyncs" "Channel ' go ' is never sent on"] &&
      (recordsOf d (Request.forChannel "go" ⟨"receivesyncs", []⟩)).map (fun r => (r.satisfied, r.message)) ==
        [(false, "Send on 'go' at T.a -> T.b has no receiving edge")]) = true := by
    decide +kernel
  obtain ⟨d, hd, h⟩ := exists_of_any h
  exact ⟨d, hd, by simpa only [Bool.and_eq_true, beq_iff_eq] using h⟩

end Catalog

end ModelAudit
