import ModelAudit.Proofs.CommandLine.Traces
import ModelAudit.Proofs.Orchestrator.Origins
import ModelAudit.Proofs.Report.LineBreaks
import Mathlib.Algebra.Ring.Nat

namespace ModelAudit

namespace Text

-- The number of line breaks in a text.
def breaks (s : String) : Nat :=
  s.toList.count '\n'

theorem append_concat {t u v : String} (h : u = t ++ v) (s : String) : s ++ u = s ++ t ++ v := by
  rw [h, String.append_assoc]

-- The text is made up of these lines, each of them with a line break behind it.
structure Lines (s : String) (lines : List String) : Prop where
  joined   : s = String.join (lines.map (· ++ "\n"))
  unbroken : ∀ line ∈ lines, Unbroken line

variable {s : String} {lines : List String}

theorem breaks_eq_zero_iff : breaks s = 0 ↔ Unbroken s :=
  List.count_eq_zero

theorem breaks_append (s t : String) : breaks (s ++ t) = breaks s + breaks t := by
  simp [breaks]

theorem breaks_join_lines (lines : List String) :
    breaks (String.join (lines.map (· ++ "\n"))) = lines.length + (lines.map breaks).sum := by
  induction lines
  case nil => rfl
  case cons line lines hi =>
    have hn : breaks "\n" = 1 := by decide
    simp only [List.map_cons, String.join_cons, breaks_append, hi, hn, List.length_cons, List.sum_cons]
    omega

-- There is no other way to divide a text into so many lines.
theorem Lines.length_eq (h : Lines s lines) : lines.length = breaks s := by
  have hz : (lines.map breaks).sum = 0 := by
    refine List.sum_eq_zero_iff_forall_eq_nat.mpr <| List.forall_mem_map.mpr fun line hm => ?_
    exact breaks_eq_zero_iff.mpr <| h.unbroken line hm
  rw [h.joined, breaks_join_lines, hz, Nat.add_zero]

end Text

open Text (Unbroken)

theorem Token.unbroken_text (t : Token) : Unbroken t.text := by
  intro hm
  have hm : '\n' ∈ lead ++ Text.numeral t.number := by simpa [text] using hm
  cases List.mem_append.mp hm
  case inl hm => exact absurd hm <| by decide
  case inr hm => cases Text.all_isDigit_numeral _ _ hm

theorem Digest.nibble_ne_break {n : Nat} (h : n < 16) : nibble n ≠ '\n' := by
  have hn : ∀ n < 16, nibble n ≠ '\n' := by decide
  exact hn n h

theorem Digest.unbroken_ofText (s : String) : Unbroken (ofText s) := by
  intro hm
  simp only [ofText, hex, String.toList_ofList, List.mem_flatMap, List.mem_cons, List.not_mem_nil,
    or_false] at hm
  obtain ⟨b, -, hm⟩ := hm
  have hb := b.toNat_lt
  rcases hm with hm | hm
  · exact nibble_ne_break (by omega) hm.symm
  · exact nibble_ne_break (by omega) hm.symm

theorem unbroken_mark (good : Bool) : Unbroken (mark good) := by
  cases good <;> decide

theorem unbroken_ordinal (index : Nat) : Unbroken (ordinal index) := by
  have hl : Unbroken "  [" := by decide
  have hr : Unbroken "] " := by decide
  exact hl.append (Text.unbroken_natural _) |>.append hr

namespace Published

theorem unbroken_link (p : Published) : Unbroken p.link := by
  have hl : Unbroken " (trace: " := by decide
  have hr : Unbroken ")" := by decide
  unfold link
  cases p.token
  case none => exact (by decide : Unbroken "")
  case some t => exact hl.append t.unbroken_text |>.append hr

-- What is written about a result, up to the line break.
def row (index : Nat) (p : Published) : String :=
  ordinal index ++ mark p.record.satisfied ++ " " ++ p.record.check ++ ": " ++ p.record.message ++ p.link

theorem breaks_row (index : Nat) (p : Published) :
    Text.breaks (p.row index) = Text.breaks p.record.check + Text.breaks p.record.message := by
  have ho := Text.breaks_eq_zero_iff.mpr <| unbroken_ordinal index
  have hm := Text.breaks_eq_zero_iff.mpr <| unbroken_mark p.record.satisfied
  have hl := Text.breaks_eq_zero_iff.mpr p.unbroken_link
  have hs : Text.breaks " " = 0 := by decide
  have hc : Text.breaks ": " = 0 := by decide
  simp only [row, Text.breaks_append, ho, hm, hl, hs, hc]
  omega

end Published

namespace Completion

variable {stamp : Stamp} {c : Completion}

-- The heading, up to the line break.
def title (stamp : Stamp) (c : Completion) : String :=
  "Run " ++ stamp.run ++ " (spec " ++ c.shortDigest ++ ")"

-- The verdict, up to the line break.
def tally (stamp : Stamp) (c : Completion) : String :=
  "Overall: " ++ mark c.overall ++ (if c.overall then " PASSED" else " FAILED") ++ " (" ++
    Text.natural c.failedCount ++ "/" ++ Text.natural c.results.length ++ " checks failed, " ++
    Text.natural stamp.duration ++ "ms)"

-- What the report puts a line break behind.
def pieces (stamp : Stamp) (c : Completion) : List String :=
  c.title stamp :: c.results.mapIdx Published.row ++ ["", c.tally stamp]

theorem heading_eq (stamp : Stamp) (c : Completion) : c.heading stamp = c.title stamp ++ "\n" := by
  have hb : ")\n" = ")" ++ "\n" := by decide
  unfold heading title
  exact Text.append_concat hb _

theorem verdict_eq (stamp : Stamp) (c : Completion) : c.verdict stamp = c.tally stamp ++ "\n" := by
  have hb : "ms)\n" = "ms)" ++ "\n" := by decide
  unfold verdict tally
  exact Text.append_concat hb _

theorem renderText_eq_join (stamp : Stamp) (c : Completion) :
    c.renderText stamp = String.join ((c.pieces stamp).map (· ++ "\n")) := by
  have hr : c.results.mapIdx Published.line = (c.results.mapIdx Published.row).map (· ++ "\n") := by
    rw [List.mapIdx_eq_zipIdx_map, List.mapIdx_eq_zipIdx_map, List.map_map]
    rfl
  have hj : String.join ["\n", c.tally stamp ++ "\n"] = "\n" ++ (c.tally stamp ++ "\n") := by
    rw [String.join_cons, String.join_cons, String.join_nil, String.append_empty]
  have hp : (c.pieces stamp).map (· ++ "\n") = (c.title stamp ++ "\n") ::
      ((c.results.mapIdx Published.row).map (· ++ "\n") ++ ["\n", c.tally stamp ++ "\n"]) := by
    rw [pieces, List.cons_append, List.map_cons, List.map_append]
    rfl
  rw [renderText, hr, heading_eq, verdict_eq, hp, String.join_cons, String.join_append, hj,
    String.append_assoc, String.append_assoc]

theorem unbroken_tally (stamp : Stamp) (c : Completion) : Unbroken (c.tally stamp) := by
  have hl : Unbroken "Overall: " := by decide
  have ho : Unbroken (if c.overall then " PASSED" else " FAILED") := by split <;> decide
  have hp : Unbroken " (" := by decide
  have hs : Unbroken "/" := by decide
  have hc : Unbroken " checks failed, " := by decide
  have hr : Unbroken "ms)" := by decide
  have hn := Text.unbroken_natural
  exact hl.append (unbroken_mark _) |>.append ho |>.append hp |>.append (hn _) |>.append hs |>.append (hn _)
    |>.append hc |>.append (hn _) |>.append hr

-- How many line breaks there are in what the results say.
def inner (c : Completion) : Nat :=
  (c.records.map fun r => Text.breaks r.check + Text.breaks r.message).sum

theorem inner_eq_zero_iff : c.inner = 0 ↔ ∀ r ∈ c.records, r.Unbroken := by
  rw [inner, List.sum_eq_zero_iff_forall_eq_nat, List.forall_mem_map]
  refine forall₂_congr fun r _ => ?_
  rw [Nat.add_eq_zero_iff, Text.breaks_eq_zero_iff, Text.breaks_eq_zero_iff]
  exact ⟨fun ⟨hc, hm⟩ => ⟨hc, hm⟩, fun ⟨hc, hm⟩ => ⟨hc, hm⟩⟩

theorem length_pieces (stamp : Stamp) (c : Completion) : (c.pieces stamp).length = c.results.length + 3 := by
  simp [pieces]

theorem sum_breaks_pieces (ht : Unbroken (c.title stamp)) :
    ((c.pieces stamp).map Text.breaks).sum = c.inner := by
  have hr : (c.results.mapIdx Published.row).map Text.breaks =
      c.records.map fun r => Text.breaks r.check + Text.breaks r.message := by
    rw [records, List.map_map]
    refine List.ext_getElem (by simp) fun k _ _ => ?_
    simp only [List.getElem_map, List.getElem_mapIdx]
    exact Published.breaks_row ..
  have ht := Text.breaks_eq_zero_iff.mpr ht
  have hv := Text.breaks_eq_zero_iff.mpr <| unbroken_tally stamp c
  have he : Text.breaks "" = 0 := by decide
  simp only [pieces, inner, List.cons_append, List.map_cons, List.map_append, hr, List.map_nil, List.sum_cons,
    List.sum_append, List.sum_nil, ht, hv, he, Nat.add_zero, Nat.zero_add]

theorem breaks_renderText (ht : Unbroken (c.title stamp)) :
    Text.breaks (c.renderText stamp) = c.results.length + 3 + c.inner := by
  rw [renderText_eq_join, Text.breaks_join_lines, length_pieces, sum_breaks_pieces ht]

-- The report is laid out in these lines.
structure Laid (stamp : Stamp) (c : Completion) (heading : String) (rows : List String) (overall : String) :
    Prop where
  lines   : Text.Lines (c.renderText stamp) (heading :: rows ++ ["", overall])
  length  : rows.length = c.results.length
  row     : ∀ (k : Nat) p, c.results[k]? = some p → ∃ rest,
    rows[k]? = some ("  [" ++ Text.natural (k + 1) ++ "] " ++ mark p.record.satisfied ++ rest)
  overall : ∃ outcome, overall = "Overall: " ++ outcome ++ " (" ++
    Text.natural (c.results.countP fun p => !p.record.satisfied) ++ "/" ++
    Text.natural c.results.length ++ " checks failed, " ++ Text.natural stamp.duration ++ "ms)"

-- There is one line for each result.
def LineByLine (stamp : Stamp) (c : Completion) : Prop :=
  ∃ heading rows overall, c.Laid stamp heading rows overall

theorem lineByLine_iff (ht : Unbroken (c.title stamp)) :
    c.LineByLine stamp ↔ ∀ r ∈ c.records, r.Unbroken := by
  rw [← inner_eq_zero_iff]
  constructor
  case mp =>
    rintro ⟨heading, rows, overall, hl⟩
    have hn := hl.lines.length_eq
    simp only [breaks_renderText ht, List.cons_append, List.length_cons, List.length_append, hl.length,
      List.length_nil] at hn
    omega
  case mpr =>
    intro hi
    refine ⟨c.title stamp, c.results.mapIdx Published.row, c.tally stamp, ?_⟩
    constructor
    case lines =>
      refine ⟨renderText_eq_join stamp c, fun piece hp => Text.breaks_eq_zero_iff.mp ?_⟩
      have hs := List.sum_eq_zero_iff_forall_eq_nat.mp <| (sum_breaks_pieces ht).trans hi
      exact hs _ <| List.mem_map_of_mem hp
    case length => exact List.length_mapIdx
    case row =>
      intro k p hp
      refine ⟨" " ++ p.record.check ++ ": " ++ p.record.message ++ p.link, ?_⟩
      have ha (a b d e f g h : String) : a ++ b ++ d ++ e ++ f ++ g ++ h = a ++ b ++ (d ++ e ++ f ++ g ++ h) := by
        simp only [String.append_assoc]
      rw [List.getElem?_mapIdx, hp]
      exact congrArg some <| ha ..
    case overall =>
      have hf : c.failedCount = c.results.countP fun p => !p.record.satisfied := by
        rw [failedCount, records, List.countP_map]
        rfl
      have ha (a b d e f g h i j k : String) : a ++ b ++ d ++ e ++ f ++ g ++ h ++ i ++ j ++ k =
          a ++ (b ++ d) ++ e ++ f ++ g ++ h ++ i ++ j ++ k := by
        simp only [String.append_assoc]
      refine ⟨mark c.overall ++ if c.overall then " PASSED" else " FAILED", ?_⟩
      rw [← hf]
      exact ha ..

end Completion

namespace Orchestrator

open Completion (LineByLine)

variable {o : Orchestrator} {s : State} {history : List Happening} {c : Completion} {stamp : Stamp} {text : String}
  {document : Document}

theorem State.Fulfils.unbroken_shortDigest (h : Fulfils o text document c) : Unbroken c.shortDigest := by
  unfold Completion.shortDigest
  split
  case h_2 => exact (by decide : Unbroken "unparsed")
  case h_1 d hd =>
    rw [h.digest, Option.map_eq_some_iff] at hd
    obtain ⟨spec, -, rfl⟩ := hd
    intro hm
    rw [String.toList_ofList] at hm
    exact Digest.unbroken_ofText _ <| List.mem_of_mem_take hm

theorem State.Fulfils.unbroken_title (h : Fulfils o text document c) (hs : Unbroken stamp.run) :
    Unbroken (c.title stamp) := by
  have hl : Unbroken "Run " := by decide
  have hm : Unbroken " (spec " := by decide
  have hr : Unbroken ")" := by decide
  exact hl.append hs |>.append hm |>.append h.unbroken_shortDigest |>.append hr

-- What a run over the checks of the library comes to has line breaks only where the names and the texts that
-- it was given have them.
theorem unbroken_recordsFor (ho : o.runner = Catalog.builtin.runner)
    (hp : ∀ spec, CheckSet.parse text = .ok spec → document.Unbroken ∧ ∀ r ∈ spec.requests, r.Unbroken) :
    ∀ r ∈ o.recordsFor text document, r.Unbroken := by
  unfold recordsFor
  split
  case h_1 e he =>
    rw [List.forall_mem_singleton]
    exact ⟨(by decide : Unbroken "specification"), CheckSet.unbroken_of_error he⟩
  case h_2 spec he =>
    have ⟨hd, hr⟩ := hp spec he
    rw [ho]
    exact Catalog.unbroken_of_runner hd <| CheckSet.unbroken_of_parse he hr

-- How the report about a completion is divided into lines.
structure Reported (o : Orchestrator) (s : State) (history : List Happening) (stamp : Stamp) (c : Completion) :
    Prop where
  breaks : Text.breaks (c.renderText stamp) = c.results.length + 3 +
    (c.records.map fun r => Text.breaks r.check + Text.breaks r.message).sum
  lines  : c.LineByLine stamp ↔ ∀ r ∈ c.records, r.Unbroken
  origin : ∃ text document, s.Launched o history c.run text document ∧
    ((∀ spec, CheckSet.parse text = .ok spec → document.Unbroken ∧ ∀ r ∈ spec.requests, r.Unbroken) →
      c.LineByLine stamp)

-- Whatever the model and the specification, and whatever happens while the run is in flight.
theorem lines_of_report (ho : o.runner = Catalog.builtin.runner) (h : o.initial = .ok s)
    (hc : .completed c ∈ (s.afterAll o history).channel.sent) (hs : Unbroken stamp.run) :
    Reported o s history stamp c := by
  obtain ⟨text, document, hl, hf⟩ := State.rooted_of_initial (runsPromptly_builtin ho) h history |>.told c hc
  have ht := hf.unbroken_title hs
  constructor
  case breaks => exact Completion.breaks_renderText ht
  case lines => exact Completion.lineByLine_iff ht
  case origin =>
    refine ⟨text, document, hl, fun hp => (Completion.lineByLine_iff ht).mpr ?_⟩
    rw [hf.records]
    exact unbroken_recordsFor ho hp

-- A template with one location besides the initial one, which no edge leads to.
def withUnreached (location : String) : Document where
  name := "m"
  templates := [{ name := "T", init := "a", locations := ["a", location] }]

-- A run over that document, which goes on until it is done.
def unreachedRun (location : String) : List Happening :=
  .start "\x7b\"checks\": [\x7b\"type\": \"template-locations\"\x7d]\x7d" (withUnreached location) ::
    List.replicate 16 (.work ⟨1⟩ [])

-- A name without a line break.
theorem lines_of_report_of_plain_name :
    let o : Orchestrator := { runner := Catalog.builtin.runner }
    let s : State := { channel := { capacity := 64 } }
    let stamp : Stamp := { run := "0", duration := 0, finished := "" }
    o.runner = Catalog.builtin.runner ∧ o.initial = .ok s ∧ Unbroken stamp.run ∧
      ∃ c, .completed c ∈ (s.afterAll o (unreachedRun "x")).channel.sent ∧
        c.records.map (·.message) = ["Unreachable locations found: T.x"] ∧
        Reported o s (unreachedRun "x") stamp c ∧ c.LineByLine stamp := by
  intro o s stamp
  have h : o.initial = .ok s := State.initial_of_runner _
  have hs : Unbroken stamp.run := by decide
  have ⟨c, hc, hm, hr⟩ : ∃ c, c ∈ (s.afterAll o (unreachedRun "x")).desk.told ∧
      c.records.map (·.message) = ["Unreachable locations found: T.x"] ∧
      ∀ r ∈ c.records, Unbroken r.check ∧ Unbroken r.message := by
    decide +kernel
  have hreport := lines_of_report rfl h (State.mem_told.mp hc) hs
  exact ⟨rfl, h, hs, c, State.mem_told.mp hc, hm, hreport,
    hreport.lines.mpr fun r hr' => ⟨(hr r hr').left, (hr r hr').right⟩⟩

-- The name of the location looks like a second result, and one that is satisfied.
theorem report_with_forged_line :
    let o : Orchestrator := { runner := Catalog.builtin.runner }
    let s : State := { channel := { capacity := 64 } }
    let stamp : Stamp := { run := "0", duration := 0, finished := "" }
    o.initial = .ok s ∧
      ∃ c, .completed c ∈ (s.afterAll o (unreachedRun "x\n  [2] ✓ y")).channel.sent ∧ c.results.length = 1 ∧
        Text.Lines (c.renderText stamp) ["Run 0 (spec b88783900377)",
          "  [1] ✗ template-locations: Unreachable locations found: T.x", "  [2] ✓ y", "",
          "Overall: ✗ FAILED (1/1 checks failed, 0ms)"] ∧
        ¬c.LineByLine stamp := by
  intro o s stamp
  have ⟨c, hc, hn, hj⟩ : ∃ c, c ∈ (s.afterAll o (unreachedRun "x\n  [2] ✓ y")).desk.told ∧
      c.results.length = 1 ∧ c.renderText stamp = String.join (["Run 0 (spec b88783900377)",
        "  [1] ✗ template-locations: Unreachable locations found: T.x", "  [2] ✓ y", "",
        "Overall: ✗ FAILED (1/1 checks failed, 0ms)"].map (· ++ "\n")) := by
    decide +kernel
  have hl : Text.Lines (c.renderText stamp) _ := ⟨hj, by decide +kernel⟩
  refine ⟨State.initial_of_runner _, c, State.mem_told.mp hc, hn, hl, ?_⟩
  rintro ⟨heading, rows, overall, hlaid⟩
  have he := hlaid.lines.length_eq.trans hl.length_eq.symm
  simp [hlaid.length, hn] at he

end Orchestrator

end ModelAudit
