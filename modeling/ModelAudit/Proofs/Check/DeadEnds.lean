import ModelAudit.Proofs.Search.ShortestPaths

namespace ModelAudit

-- No edge leads out of the location.
def Template.IsDeadEnd (t : Template) (location : String) : Prop :=
  ∀ e ∈ t.edges, e.source ≠ location

instance (t : Template) (location : String) : Decidable (t.IsDeadEnd location) :=
  inferInstanceAs (Decidable (∀ e ∈ t.edges, e.source ≠ location))

theorem Template.isDeadEnd_iff {t : Template} {location : String} :
    t.IsDeadEnd location ↔ (t.outgoing location).isEmpty = true := by
  simp [IsDeadEnd, outgoing]

-- A location, with the template that it belongs to.
structure Site where
  template : Template
  location : String

namespace Site

def Reachable (s : Site) : Prop :=
  s.template.Reaches s.location

def name (s : Site) : String :=
  qualified s.template s.location

end Site

-- The dead ends among the given locations, each as often as it is given.
def Template.deadEnds (t : Template) (locations : List String) : List Site :=
  locations.filter (t.IsDeadEnd ·) |>.map (⟨t, ·⟩)

-- The dead ends that the templates of the document declare, in order.
def Document.deadEnds (d : Document) : List Site :=
  d.templates.flatMap fun t => t.deadEnds t.locations

theorem Document.mem_deadEnds {d : Document} {t : Template} {location : String} :
    ⟨t, location⟩ ∈ d.deadEnds ↔
      t ∈ d.templates ∧ location ∈ t.locations ∧ t.IsDeadEnd location := by
  simp only [deadEnds, Template.deadEnds, List.mem_flatMap, List.mem_map, List.mem_filter,
    decide_eq_true_eq, Site.mk.injEq]
  constructor
  case mp =>
    intro ⟨_, ht, _, ⟨hl, hd⟩, he, he'⟩
    subst he he'
    exact ⟨ht, hl, hd⟩
  case mpr => exact fun ⟨ht, hl, hd⟩ => ⟨t, ht, location, ⟨hl, hd⟩, rfl, rfl⟩

theorem Document.deadEnds_ne_nil_iff {d : Document} : d.deadEnds ≠ [] ↔
    ∃ t ∈ d.templates, ∃ location ∈ t.locations, t.IsDeadEnd location := by
  constructor
  case mp =>
    intro h
    have ⟨⟨t, l⟩, hs⟩ := List.exists_mem_of_ne_nil _ h
    have ⟨ht, hl, hd⟩ := mem_deadEnds.mp hs
    exact ⟨t, ht, l, hl, hd⟩
  case mpr =>
    intro ⟨_, ht, _, hl, hd⟩
    exact List.ne_nil_of_mem <| mem_deadEnds.mpr ⟨ht, hl, hd⟩

-- The trace leads to the first of the sites that can be reached, and on a shortest path. There is none if
-- none of them can be.
inductive Leads : List Site → Option Trace → Prop
  | nowhere {sites : List Site} (h : ∀ s ∈ sites, ¬s.Reachable) : Leads sites none
  | first {before after : List Site} {t : Template} {location : String} {path : List Edge}
    (hb : ∀ s ∈ before, ¬s.Reachable) (h : t.Shortest path location) :
    Leads (before ++ ⟨t, location⟩ :: after) (some <| .ofEdges t path)

namespace Leads

variable {sites : List Site} {trace? : Option Trace} {trace : Trace}

theorem nil : Leads [] none :=
  .nowhere <| by simp

theorem append (h : Leads sites (some trace)) (more : List Site) :
    Leads (sites ++ more) (some trace) := by
  cases h
  case first hb h =>
    rw [List.append_assoc, List.cons_append]
    exact .first hb h

-- As long as there is none, the next site is tried.
theorem snoc {t : Template} {location : String} {path? : Option (List Edge)} (h : Leads sites none)
    (hs : t.Sought location path?) :
    Leads (sites ++ [⟨t, location⟩]) (path?.map <| Trace.ofEdges t) := by
  cases h
  case nowhere hn =>
    cases hs
    case found h => exact .first hn h
    case missing h => exact .nowhere <| List.forall_mem_append.mpr ⟨hn, List.forall_mem_singleton.mpr h⟩

theorem isSome_iff (h : Leads sites trace?) : trace?.isSome = true ↔ ∃ s ∈ sites, s.Reachable := by
  cases h
  case nowhere h => simpa using h
  case first t l _ hb h =>
    simp only [Option.isSome_some, true_iff]
    exact ⟨⟨t, l⟩, List.mem_append_right _ List.mem_cons_self, _, h.chain⟩

end Leads

namespace Check

theorem stuckIn_eq_names (t : Template) (locations : List String) :
    stuckIn t locations = (t.deadEnds locations).map Site.name := by
  simp only [stuckIn, Template.deadEnds, List.map_map, Template.isDeadEnd_iff, Bool.decide_eq_true]
  rfl

theorem stuck_eq_names (d : Document) : stuck d.templates = d.deadEnds.map Site.name := by
  rw [stuck, Document.deadEnds, List.map_flatMap]
  exact congrArg d.templates.flatMap <| funext fun t => stuckIn_eq_names t _

-- What the check is to report.
structure ReportsDeadEnds (c : Context) (r : Record) : Prop where
  check    : r.check = "deadlock-locations"
  violated : r.satisfied = false ↔
    ∃ t ∈ c.document.templates, ∃ location ∈ t.locations, t.IsDeadEnd location
  message  : r.satisfied = false →
    r.message = "Deadlock locations found: " ++ ", ".intercalate (c.document.deadEnds.map Site.name)
  traced   : c.checker = .symbolic → (r.hasTrace = true ↔ ∃ s ∈ c.document.deadEnds, s.Reachable)
  shown    : ∀ action, r.trace = some action → ∃ before t location after path,
    c.document.deadEnds = before ++ ⟨t, location⟩ :: after ∧ (∀ s ∈ before, ¬s.Reachable) ∧
      t.Shortest path location ∧ (path = [] ↔ location = t.init) ∧ action = .displaying (.ofEdges t path)
  silent   : r.satisfied = true ∨ c.checker = .concrete → r.trace = none

theorem ReportsDeadEnds.passed {c : Context} (h : c.document.deadEnds = []) :
    ReportsDeadEnds c (.passed "deadlock-locations" "No deadlock locations") where
  check    := rfl
  violated := by rw [← Document.deadEnds_ne_nil_iff, h]; simp [Record.passed]
  message  := nofun
  traced   := by simp [h, Record.passed, Record.hasTrace]
  shown    := nofun
  silent   := fun _ => rfl

-- Only one of the checkers shows what was found.
theorem deadEndRecord_eq (c : Context) (names : List String) (trace? : Option Trace) :
    deadEndRecord c names trace? =
      { check     := "deadlock-locations"
        message   := "Deadlock locations found: " ++ ", ".intercalate names
        satisfied := false
        trace     := if c.checker = .symbolic then trace?.map .displaying else none } := by
  cases trace?
  case none => simp [deadEndRecord, Record.violated]
  case some => cases hc : c.checker <;>
    simp [deadEndRecord, Record.violated, Context.attachTrace, hc, Checker.producesTraces]

theorem ReportsDeadEnds.at_fault {c : Context} {trace? : Option Trace} (h : c.document.deadEnds ≠ [])
    (hl : c.checker = .symbolic → Leads c.document.deadEnds trace?) :
    ReportsDeadEnds c (deadEndRecord c (c.document.deadEnds.map Site.name) trace?) := by
  rw [deadEndRecord_eq]
  refine { check := rfl, violated := ?violated, message := fun _ => rfl, traced := ?traced,
           shown := ?shown, silent := ?silent }
  case violated => simpa using Document.deadEnds_ne_nil_iff.mp h
  case traced =>
    intro hc
    rw [← (hl hc).isSome_iff]
    simp [Record.hasTrace, hc]
  case shown =>
    intro action ha
    by_cases hc : c.checker = .symbolic
    case neg => simp [hc] at ha
    case pos =>
      have hl := hl hc
      generalize c.document.deadEnds = sites at hl ⊢
      cases hl
      case nowhere => simp [hc] at ha
      case first before after t location path hb hp =>
        refine ⟨before, t, location, after, path, rfl, hb, hp, hp.eq_nil_iff, ?_⟩
        simpa [hc] using ha.symm
  case silent =>
    intro hc
    have hc : c.checker = .concrete := hc.resolve_left <| by simp
    simp [hc]

end Check

end ModelAudit
