import ModelAudit.Proofs.Check.DeadEnds
import ModelAudit.Proofs.Search.Closure
import Mathlib.Data.List.Forall2

namespace ModelAudit

instance (s : Site) : Decidable s.Reachable :=
  inferInstanceAs (Decidable (s.template.Reaches s.location))

namespace Template

variable {t t' : Template}

-- The locations of the template, each as often as it is declared.
def sites (t : Template) : List Site :=
  t.locations.map (⟨t, ·⟩)

-- Every location that the template declares can be reached.
def Connected (t : Template) : Prop :=
  ∀ location ∈ t.locations, t.Reaches location

-- The same template, but for the order of its locations and of its edges.
structure Rearranged (t t' : Template) : Prop where
  name      : t'.name = t.name
  init      : t'.init = t.init
  locations : t.locations.Perm t'.locations
  edges     : t.edges.Perm t'.edges

-- The same template, but for edges that were added, wherever in the list.
structure Extends (t t' : Template) : Prop where
  name      : t'.name = t.name
  init      : t'.init = t.init
  locations : t'.locations = t.locations
  edges     : t.edges ⊆ t'.edges

theorem Connected.mono (hi : t'.init = t.init) (hl : t'.locations ⊆ t.locations) (he : t.edges ⊆ t'.edges)
    (h : t.Connected) : t'.Connected :=
  fun location hm => (h location <| hl hm).mono hi he

theorem Rearranged.connected_iff (h : t.Rearranged t') : t.Connected ↔ t'.Connected where
  mp  := .mono h.init h.locations.symm.subset h.edges.subset
  mpr := .mono h.init.symm h.locations.subset h.edges.symm.subset

theorem Extends.connected (h : t.Extends t') : t.Connected → t'.Connected :=
  .mono h.init (h.locations ▸ List.Subset.refl _) h.edges

end Template

namespace Document

variable {d d' : Document}

-- The locations that the templates of the document declare, in order.
def sites (d : Document) : List Site :=
  d.templates.flatMap Template.sites

-- Those of them that cannot be reached.
def unreached (d : Document) : List Site :=
  d.sites.filter (¬·.Reachable)

def Connected (d : Document) : Prop :=
  ∀ t ∈ d.templates, t.Connected

-- The templates of the second document are those of the first one in another order, each of them rearranged.
def Rearranged (d d' : Document) : Prop :=
  ∃ templates, d.templates.Perm templates ∧ List.Forall₂ Template.Rearranged templates d'.templates

def Extends (d d' : Document) : Prop :=
  List.Forall₂ Template.Extends d.templates d'.templates

theorem mem_sites {s : Site} : s ∈ d.sites ↔ s.template ∈ d.templates ∧ s.location ∈ s.template.locations := by
  simp only [sites, Template.sites, List.mem_flatMap, List.mem_map]
  constructor
  case mp =>
    intro ⟨t, ht, l, hl, hs⟩
    subst hs
    exact ⟨ht, hl⟩
  case mpr => exact fun ⟨ht, hl⟩ => ⟨_, ht, _, hl, rfl⟩

theorem unreached_eq_nil_iff : d.unreached = [] ↔ d.Connected := by
  simp only [unreached, List.filter_eq_nil_iff, decide_eq_true_eq, not_not]
  constructor
  case mp => exact fun h t ht l hl => h ⟨t, l⟩ <| mem_sites.mpr ⟨ht, hl⟩
  case mpr =>
    intro h s hs
    have ⟨ht, hl⟩ := mem_sites.mp hs
    exact h s.template ht s.location hl

theorem connected_of_forall₂ {ts ts' : List Template}
    (h : List.Forall₂ (fun t t' => t.Connected → t'.Connected) ts ts') (hc : ∀ t ∈ ts, t.Connected) :
    ∀ t' ∈ ts', t'.Connected := by
  induction h
  case nil => nofun
  case cons h _ hi =>
    have ⟨ht, hts⟩ := List.forall_mem_cons.mp hc
    exact List.forall_mem_cons.mpr ⟨h ht, hi hts⟩

theorem Extends.connected (h : d.Extends d') : d.Connected → d'.Connected :=
  connected_of_forall₂ <| h.imp fun _ _ he => he.connected

theorem Rearranged.connected_iff (h : d.Rearranged d') : d.Connected ↔ d'.Connected := by
  have ⟨ts, hp, hr⟩ := h
  constructor
  case mp =>
    intro hc
    have hts : ∀ t ∈ ts, t.Connected := fun t ht => hc t <| hp.mem_iff.mpr ht
    exact connected_of_forall₂ (hr.imp fun _ _ h => h.connected_iff.mp) hts
  case mpr =>
    intro hc t ht
    have hr' : List.Forall₂ (fun t' t : Template => t'.Connected → t.Connected) d'.templates ts :=
      List.Forall₂.flip <| hr.imp fun _ _ h => h.connected_iff.mpr
    exact connected_of_forall₂ hr' hc t <| hp.mem_iff.mp ht

end Document

namespace Check

theorem unreachedIn_eq_names {t : Template} {reached : List String} (h : t.Closure reached) :
    unreachedIn t reached = (t.sites.filter (¬·.Reachable)).map Site.name := by
  rw [unreachedIn, Template.sites, List.filter_map, List.map_map]
  congr 1
  refine List.filter_congr fun l _ => ?_
  have hl : reached.contains l = true ↔ Site.Reachable ⟨t, l⟩ := List.contains_iff_mem.trans <| h.mem_iff l
  rw [Bool.eq_iff_iff, Bool.not_eq_true', ← Bool.not_eq_true, hl]
  exact decide_eq_true_iff.symm

theorem unreachable_comesTo_names (ts : List Template) : (unreachable ts).ComesTo
    (.ok <| (ts.flatMap Template.sites).filter (¬·.Reachable) |>.map Site.name) := by
  induction ts
  case nil => exact .pure _
  case cons t ts hi =>
    have ⟨_, ht, hr⟩ := t.reachable_comesTo_closure
    rw [List.flatMap_cons, List.filter_append, List.map_append, ← unreachedIn_eq_names hr]
    exact ht.bind <| hi.bind <| .pure _

-- What the check is to report.
structure ReportsUnreached (c : Context) (r : Record) : Prop where
  check     : r.check = "template-locations"
  satisfied : r.satisfied = true ↔
    ∀ t ∈ c.document.templates, ∀ location ∈ t.locations, t.Reaches location
  message   : r.satisfied = false →
    r.message = "Unreachable locations found: " ++ ", ".intercalate (c.document.unreached.map Site.name)
  untraced  : r.trace = none

theorem templateLocations_comesTo (c : Context) :
    ∃ r, (templateLocations.run c).ComesTo (.ok r) ∧ ReportsUnreached c r := by
  have hrun : (templateLocations.run c).ComesTo _ :=
    (unreachable_comesTo_names c.document.templates).bind <| .pure _
  have hs : c.document.unreached = [] ↔ _ := Document.unreached_eq_nil_iff
  refine ⟨_, hrun, ?_⟩
  change ReportsUnreached c <| if (c.document.unreached.map Site.name).isEmpty then _ else _
  split
  case isTrue h =>
    have h : c.document.unreached = [] := by simpa using h
    exact { check := rfl, satisfied := ⟨fun _ => hs.mp h, fun _ => rfl⟩, message := nofun, untraced := rfl }
  case isFalse h =>
    have h : c.document.unreached ≠ [] := by simpa using h
    exact { check := rfl, satisfied := ⟨nofun, fun hc => absurd (hs.mpr hc) h⟩, message := fun _ => rfl,
            untraced := rfl }

-- If nobody asks it to stop, the check for unreachable locations comes to a record. It is satisfied if and only
-- if all that is declared can be reached, and otherwise lists what cannot. It is satisfied by a document if it
-- is by the same one in another order, or with fewer edges.
theorem template_locations (c : Context) :
    ∃ r, ((templateLocations.run c).perform .never).ending = .value (.ok r) ∧ ReportsUnreached c r ∧
      ∀ c' r', ((templateLocations.run c').perform .never).ending = .value (.ok r') →
        (c.document.Rearranged c'.document → r'.satisfied = r.satisfied) ∧
        (c.document.Extends c'.document → r.satisfied = true → r'.satisfied = true) := by
  have ⟨r, hc, hr⟩ := templateLocations_comesTo c
  refine ⟨r, hc.ending, hr, fun c' r' he => ?_⟩
  have ⟨_, hc', hr'⟩ := templateLocations_comesTo c'
  cases he.symm.trans hc'.ending
  constructor
  case left =>
    intro h
    rw [Bool.eq_iff_iff, hr.satisfied, hr'.satisfied]
    exact h.connected_iff.symm
  case right =>
    intro h hs
    exact hr'.satisfied.mpr <| h.connected <| hr.satisfied.mp hs

-- What is declared twice is listed twice, and a location of one template is none of another one.
example :
    let t : Template := { name := "t", init := "a", locations := ["a", "b", "b"] }
    let u : Template := { name := "u", init := "a", locations := ["b", "c"], edges := [⟨"a", "b", none⟩] }
    Document.unreached { name := "m", templates := [t, u] } |>.map Site.name = ["t.b", "t.b", "u.c"] := by
  decide +kernel

end Check

end ModelAudit
