import ModelAudit.Proofs.Search.ShortestPaths

namespace ModelAudit

namespace Request

-- The parameter of that name is that text.
def Gives (r : Request) (name text : String) : Prop :=
  Json.lookup name r.parameters = some (.text text)

def NamesChannel (r : Request) (channel : String) : Prop :=
  r.Gives "channel" channel ∧ ¬Text.IsBlankText channel

-- Only templates of that name count as receivers.
def NamesReceiver (r : Request) (name : String) : Prop :=
  r.Gives "template" name ∧ name ≠ ""

def Admits (r : Request) (t : Template) : Prop :=
  ∀ name, r.NamesReceiver name → t.name = name

theorem text?_eq_some_iff {r : Request} {name text : String} :
    r.text? name = some text ↔ r.Gives name text := by
  unfold text? Gives
  split
  case h_1 h => simp [h]
  case h_2 h => exact ⟨nofun, fun hg => absurd hg <| h text⟩

theorem require_eq_ok_iff {r : Request} {channel : String} :
    r.require "channel" = .ok channel ↔ r.NamesChannel channel := by
  rw [NamesChannel, ← text?_eq_some_iff, require]
  cases r.text? "channel"
  case none => simp
  case some text =>
    by_cases hb : Text.IsBlankText text <;> simp only [hb, if_true, if_false] <;> grind

end Request

-- The edges that send on the channel, in order.
def Document.sends (d : Document) (channel : String) : List (Template × Edge) :=
  d.templates.flatMap fun t => t.edges.filter (·.SyncsOn channel .send) |>.map (t, ·)

theorem Document.mem_sends {d : Document} {channel : String} {t : Template} {send : Edge} :
    (t, send) ∈ d.sends channel ↔ t ∈ d.templates ∧ send ∈ t.edges ∧ send.SyncsOn channel .send := by
  simp only [sends, List.mem_flatMap, List.mem_map, List.mem_filter, decide_eq_true_eq, Prod.mk.injEq]
  constructor
  case mp =>
    intro ⟨_, ht, _, ⟨he, hs⟩, heq, heq'⟩
    subst heq heq'
    exact ⟨ht, he, hs⟩
  case mpr => exact fun ⟨ht, he, hs⟩ => ⟨t, ht, send, ⟨he, hs⟩, rfl, rfl⟩

theorem Document.sends_eq_nil_iff {d : Document} {channel : String} :
    d.sends channel = [] ↔ ∀ t ∈ d.templates, ∀ e ∈ t.edges, ¬e.SyncsOn channel .send := by
  simp [sends]

namespace Check

variable {c : Context} {channel : String} {t : Template} {send : Edge}

theorem scope?_eq_some_iff {r : Request} {name : String} :
    scope? r = some name ↔ r.NamesReceiver name := by
  simp [scope?, Option.filter_eq_some_iff, Request.text?_eq_some_iff, Request.NamesReceiver]

theorem scope?_eq_none_iff {r : Request} : scope? r = none ↔ ∀ name, ¬r.NamesReceiver name := by
  simp [Option.eq_none_iff_forall_ne_some, scope?_eq_some_iff]

theorem unknownTemplate?_eq_some_iff {name : String} : unknownTemplate? c = some name ↔
    c.request.NamesReceiver name ∧ ∀ t ∈ c.document.templates, t.name ≠ name := by
  simp [unknownTemplate?, Option.filter_eq_some_iff, scope?_eq_some_iff, Document.template?]

theorem mem_receivers_iff {d : Document} {r : Request} :
    t ∈ receivers d (scope? r) ↔ t ∈ d.templates ∧ r.Admits t := by
  cases hs : scope? r
  case none =>
    have ha : r.Admits t := fun name hn => absurd hn <| scope?_eq_none_iff.mp hs name
    simp [receivers, ha]
  case some name =>
    have ha : r.Admits t ↔ t.name = name := by
      constructor
      case mp => exact fun ha => ha name <| scope?_eq_some_iff.mp hs
      case mpr =>
        intro ht name' hn
        have hs' := scope?_eq_some_iff.mpr hn
        exact ht.trans <| Option.some.inj <| hs.symm.trans hs'
    simp [receivers, ha]

theorem isReceived_iff {d : Document} {r : Request} : isReceived d (scope? r) channel = true ↔
    ∃ t ∈ d.templates, r.Admits t ∧ ∃ e ∈ t.edges, e.SyncsOn channel .receive := by
  simp [isReceived, mem_receivers_iff, and_assoc]

theorem firstSend?_eq_head? (d : Document) (channel : String) :
    firstSend? d channel = (d.sends channel).head? := by
  simp [firstSend?, Document.sends, List.head?_flatMap]

-- The errors that the check may come to.
inductive RefusesSends (c : Context) : AuditError → Prop
  | missing (h : ∀ channel, ¬c.request.NamesChannel channel) :
    RefusesSends c (.missingParameter c.request.check "channel")
  | unknown {channel name : String} (hc : c.request.NamesChannel channel)
    (hr : c.request.NamesReceiver name) (h : ∀ t ∈ c.document.templates, t.name ≠ name) :
    RefusesSends c (.check "receivesyncs" ("unknown template '" ++ name ++ "'"))

-- What is to be reported of a send that nobody receives.
structure ReportsSend (c : Context) (channel : String) (t : Template) (send : Edge) (r : Record) :
    Prop where
  check    : r.check = "receivesyncs"
  violated : r.satisfied = false
  message  : r.message = unreceivedMessage channel (scope? c.request) t send
  traced   : c.checker = .symbolic → (r.hasTrace = true ↔ t.Reaches send.source)
  shown    : ∀ action, r.trace = some action → ∃ path,
    action = .displaying (.ofEdges t (path ++ [send])) ∧
      t.Chain t.init (path ++ [send]) send.target ∧
      (∀ path', t.Chain t.init (path' ++ [send]) send.target →
        (path ++ [send]).length ≤ (path' ++ [send]).length) ∧
      (Trace.ofEdges t (path ++ [send])).steps.getLast? =
        some ⟨send.source, send.target, some (channel ++ "!")⟩
  concrete : c.checker = .concrete → r.trace = none

-- What is to be reported of a channel.
structure ReportsSends (c : Context) (channel : String) (r : Record) : Prop where
  check     : r.check = "receivesyncs"
  satisfied : r.satisfied = true ↔
    (∃ t ∈ c.document.templates, c.request.Admits t ∧ ∃ e ∈ t.edges, e.SyncsOn channel .receive) ∨
      ∀ t ∈ c.document.templates, ∀ e ∈ t.edges, ¬e.SyncsOn channel .send
  violated  : r.satisfied = false → ∃ t send later,
    c.document.sends channel = (t, send) :: later ∧ ReportsSend c channel t send r
  silent    : r.satisfied = true ∨ c.checker = .concrete → r.trace = none

-- A path to the edge, followed by the edge.
theorem ReportsSend.of_shortest {path : List Edge} (hc : c.checker = .symbolic) (he : send ∈ t.edges)
    (hs : send.SyncsOn channel .send) (h : t.Shortest path send.source) :
    ReportsSend c channel t send
      { Record.violated "receivesyncs" (unreceivedMessage channel (scope? c.request) t send) with
        trace := some (.displaying (.ofEdges t (path ++ [send]))) } where
  check    := rfl
  violated := rfl
  message  := rfl
  traced   := fun _ => iff_of_true rfl ⟨path, h.chain⟩
  shown    := by
    intro action ha
    refine ⟨path, (Option.some.inj ha).symm, h.chain.snoc he, fun _ => h.least_snoc, ?_⟩
    have hl : send.sync.map (·.label) = some (channel ++ "!") := by rw [hs]; rfl
    simp [Trace.ofEdges, hl]
  concrete := fun hc' => by rw [hc] at hc'; cases hc'

theorem ReportsSend.of_traceless (h : c.checker = .symbolic → ¬t.Reaches send.source) :
    ReportsSend c channel t send
      (.violated "receivesyncs" (unreceivedMessage channel (scope? c.request) t send)) where
  check    := rfl
  violated := rfl
  message  := rfl
  traced   := fun hc => iff_of_false nofun (h hc)
  shown    := nofun
  concrete := fun _ => rfl

theorem unreceived_reports (c : Context) (he : send ∈ t.edges) (hs : send.SyncsOn channel .send) :
    ∃ r, (unreceived c channel t send).ComesTo (.ok r) ∧ ReportsSend c channel t send r := by
  unfold unreceived
  cases hc : c.checker
  case concrete => exact ⟨_, .pure _, .of_traceless <| by simp [hc]⟩
  case symbolic =>
    have ⟨_, hp, hsought⟩ := t.pathTo_sought send.source
    cases hsought
    case found path h =>
      refine ⟨_, hp.bind <| .pure _, ?_⟩
      rw [Context.attachTrace, if_pos <| by rw [hc]; rfl]
      exact .of_shortest hc he hs h
    case missing h => exact ⟨_, hp.bind <| .pure _, .of_traceless fun _ => h⟩

theorem ReportsSends.passed {message : String}
    (h : (∃ t ∈ c.document.templates, c.request.Admits t ∧ ∃ e ∈ t.edges, e.SyncsOn channel .receive) ∨
      ∀ t ∈ c.document.templates, ∀ e ∈ t.edges, ¬e.SyncsOn channel .send) :
    ReportsSends c channel (.passed "receivesyncs" message) where
  check     := rfl
  satisfied := iff_of_true rfl h
  violated  := nofun
  silent    := fun _ => rfl

theorem ReportsSends.at_fault {later : List (Template × Edge)} {r : Record}
    (hr : ¬isReceived c.document (scope? c.request) channel = true)
    (hd : c.document.sends channel = (t, send) :: later) (h : ReportsSend c channel t send r) :
    ReportsSends c channel r where
  check     := h.check
  satisfied := by
    have hs : ¬∀ t ∈ c.document.templates, ∀ e ∈ t.edges, ¬e.SyncsOn channel .send := by
      rw [← Document.sends_eq_nil_iff, hd]
      nofun
    exact iff_of_false (by simp [h.violated]) <| not_or.mpr ⟨mt isReceived_iff.mpr hr, hs⟩
  violated  := fun _ => ⟨t, send, later, hd, h⟩
  silent    := fun hc => h.concrete <| hc.resolve_left <| by simp [h.violated]

-- With its parameters in order, the check comes to a record.
theorem receiveSyncsOn_reports (h : unknownTemplate? c = none) (channel : String) :
    ∃ r, (receiveSyncsOn c channel).ComesTo (.ok r) ∧ ReportsSends c channel r := by
  rw [receiveSyncsOn, h]
  dsimp only
  by_cases hr : isReceived c.document (scope? c.request) channel = true
  case pos =>
    rw [if_pos hr]
    exact ⟨_, .pure _, .passed <| .inl <| isReceived_iff.mp hr⟩
  case neg =>
    rw [if_neg hr, firstSend?_eq_head?]
    cases hd : c.document.sends channel
    case nil => exact ⟨_, .pure _, .passed <| .inr <| Document.sends_eq_nil_iff.mp hd⟩
    case cons first later =>
      obtain ⟨t, send⟩ := first
      have ⟨_, he, hs⟩ := Document.mem_sends.mp <| hd ▸ List.mem_cons_self
      have ⟨r, hrun, hreport⟩ := unreceived_reports c he hs
      exact ⟨r, hrun, .at_fault hr hd hreport⟩

-- What the check is to come to.
structure AnswersSends (c : Context) (result : Except AuditError Record) : Prop where
  refuses : (∃ e, result = .error e) ↔
    (∀ channel, ¬c.request.NamesChannel channel) ∨
      ∃ name, c.request.NamesReceiver name ∧ ∀ t ∈ c.document.templates, t.name ≠ name
  error   : ∀ e, result = .error e → RefusesSends c e
  record  : ∀ r, result = .ok r →
    ∃ channel, c.request.NamesChannel channel ∧ ReportsSends c channel r

namespace AnswersSends

theorem missing (h : ∀ channel, ¬c.request.NamesChannel channel) :
    AnswersSends c (.error <| .missingParameter c.request.check "channel") where
  refuses := iff_of_true ⟨_, rfl⟩ (.inl h)
  error   := fun _ he => Except.error.inj he ▸ .missing h
  record  := nofun

theorem unknown {name : String} (hc : c.request.NamesChannel channel)
    (hr : c.request.NamesReceiver name) (h : ∀ t ∈ c.document.templates, t.name ≠ name) :
    AnswersSends c (.error <| .check "receivesyncs" ("unknown template '" ++ name ++ "'")) where
  refuses := iff_of_true ⟨_, rfl⟩ (.inr ⟨name, hr, h⟩)
  error   := fun _ he => Except.error.inj he ▸ .unknown hc hr h
  record  := nofun

end AnswersSends

end Check

end ModelAudit
