import ModelAudit.Session.History
import Mathlib.Data.List.Induction

namespace ModelAudit.Session

namespace State

-- The texts that are kept or will be, once those have stored them who have read them.
def Holds (s : State) (text : String) : Prop :=
  text = s.specText ∨ ∃ w ∈ s.watchers, text ∈ w.text

-- Nothing is kept but the specification of the current document.
def Settled (s : State) : Prop :=
  ∀ text, s.Holds text → text = specificationOf s.provider.current

-- What a happening does to the current document, what is kept of it, and those who watch it.
inductive Upkeep (s : State) : Happening → State → Prop
  | aside {h s'} (hp : s'.provider = s.provider) (ht : s'.specText = s.specText)
    (hw : s'.watchers = s.watchers) (hn : ∀ d, h ≠ .setDocument d) : s.Upkeep h s'
  | replace {d} : s.Upkeep (.setDocument d) (s.setDocument d)
  | reload : s.Upkeep .documentChanged s.documentChanged
  | override {text} : s.Upkeep (.setSpecText text) (s.setSpecText text)
  | watch : s.Upkeep .watch s.watch
  | notice {i w} (hw : s.watchers[i]? = some w) (ht : w.text = none) :
    s.Upkeep (.watcherStep i)
      { s with watchers := s.watchers.set i { w with follower := s.provider.follow, noticed := true } }
  | read {i w} (hw : s.watchers[i]? = some w) (ht : w.text = none) :
    s.Upkeep (.watcherStep i)
      { s with
        watchers := s.watchers.set i
          { w with noticed := false, text := some (specificationOf s.provider.current) } }
  | store {i w text} (hw : s.watchers[i]? = some w) (ht : w.text = some text) :
    s.Upkeep (.watcherStep i)
      { s with specText := text, watchers := s.watchers.set i { w with text := none } }

variable {s s' : State} {h : Happening}

section Upkeep

theorem Upkeep.provider_eq (hu : s.Upkeep h s') (hn : ∀ d, h ≠ .setDocument d) :
    s'.provider = s.provider := by
  cases hu with
  | aside hp => exact hp
  | replace => exact absurd rfl <| hn _
  | _ => rfl

-- Whoever watches goes on doing so.
theorem Upkeep.watchers_ne_nil (hu : s.Upkeep h s') (hw : s.watchers ≠ []) : s'.watchers ≠ [] := by
  cases hu with
  | aside _ _ hm => exact hm ▸ hw
  | watch => exact List.append_ne_nil_of_left_ne_nil hw _
  | notice => simpa using hw
  | read => simpa using hw
  | store => simpa using hw
  | _ => exact hw

theorem exists_mem_text_of_set {ws : List Watcher} {i : Nat} {v : Watcher} {text : String}
    (h : ∃ w ∈ ws.set i v, text ∈ w.text) : (∃ w ∈ ws, text ∈ w.text) ∨ text ∈ v.text := by
  obtain ⟨w, hm, ht⟩ := h
  cases List.mem_or_eq_of_mem_set hm
  case inl hm => exact .inl ⟨w, hm, ht⟩
  case inr he => exact .inr <| he ▸ ht

-- What is held afterwards was held before or has just been read.
theorem Upkeep.holds (hu : s.Upkeep h s') (hn : ∀ text, h ≠ .setSpecText text) {text : String}
    (ht : s'.Holds text) : s.Holds text ∨ text = specificationOf s'.provider.current := by
  cases hu with
  | aside hp hs hw =>
    rw [Holds, hs, hw] at ht
    exact .inl ht
  | replace => exact .inl ht
  | reload => exact ht.elim .inr fun ht => .inl <| .inr ht
  | override => exact absurd rfl <| hn _
  | watch =>
    refine .inl <| ht.imp_right ?_
    rintro ⟨w, hm, hx⟩
    cases List.mem_append.mp hm
    case inl hm => exact ⟨w, hm, hx⟩
    case inr hm => cases List.mem_singleton.mp hm; cases hx
  | notice _ hw =>
    refine .inl <| ht.imp_right fun ht => (exists_mem_text_of_set ht).resolve_right ?_
    simp [hw]
  | read =>
    rcases ht with ht | ht
    · exact .inl <| .inl ht
    · exact (exists_mem_text_of_set ht).imp .inr fun ht => (Option.some.inj ht).symm
  | store hw hx =>
    rcases ht with rfl | ht
    · exact .inl <| .inr ⟨_, List.mem_of_getElem? hw, hx⟩
    · exact .inl <| .inr <| (exists_mem_text_of_set ht).resolve_right nofun

end Upkeep

-- The watcher has still something to do.
def Busy (s : State) (w : Watcher) : Prop :=
  s.provider.HasNews w.follower ∨ w.noticed = true ∨ w.text ≠ none

def CaughtUp (s : State) : Prop :=
  ∀ w ∈ s.watchers, ¬s.Busy w

-- If something else is kept than the specification of the current document, somebody has still to put
-- that right.
structure Attended (s : State) : Prop where
  seen  : ∀ w ∈ s.watchers, w.follower.seen ≤ s.provider.version
  fresh : ∀ w ∈ s.watchers, ¬s.provider.HasNews w.follower →
    ∀ text ∈ w.text, text = specificationOf s.provider.current
  kept  : s.specText = specificationOf s.provider.current ∨ ∃ w ∈ s.watchers, s.Busy w

theorem Attended.settled (h : s.Attended) (hc : s.CaughtUp) : s.Settled := by
  rintro text (rfl | ⟨w, hw, ht⟩)
  · exact h.kept.resolve_right fun ⟨w, hw, hb⟩ => hc w hw hb
  · exact absurd (.inr <| .inr <| by simp [Option.mem_def.mp ht]) <| hc w hw

theorem forall_mem_set {p : Watcher → Prop} {ws : List Watcher} {i : Nat} {v : Watcher}
    (h : ∀ w ∈ ws, p w) (hv : p v) : ∀ w ∈ ws.set i v, p w := by
  intro w hm
  cases List.mem_or_eq_of_mem_set hm
  case inl hm => exact h w hm
  case inr he => exact he ▸ hv

theorem mem_set_of_getElem? {ws : List Watcher} {i : Nat} {w v : Watcher} (h : ws[i]? = some w) :
    v ∈ ws.set i v :=
  List.mem_set (List.getElem?_eq_some_iff.mp h).1 v

-- Nobody has seen a document that is only now put in place, so whoever watches will see to it.
theorem Attended.setDocument (ha : s.Attended) (d : Document) (hw : s.watchers ≠ []) :
    (s.setDocument d).Attended := by
  have hb (w) (hm : w ∈ s.watchers) : (s.setDocument d).provider.HasNews w.follower :=
    Nat.ne_of_lt <| Nat.lt_succ_of_le <| ha.seen w hm
  constructor
  case seen => exact fun w hm => Nat.le_succ_of_le <| ha.seen w hm
  case fresh => exact fun w hm hn => absurd (hb w hm) hn
  case kept =>
    have ⟨w, hm⟩ := List.exists_mem_of_ne_nil _ hw
    exact .inr ⟨w, hm, .inl <| hb w hm⟩

theorem Attended.watch (ha : s.Attended) : s.watch.Attended := by
  constructor
  case seen => exact List.forall_mem_append.mpr ⟨ha.seen, List.forall_mem_singleton.mpr <| Nat.le_refl _⟩
  case fresh => exact List.forall_mem_append.mpr ⟨ha.fresh, List.forall_mem_singleton.mpr nofun⟩
  case kept =>
    exact ha.kept.imp_right fun ⟨w, hm, hb⟩ => ⟨w, List.mem_append_left _ hm, hb⟩

theorem Attended.upkeep (ha : s.Attended) (hu : s.Upkeep h s') (hn : ∀ text, h ≠ .setSpecText text)
    (hw : (∃ d, h = .setDocument d) → s.watchers ≠ []) : s'.Attended := by
  cases hu with
  | aside hp hs hm =>
    cases s'
    dsimp only at hp hs hm
    subst hp hs hm
    exact ⟨ha.seen, ha.fresh, ha.kept⟩
  | replace => exact ha.setDocument _ <| hw ⟨_, rfl⟩
  | reload => exact ⟨ha.seen, ha.fresh, .inl rfl⟩
  | override => exact absurd rfl <| hn _
  | watch => exact ha.watch
  | notice hi hx =>
    constructor
    case seen => exact forall_mem_set ha.seen <| Nat.le_refl _
    case fresh => exact forall_mem_set ha.fresh fun _ => by simp [hx]
    case kept => exact .inr ⟨_, mem_set_of_getElem? hi, .inr <| .inl rfl⟩
  | @read i w hi =>
    constructor
    case seen => exact forall_mem_set ha.seen <| ha.seen w <| List.mem_of_getElem? hi
    case fresh => exact forall_mem_set ha.fresh fun _ _ hx => (Option.some.inj hx).symm
    case kept => exact .inr ⟨_, mem_set_of_getElem? hi, .inr <| .inr nofun⟩
  | @store i w text hi hx =>
    have hm := List.mem_of_getElem? hi
    constructor
    case seen => exact forall_mem_set ha.seen <| ha.seen w hm
    case fresh => exact forall_mem_set ha.fresh fun _ => nofun
    case kept =>
      by_cases hb : s.provider.HasNews w.follower
      case pos => exact .inr ⟨_, mem_set_of_getElem? hi, .inl hb⟩
      case neg => exact .inl <| ha.fresh w hm hb text hx

end State

namespace Scene

variable {o : Orchestrator} {s : Scene}

def afterAll (o : Orchestrator) (s : Scene) (history : List Happening) : Scene :=
  history.foldl (after o) s

theorem afterAll_append (o : Orchestrator) (s : Scene) (history more : List Happening) :
    s.afterAll o (history ++ more) = (s.afterAll o history).afterAll o more :=
  List.foldl_append

theorem after_upkeep (o : Orchestrator) (s : Scene) (h : Happening) :
    s.state.Upkeep h (s.after o h).state := by
  cases h
  case call => exact .aside rfl rfl rfl <| by simp
  case setDocument => exact .replace
  case documentChanged => exact .reload
  case setSpecText => exact .override
  case suppress => exact .aside rfl rfl rfl <| by simp
  case watch => exact .watch
  case orchestrator => exact .aside rfl rfl rfl <| by simp
  case callStep i =>
    simp only [after, callStep]
    split
    · exact .aside rfl rfl rfl <| by simp
    · rename_i trigger call hc
      clear hc
      cases call
      case answered outcome => cases outcome <;> exact .aside rfl rfl rfl <| by simp
      all_goals exact .aside rfl rfl rfl <| by simp
  case watcherStep i =>
    simp only [after, watcherStep]
    split
    · exact .aside rfl rfl rfl <| by simp
    · rename_i w hw
      simp only [State.watcherStep]
      split
      · exact .store hw ‹_›
      · split
        · exact .read hw ‹_›
        · split
          · exact .notice hw ‹_›
          · obtain ⟨hi, he⟩ := List.getElem?_eq_some_iff.mp hw
            exact .aside rfl rfl (he ▸ List.set_getElem_self hi) <| by simp

theorem afterAll_concat (o : Orchestrator) (s : Scene) (history : List Happening) (h : Happening) :
    s.afterAll o (history ++ [h]) = (s.afterAll o history).after o h :=
  s.afterAll_append o history [h]

-- The document that is current at the end of a history.
def currentAt (o : Orchestrator) (s : Scene) (history : List Happening) : Document :=
  (s.afterAll o history).state.provider.current

theorem currentAt_append {history more : List Happening} (hn : ∀ d, .setDocument d ∉ more) :
    s.currentAt o (history ++ more) = s.currentAt o history := by
  induction more using List.reverseRecOn
  case nil => rw [List.append_nil]
  case append_singleton more h hi =>
    have hi := hi fun d hm => hn d <| List.mem_append_left _ hm
    have hd (d) (he : h = .setDocument d) : False := hn d <| he ▸ List.mem_append_right _ (.head _)
    rw [← List.append_assoc, ← hi, currentAt, currentAt, afterAll_concat]
    exact congrArg Provider.current <| (after_upkeep o _ h).provider_eq hd

theorem currentAt_eq_of_between {calm moment between : List Happening} (hc : calm <+: moment)
    (hm : moment <+: calm ++ between) (hn : ∀ d, .setDocument d ∉ between) :
    s.currentAt o moment = s.currentAt o calm := by
  obtain ⟨part, rfl⟩ := hc
  have hp : part <+: between := (List.prefix_append_right_inj calm).mp hm
  exact currentAt_append fun d hd => hn d <| hp.subset hd

-- The text was read from the document of some moment, which is not before any moment at which the
-- session was settled.
def Stems (o : Orchestrator) (s : Scene) (history : List Happening) (text : String) : Prop :=
  ∃ read, read <+: history ∧ text = specificationOf (s.currentAt o read) ∧
    ∀ calm, calm <+: history → (s.afterAll o calm).state.Settled → calm <+: read

namespace Stems

variable {history : List Happening} {h : Happening} {text : String}

theorem here (h : text = specificationOf (s.currentAt o history)) : s.Stems o history text :=
  ⟨history, List.prefix_rfl, h, fun _ hc _ => hc⟩

theorem concat (ht : s.Stems o history text)
    (hn : ¬(s.afterAll o (history ++ [h])).state.Settled) : s.Stems o (history ++ [h]) text := by
  obtain ⟨read, hr, ht, hc⟩ := ht
  refine ⟨read, hr.trans <| List.prefix_append .., ht, fun calm hp hs => ?_⟩
  cases List.prefix_concat_iff.mp hp
  case inl he => exact absurd (he ▸ hs) hn
  case inr hp => exact hc calm hp hs

end Stems

-- Texts stem from documents as long as nobody puts a text of his own in their place.
theorem stems_of_holds (hs : s.state.Settled) {history : List Happening}
    (hn : ∀ text, .setSpecText text ∉ history) {text : String}
    (ht : (s.afterAll o history).state.Holds text) : s.Stems o history text := by
  induction history using List.reverseRecOn generalizing text
  case nil => exact .here <| hs text ht
  case append_singleton history h hi =>
    by_cases hc : (s.afterAll o (history ++ [h])).state.Settled
    case pos => exact .here <| hc text ht
    case neg =>
      have hn' (text) (he : h = .setSpecText text) : False :=
        hn text <| he ▸ List.mem_append_right _ (.head _)
      have hu := after_upkeep o (s.afterAll o history) h
      rw [← afterAll_concat] at hu
      cases hu.holds hn' ht
      case inl ht => exact hi (fun text hm => hn text <| List.mem_append_left _ hm) ht |>.concat hc
      case inr ht => exact .here ht

-- The call took the document of the moment at which it went on for the first time.
def Looked (o : Orchestrator) (s : Scene) (history : List Happening) (i : Nat) (d : Document) : Prop :=
  ∃ look trigger, look ++ [.callStep i] <+: history ∧
    (s.afterAll o look).calls[i]? = some (trigger, .begun) ∧ d = s.currentAt o look

-- After that it took the text that was kept when it went on again.
def Copied (o : Orchestrator) (s : Scene) (history : List Happening) (i : Nat) (d : Document)
    (text : String) : Prop :=
  ∃ copy, copy ++ [.callStep i] <+: history ∧ s.Looked o copy i d ∧ s.Stems o copy text

-- Where a call has from what it has.
inductive Explains (o : Orchestrator) (s : Scene) (history : List Happening) (i : Nat) : Call → Prop
  | begun : Explains o s history i .begun
  | hasDocument {d} (h : s.Looked o history i d) : Explains o s history i (.hasDocument d)
  | hasText {d text} (h : s.Copied o history i d text) : Explains o s history i (.hasText d text)
  | answered {outcome} : Explains o s history i (.answered outcome)
  | returned {outcome} : Explains o s history i (.returned outcome)

section Calls

variable {history more : List Happening} {h : Happening} {i : Nat} {d : Document} {text : String}
  {trigger : Trigger} {call : Call}

theorem Explains.mono (he : s.Explains o history i call) (hp : history <+: more) :
    s.Explains o more i call := by
  cases he with
  | begun => exact .begun
  | hasDocument h =>
    obtain ⟨look, trigger, hl, h⟩ := h
    exact .hasDocument ⟨look, trigger, hl.trans hp, h⟩
  | hasText h =>
    obtain ⟨copy, hc, h⟩ := h
    exact .hasText ⟨copy, hc.trans hp, h⟩
  | answered => exact .answered
  | returned => exact .returned

-- A call is one from before, or it has just begun, or it has just gone on.
theorem calls_after (hc : (s.after o h).calls[i]? = some (trigger, call)) :
    s.calls[i]? = some (trigger, call) ∨ call = .begun ∨
      h = .callStep i ∧ ∃ call', s.calls[i]? = some (trigger, call') ∧
        call = (s.state.callStep trigger call').1 := by
  cases h
  case call t =>
    have hc : (s.calls ++ [(t, .begun)])[i]? = some (trigger, call) := hc
    rw [List.getElem?_append] at hc
    split at hc
    · exact .inl hc
    · have hm := List.mem_of_getElem? hc
      exact .inr <| .inl <| congrArg Prod.snd <| List.mem_singleton.mp hm
  case callStep j =>
    simp only [after, callStep] at hc
    split at hc
    · exact .inl hc
    · rename_i t call' hj
      rw [List.getElem?_set] at hc
      split_ifs at hc with he
      · subst he
        obtain ⟨rfl, rfl⟩ := Prod.mk.inj <| Option.some.inj hc
        exact .inr <| .inr ⟨rfl, call', hj, rfl⟩
      · exact .inl hc
  case watcherStep j =>
    simp only [after, watcherStep] at hc
    split at hc <;> exact .inl hc
  all_goals exact .inl hc

theorem explains (hs : s.state.Settled) (hn : ∀ text, .setSpecText text ∉ history)
    (hc : s.calls = []) (hi : (s.afterAll o history).calls[i]? = some (trigger, call)) :
    s.Explains o history i call := by
  induction history using List.reverseRecOn generalizing call
  case nil => simp [afterAll, hc] at hi
  case append_singleton history h ih =>
    have hn' (text) (hm : .setSpecText text ∈ history) : False := hn text <| List.mem_append_left _ hm
    rw [afterAll_concat] at hi
    rcases calls_after hi with ho | hb | ⟨rfl, before, hb, hg⟩
    · exact (ih hn' ho).mono <| List.prefix_append ..
    · exact hb ▸ .begun
    · have he := ih hn' hb
      rw [hg]
      cases before
      case begun => exact .hasDocument ⟨history, trigger, List.prefix_rfl, hb, rfl⟩
      case hasDocument d =>
        cases he with
        | hasDocument hl =>
          exact .hasText ⟨history, List.prefix_rfl, hl, stems_of_holds hs hn' <| .inl rfl⟩
      case hasText => exact .answered
      case answered => exact .returned
      case returned => exact .returned

theorem length_calls_le_after (o : Orchestrator) (s : Scene) (h : Happening) :
    s.calls.length ≤ (s.after o h).calls.length := by
  cases h
  case call => simp [after]
  case callStep j =>
    simp only [after, callStep]
    split
    · exact Nat.le_refl _
    · simp
  case watcherStep j =>
    simp only [after, watcherStep]
    split <;> exact Nat.le_refl _
  all_goals exact Nat.le_refl _

theorem length_calls_le (o : Orchestrator) (s : Scene) (history : List Happening) :
    s.calls.length ≤ (s.afterAll o history).calls.length := by
  induction history generalizing s
  case nil => exact Nat.le_refl _
  case cons h history hi => exact Nat.le_trans (s.length_calls_le_after o h) <| hi _

-- A call that is made when the session is settled takes the text of its document, unless somebody
-- replaces the document meanwhile.
theorem Copied.paired {calm between : List Happening} (h : s.Copied o (calm ++ between) i d text)
    (hs : (s.afterAll o calm).state.Settled) (hi : (s.afterAll o calm).calls.length ≤ i)
    (hn : ∀ d, .setDocument d ∉ between) : text = specificationOf d := by
  obtain ⟨copy, hc, ⟨look, trigger, hl, hb, rfl⟩, read, hr, rfl, hm⟩ := h
  have hc : copy <+: calm ++ between := (List.prefix_append ..).trans hc
  have hl : look <+: copy := (List.prefix_append ..).trans hl
  have hcl : calm <+: look := by
    refine (List.prefix_or_prefix_of_prefix (hl.trans hc) <| List.prefix_append ..).resolve_left ?_
    rintro ⟨part, rfl⟩
    have hlt := (List.getElem?_eq_some_iff.mp hb).1
    have hle := (s.afterAll o look).length_calls_le o part
    rw [← afterAll_append] at hle
    omega
  have hcr : calm <+: read := hm calm (hcl.trans hl) hs
  rw [currentAt_eq_of_between hcr (hr.trans hc) hn, currentAt_eq_of_between hcl (hl.trans hc) hn]

end Calls

section Watching

-- Somebody watches when the document is replaced for the first time.
def Watched (history : List Happening) : Prop :=
  ∀ before d more, history = before ++ .setDocument d :: more → .watch ∈ before

variable {history : List Happening}

theorem watchers_ne_nil (h : .watch ∈ history) : (s.afterAll o history).state.watchers ≠ [] := by
  induction history using List.reverseRecOn
  case nil => cases h
  case append_singleton history h' hi =>
    rw [afterAll_concat]
    cases List.mem_append.mp h
    case inl h => exact (after_upkeep o _ h').watchers_ne_nil <| hi h
    case inr h =>
      obtain rfl := List.mem_singleton.mp h
      exact List.append_ne_nil_of_right_ne_nil _ nofun

theorem attended (hs : s.state.Attended) (hn : ∀ text, .setSpecText text ∉ history)
    (hw : Watched history) : (s.afterAll o history).state.Attended := by
  induction history using List.reverseRecOn
  case nil => exact hs
  case append_singleton history h hi =>
    have hn' (text) (he : h = .setSpecText text) : False :=
      hn text <| he ▸ List.mem_append_right _ (.head _)
    have ha := hi (fun text hm => hn text <| List.mem_append_left _ hm) <| by
      rintro before d more rfl
      exact hw before d (more ++ [h]) <| by simp
    rw [afterAll_concat]
    refine ha.upkeep (after_upkeep o _ h) hn' ?_
    rintro ⟨d, rfl⟩
    exact watchers_ne_nil <| hw history d [] rfl

end Watching

end Scene

-- The call is about to launch a run over the document with the text.
def Scene.Launches (s : Scene) (i : Nat) (d : Document) (text : String) : Prop :=
  ∃ trigger run, s.calls[i]? = some (trigger, .hasText d text) ∧
    (s.state.orchestrator.start text d).1 = .started run

-- Where the document and the text of a run come from, and when they belong together.
structure Provenance (o : Orchestrator) (s₀ : Scene) (history : List Happening) : Prop where
  copied  : ∀ i d text, (s₀.afterAll o history).Launches i d text → s₀.Copied o history i d text
  paired  : ∀ i d text calm between, (s₀.afterAll o history).Launches i d text →
    history = calm ++ between → (s₀.afterAll o calm).state.Settled →
      (s₀.afterAll o calm).calls.length ≤ i → (∀ d, .setDocument d ∉ between) →
        text = specificationOf d
  settled : Scene.Watched history → (s₀.afterAll o history).state.CaughtUp →
    (s₀.afterAll o history).state.Settled

theorem eq_of_initial {o : Orchestrator} {d : Document} {s : State} (h : Session.initial o d = .ok s) :
    ∃ orchestrator, s = { orchestrator, provider := { current := d }, specText := specificationOf d } := by
  unfold Session.initial at h
  cases hi : o.initial
  case error => rw [hi] at h; cases h
  case ok orchestrator => rw [hi] at h; cases h; exact ⟨orchestrator, rfl⟩

-- Whoever replaces the document, watches it or starts runs at whatever moment, as long as nobody puts a
-- text of his own in the place of the specification.
theorem launches_traced {o : Orchestrator} {d : Document} {s : State} {history : List Happening}
    (h : Session.initial o d = .ok s) (hn : ∀ text, .setSpecText text ∉ history) :
    Provenance o { state := s } history := by
  have ⟨_, hs⟩ := eq_of_initial h
  have hs₀ : s.Settled := by
    subst hs
    rintro text (rfl | ⟨w, hw, _⟩)
    · rfl
    · cases hw
  have ha : s.Attended := by
    subst hs
    exact ⟨nofun, nofun, .inl rfl⟩
  have hc (i d text) (hl : (Scene.afterAll o { state := s } history).Launches i d text) :
      Scene.Copied o { state := s } history i d text := by
    obtain ⟨trigger, run, hi, _⟩ := hl
    cases Scene.explains hs₀ hn rfl hi with
    | hasText h => exact h
  constructor
  case copied => exact hc
  case paired =>
    rintro i d text calm between hl rfl hs hi hn
    exact (hc i d text hl).paired hs hi hn
  case settled => exact fun hw hu => (Scene.attended ha hn hw).settled hu

-- A document with a specification of its own.
def specified : Document where
  name := "m"
  specification := some "\x7b\"checks\": [\x7b\"type\": \"deadlock-locations\"\x7d]\x7d"

-- The watcher has noticed the new document, read the specification and stored it before the run is
-- started.
theorem launches_traced_of_settled :
    let o : Orchestrator := { runner := Catalog.builtin.runner }
    let s : State := { orchestrator := { channel := { capacity := 64 } },
                       provider := { current := { name := "m" } }, specText := CheckSet.emptyText }
    let store : List Happening := [.watcherStep 0, .watcherStep 0, .watcherStep 0]
    let history : List Happening :=
      [.watch, .setDocument specified] ++ store ++ [.call .button, .callStep 0, .callStep 0]
    Session.initial o { name := "m" } = .ok s ∧ (∀ text, .setSpecText text ∉ history) ∧
      (Scene.afterAll o { state := s } history).Launches 0 specified (specificationOf specified) ∧
        Provenance o { state := s } history :=
  ⟨rfl, by simp, ⟨.button, ⟨1⟩, rfl, rfl⟩, launches_traced (d := { name := "m" }) rfl (by simp)⟩

-- Here the watcher has not even noticed the new document when the run is started over it. The
-- specification is the one that is kept of the former document.
theorem launched_with_outdated_text :
    let o : Orchestrator := { runner := Catalog.builtin.runner }
    let s : State := { orchestrator := { channel := { capacity := 64 } },
                       provider := { current := { name := "m" } }, specText := CheckSet.emptyText }
    let history : List Happening :=
      [.watch, .setDocument specified, .call .button, .callStep 0, .callStep 0]
    Session.initial o { name := "m" } = .ok s ∧ (∀ text, .setSpecText text ∉ history) ∧
      ∃ text, (Scene.afterAll o { state := s } history).Launches 0 specified text ∧
        text ≠ specificationOf specified :=
  ⟨rfl, by simp, CheckSet.emptyText, ⟨.button, ⟨1⟩, rfl, rfl⟩, by decide⟩

end ModelAudit.Session
