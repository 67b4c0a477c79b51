import ModelAudit.Document.Format
import ModelAudit.Proofs.Json.Layouts

namespace ModelAudit

open Json

-- A value that is taken as something else, if it is taken at all.
def kept {α : Type} (p : α → Prop) [DecidablePred p] (f : α → α) (a : α) : Option α :=
  if p a then some (f a) else none

section Kept

variable {α β : Type} {p : α → Prop} {q : β → Prop} [DecidablePred p] [DecidablePred q] {f : α → α}
  {g : β → β} {a : α} {b : β}

-- What is kept of a part decides what is kept of the whole.
theorem kept_map {put : α → β} (hp : p a ↔ q b) (hf : put (f a) = g b) :
    (kept p f a).map put = kept q g b := by
  by_cases h : p a
  case pos => rw [kept, kept, if_pos h, if_pos <| hp.mp h, Option.map_some, hf]
  case neg => rw [kept, kept, if_neg h, if_neg <| h ∘ hp.mpr, Option.map_none]

theorem mapM_kept (p : α → Prop) [DecidablePred p] (f : α → α) (as : List α) :
    as.mapM (kept p f) = kept (∀ a ∈ ·, p a) (·.map f) as := by
  induction as
  case nil => rfl
  case cons a as hi =>
    rw [List.mapM_cons, hi]
    simp only [kept, List.forall_mem_cons]
    split_ifs <;> grind

end Kept

section Same

variable {α : Type} {p q : α → Prop} {f : α → α}

theorem map_eq_self_iff {as : List α} : as.map f = as ↔ ∀ a ∈ as, f a = a := by
  conv_lhs => rw [← List.map_id as, List.map_map, List.map_inj_left]
  rfl

-- What makes the values the same makes lists of them the same.
theorem forall_iff_map_eq_self (h : ∀ a, q a ↔ p a ∧ f a = a) (as : List α) :
    (∀ a ∈ as, q a) ↔ (∀ a ∈ as, p a) ∧ as.map f = as := by
  simp only [h, forall_and, map_eq_self_iff]

end Same

namespace Sync

-- The channel is no other without the blanks around it.
structure Plain (s : Sync) : Prop where
  named : s.channel ≠ ""
  first : ∀ c ∈ s.channel.toList.head?, Text.isBlank c = false
  last  : ∀ c ∈ s.channel.toList.getLast?, Text.isBlank c = false

def Named (s : Sync) : Prop :=
  ¬Text.IsBlankText s.channel

instance : DecidablePred Named :=
  fun s => inferInstanceAs (Decidable ¬Text.IsBlankText s.channel)

def trimmed (s : Sync) : Sync :=
  { s with channel := Text.trim s.channel }

theorem plain_iff {s : Sync} : s.Plain ↔ s.Named ∧ s.trimmed = s := by
  have ht : s.trimmed = s ↔ Text.trimChars s.channel.toList = s.channel.toList := by
    rw [← String.ofList_inj, String.ofList_toList]
    exact ⟨congrArg channel, congrArg fun channel => { s with channel }⟩
  rw [ht, Text.trimChars_eq_self_iff, Named, ← Text.trim_eq_empty_iff]
  constructor
  case mp =>
    intro ⟨hn, hf, hl⟩
    refine ⟨fun he => hn ?_, hf, hl⟩
    rwa [← congrArg channel <| ht.mpr <| Text.trimChars_eq_self_iff.mpr ⟨hf, hl⟩]
  case mpr =>
    intro ⟨hn, hf, hl⟩
    exact ⟨fun he => hn <| by rw [he]; rfl, hf, hl⟩

theorem Direction.isBlank_mark (d : Direction) : Text.isBlank d.mark = false := by
  cases d <;> rfl

theorem ofLabel?_label (s : Sync) : ofLabel? s.label =
    if s.Named then .ok s.trimmed else .error (.noChannel <| Text.trim s.label) := by
  have hl : (Text.trim s.label).toList = s.channel.toList.dropWhile Text.isBlank ++ [s.direction.mark] := by
    rw [Text.trim, String.toList_ofList, label, String.toList_push]
    exact Text.trimChars_concat s.direction.isBlank_mark
  have ht : Text.trim (String.ofList <| s.channel.toList.dropWhile Text.isBlank) = Text.trim s.channel := by
    rw [Text.trim, String.toList_ofList, Text.trimChars_dropWhile, Text.trim]
  have he : Text.trim s.channel = "" ↔ ¬s.Named := Text.trim_eq_empty_iff.trans Decidable.not_not.symm
  simp only [ofLabel?, hl, List.getLast?_concat, Option.bind_some, Direction.ofMark?_mark,
    List.dropLast_concat, ht, he, ite_not]
  rfl

-- The name of a channel may end in a mark, but not in a blank.
example : ofLabel? (Sync.mk " go !" .receive).label = .ok ⟨"go !", .receive⟩ ∧
    ofLabel? (Sync.mk "go? " .send).label = .ok ⟨"go?", .send⟩ := by
  decide +kernel

-- The only thing that can be wrong with a label in writing is that it names no channel.
theorem answered (s : Sync) : Answered Sync.read (.text s.label) (kept Named trimmed s) := by
  unfold Sync.read
  refine (Answered.text s.label).bind fun rest => ?_
  simp only [ofLabel?_label, kept]
  split_ifs
  case pos => exact .takes <| .pure _ rest
  case neg => exact .refuses rfl

-- A label that is understood names a channel without the blanks around it.
theorem plain_of_ofLabel? {written : String} {s : Sync} (h : ofLabel? written = .ok s) : s.Plain := by
  unfold ofLabel? at h
  dsimp only at h
  split at h
  · exact nomatch h
  · split_ifs at h with hn
    obtain rfl := Except.ok.inj h
    refine plain_iff.mpr ⟨?_, congrArg (Sync.mk · _) <| Text.trim_trim _⟩
    rwa [Named, Text.isBlankText_trim_iff, ← Text.trim_eq_empty_iff]

theorem read_yields : Yields Sync.read Plain := by
  unfold Sync.read
  refine (Yields.trivial readText).bind fun label _ => ?_
  split
  · exact .pure <| plain_of_ofLabel? ‹_›
  · exact failPending_yields _

end Sync

namespace Edge

def Plain (e : Edge) : Prop :=
  ∀ s ∈ e.sync, s.Plain

def Named (e : Edge) : Prop :=
  ∀ s ∈ e.sync, s.Named

instance : DecidablePred Named :=
  fun e => inferInstanceAs (Decidable (∀ s ∈ e.sync, s.Named))

def trimmed (e : Edge) : Edge :=
  { e with sync := e.sync.map Sync.trimmed }

theorem answered (e : Edge) : Answered layout.read e.toJson (kept Named trimmed e) := by
  have hs : layout.Takes ("source", .text e.source) (some fun e' => { e' with source := e.source }) :=
    ⟨_, rfl, (Answered.text e.source).map⟩
  have ht : layout.Takes ("target", .text e.target) (some fun e' => { e' with target := e.target }) :=
    ⟨_, rfl, (Answered.text e.target).map⟩
  obtain ⟨source, target, _ | s⟩ := e
  case none =>
    have hc : layout.Complete ["source", "target"] := ⟨by decide, by decide, by decide⟩
    exact .record (.cons hs <| .cons ht .nil) hc
  case some =>
    have hc : layout.Complete ["source", "target", "sync"] := ⟨by decide, by decide, by decide⟩
    have hl : layout.Takes ("sync", .text s.label)
        ((kept Sync.Named Sync.trimmed s).map some |>.map fun sync e' => { e' with sync }) :=
      ⟨_, rfl, s.answered.optional.map⟩
    refine (Answered.record (.cons hs <| .cons ht <| .cons hl .nil) hc).of_eq ?_
    rw [Option.map_map]
    refine (changed_last ..).trans <| kept_map ?_ rfl
    exact ⟨by rintro h _ ⟨⟩; exact h, fun h => h s rfl⟩

theorem plain_iff {e : Edge} : e.Plain ↔ e.Named ∧ e.trimmed = e := by
  obtain ⟨source, target, _ | s⟩ := e
  case none => simp [Plain, Named, trimmed]
  case some => simp [Plain, Named, trimmed, Sync.plain_iff]

theorem read_yields : Yields layout.read Plain := by
  refine Layout.read_yields nofun ?_
  simp only [layout, List.forall_mem_cons]
  refine ⟨?_, ?_, ?_, nofun⟩
  · exact (Yields.trivial readText).map fun _ _ _ h => h
  · exact (Yields.trivial readText).map fun _ _ _ h => h
  · exact (readOptional_yields Sync.read_yields).map fun _ h _ _ => h

end Edge

namespace Template

def Plain (t : Template) : Prop :=
  ∀ e ∈ t.edges, e.Plain

def Named (t : Template) : Prop :=
  ∀ e ∈ t.edges, e.Named

instance : DecidablePred Named :=
  fun t => inferInstanceAs (Decidable (∀ e ∈ t.edges, e.Named))

def trimmed (t : Template) : Template :=
  { t with edges := t.edges.map Edge.trimmed }

theorem answered (t : Template) : Answered layout.read t.toJson (kept Named trimmed t) := by
  have hn : layout.Takes ("name", .text t.name) (some fun t' => { t' with name := t.name }) :=
    ⟨_, rfl, (Answered.text t.name).map⟩
  have hi : layout.Takes ("init", .text t.init) (some fun t' => { t' with init := t.init }) :=
    ⟨_, rfl, (Answered.text t.init).map⟩
  have hl : layout.Takes ("locations", .list <| t.locations.map .text)
      (some fun t' => { t' with locations := t.locations }) :=
    ⟨_, rfl, (Answered.texts t.locations).map⟩
  have he : layout.Takes ("edges", .list <| t.edges.map Edge.toJson)
      ((kept (∀ e ∈ ·, e.Named) (·.map Edge.trimmed) t.edges).map fun edges t' => { t' with edges }) := by
    rw [← mapM_kept]
    exact ⟨_, rfl, (Answered.list fun e _ => e.answered).map⟩
  have hc : layout.Complete ["name", "init", "locations", "edges"] := ⟨by decide, by decide, by decide⟩
  refine (Answered.record (.cons hn <| .cons hi <| .cons hl <| .cons he .nil) hc).of_eq ?_
  exact (changed_last ..).trans <| kept_map .rfl rfl

theorem plain_iff {t : Template} : t.Plain ↔ t.Named ∧ t.trimmed = t := by
  have ht : t.trimmed = t ↔ t.edges.map Edge.trimmed = t.edges :=
    ⟨congrArg edges, congrArg fun edges => { t with edges }⟩
  rw [ht]
  exact forall_iff_map_eq_self (fun _ => Edge.plain_iff) t.edges

theorem read_yields : Yields layout.read Plain := by
  refine Layout.read_yields nofun ?_
  simp only [layout, List.forall_mem_cons]
  refine ⟨?_, ?_, ?_, ?_, nofun⟩
  · exact (Yields.trivial readText).map fun _ _ _ h => h
  · exact (Yields.trivial readText).map fun _ _ _ h => h
  · exact (Yields.trivial <| readList readText).map fun _ _ _ h => h
  · exact (readList_yields Edge.read_yields).map fun _ h _ _ => h

end Template

namespace Document

def Plain (d : Document) : Prop :=
  ∀ t ∈ d.templates, t.Plain

def Named (d : Document) : Prop :=
  ∀ t ∈ d.templates, t.Named

instance : DecidablePred Named :=
  fun d => inferInstanceAs (Decidable (∀ t ∈ d.templates, t.Named))

def trimmed (d : Document) : Document :=
  { d with templates := d.templates.map Template.trimmed }

theorem answered (d : Document) : Answered layout.read d.toJson (kept Named trimmed d) := by
  have hn : layout.Takes ("name", .text d.name) (some fun d' => { d' with name := d.name }) :=
    ⟨_, rfl, (Answered.text d.name).map⟩
  have hd : layout.Takes ("declaration", .text d.declaration)
      (some fun d' => { d' with declaration := d.declaration }) :=
    ⟨_, rfl, (Answered.text d.declaration).map⟩
  have ht : layout.Takes ("templates", .list <| d.templates.map Template.toJson)
      ((kept (∀ t ∈ ·, t.Named) (·.map Template.trimmed) d.templates).map fun ts d' =>
        { d' with templates := ts }) := by
    rw [← mapM_kept]
    exact ⟨_, rfl, (Answered.list fun t _ => t.answered).map⟩
  obtain ⟨name, declaration, _ | specification, templates⟩ := d
  case none =>
    have hc : layout.Complete ["name", "declaration", "templates"] :=
      ⟨by decide, by decide, by decide⟩
    refine (Answered.record (.cons hn <| .cons hd <| .cons ht .nil) hc).of_eq ?_
    exact (changed_last ..).trans <| kept_map .rfl rfl
  case some =>
    have hc : layout.Complete ["name", "declaration", "specification", "templates"] :=
      ⟨by decide, by decide, by decide⟩
    have hs : layout.Takes ("specification", .text specification)
        (some fun d' => { d' with specification := some specification }) :=
      ⟨_, rfl, (Answered.text specification).optional.map⟩
    refine (Answered.record (.cons hn <| .cons hd <| .cons hs <| .cons ht .nil) hc).of_eq ?_
    exact (changed_last ..).trans <| kept_map .rfl rfl

theorem plain_iff {d : Document} : d.Plain ↔ d.Named ∧ d.trimmed = d := by
  have ht : d.trimmed = d ↔ d.templates.map Template.trimmed = d.templates :=
    ⟨congrArg templates, congrArg fun templates => { d with templates }⟩
  rw [ht]
  exact forall_iff_map_eq_self (fun _ => Template.plain_iff) d.templates

theorem read_yields : Yields layout.read Plain := by
  refine Layout.read_yields nofun ?_
  simp only [layout, List.forall_mem_cons]
  refine ⟨?_, ?_, ?_, ?_, nofun⟩
  · exact (Yields.trivial readText).map fun _ _ _ h => h
  · exact (Yields.trivial readText).map fun _ _ _ h => h
  · exact (Yields.trivial <| readOptional readText).map fun _ _ _ h => h
  · exact (readList_yields Template.read_yields).map fun _ h _ _ => h

theorem read_write (d : Document) : (read d.write).toOption = kept Named trimmed d :=
  d.answered.decode

-- The channels that edges send or receive on, in their order.
def channels (d : Document) : List String :=
  d.templates.flatMap fun t => t.edges.filterMap fun e => e.sync.map Sync.channel

theorem channels_trimmed (d : Document) : d.trimmed.channels = d.channels.map Text.trim := by
  simp [channels, trimmed, Template.trimmed, Edge.trimmed, Sync.trimmed, List.flatMap_map,
    List.map_flatMap, List.filterMap_map, List.map_filterMap, Function.comp_def]

theorem mem_channels {d : Document} {channel : String} : channel ∈ d.channels ↔
    ∃ t ∈ d.templates, ∃ e ∈ t.edges, ∃ s ∈ e.sync, s.channel = channel := by
  simp [channels]

theorem named_iff {d : Document} : d.Named ↔ ∀ channel ∈ d.channels, ¬Text.IsBlankText channel := by
  simp only [mem_channels]
  constructor
  case mp =>
    rintro h _ ⟨t, ht, e, he, s, hs, rfl⟩
    exact h t ht e he s hs
  case mpr => exact fun h t ht e he s hs => h _ ⟨t, ht, e, he, s, hs, rfl⟩

theorem plain_of_map_trim {d : Document} (hn : d.Named)
    (hc : d.channels.map Text.trim = d.channels) : d.Plain := by
  intro t ht e he s hs
  have hs' : Text.trim s.channel = s.channel :=
    map_eq_self_iff.mp hc _ <| mem_channels.mpr ⟨t, ht, e, he, s, hs, rfl⟩
  exact Sync.plain_iff.mpr ⟨hn t ht e he s hs, congrArg (Sync.mk · s.direction) hs'⟩

theorem read_write_eq_ok_iff {d d' : Document} : read d.write = .ok d' ↔ d.Named ∧ d.trimmed = d' := by
  have hw := d.read_write
  have hk : kept Named trimmed d = some d' ↔ d.Named ∧ d.trimmed = d' := by
    rw [kept, Option.ite_none_right_eq_some, Option.some.injEq]
  rw [← hk, ← hw]
  cases read d.write <;> simp [Except.toOption]

theorem read_write_eq_error_iff {d : Document} : (∃ e, read d.write = .error e) ↔ ¬d.Named := by
  have hw := d.read_write
  have hk : kept Named trimmed d = none ↔ ¬d.Named := by simp [kept]
  rw [← hk, ← hw]
  cases read d.write <;> simp [Except.toOption]

-- What comes of a document that is written and read again, and which documents are read at all.
structure RoundTrip (d : Document) : Prop where
  same    : read d.write = .ok d ↔ d.Plain
  refused : (∃ e, read d.write = .error e) ↔ ∃ channel ∈ d.channels, Text.IsBlankText channel
  taken   : ∀ d', read d.write = .ok d' → d' = d.trimmed
  differs : ∀ d', read d.write = .ok d' → ¬d.Plain → d'.channels ≠ d.channels
  again   : ∀ text, read text = .ok d → d.Plain ∧ read d.write = .ok d

theorem round_trip (d : Document) : RoundTrip d := by
  have hs : read d.write = .ok d ↔ d.Plain := read_write_eq_ok_iff.trans plain_iff.symm
  constructor
  case same => exact hs
  case refused =>
    rw [read_write_eq_error_iff, named_iff]
    push Not
    rfl
  case taken => exact fun d' h => (read_write_eq_ok_iff.mp h).2.symm
  case differs =>
    intro d' h hp hc
    obtain ⟨hn, rfl⟩ := read_write_eq_ok_iff.mp h
    exact hp <| plain_of_map_trim hn <| d.channels_trimmed ▸ hc
  case again =>
    intro text h
    have ⟨u, hu, he⟩ := decode_eq_ok h
    have hp : d.Plain := he ▸ read_yields _ u hu
    exact ⟨hp, hs.mpr hp⟩

end Document

end ModelAudit
