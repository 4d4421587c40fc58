import DesignDoc.Proofs.Assembly.Buffers
import DesignDoc.Recording.Builder

/-! Where summary texts go. A text waits until the next construct that takes summaries is entered
or the innermost scope is closed; whatever takes a summary therefore takes exactly the texts of the
comments since the last such event. This holds for streams in any order, nested or not. -/

namespace DesignDoc.Assembly

open DesignDoc.Annotation DesignDoc.Document DesignDoc.Event DesignDoc.Json

variable {ν : Type}

/-! ### Stretches of events -/

/-- Whether a construct that is entered takes the summary texts that wait. -/
def takesSummary : Kind → Bool
  | .module | .function | .task | .parameterDeclaration | .signalDeclaration => true
  | .ansiPort | .portDeclaration | .comment | .parameterPortList => false

/-- Whether an event that leads from `s` to `t` parts the comments before it from those after it.
The end of a construct does if it closes a scope. -/
def separates (s t : State) (e : Event ν) : Bool :=
  match e.phase with
  | .enter => takesSummary e.kind
  | .leave => t.depth < s.depth

variable [Inspect ν]

/-- The summary texts in an event. -/
def summariesOf (e : Event ν) : List String :=
  match e.phase, e.kind, e.text with
  | .enter, .comment, .ok text => summaryTexts (Comment.items text)
  | _, _, _ => []

/-- The events of a stream since the last one that separates, or since those in `since`. -/
def stretch (source : String) (s : State) (since : List (Event ν)) :
    List (Event ν) → List (Event ν)
  | [] => since
  | e :: es =>
    match s.feed source e with
    | .ok t => stretch source t (if separates s t e then [] else since ++ [e]) es
    | .error _ => since

/-- The summary texts that a stream leaves for what comes next. -/
def recent (source : String) (s : State) (es : List (Event ν)) : List String :=
  (stretch source s [] es).flatMap summariesOf

/-- These texts on lines of their own. -/
def recentText (source : String) (s : State) (es : List (Event ν)) : String :=
  "\n".intercalate (recent source s es)

section Stretch

variable {source : String} {s t : State} {e : Event ν} {es fs since : List (Event ν)}

theorem stretch_cons (h : s.feed source e = .ok t) :
    stretch source s since (e :: es) =
      stretch source t (if separates s t e then [] else since ++ [e]) es := by
  simp [stretch, h]

theorem stretch_append (h : feedAll source s es = ⟨t, none⟩) :
    stretch source s since (es ++ fs) = stretch source t (stretch source s since es) fs := by
  induction es generalizing s since with
  | nil =>
    obtain rfl : s = t := congrArg Outcome.state h
    rfl
  | cons e es ih =>
    obtain ⟨a, ha, hr⟩ := feedAll_cons_iff.mp h
    rw [List.cons_append, stretch_cons ha, stretch_cons ha, ih hr]

/-- A stretch goes back no further than to its start. -/
theorem stretch_suffix (since : List (Event ν)) (h : feedAll source s es = ⟨t, none⟩) :
    stretch source s since es <:+ since ++ es := by
  induction es generalizing s since with
  | nil => simp [stretch]
  | cons e es ih =>
    obtain ⟨a, ha, hr⟩ := feedAll_cons_iff.mp h
    rw [stretch_cons ha]
    split
    · rw [← List.singleton_append, ← List.append_assoc]
      exact (ih [] hr).trans (List.suffix_append _ _)
    · simpa using ih (since ++ [e]) hr

/-- An event that takes summaries takes them away from all that comes later. -/
theorem stretch_suffix_of_takes (h : feedAll source s (es ++ e :: fs) = ⟨t, none⟩)
    (hp : e.phase = .enter) (hk : takesSummary e.kind = true) :
    stretch source s [] (es ++ e :: fs) <:+ fs := by
  obtain ⟨a, b, ha, hb, hr⟩ := feedAll_split_iff.mp h
  have hsep : separates a b e = true := by simp [separates, hp, hk]
  rw [stretch_append ha, stretch_cons hb, if_pos hsep]
  exact stretch_suffix [] hr

end Stretch

/-! ### Texts that wait -/

theorem summaryTexts_filter_isScopeItem (items : List Item) :
    summaryTexts (items.filter Item.isScopeItem) = [] := by
  simp only [summaryTexts, List.filterMap_filter, List.filterMap_eq_nil_iff]
  intro i _
  cases i with
  | simple tag text => cases tag <;> rfl
  | _ => simp [Item.summary?]

section Waiting

variable {source : String} {s t : State} {e : Event ν} {es since : List (Event ν)}

/-- An event that separates leaves no text waiting, and any other one adds the texts in it. -/
theorem summaryTexts_of_step (h : Step s e t) (hs : s.Running) :
    summaryTexts t.pending =
      if separates s t e then [] else summaryTexts s.pending ++ summariesOf e := by
  cases h with
  | comment h => simp [separates, takesSummary, summariesOf, Event.text, h]
  | opens k => cases k <;> simp [separates, ScopeKind.kind, takesSummary]
  | closes k n htop =>
    have hd : s.closeTop.depth < s.depth := by
      rw [State.depth_closeTop]
      exact Nat.sub_one_lt (by simp [State.depth, htop])
    simp [separates, hd, hs.pending_closeTop htop]
  | ignores k n => simp [separates, summariesOf]
  | ports hk =>
    rcases hk with rfl | rfl <;> simp [separates, takesSummary, summariesOf, State.addPorts]
  | parameters => simp [separates, takesSummary, State.addParameters]
  | signals _ ht =>
    obtain ⟨width, -, rfl⟩ := addSignals_eq_ok.mp ht
    simp [separates, takesSummary, summaryTexts_filter_isScopeItem]
  | idle hi =>
    obtain ⟨phase, kind, n⟩ := e
    cases phase <;> cases kind <;> simp [isIdle] at hi <;>
      simp [separates, takesSummary, summariesOf]

theorem summaryTexts_of_run (h : feedAll source s es = ⟨t, none⟩) (hs : s.Running)
    (hp : summaryTexts s.pending = since.flatMap summariesOf) :
    summaryTexts t.pending = (stretch source s since es).flatMap summariesOf := by
  induction es generalizing s since with
  | nil =>
    obtain rfl : s = t := congrArg Outcome.state h
    exact hp
  | cons e es ih =>
    obtain ⟨a, ha, hr⟩ := feedAll_cons_iff.mp h
    have hstep := step_of_feed ha
    rw [stretch_cons ha]
    refine ih hr (running_of_step hstep hs) ?_
    rw [summaryTexts_of_step hstep hs]
    split
    · rfl
    · rw [hp, List.flatMap_append, List.flatMap_singleton]

/-- After a run from the start, what waits is what the stream left. -/
theorem summaryTexts_pending {name : String} {strict : Bool}
    (h : feedAll source (.initial name strict) es = ⟨s, none⟩) :
    summaryTexts s.pending = recent source (.initial name strict) es :=
  summaryTexts_of_run h (State.running_initial name strict) rfl

theorem joinedSummary_pending {name : String} {strict : Bool}
    (h : feedAll source (.initial name strict) es = ⟨s, none⟩) :
    joinedSummary s.pending = recentText source (.initial name strict) es := by
  rw [joinedSummary_eq, summaryTexts_pending h, recentText]

end Waiting

/-! ### What takes the texts -/

/-- Whether a module is open. -/
def State.inModule (s : State) : Prop := ∃ a ∈ s.scopes, a.element.isModule = true

/-- What is declared so far in the innermost module or routine. -/
def State.owner? (s : State) : Option Body := s.scopes.head?.map (·.element.body)

theorem State.scopes_of_owner? {s : State} {b : Body} (h : s.owner? = some b) :
    ∃ top rest, s.scopes = top :: rest ∧ top.element.body = b := by
  cases hs : s.scopes with
  | nil => simp [owner?, hs] at h
  | cons top rest => exact ⟨top, rest, rfl, by simpa [owner?, hs] using h⟩

theorem State.scopes_declare {s : State} {top : Scope} {rest : List Scope} (f : Body → Body)
    (items : List Item) (h : s.scopes = top :: rest) :
    ((s.mapOwner f).setPending items).scopes = ⟨top.element.mapBody f, items⟩ :: rest := by
  simp [mapOwner, setPending, h]

/-- How the innermost scope of `t` ends if `post` leads from there to `u`: `last` is the scope in
the state in which it is closed, and `x` is its record from then on. -/
structure EndsAs (source : String) (t u : State) (post : List (Event ν)) (last : Scope)
    (x : Element) : Prop where
  scope : (ending source t post).scopes.head? = some last
  record : (ending source t post).record? = some x
  /-- Descriptions by name come from the items of this scope. -/
  associated : last.element.Associated
    (last.element.body.items ++ last.pending.filter (! ·.isSummary)) x
  filed : t.inModule → Filed u.finish.file x

section Takers

variable {source : String} {s t u : State} {post : List (Event ν)} {n : Option ν}

/-- The innermost scope is closed under its heading, with all that is declared in it by now. -/
theorem exists_endsAs {top : Scope} {rest : List Scope}
    (h : feedAll source t post = ⟨u, none⟩) (hu : u.Running) (ht : t.scopes = top :: rest) :
    ∃ last x, EndsAs source t u post last x ∧ top.element.Extends last.element ∧
      top.element.heading.Heads x := by
  obtain ⟨last, under, hlast, hext, hf⟩ := exists_ending h ht
  refine ⟨last, last.settled.associate, ⟨?_, ?_, associated_settled last, ?_⟩, hext, ?_⟩
  · rw [hlast, List.head?_cons]
  · exact State.record?_of_scopes hlast
  · intro hm
    have hfx := hf hm
    cases hx : last.settled.associate <;> simpa [Filed, hu.modules_finish, hx] using hfx
  · rw [← hext.heading]
    exact heads_settled last

/-- A construct that is entered keeps the texts that wait then, and no others, as its summary. -/
theorem exists_endsAs_enter {k : ScopeKind}
    (ht : s.feed source (⟨.enter, k.kind, n⟩ : Event ν) = .ok t)
    (hr : feedAll source t post = ⟨u, none⟩) (hu : u.Running) :
    ∃ name last x, Inspect.identifier n = .ok name ∧ EndsAs source t u post last x ∧
      Heading.Heads ⟨k, name, summaryTexts s.pending⟩ x := by
  obtain ⟨name, hn, -, rfl⟩ := feed_enter_iff.mp ht
  obtain ⟨last, x, hx, -, hh⟩ := exists_endsAs hr hu rfl
  rw [Element.heading_open] at hh
  exact ⟨name, last, x, hn, hx, hh⟩

/-- What is declared in the innermost scope is in it until it is closed. -/
theorem exists_endsAs_declare {f : Body → Body} {items : List Item} {b : Body}
    (hr : feedAll source ((s.mapOwner f).setPending items) post = ⟨u, none⟩) (hu : u.Running)
    (hb : s.owner? = some b) :
    ((s.mapOwner f).setPending items).owner? = some (f b) ∧
      ∃ last x, EndsAs source ((s.mapOwner f).setPending items) u post last x ∧
        (f b).parameters <+: last.element.body.parameters ∧
        (f b).signals <+: x.body.signals := by
  obtain ⟨top, rest, hs, rfl⟩ := State.scopes_of_owner? hb
  have hd := State.scopes_declare f items hs
  obtain ⟨last, x, hx, hext, -⟩ := exists_endsAs hr hu hd
  have hp := hext.parameters
  have hq := hext.signals
  rw [Element.body_mapBody] at hp hq
  refine ⟨by simp [State.owner?, hd, Element.body_mapBody], last, x, hx, hp, ?_⟩
  rw [hx.associated.signals]
  exact hq

/-- Parameters are described by the texts that wait. -/
theorem exists_endsAs_parameters
    (ht : s.feed source (⟨.enter, .parameterDeclaration, n⟩ : Event ν) = .ok t)
    (hr : feedAll source t post = ⟨u, none⟩) (hu : u.Running) :
    ∃ d, Inspect.declaration .parameterDeclaration n = .ok d ∧ ∀ b, s.owner? = some b →
      ∃ ps last x, t.owner? = some { b with parameters := b.parameters ++ ps } ∧
        ps.map (·.name) = d.declarators.map (·.name) ∧
        (∀ p ∈ ps, p.description = joinedSummary s.pending) ∧
        EndsAs source t u post last x ∧
        b.parameters ++ ps <+: last.element.body.parameters := by
  obtain ⟨d, hd, rfl⟩ := feed_parameters_iff.mp ht
  refine ⟨d, hd, fun b hb => ?_⟩
  obtain ⟨howner, last, x, hx, hp, -⟩ := exists_endsAs_declare hr hu hb
  refine ⟨_, last, x, howner, ?_, ?_, hx, hp⟩
  · simp [State.parameterOf]
  · intro p hp
    obtain ⟨y, -, rfl⟩ := List.mem_map.mp hp
    rfl

/-- Signals have the texts that wait as their summary. -/
theorem exists_endsAs_signals
    (ht : s.feed source (⟨.enter, .signalDeclaration, n⟩ : Event ν) = .ok t)
    (hr : feedAll source t post = ⟨u, none⟩) (hu : u.Running) :
    ∃ d, Inspect.declaration .signalDeclaration n = .ok d ∧ ∀ b, s.owner? = some b →
      ∃ qs last x, t.owner? = some { b with signals := b.signals ++ qs } ∧
        qs.map (·.name) = d.declarators.map (·.name) ∧
        (∀ q ∈ qs, q.summary =
          if joinedSummary s.pending = "" then none else some (joinedSummary s.pending)) ∧
        EndsAs source t u post last x ∧ b.signals ++ qs <+: x.body.signals := by
  obtain ⟨d, hd, ht⟩ := feed_signals_iff.mp ht
  obtain ⟨width, -, rfl⟩ := addSignals_eq_ok.mp ht
  refine ⟨d, hd, fun b hb => ?_⟩
  obtain ⟨howner, last, x, hx, -, hq⟩ := exists_endsAs_declare hr hu hb
  refine ⟨_, last, x, howner, ?_, ?_, hx, hq⟩
  · simp [State.signalOf]
  · intro q hq
    obtain ⟨y, -, rfl⟩ := List.mem_map.mp hq
    rfl

/-- The file has the texts that wait in it; if a scope is open at the end there are none. -/
theorem summary_finish_eq_ite (hu : u.Running) :
    u.finish.file.summary = if u.depth = 0 then joinedSummary u.pending else "" := by
  rw [hu.summary_finish]
  cases hs : u.scopes with
  | nil => simp [State.depth, State.pending, hs]
  | cons top rest =>
    have hp : u.filePending = [] := by
      refine hu.quiet _ ?_
      simp [State.buffers_of_scopes hs]
    simp [State.depth, hs, hp, joinedSummary_eq]

end Takers

/-! ### Routing -/

/-- The ways of the summary texts in a stream that leads from `s₀` to `u`. -/
structure Routed (source : String) (s₀ u : State) (es : List (Event ν)) : Prop where
  /-- The record of a module or a routine has the texts just before it as its summary. -/
  scopes (pre : List (Event ν)) (k : ScopeKind) (n : Option ν) (post : List (Event ν)) :
    es = pre ++ ⟨.enter, k.kind, n⟩ :: post →
      ∃ s t name last x, feedAll source s₀ pre = ⟨s, none⟩ ∧
        s.feed source (⟨.enter, k.kind, n⟩ : Event ν) = .ok t ∧
        Inspect.identifier n = .ok name ∧ EndsAs source t u post last x ∧
        Heading.Heads ⟨k, name, recent source s₀ pre⟩ x
  /-- A declaration adds parameters that are described by the texts just before it. They stay as
  they are until their scope is closed. -/
  parameters (pre : List (Event ν)) (n : Option ν) (post : List (Event ν)) :
    es = pre ++ ⟨.enter, .parameterDeclaration, n⟩ :: post →
      ∃ s t d, feedAll source s₀ pre = ⟨s, none⟩ ∧
        s.feed source (⟨.enter, .parameterDeclaration, n⟩ : Event ν) = .ok t ∧
        Inspect.declaration .parameterDeclaration n = .ok d ∧ ∀ b, s.owner? = some b →
          ∃ ps last x, t.owner? = some { b with parameters := b.parameters ++ ps } ∧
            ps.map (·.name) = d.declarators.map (·.name) ∧
            (∀ p ∈ ps, p.description = recentText source s₀ pre) ∧
            EndsAs source t u post last x ∧
            b.parameters ++ ps <+: last.element.body.parameters
  /-- A declaration adds signals that have the texts just before it as their summary. They are in
  the record of their scope as they are. -/
  signals (pre : List (Event ν)) (n : Option ν) (post : List (Event ν)) :
    es = pre ++ ⟨.enter, .signalDeclaration, n⟩ :: post →
      ∃ s t d, feedAll source s₀ pre = ⟨s, none⟩ ∧
        s.feed source (⟨.enter, .signalDeclaration, n⟩ : Event ν) = .ok t ∧
        Inspect.declaration .signalDeclaration n = .ok d ∧ ∀ b, s.owner? = some b →
          ∃ qs last x, t.owner? = some { b with signals := b.signals ++ qs } ∧
            qs.map (·.name) = d.declarators.map (·.name) ∧
            (∀ q ∈ qs, q.summary =
              if recentText source s₀ pre = "" then none else some (recentText source s₀ pre)) ∧
            EndsAs source t u post last x ∧ b.signals ++ qs <+: x.body.signals
  /-- The file has the texts at the end, if they stand outside of all scopes. -/
  file : u.finish.file.summary = if u.depth = 0 then recentText source s₀ es else ""
  /-- What a construct has taken does not count again: later stretches start after it. -/
  once (pre : List (Event ν)) (e : Event ν) (mid post : List (Event ν)) :
    es = pre ++ e :: (mid ++ post) → e.phase = .enter → takesSummary e.kind = true →
      stretch source s₀ [] (pre ++ e :: mid) <:+ mid

/-- In every stream that is taken in, summary texts go to the next construct that takes them. -/
theorem summaries_routed {source name : String} {strict : Bool} {es : List (Event ν)} {u : State}
    (h : feedAll source (.initial name strict) es = ⟨u, none⟩) :
    Routed source (.initial name strict) u es := by
  have hu : u.Running := running_of_run h (State.running_initial name strict)
  refine ⟨?_, ?_, ?_, ?_, ?_⟩
  · rintro pre k n post rfl
    obtain ⟨s, t, hs, ht, hr⟩ := feedAll_split_iff.mp h
    obtain ⟨name, last, x, hn, hx, hh⟩ := exists_endsAs_enter ht hr hu
    rw [summaryTexts_pending hs] at hh
    exact ⟨s, t, name, last, x, hs, ht, hn, hx, hh⟩
  · rintro pre n post rfl
    obtain ⟨s, t, hs, ht, hr⟩ := feedAll_split_iff.mp h
    obtain ⟨d, hd, hb⟩ := exists_endsAs_parameters ht hr hu
    rw [joinedSummary_pending hs] at hb
    exact ⟨s, t, d, hs, ht, hd, hb⟩
  · rintro pre n post rfl
    obtain ⟨s, t, hs, ht, hr⟩ := feedAll_split_iff.mp h
    obtain ⟨d, hd, hb⟩ := exists_endsAs_signals ht hr hu
    rw [joinedSummary_pending hs] at hb
    exact ⟨s, t, d, hs, ht, hd, hb⟩
  · rw [summary_finish_eq_ite hu, joinedSummary_pending h]
  · rintro pre e mid post rfl hp hk
    rw [← List.cons_append, ← List.append_assoc] at h
    obtain ⟨a, ha, -⟩ := feedAll_append_iff.mp h
    exact stretch_suffix_of_takes ha hp hk

/-- Ends that close nothing, a task that the end of a function closes, a parameter that is also
described by its name, and text in every place. -/
def looseSample : List (Event Recording.Node) :=
  Recording.build
    [.comment (.str "/** Adds.\n@param W bits */"), .enterModule (.str "adder"),
     .comment (.str "//* Width."), .leaveRoutine true,
     .parameter [.str "W", .str "V"] .null .null .null, .comment (.str "//* Sum."),
     .ansiPort (.str "a") (.str "input") .null .null, .comment (.str "//* More."),
     .signal [.str "s"] (.str "logic") [], .comment (.str "//* Waits."),
     .enterRoutine false (.str "wait"), .leaveModule, .comment (.str "//* Lost."),
     .leaveRoutine true, .leaveModule, .comment (.str "//* Rest.")]

/-- Where the texts of the sample are found: the summary of the module, the descriptions of its
parameters, and the summaries of its signal and its task. -/
def summariesIn (m : Module) : Option String × List String × List (Option String) × List String :=
  (m.summary, m.parameters.map (·.description), m.signals.map (·.summary), m.tasks.map (·.summary))

theorem summaries_routed_looseSample :
    (feedAll "" (.initial "f" true) looseSample).fault = none ∧
      (feedAll "" (.initial "f" true) looseSample).state.finish.file.summary = "Rest." ∧
      (feedAll "" (.initial "f" true) looseSample).state.finish.file.modules.map summariesIn =
        [(some "Adds.", ["bits", "Width."], [some "Sum.\nMore."], ["Waits."])] ∧
      Routed "" (.initial "f" true) (feedAll "" (.initial "f" true) looseSample).state
        looseSample :=
  ⟨by decide, by decide, by decide, summaries_routed (Outcome.eq_of_fault (by decide))⟩

end DesignDoc.Assembly
