import DesignDoc.Proofs.Assembly.Summary
import Mathlib.Algebra.Order.Group.Multiset
import Mathlib.Tactic.Abel

/-! A run, event by event. A stage is an event with the state in which it comes, and what every
stage adds and takes away sums up to what the whole run does. Scopes that a stream leaves open are
closed at its end as if the ends of their constructs had come, so the stages of a stream with these
ends tell all that happens before the file itself is closed. -/

namespace DesignDoc.Assembly

open DesignDoc.Annotation DesignDoc.Document DesignDoc.Event DesignDoc.Json

variable {ν : Type}

/-- An event, and the state in which it comes. -/
structure Stage (ν : Type) where
  state : State
  event : Event ν

variable [Inspect ν]

/-- The stages of a stream, up to the first event that is refused. -/
def stages (source : String) (s : State) : List (Event ν) → List (Stage ν)
  | [] => []
  | e :: es =>
    ⟨s, e⟩ ::
      match s.feed source e with
      | .ok t => stages source t es
      | .error _ => []

section Stages

variable {source : String} {s t : State} {e : Event ν} {es fs : List (Event ν)}

theorem stages_cons (h : s.feed source e = .ok t) :
    stages source s (e :: es) = ⟨s, e⟩ :: stages source t es := by
  simp [stages, h]

theorem stages_append (h : feedAll source s es = ⟨t, none⟩) :
    stages source s (es ++ fs) = stages source s es ++ stages source t fs := by
  induction es generalizing s with
  | nil =>
    obtain rfl : s = t := congrArg Outcome.state h
    rfl
  | cons e es ih =>
    obtain ⟨a, ha, hr⟩ := feedAll_cons_iff.mp h
    rw [List.cons_append, stages_cons ha, stages_cons ha, ih hr, List.cons_append]

/-- In a run without a fault every event has its stage. -/
theorem map_event_stages (h : feedAll source s es = ⟨t, none⟩) :
    (stages source s es).map (·.event) = es := by
  induction es generalizing s with
  | nil => rfl
  | cons e es ih =>
    obtain ⟨a, ha, hr⟩ := feedAll_cons_iff.mp h
    rw [stages_cons ha, List.map_cons, ih hr]

theorem flatMap_event_stages {α : Type} (f : Event ν → List α)
    (h : feedAll source s es = ⟨t, none⟩) :
    (stages source s es).flatMap (fun x => f x.event) = es.flatMap f := by
  rw [← List.flatMap_map, map_event_stages h]

/-- A stage is reached by the events before it. -/
theorem exists_of_mem_stages {x : Stage ν} (h : feedAll source s es = ⟨t, none⟩)
    (hx : x ∈ stages source s es) :
    ∃ pre post, es = pre ++ x.event :: post ∧ feedAll source s pre = ⟨x.state, none⟩ := by
  induction es generalizing s with
  | nil => simp [stages] at hx
  | cons e es ih =>
    obtain ⟨a, ha, hr⟩ := feedAll_cons_iff.mp h
    rw [stages_cons ha] at hx
    rcases List.mem_cons.mp hx with rfl | hx
    · exact ⟨[], es, rfl, rfl⟩
    · obtain ⟨pre, post, rfl, hp⟩ := ih hr hx
      exact ⟨e :: pre, post, rfl, feedAll_cons_iff.mpr ⟨a, ha, hp⟩⟩

/-- If every step balances what there is with what is added and taken away, so does every run. -/
theorem balance_of_run {α : Type} (f : State → Multiset α) (gain loss : Stage ν → List α)
    (step : ∀ {a b : State} {e : Event ν}, Step a e b → f b + loss ⟨a, e⟩ = f a + gain ⟨a, e⟩)
    (h : feedAll source s es = ⟨t, none⟩) :
    f t + (stages source s es).flatMap loss = f s + (stages source s es).flatMap gain := by
  induction es generalizing s with
  | nil =>
    obtain rfl : s = t := congrArg Outcome.state h
    rfl
  | cons e es ih =>
    obtain ⟨a, ha, hr⟩ := feedAll_cons_iff.mp h
    have h₁ := step (step_of_feed ha)
    have h₂ := ih hr
    simp only [stages_cons ha, List.flatMap_cons, ← Multiset.coe_add]
    calc
      f t + (loss ⟨s, e⟩ + ((stages source a es).flatMap loss : Multiset α))
        = f t + (stages source a es).flatMap loss + loss ⟨s, e⟩ := by abel
      _ = f a + loss ⟨s, e⟩ + (stages source a es).flatMap gain := by rw [h₂]; abel
      _ = f s + (gain ⟨s, e⟩ + ((stages source a es).flatMap gain : Multiset α)) := by
        rw [h₁, add_assoc]

end Stages

/-! ### The end of a stream -/

/-- The ends of the constructs whose scopes are open, innermost first. -/
def State.ends (s : State) : List (Event ν) :=
  s.headings.map fun h => ⟨.leave, h.kind.kind, none⟩

theorem State.closeAll_eq_self {s : State} (h : s.scopes = []) : s.closeAll = s := by
  simp [closeAll, depth, h, Nat.repeat]

theorem State.closeAll_closeTop (s : State) : s.closeTop.closeAll = s.closeAll := by
  unfold closeAll
  rw [depth_closeTop]
  cases hd : s.depth with
  | zero =>
    have hs : s.scopes = [] := List.length_eq_zero_iff.mp hd
    simp [closeTop, hs]
  | succ n => exact (repeat_closeTop_succ n s).symm

theorem State.filePending_closeAll (s : State) : s.closeAll.filePending = s.filePending :=
  closeAll_invariant (p := fun a => a.filePending = s.filePending)
    (fun a ha => (filePending_closeTop a).trans ha) rfl

/-- The kinds of events that leave a construct: functions and tasks are left alike. -/
def ScopeKind.endKinds : ScopeKind → List Kind
  | module => [.module]
  | function | task => [.function, .task]

/-- An event that leaves the construct of an open scope. -/
def Heading.EndedBy (h : Heading) (e : Event ν) : Prop :=
  e.phase = .leave ∧ e.kind ∈ h.kind.endKinds

instance (h : Heading) (e : Event ν) : Decidable (h.EndedBy e) :=
  inferInstanceAs (Decidable (_ ∧ _))

theorem ScopeKind.exists_of_mem_endKinds {k : ScopeKind} {x : Kind} (h : x ∈ k.endKinds) :
    ∃ l : ScopeKind, x = l.kind ∧ l.closes = k.closes := by
  cases k with
  | module => exact ⟨.module, List.mem_singleton.mp h, rfl⟩
  | function | task =>
    rcases List.mem_pair.mp h with rfl | rfl
    · exact ⟨.function, rfl, rfl⟩
    · exact ⟨.task, rfl, rfl⟩

/-- What ends the innermost construct closes its scope. -/
theorem feed_endedBy {source : String} {s : State} {h : Heading} {hs : List Heading} {e : Event ν}
    (hd : s.headings = h :: hs) (he : h.EndedBy e) : s.feed source e = .ok s.closeTop := by
  obtain ⟨phase, kind, n⟩ := e
  obtain ⟨rfl, hkind⟩ : phase = .leave ∧ _ := he
  obtain ⟨k, rfl, hk⟩ := ScopeKind.exists_of_mem_endKinds hkind
  rw [feed_leave, hk, State.leave_of_headings hd rfl]

/-- The ends of all open constructs, innermost first, close all scopes. -/
theorem feedAll_endedBy {source : String} {s : State} {es : List (Event ν)}
    (h : List.Forall₂ Heading.EndedBy s.headings es) :
    feedAll source s es = ⟨s.closeAll, none⟩ := by
  generalize hd : s.headings = hs at h
  induction h generalizing s with
  | nil => rw [feedAll_nil, State.closeAll_eq_self (List.map_eq_nil_iff.mp hd)]
  | @cons h e hs es he _ ih =>
    have ht : s.closeTop.headings = hs := by rw [State.headings_closeTop, hd, List.tail_cons]
    rw [feedAll_cons_ok (feed_endedBy hd he), ih ht, State.closeAll_closeTop]

omit [Inspect ν] in
theorem State.endedBy_ends (s : State) :
    List.Forall₂ Heading.EndedBy s.headings (s.ends : List (Event ν)) := by
  rw [State.ends, List.forall₂_map_right_iff, List.forall₂_same]
  intro h _
  refine ⟨rfl, ?_⟩
  cases h.kind <;> simp [ScopeKind.kind, ScopeKind.endKinds]

/-- The end of a stream acts as the ends of the open constructs do. -/
theorem feedAll_ends (source : String) (s : State) :
    feedAll source s (s.ends : List (Event ν)) = ⟨s.closeAll, none⟩ :=
  feedAll_endedBy s.endedBy_ends

theorem feedAll_append_ends {source : String} {s u : State} {es : List (Event ν)}
    (h : feedAll source s es = ⟨u, none⟩) :
    feedAll source s (es ++ u.ends) = ⟨u.closeAll, none⟩ := by
  rw [feedAll_append h, feedAll_ends]

/-- The end of a stream only leaves. -/
theorem leave_of_mem_stages_ends {source : String} {s : State} {x : Stage ν}
    (h : x ∈ stages source s (s.ends : List (Event ν))) : x.event.phase = .leave := by
  have he : x.event ∈ (s.ends : List (Event ν)) := by
    rw [← map_event_stages (feedAll_ends source s)]
    exact List.mem_map_of_mem h
  obtain ⟨k, -, hk⟩ := List.mem_map.mp he
  rw [← hk]

/-- Only closing changes the file, and then only its modules. -/
theorem Moves.file_eq {s t : State} (h : Moves s t) :
    ∃ ms, t.file = { s.file with modules := s.file.modules ++ ms } := by
  cases h with
  | stays _ hf => exact ⟨[], by simp [hf]⟩
  | opens _ _ hf => exact ⟨[], by simp [hf]⟩
  | closes _ ht => exact ht ▸ s.file_closeTop

theorem file_of_run {source name : String} {strict : Bool} {s : State} {es : List (Event ν)}
    (h : feedAll source (.initial name strict) es = ⟨s, none⟩) :
    ∃ ms, s.file = { name, modules := ms } := by
  refine feedAll_invariant (p := fun a => ∃ ms, a.file = { name, modules := ms }) ?_ h ⟨[], rfl⟩
  rintro e a b he ⟨ms, ha⟩
  obtain ⟨ns, hb⟩ := (moves_of_step (step_of_feed he)).file_eq
  exact ⟨ms ++ ns, by rw [hb, ha]⟩

/-! ### What becomes of waiting items -/

/-- The items in an event. -/
def itemsOf (e : Event ν) : List Item :=
  match e.phase, e.kind, e.text with
  | .enter, .comment, .ok text => Comment.items text
  | _, _, _ => []

/-- The end of a stream brings no items. -/
theorem flatMap_itemsOf_append_ends (es : List (Event ν)) (s : State) :
    (es ++ s.ends).flatMap itemsOf = es.flatMap itemsOf := by
  simp [State.ends, itemsOf]

/-- The number of names in the declaration of an event. -/
def declaredCount (e : Event ν) : Nat :=
  match e.declaration with
  | .ok d => d.declarators.length
  | .error _ => 0

/-- What an event does with the items that wait. -/
inductive Effect where
  /-- Parameters use up all that waits. -/
  | parameters
  /-- So many signals are declared, and each of them takes the items. -/
  | signals (count : Nat)
  /-- A scope is closed, with all that has come to it. -/
  | closes (scope : Scope)
  | none
  deriving DecidableEq, Repr

instance (s : State) : Decidable s.inModule :=
  inferInstanceAs (Decidable (∃ a ∈ s.scopes, a.element.isModule = true))

/-- Around a routine there is a module if one is open at all. -/
theorem State.inModule_of_routine {s : State} {top : Scope} {rest : List Scope} {r : Routine}
    (h : s.scopes = top :: rest) (hr : top.settled.associate = .routine r) :
    s.inModule ↔ ∃ a ∈ rest, a.element.isModule = true := by
  have ht : top.element.isModule = false := by
    rw [← isModule_settled, hr]
    rfl
  simp [State.inModule, h, ht]

/-- The innermost scope is closed if it passes a test. -/
def State.closing (p : Element → Bool) (s : State) : Effect :=
  match s.scopes with
  | [] => .none
  | top :: _ => if p top.element then .closes top else .none

namespace Stage

def effect (x : Stage ν) : Effect :=
  match x.event.phase, x.event.kind with
  | .enter, .parameterDeclaration => .parameters
  | .enter, .signalDeclaration =>
    .signals (if x.state.scopes.isEmpty then 0 else declaredCount x.event)
  | .leave, .module => x.state.closing Element.isModule
  | .leave, .function | .leave, .task => x.state.closing Element.isRoutine
  | _, _ => .none

end Stage

section Effects

variable {s : State} {n : Option ν}

theorem itemsOf_comment {text : String} (h : Inspect.text n = .ok text) :
    itemsOf (⟨.enter, .comment, n⟩ : Event ν) = Comment.items text := by
  simp [itemsOf, Event.text, h]

/-- Only comments hold items. -/
theorem itemsOf_of_ne {e : Event ν} (h : e.kind ≠ .comment) : itemsOf e = [] := by
  unfold itemsOf
  split
  · next hk _ => exact absurd hk h
  · rfl

theorem itemsOf_scope (p : Phase) (k : ScopeKind) : itemsOf (⟨p, k.kind, n⟩ : Event ν) = [] :=
  itemsOf_of_ne (by cases k <;> simp [ScopeKind.kind])

theorem itemsOf_idle {e : Event ν} (h : isIdle e = true) : itemsOf e = [] := by
  obtain ⟨phase, kind, n⟩ := e
  cases phase <;> cases kind <;> simp [isIdle] at h <;> simp [itemsOf]

theorem effect_enter (k : ScopeKind) : (⟨s, ⟨.enter, k.kind, n⟩⟩ : Stage ν).effect = .none := by
  cases k <;> rfl

theorem effect_leave (k : ScopeKind) :
    (⟨s, ⟨.leave, k.kind, n⟩⟩ : Stage ν).effect = s.closing k.closes := by
  cases k <;> rfl

theorem effect_closes {k : ScopeKind} {top : Scope} {rest : List Scope}
    (h : s.scopes = top :: rest) (hk : k.closes top.element = true) :
    (⟨s, ⟨.leave, k.kind, n⟩⟩ : Stage ν).effect = .closes top := by
  simp [effect_leave, State.closing, h, hk]

theorem effect_ignores {k : ScopeKind}
    (h : ∀ top rest, s.scopes = top :: rest → k.closes top.element = false) :
    (⟨s, ⟨.leave, k.kind, n⟩⟩ : Stage ν).effect = .none := by
  rw [effect_leave]
  cases hs : s.scopes with
  | nil => simp [State.closing, hs]
  | cons top rest => simp [State.closing, hs, h top rest hs]

theorem effect_ports {k : Kind} (hk : k = .ansiPort ∨ k = .portDeclaration) :
    (⟨s, ⟨.enter, k, n⟩⟩ : Stage ν).effect = .none := by
  rcases hk with rfl | rfl <;> rfl

theorem effect_signals {d : Declaration} (h : Inspect.declaration .signalDeclaration n = .ok d) :
    (⟨s, ⟨.enter, .signalDeclaration, n⟩⟩ : Stage ν).effect =
      .signals (if s.scopes.isEmpty then 0 else d.declarators.length) := by
  simp [Stage.effect, declaredCount, Event.declaration, h]

theorem effect_idle {e : Event ν} (h : isIdle e = true) : (⟨s, e⟩ : Stage ν).effect = .none := by
  obtain ⟨phase, kind, n⟩ := e
  cases phase <;> cases kind <;> simp [isIdle] at h <;> rfl

theorem closing_cases (p : Element → Bool) (s : State) :
    s.closing p = .none ∨ ∃ top rest, s.scopes = top :: rest ∧ s.closing p = .closes top := by
  unfold State.closing
  split
  · exact .inl rfl
  · next top rest hs =>
    split
    · exact .inr ⟨top, rest, hs, rfl⟩
    · exact .inl rfl

/-- The events that do something with waiting items. -/
theorem effect_cases (x : Stage ν) :
    x.effect = .none ∨
    (x.event.phase = .enter ∧ x.event.kind = .parameterDeclaration ∧ x.effect = .parameters) ∨
    (x.event.phase = .enter ∧ x.event.kind = .signalDeclaration ∧
      x.effect = .signals (if x.state.scopes.isEmpty then 0 else declaredCount x.event)) ∨
    ∃ top rest, x.event.phase = .leave ∧ x.state.scopes = top :: rest ∧ x.effect = .closes top := by
  have hc {p : Element → Bool} (hp : x.event.phase = .leave)
      (he : x.effect = x.state.closing p) : x.effect = .none ∨
        ∃ top rest, x.event.phase = .leave ∧ x.state.scopes = top :: rest ∧
          x.effect = .closes top := by
    rw [he]
    obtain h | ⟨top, rest, hs, h⟩ := closing_cases p x.state
    · exact .inl h
    · exact .inr ⟨top, rest, hp, hs, h⟩
  obtain ⟨s, ⟨phase, kind, n⟩⟩ := x
  cases phase with
  | enter =>
    cases kind with
    | parameterDeclaration => exact .inr (.inl ⟨rfl, rfl, rfl⟩)
    | signalDeclaration => exact .inr (.inr (.inl ⟨rfl, rfl, rfl⟩))
    | _ => exact .inl rfl
  | leave =>
    cases kind with
    | module => exact (hc rfl rfl).imp_right fun h => .inr (.inr h)
    | function => exact (hc rfl rfl).imp_right fun h => .inr (.inr h)
    | task => exact (hc rfl rfl).imp_right fun h => .inr (.inr h)
    | _ => exact .inl rfl

theorem effect_of_leave {x : Stage ν} (h : x.event.phase = .leave) :
    x.effect = .none ∨ ∃ a, x.effect = .closes a := by
  obtain he | ⟨hp, -, -⟩ | ⟨hp, -, -⟩ | ⟨a, rest, -, -, he⟩ := effect_cases x
  · exact .inl he
  · simp [h] at hp
  · simp [h] at hp
  · exact .inr ⟨a, he⟩

/-- Only the ends of scopes close them. -/
theorem closeTop_of_effect {t : State} {e : Event ν} {a : Scope} (h : Step s e t)
    (he : (⟨s, e⟩ : Stage ν).effect = .closes a) :
    ∃ rest, s.scopes = a :: rest ∧ t = s.closeTop := by
  cases h with
  | comment => cases he
  | opens k => simp [effect_enter] at he
  | closes k n htop hk =>
    rw [effect_closes htop hk] at he
    cases he
    exact ⟨_, htop, rfl⟩
  | ignores k n hn => simp [effect_ignores hn] at he
  | ports hk => simp [effect_ports hk] at he
  | parameters => cases he
  | signals => cases he
  | idle hi => simp [effect_idle hi] at he

end Effects

end DesignDoc.Assembly
