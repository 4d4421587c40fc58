import DesignDoc.Assembly.Run

/-! What one event does to the assembler. `Step` lists the possible effects with their guards, and
every event that is taken in has one of them; what a run keeps then follows from what these few
effects keep. -/

namespace DesignDoc.Assembly

open DesignDoc.Annotation DesignDoc.Document DesignDoc.Event DesignDoc.Json

/-! ### Kinds of scopes -/

/-- The constructs that open a scope. -/
inductive ScopeKind where
  | module
  | function
  | task
  deriving DecidableEq, Repr

namespace ScopeKind

/-- The kind of the events that enter and leave the construct. -/
def kind : ScopeKind → Kind
  | module => .module
  | function => .function
  | task => .task

/-- The record of a construct of which the name is known and nothing else. -/
def element (name : Value) : ScopeKind → Element
  | module => .module { name }
  | function => .routine { name, isFunction := true }
  | task => .routine { name, isFunction := false }

/-- Which scopes the end of a construct closes. The end of a function closes a task as well. -/
def closes : ScopeKind → Element → Bool
  | module => Element.isModule
  | function | task => Element.isRoutine

theorem exists_kind_or (k : Kind) :
    (∃ s : ScopeKind, k = s.kind) ∨ ∀ s : ScopeKind, k ≠ s.kind := by
  cases k with
  | module => exact .inl ⟨.module, rfl⟩
  | function => exact .inl ⟨.function, rfl⟩
  | task => exact .inl ⟨.task, rfl⟩
  | _ => exact .inr fun s => by cases s <;> simp [kind]

end ScopeKind

/-! ### Runs -/

section Runs

variable {ν : Type} [Inspect ν] {source : String} {s t u : State} {e : Event ν}
  {es fs : List (Event ν)}

/-- A run that no fault ended. -/
theorem Outcome.eq_of_fault {o : Outcome} (h : o.fault = none) : o = ⟨o.state, none⟩ := by
  obtain ⟨state, fault⟩ := o
  exact congrArg _ h

theorem feedAll_cons_iff :
    feedAll source s (e :: es) = ⟨u, none⟩ ↔
      ∃ t, s.feed source e = .ok t ∧ feedAll source t es = ⟨u, none⟩ := by
  cases he : s.feed source e with
  | ok t =>
    rw [feedAll_cons_ok he]
    simp
  | error f =>
    rw [feedAll_cons_error he]
    simp

theorem feedAll_append_iff :
    feedAll source s (es ++ fs) = ⟨u, none⟩ ↔
      ∃ t, feedAll source s es = ⟨t, none⟩ ∧ feedAll source t fs = ⟨u, none⟩ := by
  constructor
  · intro h
    induction es generalizing s with
    | nil => exact ⟨s, rfl, h⟩
    | cons e es ih =>
      obtain ⟨s', he, hs⟩ := feedAll_cons_iff.mp h
      obtain ⟨t, ht, hu⟩ := ih hs
      exact ⟨t, feedAll_cons_iff.mpr ⟨s', he, ht⟩, hu⟩
  · rintro ⟨t, ht, hu⟩
    rw [feedAll_append ht, hu]

/-- Events after a fault are not looked at. -/
theorem feedAll_append_of_fault {f : Fault} (h : (feedAll source s es).fault = some f)
    (fs : List (Event ν)) : feedAll source s (es ++ fs) = feedAll source s es := by
  induction es generalizing s with
  | nil => cases h
  | cons e es ih =>
    cases he : s.feed source e with
    | ok t =>
      rw [feedAll_cons_ok he] at h
      rw [List.cons_append, feedAll_cons_ok he, feedAll_cons_ok he, ih h]
    | error g => rw [List.cons_append, feedAll_cons_error he, feedAll_cons_error he]

/-- A run over a list with one event singled out. -/
theorem feedAll_split_iff :
    feedAll source s (es ++ e :: fs) = ⟨u, none⟩ ↔
      ∃ a b, feedAll source s es = ⟨a, none⟩ ∧ a.feed source e = .ok b ∧
        feedAll source b fs = ⟨u, none⟩ := by
  constructor
  · intro h
    obtain ⟨a, ha, hr⟩ := feedAll_append_iff.mp h
    obtain ⟨b, hb, hu⟩ := feedAll_cons_iff.mp hr
    exact ⟨a, b, ha, hb, hu⟩
  · rintro ⟨a, b, ha, hb, hu⟩
    exact feedAll_append_iff.mpr ⟨a, ha, feedAll_cons_iff.mpr ⟨b, hb, hu⟩⟩

/-- What every step keeps, every run keeps. -/
theorem feedAll_invariant {p : State → Prop}
    (step : ∀ {e : Event ν} {a b}, a.feed source e = .ok b → p a → p b)
    (h : feedAll source s es = ⟨t, none⟩) (hs : p s) : p t := by
  induction es generalizing s with
  | nil =>
    obtain rfl : s = t := congrArg Outcome.state h
    exact hs
  | cons e es ih =>
    obtain ⟨b, hb, ht⟩ := feedAll_cons_iff.mp h
    exact ih ht (step hb hs)

/-- A run over a whole source without a fault. -/
theorem run_eq_of_fault {src : Source ν} (h : (run src s).fault = none) :
    ∃ t, feedAll src.name s src.events = ⟨t, none⟩ ∧ src.breakOff = none ∧
      run src s = ⟨t.finish, none⟩ := by
  unfold run at h ⊢
  split at h
  · next t ht =>
    cases hb : src.breakOff with
    | none => exact ⟨t, ht, rfl, rfl⟩
    | some q => simp [hb, conclude] at h
  · next hne =>
    exact absurd (Outcome.eq_of_fault h) (hne _)

end Runs

/-! ### Single events -/

/-- Events that the assembler passes over: parameter lists as such, and the ends of comments and
declarations. -/
def isIdle {ν : Type} (e : Event ν) : Bool :=
  match e.phase, e.kind with
  | _, .parameterPortList => true
  | .leave, .comment | .leave, .ansiPort | .leave, .portDeclaration
  | .leave, .parameterDeclaration | .leave, .signalDeclaration => true
  | _, _ => false

section Single

variable {ν : Type} [Inspect ν] {source : String} {s t : State} {n : Option ν}

theorem mapError_eq_ok {ε ε' α : Type} {f : ε → ε'} {x : Except ε α} {a : α} :
    x.mapError f = .ok a ↔ x = .ok a := by
  constructor
  · intro h
    cases x with
    | ok b =>
      cases h
      rfl
    | error e => cases h
  · rintro rfl
    rfl

theorem bind_eq_ok {ε α β : Type} {f : α → Except ε β} {x : Except ε α} {b : β} :
    x >>= f = .ok b ↔ ∃ a, x = .ok a ∧ f a = .ok b := by
  cases x <;> simp [bind, Except.bind]

theorem requireIdentifier_eq_ok {e : Event ν} {name : Value} :
    requireIdentifier source e = .ok name ↔
      Inspect.identifier e.node = .ok name ∧ name.isVacant = false := by
  simp only [requireIdentifier, Event.identifier, bind_eq_ok, mapError_eq_ok]
  constructor
  · rintro ⟨v, hv, h⟩
    split at h
    · cases h
    · obtain rfl : v = name := Except.ok.inj h
      exact ⟨hv, by simp_all⟩
  · rintro ⟨hv, h⟩
    exact ⟨name, hv, by simp [h]⟩

theorem requireDeclaration_eq_ok {e : Event ν} {d : Declaration} :
    requireDeclaration e = .ok d ↔ Inspect.declaration e.kind e.node = .ok d := by
  simp only [requireDeclaration, Event.declaration, mapError_eq_ok]

/-- An event whose action rests on one answer of the source is taken in if the source gives this
answer and the action is possible. -/
theorem feed_eq_ok_of_map {α : Type} {e : Event ν} {x : Except Fault α} {f : α → Action}
    (h : actionOf source e = x.map f) :
    s.feed source e = .ok t ↔ ∃ a, x = .ok a ∧ s.act (f a) = .ok t := by
  rw [State.feed, h]
  cases x <;> simp [Except.map, bind, Except.bind]

theorem feed_comment_iff :
    s.feed source (⟨.enter, .comment, n⟩ : Event ν) = .ok t ↔
      ∃ text, Inspect.text n = .ok text ∧
        s.setPending (s.pending ++ Comment.items text) = t := by
  rw [feed_eq_ok_of_map rfl]
  simp [Event.text, State.act, mapError_eq_ok]

theorem feed_enter_iff {k : ScopeKind} :
    s.feed source (⟨.enter, k.kind, n⟩ : Event ν) = .ok t ↔
      ∃ name, Inspect.identifier n = .ok name ∧ name.isVacant = false ∧
        s.push (k.element name) = t := by
  cases k <;>
  · rw [feed_eq_ok_of_map rfl]
    simp [State.act, ScopeKind.element, requireIdentifier_eq_ok, and_assoc]

/-- The end of a construct is never refused. -/
theorem feed_leave (s : State) (k : ScopeKind) (n : Option ν) :
    s.feed source (⟨.leave, k.kind, n⟩ : Event ν) = .ok (s.leave k.closes) := by
  cases k <;> rfl

theorem feed_ports_iff {k : Kind} (hk : k = .ansiPort ∨ k = .portDeclaration) :
    s.feed source (⟨.enter, k, n⟩ : Event ν) = .ok t ↔
      ∃ d, Inspect.declaration k n = .ok d ∧ s.addPorts d = t := by
  rcases hk with rfl | rfl <;>
  · rw [feed_eq_ok_of_map rfl]
    simp [State.act, requireDeclaration_eq_ok]

theorem feed_parameters_iff :
    s.feed source (⟨.enter, .parameterDeclaration, n⟩ : Event ν) = .ok t ↔
      ∃ d, Inspect.declaration .parameterDeclaration n = .ok d ∧ s.addParameters d = t := by
  rw [feed_eq_ok_of_map rfl]
  simp [State.act, requireDeclaration_eq_ok]

theorem feed_signals_iff :
    s.feed source (⟨.enter, .signalDeclaration, n⟩ : Event ν) = .ok t ↔
      ∃ d, Inspect.declaration .signalDeclaration n = .ok d ∧ s.addSignals d = .ok t := by
  rw [feed_eq_ok_of_map rfl]
  simp [State.act, requireDeclaration_eq_ok]

theorem feed_idle {e : Event ν} (h : isIdle e = true) (s : State) :
    s.feed source e = .ok s := by
  obtain ⟨phase, kind, n⟩ := e
  cases phase <;> cases kind <;> first | rfl | simp [isIdle] at h

theorem addSignals_eq_ok {d : Declaration} :
    s.addSignals d = .ok t ↔
      ∃ width, s.signalWidth d = .ok width ∧
        (s.mapOwner fun b =>
            { b with
              signals := b.signals ++ d.declarators.map
                (State.signalOf d (Text.nonempty? (joinedSummary s.pending)) width
                  (s.pending.filter fun i => ! i.isSummary && ! i.isScopeItem)) }).setPending
          (s.pending.filter Item.isScopeItem) = t := by
  simp [State.addSignals, bind_eq_ok, pure, Except.pure]

end Single

/-! ### What the parts of a step leave alone -/

namespace State

variable (s : State)

@[simp] theorem file_setPending (items : List Item) : (s.setPending items).file = s.file := by
  unfold setPending
  split <;> rfl

@[simp] theorem file_mapOwner (f : Body → Body) : (s.mapOwner f).file = s.file := by
  unfold mapOwner
  split <;> rfl

@[simp] theorem file_push (e : Element) : (s.push e).file = s.file := by
  simp [push]

@[simp] theorem file_report (scope : String) (cs : List Complaint) :
    (s.report scope cs).file = s.file := by
  unfold report
  split <;> rfl

@[simp] theorem scopes_report (scope : String) (cs : List Complaint) :
    (s.report scope cs).scopes = s.scopes := by
  unfold report
  split <;> rfl

@[simp] theorem filePending_report (scope : String) (cs : List Complaint) :
    (s.report scope cs).filePending = s.filePending := by
  unfold report
  split <;> rfl

@[simp] theorem filePending_place (e : Element) : (s.place e).filePending = s.filePending := by
  cases e <;> rfl

@[simp] theorem filePending_closeTop : s.closeTop.filePending = s.filePending := by
  unfold closeTop
  split <;> simp

@[simp] theorem finished_setPending (items : List Item) :
    (s.setPending items).finished = s.finished := by
  unfold setPending
  split <;> rfl

@[simp] theorem finished_mapOwner (f : Body → Body) : (s.mapOwner f).finished = s.finished := by
  unfold mapOwner
  split <;> rfl

@[simp] theorem finished_report (scope : String) (cs : List Complaint) :
    (s.report scope cs).finished = s.finished := by
  unfold report
  split <;> rfl

@[simp] theorem finished_place (e : Element) : (s.place e).finished = s.finished := by
  cases e <;> rfl

@[simp] theorem finished_closeTop : s.closeTop.finished = s.finished := by
  unfold closeTop
  split <;> simp

/-- The record as which the innermost scope would be closed now. -/
def record? : Option Element := s.scopes.head?.map fun top => top.settled.associate

variable {s} {top : Scope} {rest : List Scope}

theorem record?_of_scopes (h : s.scopes = top :: rest) :
    s.record? = some top.settled.associate := by
  simp [record?, h]

/-- A module that is closed goes to the file. -/
theorem closeTop_module {m : Module} (h : s.scopes = top :: rest)
    (hm : s.record? = some (.module m)) :
    s.closeTop.scopes = rest ∧
      s.closeTop.file = { s.file with modules := s.file.modules ++ [m] } := by
  rw [record?_of_scopes h] at hm
  simp [closeTop, h, place, Option.some.inj hm]

/-- A routine that is closed goes to the innermost module, if there is one. -/
theorem closeTop_routine {r : Routine} (h : s.scopes = top :: rest)
    (hr : s.record? = some (.routine r)) :
    s.closeTop.scopes = addTask r rest ∧ s.closeTop.file = s.file := by
  rw [record?_of_scopes h] at hr
  simp [closeTop, h, place, Option.some.inj hr]

/-- The two ways of closing a scope. -/
theorem closeTop_cases (h : s.scopes = top :: rest) :
    (∃ m, s.closeTop.scopes = rest ∧
      s.closeTop.file = { s.file with modules := s.file.modules ++ [m] }) ∨
    (∃ r, s.closeTop.scopes = addTask r rest ∧ s.closeTop.file = s.file) := by
  cases hx : top.settled.associate with
  | module m => exact .inl ⟨m, closeTop_module h (by rw [record?_of_scopes h, hx])⟩
  | routine r => exact .inr ⟨r, closeTop_routine h (by rw [record?_of_scopes h, hx])⟩

end State

/-! ### Steps -/

variable {ν : Type} [Inspect ν]

/-- The effects of an event on a state. -/
inductive Step (s : State) : Event ν → State → Prop
  | comment {n : Option ν} {text : String} (h : Inspect.text n = .ok text) :
    Step s ⟨.enter, .comment, n⟩ (s.setPending (s.pending ++ Comment.items text))
  | opens (k : ScopeKind) {n : Option ν} {name : Value} (h : Inspect.identifier n = .ok name)
    (hv : name.isVacant = false) : Step s ⟨.enter, k.kind, n⟩ (s.push (k.element name))
  | closes (k : ScopeKind) (n : Option ν) {top : Scope} {rest : List Scope}
    (h : s.scopes = top :: rest) (hk : k.closes top.element = true) :
    Step s ⟨.leave, k.kind, n⟩ s.closeTop
  | ignores (k : ScopeKind) (n : Option ν)
    (h : ∀ top rest, s.scopes = top :: rest → k.closes top.element = false) :
    Step s ⟨.leave, k.kind, n⟩ s
  | ports {k : Kind} {n : Option ν} {d : Declaration} (hk : k = .ansiPort ∨ k = .portDeclaration)
    (h : Inspect.declaration k n = .ok d) : Step s ⟨.enter, k, n⟩ (s.addPorts d)
  | parameters {n : Option ν} {d : Declaration}
    (h : Inspect.declaration .parameterDeclaration n = .ok d) :
    Step s ⟨.enter, .parameterDeclaration, n⟩ (s.addParameters d)
  | signals {n : Option ν} {d : Declaration} {t : State}
    (h : Inspect.declaration .signalDeclaration n = .ok d) (ht : s.addSignals d = .ok t) :
    Step s ⟨.enter, .signalDeclaration, n⟩ t
  | idle {e : Event ν} (h : isIdle e = true) : Step s e s

/-- The end of a construct closes the innermost scope or does nothing. -/
theorem step_leave (s : State) (k : ScopeKind) (n : Option ν) :
    Step s ⟨.leave, k.kind, n⟩ (s.leave k.closes) := by
  cases h : s.scopes with
  | nil =>
    have hs : s.leave k.closes = s := by simp [State.leave, h]
    rw [hs]
    exact .ignores k n (by simp [h])
  | cons top rest =>
    cases hk : k.closes top.element with
    | true =>
      have hs : s.leave k.closes = s.closeTop := by simp [State.leave, h, hk]
      rw [hs]
      exact .closes k n h hk
    | false =>
      have hs : s.leave k.closes = s := by simp [State.leave, h, hk]
      rw [hs]
      refine .ignores k n fun top' rest' h' => ?_
      obtain ⟨rfl, rfl⟩ := List.cons.inj (h.symm.trans h')
      exact hk

theorem step_enter {source : String} {s t : State} {n : Option ν} (k : ScopeKind)
    (h : s.feed source (⟨.enter, k.kind, n⟩ : Event ν) = .ok t) :
    Step s ⟨.enter, k.kind, n⟩ t := by
  obtain ⟨name, hi, hv, rfl⟩ := feed_enter_iff.mp h
  exact .opens k hi hv

/-- Every event that is taken in has one of the listed effects. -/
theorem step_of_feed {source : String} {s t : State} {e : Event ν}
    (h : s.feed source e = .ok t) : Step s e t := by
  by_cases hi : isIdle e = true
  · obtain rfl := Except.ok.inj ((feed_idle hi s).symm.trans h)
    exact .idle hi
  · obtain ⟨phase, kind, n⟩ := e
    cases phase with
    | enter =>
      cases kind with
      | comment =>
        obtain ⟨text, hx, rfl⟩ := feed_comment_iff.mp h
        exact .comment hx
      | module => exact step_enter .module h
      | function => exact step_enter .function h
      | task => exact step_enter .task h
      | ansiPort =>
        obtain ⟨d, hd, rfl⟩ := (feed_ports_iff (.inl rfl)).mp h
        exact .ports (.inl rfl) hd
      | portDeclaration =>
        obtain ⟨d, hd, rfl⟩ := (feed_ports_iff (.inr rfl)).mp h
        exact .ports (.inr rfl) hd
      | parameterDeclaration =>
        obtain ⟨d, hd, rfl⟩ := feed_parameters_iff.mp h
        exact .parameters hd
      | signalDeclaration =>
        obtain ⟨d, hd, ht⟩ := feed_signals_iff.mp h
        exact .signals hd ht
      | parameterPortList => exact absurd rfl hi
    | leave =>
      cases kind with
      | module => exact Except.ok.inj h ▸ step_leave s .module n
      | function => exact Except.ok.inj h ▸ step_leave s .function n
      | task => exact Except.ok.inj h ▸ step_leave s .task n
      | _ => exact absurd rfl hi

end DesignDoc.Assembly
