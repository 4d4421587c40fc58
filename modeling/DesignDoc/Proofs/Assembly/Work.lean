import DesignDoc.Proofs.Assembly.Step

/-! Taking in an event, change by change. An event asks for several changes of the state, one after
the other, and a change that was made is not undone by a fault that comes after it. Every fault comes
before the first change, however, so that an event is acted upon as a whole or not at all. -/

namespace DesignDoc.Assembly

open DesignDoc.Annotation DesignDoc.Document DesignDoc.Event DesignDoc.Json

/-! ### One change after the other -/

/-- Work on a state in which what is done before a fault stays done. -/
abbrev Work (α : Type) := EStateM Fault State α

namespace Work

/-- Go on with an answer, or stop where there is none. -/
def ask {α : Type} : Except Fault α → Work α
  | .ok a => pure a
  | .error f => throw f

/-- Open an element: it takes what waits around it, the buffer is cleared, and the new scope goes on
the stack. -/
def openElement (e : Element) : Work Unit := do
  let waiting := (← get).pending
  modify fun s => s.setPending []
  let opened : Scope := { element := e.mapBody fun b => { b with items := b.items ++ waiting } }
  modify fun s => { s with scopes := opened :: s.scopes }

/-- Declare one thing after the other in the innermost scope. -/
def declareEach {α : Type} (declare : α → Body → Body) (xs : List α) : Work Unit :=
  xs.forM fun x => modify fun s => s.mapOwner (declare x)

def declarePorts (d : Declaration) : Work Unit :=
  declareEach (fun x b => { b with ports := b.ports ++ [State.portOf d x] }) d.declarators

def declareParameters (d : Declaration) : Work Unit := do
  let description := joinedSummary (← get).pending
  let declare (x : Declarator) (b : Body) : Body :=
    { b with parameters := b.parameters ++ [State.parameterOf d description x] }
  declareEach declare d.declarators
  modify fun s => s.setPending []

/-- Signals that take the items `waiting`. The width is found anew for each of them. -/
def declareEachSignal (d : Declaration) (waiting : List Item) : Work Unit :=
  d.declarators.forM fun x => do
    let width ← ask ((packedWidth? d.type).mapError .overlong)
    let signal := State.signalOf d (Text.nonempty? (joinedSummary waiting)) width
      (waiting.filter fun i => ! i.isSummary && ! i.isScopeItem) x
    modify fun s => s.mapOwner fun b => { b with signals := b.signals ++ [signal] }

/-- Outside of all scopes no signal is looked at. -/
def declareSignals (d : Declaration) : Work Unit := do
  let waiting := (← get).pending
  if (← get).scopes.isEmpty then pure () else declareEachSignal d waiting
  modify fun s => s.setPending (waiting.filter Item.isScopeItem)

def perform : Action → Work Unit
  | .comment text => modify fun s => s.setPending (s.pending ++ Comment.items text)
  | .openModule name => openElement (.module { name })
  | .openRoutine isFunction name => openElement (.routine { name, isFunction })
  | .closeModule => modify fun s => s.leave Element.isModule
  | .closeRoutine => modify fun s => s.leave Element.isRoutine
  | .ports d => declarePorts d
  | .parameters d => declareParameters d
  | .signals d => declareSignals d
  | .skip => pure ()

/-- Take in one event of the named source, change by change. -/
def takeIn {ν : Type} [Inspect ν] (source : String) (e : Event ν) : Work Unit := do
  perform (← ask (actionOf source e))

/-! ### All or nothing -/

/-- The end of some work that does all it has to do, or nothing. -/
def allOrNothing (s : State) : Except Fault State → EStateM.Result Fault State Unit
  | .ok t => .ok () t
  | .error f => .error f s

end Work

namespace State

theorem mapOwner_eq_self {f : Body → Body} (hf : ∀ b, f b = b) (s : State) : s.mapOwner f = s := by
  obtain rfl : f = id := funext hf
  have he (e : Element) : e.mapBody id = e := by cases e <;> rfl
  unfold mapOwner
  split
  · rfl
  · next h => simp [he, ← h]

theorem mapOwner_mapOwner (f g : Body → Body) (s : State) :
    (s.mapOwner f).mapOwner g = s.mapOwner (g ∘ f) := by
  have he (e : Element) : (e.mapBody f).mapBody g = e.mapBody (g ∘ f) := by cases e <;> rfl
  cases h : s.scopes <;> simp [mapOwner, h, he]

end State

namespace Work

theorem run_bind {α β : Type} {x : Work α} {f : α → Work β} {s t : State} {a : α}
    (h : x.run s = .ok a t) : (x >>= f).run s = (f a).run t := by
  change EStateM.bind x f s = f a t
  rw [EStateM.bind, show x s = .ok a t from h]

theorem run_bind_error {α β : Type} {x : Work α} {f : α → Work β} {s t : State} {e : Fault}
    (h : x.run s = .error e t) : (x >>= f).run s = .error e t := by
  change EStateM.bind x f s = .error e t
  rw [EStateM.bind, show x s = .error e t from h]

theorem run_get (s : State) : (get : Work State).run s = .ok s s := rfl

/-- What is declared in one go can be declared one by one. -/
theorem run_declareEach {α : Type} {f : List α → Body → Body} (hnil : ∀ b, f [] b = b)
    (hcons : ∀ x xs b, f (x :: xs) b = f xs (f [x] b)) (xs : List α) (s : State) :
    (declareEach (fun x => f [x]) xs).run s = .ok () (s.mapOwner (f xs)) := by
  induction xs generalizing s with
  | nil =>
    rw [s.mapOwner_eq_self hnil]
    rfl
  | cons x xs ih =>
    have hstep : (declareEach (fun x => f [x]) (x :: xs)).run s =
        (declareEach (fun x => f [x]) xs).run (s.mapOwner (f [x])) := rfl
    have hf : f xs ∘ f [x] = f (x :: xs) := funext fun b => (hcons x xs b).symm
    rw [hstep, ih, State.mapOwner_mapOwner, hf]

theorem run_declarePorts (d : Declaration) (s : State) :
    (declarePorts d).run s = .ok () (s.addPorts d) :=
  run_declareEach (f := fun xs b => { b with ports := b.ports ++ xs.map (State.portOf d) })
    (by simp) (by simp) d.declarators s

theorem run_declareParameters (d : Declaration) (s : State) :
    (declareParameters d).run s = .ok () (s.addParameters d) := by
  have hloop := run_declareEach
    (f := fun xs b =>
      { b with
        parameters := b.parameters ++ xs.map (State.parameterOf d (joinedSummary s.pending)) })
    (by simp) (by simp) d.declarators s
  rw [declareParameters, run_bind (run_get s)]
  exact (run_bind hloop).trans rfl

/-- The width of the signals of a declaration; without a signal it is not asked for. -/
def widthInScope (d : Declaration) : Except Fault (Option Int) :=
  if d.declarators.isEmpty then .ok none else (packedWidth? d.type).mapError .overlong

/-- An overlong bound is found out at the first signal. -/
theorem run_declareEachSignal (d : Declaration) (waiting : List Item) (s : State) :
    (declareEachSignal d waiting).run s = allOrNothing s ((widthInScope d).map fun width =>
      s.mapOwner fun b =>
        { b with
          signals := b.signals ++ d.declarators.map
            (State.signalOf d (Text.nonempty? (joinedSummary waiting)) width
              (waiting.filter fun i => ! i.isSummary && ! i.isScopeItem)) }) := by
  cases hd : d.declarators with
  | nil =>
    have hs := s.mapOwner_eq_self (f := fun b => { b with signals := b.signals ++ [] }) (by simp)
    simp only [declareEachSignal, widthInScope, hd, List.isEmpty_nil, if_true, List.map_nil]
    exact congrArg (EStateM.Result.ok ()) hs.symm
  | cons x xs =>
    cases hw : packedWidth? d.type with
    | error e =>
      rw [declareEachSignal, widthInScope, hd, hw]
      rfl
    | ok width =>
      have hloop := run_declareEach
        (f := fun xs b =>
          { b with
            signals := b.signals ++ xs.map
              (State.signalOf d (Text.nonempty? (joinedSummary waiting)) width
                (waiting.filter fun i => ! i.isSummary && ! i.isScopeItem)) })
        (by simp) (by simp) (x :: xs) s
      rw [declareEachSignal, widthInScope, hd, hw]
      exact hloop

theorem run_declareSignals (d : Declaration) (s : State) :
    (declareSignals d).run s = allOrNothing s (s.addSignals d) := by
  rw [declareSignals, run_bind (run_get s), run_bind (run_get s)]
  cases hs : s.scopes with
  | nil =>
    have hw : s.signalWidth d = .ok none := by simp [State.signalWidth, hs]
    have hm (f : Body → Body) : s.mapOwner f = s := by simp [State.mapOwner, hs]
    rw [State.addSignals, hw]
    simp only [List.isEmpty_nil, if_true, bind, Except.bind, pure, Except.pure, hm]
    rfl
  | cons top rest =>
    have hloop := run_declareEachSignal d s.pending s
    have hw : s.signalWidth d = widthInScope d := by simp [State.signalWidth, widthInScope, hs]
    rw [State.addSignals, hw]
    cases hx : widthInScope d with
    | error f =>
      rw [hx] at hloop
      exact run_bind_error hloop
    | ok width =>
      rw [hx] at hloop
      exact (run_bind hloop).trans rfl

/-- Whatever an event asks for is done as a whole or not at all. -/
theorem run_perform (a : Action) (s : State) :
    (perform a).run s = allOrNothing s (s.act a) := by
  cases a with
  | ports d => exact run_declarePorts d s
  | parameters d => exact run_declareParameters d s
  | signals d => exact run_declareSignals d s
  | _ => rfl

theorem run_takeIn {ν : Type} [Inspect ν] (source : String) (e : Event ν) (s : State) :
    (takeIn source e).run s = allOrNothing s (s.feed source e) := by
  rw [State.feed]
  cases ha : actionOf source e with
  | error f =>
    rw [takeIn, ha]
    rfl
  | ok a =>
    rw [takeIn, ha]
    exact run_perform a s

/-- A fault leaves the state as it was. -/
theorem run_takeIn_eq_error_iff {ν : Type} [Inspect ν] {source : String} {e : Event ν}
    {s t : State} {f : Fault} :
    (takeIn source e).run s = .error f t ↔ s.feed source e = .error f ∧ t = s := by
  rw [run_takeIn]
  cases s.feed source e with
  | ok u => simp [allOrNothing]
  | error g => simp [allOrNothing, eq_comm]

end Work

end DesignDoc.Assembly
