import DesignDoc.Proofs.Assembly.Descriptions
import DesignDoc.Proofs.Assembly.Step
import DesignDoc.Recording.Node

/-! The assembler against recursion over nested constructs. A well-nested stream of events is the
linear form of a forest. What the stack machine files for it, read without the documentation, is
what a recursion over the forest collects: modules in the order in which they end, each with what
is declared directly in it and with the routines of which it is the nearest module. -/

namespace DesignDoc.Document

/-! ### Records without documentation -/

def Port.bare (p : Port) : Port := { p with description := "" }

def Parameter.bare (p : Parameter) : Parameter := { p with description := "" }

def Signal.bare (s : Signal) : Signal := { s with summary := none, items := [] }

def Body.bare (b : Body) : Body :=
  { ports := b.ports.map Port.bare
    parameters := b.parameters.map Parameter.bare
    signals := b.signals.map Signal.bare }

def Routine.bare (r : Routine) : Routine := { r with toBody := r.toBody.bare, summary := "" }

def Module.bare (m : Module) : Module :=
  { m with toBody := m.toBody.bare, summary := none, tasks := m.tasks.map Routine.bare }

/-- The declarations of one body after those of another. -/
instance : Append Body where
  append b c :=
    { ports := b.ports ++ c.ports
      parameters := b.parameters ++ c.parameters
      signals := b.signals ++ c.signals
      items := b.items ++ c.items }

theorem Body.append_def (b c : Body) :
    b ++ c =
      { ports := b.ports ++ c.ports
        parameters := b.parameters ++ c.parameters
        signals := b.signals ++ c.signals
        items := b.items ++ c.items } := rfl

@[simp] theorem Body.append_empty (b : Body) : b ++ ({} : Body) = b := by
  simp [Body.append_def]

@[simp] theorem Body.empty_append (b : Body) : ({} : Body) ++ b = b := by
  simp [Body.append_def]

theorem Body.append_assoc (a b c : Body) : a ++ b ++ c = a ++ (b ++ c) := by
  simp [Body.append_def]

end DesignDoc.Document

namespace DesignDoc.Assembly

open DesignDoc.Annotation DesignDoc.Document DesignDoc.Event DesignDoc.Json

def Element.bare : Element → Element
  | .module m => .module m.bare
  | .routine r => .routine r.bare

@[simp] theorem Element.bare_module (m : Module) : (Element.module m).bare = .module m.bare := rfl

@[simp] theorem Element.bare_routine (r : Routine) :
    (Element.routine r).bare = .routine r.bare := rfl

/-- Items are documentation. -/
theorem Element.bare_addItems (e : Element) (items : List Item) :
    (e.mapBody fun b => { b with items := b.items ++ items }).bare = e.bare := by
  cases e <;> rfl

/-! ### Association changes documentation only -/

theorem map_bare_describePorts (items : List Item) (ports : List Port) :
    (describePorts items ports).map Port.bare = ports.map Port.bare := by
  apply map_foldl
  intro ports i
  unfold describePort
  split
  · apply map_updateFirst
    intro p
    rfl
  · rfl

theorem map_bare_describeParameters (items : List Item) (parameters : List Parameter) :
    (describeParameters items parameters).map Parameter.bare = parameters.map Parameter.bare := by
  apply map_foldl
  intro parameters i
  unfold describeParameter
  split
  · apply map_updateFirst
    intro p
    rfl
  · rfl

theorem bare_associateBody (b : Body) : (associateBody b).bare = b.bare := by
  simp [associateBody, Body.bare, map_bare_describePorts, map_bare_describeParameters]

theorem bare_associate (e : Element) : e.associate.bare = e.bare := by
  cases e with
  | module m => simp [Element.associate, associateModule, Module.bare, bare_associateBody]
  | routine r => simp [Element.associate, associateRoutine, Routine.bare, bare_associateBody]

theorem bare_settled (s : Scope) : s.settled.bare = s.element.bare :=
  Element.bare_addItems s.element _

/-! ### The open records -/

namespace State

/-- The records of the open scopes without documentation, innermost first. -/
def outline (s : State) : List Element := s.scopes.map (·.element.bare)

/-- The filed modules without documentation. -/
def filed (s : State) : List Module := s.file.modules.map Module.bare

end State

/-- Declare more in the innermost record. -/
def declare (b : Body) : List Element → List Element
  | [] => []
  | e :: es => e.mapBody (· ++ b) :: es

/-- Hand routines to the innermost module. -/
def addTasks (rs : List Routine) : List Element → List Element
  | [] => []
  | .module m :: es => .module { m with tasks := m.tasks ++ rs } :: es
  | .routine r :: es => .routine r :: addTasks rs es

@[simp] theorem declare_empty (es : List Element) : declare {} es = es := by
  cases es with
  | nil => rfl
  | cons e es => cases e <;> simp [declare, Element.mapBody]

theorem declare_declare (b c : Body) (es : List Element) :
    declare c (declare b es) = declare (b ++ c) es := by
  cases es with
  | nil => rfl
  | cons e es => cases e <;> simp [declare, Element.mapBody, Body.append_assoc]

@[simp] theorem addTasks_nil (es : List Element) : addTasks [] es = es := by
  induction es with
  | nil => rfl
  | cons e es ih => cases e <;> simp [addTasks, ih]

theorem addTasks_addTasks (rs qs : List Routine) (es : List Element) :
    addTasks qs (addTasks rs es) = addTasks (rs ++ qs) es := by
  induction es with
  | nil => rfl
  | cons e es ih => cases e <;> simp [addTasks, ih]

/-- Declarations and routines go to different places. -/
theorem declare_addTasks (b : Body) (rs : List Routine) (es : List Element) :
    declare b (addTasks rs es) = addTasks rs (declare b es) := by
  cases es with
  | nil => rfl
  | cons e es => cases e <;> rfl

/-! ### Steps, read on the outline -/

namespace State

variable {s : State}

@[simp] theorem outline_setPending (items : List Item) :
    (s.setPending items).outline = s.outline := by
  unfold setPending
  split <;> simp [outline, *]

@[simp] theorem filed_setPending (items : List Item) : (s.setPending items).filed = s.filed := by
  simp [filed]

theorem outline_mapOwner {f : Body → Body} {b : Body} (hf : ∀ c, (f c).bare = c.bare ++ b) :
    (s.mapOwner f).outline = declare b s.outline := by
  unfold mapOwner
  split
  · simp [outline, declare, *]
  · next top rest h =>
    obtain ⟨e, pending⟩ := top
    cases e <;> simp [outline, declare, h, Element.mapBody, Module.bare, Routine.bare, hf]

theorem outline_push (k : ScopeKind) (name : Value) :
    (s.push (k.element name)).outline = k.element name :: s.outline := by
  have hs : (s.setPending []).scopes.map (·.element.bare) = s.outline := outline_setPending []
  have hk : (k.element name).bare = k.element name := by cases k <;> rfl
  simp only [push, outline, List.map_cons, Element.bare_addItems, hk]
  exact congrArg _ hs

theorem map_bare_addTask (r : Routine) (scopes : List Scope) :
    (addTask r scopes).map (·.element.bare) = addTasks [r.bare] (scopes.map (·.element.bare)) := by
  induction scopes with
  | nil => rfl
  | cons scope rest ih =>
    obtain ⟨e, pending⟩ := scope
    cases e with
    | module m => simp [addTask, addTasks, Module.bare]
    | routine q => simp [addTask, addTasks, ih]

/-- The innermost record behind the outline. -/
theorem exists_scope_of_outline {e : Element} {es : List Element} (h : s.outline = e :: es) :
    ∃ top rest, s.scopes = top :: rest ∧ top.element.bare = e ∧
      rest.map (·.element.bare) = es := by
  obtain ⟨top, rest, hs, he, hr⟩ := List.map_eq_cons_iff.mp h
  exact ⟨top, rest, hs, he, hr⟩

theorem bare_record {top : Scope} {rest : List Scope} (h : s.scopes = top :: rest) :
    s.record?.map Element.bare = some top.element.bare := by
  rw [record?_of_scopes h, Option.map_some, bare_associate, bare_settled]

theorem closeTop_outline_module {m : Module} {es : List Element}
    (h : s.outline = .module m :: es) :
    s.closeTop.outline = es ∧ s.closeTop.filed = s.filed ++ [m] := by
  obtain ⟨top, rest, hs, he, hr⟩ := exists_scope_of_outline h
  obtain ⟨x, hx, hb⟩ := Option.map_eq_some_iff.mp (bare_record hs)
  rw [he] at hb
  cases x with
  | module n =>
    obtain ⟨hsc, hf⟩ := closeTop_module hs hx
    have hn : n.bare = m := Element.module.inj hb
    exact ⟨by rw [outline, hsc, hr], by simp [filed, hf, hn]⟩
  | routine r => cases hb

theorem closeTop_outline_routine {r : Routine} {es : List Element}
    (h : s.outline = .routine r :: es) :
    s.closeTop.outline = addTasks [r] es ∧ s.closeTop.filed = s.filed := by
  obtain ⟨top, rest, hs, he, hr⟩ := exists_scope_of_outline h
  obtain ⟨x, hx, hb⟩ := Option.map_eq_some_iff.mp (bare_record hs)
  rw [he] at hb
  cases x with
  | module n => cases hb
  | routine q =>
    obtain ⟨hsc, hf⟩ := closeTop_routine hs hx
    have hq : q.bare = r := Element.routine.inj hb
    exact ⟨by rw [outline, hsc, map_bare_addTask, hr, hq], by simp [filed, hf]⟩

/-- The end of a construct closes a scope of its own kind. -/
theorem leave_of_outline {k : ScopeKind} {e : Element} {es : List Element}
    (h : s.outline = e :: es) (hk : k.closes e = true) : s.leave k.closes = s.closeTop := by
  obtain ⟨top, rest, hs, rfl, -⟩ := exists_scope_of_outline h
  have ht : k.closes top.element = true := by
    rw [← hk]
    cases k <;> cases top.element <;> rfl
  simp [leave, hs, ht]

end State

/-! ### Constructs -/

/-- The constructs that declare something. -/
inductive DeclarationKind where
  | ansiPort
  | port
  | parameter
  | signal
  deriving DecidableEq, Repr

def DeclarationKind.kind : DeclarationKind → Kind
  | ansiPort => .ansiPort
  | port => .portDeclaration
  | parameter => .parameterDeclaration
  | signal => .signalDeclaration

/-- A construct of a design, with the nodes that a source has for its beginning and its end. -/
inductive Construct (ν : Type) where
  | comment (node last : Option ν)
  | declaration (kind : DeclarationKind) (node last : Option ν)
  | scope (kind : ScopeKind) (node last : Option ν) (children : List (Construct ν))

variable {ν : Type}

mutual
/-- A construct is entered, its children follow in order, and it is left. -/
def Construct.events : Construct ν → List (Event ν)
  | .comment node last => [⟨.enter, .comment, node⟩, ⟨.leave, .comment, last⟩]
  | .declaration k node last => [⟨.enter, k.kind, node⟩, ⟨.leave, k.kind, last⟩]
  | .scope k node last children =>
    ⟨.enter, k.kind, node⟩ :: (forestEvents children ++ [⟨.leave, k.kind, last⟩])
def forestEvents : List (Construct ν) → List (Event ν)
  | [] => []
  | c :: cs => c.events ++ forestEvents cs
end

variable [Inspect ν]

/-- The name of a node that has one. -/
def nameOf (node : Option ν) : Value := (Inspect.identifier node).toOption.getD .null

/-- The declaration of a node that makes one. -/
def declarationOf (k : DeclarationKind) (node : Option ν) : Declaration :=
  (Inspect.declaration k.kind node).toOption.getD {}

/-- The width of a type that describes one. -/
def widthOf (type : Option String) : Option Int := (packedWidth? type).toOption.getD none

/-- One record for each declarator. Direction and type are shared, all else is its own. -/
def declared (k : DeclarationKind) (d : Declaration) : Body :=
  match k with
  | .ansiPort | .port =>
    { ports := d.declarators.map fun x =>
        { name := x.name, type := d.type, direction := d.direction, dimensions := x.dimensions } }
  | .parameter =>
    { parameters := d.declarators.map fun x =>
        { name := x.name, type := d.type, default := x.default, dimensions := x.dimensions } }
  | .signal =>
    { signals := d.declarators.map fun x =>
        { name := x.name, type := d.type, width := widthOf d.type, dimensions := x.dimensions } }

/-- What a construct itself declares for the scope around it. -/
def Construct.own : Construct ν → Body
  | .declaration k node _ => declared k (declarationOf k node)
  | _ => {}

/-- What is declared directly in a forest. -/
def bodyOf (cs : List (Construct ν)) : Body :=
  { ports := cs.flatMap (·.own.ports)
    parameters := cs.flatMap (·.own.parameters)
    signals := cs.flatMap (·.own.signals) }

mutual
/-- The routines of a construct that are not in a module of their own, in the order in which they
end. -/
def Construct.routines : Construct ν → List Routine
  | .scope .function node _ children =>
    forestRoutines children
      ++ [{ toBody := bodyOf children, name := nameOf node, isFunction := true }]
  | .scope .task node _ children =>
    forestRoutines children
      ++ [{ toBody := bodyOf children, name := nameOf node, isFunction := false }]
  | _ => []
def forestRoutines : List (Construct ν) → List Routine
  | [] => []
  | c :: cs => c.routines ++ forestRoutines cs
end

mutual
/-- The modules of a construct, in the order in which they end. -/
def Construct.modules : Construct ν → List Module
  | .scope .module node _ children =>
    forestModules children
      ++ [{ toBody := bodyOf children, name := nameOf node, tasks := forestRoutines children }]
  | .scope _ _ _ children => forestModules children
  | _ => []
def forestModules : List (Construct ν) → List Module
  | [] => []
  | c :: cs => c.modules ++ forestModules cs
end

/-! ### Runs over forests -/

theorem bodyOf_cons (c : Construct ν) (cs : List (Construct ν)) :
    bodyOf (c :: cs) = c.own ++ bodyOf cs := by
  have hi : c.own.items = [] := by
    cases c with
    | declaration k node last => cases k <;> rfl
    | _ => rfl
  simp [bodyOf, Body.append_def, hi]

/-- A run adds declarations to the innermost record, routines to the innermost module, and modules
to the file. -/
structure Grown (s t : State) (b : Body) (rs : List Routine) (ms : List Module) : Prop where
  outline : t.outline = addTasks rs (declare b s.outline)
  filed : t.filed = s.filed ++ ms

theorem Grown.refl (s : State) : Grown s s {} [] [] := ⟨by simp, by simp⟩

theorem Grown.trans {s t u : State} {b c : Body} {rs qs : List Routine} {ms ns : List Module}
    (h : Grown s t b rs ms) (h' : Grown t u c qs ns) :
    Grown s u (b ++ c) (rs ++ qs) (ms ++ ns) := by
  constructor
  · rw [h'.outline, h.outline, declare_addTasks, declare_declare, addTasks_addTasks]
  · rw [h'.filed, h.filed, List.append_assoc]

theorem Grown.of_mapOwner {s : State} {f : Body → Body} {b : Body}
    (hf : ∀ c, (f c).bare = c.bare ++ b) (items : List Item) :
    Grown s ((s.mapOwner f).setPending items) b [] [] :=
  ⟨by simp [State.outline_mapOwner hf], by simp [State.filed]⟩

/-- The width is worked out where there are signals to be kept. -/
theorem width_of_signalWidth {s : State} {d : Declaration} {width : Option Int}
    (h : s.signalWidth d = .ok width) (hs : s.scopes ≠ []) (hd : d.declarators ≠ []) :
    width = widthOf d.type := by
  simp only [State.signalWidth, List.isEmpty_iff, hs, hd, Bool.or_eq_true, or_self, if_false,
    mapError_eq_ok] at h
  simp [widthOf, h, Except.toOption]

theorem grown_ports {s : State} {d : Declaration} :
    Grown s (s.addPorts d) (declared .port d) [] [] := by
  refine ⟨?_, by simp [State.addPorts, State.filed]⟩
  rw [addTasks_nil]
  apply State.outline_mapOwner
  intro c
  simp [Body.bare, Body.append_def, declared, State.portOf, Port.bare, Function.comp_def]

theorem grown_parameters {s : State} {d : Declaration} :
    Grown s (s.addParameters d) (declared .parameter d) [] [] := by
  apply Grown.of_mapOwner
  intro c
  simp [Body.bare, Body.append_def, declared, State.parameterOf, Parameter.bare,
    Function.comp_def]

theorem grown_signals {s t : State} {d : Declaration} (h : s.addSignals d = .ok t) :
    Grown s t (declared .signal d) [] [] := by
  obtain ⟨width, hw, rfl⟩ := addSignals_eq_ok.mp h
  by_cases hs : s.scopes = []
  · have ho : s.outline = [] := by simp [State.outline, hs]
    exact ⟨by simp [State.mapOwner, hs, ho, declare], by simp [State.filed]⟩
  · apply Grown.of_mapOwner
    intro c
    by_cases hd : d.declarators = []
    · simp [Body.bare, Body.append_def, declared, hd]
    · simp [Body.bare, Body.append_def, declared, State.signalOf, Signal.bare, Function.comp_def,
        width_of_signalWidth hw hs hd]

section Run

variable {source : String}

theorem grown_comment {s t : State} {node : Option ν}
    (h : s.feed source (⟨.enter, .comment, node⟩ : Event ν) = .ok t) : Grown s t {} [] [] := by
  obtain ⟨text, -, rfl⟩ := feed_comment_iff.mp h
  exact ⟨by simp, by simp⟩

theorem grown_declaration {s t : State} {k : DeclarationKind} {node : Option ν}
    (h : s.feed source (⟨.enter, k.kind, node⟩ : Event ν) = .ok t) :
    Grown s t (declared k (declarationOf k node)) [] [] := by
  have hdecl {d : Declaration} (hd : Inspect.declaration k.kind node = .ok d) :
      declarationOf k node = d := by simp [declarationOf, hd, Except.toOption]
  cases k with
  | ansiPort =>
    obtain ⟨d, hd, rfl⟩ := (feed_ports_iff (.inl rfl)).mp h
    rw [hdecl hd]
    exact grown_ports
  | port =>
    obtain ⟨d, hd, rfl⟩ := (feed_ports_iff (.inr rfl)).mp h
    rw [hdecl hd]
    exact grown_ports
  | parameter =>
    obtain ⟨d, hd, rfl⟩ := feed_parameters_iff.mp h
    rw [hdecl hd]
    exact grown_parameters
  | signal =>
    obtain ⟨d, hd, ht⟩ := feed_signals_iff.mp h
    rw [hdecl hd]
    exact grown_signals ht

/-- The end of a construct that holds what was added since its beginning. -/
theorem grown_scope {s t : State} {k : ScopeKind} {node last : Option ν}
    {children : List (Construct ν)}
    (h : Grown (s.push (k.element (nameOf node))) t (bodyOf children) (forestRoutines children)
      (forestModules children)) :
    Grown s (t.leave k.closes) {} (Construct.scope k node last children).routines
      (Construct.scope k node last children).modules := by
  have ho := h.outline
  have hf : t.filed = s.filed ++ forestModules children := by
    rw [h.filed]
    simp [State.filed]
  rw [State.outline_push] at ho
  cases k with
  | module =>
    -- The routines inside stop at this module.
    simp only [ScopeKind.element, declare, Element.mapBody, addTasks, Body.empty_append,
      List.nil_append] at ho
    rw [State.leave_of_outline ho rfl]
    obtain ⟨hc, hm⟩ := State.closeTop_outline_module ho
    exact ⟨by simp [hc, Construct.routines], by simp [hm, hf, Construct.modules]⟩
  | function | task =>
    -- The routines inside go to the module around, and so does this one, after them.
    simp only [ScopeKind.element, declare, Element.mapBody, addTasks, Body.empty_append] at ho
    rw [State.leave_of_outline ho rfl]
    obtain ⟨hc, hm⟩ := State.closeTop_outline_routine ho
    exact ⟨by simp [hc, Construct.routines, addTasks_addTasks], by simp [hm, hf, Construct.modules]⟩

mutual
theorem grown_construct : ∀ (c : Construct ν) {s t : State},
    feedAll source s c.events = ⟨t, none⟩ → Grown s t c.own c.routines c.modules
  | .comment node last, s, t, h => by
    obtain ⟨s₁, h₁, hr⟩ := feedAll_cons_iff.mp h
    rw [feedAll_cons_ok (feed_idle rfl s₁)] at hr
    obtain rfl : s₁ = t := congrArg Outcome.state hr
    exact grown_comment h₁
  | .declaration k node last, s, t, h => by
    obtain ⟨s₁, h₁, hr⟩ := feedAll_cons_iff.mp h
    have hi : isIdle (⟨.leave, k.kind, last⟩ : Event ν) = true := by cases k <;> rfl
    rw [feedAll_cons_ok (feed_idle hi s₁)] at hr
    obtain rfl : s₁ = t := congrArg Outcome.state hr
    exact grown_declaration h₁
  | .scope k node last children, s, t, h => by
    obtain ⟨s₁, h₁, hr⟩ := feedAll_cons_iff.mp h
    obtain ⟨s₂, h₂, hl⟩ := feedAll_append_iff.mp hr
    rw [feedAll_cons_ok (feed_leave s₂ k last)] at hl
    obtain rfl : s₂.leave k.closes = t := congrArg Outcome.state hl
    obtain ⟨name, hi, -, rfl⟩ := feed_enter_iff.mp h₁
    have hn : nameOf node = name := by simp [nameOf, hi, Except.toOption]
    subst hn
    exact grown_scope (grown_forest children h₂)
theorem grown_forest : ∀ (cs : List (Construct ν)) {s t : State},
    feedAll source s (forestEvents cs) = ⟨t, none⟩ →
      Grown s t (bodyOf cs) (forestRoutines cs) (forestModules cs)
  | [], s, t, h => by
    obtain rfl : s = t := congrArg Outcome.state h
    exact .refl s
  | c :: cs, s, t, h => by
    obtain ⟨u, hu, ht⟩ := feedAll_append_iff.mp h
    rw [bodyOf_cons]
    exact (grown_construct c hu).trans (grown_forest cs ht)
end

theorem modules_finish {s : State} (h : s.scopes = []) :
    s.finish.file.modules = s.file.modules := by
  unfold State.finish
  split
  · rfl
  · simp [State.closeAll, State.depth, h, Nat.repeat, State.closeFile, associateFile]

/-- The file of a forest holds its modules and nothing else, in the order in which they end. A
module has one record for each declarator among its own children, and the routines of which it is
the nearest module; routines outside of all modules and declarations outside of all scopes leave
nothing behind. -/
theorem modules_finish_forest {name : String} {strict : Bool} {cs : List (Construct ν)} {s : State}
    (h : feedAll source (.initial name strict) (forestEvents cs) = ⟨s, none⟩) :
    s.finish.file.modules.map Module.bare = forestModules cs := by
  have hg := grown_forest cs h
  have hs : s.scopes = [] := List.map_eq_nil_iff.mp hg.outline
  rw [modules_finish hs]
  exact hg.filed

end Run

/-- A module in a function in a module, and a task outside of them. -/
def nestedSample : List (Construct Recording.Node) :=
  let named (name : String) : Option Recording.Node := some { identifier := .str name }
  let bytes : Recording.RawDeclaration :=
    { type := .str "logic [7:0]", declarators := [{ name := .str "x" }, { name := .str "y" }] }
  let input : Recording.RawDeclaration :=
    { direction := .str "input", declarators := [{ name := .str "a" }] }
  [.scope .task (named "alone") none [],
   .scope .module (named "outer") none
    [.comment (some { text := .str "//* Adds." }) none,
     .scope .function (named "add") none
      [.scope .module (named "inner") none
        [.declaration .signal (some { declaration := some bytes }) none],
       .declaration .port (some { declaration := some input }) none]]]

theorem modules_finish_nestedSample :
    (feedAll "" (.initial "f" false) (forestEvents nestedSample)).fault = none ∧
      (feedAll "" (.initial "f" false) (forestEvents nestedSample)).state.finish.file.modules.map
        Module.bare = forestModules nestedSample :=
  ⟨by decide, modules_finish_forest (Outcome.eq_of_fault (by decide))⟩

example : (forestModules nestedSample).map (·.name) = [.str "inner", .str "outer"] := by decide

end DesignDoc.Assembly
