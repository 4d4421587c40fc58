import DesignDoc.Assembly.Run
import DesignDoc.Recording.Script
import Mathlib.Data.List.Forall2

/-! Recordings and their dumps. What is recorded call by call can be written down as a dump and
loaded again: the events are the same, also if the dump leaves out what has its default. Each call
adds the events of its construct, and a declaration has one declarator for each name that it is
given. -/

namespace DesignDoc.Recording

open DesignDoc.Json DesignDoc.Event

/-! ### Dumps -/

/-- A member of a value. If it has its default it may be left out. -/
def Holds (v : Value) (key : String) (default x : Value) : Prop :=
  v.get? key = some x ∨ v.get? key = none ∧ x = default

theorem Holds.getD_eq {v : Value} {key : String} {default x : Value} (h : Holds v key default x) :
    (v.get? key).getD default = x := by
  rcases h with h | ⟨h, rfl⟩
  · rw [h, Option.getD_some]
  · rw [h, Option.getD_none]

/-- A value writes down a declarator. -/
inductive WritesDeclarator : Value → RawDeclarator → Prop
  | mk {members : List (String × Value)} {d : RawDeclarator}
    (name : (Value.obj members).get? "name" = some d.name)
    (dimensions : Holds (.obj members) "dimensions" .null d.dimensions)
    (default : Holds (.obj members) "default" .null d.default) : WritesDeclarator (.obj members) d

/-- A value writes down a declaration, or that there is none. -/
inductive WritesDeclaration : Value → Option RawDeclaration → Prop
  | none : WritesDeclaration .null none
  | some {members : List (String × Value)} {d : RawDeclaration} {items : List Value}
    (type : Holds (.obj members) "data_type" .null d.type)
    (direction : Holds (.obj members) "direction" .null d.direction)
    (listed : Holds (.obj members) "declarators" (.arr []) (.arr items))
    (declarators : List.Forall₂ WritesDeclarator items d.declarators) :
    WritesDeclaration (.obj members) (some d)

/-- A value writes down a node, or that there is none. -/
inductive WritesNode : Value → Option Node → Prop
  | none : WritesNode .null none
  | some {members : List (String × Value)} {n : Node} {declaration : Value}
    (text : Holds (.obj members) "text" (.str "") n.text)
    (identifier : Holds (.obj members) "identifier" .null n.identifier)
    (member : Holds (.obj members) "declaration" .null declaration)
    (writes : WritesDeclaration declaration n.declaration) : WritesNode (.obj members) (some n)

/-- A value writes down an event. -/
inductive WritesEvent : Value → Event Node → Prop
  | mk {members : List (String × Value)} {e : Event Node} {node : Value}
    (phase : (Value.obj members).get? "phase" = some (.str e.phase.name))
    (kind : (Value.obj members).get? "kind" = some (.str e.kind.name))
    (member : Holds (.obj members) "node" .null node)
    (writes : WritesNode node e.node) : WritesEvent (.obj members) e

/-- What each entry of a list is read as, the list is read as. -/
theorem mapM_eq_ok {ε α β : Type} {f : α → Except ε β} {as : List α} {bs : List β}
    (h : List.Forall₂ (fun a b => f a = .ok b) as bs) : as.mapM f = .ok bs := by
  induction h with
  | nil => rfl
  | cons ha _ ih =>
    rw [List.mapM_cons, ha, ih]
    rfl

theorem WritesDeclarator.load {v : Value} {d : RawDeclarator} (h : WritesDeclarator v d) :
    loadDeclarator v = .ok d := by
  obtain ⟨hname, hdimensions, hdefault⟩ := h
  simp only [loadDeclarator, hname, Value.getD, hdimensions.getD_eq, hdefault.getD_eq]

theorem WritesDeclaration.load {v : Value} {d : Option RawDeclaration}
    (h : WritesDeclaration v d) : loadDeclaration v = .ok d := by
  cases h with
  | none => rfl
  | @some members d items htype hdirection hlisted hdeclarators =>
    have hload : loadDeclarators ((Value.obj members).get? "declarators") = .ok d.declarators := by
      have hitems := mapM_eq_ok (hdeclarators.imp fun _ _ => WritesDeclarator.load)
      rcases hlisted with h | ⟨h, hempty⟩
      · rw [h, loadDeclarators, hitems]
      · obtain rfl : items = [] := by simpa using hempty
        rw [h]
        exact hitems
    simp only [loadDeclaration, hload, Value.getD, htype.getD_eq, hdirection.getD_eq]
    rfl

theorem WritesNode.load {v : Value} {n : Option Node} (h : WritesNode v n) :
    loadNode v = .ok n := by
  cases h with
  | none => rfl
  | some htext hidentifier hmember hwrites =>
    simp only [loadNode, Value.getD, hmember.getD_eq, hwrites.load, htext.getD_eq,
      hidentifier.getD_eq]
    rfl

theorem WritesEvent.load {v : Value} {e : Event Node} (h : WritesEvent v e) :
    loadEvent v = .ok e := by
  obtain ⟨hphase, hkind, hmember, hwrites⟩ := h
  have hp : phaseOf (.str e.phase.name) = .ok e.phase := by simp [phaseOf, Phase.ofName?_name]
  have hk : kindOf (.str e.kind.name) = .ok e.kind := by simp [kindOf, Kind.ofName?_name]
  simp only [loadEvent, loadHead, hphase, hkind, hp, hk, Value.getD, hmember.getD_eq, hwrites.load]
  rfl

/-- Every dump of events is loaded as these events. -/
theorem ofValue_eq_ok {entries : List Value} {events : List (Event Node)}
    (h : List.Forall₂ WritesEvent entries events) (name : String) :
    ofValue name (.arr entries) = .ok { name, events } := by
  rw [ofValue, mapM_eq_ok (h.imp fun _ _ => WritesEvent.load)]
  rfl

theorem writesDeclarator_dump (d : RawDeclarator) : WritesDeclarator (dumpDeclarator d) d :=
  .mk rfl (.inl rfl) (.inl rfl)

theorem writesDeclaration_dump (d : Option RawDeclaration) :
    WritesDeclaration (dumpDeclaration d) d := by
  cases d with
  | none => exact .none
  | some d =>
    refine .some (.inl rfl) (.inl rfl) (.inl rfl) ?_
    rw [List.forall₂_map_left_iff, List.forall₂_same]
    exact fun x _ => writesDeclarator_dump x

theorem writesNode_dump (n : Node) : WritesNode (dumpNode n) (some n) :=
  .some (.inl rfl) (.inl rfl) (.inl rfl) (writesDeclaration_dump _)

/-- A full dump leaves nothing out. -/
theorem writesEvent_dump (e : Event Node) : WritesEvent (dumpEvent e) e := by
  obtain ⟨phase, kind, node⟩ := e
  cases node with
  | none => exact .mk rfl rfl (.inr ⟨rfl, rfl⟩) .none
  | some n => exact .mk rfl rfl (.inl rfl) (writesNode_dump n)

/-! ### Calls -/

/-- The names of a declaration as they are given: one name, or a list. -/
inductive Names where
  | one (name : String)
  | listed (names : List String)
  deriving DecidableEq, Repr

def Names.toList : Names → List String
  | one name => [name]
  | listed names => names

def Names.value : Names → Value
  | one name => .str name
  | listed names => .arr (names.map .str)

theorem names?_value (names : Names) : names? names.value = some (names.toList.map .str) := by
  cases names <;> rfl

/-- The dimensions of several names, which may be fewer than the names, or more. -/
def dimensionsValue : Option (List (Option String)) → Value
  | none => .null
  | some dimensions => .arr (dimensions.map .ofText?)

theorem dimensions?_value (dimensions : Option (List (Option String))) :
    dimensions? (dimensionsValue dimensions) = some ((dimensions.getD []).map .ofText?) := by
  rcases dimensions with _ | _ | ⟨d, ds⟩ <;> rfl

/-- An argument that a call can do without: it may be left out, and it may be given as absent. -/
abbrev Optional (α : Type) := Option (Option α)

/-- A call of the builder with its arguments as they are given. -/
inductive Invocation where
  | comment (text : String)
  | enterModule (name : Option String)
  | leaveModule
  | enterFunction (name : Option String) (task : Option Bool)
  | leaveFunction (task : Option Bool)
  | ansiPort (name : String) (direction type dimensions : Optional String)
  | portDeclaration (names : Names) (direction type : Optional String)
    (dimensions : Optional (List (Option String)))
  | parameter (names : Names) (default type dimensions : Optional String)
  | signal (names : Names) (type : Optional String) (dimensions : Optional (List (Option String)))
  deriving DecidableEq, Repr

/-- A call by its name, with the arguments that it needs and those that are given besides. -/
def scriptOf (name : String) (required : List (String × Value))
    (optional : List (String × Option Value)) : Value :=
  .obj (("do", .str name) :: required ++ optional.filterMap fun a => a.2.map (Prod.mk a.1))

namespace Invocation

def script : Invocation → Value
  | comment text => scriptOf "comment" [("text", .str text)] []
  | enterModule name => scriptOf "enter_module" [("name", .ofText? name)] []
  | leaveModule => scriptOf "leave_module" [] []
  | enterFunction name task =>
    scriptOf "enter_function" [("name", .ofText? name)] [("task", task.map .bool)]
  | leaveFunction task => scriptOf "leave_function" [] [("task", task.map .bool)]
  | ansiPort name direction type dimensions =>
    scriptOf "ansi_port" [("name", .str name)]
      [("direction", direction.map .ofText?), ("data_type", type.map .ofText?),
       ("dimensions", dimensions.map .ofText?)]
  | portDeclaration names direction type dimensions =>
    scriptOf "port_declaration" [("names", names.value)]
      [("direction", direction.map .ofText?), ("data_type", type.map .ofText?),
       ("dimensions", dimensions.map dimensionsValue)]
  | parameter names default type dimensions =>
    scriptOf "parameter" [("names", names.value)]
      [("default", default.map .ofText?), ("data_type", type.map .ofText?),
       ("dimensions", dimensions.map .ofText?)]
  | signal names type dimensions =>
    scriptOf "signal" [("names", names.value)]
      [("data_type", type.map .ofText?), ("dimensions", dimensions.map dimensionsValue)]

/-- The call that is made. -/
def call : Invocation → Call
  | comment text => .comment (.str text)
  | enterModule name => .enterModule (.ofText? name)
  | leaveModule => .leaveModule
  | enterFunction name task => .enterRoutine (! task.getD false) (.ofText? name)
  | leaveFunction task => .leaveRoutine (! task.getD false)
  | ansiPort name direction type dimensions =>
    .ansiPort (.str name) (.ofText? direction.join) (.ofText? type.join)
      (.ofText? dimensions.join)
  | portDeclaration names direction type dimensions =>
    .portDeclaration (names.toList.map .str) (.ofText? direction.join) (.ofText? type.join)
      ((dimensions.join.getD []).map .ofText?)
  | parameter names default type dimensions =>
    .parameter (names.toList.map .str) (.ofText? default.join) (.ofText? type.join)
      (.ofText? dimensions.join)
  | signal names type dimensions =>
    .signal (names.toList.map .str) (.ofText? type.join) ((dimensions.join.getD []).map .ofText?)

/-- A call whose arguments are accepted is made as soon as its lists can be read. -/
def accepted (name : String) (call? : Option Call) : Except ScriptError Call :=
  (call?.map .ok).getD (.error (.badArguments name))

theorem callOf_script (i : Invocation) : callOf i.script = .ok i.call := by
  cases i with
  | comment text => rfl
  | enterModule name => rfl
  | leaveModule => rfl
  | enterFunction name task => rcases task with _ | _ | _ <;> rfl
  | leaveFunction task => rcases task with _ | _ | _ <;> rfl
  | ansiPort name direction type dimensions =>
    cases direction <;> cases type <;> cases dimensions <;> rfl
  | portDeclaration names direction type dimensions =>
    have hread : callOf (portDeclaration names direction type dimensions).script =
        accepted "port_declaration" (do
          return .portDeclaration (← names? names.value) (.ofText? direction.join)
            (.ofText? type.join) (← dimensions? (dimensionsValue dimensions.join))) := by
      cases direction <;> cases type <;> cases dimensions <;> rfl
    rw [hread, names?_value, dimensions?_value]
    rfl
  | parameter names default type dimensions =>
    have hread : callOf (parameter names default type dimensions).script =
        accepted "parameter" (do
          return .parameter (← names? names.value) (.ofText? default.join) (.ofText? type.join)
            (.ofText? dimensions.join)) := by
      cases default <;> cases type <;> cases dimensions <;> rfl
    rw [hread, names?_value]
    rfl
  | signal names type dimensions =>
    have hread : callOf (signal names type dimensions).script =
        accepted "signal" (do
          return .signal (← names? names.value) (.ofText? type.join)
            (← dimensions? (dimensionsValue dimensions.join))) := by
      cases type <;> cases dimensions <;> rfl
    rw [hread, names?_value, dimensions?_value]
    rfl

end Invocation

/-! ### What a call records -/

/-- A declaration is entered, with one declarator for each name, and left at once. -/
def Declares (kind : Kind) (type direction : Option String) (names : List String)
    (dimensions default : Nat → Option String) (events : List (Event Node)) : Prop :=
  ∃ d : RawDeclaration, events = [.enter kind { declaration := some d }, .leave kind] ∧
    d.type = .ofText? type ∧ d.direction = .ofText? direction ∧
    d.declarators.length = names.length ∧
    ∀ (i : Nat) (name : String), names[i]? = some name →
      d.declarators[i]? = some
        { name := .str name
          dimensions := .ofText? (dimensions i)
          default := .ofText? (default i) }

theorem getElem?_declarators (names dimensions : List Value) (i : Nat) :
    (declarators names dimensions)[i]? =
      names[i]?.map fun name => { name, dimensions := dimensions[i]?.getD .null } := by
  rw [declarators, List.getElem?_zipWith]
  cases hname : names[i]? with
  | none => rfl
  | some name =>
    have hi : i < names.length := (List.getElem?_eq_some_iff.mp hname).1
    -- past the end of the dimensions there is the filling
    have hfilled : (dimensions ++ List.replicate (names.length - dimensions.length) .null)[i]? =
        some (dimensions[i]?.getD .null) := by
      rw [List.getElem?_append, List.getElem?_replicate]
      split_ifs with hlt hlt'
      · simp [hlt]
      · simp [hlt]
      · omega
    simp [hfilled]

/-- Names and dimensions in the same places. -/
theorem declares_declarators (kind : Kind) (type direction : Option String) (names : List String)
    (dimensions : List (Option String)) :
    Declares kind type direction names (fun i => dimensions[i]?.join) (fun _ => none)
      (declare kind { type := .ofText? type, direction := .ofText? direction,
                      declarators := declarators (names.map .str) (dimensions.map .ofText?) }) := by
  refine ⟨_, rfl, rfl, rfl, by simp, fun i name hname => ?_⟩
  have hdimensions : (dimensions.map Value.ofText?)[i]?.getD .null =
      .ofText? dimensions[i]?.join := by
    rw [List.getElem?_map]
    cases dimensions[i]? <;> rfl
  rw [getElem?_declarators, hdimensions, List.getElem?_map, hname]
  rfl

namespace Invocation

/-- What a call adds to a recording. -/
def Records : Invocation → List (Event Node) → Prop
  | comment text, es => es = [.enter .comment { text := .str text }, .leave .comment]
  | enterModule name, es => es = [.enter .module { identifier := .ofText? name }]
  | leaveModule, es => es = [.leave .module]
  | enterFunction name task, es =>
    es = [.enter (if task = some true then .task else .function) { identifier := .ofText? name }]
  | leaveFunction task, es => es = [.leave (if task = some true then .task else .function)]
  | ansiPort name direction type dimensions, es =>
    Declares .ansiPort type.join direction.join [name] (fun _ => dimensions.join) (fun _ => none) es
  | portDeclaration names direction type dimensions, es =>
    Declares .portDeclaration type.join direction.join names.toList
      (fun i => (dimensions.join.getD [])[i]?.join) (fun _ => none) es
  | parameter names default type dimensions, es =>
    Declares .parameterDeclaration type.join none names.toList (fun _ => dimensions.join)
      (fun _ => default.join) es
  | signal names type dimensions, es =>
    Declares .signalDeclaration type.join none names.toList
      (fun i => (dimensions.join.getD [])[i]?.join) (fun _ => none) es

theorem records_call (i : Invocation) : i.Records i.call.events := by
  cases i with
  | comment text => rfl
  | enterModule name => rfl
  | leaveModule => rfl
  | enterFunction name task => rcases task with _ | _ | _ <;> rfl
  | leaveFunction task => rcases task with _ | _ | _ <;> rfl
  | ansiPort name direction type dimensions =>
    refine ⟨_, rfl, rfl, rfl, rfl, fun i n hn => ?_⟩
    obtain ⟨rfl, rfl⟩ : i = 0 ∧ name = n := by simpa [List.getElem?_singleton] using hn
    rfl
  | portDeclaration names direction type dimensions => exact declares_declarators _ _ _ _ _
  | parameter names default type dimensions =>
    refine ⟨_, rfl, rfl, rfl, by simp, fun i name hname => ?_⟩
    simp [hname]
  | signal names type dimensions => exact declares_declarators _ _ none _ _

end Invocation

/-! ### Reloading -/

/-- What is recorded by calls is what the calls say; every dump of it, be it full or not, is loaded
as the same events, and the document that is assembled from them is the same. -/
theorem recording_reloaded (name : String) (invocations : List Invocation) :
    ∃ calls, invocations.mapM (fun i => callOf i.script) = .ok calls ∧
      (∃ parts, List.Forall₂ Invocation.Records invocations parts ∧ build calls = parts.flatten) ∧
      ofValue name (dump (build calls)) = .ok { name, events := build calls } ∧
      ∀ entries text, List.Forall₂ WritesEvent entries (build calls) →
        Json.read text = .ok (.arr entries) →
        ∃ source, ofText name text = .ok source ∧ source.events = build calls ∧
          ∀ fileName strict, Assembly.assemble source fileName strict =
            Assembly.assemble { name, events := build calls } fileName strict := by
  refine ⟨invocations.map Invocation.call, ?_, ?_, ?_, ?_⟩
  · apply mapM_eq_ok
    rw [List.forall₂_map_right_iff, List.forall₂_same]
    exact fun i _ => i.callOf_script
  · refine ⟨invocations.map fun i => i.call.events, ?_, ?_⟩
    · rw [List.forall₂_map_right_iff, List.forall₂_same]
      exact fun i _ => i.records_call
    · rw [build, List.flatMap_map, List.flatMap]
  · apply ofValue_eq_ok
    rw [List.forall₂_map_left_iff, List.forall₂_same]
    exact fun e _ => writesEvent_dump e
  · intro entries text hentries hread
    refine ⟨_, ?_, rfl, fun _ _ => rfl⟩
    rw [ofText, hread]
    exact ofValue_eq_ok hentries name

/-- Two signals of which only the first has dimensions. -/
def busInvocations : List Invocation :=
  [.signal (.listed ["a", "b"]) none (some (some [some "[3:0]"]))]

def busCalls : List Call := [.signal [.str "a", .str "b"] .null [.str "[3:0]"]]

/-- A dump of them that leaves out all it can. -/
def busDeclaration : Value :=
  .obj [("declarators", .arr
    [.obj [("name", .str "a"), ("dimensions", .str "[3:0]")], .obj [("name", .str "b")]])]

def busEntries : List Value :=
  [.obj [("phase", .str "enter"), ("kind", .str "signal_declaration"),
     ("node", .obj [("declaration", busDeclaration)])],
   .obj [("kind", .str "signal_declaration"), ("phase", .str "leave")]]

def busText : String :=
  "[\x7b\"phase\":\"enter\",\"kind\":\"signal_declaration\"," ++
    "\"node\":\x7b\"declaration\":\x7b\"declarators\":" ++
    "[\x7b\"name\":\"a\",\"dimensions\":\"[3:0]\"\x7d,\x7b\"name\":\"b\"\x7d]\x7d\x7d\x7d," ++
    "\x7b\"kind\":\"signal_declaration\",\"phase\":\"leave\"\x7d]"

theorem recording_reloaded_bus :
    Json.read busText.toList = .ok (.arr busEntries) ∧
      busInvocations.mapM (fun i => callOf i.script) = .ok busCalls ∧
      ∃ source, ofText "bus.json" busText.toList = .ok source ∧ source.events = build busCalls := by
  have hread : Json.read busText.toList = .ok (.arr busEntries) := by
    have hvalue : (Json.read busText.toList).toOption = some (.arr busEntries) := by decide +kernel
    cases h : Json.read busText.toList with
    | ok v =>
      rw [h] at hvalue
      exact congrArg _ (Option.some.inj hvalue)
    | error e =>
      rw [h] at hvalue
      cases hvalue
  have hcalls : busInvocations.mapM (fun i => callOf i.script) = .ok busCalls := rfl
  have hout {v : Value} {key : String} {default : Value} (h : v.get? key = none) :
      Holds v key default default := .inr ⟨h, rfl⟩
  have hdeclaration : WritesDeclaration busDeclaration (some { declarators :=
      [{ name := .str "a", dimensions := .str "[3:0]" }, { name := .str "b" }] }) := by
    refine .some (hout rfl) (hout rfl) (.inl rfl) (.cons ?_ (.cons ?_ .nil))
    · exact .mk rfl (.inl rfl) (hout rfl)
    · exact .mk rfl (hout rfl) (hout rfl)
  have hentries : List.Forall₂ WritesEvent busEntries (build busCalls) := by
    refine .cons ?_ (.cons (.mk rfl rfl (hout rfl) .none) .nil)
    exact .mk rfl rfl (.inl rfl) (.some (hout rfl) (hout rfl) (.inl rfl) hdeclaration)
  obtain ⟨calls, hcalls', -, -, hload⟩ := recording_reloaded "bus.json" busInvocations
  obtain rfl : busCalls = calls := Except.ok.inj (hcalls.symm.trans hcalls')
  obtain ⟨source, hsource, hevents, -⟩ := hload busEntries busText.toList hentries hread
  exact ⟨hread, hcalls, source, hsource, hevents⟩

end DesignDoc.Recording
