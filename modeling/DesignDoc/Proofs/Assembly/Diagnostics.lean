import DesignDoc.Proofs.Assembly.Machines
import DesignDoc.Proofs.Assembly.NameDocs
import Mathlib.Data.List.Infix

/-! What strict assembly reports, word for word. Each scope is judged when it is closed, by the
items that were handed to it when it was opened and those that wait in it at its end; the file is
judged at last, by what waits in it. Of every such list the items are judged one by one: by what is
declared in the scope if they document something by its name, and by the items before them if they
tell of a state. -/

namespace DesignDoc.Assembly

open DesignDoc.Annotation DesignDoc.Document DesignDoc.Event DesignDoc.Json

/-! ### Judging items -/

/-- The complaint about a state or a transition without a machine. -/
def orphanOf : Item → Complaint
  | .transition _ _ _ => .orphanTransition
  | _ => .orphanState

/-- An item that tells of a state is an orphan if no machine is open. -/
def orphan? (grouped : Bool) (i : Item) : Option Complaint :=
  if i.isStateItem && ! grouped then some (orphanOf i) else none

/-- The complaint about an item that comes after others in a scope. A machine is open if one of them
starts a machine. -/
def complaint? (b : Body) (before : List Item) (i : Item) : Option Complaint :=
  unmatched? b i <|> orphan? (before.any Item.isMachineStart) i

/-- What is reported about the items of a scope: every item is judged after the items before it. -/
def reportsOn (title : String) (b : Body) (items : List Item) : List Diagnostic :=
  (items.inits.zip items).filterMap fun x => (complaint? b x.1 x.2).map (⟨·, title⟩)

/-- The first item is judged, and those after it by what it leaves. -/
theorem complaints_cons (b : Body) (grouped : Bool) (i : Item) (items : List Item) :
    complaints (b.ports.map (·.name)) (b.parameters.map (·.name)) grouped (i :: items) =
      (unmatched? b i <|> orphan? grouped i).toList ++
        complaints (b.ports.map (·.name)) (b.parameters.map (·.name))
          (grouped || i.isMachineStart) items := by
  cases i with
  | plain => cases grouped <;> rfl
  | simple tag text => cases tag <;> cases grouped <;> rfl
  | transition => cases grouped <;> rfl
  | named tag name text =>
    cases tag with
    | port =>
      by_cases hn : name ∈ b.ports.map (·.name) <;> cases grouped <;>
        simp only [complaints, unmatched?, hn, if_true, if_false] <;> rfl
    | param =>
      by_cases hn : name ∈ b.parameters.map (·.name) <;> cases grouped <;>
        simp only [complaints, unmatched?, hn, if_true, if_false] <;> rfl
    | revision => cases grouped <;> rfl
    | state => cases grouped <;> rfl

theorem complaints_eq_filterMap (b : Body) (before items : List Item) :
    complaints (b.ports.map (·.name)) (b.parameters.map (·.name))
        (before.any Item.isMachineStart) items =
      (items.inits.zip items).filterMap fun x => complaint? b (before ++ x.1) x.2 := by
  induction items generalizing before with
  | nil => rfl
  | cons i items ih =>
    -- The lists before the other items start with this one.
    have hz : (i :: items).inits.zip (i :: items) =
        ([], i) :: (items.inits.zip items).map fun x => (i :: x.1, x.2) := by
      rw [List.inits_cons, List.zip_cons_cons, List.zip_map_left]
      rfl
    have hany : (before.any Item.isMachineStart || i.isMachineStart) =
        (before ++ [i]).any Item.isMachineStart := by
      simp
    rw [complaints_cons, hany, ih, hz, List.filterMap_cons, List.filterMap_map]
    simp only [complaint?, List.append_nil, List.append_assoc, List.singleton_append,
      Function.comp_def]
    cases unmatched? b i <|> orphan? (before.any Item.isMachineStart) i <;> rfl

theorem reportsOn_eq (title : String) (b : Body) (items : List Item) :
    reportsOn title b items =
      (complaints (b.ports.map (·.name)) (b.parameters.map (·.name)) false items).map
        (⟨·, title⟩) := by
  have h := complaints_eq_filterMap b [] items
  simp only [List.any_nil, List.nil_append] at h
  rw [h, List.map_filterMap]
  rfl

theorem Closing.reports_eq (c : Closing) : c.reports = reportsOn c.title c.body c.body.items :=
  (reportsOn_eq c.title c.body c.body.items).symm

/-! ### Scopes at their end -/

/-- A scope at its end: the items that were handed to it when it was opened, those that wait in it,
and its record. -/
structure Ended where
  handed : List Item
  waiting : List Item
  element : Element
  deriving DecidableEq, Repr

/-- Text that waits in a scope is not counted among its items. -/
def Ended.items (x : Ended) : List Item := x.handed ++ x.waiting.filter (! ·.isSummary)

def Ended.reports (x : Ended) : List Diagnostic :=
  reportsOn x.element.title x.element.body x.items

variable {ν : Type}

/-- Whether an event begins a construct that is a scope. -/
def opensScope (e : Event ν) : Bool :=
  match e.phase, e.kind with
  | .enter, .module | .enter, .function | .enter, .task => true
  | _, _ => false

theorem opensScope_enter (k : ScopeKind) (n : Option ν) :
    opensScope (⟨.enter, k.kind, n⟩ : Event ν) = true := by
  cases k <;> rfl

theorem opensScope_ports {k : Kind} (hk : k = .ansiPort ∨ k = .portDeclaration) (n : Option ν) :
    opensScope (⟨.enter, k, n⟩ : Event ν) = false := by
  rcases hk with rfl | rfl <;> rfl

theorem opensScope_declaration {e : Event ν}
    (h : e.kind = .parameterDeclaration ∨ e.kind = .signalDeclaration) :
    opensScope e = false := by
  rcases h with h | h <;> simp [opensScope, h]

theorem opensScope_of_leave {e : Event ν} (h : e.phase = .leave) : opensScope e = false := by
  simp [opensScope, h]

theorem opensScope_idle {e : Event ν} (h : isIdle e = true) : opensScope e = false := by
  obtain ⟨phase, kind, n⟩ := e
  cases phase <;> cases kind <;> simp [isIdle] at h <;> rfl

/-- The end of a stream opens no scope. -/
theorem countP_opensScope_ends (s : State) :
    (s.ends : List (Event ν)).countP opensScope = 0 := by
  simp [State.ends, List.countP_eq_zero, opensScope_of_leave]

variable [Inspect ν] {source : String}

namespace Stage

/-- The scope that ends with the event, if the items that were handed to the open scopes are known,
innermost first. -/
def ended? (x : Stage ν) (handed : List (List Item)) : Option Ended :=
  match x.effect with
  | .closes a => some ⟨handed.headD [], a.pending, a.element⟩
  | .parameters | .signals _ | .none => none

/-- What is handed to the open scopes once the event is taken in: a scope that is opened gets what
waits around it. -/
def handing (x : Stage ν) (handed : List (List Item)) : List (List Item) :=
  match x.effect with
  | .closes _ => handed.tail
  | .parameters | .signals _ | .none =>
    if opensScope x.event then x.state.pending :: handed else handed

end Stage

/-- The scopes that end in the course of some stages, in order. -/
def endedScopes : List (List Item) → List (Stage ν) → List Ended
  | _, [] => []
  | handed, x :: xs => (x.ended? handed).toList ++ endedScopes (x.handing handed) xs

/-! ### What was handed to a scope -/

namespace State

/-- The items in the records of the open scopes, innermost first. -/
def handed (s : State) : List (List Item) := s.scopes.map (·.element.body.items)

variable {s t : State}

@[simp] theorem handed_setPending (items : List Item) : (s.setPending items).handed = s.handed := by
  unfold setPending
  split <;> simp [handed, *]

theorem handed_mapOwner {f : Body → Body} (hf : ∀ b, (f b).items = b.items) :
    (s.mapOwner f).handed = s.handed := by
  unfold mapOwner
  split
  · rfl
  · next h => simp [handed, h, Element.body_mapBody, hf]

theorem handed_addPorts (d : Declaration) : (s.addPorts d).handed = s.handed :=
  handed_mapOwner fun _ => rfl

theorem handed_addParameters (d : Declaration) : (s.addParameters d).handed = s.handed := by
  rw [addParameters, handed_setPending]
  exact handed_mapOwner fun _ => rfl

theorem handed_addSignals {d : Declaration} (h : s.addSignals d = .ok t) :
    t.handed = s.handed := by
  obtain ⟨width, -, rfl⟩ := addSignals_eq_ok.mp h
  rw [handed_setPending]
  exact handed_mapOwner fun _ => rfl

theorem handed_push (k : ScopeKind) (name : Value) :
    (s.push (k.element name)).handed = s.pending :: s.handed := by
  have hb : (k.element name).body.items = [] := by cases k <;> rfl
  have hs : (s.setPending []).scopes.map (·.element.body.items) = s.handed := handed_setPending []
  simp only [push, handed, List.map_cons, Element.body_mapBody, hb, List.nil_append]
  exact congrArg _ hs

theorem handed_closeTop (s : State) : s.closeTop.handed = s.handed.tail := by
  cases h : s.scopes with
  | nil => simp [closeTop, h, handed]
  | cons top rest =>
    obtain ⟨m, hs, -⟩ | ⟨r, hs, -⟩ := closeTop_cases h
    · simp [handed, hs, h]
    · simp only [handed, hs, h, List.map_cons, List.tail_cons]
      exact map_addTask (fun a b he _ => by rw [he]) r rest

end State

section Handed

variable {s t : State} {e : Event ν} {es : List (Event ν)}

theorem Stage.handing_of_none {x : Stage ν} (h : x.effect = .none)
    (hx : opensScope x.event = false) (handed : List (List Item)) : x.handing handed = handed := by
  simp [handing, h, hx]

/-- The items of a record do not change while its scope is open. -/
theorem handed_of_step (h : Step s e t) :
    t.handed = (⟨s, e⟩ : Stage ν).handing s.handed := by
  cases h with
  | comment => rw [State.handed_setPending, Stage.handing_of_none rfl rfl]
  | opens k => simp [State.handed_push, Stage.handing, effect_enter, opensScope_enter]
  | closes k n htop hk => rw [State.handed_closeTop, Stage.handing, effect_closes htop hk]
  | ignores k n hn => rw [Stage.handing_of_none (effect_ignores hn) rfl]
  | ports hk =>
    rw [State.handed_addPorts, Stage.handing_of_none (effect_ports hk) (opensScope_ports hk _)]
  | parameters =>
    rw [State.handed_addParameters]
    rfl
  | signals hd ht =>
    rw [State.handed_addSignals ht, Stage.handing, effect_signals hd]
    rfl
  | idle hi => rw [Stage.handing_of_none (effect_idle hi) (opensScope_idle hi)]

/-- A scope that ends is judged by its own items. -/
theorem reports_ended? (x : Stage ν) :
    (x.ended? x.state.handed).toList.flatMap Ended.reports =
      x.closing?.toList.flatMap Closing.reports := by
  obtain he | ⟨-, -, he⟩ | ⟨-, -, he⟩ | ⟨a, rest, -, hs, he⟩ := effect_cases x
  · simp [Stage.ended?, Stage.closing?, he]
  · simp [Stage.ended?, Stage.closing?, he]
  · simp [Stage.ended?, Stage.closing?, he]
  · have hh : x.state.handed.headD [] = a.element.body.items := by simp [State.handed, hs]
    have hb : a.settled.body = { a.element.body with
        items := a.element.body.items ++ a.pending.filter (! ·.isSummary) } :=
      Element.body_mapBody _ _
    have ht : a.settled.title = a.element.title := by
      cases ha : a.element <;> simp [Scope.settled, Element.mapBody, ha, Element.title] <;> rfl
    simp only [Stage.ended?, Stage.closing?, he, Option.toList_some, List.flatMap_singleton,
      Closing.reports_eq, Closing.title, Closing.body, Ended.reports, Ended.items, hh, hb, ht]
    rfl

theorem reports_endedScopes (h : feedAll source s es = ⟨t, none⟩) :
    (endedScopes s.handed (stages source s es)).flatMap Ended.reports =
      ((stages source s es).filterMap Stage.closing?).flatMap Closing.reports := by
  induction es generalizing s with
  | nil => rfl
  | cons e es ih =>
    obtain ⟨a, ha, hr⟩ := feedAll_cons_iff.mp h
    have hx := reports_ended? (⟨s, e⟩ : Stage ν)
    rw [stages_cons ha, endedScopes, ← handed_of_step (step_of_feed ha), List.flatMap_append,
      ih hr, hx]
    cases hc : (⟨s, e⟩ : Stage ν).closing? <;> simp [hc]

/-- A scope that is open was opened and has not ended. -/
theorem length_handed_of_step (h : Step s e t) :
    ((⟨s, e⟩ : Stage ν).ended? s.handed).toList.length + t.handed.length =
      s.handed.length + if opensScope e then 1 else 0 := by
  rw [handed_of_step h]
  obtain he | ⟨-, hk, he⟩ | ⟨-, hk, he⟩ | ⟨a, rest, hp, hs, he⟩ :=
    effect_cases (⟨s, e⟩ : Stage ν)
  · cases ho : opensScope e <;> simp [Stage.ended?, Stage.handing, he, ho]
  · have ho : opensScope e = false := opensScope_declaration (.inl hk)
    simp [Stage.ended?, Stage.handing, he, ho]
  · have ho : opensScope e = false := opensScope_declaration (.inr hk)
    simp [Stage.ended?, Stage.handing, he, ho]
  · have hh : s.handed = a.element.body.items :: rest.map (·.element.body.items) :=
      congrArg (List.map _) hs
    simp [Stage.ended?, Stage.handing, he, opensScope_of_leave hp, hh, Nat.add_comm]

theorem length_endedScopes (h : feedAll source s es = ⟨t, none⟩) :
    (endedScopes s.handed (stages source s es)).length + t.handed.length =
      s.handed.length + es.countP opensScope := by
  induction es generalizing s with
  | nil =>
    obtain rfl : s = t := congrArg Outcome.state h
    simp [stages, endedScopes]
  | cons e es ih =>
    obtain ⟨a, ha, hr⟩ := feedAll_cons_iff.mp h
    have hstep := length_handed_of_step (step_of_feed ha)
    have hrest := ih hr
    rw [stages_cons ha, endedScopes, ← handed_of_step (step_of_feed ha), List.length_append,
      List.countP_cons]
    omega

end Handed

/-! ### The diagnostics of a run -/

/-- In a file every item that documents something by its name is reported. -/
theorem filter_isUnmatched_reportsOn_file (title : String) (items : List Item) :
    ((reportsOn title {} items).filter (·.complaint.isUnmatched)).length =
      (items.filter Item.isNameDoc).length := by
  have hu : ∀ i, (unmatched? {} i).isSome = i.isNameDoc := by
    intro i
    cases i with
    | named tag => cases tag <;> rfl
    | _ => rfl
  have hf : (fun c : Complaint => (⟨c, title⟩ : Diagnostic).complaint.isUnmatched) =
      Complaint.isUnmatched := rfl
  rw [reportsOn_eq, List.filter_map, List.length_map, Function.comp_def, hf,
    filter_isUnmatched_complaints, List.length_filterMap_eq_countP, ← List.countP_eq_length_filter]
  exact congrArg (List.countP · items) (funext hu)

/-- What strict assembly of a file reports, if `u` is the state after the last event. Scopes that
are open then end there, innermost first. -/
structure ExactReports (source name : String) (es : List (Event ν)) (u : State) : Prop where
  /-- The scopes are judged in the order in which they end, and the file after them. -/
  diagnostics : u.finish.diagnostics =
    (endedScopes [] (stages source (.initial name true) (es ++ u.ends))).flatMap Ended.reports ++
      reportsOn ("file " ++ name) {} u.filePending
  /-- Every scope that is opened is judged, a routine outside of all modules as well. -/
  scopes : (endedScopes [] (stages source (.initial name true) (es ++ u.ends))).length =
    es.countP opensScope
  /-- Nothing is declared in a file, so it has no use for documentation by name. -/
  file : ((reportsOn ("file " ++ name) {} u.filePending).filter (·.complaint.isUnmatched)).length =
    (u.filePending.filter Item.isNameDoc).length

theorem diagnostics_exact {name : String} {es : List (Event ν)} {u : State}
    (h : feedAll source (.initial name true) es = ⟨u, none⟩) : ExactReports source name es u := by
  have hend := feedAll_append_ends h
  have hinit : (State.initial name true).handed = [] := rfl
  refine ⟨?_, ?_, filter_isUnmatched_reportsOn_file _ _⟩
  · obtain ⟨ms, hf⟩ := file_of_run hend
    have hfile : u.closeAll.fileClosing.reports =
        reportsOn ("file " ++ name) {} u.filePending := by
      rw [Closing.reports_eq, State.fileClosing, hf, u.filePending_closeAll]
      rfl
    rw [diagnostics_finish h, closingsOf_eq h, List.flatMap_append, List.flatMap_singleton, hfile,
      ← reports_endedScopes hend, hinit]
  · have hlen := length_endedScopes hend
    have hall : u.closeAll.handed = [] := by simp [State.handed, u.scopes_closeAll]
    simpa [hinit, hall, countP_opensScope_ends] using hlen

/-- A task outside of all modules, a function in a module, and ports and parameters that are named
wrong, too early or too late. -/
def strictSample : List (Event Recording.Node) :=
  Recording.build
    [.enterRoutine false (.str "t"), .comment (.str "//* @A -> B orphan"), .leaveRoutine false,
     .comment (.str "/** @port CLK wrong case\n@param W nope\n@state IDLE orphan */"),
     .enterModule (.str "m"), .comment (.str "//* @port clk fine"), .signal [.str "s"] .null [],
     .enterRoutine true (.str "f"), .leaveRoutine true, .ansiPort (.str "clk") .null .null .null,
     .comment (.str "/** @port clk fine\n@fsm main\n@state RUN fine */"), .leaveModule,
     .comment (.str "//* @port clk late")]

theorem diagnostics_exact_strictSample :
    (feedAll "" (.initial "m.sv" true) strictSample).fault = none ∧
      (feedAll "" (.initial "m.sv" true) strictSample).state.finish.diagnostics =
        [⟨.orphanTransition, "task t"⟩, ⟨.unmatchedPort "clk", "function f"⟩,
         ⟨.unmatchedPort "CLK", "module m"⟩, ⟨.unmatchedParameter "W", "module m"⟩,
         ⟨.orphanState, "module m"⟩, ⟨.unmatchedPort "clk", "file m.sv"⟩] ∧
      strictSample.countP opensScope = 3 ∧
      ExactReports "" "m.sv" strictSample
        (feedAll "" (.initial "m.sv" true) strictSample).state :=
  ⟨by decide, by decide, by decide, diagnostics_exact (Outcome.eq_of_fault (by decide))⟩

end DesignDoc.Assembly
