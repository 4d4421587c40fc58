import DesignDoc.Proofs.Assembly.Flow
import DesignDoc.Proofs.Assembly.Forest
import DesignDoc.Proofs.Assembly.Reports

/-! Items that document a port or a parameter by its name. Such an item waits until something is
closed. It is then written to the first port or parameter of its name, or reported if there is none,
and strict assembly reports each of the latter once. Only parameters come between: what waits when
they are declared is used up, and an item among it is neither written nor reported. -/

namespace DesignDoc.Assembly

open DesignDoc.Annotation DesignDoc.Document DesignDoc.Event DesignDoc.Json

/-! ### An item at its turn -/

/-- One list comes from another by a change of the first member of a name. -/
def FirstChanged {α : Type} (nameOf : α → String) (name : String) (f : α → α)
    (as bs : List α) : Prop :=
  ∃ l a r, as = l ++ a :: r ∧ nameOf a = name ∧ (∀ b ∈ l, nameOf b ≠ name) ∧ bs = l ++ f a :: r

/-- An item is written: the first port or parameter of its name takes its text, and all others stay
as they are. -/
def Written (b b' : Body) : Item → Prop
  | .named .port name text =>
    FirstChanged Port.name name ({ · with description := text }) b.ports b'.ports ∧
      b'.parameters = b.parameters
  | .named .param name text =>
    FirstChanged Parameter.name name ({ · with description := text }) b.parameters b'.parameters ∧
      b'.ports = b.ports
  | _ => False

/-- The complaint about an item that names no port or parameter of a body. -/
def unmatched? (b : Body) : Item → Option Complaint
  | .named .port name _ =>
    if name ∈ b.ports.map (·.name) then none else some (.unmatchedPort name)
  | .named .param name _ =>
    if name ∈ b.parameters.map (·.name) then none else some (.unmatchedParameter name)
  | _ => none

/-- What becomes of an item that comes after others among the items of a body: either it is written
and there is no complaint about it, or there is one and nothing is written. -/
def Settled (b : Body) (before : List Item) (i : Item) : Prop :=
  let b₁ := associateBody { b with items := before }
  let b₂ := associateBody { b with items := before ++ [i] }
  (Written b₁ b₂ i ∧ unmatched? b i = none) ∨
    (b₂.ports = b₁.ports ∧ b₂.parameters = b₁.parameters ∧ (unmatched? b i).isSome = true)

theorem updateFirst_cases {α : Type} (nameOf : α → String) (name : String) (f : α → α)
    (as : List α) :
    (name ∈ as.map nameOf ∧
      FirstChanged nameOf name f as (updateFirst (nameOf · = name) f as)) ∨
    (name ∉ as.map nameOf ∧ updateFirst (nameOf · = name) f as = as) := by
  induction as with
  | nil => exact .inr ⟨by simp, rfl⟩
  | cons a as ih =>
    by_cases ha : nameOf a = name
    · exact .inl ⟨by simp [ha], [], a, as, rfl, ha, by simp, by simp [updateFirst, ha]⟩
    obtain ⟨hm, l, b, r, rfl, hb, hl, hu⟩ | ⟨hm, hu⟩ := ih
    · refine .inl ⟨List.mem_cons_of_mem _ hm, a :: l, b, r, rfl, hb, ?_, ?_⟩
      · intro c hc
        rcases List.mem_cons.mp hc with rfl | hc
        · exact ha
        · exact hl c hc
      · simp [updateFirst, ha, hu]
    · refine .inr ⟨?_, by simp [updateFirst, ha, hu]⟩
      rw [List.map_cons, List.mem_cons, not_or]
      exact ⟨Ne.symm ha, hm⟩

theorem map_name_describePorts (items : List Item) (ports : List Port) :
    (describePorts items ports).map (·.name) = ports.map (·.name) := by
  have h := congrArg (List.map (·.name)) (map_bare_describePorts items ports)
  simpa [Port.bare, Function.comp_def] using h

theorem map_name_describeParameters (items : List Item) (parameters : List Parameter) :
    (describeParameters items parameters).map (·.name) = parameters.map (·.name) := by
  have h := congrArg (List.map (·.name)) (map_bare_describeParameters items parameters)
  simpa [Parameter.bare, Function.comp_def] using h

/-- Every item with a name is settled, whatever comes before it. -/
theorem settled_of_isNameDoc (b : Body) (before : List Item) {i : Item}
    (h : i.isNameDoc = true) : Settled b before i := by
  cases i with
  | named tag name text =>
    cases tag with
    | port =>
      have hq : describeParameters (before ++ [.named .port name text]) b.parameters =
          describeParameters before b.parameters := by
        simp [describeParameters, describeParameter]
      have hp : describePorts (before ++ [.named .port name text]) b.ports =
          updateFirst (·.name = name) ({ · with description := text })
            (describePorts before b.ports) := by
        simp [describePorts, describePort]
      have hn := map_name_describePorts before b.ports
      obtain ⟨hm, hw⟩ | ⟨hm, hu⟩ := updateFirst_cases Port.name name
        ({ · with description := text }) (describePorts before b.ports)
      · rw [← hp] at hw
        exact .inl ⟨⟨hw, hq⟩, by simp only [unmatched?, ← hn, hm, if_true]⟩
      · exact .inr ⟨hp.trans hu, hq, by simp only [unmatched?, ← hn, hm, if_false, Option.isSome]⟩
    | param =>
      have hp : describePorts (before ++ [.named .param name text]) b.ports =
          describePorts before b.ports := by
        simp [describePorts, describePort]
      have hq : describeParameters (before ++ [.named .param name text]) b.parameters =
          updateFirst (·.name = name) ({ · with description := text })
            (describeParameters before b.parameters) := by
        simp [describeParameters, describeParameter]
      have hn := map_name_describeParameters before b.parameters
      obtain ⟨hm, hw⟩ | ⟨hm, hu⟩ := updateFirst_cases Parameter.name name
        ({ · with description := text }) (describeParameters before b.parameters)
      · rw [← hq] at hw
        exact .inl ⟨⟨hw, hp⟩, by simp only [unmatched?, ← hn, hm, if_true]⟩
      · exact .inr ⟨hp, hq.trans hu, by simp only [unmatched?, ← hn, hm, if_false, Option.isSome]⟩
    | revision => cases h
    | state => cases h
  | _ => cases h

/-! ### Complaints about names -/

/-- Complaints about a name that nothing has. -/
def Complaint.isUnmatched (c : Complaint) : Bool :=
  c.kind = "unmatched-port-doc" || c.kind = "unmatched-param-doc"

/-- There is one complaint for each item whose name nothing has, in the order of the items. -/
theorem filter_isUnmatched_complaints (b : Body) (grouped : Bool) (items : List Item) :
    (complaints (b.ports.map (·.name)) (b.parameters.map (·.name)) grouped items).filter
      Complaint.isUnmatched = items.filterMap (unmatched? b) := by
  have hport (name : String) : (Complaint.unmatchedPort name).isUnmatched = true := rfl
  have hparam (name : String) : (Complaint.unmatchedParameter name).isUnmatched = true := rfl
  have hstate : Complaint.orphanState.isUnmatched = false := rfl
  have htransition : Complaint.orphanTransition.isUnmatched = false := rfl
  induction items generalizing grouped with
  | nil => rfl
  | cons i items ih =>
    rw [List.filterMap_cons]
    cases i with
    | named tag name text =>
      cases tag with
      | port =>
        by_cases h : name ∈ b.ports.map (·.name) <;>
          simp only [complaints, unmatched?, h, if_true, if_false, List.filter_cons, hport, ih,
            List.nil_append, List.cons_append]
      | param =>
        by_cases h : name ∈ b.parameters.map (·.name) <;>
          simp only [complaints, unmatched?, h, if_true, if_false, List.filter_cons, hparam, ih,
            List.nil_append, List.cons_append]
      | revision => simp [complaints, unmatched?, ih]
      | state => cases grouped <;> simp [complaints, unmatched?, hstate, ih]
    | transition => cases grouped <;> simp [complaints, unmatched?, htransition, ih]
    | simple tag text => cases tag <;> simp [complaints, unmatched?, ih]
    | plain => simp [complaints, unmatched?, ih]

theorem filter_isUnmatched_reports (c : Closing) :
    c.reports.filter (·.complaint.isUnmatched) =
      (c.body.items.filterMap (unmatched? c.body)).map (⟨·, c.title⟩) := by
  rw [← filter_isUnmatched_complaints c.body false, Closing.reports, bodyComplaints,
    List.filter_map]
  rfl

/-! ### Items on their way -/

variable {ν : Type} [Inspect ν] {source : String}

/-- The items with a name that have come to something that is closed. -/
def Closing.nameDocs (c : Closing) : List Item := c.body.items.filter Item.isNameDoc

/-- The items with a name that parameters use up. -/
def Stage.discarded (x : Stage ν) : List Item :=
  match x.effect with
  | .parameters => x.state.pending.filter Item.isNameDoc
  | .signals _ | .closes _ | .none => []

theorem filter_isNameDoc_settled (a : Scope) :
    (a.element.body.items ++ a.pending).filter Item.isNameDoc =
      a.settled.body.items.filter Item.isNameDoc := by
  rw [Scope.settled, Element.body_mapBody, List.filter_append, List.filter_append,
    List.filter_filter]
  congr 1
  apply List.filter_congr
  intro i _
  cases i with
  | simple tag text => cases tag <;> rfl
  | _ => simp [Item.isSummary, Item.summary?, Item.isNameDoc]

namespace Stage

/-- An item with a name waits until a scope is closed or parameters are declared. -/
theorem filter_isNameDoc_released (x : Stage ν) :
    x.released.filter Item.isNameDoc =
      x.closing?.toList.flatMap Closing.nameDocs ++ x.discarded := by
  obtain he | ⟨-, -, he⟩ | ⟨-, -, he⟩ | ⟨a, rest, -, hs, he⟩ := effect_cases x
  · simp [released, closing?, discarded, he]
  · simp [released, closing?, discarded, he]
  · -- Signals leave these items alone.
    have hn : (x.state.pending.filter (! ·.isScopeItem)).filter Item.isNameDoc = [] := by
      rw [List.filter_filter, List.filter_eq_nil_iff]
      intro i _
      cases hi : i.isNameDoc <;> simp [Item.isScopeItem, hi]
    simp [released, closing?, discarded, he, hn]
  · rw [released, he, filter_isNameDoc_settled]
    simp [closing?, discarded, he, Closing.nameDocs, Closing.body]

theorem discarded_of_leave {x : Stage ν} (h : x.event.phase = .leave) : x.discarded = [] := by
  obtain he | ⟨a, he⟩ := effect_of_leave h <;> simp [discarded, he]

end Stage

section Traced

variable {s u : State} {es : List (Event ν)} {name : String} {strict : Bool}

/-- The end of a stream uses up nothing. -/
theorem discarded_append_ends (h : feedAll source s es = ⟨u, none⟩) :
    (stages source s (es ++ u.ends)).flatMap Stage.discarded =
      (stages source s es).flatMap Stage.discarded := by
  have hends : (stages source u (u.ends : List (Event ν))).flatMap Stage.discarded = [] :=
    List.flatMap_eq_nil_iff.mpr fun x hx =>
      Stage.discarded_of_leave (leave_of_mem_stages_ends hx)
  rw [stages_append h, List.flatMap_append, hends, List.append_nil]

/-- Every item with a name comes to something that is closed, unless parameters use it up. -/
theorem nameDocs_closingsOf (h : feedAll source (.initial name strict) es = ⟨u, none⟩) :
    ((closingsOf source (.initial name strict) es).flatMap Closing.nameDocs ++
      (stages source (.initial name strict) es).flatMap Stage.discarded).Perm
        ((es.flatMap itemsOf).filter Item.isNameDoc) := by
  have hend := feedAll_append_ends h
  obtain ⟨ms, hf⟩ := file_of_run hend
  have hfile : u.closeAll.fileClosing.nameDocs = u.closeAll.filePending.filter Item.isNameDoc := by
    simp [State.fileClosing, Closing.nameDocs, Closing.body, hf]
  have hwait := (filePending_append_released hend u.scopes_closeAll).filter Item.isNameDoc
  rw [flatMap_itemsOf_append_ends, List.filter_append, List.filter_flatMap] at hwait
  simp only [Stage.filter_isNameDoc_released] at hwait
  rw [closingsOf_eq h, List.flatMap_append, List.flatMap_singleton, hfile,
    List.filterMap_eq_flatMap_toList, List.flatMap_assoc, ← discarded_append_ends h]
  refine (List.perm_append_comm.append_right _).trans ?_
  rw [List.append_assoc]
  exact ((List.flatMap_append_perm _ _ _).append_left _).trans hwait

/-- What becomes of the items with a name. -/
structure NameDocsTraced (source : String) (s u : State) (es : List (Event ν)) : Prop where
  /-- Each of them comes to something that is closed, unless parameters use it up. -/
  reached : ((closingsOf source s es).flatMap Closing.nameDocs ++
    (stages source s es).flatMap Stage.discarded).Perm ((es.flatMap itemsOf).filter Item.isNameDoc)
  /-- They are settled there one after the other. -/
  settled : ∀ c ∈ closingsOf source s es, ∀ before i after,
    c.body.items = before ++ i :: after → i.isNameDoc = true → Settled c.body before i
  /-- Each of them that names nothing is reported once, and no other name is. -/
  reported : u.finish.diagnostics.filter (·.complaint.isUnmatched) =
    (closingsOf source s es).flatMap fun c =>
      (c.body.items.filterMap (unmatched? c.body)).map (⟨·, c.title⟩)
  /-- The records they are written to are in the file, but for routines outside of all modules. -/
  filed : ∀ e, .scope e true ∈ closingsOf source s es →
    Filed u.finish.file e.associate ∧ e.associate.body = associateBody e.body

/-- In a strict run every item with a name is written or reported, unless parameters use it up. -/
theorem name_docs_traced (h : feedAll source (.initial name true) es = ⟨u, none⟩) :
    NameDocsTraced source (.initial name true) u es where
  reached := nameDocs_closingsOf h
  settled := fun c _ before _ _ _ hi => settled_of_isNameDoc c.body before hi
  reported := by
    rw [diagnostics_finish h, List.filter_flatMap]
    simp only [filter_isUnmatched_reports]
  filed := fun _ he => filed_of_mem_closingsOf h he

/-- Ports and parameters that are documented before and in a module and in a task. One of them is
documented twice, two items name nothing, and one is used up by a parameter. -/
def namedSample : List (Event Recording.Node) :=
  Recording.build
    [.comment (.str "/** @param W width\n@port clk some clock */"), .enterModule (.str "m"),
     .parameter [.str "W"] .null .null .null, .ansiPort (.str "clk") .null .null .null,
     .comment (.str "/** @port clk local clock\n@port rst no such port */"),
     .enterRoutine true (.str "f"), .ansiPort (.str "clk") .null .null .null, .leaveRoutine true,
     .comment (.str "//* @param D lost"), .parameter [.str "D"] .null .null .null,
     .comment (.str "//* @port clk the clock"), .signal [.str "s"] .null [], .leaveModule,
     .comment (.str "//* @param W too late")]

theorem name_docs_traced_namedSample :
    (feedAll "" (.initial "m.sv" true) namedSample).fault = none ∧
      (stages "" (.initial "m.sv" true) namedSample).flatMap Stage.discarded =
        [.named .param "D" "lost"] ∧
      (feedAll "" (.initial "m.sv" true) namedSample).state.finish.diagnostics =
        [⟨.unmatchedPort "rst", "function f"⟩, ⟨.unmatchedParameter "W", "file m.sv"⟩] ∧
      NameDocsTraced "" (.initial "m.sv" true)
        (feedAll "" (.initial "m.sv" true) namedSample).state namedSample :=
  ⟨by decide, by decide, by decide, name_docs_traced (Outcome.eq_of_fault (by decide))⟩

/-- A port that is documented right before a parameter. -/
def discardSample : List (Event Recording.Node) :=
  Recording.build
    [.enterModule (.str "m"), .ansiPort (.str "clk") .null .null .null,
     .comment (.str "//* @port clk Clock input"), .parameter [.str "W"] (.str "8") .null .null,
     .leaveModule]

/-- Strict assembly drops this item: it comes to nothing that is closed, the port has no
description, and nothing is reported. -/
theorem parameters_discard_port_doc :
    (feedAll "" (.initial "m.sv" true) discardSample).fault = none ∧
      discardSample.flatMap itemsOf = [.named .port "clk" "Clock input"] ∧
      (closingsOf "" (.initial "m.sv" true) discardSample).flatMap Closing.nameDocs = [] ∧
      (feedAll "" (.initial "m.sv" true) discardSample).state.finish.diagnostics = [] ∧
      (feedAll "" (.initial "m.sv" true) discardSample).state.finish.file.modules.map
        (·.ports.map fun p => (p.name, p.description)) = [[("clk", "")]] := by
  decide

end Traced

end DesignDoc.Assembly
