import DesignDoc.Proofs.Assembly.Diagnostics

/-! States without a machine. Two scans look for them: strict assembly, when it closes a scope, and
the grouping of items into machines, which passes over them. They agree on every list, also though
the first sees the items before they are distributed and the second only what is left. So the
reports about the modules of a document count the items of these modules that belong to no machine.
The items of signals are grouped as well, but nothing is reported about them. -/

namespace DesignDoc.Document

open DesignDoc.Annotation

/-! ### Items that the grouping passes over -/

/-- The items about states that are read while no machine is open; the argument holds the machines
that are open so far, as the grouping does. -/
def ignoredFrom (machines : List StateMachine) : List Item → List Item
  | [] => []
  | i :: items =>
    if machines.isEmpty && i.isStateItem then i :: ignoredFrom (groupStep machines i) items
    else ignoredFrom (groupStep machines i) items

/-- The items about states that belong to no machine of a list. -/
def ignoredItems (items : List Item) : List Item := ignoredFrom [] items

/-- The items of a module and of its signals that belong to none of its machines. -/
def Module.ignoredItems (m : Module) : List Item :=
  Document.ignoredItems m.items ++ m.signals.flatMap fun s => Document.ignoredItems s.items

/-- A machine is open once there was a start. -/
theorem isEmpty_groupStep (machines : List StateMachine) (i : Item) :
    (groupStep machines i).isEmpty = (machines.isEmpty && ! i.isMachineStart) := by
  have h := length_groupStep machines i
  cases hi : i.isMachineStart <;> cases hm : machines <;> cases hg : groupStep machines i <;>
    simp_all

theorem ignoredFrom_of_open {machines : List StateMachine} (h : machines.isEmpty = false)
    (items : List Item) : ignoredFrom machines items = [] := by
  induction items generalizing machines with
  | nil => rfl
  | cons i items ih =>
    have hstep : (groupStep machines i).isEmpty = false := by simp [isEmpty_groupStep, h]
    rw [ignoredFrom, ih hstep, h]
    simp

/-- What belongs to no machine comes before the first start. -/
theorem ignoredItems_eq_takeWhile (items : List Item) :
    ignoredItems items = (items.takeWhile (! ·.isMachineStart)).filter Item.isStateItem := by
  unfold ignoredItems
  induction items with
  | nil => rfl
  | cons i items ih =>
    rw [ignoredFrom]
    cases hi : i.isMachineStart with
    | true =>
      have hstate : i.isStateItem = false := by
        cases i with
        | simple => rfl
        | _ => cases hi
      have hopen : (groupStep [] i).isEmpty = false := by simp [isEmpty_groupStep, hi]
      simp [hi, hstate, ignoredFrom_of_open hopen]
    | false =>
      have hnone : groupStep [] i = [] := by
        rw [← List.isEmpty_iff, isEmpty_groupStep, hi]
        rfl
      rw [hnone, ih, List.takeWhile_cons_of_pos (by simp [hi]), List.filter_cons]
      rfl

/-- Only starts and items about states matter. -/
theorem ignoredFrom_filter {p : Item → Bool} (hs : ∀ i, i.isMachineStart = true → p i = true)
    (hp : ∀ i, i.isStateItem = true → p i = true) (items : List Item)
    {machines machines' : List StateMachine} (hm : machines.isEmpty = machines'.isEmpty) :
    ignoredFrom machines (items.filter p) = ignoredFrom machines' items := by
  induction items generalizing machines machines' with
  | nil => rfl
  | cons i items ih =>
    cases hi : p i with
    | true =>
      have hstep : (groupStep machines i).isEmpty = (groupStep machines' i).isEmpty := by
        rw [isEmpty_groupStep, isEmpty_groupStep, hm]
      rw [List.filter_cons_of_pos hi, ignoredFrom, ignoredFrom, ih hstep, hm]
    | false =>
      have hstart : i.isMachineStart = false := by
        cases h : i.isMachineStart with
        | true => simp [hs i h] at hi
        | false => rfl
      have hstate : i.isStateItem = false := by
        cases h : i.isStateItem with
        | true => simp [hp i h] at hi
        | false => rfl
      have hstep : machines.isEmpty = (groupStep machines' i).isEmpty := by
        simp [isEmpty_groupStep, hstart, hm]
      rw [List.filter_cons_of_neg (by simp [hi]), ih hstep, ignoredFrom]
      simp [hstate]

end DesignDoc.Document

namespace DesignDoc.Assembly

open DesignDoc.Annotation DesignDoc.Document DesignDoc.Event DesignDoc.Json

/-! ### The two scans -/

def Complaint.isOrphan (c : Complaint) : Bool := c.kind = "orphan-state-item"

/-- A complaint about a name is none about a state. -/
theorem isOrphan_of_unmatched? {b : Body} {i : Item} {c : Complaint}
    (h : unmatched? b i = some c) : c.isOrphan = false ∧ i.isStateItem = false := by
  unfold unmatched? at h
  split at h
  · split at h
    · cases h
    · cases h
      exact ⟨rfl, rfl⟩
  · split at h
    · cases h
    · cases h
      exact ⟨rfl, rfl⟩
  · cases h

theorem filter_isOrphan_judged (b : Body) (grouped : Bool) (i : Item) :
    (unmatched? b i <|> orphan? grouped i).toList.filter Complaint.isOrphan =
      if ! grouped && i.isStateItem then [orphanOf i] else [] := by
  cases hu : unmatched? b i with
  | some c =>
    obtain ⟨hc, hi⟩ := isOrphan_of_unmatched? hu
    simp [hc, hi]
  | none =>
    have ho : (orphanOf i).isOrphan = true := by cases i <;> rfl
    have hn : (none <|> orphan? grouped i) = orphan? grouped i := rfl
    rw [hn, orphan?, Bool.and_comm]
    split <;> simp [ho]

/-- There is one complaint for each item that the grouping passes over, in their order. -/
theorem filter_isOrphan_complaints (b : Body) (machines : List StateMachine) (items : List Item) :
    (complaints (b.ports.map (·.name)) (b.parameters.map (·.name)) (! machines.isEmpty)
      items).filter Complaint.isOrphan = (ignoredFrom machines items).map orphanOf := by
  induction items generalizing machines with
  | nil => rfl
  | cons i items ih =>
    -- The flag of one scan and the machines of the other go along.
    have hopen : (! machines.isEmpty || i.isMachineStart) = ! (groupStep machines i).isEmpty := by
      simp [isEmpty_groupStep]
    rw [complaints_cons, hopen, List.filter_append, ih, filter_isOrphan_judged, Bool.not_not,
      ignoredFrom]
    split <;> simp

/-- Distributing the items of a scope takes away neither starts nor items about states. -/
theorem ignoredItems_filter_isKept (items : List Item) :
    ignoredItems (items.filter isKept) = ignoredItems items := by
  have hs : ∀ i : Item, i.isMachineStart = true → isKept i = true := by
    intro i hi
    cases i with
    | simple tag text => cases tag <;> first | rfl | cases hi
    | _ => cases hi
  have hp : ∀ i : Item, i.isStateItem = true → isKept i = true := by
    intro i hi
    cases i with
    | named tag name text => cases tag <;> first | rfl | cases hi
    | transition => rfl
    | _ => cases hi
  exact ignoredFrom_filter hs hp items rfl

/-! ### Modules that are closed -/

/-- Whether a report is about a module. -/
def Diagnostic.isOfModule (d : Diagnostic) : Bool := "module ".toList.isPrefixOf d.scope.toList

namespace Closing

/-- A module that is closed, as it comes to the file. -/
def module? : Closing → Option Module
  | scope (.module m) _ => some (associateModule m)
  | scope (.routine _) _ | file _ => none

/-- The titles of modules are told from all others. -/
theorem isOfModule_title (c : Closing) (x : Complaint) :
    (⟨x, c.title⟩ : Diagnostic).isOfModule = c.module?.isSome := by
  cases c with
  | file f => simp [Diagnostic.isOfModule, title, module?, File.title, List.isPrefixOf]
  | scope e inModule =>
    cases e with
    | module m => simp [Diagnostic.isOfModule, title, module?, Element.title, Module.title]
    | routine r =>
      cases hf : r.isFunction <;>
        simp [Diagnostic.isOfModule, title, module?, Element.title, Routine.title, hf,
          List.isPrefixOf]

end Closing

/-- The reports about the items of a module that belong to no machine. -/
def orphanReports (m : Module) : List Diagnostic :=
  (Document.ignoredItems m.items).map fun i => ⟨orphanOf i, m.title⟩

/-- Orphans in a module are reported as the grouping of its final items has them. -/
theorem Closing.filter_isOrphan_reports (c : Closing) :
    c.reports.filter (fun d => d.complaint.isOrphan && d.isOfModule) =
      c.module?.toList.flatMap orphanReports := by
  have hm : c.reports.filter (fun d => d.complaint.isOrphan && d.isOfModule) =
      ((bodyComplaints c.body).filter fun x => x.isOrphan && c.module?.isSome).map
        (⟨·, c.title⟩) := by
    rw [reports, List.filter_map]
    simp only [Function.comp_def, isOfModule_title]
  have ho : (bodyComplaints c.body).filter Complaint.isOrphan =
      (Document.ignoredItems c.body.items).map orphanOf :=
    filter_isOrphan_complaints c.body [] c.body.items
  rw [hm]
  cases hc : c.module? with
  | none => simp
  | some m =>
    have hitems : Document.ignoredItems m.items = Document.ignoredItems c.body.items ∧
        m.title = c.title := by
      unfold module? at hc
      split at hc
      · cases hc
        exact ⟨ignoredItems_filter_isKept _, rfl⟩
      all_goals cases hc
    simp [ho, orphanReports, hitems, Function.comp_def]

section Modules

variable {ν : Type} [Inspect ν] {source : String} {s t : State} {e : Event ν} {es : List (Event ν)}

/-- A module comes to the file when it is closed. -/
theorem modules_of_step (h : Step s e t) :
    t.file.modules = s.file.modules ++
      ((⟨s, e⟩ : Stage ν).closing?.bind Closing.module?).toList := by
  cases h with
  | comment => simp [Stage.closing?, Stage.effect]
  | opens k => simp [Stage.closing?_of_none (effect_enter k)]
  | @closes k n top rest htop hk =>
    have hc : (⟨s, ⟨.leave, k.kind, n⟩⟩ : Stage ν).closing? =
        some (.scope top.settled s.inModule) := by
      rw [Stage.closing?, effect_closes htop hk]
    rw [hc]
    cases ht : top.settled <;>
      simp [State.closeTop, htop, ht, State.place, Element.associate, Closing.module?]
  | ignores k n hn => simp [Stage.closing?_of_none (effect_ignores hn)]
  | ports hk => simp [Stage.closing?_of_none (effect_ports hk), State.addPorts]
  | parameters => simp [Stage.closing?, Stage.effect, State.addParameters]
  | signals hd ht =>
    obtain ⟨width, -, rfl⟩ := addSignals_eq_ok.mp ht
    simp [Stage.closing?, effect_signals hd]
  | idle hi => simp [Stage.closing?_of_none (effect_idle hi)]

theorem modules_of_run (h : feedAll source s es = ⟨t, none⟩) :
    t.file.modules = s.file.modules ++
      ((stages source s es).filterMap Stage.closing?).filterMap Closing.module? := by
  induction es generalizing s with
  | nil =>
    obtain rfl : s = t := congrArg Outcome.state h
    simp [stages]
  | cons e es ih =>
    obtain ⟨a, ha, hr⟩ := feedAll_cons_iff.mp h
    have hm := modules_of_step (step_of_feed ha)
    rw [ih hr, hm, stages_cons ha, List.filterMap_cons, List.append_assoc]
    cases hc : (⟨s, e⟩ : Stage ν).closing? with
    | none => simp
    | some c => cases hx : c.module? <;> simp [hx]

/-- The modules of a document are those that are closed, in order. -/
theorem modules_finish_eq {name : String} {strict : Bool} {u : State}
    (h : feedAll source (.initial name strict) es = ⟨u, none⟩) :
    u.finish.file.modules =
      (closingsOf source (.initial name strict) es).filterMap Closing.module? := by
  have hu : u.Running := running_of_run h (State.running_initial name strict)
  have hm := modules_of_run (feedAll_append_ends h)
  have hinit : (State.initial name strict).file.modules = [] := rfl
  have hfile : u.closeAll.fileClosing.module? = none := rfl
  rw [hu.modules_finish, hm, hinit, closingsOf_eq h, List.filterMap_append, List.filterMap_cons,
    hfile]
  simp

/-- The reports about states in modules are those about the items of each module that belong to no
machine of it, module by module. -/
theorem filter_isOrphan_diagnostics {name : String} {u : State}
    (h : feedAll source (.initial name true) es = ⟨u, none⟩) :
    u.finish.diagnostics.filter (fun d => d.complaint.isOrphan && d.isOfModule) =
      u.finish.file.modules.flatMap orphanReports := by
  rw [diagnostics_finish h, modules_finish_eq h, List.filter_flatMap]
  simp only [Closing.filter_isOrphan_reports]
  rw [List.filterMap_eq_flatMap_toList, List.flatMap_assoc]

/-- The reports about states in modules count the items of all modules that belong to no machine,
which are those about states that no start precedes. -/
theorem orphans_counted {name : String} {u : State}
    (h : feedAll source (.initial name true) es = ⟨u, none⟩) :
    (u.finish.diagnostics.filter fun d => d.kind = "orphan-state-item" && d.isOfModule).length =
      (u.finish.file.modules.map fun m => (Document.ignoredItems m.items).length).sum ∧
    ∀ m ∈ u.finish.file.modules, Document.ignoredItems m.items =
      (m.items.takeWhile (! ·.isMachineStart)).filter Item.isStateItem := by
  refine ⟨?_, fun m _ => ignoredItems_eq_takeWhile m.items⟩
  have hd := congrArg List.length (filter_isOrphan_diagnostics h)
  simp only [List.length_flatMap, orphanReports, List.length_map] at hd
  exact hd

/-- States before a module, in a task, before and after a start in a module, on a signal, at the end
of a module, and after all modules. -/
def orphanSample : List (Event Recording.Node) :=
  Recording.build
    [.comment (.str "/** @state EARLY none\n@port clk none */"), .enterModule (.str "a"),
     .comment (.str "/** @A -> B none\n@fsm main\n@state IDLE waits */"),
     .enterRoutine false (.str "t"), .leaveRoutine false,
     .comment (.str "/** @B -> C none\n@fsm late\n@state RUN runs */"), .leaveModule,
     .enterModule (.str "b"), .comment (.str "//* @state LOST none"),
     .signal [.str "s"] .null [], .comment (.str "//* @state KEPT none"), .leaveModule,
     .comment (.str "//* @state LAST none")]

theorem orphans_counted_orphanSample :
    (feedAll "" (.initial "m.sv" true) orphanSample).fault = none ∧
      (feedAll "" (.initial "m.sv" true) orphanSample).state.finish.file.modules.map
        (fun m => (Document.ignoredItems m.items).length) = [2, 1] ∧
      ((feedAll "" (.initial "m.sv" true) orphanSample).state.finish.diagnostics.filter fun d =>
        d.kind = "orphan-state-item" && d.isOfModule).length =
          ((feedAll "" (.initial "m.sv" true) orphanSample).state.finish.file.modules.map fun m =>
            (Document.ignoredItems m.items).length).sum :=
  ⟨by decide, by decide, (orphans_counted (Outcome.eq_of_fault (by decide))).1⟩

/-- A state that is documented before a signal, outside of all machines. -/
def signalOrphanSample : List (Event Recording.Node) :=
  Recording.build
    [.enterModule (.str "m"), .comment (.str "//* @state IDLE waits"),
     .signal [.str "s"] .null [], .leaveModule]

/-- The signal takes it, no machine has it, and nothing is reported. -/
theorem signal_orphan_unreported :
    (feedAll "" (.initial "m.sv" true) signalOrphanSample).fault = none ∧
      (feedAll "" (.initial "m.sv" true) signalOrphanSample).state.finish.diagnostics = [] ∧
      (feedAll "" (.initial "m.sv" true) signalOrphanSample).state.finish.file.modules.flatMap
        Module.ignoredItems = [.named .state "IDLE" "waits"] ∧
      ¬ ((feedAll "" (.initial "m.sv" true) signalOrphanSample).state.finish.diagnostics.filter
        fun d => d.kind = "orphan-state-item" && d.isOfModule).length =
          ((feedAll "" (.initial "m.sv" true) signalOrphanSample).state.finish.file.modules.map
            fun m => m.ignoredItems.length).sum := by
  decide

end Modules

end DesignDoc.Assembly
