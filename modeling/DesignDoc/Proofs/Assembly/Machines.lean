import DesignDoc.Proofs.Assembly.Flow
import DesignDoc.Proofs.Document.Grouping

/-! State machines and the items that open them. A list of items has as many machines as there are
starts in it, and a module groups its own items and those of the signals that are declared directly
in it. The machines of a document are thus counted exactly by the starts that come to these lists.
A start comes to one of them at most, with one exception: if several signals of a module are
declared at once, each of them takes the start that waits. All machines are therefore bounded by the
starts that were read and these copies. -/

namespace DesignDoc.Document

open DesignDoc.Annotation

/-! ### Machines in lists of items -/

/-- The starts among the items of some signals. -/
def signalStarts (signals : List Signal) : Nat :=
  (signals.map fun s => s.items.countP Item.isMachineStart).sum

theorem signalStarts_append (xs ys : List Signal) :
    signalStarts (xs ++ ys) = signalStarts xs + signalStarts ys := by
  simp [signalStarts]

theorem Module.length_stateMachines_eq (m : Module) :
    m.stateMachines.length = m.items.countP Item.isMachineStart + signalStarts m.signals := by
  simp [Module.stateMachines, signalStarts, List.length_flatMap, length_stateMachines]

end DesignDoc.Document

namespace DesignDoc.Assembly

open DesignDoc.Annotation DesignDoc.Document DesignDoc.Event DesignDoc.Json

/-! ### Starts in lists that are grouped -/

/-- The starts among the items that an open record groups already: those of the signals of a
module. The items of the module itself are not settled, and a routine groups nothing. -/
def Element.groupedStarts : Element → Nat
  | .module m => signalStarts m.signals
  | .routine _ => 0

theorem Element.groupedStarts_mapBody {f : Body → Body} {sigs : List Signal}
    (hf : ∀ b, (f b).signals = b.signals ++ sigs) (e : Element) :
    (e.mapBody f).groupedStarts =
      e.groupedStarts + if e.isModule then signalStarts sigs else 0 := by
  cases e with
  | module m =>
    rw [Element.mapBody, Element.groupedStarts, hf, signalStarts_append]
    rfl
  | routine r => rfl

/-- A routine has no machines, whatever its items say. -/
def Element.machines : Element → List StateMachine
  | .module m => m.stateMachines
  | .routine _ => []

/-- A module has a machine for each start of its signals and for each start that it keeps when it
is closed. -/
theorem length_machines_settled (a : Scope) :
    a.settled.associate.machines.length = a.element.groupedStarts +
      if a.element.isModule then (a.settled.body.items.filter isKept).countP Item.isMachineStart
      else 0 := by
  obtain ⟨e, pending⟩ := a
  cases e with
  | module m => exact (Module.length_stateMachines_eq _).trans (Nat.add_comm _ _)
  | routine r => rfl

namespace State

/-- Whether the innermost open scope is a module. -/
def inModuleBody (s : State) : Bool := s.scopes.head?.any (·.element.isModule)

/-- The starts in lists that are grouped, in open modules and in those of the file. -/
def groupedStarts (s : State) : Nat :=
  (s.scopes.map (·.element.groupedStarts)).sum +
    (s.file.modules.map fun m => m.stateMachines.length).sum

variable {s : State} {top : Scope} {rest : List Scope}

@[simp] theorem groupedStarts_setPending (items : List Item) :
    (s.setPending items).groupedStarts = s.groupedStarts := by
  unfold setPending
  split <;> simp [groupedStarts, *]

theorem groupedStarts_mapOwner {f : Body → Body} {sigs : List Signal}
    (hf : ∀ b, (f b).signals = b.signals ++ sigs) :
    (s.mapOwner f).groupedStarts =
      s.groupedStarts + if s.inModuleBody then signalStarts sigs else 0 := by
  cases h : s.scopes with
  | nil => simp [mapOwner, inModuleBody, h]
  | cons top rest =>
    have ht := top.element.groupedStarts_mapBody hf
    simp only [mapOwner, inModuleBody, groupedStarts, h, List.map_cons, List.sum_cons,
      List.head?_cons, Option.any_some, ht]
    omega

theorem groupedStarts_mapOwner_of_signals {f : Body → Body}
    (hf : ∀ b, (f b).signals = b.signals) : (s.mapOwner f).groupedStarts = s.groupedStarts := by
  have hs (b : Body) : (f b).signals = b.signals ++ [] := by rw [hf, List.append_nil]
  simp [groupedStarts_mapOwner hs, signalStarts]

theorem groupedStarts_addPorts (d : Declaration) :
    (s.addPorts d).groupedStarts = s.groupedStarts :=
  groupedStarts_mapOwner_of_signals fun _ => rfl

theorem groupedStarts_addParameters (d : Declaration) :
    (s.addParameters d).groupedStarts = s.groupedStarts := by
  rw [addParameters, groupedStarts_setPending]
  exact groupedStarts_mapOwner_of_signals fun _ => rfl

theorem groupedStarts_push (k : ScopeKind) (name : Value) :
    (s.push (k.element name)).groupedStarts = s.groupedStarts := by
  have hs : ((s.setPending []).scopes.map (·.element.groupedStarts)) =
      s.scopes.map (·.element.groupedStarts) := by
    unfold setPending
    split <;> simp [*]
  have hk (items : List Item) : ((k.element name).mapBody fun b =>
      { b with items := b.items ++ items }).groupedStarts = 0 := by
    cases k <;> rfl
  simp [push, groupedStarts, hs, hk]

/-- A routine that is filed brings no machines. -/
theorem map_groupedStarts_addTask (r : Routine) (scopes : List Scope) :
    (addTask r scopes).map (·.element.groupedStarts) =
      scopes.map (·.element.groupedStarts) := by
  induction scopes with
  | nil => rfl
  | cons scope scopes ih =>
    obtain ⟨e, pending⟩ := scope
    cases e with
    | module m => rfl
    | routine q => simp [addTask, ih]

/-- A record that is closed has its machines from then on. -/
theorem groupedStarts_closeTop (h : s.scopes = top :: rest) :
    s.closeTop.groupedStarts + top.element.groupedStarts =
      s.groupedStarts + top.settled.associate.machines.length := by
  cases hr : top.settled.associate with
  | module m =>
    obtain ⟨hs, hf⟩ := closeTop_module h (by rw [record?_of_scopes h, hr])
    rw [groupedStarts, groupedStarts, hs, hf, h]
    simp only [List.map_append, List.map_cons, List.map_nil, List.sum_append, List.sum_cons,
      List.sum_nil, Element.machines]
    omega
  | routine r =>
    obtain ⟨hs, hf⟩ := closeTop_routine h (by rw [record?_of_scopes h, hr])
    rw [groupedStarts, groupedStarts, hs, hf, h, map_groupedStarts_addTask]
    simp only [List.map_cons, List.sum_cons, Element.machines, List.length_nil]
    omega

end State

variable {ν : Type} [Inspect ν] {source : String}

/-- What several signals take is at most what is released to them and the copies. -/
theorem mul_countP_taken_le (count : Nat) (items : List Item) :
    count * (items.filter fun i => ! i.isSummary && ! i.isScopeItem).countP Item.isMachineStart ≤
      (items.filter (! ·.isScopeItem)).countP Item.isMachineStart +
        (count - 1) * items.countP Item.isMachineStart := by
  have hkeep : (items.filter fun i => ! i.isSummary && ! i.isScopeItem).countP
      Item.isMachineStart ≤ (items.filter (! ·.isScopeItem)).countP Item.isMachineStart := by
    rw [← List.filter_filter]
    exact List.filter_sublist.countP_le
  have hall : (items.filter (! ·.isScopeItem)).countP Item.isMachineStart ≤
      items.countP Item.isMachineStart := List.filter_sublist.countP_le
  cases count with
  | zero => simp
  | succ n =>
    have hn := Nat.mul_le_mul_left n (hkeep.trans hall)
    rw [Nat.succ_mul, Nat.add_sub_cancel]
    omega

namespace Stage

/-- The starts that an event brings to lists that are grouped. -/
def groupedStarts (x : Stage ν) : Nat :=
  if x.state.inModuleBody then x.stored.flatten.countP Item.isMachineStart else 0

/-- How often starts are stored once more than they wait: each signal of a declaration in a module
but one takes all of them again. -/
def copiedStarts (x : Stage ν) : Nat :=
  match x.effect with
  | .signals count =>
    if x.state.inModuleBody then (count - 1) * x.state.pending.countP Item.isMachineStart else 0
  | .parameters | .closes _ | .none => 0

theorem groupedStarts_of_none {x : Stage ν} (h : x.effect = .none) : x.groupedStarts = 0 := by
  simp [groupedStarts, stored_of_none h]

/-- An event brings the starts that it releases, and copies. -/
theorem groupedStarts_le (x : Stage ν) :
    x.groupedStarts ≤ x.released.countP Item.isMachineStart + x.copiedStarts := by
  unfold groupedStarts
  split
  · next hin =>
    obtain he | ⟨-, -, he⟩ | ⟨-, -, he⟩ | ⟨a, rest, -, hs, he⟩ := effect_cases x
    · simp [stored, he]
    · simp [stored, he]
    · generalize (if x.state.scopes.isEmpty then 0 else declaredCount x.event) = count at he
      simp only [stored, released, copiedStarts, he, hin, if_true, List.countP_flatten,
        List.map_replicate, List.sum_replicate_nat]
      exact mul_countP_taken_le count x.state.pending
    · have hle := (filter_isKept_settled_sublist a).countP_le (p := Item.isMachineStart)
      by_cases hm : x.state.inModule
      · simpa [stored, released, copiedStarts, he, hm] using hle
      · simp [stored, he, hm]
  · exact Nat.zero_le _

theorem copiedStarts_of_leave {x : Stage ν} (h : x.event.phase = .leave) : x.copiedStarts = 0 := by
  obtain he | ⟨a, he⟩ := effect_of_leave h <;> simp [copiedStarts, he]

end Stage

/-! ### Starts in a run -/

section Runs

variable {s t u : State} {e : Event ν} {es : List (Event ν)} {name : String} {strict : Bool}

/-- An event adds to the lists that are grouped what it stores in a module. -/
theorem groupedStarts_of_step (h : Step s e t) :
    t.groupedStarts = s.groupedStarts + (⟨s, e⟩ : Stage ν).groupedStarts := by
  cases h with
  | comment => rw [State.groupedStarts_setPending, Stage.groupedStarts_of_none rfl, Nat.add_zero]
  | opens k =>
    rw [State.groupedStarts_push, Stage.groupedStarts_of_none (effect_enter k), Nat.add_zero]
  | @closes k n top rest htop hk =>
    have hclose := State.groupedStarts_closeTop htop
    have hin : s.inModuleBody = top.element.isModule := by simp [State.inModuleBody, htop]
    have hx : (⟨s, ⟨.leave, k.kind, n⟩⟩ : Stage ν).groupedStarts =
        if top.element.isModule then
          (top.settled.body.items.filter isKept).countP Item.isMachineStart else 0 := by
      rw [Stage.groupedStarts, hin]
      split
      -- a module that is closed stands in a module: itself
      · next hm =>
        have hs : s.inModule := ⟨top, by simp [htop], hm⟩
        simp [Stage.stored, effect_closes htop hk, hs]
      · rfl
    rw [length_machines_settled] at hclose
    omega
  | ignores k n hn => rw [Stage.groupedStarts_of_none (effect_ignores hn), Nat.add_zero]
  | ports hk =>
    rw [State.groupedStarts_addPorts, Stage.groupedStarts_of_none (effect_ports hk), Nat.add_zero]
  | parameters =>
    simp [State.groupedStarts_addParameters, Stage.groupedStarts, Stage.stored, Stage.effect]
  | signals hd ht =>
    obtain ⟨width, -, rfl⟩ := addSignals_eq_ok.mp ht
    rw [State.groupedStarts_setPending, State.groupedStarts_mapOwner fun _ => rfl,
      Stage.groupedStarts, Stage.stored, effect_signals hd]
    cases hs : s.scopes with
    | nil => simp [State.inModuleBody, hs]
    | cons top rest =>
      simp [signalStarts, State.signalOf, Function.comp_def, List.countP_flatten]
  | idle hi => rw [Stage.groupedStarts_of_none (effect_idle hi), Nat.add_zero]

theorem groupedStarts_of_run (h : feedAll source s es = ⟨t, none⟩) :
    t.groupedStarts =
      s.groupedStarts + ((stages source s es).map Stage.groupedStarts).sum := by
  induction es generalizing s with
  | nil =>
    obtain rfl : s = t := congrArg Outcome.state h
    rfl
  | cons e es ih =>
    obtain ⟨a, ha, hr⟩ := feedAll_cons_iff.mp h
    rw [ih hr, groupedStarts_of_step (step_of_feed ha), stages_cons ha, List.map_cons,
      List.sum_cons, Nat.add_assoc]

/-- The machines of a document are the starts that its events bring to lists that are grouped. -/
theorem length_machines (h : feedAll source (.initial name strict) es = ⟨u, none⟩) :
    (u.finish.file.modules.flatMap Module.stateMachines).length =
      ((stages source (.initial name strict) (es ++ u.ends)).map Stage.groupedStarts).sum := by
  have hu : u.Running := running_of_run h (State.running_initial name strict)
  have hinit : (State.initial name strict).groupedStarts = 0 := rfl
  have hrun := groupedStarts_of_run (feedAll_append_ends h)
  rw [hinit, Nat.zero_add, State.groupedStarts, u.scopes_closeAll] at hrun
  rw [hu.modules_finish, ← hrun, List.length_flatMap]
  simp

/-- The end of a stream makes no copies. -/
theorem copiedStarts_append_ends (h : feedAll source s es = ⟨u, none⟩) :
    ((stages source s (es ++ u.ends)).map Stage.copiedStarts).sum =
      ((stages source s es).map Stage.copiedStarts).sum := by
  have hends : ((stages source u (u.ends : List (Event ν))).map Stage.copiedStarts).sum = 0 := by
    rw [List.sum_eq_zero_iff_forall_eq_nat]
    intro n hn
    obtain ⟨x, hx, rfl⟩ := List.mem_map.mp hn
    exact Stage.copiedStarts_of_leave (leave_of_mem_stages_ends hx)
  rw [stages_append h, List.map_append, List.sum_append, hends, Nat.add_zero]

/-- What stages bring is what they release, and copies. -/
theorem sum_groupedStarts_le (xs : List (Stage ν)) :
    (xs.map Stage.groupedStarts).sum ≤
      (xs.flatMap Stage.released).countP Item.isMachineStart +
        (xs.map Stage.copiedStarts).sum := by
  induction xs with
  | nil => exact Nat.le_refl 0
  | cons x xs ih =>
    have hx := x.groupedStarts_le
    simp only [List.flatMap_cons, List.countP_append, List.map_cons, List.sum_cons]
    omega

/-- The machines of a document are at most the starts that were read and the copies that were made
of them. -/
theorem machines_bounded (h : feedAll source (.initial name strict) es = ⟨u, none⟩) :
    (u.finish.file.modules.flatMap Module.stateMachines).length ≤
      (es.flatMap itemsOf).countP Item.isMachineStart +
        ((stages source (.initial name strict) es).map Stage.copiedStarts).sum := by
  have hread : ((stages source (.initial name strict) (es ++ u.ends)).flatMap
      Stage.released).countP Item.isMachineStart ≤
        (es.flatMap itemsOf).countP Item.isMachineStart := by
    rw [← flatMap_itemsOf_append_ends es u,
      ← (filePending_append_released (feedAll_append_ends h) u.scopes_closeAll).countP_eq,
      List.countP_append]
    exact Nat.le_add_left _ _
  rw [length_machines h, ← copiedStarts_append_ends h]
  exact (sum_groupedStarts_le _).trans (Nat.add_le_add_right hread _)

/-- Starts before a module, before one signal, before three, and before a parameter. What is read in
the task, before two signals of it, makes no machine. -/
def machineSample : List (Event Recording.Node) :=
  Recording.build
    [.comment (.str "//* @fsm outer"), .enterModule (.str "m"),
     .comment (.str "/** @fsm main\n@state IDLE waits\n@IDLE -> RUN go */"),
     .signal [.str "state"] .null [], .comment (.str "//* @fsm shared"),
     .signal [.str "a", .str "b", .str "c"] .null [], .comment (.str "//* @fsm dropped"),
     .parameter [.str "W"] .null .null .null, .enterRoutine false (.str "t"),
     .comment (.str "//* @fsm local"), .signal [.str "x", .str "y"] .null [],
     .leaveRoutine false]

theorem machines_bounded_machineSample :
    (feedAll "" (.initial "m.sv" false) machineSample).fault = none ∧
      (machineSample.flatMap itemsOf).countP Item.isMachineStart = 5 ∧
      ((stages "" (.initial "m.sv" false) machineSample).map Stage.copiedStarts).sum = 2 ∧
      ((feedAll "" (.initial "m.sv" false) machineSample).state.finish.file.modules.flatMap
        Module.stateMachines).map (·.name) = ["outer", "main", "shared", "shared", "shared"] ∧
      ((feedAll "" (.initial "m.sv" false) machineSample).state.finish.file.modules.flatMap
        Module.stateMachines).length ≤
        (machineSample.flatMap itemsOf).countP Item.isMachineStart +
          ((stages "" (.initial "m.sv" false) machineSample).map Stage.copiedStarts).sum :=
  ⟨by decide, by decide, by decide, by decide, machines_bounded (Outcome.eq_of_fault (by decide))⟩

/-- A machine that is described before two signals. -/
def sharedSample : List (Event Recording.Node) :=
  Recording.build
    [.enterModule (.str "m"), .comment (.str "//* @fsm main"),
     .signal [.str "a", .str "b"] .null [], .leaveModule]

/-- One start is read, and it opens two machines. -/
theorem shared_start_opens_two_machines :
    (feedAll "" (.initial "m.sv" false) sharedSample).fault = none ∧
      sharedSample.flatMap itemsOf = [.simple .machine "main"] ∧
      ((feedAll "" (.initial "m.sv" false) sharedSample).state.finish.file.modules.flatMap
        Module.stateMachines).map (·.name) = ["main", "main"] ∧
      ¬ ((feedAll "" (.initial "m.sv" false) sharedSample).state.finish.file.modules.flatMap
        Module.stateMachines).length ≤
          (sharedSample.flatMap itemsOf).countP Item.isMachineStart := by
  decide

end Runs

end DesignDoc.Assembly
