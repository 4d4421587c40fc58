import DesignDoc.Proofs.Assembly.Stages

/-! What stands on the stack. In any stream, nested or not, the file stays at the bottom, modules
and routines stand above it, and only the innermost of them can have items that wait. A module that
is entered is open until it is filed, so the modules on the stack and those in the file are together
the modules that were entered; at the end all of them are in the file. -/

namespace DesignDoc.Assembly

open DesignDoc.Annotation DesignDoc.Document DesignDoc.Event DesignDoc.Json

/-! ### The stack -/

/-- What a scope can describe. -/
inductive Record where
  | file (f : File)
  | module (m : Module)
  | routine (r : Routine)
  deriving DecidableEq, Repr

def Element.record : Element → Record
  | .module m => .module m
  | .routine r => .routine r

def Record.moduleName? : Record → Option Value
  | .module m => some m.name
  | _ => none

def Heading.moduleName? (h : Heading) : Option Value :=
  if h.kind = .module then some h.name else none

theorem Element.moduleName?_record (e : Element) :
    e.record.moduleName? = e.heading.moduleName? := by
  cases e with
  | module m => rfl
  | routine r => cases hf : r.isFunction <;> simp [record, Record.moduleName?, heading,
      Heading.moduleName?, hf]

namespace State

/-- The scopes from the innermost one down to the file, each with the items that wait in it. -/
def stack (s : State) : List (Record × List Item) :=
  s.scopes.map (fun a => (a.element.record, a.pending)) ++ [(.file s.file, s.filePending)]

/-- The names of the modules on the stack. -/
def openModules (s : State) : List Value := s.stack.filterMap (·.1.moduleName?)

/-- The names of all modules, filed or open. -/
def moduleNames (s : State) : Multiset Value := s.file.modules.map (·.name) + s.openModules

theorem map_snd_stack (s : State) : s.stack.map (·.2) = s.buffers := by
  simp [stack, buffers]

theorem openModules_eq (s : State) : s.openModules = s.headings.filterMap (·.moduleName?) := by
  have hf : (Record.file s.file).moduleName? = none := rfl
  simp [openModules, stack, headings, List.filterMap_map, hf, Element.moduleName?_record]

theorem moduleNames_congr {s t : State} (hh : t.headings = s.headings) (hf : t.file = s.file) :
    t.moduleNames = s.moduleNames := by
  rw [moduleNames, moduleNames, openModules_eq, openModules_eq, hh, hf]

theorem moduleNames_push (s : State) (k : ScopeKind) (name : Value) :
    (s.push (k.element name)).moduleNames =
      s.moduleNames + if k = .module then ({name} : Multiset Value) else 0 := by
  rw [moduleNames, moduleNames, openModules_eq, openModules_eq, headings_push, file_push]
  cases k with
  | module =>
    simp only [List.filterMap_cons, Heading.moduleName?, if_true]
    rw [← Multiset.cons_coe, ← Multiset.singleton_add]
    abel
  | function | task => simp [Heading.moduleName?]

/-- A module that is closed goes from the stack to the file. -/
theorem moduleNames_closeTop {s : State} {top : Scope} {rest : List Scope}
    (h : s.scopes = top :: rest) : s.closeTop.moduleNames = s.moduleNames := by
  have hh : s.headings = top.element.heading :: s.closeTop.headings := by
    rw [headings_closeTop]
    simp [headings, h]
  have hx := heads_settled top
  rw [moduleNames, moduleNames, openModules_eq, openModules_eq, hh]
  cases hr : top.settled.associate with
  | module m =>
    rw [hr] at hx
    obtain ⟨hk, hn, -⟩ := hx
    have hf := (closeTop_module h (by rw [record?_of_scopes h, hr])).2
    simp only [hf, List.map_append, List.map_cons, List.map_nil, List.filterMap_cons,
      Heading.moduleName?, hk, if_true, hn]
    rw [← Multiset.coe_add, Multiset.coe_singleton, ← Multiset.cons_coe, ← Multiset.singleton_add]
    abel
  | routine r =>
    rw [hr] at hx
    have hk : top.element.heading.kind ≠ .module := by
      rw [hx.1]
      cases r.isFunction <;> simp
    have hf := (closeTop_routine h (by rw [record?_of_scopes h, hr])).2
    simp [hf, Heading.moduleName?, hk]

end State

/-! ### Steps and runs -/

variable {ν : Type} [Inspect ν] {source : String}

/-- The name of the module that an event enters. -/
def enteredModule? (e : Event ν) : Option Value :=
  match e.phase, e.kind with
  | .enter, .module => e.identifier.toOption
  | _, _ => none

theorem moduleNames_of_step {s t : State} {e : Event ν} (h : Step s e t) :
    t.moduleNames = s.moduleNames + (enteredModule? e).toList := by
  cases h with
  | comment =>
    rw [State.moduleNames_congr (State.headings_setPending _) (State.file_setPending s _)]
    simp [enteredModule?]
  | opens k hi =>
    rw [State.moduleNames_push]
    cases k <;> simp [enteredModule?, ScopeKind.kind, Event.identifier, hi, Except.toOption]
  | closes k n htop => simp [enteredModule?, State.moduleNames_closeTop htop]
  | ignores => simp [enteredModule?]
  | ports hk =>
    rw [State.moduleNames_congr (State.headings_addPorts _) (State.file_mapOwner s _)]
    rcases hk with rfl | rfl <;> simp [enteredModule?]
  | parameters =>
    have hf (d : Declaration) : (s.addParameters d).file = s.file := by simp [State.addParameters]
    rw [State.moduleNames_congr (State.headings_addParameters _) (hf _)]
    simp [enteredModule?]
  | signals _ ht =>
    have hh := State.headings_addSignals ht
    obtain ⟨width, -, rfl⟩ := addSignals_eq_ok.mp ht
    rw [State.moduleNames_congr hh (by simp)]
    simp [enteredModule?]
  | idle hi =>
    obtain ⟨phase, kind, n⟩ := e
    cases phase <;> cases kind <;> simp [isIdle] at hi <;> simp [enteredModule?]

/-- The modules that are filed or open are those that were entered. -/
theorem moduleNames_of_run {s t : State} {es : List (Event ν)}
    (h : feedAll source s es = ⟨t, none⟩) :
    t.moduleNames = s.moduleNames + es.filterMap enteredModule? := by
  have hb := balance_of_run State.moduleNames (fun x => (enteredModule? x.event).toList)
    (fun _ => []) (fun hs => by simpa using moduleNames_of_step hs) h
  rw [flatMap_event_stages (fun e => (enteredModule? e).toList) h,
    ← List.filterMap_eq_flatMap_toList] at hb
  simpa [List.flatMap_eq_nil_iff.mpr] using hb

/-! ### Accounts -/

/-- What holds of the stack after the events `es`, for a file of the given name. -/
structure Accounted (name : String) (es : List (Event ν)) (s : State) : Prop where
  /-- The file is at the bottom, and nothing has changed in it but its modules. -/
  bottom : ∃ ms, s.stack.getLast? = some (.file { name, modules := ms }, s.filePending)
  /-- All above it are modules and routines. -/
  above : ∀ x ∈ s.stack.dropLast, (∃ m, x.1 = .module m) ∨ ∃ r, x.1 = .routine r
  /-- Nothing waits below the innermost scope. -/
  quiet : ∀ x ∈ s.stack.tail, x.2 = []
  /-- The modules in the file and those on the stack are the ones that were entered. -/
  modules : (s.file.modules.map (·.name) ++ s.openModules).Perm (es.filterMap enteredModule?)

theorem accounted_of_run {name : String} {strict : Bool} {s : State} {es : List (Event ν)}
    (h : feedAll source (.initial name strict) es = ⟨s, none⟩) : Accounted name es s where
  bottom := by
    obtain ⟨ms, hf⟩ := file_of_run h
    exact ⟨ms, by simp [State.stack, hf]⟩
  above := by
    intro x hx
    rw [State.stack, List.dropLast_concat] at hx
    obtain ⟨a, -, rfl⟩ := List.mem_map.mp hx
    cases ha : a.element with
    | module m => exact .inl ⟨m, rfl⟩
    | routine r => exact .inr ⟨r, rfl⟩
  quiet := by
    intro x hx
    have hr := running_of_run h (State.running_initial name strict)
    apply hr.quiet
    rw [← State.map_snd_stack, ← List.map_tail]
    exact List.mem_map_of_mem hx
  modules := by
    have hm := moduleNames_of_run h
    rw [← Multiset.coe_eq_coe, ← Multiset.coe_add]
    exact hm.trans (zero_add _)

/-- The end of a stream enters nothing. -/
theorem filterMap_enteredModule?_ends (s : State) :
    (s.ends : List (Event ν)).filterMap enteredModule? = [] := by
  simp [State.ends, enteredModule?]

theorem State.Running.stack_finish {s : State} (h : s.Running) :
    s.finish.stack = [(.file s.finish.file, [])] := by
  simp [finish, h.finished, stack, closeFile, scopes_closeAll]

/-- In every stream that is taken in, whatever the order of its events, the stack is accounted for
at each event, and at the end only the file is left on it, with each module that was entered. -/
theorem entered_modules_accounted {name : String} {strict : Bool} {es : List (Event ν)} {u : State}
    (h : feedAll source (.initial name strict) es = ⟨u, none⟩) :
    (∀ pre, pre <+: es → ∃ s, feedAll source (.initial name strict) pre = ⟨s, none⟩ ∧
      Accounted name pre s) ∧
    u.finish.stack = [(.file u.finish.file, [])] ∧
    (u.finish.file.modules.map (·.name)).Perm (es.filterMap enteredModule?) := by
  have hu : u.Running := running_of_run h (State.running_initial name strict)
  refine ⟨?_, hu.stack_finish, ?_⟩
  · rintro pre ⟨post, rfl⟩
    obtain ⟨s, hs, -⟩ := feedAll_append_iff.mp h
    exact ⟨s, hs, accounted_of_run hs⟩
  · have hm := (accounted_of_run (feedAll_append_ends h)).modules
    have ho : u.closeAll.openModules = [] := by
      simp [State.openModules, State.stack, State.scopes_closeAll, Record.moduleName?]
    rw [ho, List.append_nil, List.filterMap_append, filterMap_enteredModule?_ends,
      List.append_nil] at hm
    rw [hu.modules_finish]
    exact hm

/-- A module entered twice, ends of the wrong kind, and scopes that are never left. -/
def tangledSample : List (Event Recording.Node) :=
  Recording.build
    [.leaveModule, .enterModule (.str "a"), .enterRoutine true (.str "f"), .leaveModule,
     .enterModule (.str "b"), .leaveModule, .leaveRoutine false, .enterModule (.str "a"),
     .enterRoutine false (.str "t"), .comment (.str "//* @note open")]

theorem entered_modules_accounted_tangledSample :
    (feedAll "" (.initial "f" false) tangledSample).fault = none ∧
      (feedAll "" (.initial "f" false) tangledSample).state.openModules = [.str "a", .str "a"] ∧
      ((feedAll "" (.initial "f" false) tangledSample).state.finish.file.modules.map (·.name)).Perm
        [.str "a", .str "b", .str "a"] :=
  ⟨by decide, by decide, (entered_modules_accounted (Outcome.eq_of_fault (by decide))).2.2⟩

end DesignDoc.Assembly
