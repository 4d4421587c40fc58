import DesignDoc.Proofs.Assembly.Flow

/-! The normal form of a document. Items come to its lists by different ways: a signal takes them
when it is declared, a module or a routine has them from its beginning and its end, and the file
gets what is left. Each way has a filter of its own, and comments yield no plain items in the first
place, so in the end every list holds only items that have no better place. While a stream is read
this holds of what is declared and of what is closed; the items of an open record are not sorted
yet. -/

namespace DesignDoc.Annotation.Item

/-- Items that may be left in a module or a routine: no free text, no summary, and nothing that
documents a port or a parameter by its name. -/
def isRecordItem : Item → Bool
  | plain _ | simple .brief _ | named .port _ _ | named .param _ _ => false
  | _ => true

/-- Items that may be left in a signal or in the file: no credits either. -/
def isDetail : Item → Bool
  | plain _ | simple .brief _ | named .port _ _ | named .param _ _ | simple .author _
  | named .revision _ _ => false
  | _ => true

theorem isDetail_of_filters {i : Item} (hp : i.isPlain = false) (hs : i.isSummary = false)
    (hi : i.isScopeItem = false) : i.isDetail = true := by
  cases i with
  | plain => cases hp
  | simple tag text =>
    cases tag with
    | brief => cases hs
    | author => cases hi
    | _ => rfl
  | named tag name text => cases tag <;> first | rfl | cases hi
  | transition => rfl

end DesignDoc.Annotation.Item

namespace DesignDoc.Document

open DesignDoc.Annotation

/-! ### Records in normal form -/

/-- A signal holds details only, and its width is that of its type. -/
structure Signal.Normal (g : Signal) : Prop where
  items : ∀ i ∈ g.items, i.isDetail = true
  width : packedWidth? g.type = .ok g.width

structure Routine.Normal (r : Routine) : Prop where
  items : ∀ i ∈ r.items, i.isRecordItem = true
  signals : ∀ g ∈ r.signals, g.Normal

structure Module.Normal (m : Module) : Prop where
  items : ∀ i ∈ m.items, i.isRecordItem = true
  signals : ∀ g ∈ m.signals, g.Normal
  tasks : ∀ r ∈ m.tasks, r.Normal

structure File.Normal (f : File) : Prop where
  items : ∀ i ∈ f.items, i.isDetail = true
  modules : ∀ m ∈ f.modules, m.Normal

end DesignDoc.Document

namespace DesignDoc.Assembly

open DesignDoc.Annotation DesignDoc.Document DesignDoc.Event DesignDoc.Json

/-! ### While events come in -/

/-- What holds of an open record: its own items are not sorted yet. -/
structure Element.Orderly (e : Element) : Prop where
  signals : ∀ g ∈ e.body.signals, g.Normal
  tasks : ∀ r ∈ e.tasks, r.Normal

def Element.Normal : Element → Prop
  | .module m => m.Normal
  | .routine r => r.Normal

theorem isRecordItem_of_isKept {i : Item} (hp : i.isPlain = false) (hk : isKept i = true) :
    i.isRecordItem = true := by
  cases i with
  | plain => cases hp
  | simple tag text => cases tag <;> first | rfl | cases hk
  | named tag name text => cases tag <;> first | rfl | cases hk
  | transition => rfl

/-- The record as which a scope is closed is in normal form, if no plain item has come to it. -/
theorem normal_settled {a : Scope} (hp : ∀ i ∈ a.element.body.items ++ a.pending, i.isPlain = false)
    (ha : a.element.Orderly) : a.settled.associate.Normal := by
  have hi : ∀ i ∈ a.settled.body.items.filter isKept, i.isRecordItem = true := by
    intro i hm
    have hplain := hp i ((filter_isKept_settled_sublist a).subset hm)
    exact isRecordItem_of_isKept hplain (List.mem_filter.mp hm).2
  obtain ⟨e, pending⟩ := a
  cases e with
  | module m => exact ⟨hi, ha.signals, ha.tasks⟩
  | routine r => exact ⟨hi, ha.signals⟩

namespace State

/-- What holds of the assembler while events come in. -/
structure Orderly (s : State) : Prop where
  /-- No plain item has been read. -/
  read : ∀ q ∈ s.queues, ∀ i ∈ q, i.isPlain = false
  scopes : ∀ a ∈ s.scopes, a.element.Orderly
  /-- What is closed is in normal form already. -/
  modules : ∀ m ∈ s.file.modules, m.Normal

variable {s t : State} {top : Scope} {rest : List Scope}

theorem orderly_initial (name : String) (strict : Bool) : Orderly (initial name strict) where
  read := by simp [queues, initial]
  scopes := by simp [initial]
  modules := by simp [initial]

theorem Orderly.pending (h : s.Orderly) : ∀ i ∈ s.pending, i.isPlain = false := by
  intro i hi
  apply h.read (s.collected ++ s.pending)
  · rw [s.queues_eq]
    exact List.mem_cons_self
  · exact List.mem_append_right _ hi

theorem orderly_setPending (h : ∀ a ∈ s.scopes, a.element.Orderly) (items : List Item) :
    ∀ a ∈ (s.setPending items).scopes, a.element.Orderly := by
  cases hs : s.scopes with
  | nil => simp [setPending, hs]
  | cons top rest =>
    rw [hs] at h
    simpa [setPending, hs] using h

theorem orderly_mapOwner {f : Body → Body} (h : ∀ a ∈ s.scopes, a.element.Orderly)
    (hf : ∀ b : Body, s.scopes ≠ [] → (∀ g ∈ b.signals, g.Normal) → ∀ g ∈ (f b).signals, g.Normal) :
    ∀ a ∈ (s.mapOwner f).scopes, a.element.Orderly := by
  cases hs : s.scopes with
  | nil => simp [mapOwner, hs]
  | cons top rest =>
    rw [hs] at h hf
    intro a ha
    rw [mapOwner, hs] at ha
    rcases List.mem_cons.mp ha with rfl | ha
    · have htop := h top List.mem_cons_self
      refine ⟨?_, ?_⟩
      · rw [Element.body_mapBody]
        exact hf _ (by simp) htop.signals
      · have ht : (top.element.mapBody f).tasks = top.element.tasks := by
          cases top.element <;> rfl
        rw [ht]
        exact htop.tasks
    · exact h a (List.mem_cons_of_mem _ ha)

theorem orderly_addTask {r : Routine} (hr : r.Normal) {scopes : List Scope}
    (h : ∀ a ∈ scopes, a.element.Orderly) : ∀ a ∈ addTask r scopes, a.element.Orderly := by
  induction scopes with
  | nil => exact h
  | cons scope scopes ih =>
    obtain ⟨e, pending⟩ := scope
    have htop := h _ List.mem_cons_self
    have hrest : ∀ a ∈ scopes, a.element.Orderly := fun a ha => h a (List.mem_cons_of_mem _ ha)
    intro a ha
    cases e with
    | module m =>
      rcases List.mem_cons.mp ha with rfl | ha
      · refine ⟨htop.signals, ?_⟩
        intro q hq
        rcases List.mem_append.mp hq with hq | hq
        · exact htop.tasks q hq
        · obtain rfl := List.mem_singleton.mp hq
          exact hr
      · exact hrest a ha
    | routine q =>
      rcases List.mem_cons.mp ha with rfl | ha
      · exact htop
      · exact ih hrest a ha

/-- A scope that is closed becomes a record in normal form, in the file or in a module. -/
theorem Orderly.closeTop (h : s.Orderly) (hs : s.scopes = top :: rest) :
    (∀ a ∈ s.closeTop.scopes, a.element.Orderly) ∧ ∀ m ∈ s.closeTop.file.modules, m.Normal := by
  have hread : ∀ i ∈ top.element.body.items ++ top.pending, i.isPlain = false :=
    h.read _ (by simp [queues, hs])
  have hnormal := normal_settled hread (h.scopes top (by simp [hs]))
  have hrest : ∀ a ∈ rest, a.element.Orderly := fun a ha => h.scopes a (by simp [hs, ha])
  cases hr : top.settled.associate with
  | module m =>
    rw [hr] at hnormal
    obtain ⟨hscopes, hfile⟩ := closeTop_module hs (by rw [record?_of_scopes hs, hr])
    rw [hscopes, hfile]
    refine ⟨hrest, ?_⟩
    intro x hx
    rcases List.mem_append.mp hx with hx | hx
    · exact h.modules x hx
    · obtain rfl := List.mem_singleton.mp hx
      exact hnormal
  | routine r =>
    rw [hr] at hnormal
    obtain ⟨hscopes, hfile⟩ := closeTop_routine hs (by rw [record?_of_scopes hs, hr])
    rw [hscopes, hfile]
    exact ⟨orderly_addTask hnormal hrest, h.modules⟩

theorem Orderly.push (h : s.Orderly) (k : ScopeKind) (name : Value) :
    ∀ a ∈ (s.push (k.element name)).scopes, a.element.Orderly := by
  intro a ha
  rcases List.mem_cons.mp ha with rfl | ha
  · cases k <;> exact ⟨by simp [ScopeKind.element, Element.mapBody, Element.body],
      by simp [ScopeKind.element, Element.mapBody, Element.tasks]⟩
  · exact orderly_setPending h.scopes [] a ha

/-- Signals are declared with the items that are no better placed elsewhere, and their width is read
off their type. -/
theorem Orderly.signalOf (h : s.Orderly) {d : Declaration} {width : Option Int}
    (hw : s.signalWidth d = .ok width) (hs : s.scopes ≠ []) (summary : Option String) :
    ∀ g ∈ d.declarators.map (signalOf d summary width
      (s.pending.filter fun i => ! i.isSummary && ! i.isScopeItem)), g.Normal := by
  intro g hg
  obtain ⟨x, hx, rfl⟩ := List.mem_map.mp hg
  refine ⟨?_, ?_⟩
  · intro i hi
    obtain ⟨hi, hf⟩ := List.mem_filter.mp hi
    simp only [Bool.and_eq_true, Bool.not_eq_true'] at hf
    exact Item.isDetail_of_filters (h.pending i hi) hf.1 hf.2
  · have hd : d.declarators ≠ [] := List.ne_nil_of_mem hx
    have hp : packedWidth? d.type = .ok width := by
      simpa [signalWidth, hs, hd, mapError_eq_ok] using hw
    exact hp

end State

/-! ### Steps and runs -/

variable {ν : Type} [Inspect ν] {source : String}

/-- Comments yield no plain items. -/
theorem isPlain_of_mem_itemsOf {e : Event ν} {i : Item} (h : i ∈ itemsOf e) :
    i.isPlain = false := by
  unfold itemsOf at h
  split at h
  · next text _ _ _ =>
    unfold Comment.items at h
    split at h
    · exact isPlain_of_mem_fold h
    · simp at h
  · simp at h

section Runs

variable {s t : State} {e : Event ν} {es : List (Event ν)}

theorem read_of_step (h : Step s e t) (hs : s.Orderly) :
    ∀ q ∈ t.queues, ∀ i ∈ q, i.isPlain = false := by
  intro q hq i hi
  obtain ⟨p, hp, hsub⟩ := exists_queue_of_step h hq
  rcases List.mem_append.mp (hsub.subset hi) with hi | hi
  · exact hs.read p hp i hi
  · exact isPlain_of_mem_itemsOf hi

theorem orderly_of_step (h : Step s e t) (hs : s.Orderly) : t.Orderly := by
  have hread := read_of_step h hs
  cases h with
  | comment => exact ⟨hread, State.orderly_setPending hs.scopes _, by simpa using hs.modules⟩
  | opens k => exact ⟨hread, hs.push k _, by simpa using hs.modules⟩
  | closes k n htop =>
    obtain ⟨hscopes, hmodules⟩ := hs.closeTop htop
    exact ⟨hread, hscopes, hmodules⟩
  | ignores => exact hs
  | ports =>
    refine ⟨hread, ?_, by simpa [State.addPorts] using hs.modules⟩
    exact State.orderly_mapOwner hs.scopes fun _ _ hg => hg
  | parameters =>
    refine ⟨hread, ?_, by simpa [State.addParameters] using hs.modules⟩
    apply State.orderly_setPending
    exact State.orderly_mapOwner hs.scopes fun _ _ hg => hg
  | signals _ ht =>
    obtain ⟨width, hw, rfl⟩ := addSignals_eq_ok.mp ht
    refine ⟨hread, ?_, by simpa using hs.modules⟩
    apply State.orderly_setPending
    apply State.orderly_mapOwner hs.scopes
    intro b hne hb g hg
    rcases List.mem_append.mp hg with hg | hg
    · exact hb g hg
    · exact hs.signalOf hw hne _ g hg
  | idle => exact hs

theorem orderly_of_run (h : feedAll source s es = ⟨t, none⟩) (hs : s.Orderly) : t.Orderly :=
  feedAll_invariant (fun he => orderly_of_step (step_of_feed he)) h hs

end Runs

/-! ### The finished document -/

/-- The document of every stream that is taken in is in normal form. -/
theorem document_normal {name : String} {strict : Bool} {es : List (Event ν)} {u : State}
    (h : feedAll source (.initial name strict) es = ⟨u, none⟩) : u.finish.file.Normal := by
  have hu : u.Running := running_of_run h (State.running_initial name strict)
  have hend : u.closeAll.Orderly :=
    orderly_of_run (feedAll_append_ends h) (State.orderly_initial name strict)
  refine ⟨?_, ?_⟩
  · intro i hi
    simp only [State.finish, hu.finished, State.closeFile, associateFile] at hi
    obtain ⟨hi, hf⟩ := List.mem_filter.mp hi
    have hp := hend.read (u.closeAll.file.items ++ u.closeAll.filePending)
      (by simp [State.queues, u.scopes_closeAll]) i hi
    simp only [isKept, Bool.and_eq_true, Bool.not_eq_true'] at hf
    exact Item.isDetail_of_filters hp hf.1.1 (by simp [Item.isScopeItem, hf])
  · rw [hu.modules_finish]
    exact hend.modules

/-- Items of all kinds before a module, on signals with a width, in a task, at the end of the module
and after it. -/
def mixedSample : List (Event Recording.Node) :=
  Recording.build
    [.comment (.str "/** Adds.\n@author A\n@note n\n@port a op */"), .enterModule (.str "m"),
     .ansiPort (.str "a") .null .null .null, .comment (.str "/** Sum.\n@rev v2 x\n@see s */"),
     .signal [.str "b", .str "c"] (.str "logic [7:0]") [], .enterRoutine true (.str "f"),
     .comment (.str "/** Local.\n@ref r */"), .leaveRoutine true,
     .comment (.str "/** Text.\n@wave w */"), .leaveModule,
     .comment (.str "/** More.\n@author B\n@rev v1 x\n@param P p\n@return r */")]

theorem document_normal_mixedSample :
    (feedAll "" (.initial "m.sv" false) mixedSample).fault = none ∧
      (feedAll "" (.initial "m.sv" false) mixedSample).state.finish.file.itemLists =
        [[.simple .result "r"], [.named .revision "v1" "x"],
         [.simple .author "A", .simple .note "n", .simple .wave "w"], [.simple .see "s"],
         [.simple .see "s"], [.named .revision "v2" "x", .simple .ref "r"]] ∧
      (feedAll "" (.initial "m.sv" false) mixedSample).state.finish.file.Normal :=
  ⟨by decide, by decide, document_normal (Outcome.eq_of_fault (by decide))⟩

end DesignDoc.Assembly
