import DesignDoc.Proofs.Assembly.Flow

/-! Items that last. A document has a place for every item but free text, summaries, authors, and
the items that document a port or a parameter by its name. In a stream where parameters find no such
item waiting, every signal declaration declares one signal in a scope, and routines stand in
modules, none of them is lost and none is doubled, and each list in the document has them in the
order in which they were read. -/

namespace DesignDoc.Annotation.Item

/-- Items that a document keeps as they are, wherever they stand. -/
def isLasting : Item → Bool
  | plain _ | simple .brief _ | simple .author _ | named .port _ _ | named .param _ _ => false
  | _ => true

theorem isSummary_of_isLasting {i : Item} (h : i.isLasting = true) : i.isSummary = false := by
  cases i with
  | simple tag text => cases tag <;> first | rfl | cases h
  | _ => rfl

theorem isNameDoc_of_isLasting {i : Item} (h : i.isLasting = true) : i.isNameDoc = false := by
  cases i with
  | named tag name text => cases tag <;> first | rfl | cases h
  | _ => rfl

end DesignDoc.Annotation.Item

namespace DesignDoc.Assembly

open DesignDoc.Annotation DesignDoc.Document DesignDoc.Event DesignDoc.Json

/-! ### Lasting items in lists -/

theorem filter_isLasting_filter {p : Item → Bool} (h : ∀ i, i.isLasting = true → p i = true)
    (items : List Item) : (items.filter p).filter Item.isLasting = items.filter Item.isLasting := by
  rw [List.filter_filter]
  apply List.filter_congr
  intro i _
  cases hi : i.isLasting with
  | false => rfl
  | true => simp [h i hi]

theorem isKept_of_isLasting {i : Item} (h : i.isLasting = true) : isKept i = true := by
  simp [isKept, Item.isSummary_of_isLasting h, Item.isNameDoc_of_isLasting h]

/-- A scope that is closed keeps the lasting items that have come to it. -/
theorem filter_isLasting_settled (a : Scope) :
    (a.settled.body.items.filter isKept).filter Item.isLasting =
      (a.element.body.items ++ a.pending).filter Item.isLasting := by
  rw [filter_isLasting_filter fun _ => isKept_of_isLasting, Scope.settled, Element.body_mapBody,
    List.filter_append, List.filter_append, filter_isLasting_filter]
  intro i hi
  simp [Item.isSummary_of_isLasting hi]

/-- The revisions of a file are the revision items that come to it. -/
theorem map_item_revisions (items : List Item) :
    (items.filterMap revision?).map Revision.item = items.filter fun i => (revision? i).isSome := by
  induction items with
  | nil => rfl
  | cons i items ih =>
    cases hr : revision? i with
    | none => simp [hr, ih]
    | some r =>
      have hi : r.item = i := by
        unfold revision? at hr
        split at hr
        · exact Option.some.inj hr ▸ rfl
        · cases hr
      simp [hr, ih, hi]

/-- The file keeps lasting items, the revisions apart from the others. -/
theorem filter_isLasting_file (items : List Item) :
    ((items.filter fun i => isKept i && ! i.isCredit).filter Item.isLasting ++
      ((items.filterMap revision?).map Revision.item).filter Item.isLasting).Perm
        (items.filter Item.isLasting) := by
  have ho : (items.filter fun i => isKept i && ! i.isCredit).filter Item.isLasting =
      (items.filter Item.isLasting).filter fun i => ! (revision? i).isSome := by
    rw [List.filter_filter, List.filter_filter]
    apply List.filter_congr
    intro i _
    cases i with
    | simple tag text => cases tag <;> rfl
    | named tag name text => cases tag <;> rfl
    | _ => rfl
  have hr : ((items.filterMap revision?).map Revision.item).filter Item.isLasting =
      (items.filter Item.isLasting).filter fun i => (revision? i).isSome := by
    rw [map_item_revisions, List.filter_comm]
  rw [ho, hr]
  exact List.perm_append_comm.trans (List.filter_append_perm _ _)

/-! ### Tidy streams -/

variable {ν : Type} [Inspect ν] {source : String}

namespace Stage

/-- Whether an event comes at a point where it loses and doubles no lasting item: parameters while
none waits, a declaration of one signal in a scope, a routine in a module. -/
def isTidy (x : Stage ν) : Bool :=
  match x.event.phase, x.event.kind with
  | .enter, .parameterDeclaration => x.state.pending.all (! ·.isLasting)
  | .enter, .signalDeclaration => ! x.state.scopes.isEmpty && declaredCount x.event == 1
  | .enter, .function | .enter, .task => x.state.inModule
  | _, _ => true

theorem isTidy_of_leave {x : Stage ν} (h : x.event.phase = .leave) : x.isTidy = true := by
  simp [isTidy, h]

/-- A tidy event stores the lasting items that it releases. -/
theorem filter_isLasting_stored {x : Stage ν} (h : x.isTidy = true)
    (hm : x.state.scopes ≠ [] → x.state.inModule) :
    x.stored.flatten.filter Item.isLasting = x.released.filter Item.isLasting := by
  obtain he | ⟨hp, hk, he⟩ | ⟨hp, hk, he⟩ | ⟨a, rest, -, hs, he⟩ := effect_cases x
  · simp [stored, released, he]
  · have hl : ∀ i ∈ x.state.pending, i.isLasting = false := by simpa [isTidy, hp, hk] using h
    rw [stored, released, he, List.flatten_nil, List.filter_nil]
    exact (List.filter_eq_nil_iff.mpr fun i hi => by simp [hl i hi]).symm
  · have hc : (x.state.scopes.isEmpty = false) ∧ declaredCount x.event = 1 := by
      simpa [isTidy, hp, hk] using h
    have hi (i : Item) (hi : i.isLasting = true) : (! i.isSummary) = true := by
      simp [Item.isSummary_of_isLasting hi]
    rw [stored, released, he, hc.1, hc.2]
    simp only [Bool.false_eq_true, if_false, List.replicate_one, List.flatten_cons,
      List.flatten_nil, List.append_nil]
    rw [← List.filter_filter, filter_isLasting_filter hi]
  · have hin : x.state.inModule := hm (by simp [hs])
    rw [stored, released, he]
    simp only [if_pos hin, List.flatten_cons, List.flatten_nil, List.append_nil]
    exact filter_isLasting_settled a

/-- In a module nothing is dropped. -/
theorem strayed_eq_nil {x : Stage ν} (hm : x.state.scopes ≠ [] → x.state.inModule) :
    x.strayed = [] := by
  obtain he | ⟨-, -, he⟩ | ⟨-, -, he⟩ | ⟨a, rest, -, hs, he⟩ := effect_cases x
  · simp [strayed, he]
  · simp [strayed, he]
  · simp [strayed, he]
  · simp [strayed, he, hm (by simp [hs])]

end Stage

/-! ### Routines in modules -/

/-- The lowest scope is a module, so all scopes are modules or stand in one. -/
def State.Sheltered (s : State) : Prop := ∀ h ∈ s.headings.getLast?, h.kind = .module

theorem State.Sheltered.inModule {s : State} (h : s.Sheltered) (hs : s.scopes ≠ []) :
    s.inModule := by
  have hl := List.getLast?_eq_some_getLast hs
  refine ⟨s.scopes.getLast hs, List.getLast_mem hs, ?_⟩
  have hk : (s.scopes.getLast hs).element.heading.kind = .module := by
    apply h
    simp [State.headings, hl]
  rw [Element.isModule_eq, hk]
  rfl

section Tidy

variable {s t : State} {e : Event ν} {es : List (Event ν)}

theorem sheltered_of_step (h : Step s e t) (hx : (⟨s, e⟩ : Stage ν).isTidy = true)
    (hs : s.Sheltered) : t.Sheltered := by
  have hsame (hh : t.headings = s.headings) : t.Sheltered := by
    rw [State.Sheltered, hh]
    exact hs
  cases h with
  | comment => exact hsame (State.headings_setPending _)
  | opens k =>
    rw [State.Sheltered, State.headings_push]
    cases hl : s.headings with
    | nil =>
      -- Nothing is open, so what is entered is not a routine.
      have hn : ¬ s.inModule := by
        have hs : s.scopes = [] := List.map_eq_nil_iff.mp hl
        simp [State.inModule, hs]
      cases k with
      | module => simp
      | function | task => simp [Stage.isTidy, ScopeKind.kind, hn] at hx
    | cons h hs' =>
      rw [List.getLast?_cons_cons, ← hl]
      exact hs
  | closes =>
    rw [State.Sheltered, State.headings_closeTop]
    cases hl : s.headings with
    | nil => simp
    | cons h hs' =>
      cases hs' with
      | nil => simp
      | cons h' hs'' =>
        rw [List.tail_cons, ← List.getLast?_cons_cons, ← hl]
        exact hs
  | ignores => exact hs
  | ports => exact hsame (State.headings_addPorts _)
  | parameters => exact hsame (State.headings_addParameters _)
  | signals _ ht => exact hsame (State.headings_addSignals ht)
  | idle => exact hs

theorem sheltered_of_run (h : feedAll source s es = ⟨t, none⟩)
    (hx : ∀ x ∈ stages source s es, x.isTidy = true) (hs : s.Sheltered) : t.Sheltered := by
  induction es generalizing s with
  | nil =>
    obtain rfl : s = t := congrArg Outcome.state h
    exact hs
  | cons e es ih =>
    obtain ⟨a, ha, hr⟩ := feedAll_cons_iff.mp h
    rw [stages_cons ha] at hx
    have ha := sheltered_of_step (step_of_feed ha) (hx _ List.mem_cons_self) hs
    exact ih hr (fun x hm => hx x (List.mem_cons_of_mem _ hm)) ha

/-- In a tidy stream every event comes outside of all scopes or in a module. -/
theorem inModule_of_mem_stages {name : String} {strict : Bool}
    (h : feedAll source (.initial name strict) es = ⟨t, none⟩)
    (ht : ∀ x ∈ stages source (.initial name strict) es, x.isTidy = true) {x : Stage ν}
    (hx : x ∈ stages source (.initial name strict) es) (hs : x.state.scopes ≠ []) :
    x.state.inModule := by
  obtain ⟨pre, post, rfl, hp⟩ := exists_of_mem_stages h hx
  have hpre : ∀ y ∈ stages source (.initial name strict) pre, y.isTidy = true := by
    intro y hy
    apply ht
    rw [stages_append hp]
    exact List.mem_append_left _ hy
  have hi : (State.initial name strict).Sheltered := by
    simp [State.Sheltered, State.headings, State.initial]
  exact (sheltered_of_run hp hpre hi).inModule hs

/-- The end of a stream is tidy. -/
theorem isTidy_append_ends (h : feedAll source s es = ⟨t, none⟩)
    (hx : ∀ x ∈ stages source s es, x.isTidy = true) :
    ∀ x ∈ stages source s (es ++ t.ends), x.isTidy = true := by
  intro x hm
  rw [stages_append h] at hm
  rcases List.mem_append.mp hm with hm | hm
  · exact hx x hm
  · exact Stage.isTidy_of_leave (leave_of_mem_stages_ends hm)

end Tidy

/-! ### The finished document -/

section Finished

variable {name : String} {strict : Bool} {es : List (Event ν)} {u : State}

/-- The lists of the finished file: what waits in it at last, and the lists of its modules. -/
theorem itemLists_finish (h : feedAll source (.initial name strict) es = ⟨u, none⟩) :
    u.finish.file.itemLists =
      (u.filePending.filter fun i => isKept i && ! i.isCredit) ::
        (u.filePending.filterMap revision?).map Revision.item ::
          u.closeAll.file.modules.flatMap Module.itemLists := by
  have hu : u.Running := running_of_run h (State.running_initial name strict)
  obtain ⟨ms, hf⟩ := file_of_run (feedAll_append_ends h)
  simp [State.finish, hu.finished, State.closeFile, associateFile, File.itemLists,
    State.filePending_closeAll, hf]

theorem filter_flatten_flatMap {α : Type} {f : α → List (List Item)} {g : α → List Item}
    {p : Item → Bool} {xs : List α} (h : ∀ x ∈ xs, (f x).flatten.filter p = (g x).filter p) :
    (xs.flatMap f).flatten.filter p = (xs.flatMap g).filter p := by
  induction xs with
  | nil => rfl
  | cons x xs ih =>
    simp only [List.flatMap_cons, List.flatten_append, List.filter_append]
    rw [h x List.mem_cons_self, ih fun y hy => h y (List.mem_cons_of_mem _ hy)]

/-- In a tidy stream the lists of the modules have what was released. -/
theorem filter_isLasting_modules (h : feedAll source (.initial name strict) es = ⟨u, none⟩)
    (ht : ∀ x ∈ stages source (.initial name strict) es, x.isTidy = true)
    (hu : u.scopes = []) :
    ((u.file.modules.flatMap Module.itemLists).flatten.filter Item.isLasting).Perm
      (((stages source (.initial name strict) es).flatMap Stage.released).filter
        Item.isLasting) := by
  have hm := fun x hx => inModule_of_mem_stages (x := x) h ht hx
  have hp := itemLists_append_strayed h hu
  have hstray : (stages source (.initial name strict) es).flatMap Stage.strayed = [] :=
    List.flatMap_eq_nil_iff.mpr fun x hx => Stage.strayed_eq_nil (hm x hx)
  rw [hstray, List.append_nil] at hp
  refine (hp.flatten.filter _).trans (.of_eq ?_)
  exact filter_flatten_flatMap fun x hx => Stage.filter_isLasting_stored (ht x hx) (hm x hx)

/-- No lasting item is lost or doubled in a tidy stream, and each list of the document has its
lasting items in the order in which they were read. -/
theorem lasting_items_kept (h : feedAll source (.initial name strict) es = ⟨u, none⟩)
    (ht : ∀ x ∈ stages source (.initial name strict) es, x.isTidy = true) :
    (u.finish.file.itemLists.flatten.filter Item.isLasting).Perm
      ((es.flatMap itemsOf).filter Item.isLasting) ∧
    ∀ l ∈ u.finish.file.itemLists,
      (l.filter Item.isLasting).Sublist ((es.flatMap itemsOf).filter Item.isLasting) := by
  -- The stream with its ends leads to the state from which the file is closed.
  have hend := feedAll_append_ends h
  have htidy := isTidy_append_ends h ht
  rw [itemLists_finish h, ← flatMap_itemsOf_append_ends es u]
  constructor
  · have hmods := filter_isLasting_modules hend htidy u.scopes_closeAll
    have hwait := (filePending_append_released hend u.scopes_closeAll).filter Item.isLasting
    rw [u.filePending_closeAll, List.filter_append] at hwait
    simp only [List.flatten_cons, List.filter_append]
    rw [← List.append_assoc]
    exact ((filter_isLasting_file u.filePending).append hmods).trans hwait
  · intro l hl
    apply List.Sublist.filter
    have hfile : u.filePending.Sublist ((es ++ u.ends).flatMap itemsOf) := by
      obtain ⟨ms, hf⟩ := file_of_run hend
      apply queue_sublist hend
      simp [State.queues, u.scopes_closeAll, u.filePending_closeAll, hf]
    rcases List.mem_cons.mp hl with rfl | hl
    · exact List.filter_sublist.trans hfile
    rcases List.mem_cons.mp hl with rfl | hl
    · rw [map_item_revisions]
      exact List.filter_sublist.trans hfile
    · exact placed_sublist hend (Multiset.mem_add.mpr (.inr hl))

/-- Notes before, in and after a module, a routine with a signal in it, and a revision that passes
by a signal. -/
def tidySample : List (Event Recording.Node) :=
  Recording.build
    [.comment (.str "/** Adds.\n@note fast\n@port a operand */"), .enterModule (.str "adder"),
     .parameter [.str "W"] .null .null .null, .ansiPort (.str "a") (.str "input") .null .null,
     .comment (.str "/** @fsm main\n@rev v2 wider\n@state IDLE waits */"),
     .signal [.str "s"] (.str "logic") [], .enterRoutine true (.str "add"),
     .comment (.str "//* @note local"), .signal [.str "t"] (.str "logic") [],
     .comment (.str "//* @return the sum"), .leaveRoutine false, .leaveModule,
     .comment (.str "/** @rev v1 first\n@see manual */")]

theorem lasting_items_kept_tidySample :
    (feedAll "" (.initial "f" false) tidySample).fault = none ∧
      (∀ x ∈ stages "" (.initial "f" false) tidySample, x.isTidy = true) ∧
      ((tidySample.flatMap itemsOf).filter Item.isLasting).length = 8 ∧
      ((feedAll "" (.initial "f" false) tidySample).state.finish.file.itemLists.flatten.filter
        Item.isLasting).Perm ((tidySample.flatMap itemsOf).filter Item.isLasting) :=
  ⟨by decide, by decide, by decide,
    (lasting_items_kept (Outcome.eq_of_fault (by decide)) (by decide)).1⟩

end Finished

end DesignDoc.Assembly
