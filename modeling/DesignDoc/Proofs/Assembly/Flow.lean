import DesignDoc.Proofs.Assembly.Stages

/-! The ways of items. An item that is read waits in a scope, in its buffer or among the items
handed to it, until an event releases it; the event then stores it in a list of the document, in
several, or in none. Both sides are exact: what waits and what was released make up what was read,
and the lists of the document, with those that are lost along with a routine outside of all modules,
are the lists that were stored. -/

namespace DesignDoc.Document

open DesignDoc.Annotation

/-! ### The items of a document -/

def Revision.item (r : Revision) : Item := .named .revision r.name r.text

/-- The lists of items in a routine: its own, and those of its signals. -/
def Routine.itemLists (r : Routine) : List (List Item) := r.items :: r.signals.map (·.items)

/-- The lists of items in a module: its own, those of its signals, and those of its tasks. -/
def Module.itemLists (m : Module) : List (List Item) :=
  m.items :: (m.signals.map (·.items) ++ m.tasks.flatMap Routine.itemLists)

/-- The lists of items in a file: its own, its revisions, and those of its modules. -/
def File.itemLists (f : File) : List (List Item) :=
  f.items :: f.revisions.map Revision.item :: f.modules.flatMap Module.itemLists

end DesignDoc.Document

namespace DesignDoc.Assembly

open DesignDoc.Annotation DesignDoc.Document DesignDoc.Event DesignDoc.Json

/-! ### Items that wait -/

namespace State

/-- The items that wait in the open scopes, innermost first, and in the file: those handed to the
record, and then those in the buffer. -/
def queues (s : State) : List (List Item) :=
  s.scopes.map (fun a => a.element.body.items ++ a.pending) ++ [s.file.items ++ s.filePending]

/-- The items handed to the innermost record. -/
def collected (s : State) : List Item :=
  match s.scopes with
  | [] => s.file.items
  | top :: _ => top.element.body.items

variable {s : State} {top : Scope} {rest : List Scope}

theorem queues_eq (s : State) : s.queues = (s.collected ++ s.pending) :: s.queues.tail := by
  unfold pending collected
  split <;> simp [queues, *]

@[simp] theorem queues_setPending (items : List Item) :
    (s.setPending items).queues = (s.collected ++ items) :: s.queues.tail := by
  unfold setPending collected
  split <;> simp [queues, *]

theorem queues_mapOwner {f : Body → Body} (hf : ∀ b, (f b).items = b.items) :
    (s.mapOwner f).queues = s.queues := by
  unfold mapOwner
  split
  · rfl
  · next h => simp [queues, h, Element.body_mapBody, hf]

theorem collected_mapOwner {f : Body → Body} (hf : ∀ b, (f b).items = b.items) :
    (s.mapOwner f).collected = s.collected := by
  cases h : s.scopes with
  | nil => simp [mapOwner, collected, h]
  | cons top rest => simp [mapOwner, collected, h, Element.body_mapBody, hf]

theorem queues_addPorts (d : Declaration) : (s.addPorts d).queues = s.queues :=
  queues_mapOwner fun _ => rfl

theorem queues_declare {f : Body → Body} (hf : ∀ b, (f b).items = b.items) (items : List Item) :
    ((s.mapOwner f).setPending items).queues = (s.collected ++ items) :: s.queues.tail := by
  rw [queues_setPending, collected_mapOwner hf, queues_mapOwner hf]

theorem queues_addParameters (d : Declaration) :
    (s.addParameters d).queues = (s.collected ++ []) :: s.queues.tail := by
  apply queues_declare
  exact fun _ => rfl

theorem queues_addSignals {t : State} {d : Declaration} (h : s.addSignals d = .ok t) :
    t.queues = (s.collected ++ s.pending.filter Item.isScopeItem) :: s.queues.tail := by
  obtain ⟨width, -, rfl⟩ := addSignals_eq_ok.mp h
  apply queues_declare
  exact fun _ => rfl

theorem queues_push (k : ScopeKind) (name : Value) :
    (s.push (k.element name)).queues = s.pending :: s.collected :: s.queues.tail := by
  have hb : (k.element name).body.items = [] := by cases k <;> rfl
  have hq := queues_setPending (s := s) []
  rw [List.append_nil] at hq
  rw [← hq]
  simp [push, queues, Element.body_mapBody, hb]

/-- A routine that is filed changes nothing in a module but its tasks. -/
theorem map_addTask {β : Type} {f : Scope → β}
    (hf : ∀ a b : Scope, a.element.body = b.element.body → a.pending = b.pending → f a = f b)
    (r : Routine) (scopes : List Scope) : (addTask r scopes).map f = scopes.map f := by
  induction scopes with
  | nil => rfl
  | cons scope scopes ih =>
    obtain ⟨e, pending⟩ := scope
    cases e with
    | module m =>
      rw [addTask, List.map_cons, List.map_cons]
      exact congrArg (· :: _) (hf _ _ rfl rfl)
    | routine q => rw [addTask, List.map_cons, List.map_cons, ih]

theorem queues_closeTop (h : s.scopes = top :: rest) : s.closeTop.queues = s.queues.tail := by
  obtain ⟨ms, hf⟩ := s.file_closeTop
  have hr : s.closeTop.scopes.map (fun a => a.element.body.items ++ a.pending) =
      rest.map fun a => a.element.body.items ++ a.pending := by
    obtain ⟨m, hs, -⟩ | ⟨r, hs, -⟩ := closeTop_cases h
    · rw [hs]
    · rw [hs]
      exact map_addTask (fun a b he hp => by rw [he, hp]) r rest
  rw [queues, hr, hf, filePending_closeTop]
  simp [queues, h]

end State

variable {ν : Type} [Inspect ν] {source : String}

namespace Stage

/-- The items that stop waiting. -/
def released (x : Stage ν) : List Item :=
  match x.effect with
  | .parameters => x.state.pending
  | .signals _ => x.state.pending.filter (! ·.isScopeItem)
  | .closes a => a.element.body.items ++ a.pending
  | .none => []

theorem released_of_none {x : Stage ν} (h : x.effect = .none) : x.released = [] := by
  simp [released, h]

end Stage

section Waiting

variable {s t : State} {e : Event ν} {es : List (Event ν)}

/-- An item waits until it is released. -/
theorem waiting_of_step (h : Step s e t) :
    (t.queues.flatten : Multiset Item) + (⟨s, e⟩ : Stage ν).released =
      s.queues.flatten + itemsOf e := by
  cases h with
  | comment h =>
    rw [itemsOf_comment h, Stage.released_of_none rfl, State.queues_setPending, s.queues_eq]
    simp only [List.flatten_cons, List.tail_cons, ← Multiset.coe_add, Multiset.coe_nil]
    abel
  | opens k =>
    rw [itemsOf_scope, Stage.released_of_none (effect_enter k), State.queues_push, s.queues_eq]
    simp only [List.flatten_cons, List.tail_cons, ← Multiset.coe_add, Multiset.coe_nil]
    abel
  | @closes k n top rest htop hk =>
    have hq : s.queues = (top.element.body.items ++ top.pending) :: s.queues.tail := by
      simp [State.queues, htop]
    rw [itemsOf_scope, State.queues_closeTop htop, hq, Stage.released, effect_closes htop hk]
    simp only [List.flatten_cons, List.tail_cons, ← Multiset.coe_add, Multiset.coe_nil]
    abel
  | ignores k n hn => rw [itemsOf_scope, Stage.released_of_none (effect_ignores hn)]
  | @ports k n d hk =>
    have hi : itemsOf (⟨.enter, k, n⟩ : Event ν) = [] :=
      itemsOf_of_ne (by rcases hk with rfl | rfl <;> simp)
    rw [hi, Stage.released_of_none (effect_ports hk), State.queues_addPorts]
  | parameters =>
    rw [itemsOf_of_ne (by simp), State.queues_addParameters, s.queues_eq]
    simp only [Stage.released, Stage.effect, List.flatten_cons, List.tail_cons,
      ← Multiset.coe_add, Multiset.coe_nil]
    abel
  | signals hd ht =>
    rw [itemsOf_of_ne (by simp), State.queues_addSignals ht, s.queues_eq, Stage.released,
      effect_signals hd]
    -- The buffer is parted into what stays and what the signals take.
    have hp : (s.pending : Multiset Item) =
        s.pending.filter Item.isScopeItem + s.pending.filter (! ·.isScopeItem) := by
      rw [Multiset.coe_add, Multiset.coe_eq_coe]
      exact (List.filter_append_perm Item.isScopeItem s.pending).symm
    simp only [List.flatten_cons, List.tail_cons, ← Multiset.coe_add, Multiset.coe_nil]
    rw [hp]
    abel
  | idle hi => rw [itemsOf_idle hi, Stage.released_of_none (effect_idle hi)]

/-- What waits and what was released is what was read. -/
theorem waiting_of_run (h : feedAll source s es = ⟨t, none⟩) :
    (t.queues.flatten : Multiset Item) + (stages source s es).flatMap Stage.released =
      s.queues.flatten + es.flatMap itemsOf := by
  rw [← flatMap_event_stages itemsOf h]
  exact balance_of_run (fun s => s.queues.flatten) (fun x => itemsOf x.event) Stage.released
    waiting_of_step h

/-- What waits in the file at last is the rest of what was read. -/
theorem filePending_append_released {name : String} {strict : Bool}
    (h : feedAll source (.initial name strict) es = ⟨t, none⟩) (ht : t.scopes = []) :
    (t.filePending ++ (stages source (.initial name strict) es).flatMap Stage.released).Perm
      (es.flatMap itemsOf) := by
  have hw := waiting_of_run h
  obtain ⟨ms, hf⟩ := file_of_run h
  have hq : t.queues = [t.filePending] := by simp [State.queues, ht, hf]
  have hinit : (State.initial name strict).queues.flatten = [] := rfl
  rw [hq, hinit, Multiset.coe_nil, zero_add, Multiset.coe_add, Multiset.coe_eq_coe] at hw
  simpa using hw

/-! ### Items in their order -/

/-- What waits somewhere has waited there before, or was just read. -/
theorem exists_queue_of_step (h : Step s e t) {q : List Item} (hq : q ∈ t.queues) :
    ∃ p ∈ s.queues, q.Sublist (p ++ itemsOf e) := by
  have htop : s.collected ++ s.pending ∈ s.queues := by
    rw [s.queues_eq]
    exact List.mem_cons_self
  have hrest {q : List Item} (hq : q ∈ s.queues.tail) :
      ∃ p ∈ s.queues, q.Sublist (p ++ itemsOf e) :=
    ⟨q, List.mem_of_mem_tail hq, List.sublist_append_left _ _⟩
  have hsame {q : List Item} (hq : q ∈ s.queues) : ∃ p ∈ s.queues, q.Sublist (p ++ itemsOf e) :=
    ⟨q, hq, List.sublist_append_left _ _⟩
  -- A shorter buffer in the innermost scope.
  have hless {items : List Item} (hi : items.Sublist s.pending)
      (hq : q ∈ (s.collected ++ items) :: s.queues.tail) :
      ∃ p ∈ s.queues, q.Sublist (p ++ itemsOf e) := by
    rcases List.mem_cons.mp hq with rfl | hq
    · exact ⟨_, htop, (hi.append_left _).trans (List.sublist_append_left _ _)⟩
    · exact hrest hq
  cases h with
  | comment h =>
    rw [State.queues_setPending] at hq
    rcases List.mem_cons.mp hq with rfl | hq
    · refine ⟨_, htop, ?_⟩
      rw [itemsOf_comment h, List.append_assoc]
    · exact hrest hq
  | opens k =>
    rw [State.queues_push] at hq
    rcases List.mem_cons.mp hq with rfl | hq
    · exact ⟨_, htop, (List.sublist_append_right _ _).trans (List.sublist_append_left _ _)⟩
    · exact hless (List.nil_sublist _) (by simpa using hq)
  | closes k n htop =>
    rw [State.queues_closeTop htop] at hq
    exact hrest hq
  | ignores => exact hsame hq
  | ports =>
    rw [State.queues_addPorts] at hq
    exact hsame hq
  | parameters =>
    rw [State.queues_addParameters] at hq
    exact hless (List.nil_sublist _) hq
  | signals _ ht =>
    rw [State.queues_addSignals ht] at hq
    exact hless List.filter_sublist hq
  | idle => exact hsame hq

/-- Items wait in the order in which they were read. -/
theorem exists_queue_of_run (h : feedAll source s es = ⟨t, none⟩) {q : List Item}
    (hq : q ∈ t.queues) : ∃ p ∈ s.queues, q.Sublist (p ++ es.flatMap itemsOf) := by
  induction es generalizing s with
  | nil =>
    obtain rfl : s = t := congrArg Outcome.state h
    exact ⟨q, hq, by simp⟩
  | cons e es ih =>
    obtain ⟨a, ha, hr⟩ := feedAll_cons_iff.mp h
    obtain ⟨r, hr, hqr⟩ := ih hr
    obtain ⟨p, hp, hrp⟩ := exists_queue_of_step (step_of_feed ha) hr
    refine ⟨p, hp, hqr.trans ?_⟩
    rw [List.flatMap_cons, ← List.append_assoc]
    exact hrp.append_right _

theorem queue_sublist {name : String} {strict : Bool}
    (h : feedAll source (.initial name strict) es = ⟨t, none⟩) {q : List Item}
    (hq : q ∈ t.queues) : q.Sublist (es.flatMap itemsOf) := by
  obtain ⟨p, hp, hqp⟩ := exists_queue_of_run h hq
  obtain rfl : p = [] := by simpa [State.queues, State.initial] using hp
  exact hqp

end Waiting

/-! ### Items in the document -/

namespace Element

/-- The lists of items in an open record that are in their place: those of its signals and those of
its tasks. -/
def placed (e : Element) : List (List Item) :=
  e.body.signals.map (·.items) ++ e.tasks.flatMap Routine.itemLists

def itemLists : Element → List (List Item)
  | module m => m.itemLists
  | routine r => r.itemLists

theorem itemLists_eq (e : Element) : e.itemLists = e.body.items :: e.placed := by
  cases e <;> simp [itemLists, placed, Module.itemLists, Routine.itemLists, body, tasks]

end Element

/-- A scope that is closed adds one list, of the items that its record keeps. -/
theorem itemLists_settled (a : Scope) :
    a.settled.associate.itemLists = a.settled.body.items.filter isKept :: a.element.placed := by
  obtain ⟨e, pending⟩ := a
  rw [Element.itemLists_eq]
  cases e <;> rfl

/-- A record keeps only what has come to its scope. -/
theorem filter_isKept_settled_sublist (a : Scope) :
    (a.settled.body.items.filter isKept).Sublist (a.element.body.items ++ a.pending) := by
  rw [Scope.settled, Element.body_mapBody]
  exact List.filter_sublist.trans (List.filter_sublist.append_left _)

namespace State

/-- The lists of items that are in their place, in open records and in the file. -/
def placed (s : State) : Multiset (List Item) :=
  s.scopes.flatMap (·.element.placed) + s.file.modules.flatMap Module.itemLists

variable {s : State} {top : Scope} {rest : List Scope}

@[simp] theorem placed_setPending (items : List Item) :
    (s.setPending items).placed = s.placed := by
  unfold setPending
  split <;> simp [placed, *]

theorem placed_mapOwner {f : Body → Body} {sigs : List Signal}
    (hf : ∀ b, (f b).signals = b.signals ++ sigs) :
    (s.mapOwner f).placed = s.placed + if s.scopes.isEmpty then [] else sigs.map (·.items) := by
  cases h : s.scopes with
  | nil => simp [mapOwner, h]
  | cons top rest =>
    have ht : (top.element.mapBody f).tasks = top.element.tasks := by
      cases top.element <;> rfl
    simp only [mapOwner, placed, h, List.flatMap_cons, Element.placed, Element.body_mapBody, hf,
      ht, List.map_append, ← Multiset.coe_add, List.isEmpty_cons, Bool.false_eq_true, if_false]
    abel

theorem placed_mapOwner_of_signals {f : Body → Body} (hf : ∀ b, (f b).signals = b.signals) :
    (s.mapOwner f).placed = s.placed := by
  have hs (b : Body) : (f b).signals = b.signals ++ [] := by rw [hf, List.append_nil]
  simp [placed_mapOwner hs]

theorem placed_addPorts (d : Declaration) : (s.addPorts d).placed = s.placed :=
  placed_mapOwner_of_signals fun _ => rfl

theorem placed_addParameters (d : Declaration) : (s.addParameters d).placed = s.placed := by
  rw [addParameters, placed_setPending]
  exact placed_mapOwner_of_signals fun _ => rfl

theorem placed_push (k : ScopeKind) (name : Value) :
    (s.push (k.element name)).placed = s.placed := by
  have hs : (s.setPending []).scopes.flatMap (·.element.placed) =
      s.scopes.flatMap (·.element.placed) := by
    unfold setPending
    split <;> simp [*]
  have hk (items : List Item) : ((k.element name).mapBody fun b =>
      { b with items := b.items ++ items }).placed = [] := by
    cases k <;> rfl
  simp [push, placed, hs, hk]

theorem placed_addTask (r : Routine) {scopes : List Scope}
    (h : ∃ a ∈ scopes, a.element.isModule = true) :
    ((addTask r scopes).flatMap (·.element.placed) : Multiset (List Item)) =
      scopes.flatMap (·.element.placed) + r.itemLists := by
  induction scopes with
  | nil => simp at h
  | cons scope scopes ih =>
    obtain ⟨e, pending⟩ := scope
    cases e with
    | module m =>
      simp only [addTask, List.flatMap_cons, Element.placed, Element.tasks, Element.body,
        List.flatMap_append, List.flatMap_nil, List.append_nil, ← Multiset.coe_add]
      abel
    | routine q =>
      obtain ⟨a, ha, hm⟩ := h
      have hr : ∃ a ∈ scopes, a.element.isModule = true := by
        rcases List.mem_cons.mp ha with rfl | ha
        · cases hm
        · exact ⟨a, ha, hm⟩
      simp only [addTask, List.flatMap_cons, ← Multiset.coe_add, ih hr, add_assoc]

/-- A routine outside of all modules is dropped. -/
theorem addTask_eq_self (r : Routine) {scopes : List Scope}
    (h : ¬ ∃ a ∈ scopes, a.element.isModule = true) : addTask r scopes = scopes := by
  induction scopes with
  | nil => rfl
  | cons scope scopes ih =>
    obtain ⟨e, pending⟩ := scope
    cases e with
    | module m => exact absurd ⟨_, List.mem_cons_self, rfl⟩ h
    | routine q =>
      rw [addTask, ih]
      rintro ⟨a, ha, hm⟩
      exact h ⟨a, List.mem_cons_of_mem _ ha, hm⟩

/-- The record of a scope that is closed comes to the document if the scope is a module or stands in
one. -/
theorem placed_closeTop (h : s.scopes = top :: rest) :
    s.closeTop.placed + (if s.inModule then [] else top.element.placed) =
      s.placed + if s.inModule then [top.settled.body.items.filter isKept] else [] := by
  have hx := itemLists_settled top
  have hm := isModule_settled top
  cases hr : top.settled.associate with
  | module m =>
    rw [hr] at hx hm
    obtain ⟨hs, hf⟩ := closeTop_module h (by rw [record?_of_scopes h, hr])
    have hin : s.inModule := ⟨top, by simp [h], hm.symm⟩
    rw [if_pos hin, if_pos hin, placed, placed, hs, hf, h]
    simp only [List.flatMap_append, List.flatMap_cons, List.flatMap_nil, List.append_nil]
    rw [show m.itemLists = _ from hx, ← Multiset.coe_add, ← Multiset.cons_coe,
      ← Multiset.singleton_add, ← Multiset.coe_add, Multiset.coe_nil, Multiset.coe_singleton]
    abel
  | routine r =>
    have hin := inModule_of_routine h hr
    rw [hr] at hx
    obtain ⟨hs, hf⟩ := closeTop_routine h (by rw [record?_of_scopes h, hr])
    by_cases hi : s.inModule
    · rw [if_pos hi, if_pos hi, placed, placed, hs, hf, h, placed_addTask r (hin.mp hi),
        show r.itemLists = _ from hx, List.flatMap_cons, ← Multiset.cons_coe,
        ← Multiset.singleton_add, ← Multiset.coe_add, Multiset.coe_nil, Multiset.coe_singleton]
      abel
    · rw [if_neg hi, if_neg hi, placed, placed, hs, hf, h,
        addTask_eq_self r (fun hm => hi (hin.mpr hm)), List.flatMap_cons, ← Multiset.coe_add,
        Multiset.coe_nil]
      abel

end State

namespace Stage

/-- The lists of items that an event puts into their place. -/
def stored (x : Stage ν) : List (List Item) :=
  match x.effect with
  | .signals count =>
    List.replicate count (x.state.pending.filter fun i => ! i.isSummary && ! i.isScopeItem)
  | .closes a => if x.state.inModule then [a.settled.body.items.filter isKept] else []
  | .parameters | .none => []

/-- The lists of items that are dropped along with a routine. -/
def strayed (x : Stage ν) : List (List Item) :=
  match x.effect with
  | .closes a => if x.state.inModule then [] else a.element.placed
  | .parameters | .signals _ | .none => []

theorem stored_of_none {x : Stage ν} (h : x.effect = .none) : x.stored = [] := by
  simp [stored, h]

theorem strayed_of_none {x : Stage ν} (h : x.effect = .none) : x.strayed = [] := by
  simp [strayed, h]

/-- What is stored has waited in one scope. -/
theorem exists_queue_of_stored {x : Stage ν} {l : List Item} (h : l ∈ x.stored) :
    ∃ q ∈ x.state.queues, l.Sublist q := by
  obtain he | ⟨-, -, he⟩ | ⟨-, -, he⟩ | ⟨a, rest, -, hs, he⟩ := effect_cases x
  · simp [stored, he] at h
  · simp [stored, he] at h
  · rw [stored, he] at h
    obtain rfl := List.eq_of_mem_replicate h
    refine ⟨x.state.collected ++ x.state.pending, ?_, ?_⟩
    · rw [x.state.queues_eq]
      exact List.mem_cons_self
    · exact List.filter_sublist.trans (List.sublist_append_right _ _)
  · simp only [stored, he] at h
    split at h
    · obtain rfl := List.mem_singleton.mp h
      exact ⟨a.element.body.items ++ a.pending, by simp [State.queues, hs],
        filter_isKept_settled_sublist a⟩
    · simp at h

end Stage

section Placed

variable {s t : State} {e : Event ν} {es : List (Event ν)}

/-- A list is placed when it is stored, and stays unless its routine is dropped. -/
theorem placed_of_step (h : Step s e t) :
    t.placed + (⟨s, e⟩ : Stage ν).strayed = s.placed + (⟨s, e⟩ : Stage ν).stored := by
  cases h with
  | comment =>
    rw [State.placed_setPending, Stage.stored_of_none rfl, Stage.strayed_of_none rfl]
  | opens k =>
    rw [State.placed_push, Stage.stored_of_none (effect_enter k),
      Stage.strayed_of_none (effect_enter k)]
  | closes k n htop hk =>
    rw [Stage.stored, Stage.strayed, effect_closes htop hk]
    exact State.placed_closeTop htop
  | ignores k n hn =>
    rw [Stage.stored_of_none (effect_ignores hn), Stage.strayed_of_none (effect_ignores hn)]
  | ports hk =>
    rw [Stage.stored_of_none (effect_ports hk), Stage.strayed_of_none (effect_ports hk),
      State.placed_addPorts]
  | parameters => simp [State.placed_addParameters, Stage.stored, Stage.strayed, Stage.effect]
  | signals hd ht =>
    obtain ⟨width, -, rfl⟩ := addSignals_eq_ok.mp ht
    rw [State.placed_setPending, State.placed_mapOwner fun _ => rfl, Stage.stored, Stage.strayed,
      effect_signals hd]
    cases hs : s.scopes.isEmpty <;> simp [State.signalOf, Function.comp_def]
  | idle hi => rw [Stage.stored_of_none (effect_idle hi), Stage.strayed_of_none (effect_idle hi)]

theorem placed_of_run (h : feedAll source s es = ⟨t, none⟩) :
    t.placed + (stages source s es).flatMap Stage.strayed =
      s.placed + (stages source s es).flatMap Stage.stored :=
  balance_of_run State.placed Stage.stored Stage.strayed placed_of_step h

/-- What was stored is in the modules, or lost along with a routine. -/
theorem itemLists_append_strayed {name : String} {strict : Bool}
    (h : feedAll source (.initial name strict) es = ⟨t, none⟩) (ht : t.scopes = []) :
    (t.file.modules.flatMap Module.itemLists ++
      (stages source (.initial name strict) es).flatMap Stage.strayed).Perm
        ((stages source (.initial name strict) es).flatMap Stage.stored) := by
  have hp := placed_of_run h
  have hplaced : t.placed = (t.file.modules.flatMap Module.itemLists : Multiset (List Item)) := by
    simp [State.placed, ht]
  have hinit : (State.initial name strict).placed = 0 := rfl
  rwa [hplaced, hinit, zero_add, Multiset.coe_add, Multiset.coe_eq_coe] at hp

/-- The lists of a document hold items in the order in which they were read. -/
theorem placed_sublist {name : String} {strict : Bool}
    (h : feedAll source (.initial name strict) es = ⟨t, none⟩) {l : List Item}
    (hl : l ∈ t.placed) : l.Sublist (es.flatMap itemsOf) := by
  have hs : l ∈ (stages source (.initial name strict) es).flatMap Stage.stored := by
    have hinit : (State.initial name strict).placed = 0 := rfl
    have hp := placed_of_run h
    rw [hinit, zero_add] at hp
    rw [← Multiset.mem_coe, ← hp]
    exact Multiset.mem_add.mpr (.inl hl)
  obtain ⟨x, hx, hl⟩ := List.mem_flatMap.mp hs
  obtain ⟨q, hq, hlq⟩ := Stage.exists_queue_of_stored hl
  obtain ⟨pre, post, rfl, hp⟩ := exists_of_mem_stages h hx
  rw [List.flatMap_append]
  exact hlq.trans ((queue_sublist hp hq).trans (List.sublist_append_left _ _))

end Placed

end DesignDoc.Assembly
