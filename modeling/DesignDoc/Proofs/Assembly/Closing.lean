import DesignDoc.Proofs.Assembly.Descriptions
import DesignDoc.Proofs.Assembly.Nesting
import Mathlib.Data.List.Forall2

/-! How scopes end. While a scope is open its heading is fixed and its record only grows, whatever
is opened and closed above it. A scope is closed once, by an event or at the end of the stream. Its
items are then distributed over what is declared in it by that time, and the record stays in the
document. -/

namespace DesignDoc.Assembly

open DesignDoc.Annotation DesignDoc.Document DesignDoc.Event DesignDoc.Json

/-! ### Records that grow -/

namespace Element

def tasks : Element → List Routine
  | module m => m.tasks
  | routine _ => []

theorem body_mapBody (f : Body → Body) (e : Element) : (e.mapBody f).body = f e.body := by
  cases e <;> rfl

/-- What is declared and kept in a body whose items are distributed. -/
theorem body_associate (e : Element) : e.associate.body = associateBody e.body := by
  cases e <;> rfl

/-- A later stage of a record: the heading is the same, and more is declared in it. -/
structure Extends (e e' : Element) : Prop where
  heading : e'.heading = e.heading
  parameters : e.body.parameters <+: e'.body.parameters
  signals : e.body.signals <+: e'.body.signals
  tasks : e.tasks <+: e'.tasks

variable {e e' e'' : Element}

theorem Extends.refl (e : Element) : e.Extends e :=
  ⟨rfl, List.prefix_rfl, List.prefix_rfl, List.prefix_rfl⟩

theorem Extends.trans (h : e.Extends e') (h' : e'.Extends e'') : e.Extends e'' where
  heading := h'.heading.trans h.heading
  parameters := h.parameters.trans h'.parameters
  signals := h.signals.trans h'.signals
  tasks := h.tasks.trans h'.tasks

theorem isModule_eq (e : Element) : e.isModule = (e.heading.kind == .module) := by
  cases e with
  | module m => rfl
  | routine r => cases h : r.isFunction <;> simp [heading, h] <;> rfl

theorem Extends.isModule (h : e.Extends e') : e'.isModule = e.isModule := by
  rw [isModule_eq, isModule_eq, h.heading]

theorem extends_mapBody {f : Body → Body} (hi : ∀ b, (f b).items = b.items)
    (hp : ∀ b, b.parameters <+: (f b).parameters) (hs : ∀ b, b.signals <+: (f b).signals)
    (e : Element) : e.Extends (e.mapBody f) where
  heading := heading_mapBody (by rw [hi])
  parameters := by cases e <;> exact hp _
  signals := by cases e <;> exact hs _
  tasks := by cases e <;> exact List.prefix_rfl

end Element

/-- Scopes at a later stage, one by one. -/
def Later (xs ys : List Scope) : Prop :=
  List.Forall₂ (fun a b => a.element.Extends b.element) xs ys

namespace Later

variable {xs ys zs : List Scope}

theorem refl (xs : List Scope) : Later xs xs :=
  List.forall₂_same.mpr fun a _ => .refl a.element

theorem trans (h : Later xs ys) (h' : Later ys zs) : Later xs zs := by
  induction h generalizing zs with
  | nil => exact h'
  | cons ha _ ih =>
    obtain ⟨c, cs, hc, hcs, rfl⟩ := List.forall₂_cons_left_iff.mp h'
    exact .cons (ha.trans hc) (ih hcs)

/-- A module that is open stays one. -/
theorem exists_isModule (h : Later xs ys) (hx : ∃ a ∈ xs, a.element.isModule = true) :
    ∃ b ∈ ys, b.element.isModule = true := by
  induction h with
  | nil => exact hx
  | cons hab _ ih =>
    obtain ⟨c, hc, hm⟩ := hx
    rcases List.mem_cons.mp hc with rfl | hc
    · exact ⟨_, List.mem_cons_self, hab.isModule.trans hm⟩
    · obtain ⟨b, hb, hm⟩ := ih ⟨c, hc, hm⟩
      exact ⟨b, List.mem_cons_of_mem _ hb, hm⟩

end Later

theorem later_addTask (r : Routine) (xs : List Scope) : Later xs (State.addTask r xs) := by
  induction xs with
  | nil => exact .nil
  | cons x xs ih =>
    obtain ⟨e, pending⟩ := x
    cases e with
    | module m =>
      exact .cons ⟨rfl, List.prefix_rfl, List.prefix_rfl, List.prefix_append _ _⟩ (Later.refl xs)
    | routine q => exact .cons (.refl _) ih

/-- A routine that stands in a module is one of its tasks from then on. -/
theorem exists_mem_addTask (r : Routine) {xs : List Scope}
    (h : ∃ a ∈ xs, a.element.isModule = true) :
    ∃ a ∈ State.addTask r xs, a.element.isModule = true ∧ r ∈ a.element.tasks := by
  induction xs with
  | nil => simp at h
  | cons x xs ih =>
    obtain ⟨e, pending⟩ := x
    cases e with
    | module m => exact ⟨_, List.mem_cons_self, rfl, by simp [Element.tasks]⟩
    | routine q =>
      obtain ⟨a, ha, hm⟩ := h
      rcases List.mem_cons.mp ha with rfl | ha
      · cases hm
      · obtain ⟨b, hb, hr⟩ := ih ⟨a, ha, hm⟩
        exact ⟨b, List.mem_cons_of_mem _ hb, hr⟩

/-! ### Moves of the stack -/

/-- What happens to the stack: scopes grow, one is opened above them, or the innermost one is
closed. -/
inductive Moves (s t : State) : Prop
  | stays (h : Later s.scopes t.scopes) (hf : t.file = s.file)
  | opens {top : Scope} {rest : List Scope} (ht : t.scopes = top :: rest)
    (h : Later s.scopes rest) (hf : t.file = s.file)
  | closes {top : Scope} {rest : List Scope} (hs : s.scopes = top :: rest) (ht : t = s.closeTop)

namespace State

variable {s t : State}

theorem later_setPending (items : List Item) : Later s.scopes (s.setPending items).scopes := by
  unfold setPending
  split
  · exact .refl _
  · next top rest h =>
    rw [h]
    exact .cons (.refl _) (Later.refl rest)

theorem later_mapOwner {f : Body → Body} (hi : ∀ b, (f b).items = b.items)
    (hp : ∀ b, b.parameters <+: (f b).parameters) (hs : ∀ b, b.signals <+: (f b).signals) :
    Later s.scopes (s.mapOwner f).scopes := by
  unfold mapOwner
  split
  · exact .refl _
  · next top rest h =>
    rw [h]
    exact .cons (Element.extends_mapBody hi hp hs _) (Later.refl rest)

/-- Closing the innermost scope adds to what is below it. -/
theorem later_closeTop {top : Scope} {rest : List Scope} (h : s.scopes = top :: rest) :
    Later rest s.closeTop.scopes := by
  obtain ⟨m, hs, -⟩ | ⟨r, hs, -⟩ := closeTop_cases h
  · rw [hs]
    exact .refl rest
  · rw [hs]
    exact later_addTask r rest

theorem depth_closeTop (s : State) : s.closeTop.depth = s.depth - 1 := by
  rw [← length_headings, headings_closeTop, List.length_tail, length_headings]

/-- Closing a scope changes nothing in the file but the list of modules, which may get longer. -/
theorem file_closeTop (s : State) :
    ∃ ms, s.closeTop.file = { s.file with modules := s.file.modules ++ ms } := by
  cases h : s.scopes with
  | nil => exact ⟨[], by simp [closeTop, h]⟩
  | cons top rest =>
    obtain ⟨m, -, hf⟩ | ⟨r, -, hf⟩ := closeTop_cases h
    · exact ⟨[m], hf⟩
    · exact ⟨[], by simp [hf]⟩

end State

variable {ν : Type} [Inspect ν] {source : String}

theorem moves_of_step {s t : State} {e : Event ν} (h : Step s e t) : Moves s t := by
  cases h with
  | comment => exact .stays (State.later_setPending _) (State.file_setPending s _)
  | opens k _ _ => exact .opens rfl (State.later_setPending []) (State.file_push s _)
  | closes k n hs _ => exact .closes hs rfl
  | ignores k n _ => exact .stays (.refl _) rfl
  | ports _ _ =>
    refine .stays (State.later_mapOwner ?_ ?_ ?_) (State.file_mapOwner s _)
    · exact fun _ => rfl
    · exact fun _ => List.prefix_rfl
    · exact fun _ => List.prefix_rfl
  | parameters _ =>
    refine .stays ((State.later_mapOwner ?_ ?_ ?_).trans (State.later_setPending _)) ?_
    · exact fun _ => rfl
    · exact fun _ => List.prefix_append _ _
    · exact fun _ => List.prefix_rfl
    · simp [State.addParameters]
  | signals _ ht =>
    obtain ⟨width, -, rfl⟩ := addSignals_eq_ok.mp ht
    refine .stays ((State.later_mapOwner ?_ ?_ ?_).trans (State.later_setPending _)) ?_
    · exact fun _ => rfl
    · exact fun _ => List.prefix_rfl
    · exact fun _ => List.prefix_append _ _
    · simp
  | idle _ => exact .stays (.refl _) rfl

/-! ### From a scope to its end -/

/-- The lowest `n` of the open scopes. -/
def State.bottom (n : Nat) (s : State) : List Scope := s.scopes.drop (s.depth - n)

theorem State.bottom_depth {n : Nat} {s : State} (h : s.depth = n) : s.bottom n = s.scopes := by
  simp [State.bottom, h]

/-- Scopes that are open before and after a move are at a later stage after it. -/
theorem Moves.bottom {n : Nat} {s t : State} (h : Moves s t) (hs : n ≤ s.depth)
    (ht : n ≤ t.depth) : Later (s.bottom n) (t.bottom n) := by
  simp only [State.bottom, State.depth] at *
  cases h with
  | stays h _ =>
    rw [← h.length_eq]
    exact List.forall₂_drop _ h
  | opens htop h _ =>
    rw [htop, List.length_cons, ← h.length_eq, Nat.succ_sub hs, List.drop_succ_cons]
    exact List.forall₂_drop _ h
  | closes htop hc =>
    subst hc
    have h := State.later_closeTop htop
    rw [← h.length_eq] at ht ⊢
    rw [htop, List.length_cons, Nat.succ_sub ht, List.drop_succ_cons]
    exact List.forall₂_drop _ h

/-- Only closing lowers the stack, and by one. -/
theorem Moves.eq_closeTop {n : Nat} {s t : State} (h : Moves s t) (hs : n ≤ s.depth)
    (ht : ¬ n ≤ t.depth) : t = s.closeTop ∧ s.depth = n := by
  simp only [State.depth] at hs ht
  cases h with
  | stays h _ => exact absurd (h.length_eq ▸ hs) ht
  | opens htop h _ =>
    rw [htop, List.length_cons, ← h.length_eq] at ht
    exact absurd (Nat.le_succ_of_le hs) ht
  | closes htop hc =>
    subst hc
    rw [← (State.later_closeTop htop).length_eq] at ht
    rw [htop, List.length_cons] at hs
    refine ⟨rfl, ?_⟩
    rw [State.depth, htop, List.length_cons]
    omega

/-- Moves from a state through others to the last of them. -/
inductive Passes : State → List State → State → Prop
  | stop (s : State) : Passes s [] s
  | move {s t u : State} {states : List State} (h : Moves s t) (hr : Passes t states u) :
    Passes s (t :: states) u

/-- The state in which the scope at height `n` is closed if `states` follow upon `s`: the last one
before the stack gets lower. -/
def closingState (n : Nat) (s : State) : List State → State
  | [] => s
  | t :: states => if n ≤ t.depth then closingState n t states else s

namespace Passes

variable {s u : State} {states : List State}

theorem file_eq (h : Passes s states u) :
    ∃ ms, u.file = { s.file with modules := s.file.modules ++ ms } := by
  induction h with
  | stop s => exact ⟨[], by simp⟩
  | @move s t u _ hm _ ih =>
    obtain ⟨ns, hu⟩ := ih
    cases hm with
    | stays _ hf => exact ⟨ns, by rw [hu, hf]⟩
    | opens _ _ hf => exact ⟨ns, by rw [hu, hf]⟩
    | closes _ ht =>
      obtain ⟨ms, hs⟩ := s.file_closeTop
      exact ⟨ms ++ ns, by rw [hu, ht, hs]; simp⟩

/-- If all scopes are closed at last, every scope is closed in some state, as the innermost one. -/
theorem later_closingState (h : Passes s states u) (hu : u.scopes = []) {n : Nat} (h0 : 0 < n)
    (hn : n ≤ s.depth) :
    Later (s.bottom n) (closingState n s states).scopes ∧
      ∃ rest, Passes (closingState n s states).closeTop rest u := by
  induction h with
  | stop s => exact absurd hn (by simp [State.depth, hu]; omega)
  | @move s t u states hm hr ih =>
    by_cases ht : n ≤ t.depth
    · obtain ⟨hl, hp⟩ := ih hu ht
      rw [closingState, if_pos ht]
      exact ⟨(hm.bottom hn ht).trans hl, hp⟩
    · obtain ⟨rfl, hd⟩ := hm.eq_closeTop hn ht
      rw [closingState, if_neg ht, State.bottom_depth hd]
      exact ⟨.refl _, states, hr⟩

end Passes

/-! ### The record in the document -/

/-- What a scope is known by, read off the record as which it is closed. -/
def Heading.Heads (h : Heading) : Element → Prop
  | .module m =>
    h.kind = .module ∧ m.name = h.name ∧
      m.summary = if h.texts = [] then none else some ("\n".intercalate h.texts)
  | .routine r =>
    h.kind = (if r.isFunction then .function else .task) ∧ r.name = h.name ∧
      r.summary = "\n".intercalate h.texts

/-- Whether a record is in a file, by itself or as a task of a module. -/
def Filed (f : File) : Element → Prop
  | .module m => m ∈ f.modules
  | .routine r => ∃ m ∈ f.modules, r ∈ m.tasks

/-- A record at the end of its scope, and as it is closed with the items of the scope. -/
structure Element.Associated (items : List Item) (e x : Element) : Prop where
  ports : documentedPort.Resolves items e.body.ports x.body.ports
  parameters : documentedParameter.Resolves items e.body.parameters x.body.parameters
  items : x.body.items = items.filter fun i => ! i.isSummary && ! i.isNameDoc
  signals : x.body.signals = e.body.signals
  tasks : x.tasks = e.tasks
  kind : x.heading.kind = e.heading.kind
  name : x.heading.name = e.heading.name

theorem joinedSummary_eq (items : List Item) :
    joinedSummary items = "\n".intercalate (summaryTexts items) := rfl

theorem any_isSummary (items : List Item) :
    items.any Item.isSummary = ! (summaryTexts items).isEmpty := by
  induction items with
  | nil => rfl
  | cons i items ih =>
    cases h : i.summary? <;> simp_all [summaryTexts, Item.isSummary]

/-- A record is closed under its own heading. -/
theorem heads_associate (e : Element) : e.heading.Heads e.associate := by
  cases e with
  | module m =>
    refine ⟨rfl, rfl, ?_⟩
    cases h : summaryTexts m.items <;>
      simp [associateModule, joinedSummary_eq, any_isSummary, Element.heading, h]
  | routine r => exact ⟨rfl, rfl, rfl⟩

/-- Text that waits when a scope is closed does not count for its summary. -/
theorem heading_settled (scope : Scope) : scope.settled.heading = scope.element.heading :=
  Element.heading_mapBody (by simp [summaryTexts_filter_not_isSummary])

theorem heads_settled (scope : Scope) : scope.element.heading.Heads scope.settled.associate :=
  heading_settled scope ▸ heads_associate scope.settled

theorem associated_settled (a : Scope) :
    a.element.Associated (a.element.body.items ++ a.pending.filter (! ·.isSummary))
      a.settled.associate where
  ports := by
    rw [Element.body_associate, associateBody, describePorts_eq, Scope.settled,
      Element.body_mapBody]
    exact documentedPort.resolves_foldl_note _ _
  parameters := by
    rw [Element.body_associate, associateBody, describeParameters_eq, Scope.settled,
      Element.body_mapBody]
    exact documentedParameter.resolves_foldl_note _ _
  items := by
    rw [Element.body_associate, associateBody, Scope.settled, Element.body_mapBody]
    rfl
  signals := by
    rw [Element.body_associate, associateBody, Scope.settled, Element.body_mapBody]
  tasks := by
    obtain ⟨e, pending⟩ := a
    cases e <;> rfl
  kind := by
    obtain ⟨e, pending⟩ := a
    cases e <;> rfl
  name := by
    obtain ⟨e, pending⟩ := a
    cases e <;> rfl

theorem isModule_settled (a : Scope) : a.settled.associate.isModule = a.element.isModule := by
  obtain ⟨e, pending⟩ := a
  cases e <;> rfl

namespace Passes

variable {s u : State} {states : List State}

/-- The scope at height `n` is closed at a later stage, and the scopes below it are still there. -/
theorem exists_closingState (h : Passes s states u) (hu : u.scopes = []) {n : Nat} {scope : Scope}
    {below : List Scope} (hs : s.bottom n = scope :: below) (hn : n ≤ s.depth) :
    ∃ (last : Scope) (under : List Scope) (rest : List State),
      (closingState n s states).scopes = last :: under ∧ scope.element.Extends last.element ∧
      Later below under ∧ Passes (closingState n s states).closeTop rest u := by
  have h0 : 0 < n := by
    refine Nat.pos_of_ne_zero fun h0 => ?_
    simp [State.bottom, State.depth, h0] at hs
  obtain ⟨hl, rest, hp⟩ := h.later_closingState hu h0 hn
  rw [hs] at hl
  obtain ⟨last, under, he, hu, ha⟩ := List.forall₂_cons_left_iff.mp hl
  exact ⟨last, under, rest, ha, he, hu, hp⟩

/-- A module that is closed stays in the file. -/
theorem mem_modules {a : State} {top : Scope} {under : List Scope} {m : Module}
    (h : Passes a.closeTop states u) (ha : a.scopes = top :: under)
    (hm : top.settled.associate = .module m) : m ∈ u.file.modules := by
  obtain ⟨ms, hf⟩ := h.file_eq
  have hr : a.record? = some (.module m) := by rw [State.record?_of_scopes ha, hm]
  rw [hf, (State.closeTop_module ha hr).2]
  simp

/-- An open module comes to the file, with the tasks that it has by now. -/
theorem exists_module (h : Passes s states u) (hu : u.scopes = []) {scope : Scope}
    (hs : scope ∈ s.scopes) (hm : scope.element.isModule = true) :
    ∃ m ∈ u.file.modules, scope.element.tasks <+: m.tasks := by
  obtain ⟨above, below, hd⟩ := List.append_of_mem hs
  have hb : s.bottom (below.length + 1) = scope :: below := by
    simp [State.bottom, State.depth, hd]
  obtain ⟨last, under, rest, ha, hx, -, hp⟩ :=
    h.exists_closingState hu hb (by simp [State.depth, hd])
  have hlast : last.settled.associate.isModule = true := by
    rw [isModule_settled, hx.isModule, hm]
  have ht : scope.element.tasks <+: last.settled.associate.tasks := by
    rw [(associated_settled last).tasks]
    exact hx.tasks
  cases hr : last.settled.associate with
  | module m =>
    rw [hr] at ht
    exact ⟨m, hp.mem_modules ha hr, ht⟩
  | routine r =>
    rw [hr] at hlast
    cases hlast

/-- The record of a module, or of a routine in a module, comes to the file. -/
theorem filed (h : Passes s states u) (hu : u.scopes = []) {n : Nat} {scope : Scope}
    {below : List Scope} (hs : s.bottom n = scope :: below) (hn : n ≤ s.depth) :
    ∃ last under, (closingState n s states).scopes = last :: under ∧
      scope.element.Extends last.element ∧
      ((∃ a ∈ scope :: below, a.element.isModule = true) →
        Filed u.file last.settled.associate) := by
  obtain ⟨last, under, rest, ha, hx, hl, hp⟩ := h.exists_closingState hu hs hn
  refine ⟨last, under, ha, hx, fun ⟨b, hb, hm⟩ => ?_⟩
  cases hr : last.settled.associate with
  | module m => exact hp.mem_modules ha hr
  | routine r =>
    have hb : b ∈ below := by
      refine (List.mem_cons.mp hb).resolve_left fun h => ?_
      have hlast := isModule_settled last
      rw [hr, hx.isModule, ← h, hm] at hlast
      cases hlast
    have hrec : (closingState n s states).record? = some (.routine r) := by
      rw [State.record?_of_scopes ha, hr]
    obtain ⟨c, hc, hcm, hct⟩ := exists_mem_addTask r (hl.exists_isModule ⟨b, hb, hm⟩)
    rw [← (State.closeTop_routine ha hrec).1] at hc
    obtain ⟨m, hm, ht⟩ := hp.exists_module hu hc hcm
    exact ⟨m, hm, ht.subset hct⟩

end Passes

/-! ### The end of a run -/

theorem State.repeat_closeTop_succ (n : Nat) (s : State) :
    Nat.repeat State.closeTop (n + 1) s = Nat.repeat State.closeTop n s.closeTop := by
  induction n with
  | zero => rfl
  | succ n ih => rw [Nat.repeat, ih, Nat.repeat]

theorem State.depth_repeat_closeTop (n : Nat) (s : State) :
    (Nat.repeat State.closeTop n s).depth = s.depth - n := by
  induction n with
  | zero => rfl
  | succ n ih => rw [Nat.repeat, depth_closeTop, ih, Nat.sub_sub]

/-- No scope is left open. -/
theorem State.scopes_closeAll (s : State) : s.closeAll.scopes = [] := by
  rw [← List.length_eq_zero_iff]
  exact (depth_repeat_closeTop s.depth s).trans (Nat.sub_self _)

/-- The states that follow upon `s` if `n` scopes are closed. -/
def closings : Nat → State → List State
  | 0, _ => []
  | n + 1, s => s.closeTop :: closings n s.closeTop

theorem passes_closings {n : Nat} {s : State} (hn : n ≤ s.depth) :
    Passes s (closings n s) (Nat.repeat State.closeTop n s) := by
  induction n generalizing s with
  | zero => exact .stop s
  | succ n ih =>
    obtain ⟨top, rest, h⟩ := List.exists_cons_of_length_pos (Nat.lt_of_lt_of_le n.succ_pos hn)
    rw [State.repeat_closeTop_succ]
    refine .move (.closes h rfl) (ih ?_)
    rw [State.depth_closeTop]
    exact Nat.le_sub_one_of_lt hn

/-- The states that follow upon `s`: one for each event, then one for each scope that the end of
the stream closes. -/
def following (source : String) (s : State) : List (Event ν) → List State
  | [] => closings s.depth s
  | e :: es =>
    match s.feed source e with
    | .ok t => t :: following source t es
    | .error _ => []

theorem passes_following {s u : State} {es : List (Event ν)}
    (h : feedAll source s es = ⟨u, none⟩) : Passes s (following source s es) u.closeAll := by
  induction es generalizing s with
  | nil =>
    obtain rfl : s = u := congrArg Outcome.state h
    exact passes_closings (Nat.le_refl _)
  | cons e es ih =>
    obtain ⟨t, ht, hr⟩ := feedAll_cons_iff.mp h
    simp only [following, ht]
    exact .move (moves_of_step (step_of_feed ht)) (ih hr)

/-- The state in which the innermost scope of `s` is closed, by one of the events that come or at
the end of the stream. -/
def ending (source : String) (s : State) (es : List (Event ν)) : State :=
  closingState s.depth s (following source s es)

/-- The innermost scope is closed at a later stage, and its record is in the file if the scope is a
module or stands in one. -/
theorem exists_ending {s u : State} {es : List (Event ν)} {top : Scope} {rest : List Scope}
    (h : feedAll source s es = ⟨u, none⟩) (hs : s.scopes = top :: rest) :
    ∃ last under, (ending source s es).scopes = last :: under ∧
      top.element.Extends last.element ∧
      ((∃ a ∈ s.scopes, a.element.isModule = true) →
        Filed u.closeAll.file last.settled.associate) := by
  have hb : s.bottom s.depth = top :: rest := (State.bottom_depth rfl).trans hs
  rw [hs]
  exact (passes_following h).filed u.scopes_closeAll hb (Nat.le_refl _)

end DesignDoc.Assembly
