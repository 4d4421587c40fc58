import DesignDoc.Proofs.Assembly.Step

/-! Which scopes are open. A scope has a heading, fixed when it is opened, and the headings of the
open scopes form a stack that grows and shrinks at its top only. In a stream where every end of a
construct matches a beginning, each end closes the scope that its own beginning opened. -/

namespace DesignDoc.Assembly

open DesignDoc.Annotation DesignDoc.Document DesignDoc.Event DesignDoc.Json

/-! ### Headings -/

/-- What a scope is known by: its kind, its name, and the texts of the summaries handed to it. -/
structure Heading where
  kind : ScopeKind
  name : Value
  texts : List String
  deriving DecidableEq, Repr

def summaryTexts (items : List Item) : List String := items.filterMap Item.summary?

@[simp] theorem summaryTexts_nil : summaryTexts [] = [] := rfl

@[simp] theorem summaryTexts_append (xs ys : List Item) :
    summaryTexts (xs ++ ys) = summaryTexts xs ++ summaryTexts ys :=
  List.filterMap_append

theorem summaryTexts_filter_not_isSummary (items : List Item) :
    summaryTexts (items.filter (! ·.isSummary)) = [] := by
  simp only [summaryTexts, List.filterMap_filter, List.filterMap_eq_nil_iff]
  intro i _
  cases h : i.summary? <;> simp [Item.isSummary, h]

namespace Element

def heading : Element → Heading
  | module m => ⟨.module, m.name, summaryTexts m.items⟩
  | routine r => ⟨if r.isFunction then .function else .task, r.name, summaryTexts r.items⟩

theorem heading_mapBody {f : Body → Body} {e : Element}
    (h : summaryTexts (f e.body).items = summaryTexts e.body.items) :
    (e.mapBody f).heading = e.heading := by
  cases e <;> simp [mapBody, heading, body] at h ⊢ <;> exact h

theorem closes_of_heading {k : ScopeKind} {e : Element} (h : e.heading.kind = k) :
    k.closes e = true := by
  subst h
  cases e with
  | module m => rfl
  | routine r => cases hf : r.isFunction <;> simp [heading, hf] <;> rfl

/-- Handing items to a fresh record. -/
theorem heading_open (k : ScopeKind) (name : Value) (items : List Item) :
    ((k.element name).mapBody fun b => { b with items := b.items ++ items }).heading =
      ⟨k, name, summaryTexts items⟩ := by
  cases k <;> simp [ScopeKind.element, mapBody, heading]

end Element

namespace State

/-- The headings of the open scopes, innermost first. -/
def headings (s : State) : List Heading := s.scopes.map (·.element.heading)

@[simp] theorem length_headings (s : State) : s.headings.length = s.depth := by
  simp [headings, depth]

variable {s t : State}

@[simp] theorem headings_setPending (items : List Item) :
    (s.setPending items).headings = s.headings := by
  unfold setPending
  split <;> simp [headings, *]

theorem headings_mapOwner {f : Body → Body} (hf : ∀ b, (f b).items = b.items) :
    (s.mapOwner f).headings = s.headings := by
  unfold mapOwner
  split
  · rfl
  · next top rest h =>
    have ht : (top.element.mapBody f).heading = top.element.heading :=
      Element.heading_mapBody (by rw [hf])
    simp [headings, h, ht]

theorem headings_push (k : ScopeKind) (name : Value) :
    (s.push (k.element name)).headings = ⟨k, name, summaryTexts s.pending⟩ :: s.headings := by
  have hs : (s.setPending []).scopes.map (·.element.heading) = s.headings := headings_setPending []
  simp only [push, headings, List.map_cons, Element.heading_open]
  exact congrArg _ hs

theorem map_heading_addTask (r : Routine) (scopes : List Scope) :
    (addTask r scopes).map (·.element.heading) = scopes.map (·.element.heading) := by
  induction scopes with
  | nil => rfl
  | cons scope rest ih =>
    obtain ⟨e, pending⟩ := scope
    cases e with
    | module m => rfl
    | routine q => simp [addTask, ih]

theorem headings_closeTop (s : State) : s.closeTop.headings = s.headings.tail := by
  cases h : s.scopes with
  | nil => simp [closeTop, h, headings]
  | cons top rest =>
    obtain ⟨m, hs, -⟩ | ⟨r, hs, -⟩ := closeTop_cases h
    · simp [headings, hs, h]
    · simp [headings, hs, h, map_heading_addTask]

/-- A scope is closed by the end of a construct of its kind. -/
theorem leave_of_headings {k : ScopeKind} {h : Heading} {hs : List Heading}
    (hd : s.headings = h :: hs) (hk : h.kind = k) : s.leave k.closes = s.closeTop := by
  obtain ⟨top, rest, hs, rfl, -⟩ := List.map_eq_cons_iff.mp hd
  simp [leave, hs, Element.closes_of_heading hk]

theorem headings_addPorts (d : Declaration) : (s.addPorts d).headings = s.headings :=
  headings_mapOwner fun _ => rfl

theorem headings_addParameters (d : Declaration) : (s.addParameters d).headings = s.headings := by
  rw [addParameters, headings_setPending]
  exact headings_mapOwner fun _ => rfl

theorem headings_addSignals {d : Declaration} (h : s.addSignals d = .ok t) :
    t.headings = s.headings := by
  obtain ⟨width, -, rfl⟩ := addSignals_eq_ok.mp h
  rw [headings_setPending]
  exact headings_mapOwner fun _ => rfl

end State

variable {ν : Type}

/-- Only modules, functions and tasks open and close scopes. -/
theorem headings_of_step [Inspect ν] {s t : State} {e : Event ν} (h : Step s e t)
    (he : ∀ k : ScopeKind, e.kind ≠ k.kind) : t.headings = s.headings := by
  cases h with
  | comment => exact State.headings_setPending _
  | opens k => exact absurd rfl (he k)
  | closes k => exact absurd rfl (he k)
  | ignores k => exact absurd rfl (he k)
  | ports => exact State.headings_addPorts _
  | parameters => exact State.headings_addParameters _
  | signals _ ht => exact State.headings_addSignals ht
  | idle => rfl

/-! ### Balanced streams -/

/-- Streams in which the beginnings and ends of modules, functions and tasks match. -/
inductive Balanced : List (Event ν) → Prop
  | nil : Balanced []
  | other {e : Event ν} {es : List (Event ν)} (he : ∀ k : ScopeKind, e.kind ≠ k.kind)
    (h : Balanced es) : Balanced (e :: es)
  | scope (k : ScopeKind) (n : Option ν) {inner es : List (Event ν)} (hi : Balanced inner)
    (h : Balanced es) : Balanced (⟨.enter, k.kind, n⟩ :: (inner ++ ⟨.leave, k.kind, n⟩ :: es))

namespace Balanced

variable {es fs : List (Event ν)}

theorem append (h : Balanced es) (h' : Balanced fs) : Balanced (es ++ fs) := by
  induction h with
  | nil => exact h'
  | other he _ ih => exact .other he ih
  | scope k n hi _ _ ih =>
    rw [List.cons_append, List.append_assoc, List.cons_append]
    exact .scope k n hi ih

/-- Every end has its beginning, with a balanced stream between them. -/
theorem exists_enter (h : Balanced es) {k : ScopeKind} {n : Option ν} {left right : List (Event ν)}
    (hs : es = left ++ ⟨.leave, k.kind, n⟩ :: right) :
    ∃ pre inner, left = pre ++ ⟨.enter, k.kind, n⟩ :: inner ∧ Balanced inner := by
  induction h generalizing left right with
  | nil => simp at hs
  | @other e es he _ ih =>
    cases left with
    | nil =>
      obtain ⟨rfl, -⟩ := List.cons.inj hs
      exact absurd rfl (he k)
    | cons l left =>
      obtain ⟨rfl, ht⟩ := List.cons.inj hs
      obtain ⟨pre, inner, rfl, hi⟩ := ih ht
      exact ⟨e :: pre, inner, rfl, hi⟩
  | @scope k' n' mid es hi _ ihm ih =>
    cases left with
    | nil => cases (List.cons.inj hs).1
    | cons l left =>
      obtain ⟨rfl, ht⟩ := List.cons.inj hs
      -- The end in question stands inside this construct, or is its end, or comes after it.
      rcases List.append_eq_append_iff.mp ht with ⟨after, rfl, ha⟩ | ⟨after, rfl, ha⟩
      · cases after with
        | nil =>
          obtain ⟨he, -⟩ := List.cons.inj ha
          obtain ⟨-, hk, hn⟩ := Event.mk.inj he
          exact ⟨[], mid, by simp [hk, hn], hi⟩
        | cons a after =>
          obtain ⟨rfl, he⟩ := List.cons.inj ha
          obtain ⟨pre, inner, rfl, hb⟩ := ih he
          exact ⟨⟨.enter, k'.kind, n'⟩ :: (mid ++ ⟨.leave, k'.kind, n'⟩ :: pre), inner, by simp, hb⟩
      · cases after with
        | nil =>
          obtain ⟨he, -⟩ := List.cons.inj ha
          obtain ⟨-, hk, hn⟩ := Event.mk.inj he
          exact ⟨[], left, by simp [hk, hn], by simpa using hi⟩
        | cons a after =>
          obtain ⟨rfl, -⟩ := List.cons.inj ha
          obtain ⟨pre, inner, rfl, hb⟩ := ihm rfl
          exact ⟨⟨.enter, k'.kind, n'⟩ :: pre, inner, rfl, hb⟩

end Balanced

/-! ### Runs over balanced streams -/

variable [Inspect ν] {source : String}

/-- A run on which scopes of given headings stay open all the time, at the bottom of the stack. -/
inductive RunsAbove (source : String) (hs : List Heading) :
    State → List (Event ν) → State → Prop
  | nil {s : State} (h : hs <:+ s.headings) : RunsAbove source hs s [] s
  | cons {s t u : State} {e : Event ν} {es : List (Event ν)} (h : hs <:+ s.headings)
    (he : s.feed source e = .ok t) (hr : RunsAbove source hs t es u) :
    RunsAbove source hs s (e :: es) u

namespace RunsAbove

variable {hs gs : List Heading} {s t u : State} {es fs : List (Event ν)}

theorem mono (h : RunsAbove source hs s es t) (hg : gs <:+ hs) : RunsAbove source gs s es t := by
  induction h with
  | nil h => exact .nil (hg.trans h)
  | cons h he _ ih => exact .cons (hg.trans h) he ih

theorem append (h : RunsAbove source hs s es t) (h' : RunsAbove source hs t fs u) :
    RunsAbove source hs s (es ++ fs) u := by
  induction h with
  | nil => exact h'
  | cons h he _ ih => exact .cons h he (ih h')

end RunsAbove

/-- A balanced stream closes only what it has opened itself. -/
theorem Balanced.runsAbove {es : List (Event ν)} (h : Balanced es) {s t : State}
    (hr : feedAll source s es = ⟨t, none⟩) :
    RunsAbove source s.headings s es t ∧ t.headings = s.headings := by
  induction h generalizing s t with
  | nil =>
    obtain rfl : s = t := congrArg Outcome.state hr
    exact ⟨.nil List.suffix_rfl, rfl⟩
  | other he _ ih =>
    obtain ⟨s₁, h₁, hr⟩ := feedAll_cons_iff.mp hr
    have hh := headings_of_step (step_of_feed h₁) he
    obtain ⟨ha, ht⟩ := ih hr
    rw [hh] at ha ht
    exact ⟨.cons List.suffix_rfl h₁ ha, ht⟩
  | scope k n _ _ ihi ih =>
    obtain ⟨s₁, h₁, hr⟩ := feedAll_cons_iff.mp hr
    obtain ⟨s₂, s₃, h₂, h₃, hr⟩ := feedAll_split_iff.mp hr
    obtain ⟨name, -, -, rfl⟩ := feed_enter_iff.mp h₁
    have hp := State.headings_push (s := s) k name
    obtain ⟨ha₂, hh₂⟩ := ihi h₂
    rw [hp] at hh₂
    -- The scope on top is the one that was pushed, so the end closes it.
    obtain rfl := Except.ok.inj ((feed_leave s₂ k n).symm.trans h₃)
    rw [State.leave_of_headings hh₂ rfl] at h₃ hr
    have hh₃ : s₂.closeTop.headings = s.headings := by
      rw [State.headings_closeTop, hh₂, List.tail_cons]
    obtain ⟨ha, ht⟩ := ih hr
    rw [hh₃] at ha ht
    have hup : s.headings <:+ (s.push (k.element name)).headings := by
      rw [hp]
      exact List.suffix_cons _ _
    have hlast : s.headings <:+ s₂.headings := by
      rw [hh₂]
      exact List.suffix_cons _ _
    exact ⟨.cons List.suffix_rfl h₁ ((ha₂.mono hup).append (.cons hlast h₃ ha)), ht⟩

/-- In a run from `s`, the construct that is entered after `pre` opens a scope, this scope stays
open all through `inner`, and the end of the construct after that closes it. -/
def Encloses (source : String) (s : State) (pre : List (Event ν)) (k : ScopeKind) (n : Option ν)
    (inner : List (Event ν)) : Prop :=
  ∃ a b c name, feedAll source s pre = ⟨a, none⟩ ∧ Inspect.identifier n = .ok name ∧
    a.feed source (⟨.enter, k.kind, n⟩ : Event ν) = .ok b ∧ b = a.push (k.element name) ∧
    RunsAbove source b.headings b inner c ∧ c.headings = b.headings ∧
    c.feed source (⟨.leave, k.kind, n⟩ : Event ν) = .ok c.closeTop ∧
    c.closeTop.headings = a.headings

theorem Balanced.encloses {inner : List (Event ν)} (hi : Balanced inner) {s t : State}
    {pre right : List (Event ν)} {k : ScopeKind} {n : Option ν}
    (h : feedAll source s (pre ++ ⟨.enter, k.kind, n⟩ :: (inner ++ ⟨.leave, k.kind, n⟩ :: right)) =
      ⟨t, none⟩) : Encloses source s pre k n inner := by
  obtain ⟨a, b, ha, hb, hr⟩ := feedAll_split_iff.mp h
  obtain ⟨c, d, hc, hd, -⟩ := feedAll_split_iff.mp hr
  obtain ⟨name, hn, -, rfl⟩ := feed_enter_iff.mp hb
  have hp := State.headings_push (s := a) k name
  obtain ⟨hra, hh⟩ := hi.runsAbove hc
  have hl := State.leave_of_headings (k := k) (hh.trans hp) rfl
  refine ⟨a, _, c, name, ha, hn, hb, rfl, hra, hh, hl ▸ feed_leave c k n, ?_⟩
  rw [State.headings_closeTop, hh, hp, List.tail_cons]

end DesignDoc.Assembly
