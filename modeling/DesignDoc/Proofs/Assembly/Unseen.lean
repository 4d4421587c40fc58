import DesignDoc.Proofs.Assembly.Step

/-! What the assembler never looks at. While events come in, only the open scopes and the waiting
items decide what becomes of an event; what is filed and what is reported is added to and never
read. So a change of a state that concerns these alone can be made before a run as well as after
it. -/

namespace DesignDoc.Assembly

open DesignDoc.Annotation DesignDoc.Document DesignDoc.Event DesignDoc.Json

namespace State

/-- A change of states that the assembler does not see: it leaves the open scopes and the waiting
items alone, and it does not matter whether a report or a module is added before it or after it. -/
structure Unseen (φ : State → State) : Prop where
  scopes : ∀ s, (φ s).scopes = s.scopes
  filePending : ∀ s, (φ s).filePending = s.filePending
  setScopes : ∀ s scopes, φ { s with scopes } = { φ s with scopes }
  setFilePending : ∀ s filePending, φ { s with filePending } = { φ s with filePending }
  report : ∀ s scope cs, φ (s.report scope cs) = (φ s).report scope cs
  placeModule : ∀ s m, φ (s.place (.module m)) = (φ s).place (.module m)

namespace Unseen

variable {φ : State → State}

/-! ### Operations -/

theorem pending (h : Unseen φ) (s : State) : (φ s).pending = s.pending := by
  simp [State.pending, h.scopes, h.filePending]

theorem depth (h : Unseen φ) (s : State) : (φ s).depth = s.depth := by
  simp [State.depth, h.scopes]

theorem signalWidth (h : Unseen φ) (s : State) (d : Declaration) :
    (φ s).signalWidth d = s.signalWidth d := by
  simp [State.signalWidth, h.scopes]

theorem setPending (h : Unseen φ) (s : State) (items : List Item) :
    φ (s.setPending items) = (φ s).setPending items := by
  cases hs : s.scopes with
  | nil =>
    simp only [State.setPending, h.scopes, hs]
    simpa only [h.scopes, hs] using h.setFilePending s items
  | cons top rest =>
    simp only [State.setPending, h.scopes, hs]
    exact h.setScopes s _

theorem mapOwner (h : Unseen φ) (s : State) (f : Body → Body) :
    φ (s.mapOwner f) = (φ s).mapOwner f := by
  cases hs : s.scopes with
  | nil => simp only [State.mapOwner, h.scopes, hs]
  | cons top rest =>
    simp only [State.mapOwner, h.scopes, hs]
    exact h.setScopes s _

theorem push (h : Unseen φ) (s : State) (e : Element) : φ (s.push e) = (φ s).push e := by
  simp only [State.push, h.pending, ← h.setPending, h.scopes]
  exact h.setScopes _ _

theorem place (h : Unseen φ) (s : State) (e : Element) : φ (s.place e) = (φ s).place e := by
  cases e with
  | module m => exact h.placeModule s m
  | routine r =>
    simp only [State.place, h.scopes]
    exact h.setScopes s _

theorem closeTop (h : Unseen φ) (s : State) : φ s.closeTop = (φ s).closeTop := by
  cases hs : s.scopes with
  | nil => simp only [State.closeTop, h.scopes, hs]
  | cons top rest =>
    simp only [State.closeTop, h.scopes, hs, h.place, h.report]
    rw [h.setScopes s rest]

theorem leave (h : Unseen φ) (p : Element → Bool) (s : State) :
    φ (s.leave p) = (φ s).leave p := by
  cases hs : s.scopes with
  | nil => simp [State.leave, h.scopes, hs]
  | cons top rest => cases hp : p top.element <;> simp [State.leave, h.scopes, hs, hp, h.closeTop]

theorem repeat_closeTop (h : Unseen φ) (n : Nat) (s : State) :
    φ (Nat.repeat State.closeTop n s) = Nat.repeat State.closeTop n (φ s) := by
  induction n with
  | zero => rfl
  | succ n ih => rw [Nat.repeat, Nat.repeat, h.closeTop, ih]

theorem closeAll (h : Unseen φ) (s : State) : φ s.closeAll = (φ s).closeAll := by
  rw [State.closeAll, State.closeAll, h.depth, h.repeat_closeTop]

/-! ### Steps and runs -/

/-- What an action does, and whether it is possible, is the same before the change and after it. -/
theorem act (h : Unseen φ) (s : State) (a : Action) : (φ s).act a = (s.act a).map φ := by
  cases a with
  | signals d =>
    simp only [State.act, State.addSignals, h.signalWidth, h.pending, ← h.mapOwner, ← h.setPending]
    cases s.signalWidth d <;> rfl
  | parameters d =>
    simp only [State.act, State.addParameters, h.pending, ← h.mapOwner, ← h.setPending]
    rfl
  | ports d =>
    simp only [State.act, State.addPorts, ← h.mapOwner]
    rfl
  | comment text =>
    simp only [State.act, h.pending, ← h.setPending]
    rfl
  | openModule name =>
    simp only [State.act, ← h.push]
    rfl
  | openRoutine isFunction name =>
    simp only [State.act, ← h.push]
    rfl
  | closeModule =>
    simp only [State.act, ← h.leave]
    rfl
  | closeRoutine =>
    simp only [State.act, ← h.leave]
    rfl
  | skip => rfl

variable {ν : Type} [Inspect ν]

theorem feed (h : Unseen φ) (source : String) (s : State) (e : Event ν) :
    (φ s).feed source e = (s.feed source e).map φ := by
  unfold State.feed
  cases actionOf source e with
  | error f => rfl
  | ok a => exact h.act s a

theorem feedAll (h : Unseen φ) (source : String) (s : State) (es : List (Event ν)) :
    Assembly.feedAll source (φ s) es =
      ⟨φ (Assembly.feedAll source s es).state, (Assembly.feedAll source s es).fault⟩ := by
  induction es generalizing s with
  | nil => rfl
  | cons e es ih =>
    have hφ := h.feed source s e
    cases he : s.feed source e with
    | ok t =>
      rw [he] at hφ
      rw [feedAll_cons_ok he, feedAll_cons_ok hφ, ih]
    | error f =>
      rw [he] at hφ
      rw [feedAll_cons_error he, feedAll_cons_error hφ]

end Unseen

end State

end DesignDoc.Assembly
