import DesignDoc.Proofs.Assembly.Independence

/-! Streams that break off. What is still open when a stream ends is closed as if the ends of the
open constructs had come, so a truncated stream and the completed one give the same document and the
same reports. Finishing is done once: to finish again changes nothing. -/

namespace DesignDoc.Assembly

open DesignDoc.Annotation DesignDoc.Document DesignDoc.Event DesignDoc.Json

namespace State

theorem closeAll_closeAll (s : State) : s.closeAll.closeAll = s.closeAll :=
  closeAll_eq_self s.scopes_closeAll

theorem finished_closeAll (s : State) : s.closeAll.finished = s.finished :=
  closeAll_invariant (p := fun a => a.finished = s.finished)
    (fun a ha => (finished_closeTop a).trans ha) rfl

/-- Scopes that are closed before the end would be closed there. -/
theorem finish_closeAll {s : State} (h : s.finished = false) : s.closeAll.finish = s.finish := by
  simp [finish, finished_closeAll, h, closeAll_closeAll]

theorem finished_finish (s : State) : s.finish.finished = true := by
  unfold finish
  split <;> simp_all

theorem finish_eq_self {s : State} (h : s.finished = true) : s.finish = s := by
  simp [finish, h]

/-- A state that is finished stays as it is, however often it is finished again. -/
theorem repeat_finish {s : State} (h : s.finished = true) (n : Nat) :
    Nat.repeat finish n s = s := by
  induction n with
  | zero => rfl
  | succ n ih => rw [Nat.repeat, ih, finish_eq_self h]

end State

variable {ν : Type} [Inspect ν]

/-- A stream that breaks off is assembled as if the ends of all open constructs, innermost first,
came after it: the runs end in the same state, and finishing again, any number of times, leaves it
so. -/
theorem truncated_run_completed {name : String} {fileName : Option String} {strict : Bool}
    {es ends : List (Event ν)} {u : State}
    (h : feedAll name (.initial (fileName.getD name) strict) es = ⟨u, none⟩)
    (hends : List.Forall₂ Heading.EndedBy u.headings ends) :
    ∃ v : State, assembleEvents name fileName strict es = ⟨v, none⟩ ∧
      assembleEvents name fileName strict (es ++ ends) = ⟨v, none⟩ ∧
      ∀ n, Nat.repeat State.finish n v = v := by
  have hu : u.finished = false := (running_of_run h (State.running_initial _ strict)).finished
  have hall : feedAll name (.initial (fileName.getD name) strict) (es ++ ends) =
      ⟨u.closeAll, none⟩ := by
    rw [feedAll_append h, feedAll_endedBy hends]
  refine ⟨u.finish, assembleEvents_eq h, ?_, State.repeat_finish u.finished_finish⟩
  rw [assembleEvents_eq hall, State.finish_closeAll hu]

/-- A routine in a module in a routine in a module, all of them left open, with items that wait and
items that name nothing. -/
def cutSample : List (Event Recording.Node) :=
  Recording.build
    [.enterModule (.str "outer"), .enterRoutine false (.str "t"),
     .comment (.str "//* @port p gone"), .enterModule (.str "inner"),
     .enterRoutine true (.str "f"), .comment (.str "//* @state S lost")]

/-- The missing ends; the function is left as a task, and the task as a function. -/
def cutEnds : List (Event Recording.Node) :=
  [.leave .task, .leave .module, .leave .function, .leave .module]

theorem truncated_run_completed_cutSample :
    (feedAll "m.sv" (.initial "m.sv" true) cutSample).state.headings.map (·.kind) =
        [.function, .module, .task, .module] ∧
      assembleEvents "m.sv" none true (cutSample ++ cutEnds) =
        assembleEvents "m.sv" none true cutSample ∧
      (assembleEvents "m.sv" none true cutSample).state.file.modules.map
          (fun m => (m.name, m.tasks.map (·.name))) =
        [(.str "inner", [.str "f"]), (.str "outer", [.str "t"])] ∧
      (assembleEvents "m.sv" none true cutSample).state.diagnostics.map (·.scope) =
        ["function f", "module inner"] := by
  have hrun :=
    Outcome.eq_of_fault (o := feedAll "m.sv" (.initial "m.sv" true) cutSample) (by decide)
  have hends : List.Forall₂ Heading.EndedBy
      (feedAll "m.sv" (.initial "m.sv" true) cutSample).state.headings cutEnds := by
    decide
  obtain ⟨v, hcut, hwhole, -⟩ :=
    @truncated_run_completed _ _ "m.sv" none true _ _ _ hrun hends
  exact ⟨by decide, hwhole.trans hcut.symm, by decide, by decide⟩

end DesignDoc.Assembly
