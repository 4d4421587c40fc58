import DesignDoc.Proofs.Assembly.Unseen

/-! Strict assembly only observes. Of what is known to the assembler, strictness decides nothing but
what is reported, and reports are never looked at again. So if the reports of a strict run are
forgotten at any point, what is left is the run that is not strict: it refuses the same event for
the same reason, and it has the same file. -/

namespace DesignDoc.Assembly

open DesignDoc.Annotation DesignDoc.Document DesignDoc.Event DesignDoc.Json

/-! ### States without reports -/

namespace State

/-- The state in which nothing was reported and nothing will be. -/
def unreported (s : State) : State := { s with strict := false, diagnostics := [] }

/-- Reports are all that is forgotten, and the assembler never looks at them. -/
theorem unseen_unreported : Unseen unreported where
  scopes _ := rfl
  filePending _ := rfl
  setScopes _ _ := rfl
  setFilePending _ _ := rfl
  report s scope cs := by
    unfold State.report
    split <;> rfl
  placeModule _ _ := rfl

variable (s : State)

theorem unreported_repeat_closeTop (n : Nat) :
    (Nat.repeat closeTop n s).unreported = Nat.repeat closeTop n s.unreported :=
  unseen_unreported.repeat_closeTop n s

theorem unreported_closeFile : s.closeFile.unreported = s.unreported.closeFile := by
  unfold closeFile report
  split <;> rfl

theorem unreported_finish : s.finish.unreported = s.unreported.finish := by
  have hs : s.unreported.finished = s.finished := rfl
  cases h : s.finished with
  | true => simp [finish, hs, h]
  | false =>
    have hf (t : State) : ({ t with finished := true } : State).unreported =
        { t.unreported with finished := true } := rfl
    simp [finish, hs, h, hf, unreported_closeFile, unseen_unreported.closeAll]

end State

/-! ### Steps and runs -/

/-- The outcome with its reports forgotten. -/
def Outcome.unreported (o : Outcome) : Outcome := ⟨o.state.unreported, o.fault⟩

variable {ν : Type} [Inspect ν]

theorem feedAll_unreported (source : String) (s : State) (es : List (Event ν)) :
    feedAll source s.unreported es = (feedAll source s es).unreported :=
  State.unseen_unreported.feedAll source s es

theorem run_unreported (source : Source ν) (s : State) :
    run source s.unreported = (run source s).unreported := by
  have hf := feedAll_unreported source.name s source.events
  unfold run
  rw [hf]
  obtain ⟨t, fault⟩ := feedAll source.name s source.events
  cases fault with
  | none =>
    cases hb : source.breakOff <;> simp [Outcome.unreported, conclude, State.unreported_finish]
  | some f => rfl

/-! ### The same document -/

/-- The assembler of a source after its first `n` events, or at the fault before them. -/
def progress (source : Source ν) (fileName : Option String) (strict : Bool) (n : Nat) : Outcome :=
  feedAll source.name (.initial (fileName.getD source.name) strict) (source.events.take n)

theorem progress_false (source : Source ν) (fileName : Option String) (n : Nat) :
    progress source fileName false n = (progress source fileName true n).unreported :=
  feedAll_unreported source.name (.initial (fileName.getD source.name) true) _

theorem assemble_false (source : Source ν) (fileName : Option String) :
    assemble source fileName false = (assemble source fileName true).unreported :=
  run_unreported source (.initial (fileName.getD source.name) true)

/-- How an assembler that is not strict compares with a strict one on the same source. -/
structure OnlyObserves (source : Source ν) (fileName : Option String) : Prop where
  /-- Both break off for the same reason or for none. -/
  fault : (assemble source fileName false).fault = (assemble source fileName true).fault
  /-- They have the same file. -/
  file : (assemble source fileName false).state.file = (assemble source fileName true).state.file
  /-- After any number of events none of them was refused by either, or the same one was. -/
  faultAt : ∀ n, (progress source fileName false n).fault = (progress source fileName true n).fault
  /-- The one that is not strict reports nothing, neither after any number of events, nor while the
  scopes that are then open are closed, nor at the end. -/
  silent : ∀ n k,
    (Nat.repeat State.closeTop k (progress source fileName false n).state).diagnostics = []
  silentEnd : (assemble source fileName false).state.diagnostics = []

/-- Strictness changes nothing but what is reported. -/
theorem strict_only_observes (source : Source ν) (fileName : Option String) :
    OnlyObserves source fileName where
  fault := by
    rw [assemble_false]
    rfl
  file := by
    rw [assemble_false]
    rfl
  faultAt n := by
    rw [progress_false]
    rfl
  silent n k := by
    rw [progress_false, Outcome.unreported, ← State.unreported_repeat_closeTop]
    rfl
  silentEnd := by
    rw [assemble_false]
    rfl

end DesignDoc.Assembly
