import DesignDoc.Assembly.State

/-! Running the assembler over a source. A fault ends the run, and what was assembled before it is
kept. -/

namespace DesignDoc.Assembly

open DesignDoc.Document DesignDoc.Event

/-- The state that is reached, and the fault that ended the run there. -/
structure Outcome where
  state : State
  fault : Option Fault := none
  deriving DecidableEq, Repr

variable {ν : Type} [Inspect ν]

/-- Take in events until one of them is refused. -/
def feedAll (source : String) (s : State) : List (Event ν) → Outcome
  | [] => ⟨s, none⟩
  | e :: es =>
    match s.feed source e with
    | .ok s => feedAll source s es
    | .error f => ⟨s, some f⟩

@[simp] theorem feedAll_nil (source : String) (s : State) :
    feedAll source s ([] : List (Event ν)) = ⟨s, none⟩ := rfl

theorem feedAll_cons_ok {source : String} {s t : State} {e : Event ν}
    (h : s.feed source e = .ok t) (es : List (Event ν)) :
    feedAll source s (e :: es) = feedAll source t es := by
  simp [feedAll, h]

theorem feedAll_cons_error {source : String} {s : State} {e : Event ν} {f : Fault}
    (h : s.feed source e = .error f) (es : List (Event ν)) :
    feedAll source s (e :: es) = ⟨s, some f⟩ := by
  simp [feedAll, h]

theorem feedAll_append {source : String} {s t : State} {es : List (Event ν)}
    (h : feedAll source s es = ⟨t, none⟩) (fs : List (Event ν)) :
    feedAll source s (es ++ fs) = feedAll source t fs := by
  induction es generalizing s with
  | nil =>
    obtain rfl : s = t := congrArg Outcome.state h
    rfl
  | cons e es ih =>
    cases he : s.feed source e with
    | ok s' =>
      rw [feedAll_cons_ok he] at h
      rw [List.cons_append, feedAll_cons_ok he, ih h]
    | error f =>
      rw [feedAll_cons_error he] at h
      exact absurd (congrArg Outcome.fault h) (by simp)

/-- Finish, unless the source broke off. -/
def conclude (breakOff : Option Question) (s : State) : Outcome :=
  match breakOff with
  | none => ⟨s.finish, none⟩
  | some q => ⟨s, some (.unanswered q)⟩

/-- Take in all events of a source and finish. -/
def run (source : Source ν) (s : State) : Outcome :=
  match feedAll source.name s source.events with
  | ⟨s, none⟩ => conclude source.breakOff s
  | o => o

/-- The document of a source; the file has the name of the source unless it is given another. -/
def assemble (source : Source ν) (fileName : Option String) (strict : Bool) : Outcome :=
  run source (.initial (fileName.getD source.name) strict)

end DesignDoc.Assembly
