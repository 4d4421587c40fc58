import DesignDoc.Proofs.Assembly.Reports
import DesignDoc.Proofs.Assembly.Unseen

/-! The modules of a file are independent of each other. Once all scopes are closed and nothing
waits, all that is left of the events so far is the modules in the file and what was reported. The
assembler looks at neither, so the rest of the stream is assembled as if it stood alone: its modules
come after the earlier ones, its reports after the earlier ones, and all else that the file says is
what the rest says. -/

namespace DesignDoc.Assembly

open DesignDoc.Annotation DesignDoc.Document DesignDoc.Event DesignDoc.Json

/-! ### States with a past -/

namespace State

/-- The state with modules that were filed and reports that were made before all of its own. -/
def preceded (ms : List Module) (ds : List Diagnostic) (s : State) : State :=
  { s with
    file := { s.file with modules := ms ++ s.file.modules }
    diagnostics := ds ++ s.diagnostics }

variable (ms : List Module) (ds : List Diagnostic) (s : State)

theorem preceded_report (scope : String) (cs : List Complaint) :
    (s.report scope cs).preceded ms ds = (s.preceded ms ds).report scope cs := by
  have hs : (s.preceded ms ds).strict = s.strict := rfl
  cases h : s.strict with
  | true => simp [report, h, preceded, List.append_assoc]
  | false => simp [report, hs, h]

theorem unseen_preceded : Unseen (preceded ms ds) where
  scopes _ := rfl
  filePending _ := rfl
  setScopes _ _ := rfl
  setFilePending _ _ := rfl
  report := preceded_report ms ds
  placeModule s m := by simp [place, preceded, List.append_assoc]

/-- The file is closed by what waits in it, not by its modules. -/
theorem preceded_closeFile : s.closeFile.preceded ms ds = (s.preceded ms ds).closeFile := by
  have hr := preceded_report ms ds s s.file.title
    (fileComplaints { s.file with items := s.file.items ++ s.filePending })
  have hf : (s.preceded ms ds).closeFile =
      { (s.preceded ms ds).report s.file.title
          (fileComplaints { s.file with items := s.file.items ++ s.filePending }) with
        file := { s.closeFile.file with modules := ms ++ s.file.modules }
        filePending := [] } := rfl
  rw [hf, ← hr]
  rfl

theorem preceded_finish : s.finish.preceded ms ds = (s.preceded ms ds).finish := by
  have hs : (s.preceded ms ds).finished = s.finished := rfl
  cases h : s.finished with
  | true => simp [finish, hs, h]
  | false =>
    have hf (t : State) : ({ t with finished := true } : State).preceded ms ds =
        { t.preceded ms ds with finished := true } := rfl
    simp [finish, hs, h, hf, preceded_closeFile, (unseen_preceded ms ds).closeAll]

end State

variable {ν : Type} [Inspect ν]

/-! ### Settled streams -/

/-- After the events `es` only the file is open and nothing waits in it. -/
def Settles (source name : String) (strict : Bool) (es : List (Event ν)) (u : State) : Prop :=
  feedAll source (.initial name strict) es = ⟨u, none⟩ ∧ u.scopes = [] ∧ u.filePending = []

section Settled

variable {source name : String} {strict : Bool} {es : List (Event ν)} {u : State}

/-- Of a stream that settles, modules and reports are all that is left. -/
theorem Settles.eq_preceded (h : Settles source name strict es u) :
    u = (State.initial name strict).preceded u.file.modules u.diagnostics := by
  obtain ⟨hrun, hscopes, hpending⟩ := h
  obtain ⟨ms, hfile⟩ := file_of_run hrun
  have hstrict : u.strict = strict := (diagnostics_of_run hrun).1
  have hfinished : u.finished = false :=
    (running_of_run hrun (State.running_initial name strict)).finished
  obtain ⟨s, f, p, scopes, ds, finished⟩ := u
  simp only at hfile hscopes hpending hstrict hfinished
  subst hfile hscopes hpending hstrict hfinished
  simp [State.preceded, State.initial]

/-- Nothing is added to it when it is finished. -/
theorem Settles.finish (h : Settles source name strict es u) :
    u.finish.file.modules = u.file.modules ∧ u.finish.diagnostics = u.diagnostics := by
  have hinit : (State.initial name strict).finish.file.modules = [] ∧
      (State.initial name strict).finish.diagnostics = [] := by
    cases strict <;> exact ⟨rfl, rfl⟩
  have hf := State.preceded_finish u.file.modules u.diagnostics (.initial name strict)
  rw [← h.eq_preceded] at hf
  rw [← hf]
  simp [State.preceded, hinit]

/-- What follows it is assembled as if it stood alone. -/
theorem Settles.feedAll_append (h : Settles source name strict es u) {fs : List (Event ν)}
    {v : State} (hfs : feedAll source (.initial name strict) fs = ⟨v, none⟩) :
    feedAll source (.initial name strict) (es ++ fs) =
      ⟨v.preceded u.file.modules u.diagnostics, none⟩ := by
  have hu := (State.unseen_preceded u.file.modules u.diagnostics).feedAll source
    (.initial name strict) fs
  rw [← h.eq_preceded, hfs] at hu
  rw [Assembly.feedAll_append h.1, hu]

end Settled

/-! ### Documents side by side -/

/-- The assembly of a stream of events. -/
def assembleEvents (name : String) (fileName : Option String) (strict : Bool)
    (es : List (Event ν)) : Outcome :=
  assemble { name, events := es } fileName strict

theorem assembleEvents_eq {name : String} {fileName : Option String} {strict : Bool}
    {es : List (Event ν)} {u : State}
    (h : feedAll name (.initial (fileName.getD name) strict) es = ⟨u, none⟩) :
    assembleEvents name fileName strict es = ⟨u.finish, none⟩ := by
  simp [assembleEvents, assemble, run, h, conclude]

/-- What a document of two parts is made of. -/
structure Adjoined (first second whole : Outcome) : Prop where
  fault : whole.fault = none
  /-- All but the modules is as in the second part. -/
  file : whole.state.file =
    { second.state.file with modules := first.state.file.modules ++ second.state.file.modules }
  diagnostics : whole.state.diagnostics = first.state.diagnostics ++ second.state.diagnostics

/-- Two streams of which the first settles give the document of the second, with the modules and
the reports of the first before its own. -/
theorem modules_independent {name : String} {fileName : Option String} {strict : Bool}
    {es fs : List (Event ν)} {u : State} (hes : Settles name (fileName.getD name) strict es u)
    (hfs : (assembleEvents name fileName strict fs).fault = none) :
    Adjoined (assembleEvents name fileName strict es) (assembleEvents name fileName strict fs)
      (assembleEvents name fileName strict (es ++ fs)) := by
  obtain ⟨v, hv, -, -⟩ := run_eq_of_fault hfs
  rw [assembleEvents_eq hes.1, assembleEvents_eq hv, assembleEvents_eq (hes.feedAll_append hv),
    ← State.preceded_finish]
  obtain ⟨hmodules, hdiagnostics⟩ := hes.finish
  refine ⟨rfl, ?_, ?_⟩
  · rw [hmodules]
    rfl
  · rw [hdiagnostics]
    rfl

/-- Two modules with a routine between them, and ends that close nothing. -/
def settledSample : List (Event Recording.Node) :=
  Recording.build
    [.leaveModule, .comment (.str "/** @port clk nothing\n@author A */"), .enterModule (.str "a"),
     .comment (.str "//* @note kept"), .leaveRoutine true, .leaveModule,
     .enterRoutine false (.str "t"), .comment (.str "//* @A -> B orphan"), .leaveRoutine false,
     .enterModule (.str "b"), .leaveModule, .leaveModule]

/-- Text for the file, and a module that is never left. -/
def openSample : List (Event Recording.Node) :=
  Recording.build
    [.leaveRoutine true, .comment (.str "/** lost\n@rev r1 first */"), .signal [.str "s"] .null [],
     .comment (.str "//* of c"), .enterModule (.str "c"), .comment (.str "//* @param W nothing")]

theorem modules_independent_openSample :
    (assembleEvents "m.sv" none true openSample).fault = none ∧
      (assembleEvents "m.sv" none true (settledSample ++ openSample)).state.file.modules.map
        (·.name) = [.str "a", .str "b", .str "c"] ∧
      (assembleEvents "m.sv" none true (settledSample ++ openSample)).state.diagnostics =
        [⟨.unmatchedPort "clk", "module a"⟩, ⟨.orphanTransition, "task t"⟩,
         ⟨.unmatchedParameter "W", "module c"⟩] ∧
      Adjoined (assembleEvents "m.sv" none true settledSample)
        (assembleEvents "m.sv" none true openSample)
        (assembleEvents "m.sv" none true (settledSample ++ openSample)) :=
  ⟨by decide, by decide, by decide,
    modules_independent (u := (feedAll "m.sv" (.initial "m.sv" true) settledSample).state)
      ⟨Outcome.eq_of_fault (by decide), by decide, by decide⟩ (by decide)⟩

end DesignDoc.Assembly
