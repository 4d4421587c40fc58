import DesignDoc.Generator.Basic

/-! Many files, one after the other. A generator keeps the diagnostics of its last call, and one
generator documents all files of a batch; yet no file sees what came of another one. What comes of a
batch is what comes of each of its files if a new generator with the same options documents it
alone: the files that succeed, in order, the diagnostics of all of them, and the first fault that is
no reason to skip a file. -/

namespace DesignDoc.Generator

open DesignDoc.Assembly DesignDoc.Document

/-! ### One file -/

/-- What comes of a file that a new generator documents alone. -/
def alone (env : Environment) (o : Options) (path : String) :
    Except Generator.Fault File × Generator :=
  ({ options := o } : Generator).document env (.file path)

/-- The file, unless there is a fault. -/
def fileAlone? (env : Environment) (o : Options) (path : String) : Option File :=
  (alone env o path).1.toOption

def diagnosticsAlone (env : Environment) (o : Options) (path : String) : List Diagnostic :=
  (alone env o path).2.diagnostics

/-- The warning about a file that is skipped. -/
def warningAlone? (env : Environment) (o : Options) (path : String) : Option Warning :=
  match (alone env o path).1 with
  | .ok _ => none
  | .error f => (skipReason? f).map (⟨path, ·⟩)

/-- A file breaks a batch with any fault but a missing name. -/
def Breaks (env : Environment) (o : Options) (path : String) (f : Generator.Fault) : Prop :=
  (alone env o path).1 = .error f ∧ ∀ kind source, f ≠ .assembly (.missingIdentifier kind source)

/-- None of some files breaks a batch. -/
def NoneBreaks (env : Environment) (o : Options) (paths : List String) : Prop :=
  ∀ path ∈ paths, ∀ f, ¬ Breaks env o path f

/-- A generator looks at its options and at nothing that its last call has left. -/
theorem document_file_eq (env : Environment) (path : String) (g : Generator) :
    g.document env (.file path) =
      ((alone env g.options path).1,
        { g with diagnostics := diagnosticsAlone env g.options path }) := by
  unfold diagnosticsAlone alone document
  cases assembleInput env g.options (.file path) <;> rfl

theorem skipReason?_eq_none {f : Generator.Fault} :
    skipReason? f = none ↔ ∀ kind source, f ≠ .assembly (.missingIdentifier kind source) := by
  constructor
  · rintro h kind source rfl
    cases h
  · intro h
    unfold skipReason?
    split
    · exact absurd rfl (h _ _)
    · rfl

/-! ### The files of a batch -/

section Rest

variable {env : Environment} {g : Generator} {path : String} {paths : List String}

/-- A file that does not break the batch adds to it what it would be alone. -/
theorem documentRest_cons (h : ∀ f, ¬ Breaks env g.options path f) (files : List File)
    (ds : List Diagnostic) (ws : List Warning) :
    documentRest env files ds ws g (path :: paths) =
      documentRest env (files ++ (fileAlone? env g.options path).toList)
        (ds ++ diagnosticsAlone env g.options path)
        (ws ++ (warningAlone? env g.options path).toList)
        { g with diagnostics := diagnosticsAlone env g.options path } paths := by
  rw [documentRest, document_file_eq]
  cases ha : (alone env g.options path).1 with
  | ok file => simp [fileAlone?, warningAlone?, ha, Except.toOption]
  | error f =>
    cases hr : skipReason? f with
    | none => exact absurd ⟨ha, skipReason?_eq_none.mp hr⟩ (h f)
    | some reason => simp [fileAlone?, warningAlone?, ha, hr, Except.toOption]

theorem documentRest_of_breaks {f : Generator.Fault} (h : Breaks env g.options path f)
    (files : List File) (ds : List Diagnostic) (ws : List Warning) :
    (documentRest env files ds ws g (path :: paths)).result = .error f := by
  obtain ⟨ha, hf⟩ := h
  rw [documentRest, document_file_eq, ha]
  simp [skipReason?_eq_none.mpr hf]

/-- What some files add to a batch before the files that come after them. -/
theorem documentRest_append (h : NoneBreaks env g.options paths) (files : List File)
    (ds : List Diagnostic) (ws : List Warning) (rest : List String) :
    ∃ g' : Generator, g'.options = g.options ∧
      documentRest env files ds ws g (paths ++ rest) =
        documentRest env (files ++ paths.filterMap (fileAlone? env g.options))
          (ds ++ paths.flatMap (diagnosticsAlone env g.options))
          (ws ++ paths.filterMap (warningAlone? env g.options)) g' rest := by
  induction paths generalizing files ds ws g with
  | nil => exact ⟨g, rfl, by simp⟩
  | cons path paths ih =>
    have hpath : ∀ f, ¬ Breaks env g.options path f := h path List.mem_cons_self
    obtain ⟨g', hg, hrest⟩ := ih (g := { g with diagnostics := diagnosticsAlone env g.options path })
      (fun p hp => h p (List.mem_cons_of_mem _ hp))
      (files ++ (fileAlone? env g.options path).toList)
      (ds ++ diagnosticsAlone env g.options path)
      (ws ++ (warningAlone? env g.options path).toList)
    refine ⟨g', hg, ?_⟩
    rw [List.cons_append, documentRest_cons hpath, hrest]
    simp only [List.append_assoc, List.filterMap_cons, List.flatMap_cons]
    cases fileAlone? env g.options path <;> cases warningAlone? env g.options path <;> rfl

end Rest

/-- A batch without a fault. -/
theorem documentFiles_eq {env : Environment} {g : Generator} {paths : List String}
    (h : NoneBreaks env g.options paths) :
    g.documentFiles env paths =
      ⟨.ok (paths.filterMap (fileAlone? env g.options)),
        paths.filterMap (warningAlone? env g.options),
        { g with diagnostics := paths.flatMap (diagnosticsAlone env g.options) }⟩ := by
  obtain ⟨g', hg, hrest⟩ := documentRest_append h [] [] [] []
  rw [List.append_nil] at hrest
  rw [documentFiles, hrest, documentRest, hg]
  simp

/-- Files that are documented or skipped do not break a batch. -/
theorem noneBreaks_of_isSome {env : Environment} {o : Options} {paths : List String}
    (h : ∀ path ∈ paths,
      (fileAlone? env o path).isSome = true ∨ (warningAlone? env o path).isSome = true) :
    NoneBreaks env o paths := by
  rintro path hp f ⟨hf, hne⟩
  have hs := skipReason?_eq_none.mpr hne
  simpa [fileAlone?, warningAlone?, hf, hs, Except.toOption] using h path hp

/-! ### Independence -/

/-- How a batch compares with its files, each of them documented alone. -/
structure FilesIndependent (env : Environment) (g : Generator) (paths : List String) : Prop where
  /-- The files that succeed, in order. -/
  files : NoneBreaks env g.options paths →
    (g.documentFiles env paths).result = .ok (paths.filterMap (fileAlone? env g.options))
  /-- The diagnostics of all of them, skipped ones included. -/
  diagnostics : NoneBreaks env g.options paths →
    (g.documentFiles env paths).generator.diagnostics =
      paths.flatMap (diagnosticsAlone env g.options)
  /-- A batch in two parts, whichever generators do the parts. -/
  parts : NoneBreaks env g.options paths → ∀ ps qs, paths = ps ++ qs →
    ∀ g₁ g₂ : Generator, g₁.options = g.options → g₂.options = g.options →
      ∃ fs₁ fs₂, (g₁.documentFiles env ps).result = .ok fs₁ ∧
        (g₂.documentFiles env qs).result = .ok fs₂ ∧
        (g.documentFiles env paths).result = .ok (fs₁ ++ fs₂) ∧
        (g.documentFiles env paths).generator.diagnostics =
          (g₁.documentFiles env ps).generator.diagnostics ++
            (g₂.documentFiles env qs).generator.diagnostics
  /-- The first file that breaks the batch decides its fault. -/
  breaks : ∀ pre path post f, paths = pre ++ path :: post → NoneBreaks env g.options pre →
    Breaks env g.options path f → (g.documentFiles env paths).result = .error f

/-- The files of a batch are independent, whatever the generator has done before. -/
theorem files_independent (env : Environment) (g : Generator) (paths : List String) :
    FilesIndependent env g paths where
  files h := by rw [documentFiles_eq h]
  diagnostics h := by rw [documentFiles_eq h]
  parts := by
    rintro h ps qs rfl g₁ g₂ h₁ h₂
    have hps : NoneBreaks env g₁.options ps := fun p hp => h₁ ▸ h p (List.mem_append_left qs hp)
    have hqs : NoneBreaks env g₂.options qs := fun q hq => h₂ ▸ h q (List.mem_append_right ps hq)
    rw [documentFiles_eq h, documentFiles_eq hps, documentFiles_eq hqs, h₁, h₂]
    exact ⟨_, _, rfl, rfl, by rw [List.filterMap_append], by rw [List.flatMap_append]⟩
  breaks := by
    rintro pre path post f rfl hpre hf
    obtain ⟨g', hg, hrest⟩ := documentRest_append hpre [] [] [] (path :: post)
    rw [documentFiles, hrest]
    exact documentRest_of_breaks (hg ▸ hf) _ _ _

/-- A module with a comment before it. -/
def commentedModule (name comment : String) : Tree :=
  .node "ModuleDeclaration" [.token "Identifier" name [⟨"LineComment", comment⟩]] []

def compilationUnit (children : List Tree) : Tree := .node "CompilationUnit" children []

/-- One module, a module before one without a name, a tree that is only a token, a file that is not
there, and nothing. -/
def sampleTreeOf : Request → Except Generator.Fault Tree
  | .file "a.sv" _ => compilationUnit [commentedModule "a" "//* @port clk nothing"]
  | .file "bad.sv" _ =>
    compilationUnit [commentedModule "b" "//* @param W nothing", .node "ModuleDeclaration" [] []]
  | .file "odd.sv" _ => Tree.token "Semicolon" ";" []
  | .file "gone.sv" _ => .error (.fileMissing "gone.sv")
  | _ => compilationUnit []

def sampleEnvironment : Environment := { parser? := some sampleTreeOf }

/-- A generator with something left of an earlier call. -/
def usedGenerator : Generator :=
  { options := { strict := true }, diagnostics := [⟨.orphanState, "module stale"⟩] }

theorem files_independent_usedGenerator :
    NoneBreaks sampleEnvironment usedGenerator.options ["a.sv", "bad.sv", "c.sv", "a.sv"] ∧
      (usedGenerator.documentFiles sampleEnvironment
        ["a.sv", "bad.sv", "c.sv", "a.sv"]).generator.diagnostics =
          [⟨.unmatchedPort "clk", "module a"⟩, ⟨.unmatchedParameter "W", "module b"⟩,
           ⟨.unmatchedPort "clk", "module a"⟩] ∧
      (["a.sv", "bad.sv", "c.sv", "a.sv"].filterMap (fileAlone? sampleEnvironment
        usedGenerator.options)).map (·.name) = ["a.sv", "c.sv", "a.sv"] ∧
      (usedGenerator.documentFiles sampleEnvironment ["a.sv", "bad.sv", "c.sv", "a.sv"]).result =
        .ok (["a.sv", "bad.sv", "c.sv", "a.sv"].filterMap
          (fileAlone? sampleEnvironment usedGenerator.options)) ∧
      Breaks sampleEnvironment usedGenerator.options "odd.sv" (.assembly (.unanswered .children)) ∧
      (usedGenerator.documentFiles sampleEnvironment ["bad.sv", "odd.sv", "c.sv"]).result =
        .error (.assembly (.unanswered .children)) ∧
      Breaks sampleEnvironment usedGenerator.options "gone.sv" (.fileMissing "gone.sv") ∧
      (usedGenerator.documentFiles sampleEnvironment ["a.sv", "gone.sv", "odd.sv"]).result =
        .error (.fileMissing "gone.sv") := by
  have hnone : NoneBreaks sampleEnvironment usedGenerator.options
      ["a.sv", "bad.sv", "c.sv", "a.sv"] := noneBreaks_of_isSome (by decide)
  have hodd : Breaks sampleEnvironment usedGenerator.options "odd.sv"
      (.assembly (.unanswered .children)) := ⟨rfl, by simp⟩
  have hgone : Breaks sampleEnvironment usedGenerator.options "gone.sv"
      (.fileMissing "gone.sv") := ⟨rfl, by simp⟩
  exact ⟨hnone, by decide, by decide, (files_independent _ _ _).files hnone, hodd,
    (files_independent _ _ _).breaks ["bad.sv"] "odd.sv" ["c.sv"] _ rfl
      (noneBreaks_of_isSome (by decide)) hodd, hgone,
    (files_independent _ _ _).breaks ["a.sv"] "gone.sv" ["odd.sv"] _ rfl
      (noneBreaks_of_isSome (by decide)) hgone⟩

end DesignDoc.Generator
