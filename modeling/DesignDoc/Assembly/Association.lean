import DesignDoc.Assembly.Diagnostic
import DesignDoc.Document.Basic

/-! Association: when a scope closes, the items it has collected are distributed. Summaries become
the summary of the record, items that name a port or a parameter become its description, and all
others stay with the record. At the file, authors and revisions have places of their own. -/

namespace DesignDoc.Assembly

open DesignDoc.Annotation DesignDoc.Document

/-! ### Descriptions by name -/

/-- Change the first member that satisfies a test. -/
def updateFirst {α : Type} (p : α → Bool) (f : α → α) : List α → List α
  | [] => []
  | a :: as => if p a then f a :: as else a :: updateFirst p f as

@[simp] theorem length_updateFirst {α : Type} (p : α → Bool) (f : α → α) (as : List α) :
    (updateFirst p f as).length = as.length := by
  induction as with
  | nil => rfl
  | cons a as ih => by_cases h : p a = true <;> simp [updateFirst, h, ih]

/-- The first port of a name takes the text of an item that documents this name. -/
def describePort (ports : List Port) : Item → List Port
  | .named .port name text => updateFirst (·.name = name) ({ · with description := text }) ports
  | _ => ports

def describePorts (items : List Item) (ports : List Port) : List Port :=
  items.foldl describePort ports

/-- The first parameter of a name takes the text of an item that documents this name. -/
def describeParameter (parameters : List Parameter) : Item → List Parameter
  | .named .param name text =>
    updateFirst (·.name = name) ({ · with description := text }) parameters
  | _ => parameters

def describeParameters (items : List Item) (parameters : List Parameter) : List Parameter :=
  items.foldl describeParameter parameters

/-! ### Complaints -/

/-- What is wrong with the items of a scope that has ports and parameters of the given names. The
flag tells whether a state machine is open. -/
def complaints (ports parameters : List String) : Bool → List Item → List Complaint
  | _, [] => []
  | grouped, i :: is =>
    match i with
    | .named .port name _ =>
      (if name ∈ ports then [] else [.unmatchedPort name]) ++ complaints ports parameters grouped is
    | .named .param name _ =>
      (if name ∈ parameters then [] else [.unmatchedParameter name])
        ++ complaints ports parameters grouped is
    | .named .state _ _ =>
      (if grouped then [] else [.orphanState]) ++ complaints ports parameters grouped is
    | .transition _ _ _ =>
      (if grouped then [] else [.orphanTransition]) ++ complaints ports parameters grouped is
    | .simple .machine _ => complaints ports parameters true is
    | _ => complaints ports parameters grouped is

/-! ### Records -/

/-- The items that stay with a module or a routine. -/
def isKept (i : Item) : Bool := ! i.isSummary && ! i.isNameDoc

/-- A body with its items distributed. -/
def associateBody (b : Body) : Body :=
  { b with
    ports := describePorts b.items b.ports
    parameters := describeParameters b.items b.parameters
    items := b.items.filter isKept }

def bodyComplaints (b : Body) : List Complaint :=
  complaints (b.ports.map (·.name)) (b.parameters.map (·.name)) false b.items

/-- A module without a summary item has no summary. -/
def associateModule (m : Module) : Module :=
  { m with
    toBody := associateBody m.toBody
    summary := if m.items.any Item.isSummary then some (joinedSummary m.items) else none }

def associateRoutine (r : Routine) : Routine :=
  { r with toBody := associateBody r.toBody, summary := joinedSummary r.items }

def revision? : Item → Option Revision
  | .named .revision name text => some ⟨name, text⟩
  | _ => none

/-- A file takes the items that are left for it. -/
def associateFile (f : File) : File :=
  { f with
    summary := joinedSummary f.items
    author := "\n".intercalate (f.items.filterMap Item.author?)
    revisions := f.revisions ++ f.items.filterMap revision?
    items := f.items.filter fun i => isKept i && ! i.isCredit }

/-- A file has neither ports nor parameters. -/
def fileComplaints (f : File) : List Complaint := complaints [] [] false f.items

end DesignDoc.Assembly
