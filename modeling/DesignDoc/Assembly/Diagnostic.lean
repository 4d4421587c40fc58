/-! What strict assembly reports: documentation that cannot be attached to anything. -/

namespace DesignDoc.Assembly

inductive Complaint where
  | unmatchedPort (name : String)
  | unmatchedParameter (name : String)
  | orphanState
  | orphanTransition
  deriving DecidableEq, Repr

namespace Complaint

def kind : Complaint → String
  | unmatchedPort _ => "unmatched-port-doc"
  | unmatchedParameter _ => "unmatched-param-doc"
  | orphanState | orphanTransition => "orphan-state-item"

def message : Complaint → String
  | unmatchedPort name => "no port named '" ++ name ++ "'"
  | unmatchedParameter name => "no parameter named '" ++ name ++ "'"
  | orphanState => "StateDoc outside of an @fsm group"
  | orphanTransition => "Transition outside of an @fsm group"

end Complaint

/-- A complaint about the items of a scope, which is given by its title. -/
structure Diagnostic where
  complaint : Complaint
  scope : String
  deriving DecidableEq, Repr

namespace Diagnostic

def kind (d : Diagnostic) : String := d.complaint.kind

def message (d : Diagnostic) : String := d.complaint.message

def text (d : Diagnostic) : String := d.scope ++ ": " ++ d.message

end Diagnostic

end DesignDoc.Assembly
