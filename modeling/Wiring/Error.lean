import Wiring.TypeKey

namespace Wiring

inductive Error
  | serviceNotFound (name : String)
  | unresolvableParameter (target parameter : String) (position : Nat)
  | ambiguousService (target parameter : String) (candidates : List String)
  | circularDependency (chain : List String)
  | typeMismatch (what : String) (expected found : TypeKey)
  | emptyServiceName
  | configuration (reason : String)
  | reading (reason : String)
  deriving DecidableEq, Repr

namespace Error

def message : Error → String
  | serviceNotFound name => "Service not found: '" ++ name ++ "'"
  | unresolvableParameter target parameter position =>
    "Cannot resolve parameter '" ++ parameter ++ "' (position " ++ toString position ++
      ") of '" ++ target ++ "'"
  | ambiguousService target parameter candidates =>
    "Parameter '" ++ parameter ++ "' of '" ++ target ++ "' matches several services: " ++
      ", ".intercalate candidates
  | circularDependency chain =>
    "Circular dependency detected: " ++ " -> ".intercalate chain
  | typeMismatch what expected found =>
    "Type mismatch for " ++ what ++ ": expected " ++ expected.name ++ ", found " ++ found.name
  | emptyServiceName => "Service names cannot be empty"
  | configuration reason => "Failed to parse service configuration: " ++ reason
  | reading reason => "Failed to read service configuration: " ++ reason

end Error

/-- How a piece of client code ends without an answer: an error is passed on and can be caught, a
crash runs through to the end of the step. -/
inductive Failure
  | error (e : Error)
  | crash (message : String)
  deriving DecidableEq, Repr

def Failure.message : Failure → String
  | error e => e.message
  | crash m => m

end Wiring
