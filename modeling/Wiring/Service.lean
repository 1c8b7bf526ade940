import Wiring.Parameter

namespace Wiring

/-- Whoever uses containers: the names of its pieces of code, the state that these share, and what
its steps answer. -/
structure Client where
  Code : Type
  State : Type
  Report : Type

inductive Logic (C : Client)
  -- Code answers a value, which becomes a new object.
  | made (provides : TypeKey) (parameters : List Parameter) (body : C.Code)
  -- Code hands out an instance of its own choice.
  | given (provides : TypeKey) (parameters : List Parameter) (body : C.Code)
  | constructed (provides : TypeKey) (type : TypeKey)
  -- A ready value; `copies` tells whether it can be copied for those who do not share it.
  | literal (value : Instance) (copies : Bool)

def Logic.provides {C : Client} : Logic C → TypeKey
  | made provides .. => provides
  | given provides .. => provides
  | constructed provides _ => provides
  | literal value _ => value.type

structure Registration (C : Client) where
  shared : Bool
  logic : Logic C

namespace Registration

variable {C : Client}

def provides (r : Registration C) : TypeKey := r.logic.provides

end Registration

abbrev ContainerId := Nat
abbrev EntryId := Nat
abbrev ThreadId := Nat

/-- What is under way: a service, or a class of this name. Classes of one name are not told
apart. -/
inductive Target
  | service (name : String)
  | class (name : String)
  deriving DecidableEq, Repr

def Target.label : Target → String
  | service name => name
  | .class name => "class " ++ name

end Wiring
