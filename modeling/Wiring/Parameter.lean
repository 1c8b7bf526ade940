import Wiring.Instance
import Wiring.Table

namespace Wiring

inductive Declared
  | untyped
  | typed (type : TypeKey)
  | autowired (type : TypeKey)
  deriving DecidableEq, Repr

structure Parameter where
  name : String
  declared : Declared
  default : Option Instance := none
  deriving DecidableEq, Repr

namespace Parameter

def type? (p : Parameter) : Option TypeKey :=
  match p.declared with
  | .untyped => none
  | .typed t => some t
  | .autowired t => some t

def autowires? (p : Parameter) : Option TypeKey :=
  match p.declared with
  | .autowired t => some t
  | _ => none

def accepts (p : Parameter) (type : TypeKey) : Bool :=
  match p.type? with
  | none => true
  | some t => t = type

end Parameter

/-- Arguments chosen by the caller; one given for a position goes before one given for a name. -/
structure Overrides where
  positional : Table Nat Instance
  named : Table String Instance

namespace Overrides

instance : EmptyCollection Overrides := ⟨⟨∅, ∅⟩⟩
instance : Inhabited Overrides := ⟨∅⟩

def isEmpty (o : Overrides) : Bool := o.positional.entries.isEmpty && o.named.entries.isEmpty

def withPosition (o : Overrides) (position : Nat) (i : Instance) : Overrides :=
  { o with positional := o.positional.insert position i }

def withName (o : Overrides) (n : String) (i : Instance) : Overrides :=
  { o with named := o.named.insert n i }

def lookup (o : Overrides) (position : Nat) (name : String) : Option Instance :=
  (o.positional.get? position).or (o.named.get? name)

end Overrides

structure Arguments where
  target : String
  values : List (String × Instance) := []
  deriving DecidableEq, Repr

namespace Arguments

def missing (a : Arguments) (name : String) (position : Nat) : Error :=
  .unresolvableParameter a.target name position

def instance? (a : Arguments) (name : String) : Except Error Instance :=
  match Pairs.find? name a.values with
  | some i => .ok i
  | none => .error (a.missing name a.values.length)

def label (a : Arguments) (name : String) : String :=
  "parameter '" ++ name ++ "' of '" ++ a.target ++ "'"

def get (a : Arguments) (name : String) (type : TypeKey) : Except Error Instance := do
  (← a.instance? name).cast type (a.label name)

def nth (a : Arguments) (position : Nat) (type : TypeKey) : Except Error Instance :=
  match a.values[position]? with
  | some (name, i) => i.cast type (a.label name)
  | none => .error (a.missing "<positional>" position)

end Arguments

end Wiring
