import Wiring.Script.Meaning

namespace Wiring.Script

open Program (run)

def bodyOf (service : String) : String := "body of '" ++ service ++ "'"

def produce (service : String) (type : Tag) (body : Expr) (s : Scope) : Program client Value := do
  note (.text service)
  let i ← .ofExcept ((← asInstance (← eval body s)).cast type.key (bodyOf service))
  read i

def make (r : Routine) (c : ContainerId) (args : Arguments) : Program client Value :=
  match r with
  | .factory service type body => (produce service type body {}).insist
  | .containerFactory service type body => produce service type body ⟨some c, none⟩
  | .withParameters service type body => produce service type body ⟨some c, some args⟩
  | _ => .crash "code that answers no value"

def give (r : Routine) (c : ContainerId) (args : Arguments) : Program client Instance :=
  match r with
  | .greeter service body => do
    note (.text service)
    let i ← asInstance (← eval body ⟨some c, none⟩)
    if i.type = Tag.greeter.key then return i else asGreeter i (bodyOf service)
  | .free service body => do
    note (.text service)
    asInstance (← eval body ⟨some c, some args⟩)
  | _ => .crash "code that answers no instance"

def definition (n : Nat) : Program client ClassDefinition := do
  return ((← board).classes.get? n).getD ⟨[], none⟩

def manifest (type : TypeKey) : Program client (List Parameter) :=
  match Tag.ofKey? type with
  | some (.numbered n) => do (formals (← definition n).parameters {}).insist
  | some tag => return (tag.shape?.getD []).parameters
  | none => return []

def namedFields (args : Arguments) (parameters : List Formal) :
    Except Error (List (String × Instance)) :=
  parameters.mapM (fun (.mk name ..) => do return (name, ← args.instance? name))

def construct (type : TypeKey) (args : Arguments) : Program client Value :=
  match Tag.ofKey? type with
  | some (.numbered n) => do
    note (.text ("class " ++ toString n))
    let d ← definition n
    match d.fields with
    | some fields => return .record (← evalFields fields ⟨none, some args⟩)
    | none => return .record (← .ofExcept (namedFields args d.parameters))
  | some tag => do return .record (← .ofExcept ((tag.shape?.getD []).fill args))
  | none => return .record []

def implementation : Implementation client where
  make := make
  give := give
  manifest := manifest
  construct := construct
  job
    | .step e => eval e {}
    | _ => .crash "code that is no step"

end Wiring.Script
