import Wiring.Config
import Wiring.Script.Catalog

namespace Wiring.Script

structure Literal where
  type : Tag
  value : Value

inductive Via
  | set
  | direct (also : List ContainerId)
  | convenience
  | containerFunction

mutual

inductive Expr
  | literal (l : Literal)
  | store (name : String) (e : Expr)
  | recall (name : String)
  | sequence (es : List Expr)
  | list (es : List Expr)
  | attempt (e : Expr) (otherwise : Option Expr)
  | note (e : Expr)
  | fail (e : Error)
  | crash (message : String)
  | count (key : String)
  | ifCount (key : String) (limit : Nat) (within beyond : Expr)
  | increment (e : Expr)
  | concat (es : List Expr)
  | argument (name : String) (type : Tag)
  | nthArgument (position : Nat) (type : Tag)
  | argumentInstance (name : String)
  | arguments
  | withoutArguments (target : String) (e : Expr)
  | newContainer
  | add (c : Option ContainerId) (via : Via) (name : String) (shared : Bool) (recipe : Recipe)
  | get (c : Option ContainerId) (name : String)
  | getAs (c : Option ContainerId) (name : String) (type : Tag)
  | has (c : Option ContainerId) (name : String)
  | remove (c : Option ContainerId) (name : String)
  | names (c : Option ContainerId)
  | describe (c : Option ContainerId) (name : String)
  | load (c : Option ContainerId) (text : String)
  | loadFile (c : Option ContainerId) (file : Config.File)
  | config (text : String)
  | showContainer (c : Option ContainerId)
  | construct (c : Option ContainerId) (type : Tag) (overrides : Supplied)
  | service (c : Option ContainerId) (name : String) (overrides : Supplied)
  | method (c : Option ContainerId) (on : Expr) (type : Tag) (name : String)
      (parameters : List Formal) (body : Expr) (overrides : Supplied)
  | isA (e : Expr) (type : Tag)
  | downcast (e : Expr) (type : Tag)
  | cast (e : Expr) (type : Tag) (what : String)
  | asGreeter (e : Expr)
  | same (a b : Expr)
  | showInstance (e : Expr)
  | compareTypes (a b : Tag)
  | showParameter (p : Formal)
  | manifest (type : Tag)
  | showLogic (name : String) (shared : Bool) (recipe : Recipe)
  | defineClass (n : Nat) (parameters : List Formal) (fields : Option (List (String × Expr)))
  | installDefault (c : ContainerId)
  | currentDefault
  | getOrInstallDefault
  | resetDefault
  | insistDefault (type : Tag) (name : String)
  | insistFrom (c : Option ContainerId) (type : Tag) (name : String)
  | threads (steps : List (List Expr))
  | signal (latch : String)
  | wait (latch : String) (n : Nat)
  | waitBlocked (service : String) (n : Nat)

inductive Formal
  | mk (name : String) (type : Option Tag) (autowire : Bool) (default : Option Expr)

inductive Supplied
  | mk (positional : List (Nat × Expr)) (named : List (String × Expr))

inductive Recipe
  | literal (l : Literal)
  | factory (type : Tag) (body : Expr)
  | containerFactory (type : Tag) (body : Expr)
  | withParameters (type : Tag) (parameters : List Formal) (body : Expr)
  | greeter (body : Expr)
  | class (type : Tag)
  | variant (type : Tag) (parameters : List Formal) (body : Expr)
  | classVariant (type built : Tag)
  | literalVariant (body : Expr)
  | custom (type : Tag) (parameters : List Formal) (body : Expr)

end

inductive Routine
  | factory (service : String) (type : Tag) (body : Expr)
  | containerFactory (service : String) (type : Tag) (body : Expr)
  | withParameters (service : String) (type : Tag) (body : Expr)
  | greeter (service : String) (body : Expr)
  | free (service : String) (body : Expr)
  | step (e : Expr)

structure ClassDefinition where
  parameters : List Formal
  -- Without fields of its own a class keeps each parameter's instance under its name.
  fields : Option (List (String × Expr))

structure Board where
  named : Table String Instance := ∅
  counts : Table String Nat := ∅
  latches : Table String Nat := ∅
  classes : Table Nat ClassDefinition := ∅

inductive Result
  | null
  | boolean (b : Bool)
  | number (n : Nat)
  | text (s : String)
  | instance (i : Instance)
  | tree (t : Yaml.Tree)
  | failure (e : Error)
  | list (items : List Result)
  | object (fields : List (String × Result))
  | threads (ts : List ThreadId)

abbrev client : Client := ⟨Routine, Board, Result⟩

end Wiring.Script
