import Wiring.Yaml.Tree
import Wiring.Decimal.Layout
import Wiring.Text.Quoted

namespace Wiring.Yaml

inductive Step
  | key (k : String)
  | item (n : Nat)
  -- The value of a key that is no scalar.
  | unknown

abbrev Path := List Step

def Path.text (p : Path) : String :=
  p.foldl (fun before step =>
    match step with
    | .key k => (if before = "." then "" else before ++ ".") ++ k
    | .item n => before ++ "[" ++ toString n ++ "]"
    | .unknown => (if before = "." then "" else before ++ ".") ++ "?") "."

inductive Problem
  | invalidType (found expected : String)
  | invalidValue (found expected : String)
  | unknownField (name : String) (known : List String)
  | duplicateField (name : String)
  | missingField (name : String)
  | duplicateKey (key : Tree)

def tick (s : String) : String := "`" ++ s ++ "`"

def alternatives : List String → String
  | [a, b] => tick a ++ " or " ++ tick b
  | known => ", ".intercalate (known.map tick)

def Problem.message : Problem → String
  | invalidType found expected => "invalid type: " ++ found ++ ", expected " ++ expected
  | invalidValue found expected => "invalid value: " ++ found ++ ", expected " ++ expected
  | unknownField name known =>
    "unknown field " ++ tick name ++ ", expected " ++ alternatives known
  | duplicateField name => "duplicate field " ++ tick name
  | missingField name => "missing field " ++ tick name
  | duplicateKey key =>
    "duplicate entry " ++ match key with
      | .null => "with null key"
      | .boolean b => "with key " ++ tick (toString b)
      | .integer n => "with key " ++ toString n
      | .float bits => "with key " ++ Decimal.compact.write bits
      | .text s => "with key " ++ Text.quoted s
      | _ => "in YAML map"

inductive Fault
  | malformed
  | tooDeep
  | tooManyAliases
  | located (path : Path) (problem : Problem)

def Fault.message : Fault → String
  | malformed => "<syntax>"
  | tooDeep => "recursion limit exceeded"
  | tooManyAliases => "repetition limit exceeded"
  | .located path problem =>
    (if path.text = "." then "" else path.text ++ ": ") ++ problem.message

end Wiring.Yaml
