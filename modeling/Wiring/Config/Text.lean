import Wiring.Config
import Wiring.Yaml.Decode

/-!
Configuration texts: a YAML document with one field, `services`, whose entries have a `value` and
may say whether they are `shared`.
-/
namespace Wiring.Config

open Yaml
open Yaml.Reading (problem)

def depthLimit : Nat := 128

structure Fields where
  value : Option Tree := none
  shared : Option Bool := none

def readFields (d : Document) (depth : Nat) (path : Path) :
    Fields → List (Node Nat × Node Nat) → Reading Fields
  | f, [] => return f
  | f, (k, v) :: rest => do
    let name ← Reading.text d path "field identifier" k
    let inside := path ++ [Reading.stepOf k]
    if name = "value" then
      if f.value.isSome then problem path (.duplicateField name)
      let value ← Reading.tree d depth inside v
      readFields d depth path { f with value := some value } rest
    else if name = "shared" then
      if f.shared.isSome then problem path (.duplicateField name)
      let shared ← Reading.boolean d inside v
      readFields d depth path { f with shared := some shared } rest
    else problem path (.unknownField name ["value", "shared"])

def readEntry (d : Document) (depth : Nat) (path : Path) (name : String) (n : Node Nat) :
    Reading Entry := do
  let (pairs, depth) ← Reading.pairs d depth path "struct ServiceEntry" n
  let f ← readFields d depth path {} pairs
  match f.value with
  | some value => return ⟨name, value, f.shared.getD true⟩
  | none => problem path (.missingField "value")

def readEntries (d : Document) (depth : Nat) (path : Path) :
    Table String Entry → List (Node Nat × Node Nat) → Reading (Table String Entry)
  | t, [] => return t
  | t, (k, v) :: rest => do
    let name ← Reading.text d path "a string" k
    let e ← readEntry d depth (path ++ [Reading.stepOf k]) name v
    readEntries d depth path (t.insert name e) rest

def readServices (d : Document) (depth : Nat) (path : Path) (n : Node Nat) :
    Reading (Table String Entry) := do
  let (pairs, depth) ← Reading.pairs d depth path "a map" n
  readEntries d depth path ∅ pairs

def readRoot (d : Document) (depth : Nat) :
    Option (Table String Entry) → List (Node Nat × Node Nat) →
      Reading (Option (Table String Entry))
  | found, [] => return found
  | found, (k, v) :: rest => do
    let name ← Reading.text d [] "field identifier" k
    if name = "services" then
      if found.isSome then problem [] (.duplicateField name)
      readRoot d depth (some (← readServices d depth [Reading.stepOf k] v)) rest
    else problem [] (.unknownField name ["services"])

def readDocument (d : Document) : Reading (Table String Entry) :=
  match d.root with
  | none => return ∅
  | some n => do
    let (pairs, depth) ← Reading.pairs d depthLimit [] "struct ServicesConfig" n
    return (← readRoot d depth none pairs).getD ∅

def sortEntries (t : Table String Entry) : List Entry :=
  (t.entries.map Prod.snd).mergeSort (·.name ≤ ·.name)

def read (text : String) : Except Fault (List Entry) :=
  match document? text with
  | none => .error .malformed
  | some d => ((readDocument d).run' 0).map sortEntries

def ofText : Parser := fun text =>
  match read text with
  | .ok entries => .ok entries
  | .error f => .error (.configuration f.message)

end Wiring.Config
