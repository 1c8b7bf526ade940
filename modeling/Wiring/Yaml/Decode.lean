import Wiring.Yaml.Document
import Wiring.Yaml.Scalar
import Wiring.Yaml.Fault

namespace Wiring.Yaml

mutual

def Tree.same : Tree → Tree → Bool
  | .null, .null => true
  | .boolean a, .boolean b => a = b
  | .integer a, .integer b => a = b
  | .float a, .float b =>
    Float.ofBits a == Float.ofBits b || ((Float.ofBits a).isNaN && (Float.ofBits b).isNaN)
  | .text a, .text b => a = b
  | .sequence a, .sequence b => sameItems a b
  | .mapping a, .mapping b => a.length = b.length && samePairs a b
  | .tagged s a, .tagged t b => s = t && a.same b
  | _, _ => false

def sameItems : List Tree → List Tree → Bool
  | [], [] => true
  | a :: as, b :: bs => a.same b && sameItems as bs
  | _, _ => false

def samePairs : List (Tree × Tree) → List (Tree × Tree) → Bool
  | [], _ => true
  | (k, v) :: rest, bs => bs.any (fun (l, w) => k.same l && v.same w) && samePairs rest bs

end

abbrev Reading := StateT Nat (Except Fault)

namespace Reading

def problem {α : Type} (path : Path) (p : Problem) : Reading α := throw (.located path p)

def follow (d : Document) : Node Nat → Reading (Node Nat)
  | .alias id => do
    modify (· + 1)
    if 100 * d.size < (← get) then throw .tooManyAliases
    match d.anchored id with
    | some n => return n
    | none => throw .malformed
  | n => return n

def scalar (path : Path) (tag : Option Octets) (style : Style) (s : String) : Reading Scalar :=
  match Scalar.resolve tag style s with
  | .ok v => return v
  | .error m => problem path (.invalidValue (Scalar.text m.text).describe m.expected)

def refuse {α : Type} (path : Path) (expected : String) : Node Nat → Reading α
  | .scalar p style s => do
    problem path (.invalidType (← scalar path p.tag style s).describe expected)
  | .sequence .. => problem path (.invalidType "sequence" expected)
  | _ => problem path (.invalidType "map" expected)

def unmarked (tag : String) : String :=
  match tag.toList with
  | '!' :: c :: rest => String.ofList (c :: rest)
  | _ => tag

def ownTag? (p : Properties) : Option String := do
  let tag ← p.tag
  if !Scalar.isOwn tag then none
  return unmarked (unmarked (← String.fromUTF8? (ByteArray.mk tag.toArray)))

def wrap : Option String → Tree → Tree
  | some tag, t => .tagged tag t
  | none, t => t

def ofScalar (path : Path) : Scalar → Reading Tree
  | .null => return .null
  | .boolean b => return .boolean b
  | .integer n => return .integer n
  | .float bits => return .float bits
  | .text s => return .text s
  | .wide n => problem path (.invalidType (Scalar.wide n).describe "any YAML value")

def stepOf : Node Nat → Step
  | .scalar _ _ k => .key k
  | _ => .unknown

mutual

def tree (d : Document) : Nat → Path → Node Nat → Reading Tree
  | depth, path, n => do
    match ← follow d n with
    | .scalar p style s =>
      let own := ownTag? p
      let tag := if own.isSome then none else p.tag
      return wrap own (← ofScalar path (← scalar path tag style s))
    | .sequence p items =>
      match depth with
      | 0 => throw .tooDeep
      | depth + 1 => return wrap (ownTag? p) (.sequence (← trees d depth path 0 items))
    | .mapping p pairs =>
      match depth with
      | 0 => throw .tooDeep
      | depth + 1 => return wrap (ownTag? p) (.mapping (← mapping d depth path [] pairs))
    | .alias _ => throw .malformed
  termination_by depth _ _ => (depth, 0)

def trees (d : Document) (depth : Nat) (path : Path) :
    Nat → List (Node Nat) → Reading (List Tree)
  | _, [] => return []
  | i, n :: rest => do
    let t ← tree d depth (path ++ [.item i]) n
    return t :: (← trees d depth path (i + 1) rest)
  termination_by _ items => (depth, items.length)

def mapping (d : Document) (depth : Nat) (path : Path) :
    List (Tree × Tree) → List (Node Nat × Node Nat) → Reading (List (Tree × Tree))
  | read, [] => return read
  | read, (k, v) :: rest => do
    let key ← tree d depth path k
    match read.find? (fun (l, _) => l.same key) with
    | some (l, _) => problem path (.duplicateKey l)
    | none =>
      let value ← tree d depth (path ++ [stepOf k]) v
      mapping d depth path (read ++ [(key, value)]) rest
  termination_by _ pairs => (depth, pairs.length)

end

def text (d : Document) (path : Path) (expected : String) (n : Node Nat) : Reading String := do
  match ← follow d n with
  | .scalar _ _ s => return s
  | n => refuse path expected n

def boolean (d : Document) (path : Path) (n : Node Nat) : Reading Bool := do
  let n ← follow d n
  match n with
  | .scalar p style s =>
    let plain := style = .plain || (style = .literal && p.tag = some (Scalar.coreTag "bool"))
    match if plain then Scalar.boolean? s else none with
    | some b => return b
    | none => refuse path "a boolean" n
  | _ => refuse path "a boolean" n

def pairs (d : Document) (depth : Nat) (path : Path) (expected : String) (n : Node Nat) :
    Reading (List (Node Nat × Node Nat) × Nat) := do
  let n ← follow d n
  match n with
  | .mapping _ pairs =>
    match depth with
    | 0 => throw .tooDeep
    | depth + 1 => return (pairs, depth)
  | .scalar _ .plain "" => return ([], depth)
  | _ => refuse path expected n

end Reading

end Wiring.Yaml
