import Wiring.Yaml.Node
import Wiring.Yaml.Scan
import Wiring.Table

namespace Wiring.Yaml

def endsDocument : Token → Bool
  | .version .. | .handle .. | .documentStart | .documentEnd | .streamEnd => true
  | _ => false

structure Directives where
  version : Bool := false
  handles : Handles := []

def readDirectives : Directives → List Token → Option (Directives × List Token)
  | d, .version major minor :: rest =>
    if d.version || major ≠ 1 || (minor ≠ 1 && minor ≠ 2) then none
    else readDirectives { d with version := true } rest
  | d, .handle h m :: rest =>
    if (d.handles.lookup h).isSome then none
    else readDirectives { d with handles := d.handles ++ [(h, m)] } rest
  | d, tokens => some (d, tokens)

def atEnd : List Token → Bool
  | .documentEnd :: rest => atEnd rest
  | [.streamEnd] => true
  | _ => false

def readStream (tokens : List Token) : Option (Option (Node String)) := do
  let fuel := 4 * tokens.length + 16
  match tokens with
  | [.streamEnd] => return none
  | t :: _ =>
    let (n, rest) ←
      if !endsDocument t || t = .documentEnd then
        Node.read standardHandles true false fuel tokens
      else do
        let (d, rest) ← readDirectives {} tokens
        match rest with
        | .documentStart :: rest =>
          if rest.head?.all endsDocument then some (Node.empty, rest)
          else Node.read (d.handles ++ standardHandles) true false fuel rest
        | _ => none
    if atEnd rest then return some n else none
  | [] => none

structure Binding where
  names : Table String Nat := ∅
  places : Table Nat Nat := ∅
  begun : Nat := 0
  finished : Table Nat (Node Nat) := ∅
  events : Nat := 0

namespace Binding

def count (b : Binding) : Binding := { b with events := b.events + 1 }

def enter (b : Binding) (p : Properties) : Binding :=
  match p.anchor with
  | none => b.count
  | some a =>
    { b.count with
      names := b.names.insert a b.names.size
      places := b.places.insert b.names.size b.begun
      begun := b.begun + 1 }

def leave (b : Binding) (p : Properties) (place : Nat) (n : Node Nat) : Binding :=
  if p.anchor.isSome then { b with finished := b.finished.insert place n } else b

mutual

def bind : Node String → Binding → Option (Node Nat × Binding)
  | .alias name, b => do return (.alias (← b.names.get? name), b.count)
  | .scalar p style text, b =>
    some (.scalar p style text, (b.enter p).leave p b.begun (.scalar p style text))
  | .sequence p items, b => do
    let (items, after) ← bindAll items (b.enter p)
    return (.sequence p items, after.count.leave p b.begun (.sequence p items))
  | .mapping p pairs, b => do
    let (pairs, after) ← bindPairs pairs (b.enter p)
    return (.mapping p pairs, after.count.leave p b.begun (.mapping p pairs))

def bindAll : List (Node String) → Binding → Option (List (Node Nat) × Binding)
  | [], b => some ([], b)
  | n :: rest, b => do
    let (n, b) ← bind n b
    let (rest, b) ← bindAll rest b
    return (n :: rest, b)

def bindPairs : List (Node String × Node String) → Binding →
    Option (List (Node Nat × Node Nat) × Binding)
  | [], b => some ([], b)
  | (k, v) :: rest, b => do
    let (k, b) ← bind k b
    let (v, b) ← bind v b
    let (rest, b) ← bindPairs rest b
    return ((k, v) :: rest, b)

end

end Binding

structure Document where
  root : Option (Node Nat)
  size : Nat
  anchored : Nat → Option (Node Nat)

def document? (text : String) : Option Document := do
  match ← readStream (← tokens? text) with
  | none => return ⟨none, 1, fun _ => none⟩
  | some n =>
    let (n, b) ← Binding.bind n {}
    return ⟨some n, b.events, fun id => (b.places.get? id).bind b.finished.get?⟩

end Wiring.Yaml
