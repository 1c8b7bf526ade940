import Wiring.Yaml.Tree
import Wiring.Decimal.Layout

namespace Wiring.Script

inductive Answer
  | null
  | boolean (b : Bool)
  | number (n : Nat)
  | text (s : String)
  | list (items : List Answer)
  | object (fields : List (String × Answer))
  deriving Inhabited

namespace Answer

def texts (items : List String) : Answer := list (items.map text)

mutual

def ofTree : Yaml.Tree → Answer
  | .null => null
  | .boolean b => boolean b
  | .integer n => object [("int", text (toString n))]
  | .float bits => object [("f64", text (Decimal.bitsText bits))]
  | .text s => text s
  | .sequence items => list (ofTrees items)
  | .mapping pairs => object [("map", list (ofPairs pairs))]
  | .tagged tag value => object [("tag", text ("!" ++ tag)), ("value", ofTree value)]

def ofTrees : List Yaml.Tree → List Answer
  | [] => []
  | t :: rest => ofTree t :: ofTrees rest

def ofPairs : List (Yaml.Tree × Yaml.Tree) → List Answer
  | [] => []
  | (k, v) :: rest => list [ofTree k, ofTree v] :: ofPairs rest

end

def escape (c : Char) : List Char :=
  if c = '"' then ['\\', '"']
  else if c = '\\' then ['\\', '\\']
  else if c = '\n' then ['\\', 'n']
  else if c = '\r' then ['\\', 'r']
  else if c = '\t' then ['\\', 't']
  else if c = '\x08' then ['\\', 'b']
  else if c = '\x0c' then ['\\', 'f']
  else if c.toNat < 0x20 then
    let h := Nat.toDigits 16 c.toNat
    ['\\', 'u'] ++ List.replicate (4 - h.length) '0' ++ h
  else [c]

def quote (s : String) : String := String.ofList (['"'] ++ s.toList.flatMap escape ++ ['"'])

mutual

def compact : Answer → String
  | null => "null"
  | boolean b => toString b
  | number n => toString n
  | text s => quote s
  | list items => "[" ++ ",".intercalate (compacts items) ++ "]"
  | object fields => "\x7b" ++ ",".intercalate (compactFields fields) ++ "\x7d"

def compacts : List Answer → List String
  | [] => []
  | a :: rest => compact a :: compacts rest

def compactFields : List (String × Answer) → List String
  | [] => []
  | (k, a) :: rest => (quote k ++ ":" ++ compact a) :: compactFields rest

end

end Answer

end Wiring.Script
