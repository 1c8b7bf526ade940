namespace Wiring.Yaml

/-- Floats are held by their bits; a mapping keeps the order of its document. -/
inductive Tree
  | null
  | boolean (b : Bool)
  | integer (n : Int)
  | float (bits : UInt64)
  | text (s : String)
  | sequence (items : List Tree)
  | mapping (pairs : List (Tree × Tree))
  | tagged (tag : String) (value : Tree)
  deriving Inhabited

def Tree.untagged : Tree → Tree
  | .tagged _ value => value.untagged
  | t => t

end Wiring.Yaml
