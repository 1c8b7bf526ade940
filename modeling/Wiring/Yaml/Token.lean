namespace Wiring.Yaml

/-- Tags are held as octets, because their escapes can spell octets that are no text. -/
abbrev Octets := List UInt8

def octets (s : String) : Octets := s.toUTF8.toList

inductive Style
  | plain
  | quoted
  | literal
  | folded
  deriving DecidableEq, Repr

inductive Token
  | version (major minor : Nat)
  -- A directive that lets a handle stand for the beginning of a tag.
  | handle (handle : String) (meaning : Octets)
  | documentStart
  | documentEnd
  | blockSequenceStart
  | blockMappingStart
  | blockEnd
  | flowSequenceStart
  | flowSequenceEnd
  | flowMappingStart
  | flowMappingEnd
  | blockEntry
  | flowEntry
  | key
  | value
  | alias (name : String)
  | anchor (name : String)
  | tag (handle : String) (rest : Octets)
  | scalar (style : Style) (text : String)
  | streamEnd
  deriving DecidableEq, Repr

end Wiring.Yaml
