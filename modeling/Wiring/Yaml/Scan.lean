import Wiring.Yaml.ScalarText
import Wiring.Yaml.Tag

/-!
From a text to tokens. Indentation becomes tokens of its own, and a key is only known as such when
its colon comes: its token is put in afterwards, at the place where the key began.
-/
namespace Wiring.Yaml

structure PossibleKey where
  required : Bool
  place : Nat
  line : Nat
  index : Nat
  column : Nat

/-- `indents` are those of the enclosing block collections, `keys` the possible keys of the
enclosing flow collections, innermost first. -/
structure Scanner where
  cursor : Cursor
  tokens : List Token := []
  flowDepth : Nat := 0
  indent : Int := -1
  indents : List Int := []
  key : Option PossibleKey := none
  keys : List (Option PossibleKey) := []
  keyAllowed : Bool := true

namespace Scanner

def inFlow (s : Scanner) : Bool := s.flowDepth ≠ 0

def emit (s : Scanner) (t : Token) : Scanner := { s with tokens := s.tokens ++ [t] }

def emitAt (s : Scanner) (place : Nat) (t : Token) : Scanner :=
  { s with tokens := s.tokens.insertIdx place t }

def skip (s : Scanner) (n : Nat) : Scanner := { s with cursor := s.cursor.advance n }

def allowKey (s : Scanner) (allowed : Bool) : Scanner := { s with keyAllowed := allowed }

def skipSpace (s : Scanner) : Nat → Scanner
  | 0 => s
  | fuel + 1 =>
    let c := s.cursor
    let c := if c.column = 0 && c.rest.head? = some byteOrderMark then c.next else c
    let c := c.skipWhile (fun x => x = ' ' || ((s.inFlow || !s.keyAllowed) && x = '\t'))
    let c := if c.rest.head? = some '#' then c.skipWhile (!isLineBreak ·) else c
    if c.rest.head?.any isLineBreak then
      skipSpace { s with cursor := c.next, keyAllowed := s.keyAllowed || !s.inFlow } fuel
    else { s with cursor := c }

def isStale (c : Cursor) (k : PossibleKey) : Bool :=
  k.line < c.line || k.index + 1024 < c.index

def dropStale (c : Cursor) : Option PossibleKey → Option (Option PossibleKey)
  | none => some none
  | some k => if isStale c k then if k.required then none else some none else some (some k)

def dropStaleKeys (s : Scanner) : Option Scanner := do
  let key ← dropStale s.cursor s.key
  let keys ← s.keys.mapM (dropStale s.cursor)
  return { s with key := key, keys := keys }

def removeKey (s : Scanner) : Option Scanner :=
  if s.key.any (·.required) then none else some { s with key := none }

def saveKey (s : Scanner) : Option Scanner :=
  if s.keyAllowed then do
    let s ← s.removeKey
    let c := s.cursor
    let required := !s.inFlow && s.indent = c.column
    return { s with key := some ⟨required, s.tokens.length, c.line, c.index, c.column⟩ }
  else some s

def indentTo (s : Scanner) (column : Nat) (place : Nat) (t : Token) : Scanner :=
  if s.inFlow || (column : Int) ≤ s.indent then s
  else { s with indents := s.indent :: s.indents, indent := column }.emitAt place t

def unindent (column : Int) (s : Scanner) : Scanner :=
  if s.inFlow then s
  else
    let closed := ((s.indent :: s.indents).takeWhile (column < ·)).length
    { s with
      tokens := s.tokens ++ List.replicate closed .blockEnd
      indent := ((s.indent :: s.indents).drop closed).headD (-1)
      indents := (s.indents).drop closed }

def marker (s : Scanner) (t : Token) : Option Scanner := do
  let s ← (s.unindent (-1)).removeKey
  return ((s.allowKey false).skip 3).emit t

def directive (s : Scanner) : Option Scanner := do
  let s ← (s.unindent (-1)).removeKey
  let (t, c) ← scanDirective s.cursor
  return { (s.allowKey false).emit t with cursor := c }

def openFlow (s : Scanner) (t : Token) : Option Scanner := do
  let s ← s.saveKey
  return (({ s with keys := s.key :: s.keys, key := none, flowDepth := s.flowDepth + 1 }
    |>.allowKey true).skip 1).emit t

def closeFlow (s : Scanner) (t : Token) : Option Scanner := do
  let s ← s.removeKey
  let s := match s.keys with
    | [] => s
    | k :: keys => { s with keys := keys, key := k, flowDepth := s.flowDepth - 1 }
  return ((s.allowKey false).skip 1).emit t

def flowEntry (s : Scanner) : Option Scanner := do
  let s ← s.removeKey
  return ((s.allowKey true).skip 1).emit .flowEntry

def blockIndicator (s : Scanner) (t : Token) : Option Scanner :=
  if s.inFlow then some s
  else if s.keyAllowed then some (s.indentTo s.cursor.column s.tokens.length t)
  else none

def blockEntry (s : Scanner) : Option Scanner := do
  let s ← (← s.blockIndicator .blockSequenceStart).removeKey
  return ((s.allowKey true).skip 1).emit .blockEntry

def explicitKey (s : Scanner) : Option Scanner := do
  let s ← (← s.blockIndicator .blockMappingStart).removeKey
  return ((s.allowKey !s.inFlow).skip 1).emit .key

def value (s : Scanner) : Option Scanner :=
  match s.key with
  | some k =>
    let s := (s.emitAt k.place .key).indentTo k.column k.place .blockMappingStart
    some ((({ s with key := none }.allowKey false).skip 1).emit .value)
  | none => do
    let s ← s.blockIndicator .blockMappingStart
    return ((s.allowKey !s.inFlow).skip 1).emit .value

def name (s : Scanner) (t : String → Token) : Option Scanner := do
  let s ← s.saveKey
  let (n, c) ← scanName s.cursor
  return { (s.allowKey false).emit (t n) with cursor := c }

def tag (s : Scanner) : Option Scanner := do
  let s ← s.saveKey
  let (t, c) ← scanTag s.inFlow s.cursor
  return { (s.allowKey false).emit t with cursor := c }

def block (s : Scanner) (isLiteral : Bool) : Option Scanner := do
  let s ← s.removeKey
  let (text, c) ← blockScalar isLiteral s.indent s.cursor
  let style := if isLiteral then Style.literal else .folded
  return { (s.allowKey true).emit (.scalar style (String.ofList text)) with cursor := c }

def quoted (s : Scanner) (single : Bool) : Option Scanner := do
  let s ← s.saveKey
  let (text, c) ← quotedScalar single s.cursor
  return { (s.allowKey false).emit (.scalar .quoted (String.ofList text)) with cursor := c }

def plain (s : Scanner) : Option Scanner := do
  let s ← s.saveKey
  let p ← plainScalar s.inFlow (s.indent + 1) s.cursor
  return { (s.allowKey p.broken).emit (.scalar .plain (String.ofList p.text)) with
    cursor := p.cursor }

def finish (s : Scanner) : Option (List Token) := do
  let s ← (s.unindent (-1)).removeKey
  return (s.emit .streamEnd).tokens

def isIndicator (x : Char) : Bool := "-?:,[]{}#&*!|>'\"%@".toList.contains x || x = '`'

def scanToken (s : Scanner) (x : Char) (rest : List Char) : Option Scanner :=
  if s.cursor.column = 0 && x = '%' then s.directive
  else if s.cursor.atDocumentMarker then
    s.marker (if x = '-' then .documentStart else .documentEnd)
  else if x = '[' then s.openFlow .flowSequenceStart
  else if x = '{' then s.openFlow .flowMappingStart
  else if x = ']' then s.closeFlow .flowSequenceEnd
  else if x = '}' then s.closeFlow .flowMappingEnd
  else if x = ',' then s.flowEntry
  else if x = '-' && endsWord rest then s.blockEntry
  else if x = '?' && (s.inFlow || endsWord rest) then s.explicitKey
  else if x = ':' && (s.inFlow || endsWord rest) then s.value
  else if x = '*' then s.name .alias
  else if x = '&' then s.name .anchor
  else if x = '!' then s.tag
  else if x = '|' && !s.inFlow then s.block true
  else if x = '>' && !s.inFlow then s.block false
  else if x = '\'' then s.quoted true
  else if x = '"' then s.quoted false
  else if !(isIndicator x || isSpace x) || x = '-' || (!s.inFlow && (x = '?' || x = ':')) then
    s.plain
  else none

def scanAll : Nat → Scanner → Option (List Token)
  | 0, _ => none
  | fuel + 1, s => do
    let s ← (s.skipSpace (s.cursor.rest.length + 1)).dropStaleKeys
    let s := s.unindent s.cursor.column
    match s.cursor.rest with
    | [] => s.finish
    | x :: rest => scanAll fuel (← s.scanToken x rest)

end Scanner

def tokens? (text : String) : Option (List Token) :=
  if text.toList.all isAllowed then
    let chars := normalizeBreaks text.toList
    Scanner.scanAll (chars.length + 2) { cursor := .ofText chars }
  else none

end Wiring.Yaml
