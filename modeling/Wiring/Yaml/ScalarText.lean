import Wiring.Yaml.Cursor

namespace Wiring.Yaml

structure Gap where
  blanks : List Char := []
  broken : Bool := false
  first : List Char := []
  further : List Char := []

def fold (first further : List Char) : List Char :=
  if first = ['\n'] then if further = [] then [' '] else further else first ++ further

def Gap.text (g : Gap) : List Char := if g.broken then fold g.first g.further else g.blanks

def readGap (indent : Int) : Nat → Gap → Cursor → Option (Gap × Cursor)
  | 0, g, c => some (g, c)
  | fuel + 1, g, c =>
    match c.rest with
    | [] => some (g, c)
    | x :: _ =>
      if isBlank x then
        if g.broken then
          if x = '\t' && (c.column : Int) < indent then none
          else readGap indent fuel g c.next
        else readGap indent fuel { g with blanks := g.blanks ++ [x] } c.next
      else if isLineBreak x then
        readGap indent fuel
          (if g.broken then { g with further := g.further ++ [x] }
            else { blanks := [], broken := true, first := [x], further := g.further })
          c.next
      else some (g, c)

def plainWord (inFlow : Bool) : List Char → Option (List Char)
  | [] => some []
  | x :: rest =>
    if isSpace x then some []
    else if inFlow && x = ':' && rest.head?.any (fun y => y = '?' || isFlowIndicator y) then none
    else if (x = ':' && endsWord rest) || (inFlow && isFlowIndicator x) then some []
    else (plainWord inFlow rest).map (x :: ·)

structure PlainScalar where
  text : List Char
  -- The scalar was left behind at the start of another line.
  broken : Bool
  cursor : Cursor

def readPlain (inFlow : Bool) (indent : Int) : Nat → List Char → Gap → Cursor → Option PlainScalar
  | 0, _, _, _ => none
  | fuel + 1, text, g, c =>
    if c.atDocumentMarker || c.rest.head? = some '#' then some ⟨text, g.broken, c⟩
    else do
      let word ← plainWord inFlow c.rest
      let (text, g) := if word = [] then (text, g) else (text ++ g.text ++ word, {})
      let c := c.advance word.length
      match c.rest with
      | [] => return ⟨text, g.broken, c⟩
      | x :: _ =>
        if !isSpace x then return ⟨text, g.broken, c⟩
        let (g, c) ← readGap indent (c.rest.length + 1) g c
        if !inFlow && (c.column : Int) < indent then return ⟨text, g.broken, c⟩
        readPlain inFlow indent fuel text g c

def plainScalar (inFlow : Bool) (indent : Int) (c : Cursor) : Option PlainScalar :=
  readPlain inFlow indent (c.rest.length + 1) [] {} c

def hexNumber? (digits : List Char) : Option Nat :=
  digits.foldlM (fun n d => (hexDigit? d).map (16 * n + ·)) 0

def scalarValue? (n : Nat) : Option Char :=
  if n.isValidChar then some (Char.ofNat n) else none

def escape? : List Char → Option (Char × Nat)
  | [] => none
  | x :: rest =>
    let coded (n : Nat) : Option (Char × Nat) :=
      if rest.length < n then none
      else ((hexNumber? (rest.take n)).bind scalarValue?).map (·, n + 1)
    match x with
    | '0' => some ('\x00', 1)
    | 'a' => some ('\x07', 1)
    | 'b' => some ('\x08', 1)
    | 't' | '\t' => some ('\t', 1)
    | 'n' => some ('\n', 1)
    | 'v' => some ('\x0b', 1)
    | 'f' => some ('\x0c', 1)
    | 'r' => some ('\r', 1)
    | 'e' => some ('\x1b', 1)
    | ' ' => some (' ', 1)
    | '"' => some ('"', 1)
    | '/' => some ('/', 1)
    | '\\' => some ('\\', 1)
    | 'N' => some ('\u0085', 1)
    | '_' => some ('\u00a0', 1)
    | 'L' => some ('\u2028', 1)
    | 'P' => some ('\u2029', 1)
    | 'x' => coded 2
    | 'u' => coded 4
    | 'U' => coded 8
    | _ => none

def quotedWord (single : Bool) : Nat → List Char → Cursor → Option (List Char × Bool × Cursor)
  | 0, _, _ => none
  | fuel + 1, text, c =>
    match c.rest with
    | [] => some (text, false, c)
    | x :: rest =>
      if isSpace x then some (text, false, c)
      else if single then
        if x ≠ '\'' then quotedWord single fuel (text ++ [x]) c.next
        else if rest.head? = some '\'' then quotedWord single fuel (text ++ ['\'']) (c.advance 2)
        else some (text, false, c)
      else if x = '"' then some (text, false, c)
      else if x ≠ '\\' then quotedWord single fuel (text ++ [x]) c.next
      else if rest.head?.any isLineBreak then some (text, true, c.advance 2)
      else do
        let (y, n) ← escape? rest
        quotedWord single fuel (text ++ [y]) (c.advance (n + 1))

def readQuoted (single : Bool) : Nat → List Char → Cursor → Option (List Char × Cursor)
  | 0, _, _ => none
  | fuel + 1, text, c =>
    if c.atDocumentMarker || c.rest.isEmpty then none
    else do
      let (text, escaped, c) ← quotedWord single (c.rest.length + 1) text c
      if c.rest.head? = some (if single then '\'' else '"') then return (text, c.next)
      let (g, c) ← readGap 0 (c.rest.length + 1) { broken := escaped } c
      readQuoted single fuel (text ++ g.text) c

def quotedScalar (single : Bool) (c : Cursor) : Option (List Char × Cursor) :=
  readQuoted single (c.rest.length + 1) [] c.next

inductive Chomping
  | strip
  | clip
  | keep
  deriving DecidableEq

structure BlockHeader where
  chomping : Chomping := .clip
  increment : Option Nat := none

def chomping? : List Char → Option Chomping
  | '+' :: _ => some .keep
  | '-' :: _ => some .strip
  | _ => none

def increment? : List Char → Option Nat
  | x :: _ => if x.isDigit then some (x.toNat - '0'.toNat) else none
  | [] => none

def blockHeader (c : Cursor) : Option (BlockHeader × Cursor) := do
  let (h, c) := match chomping? c.rest with
    | some ch =>
      match increment? c.next.rest with
      | some n => (BlockHeader.mk ch (some n), c.advance 2)
      | none => (⟨ch, none⟩, c.next)
    | none =>
      match increment? c.rest with
      | some n =>
        match chomping? c.next.rest with
        | some ch => (⟨ch, some n⟩, c.advance 2)
        | none => (⟨.clip, some n⟩, c.next)
      | none => ({}, c)
  if h.increment = some 0 then none
  let c := c.skipWhile isBlank
  let c := if c.rest.head? = some '#' then c.skipWhile (!isLineBreak ·) else c
  match c.rest with
  | [] => return (h, c)
  | x :: _ => if isLineBreak x then return (h, c.next) else none

def blockBreaks (indent : Option Nat) :
    Nat → Nat → List Char → Cursor → Option (List Char × Nat × Cursor)
  | 0, _, _, _ => none
  | fuel + 1, deepest, breaks, c =>
    let within (c : Cursor) : Bool := match indent with
      | none => true
      | some n => c.column < n
    let spaces := (c.rest.takeWhile (· = ' ')).length
    let c := c.advance (match indent with
      | none => spaces
      | some n => min spaces (n - c.column))
    let deepest := max deepest c.column
    match c.rest with
    | [] => some (breaks, deepest, c)
    | x :: _ =>
      if within c && x = '\t' then none
      else if isLineBreak x then blockBreaks indent fuel deepest (breaks ++ [x]) c.next
      else some (breaks, deepest, c)

def blockLines (isLiteral : Bool) (indent : Nat) :
    Nat → List Char → Bool → List Char → List Char → Cursor →
      Option (List Char × List Char × List Char × Cursor)
  | 0, _, _, _, _, _ => none
  | fuel + 1, text, blankBefore, first, breaks, c =>
    if c.column ≠ indent || c.rest.isEmpty then some (text, first, breaks, c)
    else do
      let blank := c.rest.head?.any isBlank
      let lead := if !isLiteral && first = ['\n'] && !blankBefore && !blank then
        (if breaks = [] then [' '] else []) else first
      let (line, c) := c.takeWhile (!isLineBreak ·)
      let (first, c) := (c.rest.take 1, c.next)
      let text := text ++ lead ++ breaks ++ line
      let (breaks, _, c) ← blockBreaks (some indent) (c.rest.length + 2) 0 [] c
      blockLines isLiteral indent fuel text blank first breaks c

def blockScalar (isLiteral : Bool) (indent : Int) (c : Cursor) : Option (List Char × Cursor) := do
  let (h, c) ← blockHeader c.next
  let given := h.increment.map (fun n => n + indent.toNat)
  let (breaks, deepest, c) ← blockBreaks given (c.rest.length + 2) 0 [] c
  let column := given.getD (max (max deepest (indent + 1).toNat) 1)
  let (text, first, breaks, c) ←
    blockLines isLiteral column (c.rest.length + 2) [] false [] breaks c
  return (match h.chomping with
    | .strip => text
    | .clip => text ++ first
    | .keep => text ++ first ++ breaks, c)

end Wiring.Yaml
