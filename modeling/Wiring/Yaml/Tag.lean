import Wiring.Yaml.Cursor
import Wiring.Yaml.Token

namespace Wiring.Yaml

def isTagChar (c : Char) : Bool :=
  isWord c || ";/?:@&=+$.%!~*'()".toList.contains c

def sequenceLength? (first : Nat) : Option Nat :=
  if first < 0x80 then some 1
  else if 0xc0 ≤ first && first < 0xe0 then some 2
  else if 0xe0 ≤ first && first < 0xf0 then some 3
  else if 0xf0 ≤ first && first < 0xf8 then some 4
  else none

def octet? : List Char → Option (Nat × List Char)
  | '%' :: a :: b :: rest => do return (16 * (← hexDigit? a) + (← hexDigit? b), rest)
  | _ => none

def furtherOctets : Nat → Octets → List Char → Option (Octets × List Char)
  | 0, read, text => some (read, text)
  | n + 1, read, text => do
    let (o, text) ← octet? text
    if o / 64 ≠ 2 then none
    furtherOctets n (read ++ [o.toUInt8]) text

/-- A sequence of octets. Its length is checked, but not whether it stands for a character. -/
def escapedSequence? (text : List Char) : Option (Octets × List Char) := do
  let (first, rest) ← octet? text
  let n ← sequenceLength? first
  furtherOctets (n - 1) [first.toUInt8] rest

def tagText (verbatim : Bool) : Nat → Octets → Cursor → Option (Octets × Cursor)
  | 0, _, _ => none
  | fuel + 1, text, c =>
    match c.rest with
    | [] => some (text, c)
    | x :: _ =>
      if !(isTagChar x || (verbatim && [',', '[', ']'].contains x)) then some (text, c)
      else if x = '%' then do
        let (read, rest) ← escapedSequence? c.rest
        tagText verbatim fuel (text ++ read) (c.advance (c.rest.length - rest.length))
      else tagText verbatim fuel (text ++ octets (String.singleton x)) c.next

def tagText? (verbatim : Bool) (start : List Char) (c : Cursor) : Option (Octets × Cursor) := do
  let (text, d) ← tagText verbatim (c.rest.length + 1) [] c
  if start.isEmpty && d.index = c.index then none
  return ((octets (String.ofList (start.drop 1)) ++ text).takeWhile (· ≠ 0), d)

def tagHandle (c : Cursor) : Option (List Char × Cursor) :=
  match c.rest with
  | '!' :: _ =>
    let (word, c) := c.next.takeWhile isWord
    if c.rest.head? = some '!' then some (['!'] ++ word ++ ['!'], c.next)
    else some ('!' :: word, c)
  | _ => none

def isNamedHandle (handle : List Char) : Bool := 1 < handle.length && handle.getLast? = some '!'

def scanTag (inFlow : Bool) (c : Cursor) : Option (Token × Cursor) := do
  let (handle, rest, c) ←
    if c.startsWith "!<" then do
      let (text, c) ← tagText? true [] (c.advance 2)
      if c.rest.head? ≠ some '>' then none
      some ([], text, c.next)
    else do
      let (handle, c) ← tagHandle c
      if isNamedHandle handle then do
        let (text, c) ← tagText? false [] c
        some (handle, text, c)
      else do
        let (text, c) ← tagText? false handle c
        some (if text.isEmpty then ([], octets "!", c) else (['!'], text, c))
  if endsWord c.rest || (inFlow && c.rest.head? = some ',') then
    return (.tag (String.ofList handle) rest, c)
  else none

def scanName (c : Cursor) : Option (String × Cursor) :=
  let (name, c) := c.next.takeWhile isWord
  if name.isEmpty then none
  else if endsWord c.rest || c.rest.head?.any ['?', ':', ',', ']', '}', '%', '@', '`'].contains then
    some (String.ofList name, c)
  else none

def number? (c : Cursor) : Option (Nat × Cursor) :=
  let (digits, c) := c.takeWhile Char.isDigit
  if digits.isEmpty || 9 < digits.length then none
  else (String.ofList digits).toNat?.map (·, c)

def versionDirective (c : Cursor) : Option (Token × Cursor) := do
  let (major, c) ← number? (c.skipWhile isBlank)
  if c.rest.head? ≠ some '.' then none
  let (minor, c) ← number? c.next
  return (.version major minor, c)

def handleDirective (c : Cursor) : Option (Token × Cursor) := do
  let (handle, c) ← tagHandle (c.skipWhile isBlank)
  if handle ≠ ['!'] && handle.getLast? ≠ some '!' then none
  if !c.rest.head?.any isBlank then none
  let (text, c) ← tagText? true [] (c.skipWhile isBlank)
  if !endsWord c.rest then none
  return (.handle (String.ofList handle) text, c)

def scanDirective (c : Cursor) : Option (Token × Cursor) := do
  let (name, c) := c.next.takeWhile isWord
  if !endsWord c.rest then none
  let (token, c) ←
    if name = "YAML".toList then versionDirective c
    else if name = "TAG".toList then handleDirective c
    else none
  let c := c.skipWhile isBlank
  let c := if c.rest.head? = some '#' then c.skipWhile (!isLineBreak ·) else c
  match c.rest with
  | [] => return (token, c)
  | x :: _ => if isLineBreak x then return (token, c.next) else none

end Wiring.Yaml
