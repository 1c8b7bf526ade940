import Wiring.Yaml.Token

namespace Wiring.Yaml

structure Properties where
  anchor : Option String := none
  tag : Option Octets := none

inductive Node (α : Type)
  | scalar (p : Properties) (style : Style) (text : String)
  | sequence (p : Properties) (items : List (Node α))
  | mapping (p : Properties) (pairs : List (Node α × Node α))
  | alias (target : α)
  deriving Inhabited

abbrev Handles := List (String × Octets)

def standardHandles : Handles := 
  [("!", octets "!"), ("!!", octets "tag:yaml.org,2002:")]

namespace Node

def empty : Node String := .scalar {} .plain ""

def tagOf? (handles : Handles) (handle : String) (rest : Octets) : Option Octets :=
  if handle = "" then some rest else (handles.lookup handle).map (· ++ rest)

def properties (handles : Handles) : List Token → Option (Properties × List Token)
  | .anchor a :: .tag h r :: rest => do return (⟨some a, some (← tagOf? handles h r)⟩, rest)
  | .tag h r :: .anchor a :: rest => do return (⟨some a, some (← tagOf? handles h r)⟩, rest)
  | .anchor a :: rest => some (⟨some a, none⟩, rest)
  | .tag h r :: rest => do return (⟨none, some (← tagOf? handles h r)⟩, rest)
  | rest => some ({}, rest)

def isAbsent (closers : List Token) : List Token → Bool
  | [] => true
  | t :: _ => closers.contains t

def afterBlockKey : List Token := [.key, .value, .blockEnd]

mutual

def read (handles : Handles) (inBlock indentless : Bool) :
    Nat → List Token → Option (Node String × List Token)
  | 0, _ => none
  | _ + 1, .alias name :: rest => some (.alias name, rest)
  | fuel + 1, tokens => do
    let (p, rest) ← properties handles tokens
    match rest with
    | .blockEntry :: _ =>
      if !indentless then absent p rest
      else do
        let (items, rest) ← readIndentless handles fuel rest
        return (.sequence p items, rest)
    | .scalar style text :: rest =>
      return (.scalar p style text, rest)
    | .flowSequenceStart :: rest => do
      let (items, rest) ← readFlowItems handles fuel true rest
      return (.sequence p items, rest)
    | .flowMappingStart :: rest => do
      let (pairs, rest) ← readFlowPairs handles fuel true rest
      return (.mapping p pairs, rest)
    | .blockSequenceStart :: after =>
      if !inBlock then absent p rest
      else do
        let (items, rest) ← readBlockItems handles fuel after
        return (.sequence p items, rest)
    | .blockMappingStart :: after =>
      if !inBlock then absent p rest
      else do
        let (pairs, rest) ← readBlockPairs handles fuel after
        return (.mapping p pairs, rest)
    | _ => absent p rest
where
  -- Properties alone make an empty scalar.
  absent (p : Properties) (rest : List Token) : Option (Node String × List Token) :=
    if p.anchor.isSome || p.tag.isSome then some (.scalar p .plain "", rest) else none

def readUnless (handles : Handles) (inBlock indentless : Bool) (closers : List Token) :
    Nat → List Token → Option (Node String × List Token)
  | 0, _ => none
  | fuel + 1, tokens =>
    if isAbsent closers tokens then some (empty, tokens)
    else read handles inBlock indentless fuel tokens

def readIndentless (handles : Handles) :
    Nat → List Token → Option (List (Node String) × List Token)
  | 0, _ => none
  | fuel + 1, .blockEntry :: rest => do
    let (item, rest) ←
      readUnless handles true false [.blockEntry, .key, .value, .blockEnd] fuel rest
    let (items, rest) ← readIndentless handles fuel rest
    return (item :: items, rest)
  | _ + 1, tokens => some ([], tokens)

def readBlockItems (handles : Handles) :
    Nat → List Token → Option (List (Node String) × List Token)
  | 0, _ => none
  | fuel + 1, .blockEntry :: rest => do
    let (item, rest) ← readUnless handles true false [.blockEntry, .blockEnd] fuel rest
    let (items, rest) ← readBlockItems handles fuel rest
    return (item :: items, rest)
  | _ + 1, .blockEnd :: rest => some ([], rest)
  | _ + 1, _ => none

def readBlockPairs (handles : Handles) :
    Nat → List Token → Option (List (Node String × Node String) × List Token)
  | 0, _ => none
  | fuel + 1, .key :: rest => do
    let (k, rest) ← readUnless handles true true afterBlockKey fuel rest
    let (v, rest) ← readBlockValue handles fuel rest
    let (pairs, rest) ← readBlockPairs handles fuel rest
    return ((k, v) :: pairs, rest)
  | _ + 1, .blockEnd :: rest => some ([], rest)
  | _ + 1, _ => none

def readBlockValue (handles : Handles) : Nat → List Token → Option (Node String × List Token)
  | 0, _ => none
  | fuel + 1, .value :: rest => readUnless handles true true afterBlockKey fuel rest
  | _ + 1, tokens => some (empty, tokens)

def readFlowItems (handles : Handles) :
    Nat → Bool → List Token → Option (List (Node String) × List Token)
  | 0, _, _ => none
  | _ + 1, _, .flowSequenceEnd :: rest => some ([], rest)
  | fuel + 1, isFirst, tokens => do
    let tokens ← match isFirst, tokens with
      | true, tokens => some tokens
      | false, .flowEntry :: rest => some rest
      | false, _ => none
    match tokens with
    | .flowSequenceEnd :: rest => return ([], rest)
    | .key :: rest => do
      let (pair, rest) ← readFlowPair handles fuel rest
      let (items, rest) ← readFlowItems handles fuel false rest
      return (.mapping {} [pair] :: items, rest)
    | _ => do
      let (item, rest) ← read handles false false fuel tokens
      let (items, rest) ← readFlowItems handles fuel false rest
      return (item :: items, rest)

/-- A pair in a sequence. Where its key is missing, the next token is lost. -/
def readFlowPair (handles : Handles) :
    Nat → List Token → Option ((Node String × Node String) × List Token)
  | 0, _ => none
  | fuel + 1, tokens => do
    let (k, rest) ←
      if isAbsent [.value, .flowEntry, .flowSequenceEnd] tokens then some (empty, tokens.tail)
      else read handles false false fuel tokens
    match rest with
    | .value :: rest => do
      let (v, rest) ← readUnless handles false false [.flowEntry, .flowSequenceEnd] fuel rest
      return ((k, v), rest)
    | _ => return ((k, empty), rest)

def readFlowPairs (handles : Handles) :
    Nat → Bool → List Token → Option (List (Node String × Node String) × List Token)
  | 0, _, _ => none
  | _ + 1, _, .flowMappingEnd :: rest => some ([], rest)
  | fuel + 1, isFirst, tokens => do
    let tokens ← match isFirst, tokens with
      | true, tokens => some tokens
      | false, .flowEntry :: rest => some rest
      | false, _ => none
    match tokens with
    | .flowMappingEnd :: rest => return ([], rest)
    | .key :: rest => do
      let (k, rest) ←
        readUnless handles false false [.value, .flowEntry, .flowMappingEnd] fuel rest
      let (v, rest) ← readFlowValue handles fuel rest
      let (pairs, rest) ← readFlowPairs handles fuel false rest
      return ((k, v) :: pairs, rest)
    | _ => do
      let (k, rest) ← read handles false false fuel tokens
      let (pairs, rest) ← readFlowPairs handles fuel false rest
      return ((k, empty) :: pairs, rest)

def readFlowValue (handles : Handles) : Nat → List Token → Option (Node String × List Token)
  | 0, _ => none
  | fuel + 1, .value :: rest =>
    readUnless handles false false [.flowEntry, .flowMappingEnd] fuel rest
  | _ + 1, tokens => some (empty, tokens)

end

end Node

end Wiring.Yaml
