import Wiring.Yaml.Cursor
import Wiring.Yaml.Node
import Wiring.Decimal.Layout
import Wiring.Text.Quoted

namespace Wiring.Yaml

inductive Scalar
  | null
  | boolean (b : Bool)
  | integer (n : Int)
  | wide (n : Int)
  | float (bits : UInt64)
  | text (s : String)
  deriving DecidableEq, Repr

namespace Scalar

def null? (s : String) : Bool := ["~", "null", "Null", "NULL"].contains s

def boolean? (s : String) : Option Bool :=
  if ["true", "True", "TRUE"].contains s then some true
  else if ["false", "False", "FALSE"].contains s then some false
  else none

def digitOf? (base : Nat) (c : Char) : Option Nat := do
  let d ← hexDigit? c
  if d < base then some d else none

def digits? (base : Nat) : List Char → Option Nat
  | [] => none
  | cs => cs.foldlM (fun n c => (digitOf? base c).map (base * n + ·)) 0

def base? : List Char → Option (Nat × List Char)
  | '0' :: 'x' :: rest => some (16, rest)
  | '0' :: 'o' :: rest => some (8, rest)
  | '0' :: 'b' :: rest => some (2, rest)
  | _ => none

def hasLeadingZero : List Char → Bool
  | '0' :: c :: rest => (c :: rest).all Char.isDigit
  | _ => false

def magnitude? (cs : List Char) : Option Nat :=
  match base? cs with
  | some (base, rest) => digits? base rest
  | none => if hasLeadingZero cs then none else digits? 10 cs

def sign : List Char → Bool × List Char
  | '-' :: rest => (true, rest)
  | '+' :: rest => (false, rest)
  | cs => (false, cs)

def integer? (s : String) : Option Int :=
  let (negative, cs) := sign s.toList
  (magnitude? cs).map (fun n => if negative then -(n : Int) else n)

def ofInteger? (n : Int) : Option Scalar :=
  if -Int.pow 2 63 ≤ n && n < Int.pow 2 64 then some (integer n)
  else if -Int.pow 2 127 ≤ n && n < Int.pow 2 128 then some (wide n)
  else none

def mantissa (cs : List Char) : Option (List Char × Nat × List Char) :=
  let whole := cs.takeWhile Char.isDigit
  match cs.drop whole.length with
  | '.' :: rest =>
    let fraction := rest.takeWhile Char.isDigit
    if whole.isEmpty && fraction.isEmpty then none
    else some (whole ++ fraction, fraction.length, rest.drop fraction.length)
  | rest => if whole.isEmpty then none else some (whole, 0, rest)

def exponent : List Char → Option Int
  | [] => some 0
  | e :: rest =>
    if e = 'e' || e = 'E' then
      let (negative, cs) := sign rest
      (digits? 10 cs).map (fun n => if negative then -(n : Int) else n)
    else none

def scale (n : Nat) (e : Int) : Float :=
  let e := max (-100000) (min 100000 e)
  if n = 0 then 0
  else if 400 < (Decimal.digitCount n : Int) + e then 1 / 0
  else if (Decimal.digitCount n : Int) + e < -400 then 0
  else Float.ofScientific n (e < 0) e.natAbs

def decimal? (s : List Char) : Option UInt64 := do
  let (negative, cs) := sign s
  let (digits, places, rest) ← mantissa cs
  let e ← exponent rest
  let x := scale (← digits? 10 digits) (e - places)
  if x.isInf then none
  return (if negative then -x else x).toBits

def float? (s : String) : Option UInt64 :=
  if [".inf", ".Inf", ".INF", "+.inf", "+.Inf", "+.INF"].contains s then some 0x7ff0000000000000
  else if ["-.inf", "-.Inf", "-.INF"].contains s then some 0xfff0000000000000
  else if [".nan", ".NaN", ".NAN"].contains s then some 0x7ff8000000000000
  else decimal? s.toList

def ofPlain (s : String) : Scalar :=
  if s = "" || null? s then null
  else match boolean? s with
    | some b => boolean b
    | none =>
      match (integer? s).bind ofInteger? with
      | some n => n
      | none =>
        if hasLeadingZero (sign s.toList).2 then text s
        else match float? s with
          | some bits => float bits
          | none => text s

structure Mismatch where
  text : String
  expected : String

def coreTag (name : String) : Octets := octets ("tag:yaml.org,2002:" ++ name)

def isOwn (tag : Octets) : Bool := (octets "!").isPrefixOf tag

def orMismatch (s expected : String) : Option Scalar → Except Mismatch Scalar
  | some v => .ok v
  | none => .error ⟨s, expected⟩

def resolve (tag : Option Octets) (style : Style) (s : String) : Except Mismatch Scalar :=
  let untagged := if style = .plain then ofPlain s else text s
  match tag with
  | none => .ok untagged
  | some t =>
    if t = coreTag "bool" then orMismatch s "a boolean" ((boolean? s).map boolean)
    else if t = coreTag "int" then orMismatch s "an integer" ((integer? s).bind ofInteger?)
    else if t = coreTag "float" then orMismatch s "a float" ((float? s).map float)
    else if t = coreTag "null" then orMismatch s "null" (if null? s then some null else none)
    else if isOwn t then .ok untagged
    else .ok (text s)

def describe : Scalar → String
  | null => "unit value"
  | boolean b => "boolean `" ++ toString b ++ "`"
  | integer n => "integer `" ++ toString n ++ "`"
  | wide n => "integer `" ++ toString n ++ "` as " ++ if n < 0 then "i128" else "u128"
  | float bits => "floating point `" ++ Decimal.plain.write bits ++ "`"
  | text s => "string " ++ Text.quoted s

end Scalar

end Wiring.Yaml
