import Wiring.Decimal.Shortest

namespace Wiring.Decimal

structure Layout where
  tie : Tie
  -- The positions of the decimal point that are written without an exponent.
  positional : Int → Bool
  infinity : String
  notANumber : String

def zeros (n : Nat) : String := String.ofList (List.replicate n '0')

def positionalText (digits : String) (point : Int) : String :=
  if point ≤ 0 then "0." ++ zeros (-point).toNat ++ digits
  else if digits.length ≤ point.toNat then digits ++ zeros (point.toNat - digits.length) ++ ".0"
  else String.ofList (digits.toList.take point.toNat) ++ "." ++
    String.ofList (digits.toList.drop point.toNat)

def scientificText (digits : String) (point : Int) : String :=
  let rest := digits.toList.drop 1
  String.ofList (digits.toList.take 1) ++
    (if rest.isEmpty then "" else "." ++ String.ofList rest) ++ "e" ++ toString (point - 1)

def Layout.write (l : Layout) (bits : UInt64) : String :=
  match classify bits with
  | .notANumber => l.notANumber
  | .infinite negative => (if negative then "-" else "") ++ l.infinity
  | .finite b =>
    let d := shortest l.tie b
    let digits := String.ofList (Nat.toDigits 10 d.coefficient)
    let point := d.exponent + digits.length
    (if b.negative then "-" else "") ++
      if l.positional point then positionalText digits point else scientificText digits point

def plain : Layout := ⟨.up, fun _ => true, "inf", "NaN"⟩

def compact : Layout := ⟨.even, fun p => -5 < p ∧ p ≤ 16, ".inf", ".nan"⟩

def hex16 (n : Nat) : String :=
  let h := Nat.toDigits 16 n
  String.ofList (List.replicate (16 - h.length) '0' ++ h)

def bitsText (bits : UInt64) : String :=
  match classify bits with
  | .notANumber => "nan"
  | _ => "0x" ++ hex16 bits.toNat

end Wiring.Decimal
