/-!
The shortest decimal of a binary64 number: of all decimals that round to it, one with the fewest
digits, and of those the nearest.
-/
namespace Wiring.Decimal

structure Binary where
  negative : Bool
  significand : Nat
  exponent : Int
  narrowBelow : Bool

inductive Class
  | finite (b : Binary)
  | infinite (negative : Bool)
  | notANumber

def classify (bits : UInt64) : Class :=
  let negative := bits >>> 63 == 1
  let e := ((bits >>> 52) &&& 0x7ff).toNat
  let f := (bits &&& 0xfffffffffffff).toNat
  if e = 0x7ff then if f = 0 then .infinite negative else .notANumber
  else if e = 0 then .finite ⟨negative, f, -1074, false⟩
  else .finite ⟨negative, f + Nat.pow 2 52, e - 1075, f = 0 ∧ 1 < e⟩

structure Digits where
  coefficient : Nat
  exponent : Int
  deriving DecidableEq, Repr

inductive Tie
  | up
  | even

def sides (x : Nat) (e : Int) (d : Nat) (k : Int) : Nat × Nat :=
  (x * Nat.pow 2 e.toNat * Nat.pow 10 (-k).toNat, d * Nat.pow 10 k.toNat * Nat.pow 2 (-e).toNat)

def digitCount (n : Nat) : Nat := (Nat.toDigits 10 n).length

def pointOf (x : Nat) (e : Int) : Int :=
  let (num, den) := sides x e 1 (-400)
  (digitCount (num / den) : Int) - 400

def candidate? (tie : Tie) (b : Binary) (n : Nat) : Option Digits :=
  let e := b.exponent - 2
  let mid := 4 * b.significand
  let low := if b.narrowBelow then mid - 1 else mid - 2
  let high := mid + 2
  let k := pointOf mid e - n
  let d := let (num, den) := sides mid e 1 k; num / den
  let above (d : Nat) : Bool :=
    let (l, r) := sides low e d k
    l < r || (l == r && b.significand % 2 == 0)
  let below (d : Nat) : Bool :=
    let (h, r) := sides high e d k
    r < h || (r == h && b.significand % 2 == 0)
  let (twice, sum) := sides (2 * mid) e (2 * d + 1) k
  let upper := sum < twice || (sum == twice && match tie with | .up => true | .even => d % 2 == 1)
  let floorFits := above d && 0 < d
  let ceilFits := below (d + 1)
  if floorFits && (!ceilFits || !upper) then some ⟨d, k⟩
  else if !ceilFits then none
  else if d + 1 = Nat.pow 10 n then some ⟨Nat.pow 10 (n - 1), k + 1⟩
  else some ⟨d + 1, k⟩

def shortest (tie : Tie) (b : Binary) : Digits :=
  if b.significand = 0 then ⟨0, 0⟩
  else ((List.range 17).findSome? (fun n => candidate? tie b (n + 1))).getD ⟨0, 0⟩

end Wiring.Decimal
