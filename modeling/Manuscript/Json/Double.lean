import Manuscript.Text.Decimal

/-! Binary64 numbers as text. Writing picks the fewest decimal digits that still lie in the interval
of reals rounding to the number, and of those the nearest; reading multiplies or divides the
significand by a power of ten, once, in binary64 arithmetic. -/
namespace Manuscript.Json.Double

/-- A finite positive binary64 value `mantissa * 2 ^ exponent`; `below` tells a power of two, whose
lower neighbour is only half as far away. -/
structure Decoded where
  mantissa : Nat
  exponent : Int
  below : Bool

def hiddenBit : Nat := 0x10000000000000

def decode (bits : UInt64) : Decoded :=
  let field := (bits.toNat >>> 52) % 2048
  let fraction := bits.toNat % hiddenBit
  if field = 0 then ⟨fraction, -1074, false⟩
  else ⟨hiddenBit + fraction, (field : Int) - 1075, fraction = 0 && field > 1⟩

structure Ratio where
  num : Nat
  den : Nat

def Ratio.scale (base : Nat) (n : Nat) (e : Int) : Ratio :=
  if 0 ≤ e then ⟨n * base.pow e.toNat, 1⟩ else ⟨n, base.pow (-e).toNat⟩

def Ratio.le (a b : Ratio) : Bool := a.num * b.den ≤ b.num * a.den

def Ratio.leadingPlace (r : Ratio) : Int :=
  if r.den ≤ r.num then ((Text.digits (r.num / r.den)).length : Int) - 1
  else
    match (List.range 400).find? (fun (j : Nat) => r.den ≤ r.num * Nat.pow 10 j) with
    | some j => -(j : Int)
    | none => -400

/-- The point of the grid `10 ^ place` that rounds to the decoded value and is nearest to it. -/
def Decoded.gridPoint? (d : Decoded) (place : Int) : Option Nat :=
  let value := Ratio.scale 2 (4 * d.mantissa) (d.exponent - 2)
  let low := Ratio.scale 2 (4 * d.mantissa - if d.below then 1 else 2) (d.exponent - 2)
  let high := Ratio.scale 2 (4 * d.mantissa + 2) (d.exponent - 2)
  let even := d.mantissa % 2 = 0
  let inside (c : Nat) : Bool :=
    let x := Ratio.scale 10 c place
    low.le x && x.le high && (even || !(x.le low || high.le x))
  let unit := Ratio.scale 10 1 place
  let c := value.num * unit.den / (value.den * unit.num)
  let twice := Ratio.scale 10 (2 * c + 1) place
  let doubled : Ratio := ⟨2 * value.num, value.den⟩
  match inside c && c != 0, inside (c + 1) with
  | true, true =>
    if doubled.le twice && (!twice.le doubled || c % 2 = 0) then some c else some (c + 1)
  | true, false => some c
  | false, true => some (c + 1)
  | false, false => none

def Decoded.shortest (d : Decoded) : Nat × Int :=
  let top := (Ratio.scale 2 d.mantissa d.exponent).leadingPlace
  ((List.range 17).findSome? fun (n : Nat) =>
    let place := top - (n : Int)
    (d.gridPoint? place).map fun c => (c, place)).getD (0, 0)

def dropZeros (digits : List Char) (place : Int) : List Char × Int :=
  let zeros := (digits.reverse.takeWhile (· == '0')).length
  (digits.take (digits.length - zeros), place + (zeros : Int))

def zeros (n : Nat) : List Char := List.replicate n '0'

/-- Positional from `1e-5` up to `1e16`, always with a point; else one digit, the point, and a
signed exponent. -/
def layOut (digits : List Char) (place : Int) : List Char :=
  let point := (digits.length : Int) + place
  if 0 ≤ place ∧ point ≤ 16 then digits ++ zeros place.toNat ++ ['.', '0']
  else if 0 < point ∧ point ≤ 16 then
    digits.take point.toNat ++ '.' :: digits.drop point.toNat
  else if -5 < point ∧ point ≤ 0 then ['0', '.'] ++ zeros (-point).toNat ++ digits
  else
    let exponent := point - 1
    let tail := match digits.drop 1 with
      | [] => []
      | more => '.' :: more
    digits.take 1 ++ tail ++ (if 0 ≤ exponent then ['e', '+'] else ['e', '-']) ++
      Text.digits exponent.natAbs

def text (bits : UInt64) : String :=
  let sign := if 0x8000000000000000 ≤ bits.toNat then ['-'] else []
  let d := decode bits
  if d.mantissa = 0 then String.ofList (sign ++ ['0', '.', '0'])
  else
    let (c, place) := d.shortest
    let (digits, place) := dropZeros (Text.digits c) place
    String.ofList (sign ++ layOut digits place)

def powerOfTen (n : Nat) : Float := Float.ofScientific 1 false n

/-- Multiplies by a power of ten; past the range it steps by `1e308`. -/
def scaled (f : Float) (e : Int) : Option Float :=
  if 0 ≤ e then
    if e ≤ 308 then
      let g := f * powerOfTen e.toNat
      if g.isInf then none else some g
    else if f == 0 then some f else none
  else if -308 ≤ e then some (f / powerOfTen (-e).toNat)
  else if f == 0 then some f
  else scaled (f / powerOfTen 308) (e + 308)
termination_by (-e).toNat
decreasing_by omega

def ofDecimal? (negative : Bool) (significand : UInt64) (e : Int) : Option UInt64 :=
  (scaled significand.toFloat e).map fun f => (if negative then -f else f).toBits

def negativeZero : UInt64 := (-(0 : Float)).toBits

def zero : UInt64 := (0 : Float).toBits

end Manuscript.Json.Double
