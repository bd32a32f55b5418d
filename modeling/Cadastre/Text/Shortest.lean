/-
# The shortest decimal of a float

A finite float is `m * 2 ^ q` with whole `m` and `q`. Every real number between
the midpoints to its two neighbours rounds to it, the midpoints included when
`m` is even. `shortest` looks for the fewest decimal digits of a number in that
interval: for 1, 2, ... 17 digits it tests the two points of the decimal grid
next to the float, and of two hits takes the nearer. All arithmetic is exact.

Key definitions: `Decimal`, `shortest`, `Decimal.text`.
-/
import Cadastre.Power

namespace Cadastre
namespace Text

/-- The number `digits * 10 ^ exponent`. -/
structure Decimal where
  digits : Nat
  exponent : Int
  deriving DecidableEq, Repr

/-- A positive fraction `num / den`. -/
structure Fraction where
  num : Nat
  den : Nat
  deriving DecidableEq, Repr

namespace Fraction

/-- The fraction `m * b ^ e`. -/
def scaled (m b : Nat) : Int → Fraction
  | .ofNat e => ⟨m * b ^ e, 1⟩
  | .negSucc e => ⟨m, b ^ (e + 1)⟩

def le (x y : Fraction) : Bool := x.num * y.den ≤ y.num * x.den

def lt (x y : Fraction) : Bool := x.num * y.den < y.num * x.den

/-- The distance of two fractions. -/
def distance (x y : Fraction) : Fraction :=
  ⟨(x.num * y.den - y.num * x.den) + (y.num * x.den - x.num * y.den), x.den * y.den⟩

/-- The least `j ≤ bound` for which `10 ^ j` times the fraction reaches one. -/
def leadingZeros (x : Fraction) : Nat → Nat → Nat
  | 0, j => j
  | bound + 1, j => if x.den ≤ x.num * 10 ^ j then j else leadingZeros x bound (j + 1)

/-- The exponent of the first decimal digit. -/
def magnitude (x : Fraction) : Int :=
  if x.den ≤ x.num then (toString (x.num / x.den)).length - 1
  else -(leadingZeros x 400 0 : Int)

/-- The greatest point of the grid of multiples of `10 ^ k` that is not above
the fraction, in units of the grid. -/
def floorGrid (x : Fraction) : Int → Nat
  | .ofNat k => x.num / (x.den * 10 ^ k)
  | .negSucc k => x.num * 10 ^ (k + 1) / x.den

end Fraction

/-- The reals that round to a float, with the float itself. -/
structure Rounding where
  value : Fraction
  low : Fraction
  high : Fraction
  closed : Bool
  deriving Repr

/-- The interval of a float whose fraction field is `m` and exponent field is
`e`; its sign is left aside. -/
def Rounding.ofFields (m e : Nat) : Rounding :=
  let mant := if e = 0 then m else 2 ^ 52 + m
  let q : Int := (if e = 0 then (1 : Int) else e) - 1077
  let below := if m = 0 ∧ 1 < e then 1 else 2
  { value := .scaled (4 * mant) 2 q
    low := .scaled (4 * mant - below) 2 q
    high := .scaled (4 * mant + 2) 2 q
    closed := mant % 2 == 0 }

/-- Whether a number rounds to the float. -/
def Rounding.holds (r : Rounding) (x : Fraction) : Bool :=
  if r.closed then r.low.le x && x.le r.high else r.low.lt x && x.lt r.high

/-- The point of the grid of multiples of `10 ^ k` that rounds to the float and
is nearest to it. -/
def Rounding.onGrid (r : Rounding) (k : Int) : Option Decimal :=
  let n := r.value.floorGrid k
  let down := Fraction.scaled n 10 k
  let up := Fraction.scaled (n + 1) 10 k
  match r.holds down, r.holds up with
  | true, true =>
    if (r.value.distance up).lt (r.value.distance down) then some ⟨n + 1, k⟩ else some ⟨n, k⟩
  | true, false => some ⟨n, k⟩
  | false, true => some ⟨n + 1, k⟩
  | false, false => none

/-- Tries grids of more and more digits, the first one with the digit of
exponent `k`. -/
def Rounding.search (r : Rounding) : Nat → Int → Option Decimal
  | 0, _ => none
  | tries + 1, k =>
    match r.onGrid k with
    | some d => some d
    | none => r.search tries (k - 1)

/-- The shortest decimal that rounds to the positive finite float `x`; `none`
for zero, the infinities and NaN. -/
def shortest (x : Float) : Option Decimal :=
  let bits := x.toBits.toNat
  let e := bits / 2 ^ 52 % 2 ^ 11
  let m := bits % 2 ^ 52
  if e = 2047 ∨ (e = 0 ∧ m = 0) then none
  else
    let r := Rounding.ofFields m e
    r.search 18 r.value.magnitude

/-- The digits with the mark after `n` of them, or zeros where they end. -/
def placeMark (ds : String) (n : Int) : String :=
  if n ≤ 0 then "0." ++ "".pushn '0' (-n).toNat ++ ds
  else if ds.length ≤ n.toNat then ds ++ "".pushn '0' (n.toNat - ds.length) ++ ".0"
  else (ds.take n.toNat).toString ++ "." ++ (ds.drop n.toNat).toString

/-- The number as text: positional from `1e-5` up to `1e16`, else with an
exponent. -/
def Decimal.text (d : Decimal) : String :=
  let ds := toString d.digits
  let top := d.exponent + ds.length
  if -5 < top ∧ top ≤ 16 then placeMark ds top
  else
    let tail := if ds.length ≤ 1 then "" else "." ++ (ds.drop 1).toString
    (ds.take 1).toString ++ tail ++ (if top - 1 < 0 then "e-" else "e+") ++
      toString (top - 1).natAbs

/-- The shortest text that reads back as the float, always with a mark or an
exponent. -/
def floatText (x : Float) : String :=
  let sign := if 2 ^ 63 ≤ x.toBits.toNat then "-" else ""
  match shortest x with
  | some d => sign ++ d.text
  | none => if x == 0.0 then sign ++ "0.0" else "null"

end Text
end Cadastre
