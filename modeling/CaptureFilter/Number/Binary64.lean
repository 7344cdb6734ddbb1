/-!
# Binary64 magnitudes

The magnitudes of the format binary64 are the numbers `m * 2 ^ q` with at most 53 bits in `m` and an
exponent `q` of at least -1074. Rounding picks the nearest one, exactly, from a fraction of two
natural numbers; a sign is kept elsewhere. The upper end of the format is a separate test, so that
rounding always has an answer.
-/

namespace CaptureFilter.Number

/-- The number `num / den`, for a positive `den`. -/
structure Fraction where
  num : Nat
  den : Nat

namespace Fraction

/-- The fraction of a natural number. -/
def ofNat (n : Nat) : Fraction := ⟨n, 1⟩

/-- The fraction times `base ^ e`. -/
def scale (base : Nat) (e : Int) (x : Fraction) : Fraction :=
  match e with
  | .ofNat k => ⟨x.num * base.pow k, x.den⟩
  | .negSucc k => ⟨x.num, x.den * base.pow (k + 1)⟩

/-- The product of two fractions. -/
def mul (x y : Fraction) : Fraction := ⟨x.num * y.num, x.den * y.den⟩

/-- The quotient of two fractions. -/
def div (x y : Fraction) : Fraction := ⟨x.num * y.den, x.den * y.num⟩

/-- The greatest `e` with `base ^ e ≤ x`, for a positive `x`. The counts of digits above and below
the line leave two candidates. -/
def floorLog (base : Nat) (x : Fraction) : Int :=
  let e : Int := (Nat.toDigits base x.num).length - (Nat.toDigits base x.den).length
  let y := x.scale base (-e)
  if y.den ≤ y.num then e else e - 1

/-- The nearest natural number; of two that are equally near, the even one. -/
def nearest (x : Fraction) : Nat :=
  let n := x.num / x.den
  let r := 2 * (x.num % x.den)
  if r < x.den || (r == x.den && n % 2 == 0) then n else n + 1

end Fraction

/-- The magnitude `mantissa * 2 ^ exponent`. -/
structure Binary64 where
  mantissa : Nat
  exponent : Int
deriving DecidableEq, Repr

namespace Binary64

/-- The magnitude zero. -/
def zero : Binary64 := ⟨0, 0⟩

/-- The number that a magnitude stands for. -/
def toFraction (m : Binary64) : Fraction :=
  (Fraction.ofNat m.mantissa).scale 2 m.exponent

/-- The nearest magnitude to a fraction: 53 bits from the highest one down, or fewer where the last
would lie below `2 ^ -1074`. When rounding up carries into a new bit, the exponent takes it. -/
def round (x : Fraction) : Binary64 :=
  if x.num = 0 then zero
  else
    let top := x.floorLog 2
    let q := if top < -1022 then -1074 else top - 52
    let m := (x.scale 2 (-q)).nearest
    if m = 0 then zero
    else if m = Nat.pow 2 53 then ⟨Nat.pow 2 52, q + 1⟩
    else ⟨m, q⟩

/-- Whether a magnitude is below `2 ^ 1024`, where the format ends. -/
def isFinite (m : Binary64) : Bool :=
  m.exponent ≤ 971

end Binary64

end CaptureFilter.Number
