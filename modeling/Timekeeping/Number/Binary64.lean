/-!
Binary64 numbers as exact rationals. A word is read into the number it stands
for, arithmetic is exact, and each result is rounded once to the nearest number
of the format, a tie going to the even mantissa.
-/
namespace Timekeeping

/-- A binary64 number. Both zeros are `finite 0`. -/
inductive Binary64
  | nan
  | infinite (negative : Bool)
  | finite (value : Rat)
deriving DecidableEq

namespace Binary64

def twoTo (e : Int) : Rat :=
  if 0 ≤ e then mkRat (1 <<< e.toNat) 1 else mkRat 1 (1 <<< (-e).toNat)

/-- The largest `e` with `2^e` at most the positive number `num / den`. -/
def binaryExponent (num den : Nat) : Int :=
  let e : Int := (num.log2 : Int) - (den.log2 : Int)
  let reached := if 0 ≤ e then decide (den <<< e.toNat ≤ num) else decide (den ≤ num <<< (-e).toNat)
  if reached then e else e - 1

/-- The quotient rounded to an integer, a half going to the even neighbour. -/
def roundHalfEven (num den : Nat) : Nat :=
  let q := num / den
  let r := num % den
  if 2 * r < den then q
  else if den < 2 * r then q + 1
  else if q % 2 = 0 then q else q + 1

/-- The spacing exponent of the format at the positive number `num / den`: 53 mantissa bits,
and nothing finer than `2^-1074`. -/
def spacing (num den : Nat) : Int := max (binaryExponent num den - 52) (-1074)

/-- The mantissa and exponent of the format's number nearest to `num / den`. -/
def nearest (num den : Nat) : Nat × Int :=
  let e := spacing num den
  if 0 ≤ e then (roundHalfEven num (den <<< e.toNat), e)
  else (roundHalfEven (num <<< (-e).toNat) den, e)

/-- Numbers at least this far from zero have no finite form. -/
def overflowBound : Rat := twoTo 1024

def round (q : Rat) : Binary64 :=
  if q = 0 then finite 0 else
    let (m, e) := nearest q.num.natAbs q.den
    let size : Rat := (m : Rat) * twoTo e
    if overflowBound ≤ size then infinite (decide (q < 0))
    else finite (if q < 0 then -size else size)

/-- The number that a word stands for. -/
def ofWord (w : UInt64) : Binary64 :=
  let n := w.toNat
  let negative : Bool := decide (1 <<< 63 ≤ n)
  let field := (n >>> 52) % 2048
  let fraction := n % (1 <<< 52)
  if field = 2047 then (if fraction = 0 then infinite negative else nan)
  else
    let size : Rat :=
      if field = 0 then (fraction : Rat) * twoTo (-1074)
      else ((1 <<< 52 + fraction : Nat) : Rat) * twoTo ((field : Int) - 1075)
    finite (if negative then -size else size)

/-- The word of a number of the format. -/
def toWord : Binary64 → UInt64
  | nan => UInt64.ofNat (0x7ff8 <<< 48)
  | infinite negative => UInt64.ofNat ((if negative then 0xfff0 else 0x7ff0) <<< 48)
  | finite q =>
    if q = 0 then 0 else
      let (m, e) := nearest q.num.natAbs q.den
      let sign := if q < 0 then 1 <<< 63 else 0
      -- A mantissa below `2^52` is subnormal; one of `2^53` carries into the exponent.
      let size := if m < 1 <<< 52 then m else ((e + 1074).toNat <<< 52) + m
      UInt64.ofNat (sign + size)

/-- Multiplication by a positive exact factor, rounded once. -/
def scale (x : Binary64) (factor : Rat) : Binary64 :=
  match x with
  | finite q => round (q * factor)
  | other => other

/-- The integer part, toward zero. -/
def truncate (q : Rat) : Int := Int.tdiv q.num q.den

/-- The nearest integer, a half going away from zero. -/
def roundHalfAway (q : Rat) : Int :=
  let n : Int := Int.ofNat ((2 * q.num.natAbs + q.den) / (2 * q.den))
  if q < 0 then -n else n

end Binary64
end Timekeeping
