import Timekeeping.Number.Binary64

/-!
Writing binary64 numbers: the fewest digits that read back, never an exponent.
-/
namespace Timekeeping.Binary64

/-- Whether a positive number rounds to the number with the given mantissa and exponent. The
ends of the interval round to it when the mantissa is even. -/
def readsBack (mantissa : Nat) (exponent : Int) (q : Rat) : Bool :=
  let below : Rat :=
    -- Under a power of two the spacing is half as wide.
    if mantissa = 1 <<< 52 ∧ -1074 < exponent then
      (4 * mantissa - 1 : Nat) * twoTo (exponent - 2)
    else (2 * mantissa - 1 : Nat) * twoTo (exponent - 1)
  let above : Rat := (2 * mantissa + 1 : Nat) * twoTo (exponent - 1)
  if mantissa % 2 = 0 then decide (below ≤ q ∧ q ≤ above) else decide (below < q ∧ q < above)

def tenTo (e : Int) : Rat :=
  if 0 ≤ e then mkRat (Nat.pow 10 e.toNat) 1 else mkRat 1 (Nat.pow 10 (-e).toNat)

/-- The multiple of `10 ^ place` that reads back as the positive number `q`: of its two
neighbours the nearer one, of two equally near the larger. -/
def onGrid? (q : Rat) (mantissa : Nat) (exponent place : Int) : Option Nat :=
  let scaled := q / tenTo place
  let low := scaled.num.natAbs / scaled.den
  let lowFits := readsBack mantissa exponent (low * tenTo place)
  let highFits := readsBack mantissa exponent ((low + 1 : Nat) * tenTo place)
  let highNearer := decide (((2 * low + 1 : Nat) : Rat) ≤ 2 * scaled)
  match lowFits, highFits with
  | true, true => some (if highNearer then low + 1 else low)
  | true, false => some low
  | false, true => some (low + 1)
  | false, false => none

/-- The first grid with a hit, from the coarsest down. -/
def shortestFrom (q : Rat) (mantissa : Nat) (exponent : Int) : Nat → Int → Nat × Int
  | 0, place => (0, place)
  | finer + 1, place =>
    match onGrid? q mantissa exponent place with
    | some digits => (digits, place)
    | none => shortestFrom q mantissa exponent finer (place - 1)

/-- The fewest digits that read back as the positive number `q`, and the place of the last. -/
def shortest (q : Rat) : Nat × Int :=
  let (mantissa, exponent) := nearest q.num.natAbs q.den
  -- The number is below `2 ^ bits`, and the logarithm of two lies between 3 / 10 and 1 / 3.
  let bits := exponent + 53
  let top := if 0 ≤ bits then bits / 3 + 1 else bits * 3 / 10 + 1
  shortestFrom q mantissa exponent 400 top

/-- Digits of `n * 10 ^ place` in positional form. -/
def positional (n : Nat) (place : Int) : List Char :=
  let digits := Nat.toDigits 10 n
  if 0 ≤ place then digits ++ List.replicate place.toNat '0'
  else
    let places := (-place).toNat
    let padded := List.replicate (places + 1 - digits.length) '0' ++ digits
    padded.take (padded.length - places) ++ '.' :: padded.drop (padded.length - places)

def digits : Binary64 → List Char
  | nan => ['N', 'a', 'N']
  | infinite negative => (if negative then ['-'] else []) ++ ['i', 'n', 'f']
  | finite q =>
    if q = 0 then ['0']
    else
      let (n, place) := shortest (if q < 0 then -q else q)
      (if q < 0 then ['-'] else []) ++ positional n place

instance : ToString Binary64 := ⟨fun x => String.ofList x.digits⟩

end Timekeeping.Binary64
