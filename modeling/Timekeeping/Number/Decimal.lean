import Timekeeping.Number.Binary64
import Timekeeping.Text.Numerals

/-!
Reading binary64 numbers from decimal text. The written number is rounded once.
-/
namespace Timekeeping.Binary64

open Text

/-- `mantissa * 10 ^ exponent`, rounded. The exponent is cut where the result is certain. -/
def ofDecimal (mantissa : Nat) (exponent : Int) : Binary64 :=
  let digits : Int := (Nat.toDigits 10 mantissa).length
  if mantissa = 0 then finite 0
  else if 400 < digits + exponent then infinite false
  else if digits + exponent < -400 then finite 0
  else if 0 ≤ exponent then round ((mantissa * Nat.pow 10 exponent.toNat : Nat) : Int)
  else round (mkRat mantissa (Nat.pow 10 (-exponent).toNat))

def negate : Binary64 → Binary64
  | nan => nan
  | infinite negative => infinite !negative
  | finite q => finite (-q)

/-- An exponent after its letter: an optional sign and at least one digit. -/
def readExponent? (cs : List Char) : Option Int :=
  let (negative, digits) := match cs with
    | '-' :: r => (true, r)
    | '+' :: r => (false, r)
    | r => (false, r)
  if digits.isEmpty || !digits.all isDigit then none
  else some (if negative then -(ofDigits digits : Int) else ofDigits digits)

/-- Digits with at most one point among them and an optional exponent. -/
def readUnsigned? (cs : List Char) : Option Binary64 :=
  let whole := cs.takeWhile isDigit
  let (fraction, rest) := match cs.dropWhile isDigit with
    | '.' :: r => (r.takeWhile isDigit, r.dropWhile isDigit)
    | r => ([], r)
  if whole.isEmpty && fraction.isEmpty then none
  else
    let mantissa := ofDigits (whole ++ fraction)
    let places : Int := fraction.length
    match rest with
    | [] => some (ofDecimal mantissa (-places))
    | c :: r =>
      if c = 'e' ∨ c = 'E' then (readExponent? r).map fun e => ofDecimal mantissa (e - places)
      else none

/-- A number without its sign; the words for infinity and for no number in any ASCII case. -/
def readSize? (cs : List Char) : Option Binary64 :=
  let word := cs.map Char.toLower
  if word = ['i', 'n', 'f'] ∨ word = ['i', 'n', 'f', 'i', 'n', 'i', 't', 'y'] then some (infinite false)
  else if word = ['n', 'a', 'n'] then some nan
  else readUnsigned? cs

def read? : List Char → Option Binary64
  | '-' :: r => (readSize? r).map negate
  | '+' :: r => readSize? r
  | r => readSize? r

end Timekeeping.Binary64
