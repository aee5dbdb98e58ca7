import Timekeeping.Number.Decimal
import Timekeeping.Time.Duration

/-!
Spans written as counted units, such as `1 hour 30 mins`. A count that is left
out is one, and a unit may carry a plural `s`.
-/
namespace Timekeeping.Timing

/-- The units and their lengths in picoseconds. -/
def units : List (List Char × Int) :=
  [("microsec".toList, 1000000),
   ("microsecond".toList, 1000000),
   ("millisec".toList, 1000000000),
   ("millisecond".toList, 1000000000),
   ("sec".toList, picosPerSecond),
   ("second".toList, picosPerSecond),
   ("min".toList, 60 * picosPerSecond),
   ("minute".toList, 60 * picosPerSecond),
   ("hour".toList, 3600 * picosPerSecond),
   ("day".toList, 86400 * picosPerSecond),
   ("week".toList, 604800 * picosPerSecond),
   ("fortnight".toList, 1209600 * picosPerSecond),
   ("month".toList, 2592000 * picosPerSecond),
   ("year".toList, 31557600 * picosPerSecond)]

/-- The length of a unit as written, in lower case. -/
def unit? (word : List Char) : Option Int :=
  match units.lookup word with
  | some length => some length
  | none => (Text.dropSuffix? ['s'] word).bind fun stem => units.lookup stem

inductive TokenKind
  | number
  | word
  | blank
deriving DecidableEq

def tokenKind? (c : Char) : Option TokenKind :=
  if Text.isDigit c ∨ c = '.' then some .number
  else if c.isAlpha then some .word
  else if Text.isAsciiBlank c then some .blank
  else none

/-- A longest run of characters of one kind. -/
structure Token where
  kind : TokenKind
  text : List Char
deriving DecidableEq

/-- Puts a character before a row of tokens. -/
def glue (kind : TokenKind) (c : Char) : List Token → List Token
  | [] => [⟨kind, [c]⟩]
  | t :: rest => if t.kind = kind then ⟨kind, c :: t.text⟩ :: rest else ⟨kind, [c]⟩ :: t :: rest

def tokens? : List Char → Option (List Token)
  | [] => some []
  | c :: rest => do
    let kind ← tokenKind? c
    some (glue kind c (← tokens? rest))

/-- The span of a counted unit. The seconds are rounded once after the multiplication and once
after the division. -/
def group? (count word : List Char) : Option Duration := do
  let count ← Binary64.read? count
  let unit ← unit? (word.map Char.toLower)
  Duration.ofSecondsReal? ((count.scale unit).scale (mkRat 1 1000000000000))

/-- The sum of the groups in a row of tokens without blanks. -/
def sumGroups? (total : Duration) : List Token → Option Duration
  | [] => some total
  | ⟨.number, count⟩ :: ⟨.word, word⟩ :: rest => do
    sumGroups? (total + (← group? count word)) rest
  | ⟨.word, word⟩ :: rest => do sumGroups? (total + (← group? ['1'] word)) rest
  | _ => none

/-- Reads one or more groups, with blanks anywhere between the parts. -/
def readWords? (cs : List Char) : Option Duration := do
  let parts := (← tokens? cs).filter fun t => t.kind ≠ .blank
  if parts.isEmpty then none else sumGroups? .zero parts

end Timekeeping.Timing
