import Timekeeping.Json.Basic
import Timekeeping.Text.Numerals

/-!
Reading JSON text. Only the syntax is checked here: numbers of any size and
strings with unpaired surrogates are taken.
-/
namespace Timekeeping.Json

def isSpace (c : Char) : Bool := c == ' ' || c == '\t' || c == '\n' || c == '\r'

def skipSpace (cs : List Char) : List Char := cs.dropWhile isSpace

def hexDigit? (c : Char) : Option Nat :=
  if '0' ≤ c ∧ c ≤ '9' then some (c.toNat - '0'.toNat)
  else if 'a' ≤ c ∧ c ≤ 'f' then some (c.toNat - 'a'.toNat + 10)
  else if 'A' ≤ c ∧ c ≤ 'F' then some (c.toNat - 'A'.toNat + 10)
  else none

/-- A part of a string: a character, or one half of a surrogate pair. -/
inductive Piece
  | char (c : Char)
  | surrogate (code : Nat)

def Piece.ofCode (n : Nat) : Piece :=
  if 0xd800 ≤ n ∧ n ≤ 0xdfff then .surrogate n else .char (Char.ofNat n)

def escaped? (c : Char) : Option Char :=
  if c = '"' then some '"'
  else if c = '\\' then some '\\'
  else if c = '/' then some '/'
  else if c = 'b' then some '\x08'
  else if c = 'f' then some '\x0c'
  else if c = 'n' then some '\n'
  else if c = 'r' then some '\r'
  else if c = 't' then some '\t'
  else none

/-- The parts of a string up to its closing quote, and the text after that. -/
def readPieces : List Char → Option (List Piece × List Char)
  | [] => none
  | '"' :: rest => some ([], rest)
  | '\\' :: 'u' :: a :: b :: c :: d :: rest => do
    let code := (← hexDigit? a) * 4096 + (← hexDigit? b) * 256 + (← hexDigit? c) * 16 + (← hexDigit? d)
    let (pieces, after) ← readPieces rest
    some (.ofCode code :: pieces, after)
  | '\\' :: c :: rest => do
    let c ← escaped? c
    let (pieces, after) ← readPieces rest
    some (.char c :: pieces, after)
  | c :: rest =>
    if c.toNat < 32 ∨ c = '\\' then none
    else do
      let (pieces, after) ← readPieces rest
      some (.char c :: pieces, after)

/-- Joins each high surrogate with the low one after it; fails when one stays single. -/
def pair? : List Piece → Option (List Char)
  | [] => some []
  | .char c :: rest => (pair? rest).map (c :: ·)
  | .surrogate high :: .surrogate low :: rest =>
    if high < 0xdc00 ∧ 0xdc00 ≤ low then
      (pair? rest).map (Char.ofNat (0x10000 + (high - 0xd800) * 1024 + (low - 0xdc00)) :: ·)
    else none
  | .surrogate _ :: _ => none

/-- A string after its opening quote. -/
def readString (cs : List Char) : Option (Option String × List Char) :=
  (readPieces cs).map fun (pieces, rest) => ((pair? pieces).map String.ofList, rest)

/-- A run of digits, at least one. -/
def readRun (cs : List Char) : Option (List Char × List Char) :=
  let run := cs.takeWhile Text.isDigit
  if run.isEmpty then none else some (run, cs.dropWhile Text.isDigit)

/-- A run of digits that is a zero or does not begin with one. -/
def readWhole : List Char → Option (List Char × List Char)
  | '0' :: rest => if (rest.head?.map Text.isDigit).getD false then none else some (['0'], rest)
  | cs => readRun cs

/-- The exponent and what follows; `none` inside when no exponent is written. -/
def readPower : List Char → Option (Option Int × List Char)
  | c :: rest =>
    if c = 'e' ∨ c = 'E' then
      match rest with
      | '-' :: r => (readRun r).map fun (run, after) => (some (-(Text.ofDigits run : Int)), after)
      | '+' :: r => (readRun r).map fun (run, after) => (some (Text.ofDigits run : Int), after)
      | r => (readRun r).map fun (run, after) => (some (Text.ofDigits run : Int), after)
    else some (none, c :: rest)
  | [] => some (none, [])

/-- The digits after a point, none when there is no point. -/
def readPlaces : List Char → Option (List Char × List Char)
  | '.' :: rest => readRun rest
  | cs => some ([], cs)

/-- A number without its sign. -/
def readSize (negative : Bool) (cs : List Char) : Option (Json × List Char) := do
  let (whole, rest) ← readWhole cs
  let (places, rest) ← readPlaces rest
  let (power, rest) ← readPower rest
  let size : Int := Text.ofDigits (whole ++ places)
  let value := if negative then -size else size
  if places.isEmpty ∧ power.isNone ∧ ¬ (negative = true ∧ size = 0) then some (integer value, rest)
  else some (decimal value (power.getD 0 - places.length), rest)

def readNumber : List Char → Option (Json × List Char)
  | '-' :: rest => readSize true rest
  | cs => readSize false cs

mutual

/-- A value and the text after it. The count bounds the steps. -/
def readValue : Nat → List Char → Option (Json × List Char)
  | 0, _ => none
  | steps + 1, cs =>
    match skipSpace cs with
    | 'n' :: 'u' :: 'l' :: 'l' :: rest => some (null, rest)
    | 't' :: 'r' :: 'u' :: 'e' :: rest => some (bool true, rest)
    | 'f' :: 'a' :: 'l' :: 's' :: 'e' :: rest => some (bool false, rest)
    | '"' :: rest => (readString rest).map fun (s, after) => (string s, after)
    | '[' :: rest =>
      match skipSpace rest with
      | ']' :: after => some (array [], after)
      | rest => (readItems steps rest).map fun (items, after) => (array items, after)
    | '{' :: rest =>
      match skipSpace rest with
      | '}' :: after => some (object [], after)
      | rest => (readMembers steps rest).map fun (members, after) => (object members, after)
    | rest => readNumber rest

/-- The items of an array up to its closing bracket. -/
def readItems : Nat → List Char → Option (List Json × List Char)
  | 0, _ => none
  | steps + 1, cs => do
    let (item, rest) ← readValue steps cs
    match skipSpace rest with
    | ',' :: rest => (readItems steps rest).map fun (items, after) => (item :: items, after)
    | ']' :: after => some ([item], after)
    | _ => none

/-- The members of an object up to its closing brace. -/
def readMembers : Nat → List Char → Option (List (Option String × Json) × List Char)
  | 0, _ => none
  | steps + 1, cs => do
    let (name, rest) ← match skipSpace cs with
      | '"' :: rest => readString rest
      | _ => none
    let rest ← match skipSpace rest with
      | ':' :: rest => some rest
      | _ => none
    let (value, rest) ← readValue steps rest
    match skipSpace rest with
    | ',' :: rest =>
      (readMembers steps rest).map fun (members, after) => ((name, value) :: members, after)
    | '}' :: after => some ([(name, value)], after)
    | _ => none

end

/-- Reads a whole text. A level of nesting takes two steps and has two brackets, so the text's
length bounds the steps. -/
def read? (s : String) : Option Json :=
  let cs := s.toList
  match readValue (cs.length + 1) cs with
  | some (value, rest) => if (skipSpace rest).isEmpty then some value else none
  | none => none

end Timekeeping.Json
