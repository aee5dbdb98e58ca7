/-!
JSON values as they are written. An object keeps its members in order and may
name one of them twice; a number written with a point or an exponent is not an
integer, whatever its value.
-/
namespace Timekeeping

/-- A JSON value. A string that names half of a surrogate pair has no text. -/
inductive Json
  | null
  | bool (value : Bool)
  | integer (value : Int)
  /-- `mantissa * 10 ^ exponent`. -/
  | decimal (mantissa exponent : Int)
  | string (text : Option String)
  | array (items : List Json)
  | object (members : List (Option String × Json))

namespace Json

instance : Inhabited Json := ⟨null⟩

def text (s : String) : Json := string (some s)

def record (members : List (String × Json)) : Json :=
  object (members.map fun (name, value) => (some name, value))

/-- A value or `null`. -/
def orNull (write : α → Json) : Option α → Json
  | none => null
  | some a => write a

/-- The value of the member called `name`. Fails when two members have that name. -/
def member? (members : List (String × Json)) (name : String) : Option (Option Json) :=
  match members.filter (·.1 = name) with
  | [] => some none
  | [(_, value)] => some (some value)
  | _ => none

/-- The values of the fields called `names`: an object names them and may hold other members,
an array lists them from the first on. -/
def fields? (names : List String) : Json → Option (List (Option Json))
  | array items =>
    if items.length ≤ names.length then
      some (items.map some ++ List.replicate (names.length - items.length) none)
    else none
  | object members => do
    let named ← members.mapM fun (name, value) => name.map (·, value)
    names.mapM (member? named)
  | _ => none

/-- The values of fields that must all be there. -/
def allFields? (names : List String) (j : Json) : Option (List Json) := do
  (← fields? names j).mapM id

def integerIn? (low high : Int) : Json → Option Int
  | integer n => if low ≤ n ∧ n ≤ high then some n else none
  | _ => none

def int64? (j : Json) : Option Int64 :=
  (integerIn? Int64.minValue.toInt Int64.maxValue.toInt j).map Int64.ofInt

def uint64? (j : Json) : Option UInt64 :=
  (integerIn? 0 18446744073709551615 j).map fun n => UInt64.ofNat n.toNat

def uint32? (j : Json) : Option UInt32 :=
  (integerIn? 0 4294967295 j).map fun n => UInt32.ofNat n.toNat

def uint8? (j : Json) : Option UInt8 :=
  (integerIn? 0 255 j).map fun n => UInt8.ofNat n.toNat

def bool? : Json → Option Bool
  | bool b => some b
  | _ => none

end Json
end Timekeeping
