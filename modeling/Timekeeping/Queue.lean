/-!
Queues ordered by key. Items with equal keys stay in the order in which they
came, and an item may be queued more than once.
-/
namespace Timekeeping

/-- The first of `size` places from `low` on at which `stays` fails, or the place after them. The
range is halved until nothing is left of it, which finds the place if `stays` holds at all places
before it and at none of the others. -/
def turningPoint (stays : Nat → Bool) (low size : Nat) : Nat :=
  if size = 0 then low
  else
    let half := size / 2
    if stays (low + half) then turningPoint stays (low + half + 1) (size - half - 1)
    else turningPoint stays low half
termination_by size
decreasing_by all_goals omega

structure Entry (κ ι : Type) where
  key : κ
  item : ι
deriving DecidableEq

structure Queue (κ ι : Type) where
  entries : List (Entry κ ι) := []

namespace Queue

variable {κ ι : Type}

instance : Inhabited (Queue κ ι) := ⟨⟨[]⟩⟩

section Keys

variable [LE κ] [DecidableLE κ]

/-- The place that a new entry takes: that of the first entry with a later key. -/
def position (q : Queue κ ι) (key : κ) : Nat :=
  turningPoint (fun i => q.entries[i]?.any fun e => e.key ≤ key) 0 q.entries.length

/-- The entries that stay before a new entry with the given key. -/
def upTo (q : Queue κ ι) (key : κ) : List (Entry κ ι) := q.entries.take (q.position key)

def after (q : Queue κ ι) (key : κ) : List (Entry κ ι) := q.entries.drop (q.position key)

/-- Puts an entry before the first one with a later key. -/
def insert (q : Queue κ ι) (key : κ) (item : ι) : Queue κ ι :=
  ⟨q.upTo key ++ ⟨key, item⟩ :: q.after key⟩

def isSorted (q : Queue κ ι) : Bool :=
  (q.entries.zip q.entries.tail).all fun (a, b) => decide (a.key ≤ b.key)

end Keys

section Items

variable [DecidableEq ι]

/-- The key under which an item is first queued. -/
def key? (q : Queue κ ι) (item : ι) : Option κ :=
  (q.entries.find? fun e => e.item = item).map Entry.key

/-- Takes an item's first entry out. -/
def remove (q : Queue κ ι) (item : ι) : Queue κ ι :=
  ⟨q.entries.eraseP fun e => e.item = item⟩

def contains (q : Queue κ ι) (item : ι) : Bool := q.entries.any fun e => e.item = item

end Items

def items (q : Queue κ ι) : List ι := q.entries.map Entry.item

def peek? (q : Queue κ ι) : Option (Entry κ ι) := q.entries.head?

def firstKey? (q : Queue κ ι) : Option κ := q.peek?.map Entry.key

def size (q : Queue κ ι) : Nat := q.entries.length

end Queue
end Timekeeping
