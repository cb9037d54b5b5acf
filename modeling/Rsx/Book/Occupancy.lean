import Rsx.Book.Types

/-!
# The occupancy bitmap

`occupancy.rs`: one bit per compression slot, with a tree of summary words above it.  Bit `w` of a
summary level says whether word `w` of the level below is non-zero.
-/

namespace Rsx.Book

abbrev Word := BitVec 64

/-- `levels` starts with the slot bitmap; each later level summarizes the one before. -/
structure Occupancy where
  levels : List (List Word)
  n : Nat

namespace Occupancy

def wordAt (level : List Word) (w : Nat) : Word :=
  level.getD w 0

/-- The levels of an empty bitmap over `count` bits; the loop ends at a level of one word.  Its
length is at most logarithmic in `count`, so `count + 1` is enough fuel. -/
def newLevels : Nat → Nat → List (List Word)
  | 0, _ => []
  | fuel + 1, count =>
    let words := max ((count + 63) / 64) 1
    let level := List.replicate words 0
    if words = 1 then [level] else level :: newLevels fuel words

def new (n : Nat) : Occupancy :=
  { levels := newLevels (n + 1) n, n := n }

def setLevels : List (List Word) → Nat → List (List Word)
  | [], _ => []
  | level :: upper, i =>
    let word := i / 64
    let old := wordAt level word
    let level' := level.set word (old ||| BitVec.twoPow 64 (i % 64))
    if old ≠ 0 then level' :: upper else level' :: setLevels upper word

def set (o : Occupancy) (i : Nat) : Occupancy :=
  { o with levels := setLevels o.levels i }

def clearLevels : List (List Word) → Nat → List (List Word)
  | [], _ => []
  | level :: upper, i =>
    let word := i / 64
    let left := wordAt level word &&& ~~~ BitVec.twoPow 64 (i % 64)
    let level' := level.set word left
    if left ≠ 0 then level' :: upper else level' :: clearLevels upper word

def clear (o : Occupancy) (i : Nat) : Occupancy :=
  { o with levels := clearLevels o.levels i }

/-- The climb of `find_next`, with the descent done on the way back: a bit found in the level above
is the index of the word to descend into. -/
def findNextLevels : List (List Word) → Nat → Option Nat
  | [], _ => none
  | level :: upper, idx =>
    let word := idx / 64
    if level.length ≤ word then none
    else
      let masked := wordAt level word &&& (BitVec.allOnes 64 <<< (idx % 64))
      if masked ≠ 0 then some (word * 64 + masked.ctz.toNat)
      else (findNextLevels upper (word + 1)).map fun w => w * 64 + (wordAt level w).ctz.toNat

def findNext (o : Occupancy) (start : Nat) : Option Nat :=
  if o.n ≤ start then none else findNextLevels o.levels start

/-- Mask of the bits up to and including `off`. -/
def maskUpto (off : Nat) : Word :=
  if off = 63 then BitVec.allOnes 64 else BitVec.twoPow 64 (off + 1) - 1

/-- The climb and descent of `find_prev`. -/
def findPrevLevels : List (List Word) → Nat → Option Nat
  | [], _ => none
  | level :: upper, idx =>
    let word := idx / 64
    let masked := wordAt level word &&& maskUpto (idx % 64)
    if masked ≠ 0 then some (word * 64 + (63 - masked.clz.toNat))
    else if word = 0 then none
    else (findPrevLevels upper (word - 1)).map fun w =>
      w * 64 + (63 - (wordAt level w).clz.toNat)

def findPrev (o : Occupancy) (start : Nat) : Option Nat :=
  if o.n = 0 then none else findPrevLevels o.levels (min start (o.n - 1))

def findFirstIn (o : Occupancy) (lo hi : Nat) : Option Nat :=
  if hi ≤ lo then none else (o.findNext lo).filter fun b => b < hi

def findLastIn (o : Occupancy) (lo hi : Nat) : Option Nat :=
  if hi ≤ lo then none else (o.findPrev (hi - 1)).filter fun b => lo ≤ b

def bit (level : List Word) (i : Nat) : Bool :=
  (wordAt level (i / 64)).getLsbD (i % 64)

def test (o : Occupancy) (i : Nat) : Bool :=
  bit (o.levels.headD []) i

end Occupancy

end Rsx.Book
