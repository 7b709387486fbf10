import Svp.Exec.Digest
import Svp.Lib.Binary64
import Svp.Lib.ByteStrings

/-!
# Readings of one line

Two OCR readings are compared by their keys: the letters and digits of the
normalized text. Before readings are compared across keys, the letters a digit is
misread as are read back as digits inside numbers (`readDigitLookalikes`), and two
keys are near-identical when they have the same digits and one is a clipped piece
of the other or they differ by a few letters.

Texts are bytes, and the character classes those of the C locale. Doubles are
rational numbers, with `round64` behind every operation that may round.
-/

namespace Svp.Vision

open Exec (Bytes)
open scoped Lib.ByteStrings
open Lib (round64)

/-! ## Keys -/

def isTrimmed (c : UInt8) : Bool :=
  c == ' '.toUInt8 || c == '\t'.toUInt8 || c == '\r'.toUInt8 || c == '\n'.toUInt8

def trim (s : Bytes) : Bytes := ((s.dropWhile isTrimmed).reverse.dropWhile isTrimmed).reverse

def toLower (c : UInt8) : UInt8 := if 'A'.toUInt8 ≤ c ∧ c ≤ 'Z'.toUInt8 then c + 32 else c

def lower (s : Bytes) : Bytes := s.map toLower

/-- A run of white space becomes one blank. -/
def collapseSpaces : Bool → Bytes → Bytes
  | _, [] => []
  | prevSpace, c :: rest =>
    if isTrimmed c then
      if prevSpace then collapseSpaces true rest else ' '.toUInt8 :: collapseSpaces true rest
    else c :: collapseSpaces false rest

/-- A mark that takes no blank behind it. -/
def closesGap (c : UInt8) : Bool :=
  c == '.'.toUInt8 || c == ','.toUInt8 || c == ';'.toUInt8 || c == ':'.toUInt8 ||
    c == '$'.toUInt8 || c == '!'.toUInt8

/-- The text without the blanks behind marks; `before` is the byte before it. -/
def dropGaps : Option UInt8 → Bytes → Bytes
  | _, [] => []
  | before, c :: rest =>
    if c = ' '.toUInt8 ∧ before.any closesGap then dropGaps (some c) rest
    else c :: dropGaps (some c) rest

def normalizeText (raw : Bytes) : Bytes := lower (dropGaps none (collapseSpaces false (trim raw)))

def isDigit (c : UInt8) : Bool := decide ('0'.toUInt8 ≤ c) && decide (c ≤ '9'.toUInt8)

def isLetter (c : UInt8) : Bool :=
  (decide ('a'.toUInt8 ≤ c) && decide (c ≤ 'z'.toUInt8)) ||
    (decide ('A'.toUInt8 ≤ c) && decide (c ≤ 'Z'.toUInt8))

def alphanumericKey (text : Bytes) : Bytes :=
  (text.filter fun c => isDigit c || isLetter c).map toLower

/-! ## Digits read as letters -/

def isNumberMark (c : UInt8) : Bool := c == '$'.toUInt8 || c == ','.toUInt8 || c == '.'.toUInt8

def digitsOf (key : Bytes) : Bytes := key.filter isDigit

def digitLookalike (c : UInt8) : Option UInt8 :=
  if c = 'O'.toUInt8 ∨ c = 'o'.toUInt8 then some '0'.toUInt8
  else if c = 'I'.toUInt8 ∨ c = 'l'.toUInt8 then some '1'.toUInt8
  else if c = 'S'.toUInt8 then some '5'.toUInt8
  else if c = 'B'.toUInt8 then some '8'.toUInt8
  else none

/-- A run is a number if it has a digit and no letter but look-alikes. An S that
starts a number stays. -/
def readRun (run : Bytes) : Bytes :=
  let hasDigit := run.any isDigit
  let isWord := run.any fun c => isLetter c && (digitLookalike c).isNone
  if hasDigit && !isWord then
    run.mapIdx fun i c => if i = 0 ∧ c = 'S'.toUInt8 then c else (digitLookalike c).getD c
  else run

/-- Reads the runs of digits, letters and number marks, `run` the one begun. -/
def readRuns (run : Bytes) : Bytes → Bytes
  | [] => readRun run
  | c :: rest =>
    if isDigit c || isLetter c || isNumberMark c then readRuns (run ++ [c]) rest
    else readRun run ++ c :: readRuns [] rest

def readDigitLookalikes (text : Bytes) : Bytes := readRuns [] text

/-! ## Near-identical keys -/

/-- The double nearest to 0.8. -/
def kNearIdenticalSimilarity : ℚ := round64 (8 / 10)

def kClippedEdgeChars : Nat := 2

/-- The rest of a row of the edit distances, with the entries on the diagonal and
to the left. -/
def fillRow (c : UInt8) : Nat → Nat → Bytes → List Nat → List Nat
  | diagonal, left, d :: b, above :: row =>
    let entry := min (min (above + 1) (left + 1)) (diagonal + if c = d then 0 else 1)
    entry :: fillRow c above entry b row
  | _, _, _, _ => []

/-- The row below `row`, the `i`-th. -/
def nextRow (c : UInt8) (i : Nat) (b : Bytes) : List Nat → List Nat
  | [] => []
  | diagonal :: row => i :: fillRow c diagonal i b row

/-- The last row of the edit distances, none as soon as all entries of a row are
above the budget. -/
def editRows (budget : Nat) (b : Bytes) : Nat → Bytes → List Nat → Option (List Nat)
  | _, [], row => some row
  | i, c :: a, row =>
    let row := nextRow c i b row
    if row.all fun entry => decide (budget < entry) then none else editRows budget b (i + 1) a row

def similarity (a b : Bytes) (floor : ℚ) : ℚ :=
  let longer := max a.length b.length
  if longer = 0 then 1
  else
    let budget := ⌊round64 (round64 (1 - floor) * round64 longer)⌋.toNat
    if budget < max a.length b.length - min a.length b.length then 0
    else
      match editRows budget b 1 a (List.range (b.length + 1)) with
      | none => 0
      | some row => round64 (1 - round64 (round64 (row.getD b.length 0) / round64 longer))

/-- The shorter key without so much of its edges is a piece of the longer one. -/
def clipped (shorter longer : Bytes) (front back : Nat) : Bool :=
  if shorter.length ≤ front + back then false
  else
    let piece := (shorter.drop front).take (shorter.length - front - back)
    decide (longer.length ≤ piece.length * 2) && decide (piece <:+: longer)

def nearIdentical (a b : Bytes) : Bool :=
  if a = b then true
  else if digitsOf a ≠ digitsOf b then false
  else
    let shorter := if a.length ≤ b.length then a else b
    let longer := if a.length ≤ b.length then b else a
    if (List.range (kClippedEdgeChars + 1)).any fun front =>
        (List.range (kClippedEdgeChars + 1)).any fun back => clipped shorter longer front back then
      true
    else decide (kNearIdenticalSimilarity ≤ similarity shorter longer kNearIdenticalSimilarity)

/-- Different digits are never near-identical. -/
theorem digitsOf_nearIdentical {a b : Bytes} (near : nearIdentical a b = true) :
    digitsOf a = digitsOf b := by
  unfold nearIdentical at near
  split at near
  · next same => rw [same]
  · split at near
    · cases near
    · next same => exact not_not.mp same

end Svp.Vision
