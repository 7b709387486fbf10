import Svp.Exec.Digest
import Svp.Lib.Binary64

/-!
# Per-box recognition reuse

A box detected on an OCR sample may take the reading its match on the sample before
was recognized with. Samples form groups of `kOcrReuseGroupSamples` ordinals, and
`OcrRecognitionReuse.read` reuses within a group only.

Scores are of any type: they are copied, never computed with. Doubles are rational
numbers, with `round64` behind every operation that may round.
-/

namespace Svp.Vision

open Exec (Bytes utf8)
open Lib (round64)

/-! ## Frames and boxes -/

structure Srgb8Pixel where
  r : UInt8
  g : UInt8
  b : UInt8
deriving DecidableEq, Inhabited

structure ColorRasterFrame where
  frameId : String
  timestampUs : Int
  width : Int
  height : Int
  pixels : List Srgb8Pixel
deriving DecidableEq

structure PpOcrTextBox where
  left : Int := 0
  top : Int := 0
  right : Int := 0
  bottom : Int := 0
deriving DecidableEq

structure PpOcrDetection (Score : Type) where
  text : Bytes
  score : Score
  bboxLeft : Int := 0
  bboxTop : Int := 0
  bboxRight : Int := 0
  bboxBottom : Int := 0
  reused : Bool := false
deriving DecidableEq

/-- A box is matched above this overlap. -/
def kOcrReuseMinBoxIou : ℚ := 1 / 2

def kOcrReusePixelDelta : Nat := 20

/-- The double nearest to 0.005. -/
def kOcrReuseMaxChangedPixelFraction : ℚ := round64 (5 / 1000)

def kOcrReuseAnalysisMaxDimension : Nat := 640

def kOcrReuseMaxConsecutive : Nat := 2

def kOcrReuseGroupSamples : Nat := kOcrReuseMaxConsecutive + 1

def ocrReuseGroupStartsAt (ordinal : Nat) : Bool := ordinal % kOcrReuseGroupSamples == 0

def boxArea (box : PpOcrTextBox) : ℚ :=
  round64 ((max 0 (box.right - box.left) : Int) * (max 0 (box.bottom - box.top) : Int))

def boxIou (a b : PpOcrTextBox) : ℚ :=
  let interLeft := max a.left b.left
  let interTop := max a.top b.top
  let interRight := min a.right b.right
  let interBottom := min a.bottom b.bottom
  if interRight ≤ interLeft ∨ interBottom ≤ interTop then 0
  else
    let inter := round64 ((interRight - interLeft : Int) * (interBottom - interTop : Int))
    let unionArea := round64 (round64 (boxArea a + boxArea b) - inter)
    if 0 < unionArea then round64 (inter / unionArea) else 0

/-! ## The change test -/

/-- Rec. 601 luma weights in 1/256 units. -/
def luma (pixel : Srgb8Pixel) : Nat :=
  (77 * pixel.r.toNat + 150 * pixel.g.toNat + 29 * pixel.b.toNat + 128) / 256

structure OcrReuseAnalysisFrame where
  factor : Nat := 1
  width : Nat := 0
  height : Nat := 0
  luma : List UInt8 := []
deriving DecidableEq

/-- The mean luma of the block of `factor` by `factor` pixels at `(x, y)`. -/
def blockLuma (pixels : List Srgb8Pixel) (width factor x y : Nat) : UInt8 :=
  let sum := ((List.range factor).map fun dy => ((List.range factor).map fun dx =>
    luma (pixels.getD ((y * factor + dy) * width + (x * factor + dx)) default)).sum).sum
  UInt8.ofNat ((sum + factor * factor / 2) / (factor * factor))

def makeOcrReuseAnalysisFrame (frame : ColorRasterFrame) : OcrReuseAnalysisFrame :=
  let frameWidth := frame.width.toNat
  let frameHeight := frame.height.toNat
  if frame.width ≤ 0 ∨ frame.height ≤ 0 ∨ frame.pixels.length ≠ frameWidth * frameHeight then {}
  else
    let longer := max frameWidth frameHeight
    let factor :=
      max 1 ((longer + kOcrReuseAnalysisMaxDimension - 1) / kOcrReuseAnalysisMaxDimension)
    let width := frameWidth / factor
    let height := frameHeight / factor
    { factor, width, height
      luma := (List.range height).flatMap fun y =>
        (List.range width).map fun x => blockLuma frame.pixels frameWidth factor x y }

structure AnalysisRect where
  left : Int
  top : Int
  right : Int
  bottom : Int

def floorDiv (factor value : Int) : Int :=
  if 0 ≤ value then value / factor else -((-value + factor - 1) / factor)

def ceilDiv (factor value : Int) : Int :=
  if 0 ≤ value then (value + factor - 1) / factor else -(-value / factor)

def clamp (value low high : Int) : Int :=
  if value < low then low else if high < value then high else value

/-- The analysis pixels a box covers: every block it touches. -/
def analysisRect (frame : OcrReuseAnalysisFrame) (box : PpOcrTextBox) : AnalysisRect where
  left := clamp (floorDiv frame.factor box.left) 0 frame.width
  top := clamp (floorDiv frame.factor box.top) 0 frame.height
  right := clamp (ceilDiv frame.factor box.right) 0 frame.width
  bottom := clamp (ceilDiv frame.factor box.bottom) 0 frame.height

/-- The pixel at `index` moved by more than `kOcrReusePixelDelta`. -/
def pixelChanged (reference current : OcrReuseAnalysisFrame) (index : Nat) : Bool :=
  let now : Int := (current.luma.getD index 0).toNat
  let before : Int := (reference.luma.getD index 0).toNat
  kOcrReusePixelDelta < (now - before).natAbs

def ocrReuseBoxUnchanged (reference current : OcrReuseAnalysisFrame) (box : PpOcrTextBox) : Bool :=
  if reference.factor ≠ current.factor ∨ reference.width ≠ current.width ∨
      reference.height ≠ current.height then false
  else
    let rect := analysisRect current box
    if rect.right ≤ rect.left ∨ rect.bottom ≤ rect.top then false
    else
      let width := (rect.right - rect.left).toNat
      let height := (rect.bottom - rect.top).toNat
      let changed := ((List.range height).map fun dy =>
        ((List.range width).countP fun dx => pixelChanged reference current
          ((rect.top.toNat + dy) * current.width + (rect.left.toNat + dx)))).sum
      (changed : ℚ) ≤ round64 (kOcrReuseMaxChangedPixelFraction * round64 (width * height))

/-! ## Reuse state -/

structure BoxReading (Score : Type) where
  box : PpOcrTextBox
  reading : PpOcrDetection Score
  /-- Position in the group of the sample whose recognition `reading` holds. -/
  recognizedAt : Nat
  consecutiveReuses : Nat
deriving DecidableEq

structure OcrRecognitionReuse (Score : Type) where
  lastOrdinal : Option Nat := none
  /-- The current group's analysis frames, by position in the group. -/
  groupFrames : List (Option OcrReuseAnalysisFrame) := []
  /-- The previous sample's boxes, when it is the sample right before this one. -/
  previous : List (BoxReading Score) := []
  recognized : Nat := 0
  reused : Nat := 0

variable {Score : Type}

/-- A reading of `box` that copies the text and score of `source`, clipped to the
frame as the recognizer clips it. -/
def reusedReading (source : PpOcrDetection Score) (box : PpOcrTextBox) (frame : ColorRasterFrame) :
    PpOcrDetection Score :=
  if source.text.isEmpty then { text := source.text, score := source.score, reused := true }
  else
    { text := source.text
      score := source.score
      bboxLeft := max 0 box.left
      bboxTop := max 0 box.top
      bboxRight := min frame.width box.right
      bboxBottom := min frame.height box.bottom
      reused := true }

structure Candidate where
  iou : ℚ
  box : Nat
  earlier : Nat

/-- The pairs of a current and an earlier box that overlap enough. -/
def reuseCandidates (previous : List (BoxReading Score)) (boxes : List PpOcrTextBox) :
    List Candidate :=
  boxes.zipIdx.flatMap fun (box, index) => previous.zipIdx.filterMap fun (reading, earlier) =>
    if kOcrReuseMinBoxIou < boxIou reading.box box then
      some { iou := boxIou reading.box box, box := index, earlier }
    else none

/-- Highest overlap first, ties by box order. -/
def candidateOrder (a b : Candidate) : Bool :=
  if a.iou ≠ b.iou then b.iou < a.iou
  else a.box < b.box ∨ a.box = b.box ∧ a.earlier ≤ b.earlier

/-- Gives an earlier reading to a box, unless either has its match. -/
def takeCandidate (previous : List (BoxReading Score))
    (found : List (Option (BoxReading Score)) × List Bool) (candidate : Candidate) :
    List (Option (BoxReading Score)) × List Bool :=
  if (found.1[candidate.box]?.join).isSome || found.2.getD candidate.earlier false then found
  else (found.1.set candidate.box previous[candidate.earlier]?, found.2.set candidate.earlier true)

/-- The earlier reading each box is matched with. -/
def matchBoxes (previous : List (BoxReading Score)) (boxes : List PpOcrTextBox) :
    List (Option (BoxReading Score)) :=
  (((reuseCandidates previous boxes).mergeSort candidateOrder).foldl (takeCandidate previous)
    (List.replicate boxes.length none, List.replicate previous.length false)).1

namespace OcrRecognitionReuse

/-- What is forgotten where sample `ordinal` opens a group or does not follow the last
sample that was read. -/
def enter (st : OcrRecognitionReuse Score) (ordinal : Nat) : OcrRecognitionReuse Score :=
  let sameGroup := st.lastOrdinal.map (· / kOcrReuseGroupSamples) =
    some (ordinal / kOcrReuseGroupSamples)
  { st with
    groupFrames := if sameGroup then st.groupFrames else List.replicate kOcrReuseGroupSamples none
    previous :=
      if sameGroup ∧ st.lastOrdinal.map (· + 1) = some ordinal then st.previous else [] }

/-- The reading a box takes from its match, where the rule allows it. -/
def reuse (st : OcrRecognitionReuse Score) (analysis : OcrReuseAnalysisFrame)
    (frame : ColorRasterFrame) (box : PpOcrTextBox) (found : Option (BoxReading Score)) :
    Option (BoxReading Score) := do
  let earlier ← found
  let reference ← st.groupFrames[earlier.recognizedAt]?.join
  if earlier.consecutiveReuses < kOcrReuseMaxConsecutive ∧
      ocrReuseBoxUnchanged reference analysis box then
    some
      { box
        reading := reusedReading earlier.reading box frame
        recognizedAt := earlier.recognizedAt
        consecutiveReuses := earlier.consecutiveReuses + 1 }
  else none

/-- Every box of a sample, with the reading it reuses. -/
def decide (st : OcrRecognitionReuse Score) (frame : ColorRasterFrame) (boxes : List PpOcrTextBox) :
    List (PpOcrTextBox × Option (BoxReading Score)) :=
  (boxes.zip (matchBoxes st.previous boxes)).map fun (box, found) =>
    (box, st.reuse (makeOcrReuseAnalysisFrame frame) frame box found)

end OcrRecognitionReuse

/-- The boxes that are left to the recognizer. -/
def pendingBoxes (decided : List (PpOcrTextBox × Option (BoxReading Score))) : List PpOcrTextBox :=
  decided.filterMap fun (box, reused) => if reused.isNone then some box else none

/-- The readings of a sample: reused ones, and the recognizer's for the rest in order. -/
def fillPending (position : Nat) :
    List (PpOcrTextBox × Option (BoxReading Score)) → List (PpOcrDetection Score) →
      List (BoxReading Score)
  | (_, some reading) :: decided, recognized => reading :: fillPending position decided recognized
  | (box, none) :: decided, reading :: recognized =>
    { box
      reading := { reading with reused := false }
      recognizedAt := position
      consecutiveReuses := 0 } :: fillPending position decided recognized
  | (_, none) :: _, [] => []
  | [], _ => []

abbrev PpOcrRecognizer (Score : Type) : Type :=
  List PpOcrTextBox → Except Bytes (List (PpOcrDetection Score))

/-- The readings for the boxes detected on sample `ordinal`, or what the recognizer
threw, and the state behind it. -/
def OcrRecognitionReuse.read (st : OcrRecognitionReuse Score) (ordinal : Nat)
    (frame : ColorRasterFrame) (boxes : List PpOcrTextBox) (recognize : PpOcrRecognizer Score) :
    Except Bytes (List (PpOcrDetection Score)) × OcrRecognitionReuse Score :=
  let position := ordinal % kOcrReuseGroupSamples
  let entered := st.enter ordinal
  let decided := entered.decide frame boxes
  let pending := pendingBoxes decided
  match if pending.isEmpty then .ok [] else recognize pending with
  | .error error => (.error error, entered)
  | .ok recognized =>
    if recognized.length ≠ pending.length then
      (.error (utf8 s!"PP-OCR recognizer returned {recognized.length} readings for {pending.length} boxes"),
        entered)
    else
      let current := fillPending position decided recognized
      (.ok (current.map BoxReading.reading),
        { lastOrdinal := some ordinal
          groupFrames := entered.groupFrames.set position (some (makeOcrReuseAnalysisFrame frame))
          previous := current
          recognized := entered.recognized + pending.length
          reused := entered.reused + (boxes.length - pending.length) })

end Svp.Vision
