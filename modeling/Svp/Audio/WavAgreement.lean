import Svp.Audio.WavReaders
import Svp.Lib.Tiling

/-!
# Agreement of the WAV readers

The data chunks a walk meets are a trace of it, out of which the results of both readers
are read: the info is its last chunk (`readInfo_eq`), and where the walks stay together
the samples are those of its chunks (`readSamples_eq`). Ranges of a chunk join to the
samples that are there (`flatMap_readRange`).
-/

namespace Svp.Audio

open Lib (InputStream spans slice)

/-! ## The trace of a walk -/

structure DataChunk where
  offset : Nat
  size : Nat
  afterFmt : Bool
deriving DecidableEq

def traceData (chunkSize : Nat) (walk : ChunkWalk (List DataChunk)) : ChunkWalk (List DataChunk) :=
  { walk with
    found := walk.found ++ [⟨walk.input.position, chunkSize, walk.fmtSeen⟩]
    input := walk.input.skip (paddedSize chunkSize) }

/-- The data chunks up to the first after `fmt `. -/
def dataChunks (file : WavBytes) : List DataChunk :=
  match openRiff file with
  | .error _ => []
  | .ok input => (chunkLoop file traceData { input := input, found := [] }).found

def acceptedChunks (file : WavBytes) : Except String (List DataChunk) := readChunks file traceData []

def ChunkWalk.map {σ τ : Type} (f : σ → τ) (walk : ChunkWalk σ) : ChunkWalk τ :=
  ⟨walk.input, walk.fmtSeen, walk.dataSeen, walk.format, f walk.found⟩

section
variable {σ τ : Type} {file : WavBytes} {f : σ → τ} {onData : Nat → ChunkWalk σ → ChunkWalk σ}
  {onData' : Nat → ChunkWalk τ → ChunkWalk τ}
  (commutes : ∀ chunkSize walk, (onData chunkSize walk).map f = onData' chunkSize (walk.map f))
include commutes

theorem readChunk_map (chunkId : WavBytes) (chunkSize : Nat) (walk : ChunkWalk σ) :
    (readChunk file onData chunkId chunkSize walk).map f =
      readChunk file onData' chunkId chunkSize (walk.map f) := by
  unfold readChunk
  split
  · rfl
  · split
    · exact congrArg (fun walk : ChunkWalk τ => { walk with dataSeen := true })
        (commutes chunkSize walk)
    · rfl

theorem chunkStep_map (walk : ChunkWalk σ) :
    (chunkStep file onData walk).map f = chunkStep file onData' (walk.map f) := by
  have stopped : (walk.map f).stopped = walk.stopped := rfl
  have input : (walk.map f).input = walk.input := rfl
  unfold chunkStep
  rw [stopped]
  split
  · rfl
  · dsimp only
    rw [input]
    split
    · rfl
    · split
      · rfl
      · exact readChunk_map commutes _ _ _

theorem chunkLoop_map (walk : ChunkWalk σ) :
    (chunkLoop file onData walk).map f = chunkLoop file onData' (walk.map f) := by
  have rounds : ∀ n : Nat, ((chunkStep file onData)^[n] walk).map f =
      (chunkStep file onData')^[n] (walk.map f) := by
    intro n
    induction n with
    | zero => rfl
    | succ n ih => rw [Function.iterate_succ_apply', Function.iterate_succ_apply', chunkStep_map commutes, ih]
  exact rounds _

end

theorem checkFormat_map {σ τ : Type} (f : σ → τ) (walk : ChunkWalk σ) :
    checkFormat (walk.map f) = (checkFormat walk).map f := by
  unfold checkFormat ChunkWalk.map
  dsimp only
  split
  · rfl
  · split_ifs <;> rfl

def chunkInfo (chunk : DataChunk) : PcmS16MonoWavInfo := ⟨chunk.offset, chunk.size / 2⟩

/-- The info of the last chunk. -/
def lastInfo (chunks : List DataChunk) : PcmS16MonoWavInfo := (chunks.getLast?.map chunkInfo).getD {}

theorem readInfo_eq (file : WavBytes) :
    readPcmS16leMonoWavInfo file = (acceptedChunks file).map lastInfo := by
  have commutes : ∀ chunkSize walk,
      (traceData chunkSize walk).map lastInfo = noteData chunkSize (walk.map lastInfo) := by
    intro chunkSize walk
    simp [traceData, noteData, ChunkWalk.map, lastInfo, chunkInfo]
  unfold readPcmS16leMonoWavInfo acceptedChunks readChunks
  cases openRiff file with
  | error message => rfl
  | ok input =>
    show checkFormat (chunkLoop file noteData _) = (checkFormat (chunkLoop file traceData _)).map lastInfo
    rw [← checkFormat_map, chunkLoop_map commutes]
    rfl

/-! ## Samples -/

/-- The whole samples in a string of bytes. -/
def samplesIn : WavBytes → List ℚ
  | a :: b :: rest => sampleOf (Lib.ofLittleEndian [a, b]) :: samplesIn rest
  | _ => []

theorem length_samplesIn (bytes : WavBytes) : (samplesIn bytes).length = bytes.length / 2 := by
  induction bytes using samplesIn.induct with
  | case1 a b rest ih =>
    rw [samplesIn, List.length_cons, ih, List.length_cons, List.length_cons]
    omega
  | case2 bytes short =>
    match bytes, short with
    | [], _ => rfl
    | [a], _ =>
      rw [samplesIn, List.length_singleton]
      · rfl
      · nofun
    | a :: b :: rest, short => exact absurd rfl (short a b rest)

theorem samplesIn_drop (bytes : WavBytes) (count : Nat) :
    samplesIn (bytes.drop (count * 2)) = (samplesIn bytes).drop count := by
  induction count generalizing bytes with
  | zero => rw [Nat.zero_mul, List.drop_zero, List.drop_zero]
  | succ count ih =>
    rw [Nat.succ_mul, Nat.add_comm, ← List.drop_drop, ih, Nat.add_comm count 1, ← List.drop_drop]
    congr 1
    match bytes with
    | [] => rfl
    | [a] => rfl
    | a :: b :: rest => rfl

section
variable {file : WavBytes}

theorem readWhole_eq (count position : Nat) :
    readWhole file count ⟨position, false⟩ = (samplesIn (file.drop position)).take count := by
  induction count generalizing position with
  | zero => rfl
  | succ count ih =>
    have next : ((InputStream.mk position false).read file 2) =
        ((file.drop position).take 2, ⟨position + ((file.drop position).take 2).length,
          decide (((file.drop position).take 2).length < 2)⟩) := rfl
    have later := ih (position + 2)
    rw [← List.drop_drop] at later
    unfold readWhole
    dsimp only [InputStream.readUnsigned]
    rw [next]
    match file.drop position, later with
    | [], _ => rfl
    | [a], _ => rfl
    | a :: b :: rest, later =>
      show sampleOf (Lib.ofLittleEndian ([a, b] ++ [])) :: readWhole file count ⟨position + 2, false⟩ = _
      rw [later]
      rfl

/-- A range is the part of the samples that are there. -/
theorem readRange_eq (info : PcmS16MonoWavInfo) {first last : Nat} (inside : last ≤ info.sampleCount) :
    readPcmS16leMonoWavRange file info first last =
      slice (samplesIn (file.drop info.dataOffset)) first (last - first) := by
  unfold readPcmS16leMonoWavRange
  split
  · next empty =>
    have behind : last ≤ first := by omega
    rw [slice, Nat.sub_eq_zero_of_le behind, List.take_zero]
  · rw [readWhole_eq, ← List.drop_drop, samplesIn_drop, Nat.min_eq_left inside, slice]

/-- Ranges that follow each other join. -/
theorem flatMap_readRange (info : PcmS16MonoWavInfo) {points : List Nat} {first : Nat}
    (sorted : points.IsChain (· ≤ ·)) (starts : points.head? = some first)
    (ends : points.getLast? = some info.sampleCount) :
    (spans points).flatMap (fun span => readPcmS16leMonoWavRange file info span.1 span.2) =
      slice (samplesIn (file.drop info.dataOffset)) first (info.sampleCount - first) := by
  induction points generalizing first with
  | nil => cases starts
  | cons point rest ih =>
    cases starts
    cases rest with
    | nil =>
      obtain rfl : point = info.sampleCount := Option.some.inj ends
      rw [Nat.sub_self, slice, List.take_zero]
      rfl
    | cons next rest =>
      obtain ⟨ordered, sorted⟩ := List.isChain_cons_cons.mp sorted
      rw [List.getLast?_cons_cons] at ends
      have inside : next ≤ info.sampleCount := (Lib.tiles_spans sorted rfl ends).le
      have later := ih sorted rfl ends
      show readPcmS16leMonoWavRange file info point next ++ (spans (next :: rest)).flatMap _ = _
      rw [later, readRange_eq info inside]
      exact Lib.slice_append _ ordered inside

/-- The samples a data chunk is read as, with zeros for those that are not there. -/
def chunkSamples (file : WavBytes) (chunk : DataChunk) : List ℚ :=
  (readSamples file (chunk.size / 2) ⟨chunk.offset, false⟩).1

theorem length_readSamples (count : Nat) (input : InputStream) :
    (readSamples file count input).1.length = count := by
  induction count generalizing input with
  | zero => rfl
  | succ count ih =>
    show (readSamples file count _).1.length + 1 = count + 1
    rw [ih]

theorem readSamples_eq_of_room {count position : Nat} (room : position + count * 2 ≤ file.length) :
    readSamples file count ⟨position, false⟩ =
      ((samplesIn (file.drop position)).take count, ⟨position + count * 2, false⟩) := by
  induction count generalizing position with
  | zero => rfl
  | succ count ih =>
    have here : (⟨position, false⟩ : InputStream).read file 2 =
        ((file.drop position).take 2, ⟨position + 2, false⟩) :=
      InputStream.read_of_room rfl (by show position + 2 ≤ _; omega)
    have later := @ih (position + 2) (by omega)
    rw [← List.drop_drop] at later
    have long : 2 ≤ (file.drop position).length := by
      rw [List.length_drop]
      omega
    unfold readSamples
    dsimp only [InputStream.readUnsigned]
    rw [here]
    match file.drop position, later, long with
    | a :: b :: rest, later, _ =>
      show (sampleOf (Lib.ofLittleEndian ([a, b] ++ [])) ::
        (readSamples file count ⟨position + 2, false⟩).1,
        (readSamples file count ⟨position + 2, false⟩).2) = _
      rw [later, Nat.succ_mul, Nat.add_comm (count * 2), ← Nat.add_assoc]
      rfl

/-- A chunk is read as what is there exactly when all of it is there. -/
theorem chunkSamples_eq_iff (chunk : DataChunk) :
    slice (samplesIn (file.drop chunk.offset)) 0 (chunk.size / 2) = chunkSamples file chunk ↔
      chunk.size / 2 = 0 ∨ chunk.offset + chunk.size / 2 * 2 ≤ file.length := by
  have start : slice (samplesIn (file.drop chunk.offset)) 0 (chunk.size / 2) =
      (samplesIn (file.drop chunk.offset)).take (chunk.size / 2) := rfl
  rw [start]
  constructor
  · intro same
    have lengths := congrArg List.length same
    rw [chunkSamples, length_readSamples, List.length_take, length_samplesIn, List.length_drop] at lengths
    omega
  · rintro (none | room)
    · unfold chunkSamples
      rw [none, List.take_zero]
      rfl
    · rw [chunkSamples, readSamples_eq_of_room room]

/-! ## Two walks together -/

/-- A data chunk before `fmt ` is whole and of even size. -/
def DataChunk.Aligned (file : WavBytes) (chunk : DataChunk) : Prop :=
  chunk.afterFmt = true ∨ chunk.size % 2 = 0 ∧ chunk.offset + chunk.size ≤ file.length

/-- The walk that reads samples is where the trace is, or both are over. -/
structure Together (file : WavBytes) (whole : ChunkWalk (List ℚ))
    (trace : ChunkWalk (List DataChunk)) : Prop where
  fmtSeen : whole.fmtSeen = trace.fmtSeen
  dataSeen : whole.dataSeen = trace.dataSeen
  format : whole.format = trace.format
  found : whole.found = trace.found.flatMap (chunkSamples file)
  input : whole.input = trace.input ∨ (trace.fmtSeen = true ∧ trace.dataSeen = true)

theorem Together.stopped {whole : ChunkWalk (List ℚ)} {trace : ChunkWalk (List DataChunk)}
    (together : Together file whole trace) (stopped : trace.stopped = true) : whole.stopped = true := by
  unfold ChunkWalk.stopped at stopped ⊢
  rw [together.fmtSeen, together.dataSeen]
  rcases together.input with same | ⟨fmtSeen, dataSeen⟩
  · rwa [same]
  · rw [fmtSeen, dataSeen, Bool.and_self, Bool.or_true]

theorem Together.eq_map {whole : ChunkWalk (List ℚ)} {trace : ChunkWalk (List DataChunk)}
    (together : Together file whole trace) (going : trace.stopped = false) :
    whole = trace.map (List.flatMap (chunkSamples file)) := by
  obtain ⟨fmtSeen, dataSeen, format, found, input⟩ := together
  have same : whole.input = trace.input := by
    rcases input with same | ⟨fmtSeen, dataSeen⟩
    · exact same
    · rw [ChunkWalk.stopped, fmtSeen, dataSeen, Bool.and_self, Bool.or_true] at going
      cases going
  cases whole
  unfold ChunkWalk.map
  simp_all only

theorem together_map (trace : ChunkWalk (List DataChunk)) :
    Together file (trace.map (List.flatMap (chunkSamples file))) trace :=
  ⟨rfl, rfl, rfl, rfl, .inl rfl⟩

/-- At a data chunk both walks keep its samples, and stay together if it is aligned. -/
theorem together_readChunk {trace : ChunkWalk (List DataChunk)} {chunkId : WavBytes} {chunkSize : Nat}
    (going : trace.input.failed = false) (fits : chunkSize < 2 ^ 32)
    (aligned : ∀ chunk ∈ (readChunk file traceData chunkId chunkSize trace).found, chunk.Aligned file) :
    Together file
      (readChunk file (takeSamples file) chunkId chunkSize
        (trace.map (List.flatMap (chunkSamples file))))
      (readChunk file traceData chunkId chunkSize trace) := by
  unfold readChunk at aligned ⊢
  split
  · exact together_map (readFormat file chunkSize trace)
  · next noFmt =>
    rw [if_neg noFmt] at aligned
    split
    · next isData =>
      rw [if_pos isData] at aligned
      obtain ⟨⟨position, failed⟩, fmtSeen, dataSeen, format, found⟩ := trace
      obtain rfl : failed = false := going
      refine ⟨rfl, rfl, rfl, ?_, ?_⟩
      · show found.flatMap (chunkSamples file) ++ (readSamples file (chunkSize / 2) ⟨position, false⟩).1 =
          (found ++ [(⟨position, chunkSize, fmtSeen⟩ : DataChunk)]).flatMap (chunkSamples file)
        rw [List.flatMap_append, List.flatMap_singleton]
        rfl
      · have here : (⟨position, chunkSize, fmtSeen⟩ : DataChunk).Aligned file :=
          aligned _ (List.mem_append_right found (List.mem_singleton_self _))
        rcases here with afterFmt | ⟨even, room⟩
        · exact .inr ⟨afterFmt, rfl⟩
        · have room : position + chunkSize / 2 * 2 ≤ file.length := by
            have : chunkSize / 2 * 2 ≤ chunkSize := Nat.div_mul_le_self _ _
            dsimp only at room
            omega
          have size : chunkSize / 2 * 2 = paddedSize chunkSize := by
            unfold paddedSize
            dsimp only at even
            omega
          refine .inl ?_
          show (readSamples file (chunkSize / 2) ⟨position, false⟩).2 =
            InputStream.skip (paddedSize chunkSize) ⟨position, false⟩
          rw [readSamples_eq_of_room room, ← size]
          rfl
    · exact together_map { trace with input := trace.input.skip (paddedSize chunkSize) }

theorem mem_chunkStep {trace : ChunkWalk (List DataChunk)} {chunk : DataChunk}
    (mem : chunk ∈ trace.found) : chunk ∈ (chunkStep file traceData trace).found := by
  unfold chunkStep
  split
  · exact mem
  · dsimp only
    split
    · exact mem
    · split
      · exact mem
      · unfold readChunk
        split
        · exact mem
        · split
          · exact List.mem_append_left _ mem
          · exact mem

theorem Together.step {whole : ChunkWalk (List ℚ)} {trace : ChunkWalk (List DataChunk)}
    (together : Together file whole trace)
    (aligned : ∀ chunk ∈ (chunkStep file traceData trace).found, chunk.Aligned file) :
    Together file (chunkStep file (takeSamples file) whole) (chunkStep file traceData trace) := by
  cases stopped : trace.stopped with
  | true => rwa [chunkStep_stopped stopped, chunkStep_stopped (together.stopped stopped)]
  | false =>
    obtain rfl := together.eq_map stopped
    have stopped' : (trace.map (List.flatMap (chunkSamples file))).stopped = false := stopped
    have input : (trace.map (List.flatMap (chunkSamples file))).input = trace.input := rfl
    unfold chunkStep at aligned ⊢
    rw [stopped] at aligned ⊢
    rw [stopped', if_neg Bool.false_ne_true, if_neg Bool.false_ne_true]
    rw [if_neg Bool.false_ne_true] at aligned
    dsimp only at aligned ⊢
    rw [input]
    split
    · exact together_map { trace with input := (trace.input.read file 4).2 }
    · next ok =>
      rw [if_neg ok] at aligned
      split
      · exact together_map
          { trace with input := ((trace.input.read file 4).2.readUnsigned file 4 0).2 }
      · next ok' =>
        rw [if_neg ok'] at aligned
        have fits := @InputStream.readUnsigned_lt file (trace.input.read file 4).2 4 0
        exact @together_readChunk file
          { trace with input := ((trace.input.read file 4).2.readUnsigned file 4 0).2 } _ _
          (Bool.eq_false_iff.mpr ok') fits aligned

/-- Where its chunks are aligned the walk that reads samples stays with the trace. -/
theorem together_loop {input : InputStream}
    (aligned : ∀ chunk ∈ (chunkLoop file traceData { input := input, found := [] }).found,
      chunk.Aligned file) :
    Together file (chunkLoop file (takeSamples file) { input := input, found := [] })
      (chunkLoop file traceData { input := input, found := [] }) := by
  have rounds : ∀ n : Nat, (∀ chunk ∈
      ((chunkStep file traceData)^[n] { input := input, found := [] }).found, chunk.Aligned file) →
      Together file ((chunkStep file (takeSamples file))^[n] { input := input, found := [] })
        ((chunkStep file traceData)^[n] { input := input, found := [] }) := by
    intro n
    induction n with
    | zero => exact fun _ => together_map { input := input, found := [] }
    | succ n ih =>
      intro aligned
      rw [Function.iterate_succ_apply'] at aligned ⊢
      rw [Function.iterate_succ_apply']
      exact (ih fun chunk mem => aligned chunk (mem_chunkStep mem)).step aligned
  exact rounds _ aligned

end

/-! ## The readers -/

/-- Before `fmt ` the data chunks are whole and of even size, and but for the last data
chunk they are empty. -/
structure Aligned (file : WavBytes) : Prop where
  chunks : ∀ chunk ∈ dataChunks file, chunk.Aligned file
  single : ∀ chunk ∈ (dataChunks file).dropLast, chunk.size = 0

theorem readSamples_eq {file : WavBytes} (aligned : Aligned file) :
    readPcmS16leMonoWavSamples file =
      (acceptedChunks file).map (List.flatMap (chunkSamples file)) := by
  have chunks := aligned.chunks
  unfold dataChunks at chunks
  unfold readPcmS16leMonoWavSamples acceptedChunks readChunks
  cases opened : openRiff file with
  | error message => rfl
  | ok input =>
    rw [opened] at chunks
    have together := together_loop chunks
    show checkFormat (chunkLoop file (takeSamples file) _) =
      (checkFormat (chunkLoop file traceData _)).map _
    rw [← checkFormat_map]
    unfold checkFormat ChunkWalk.map
    rw [together.fmtSeen, together.dataSeen, together.format, together.found]

/-- The walk of a reader ends, and no round goes back. -/
def Walks {σ : Type} (file : WavBytes) (onData : Nat → ChunkWalk σ → ChunkWalk σ) : Prop :=
  ∀ walk, (chunkLoop file onData walk).stopped = true ∧
    walk.input.position ≤ (chunkStep file onData walk).input.position

/-- Both readers accept a file or neither, the ranges of any cut join to the samples, and
the walks end without going back. -/
structure ReadersAgree (file : WavBytes) : Prop where
  accept : (∃ samples, readPcmS16leMonoWavSamples file = .ok samples) ↔
    ∃ info, readPcmS16leMonoWavInfo file = .ok info
  ranges : ∀ samples info, readPcmS16leMonoWavSamples file = .ok samples →
    readPcmS16leMonoWavInfo file = .ok info → ∀ points : List Nat, points.IsChain (· ≤ ·) →
      points.head? = some 0 → points.getLast? = some info.sampleCount →
        (spans points).flatMap (fun span => readPcmS16leMonoWavRange file info span.1 span.2) = samples
  walks : Walks file (takeSamples file) ∧ Walks file noteData

/-- The samples of an accepted file are all there. -/
def Complete (file : WavBytes) : Prop :=
  ∀ chunks, acceptedChunks file = .ok chunks → ∀ chunk ∈ chunks.getLast?,
    chunk.size / 2 = 0 ∨ chunk.offset + chunk.size / 2 * 2 ≤ file.length

theorem acceptedChunks_ok {file : WavBytes} {chunks : List DataChunk}
    (accepted : acceptedChunks file = .ok chunks) : chunks = dataChunks file := by
  unfold acceptedChunks readChunks at accepted
  unfold dataChunks
  cases opened : openRiff file with
  | error message =>
    rw [opened] at accepted
    cases accepted
  | ok input =>
    rw [opened] at accepted
    have checked : checkFormat (chunkLoop file traceData { input := input, found := [] }) = .ok chunks :=
      accepted
    unfold checkFormat at checked
    split_ifs at checked
    exact (Except.ok.inj checked).symm

theorem flatMap_eq_getLast {α β : Type} {items : List α} {last : α} {f : α → List β}
    (ends : items.getLast? = some last) (none : ∀ item ∈ items.dropLast, f item = []) :
    items.flatMap f = f last := by
  have parts := List.dropLast_append_getLast? last ends
  rw [← parts, List.flatMap_append, List.flatMap_singleton, List.flatMap_eq_nil_iff.mpr none,
    List.nil_append]

/-- On an aligned file the readers agree just when the samples are all there. -/
theorem wavReaders_agree_iff (file : WavBytes) (aligned : Aligned file) :
    ReadersAgree file ↔ Complete file := by
  have walks : Walks file (takeSamples file) ∧ Walks file noteData :=
    ⟨fun walk => ⟨chunkLoop_stopped forward_takeSamples walk,
      position_le_chunkStep forward_takeSamples walk⟩,
      fun walk => ⟨chunkLoop_stopped forward_noteData walk,
        position_le_chunkStep forward_noteData walk⟩⟩
  have samples := readSamples_eq aligned
  have info := readInfo_eq file
  cases accepted : acceptedChunks file with
  | error message =>
    rw [accepted] at samples info
    have noSamples : ∀ list, readPcmS16leMonoWavSamples file ≠ .ok list := by
      rw [samples]
      exact fun _ => nofun
    refine iff_of_true ⟨iff_of_false (fun ⟨list, ok⟩ => noSamples list ok) ?_,
      fun list _ ok => absurd ok (noSamples list), walks⟩ fun chunks ok => ?_
    · rw [info]
      exact fun ⟨_, ok⟩ => nomatch ok
    · rw [accepted] at ok
      cases ok
  | ok chunks =>
    rw [accepted] at samples info
    have samples : readPcmS16leMonoWavSamples file = .ok (chunks.flatMap (chunkSamples file)) := samples
    have info : readPcmS16leMonoWavInfo file = .ok (lastInfo chunks) := info
    have complete : Complete file ↔
        slice (samplesIn (file.drop (lastInfo chunks).dataOffset)) 0 (lastInfo chunks).sampleCount =
          chunks.flatMap (chunkSamples file) := by
      cases ends : chunks.getLast? with
      | none =>
        rw [List.getLast?_eq_none_iff.mp ends]
        refine iff_of_true (fun chunks' ok => ?_) rfl
        obtain rfl : chunks = chunks' := Except.ok.inj (accepted.symm.trans ok)
        rw [ends]
        nofun
      | some last =>
        have info : lastInfo chunks = chunkInfo last := by rw [lastInfo, ends]; rfl
        have empty : ∀ chunk ∈ chunks.dropLast, chunkSamples file chunk = [] := by
          intro chunk mem
          have size := aligned.single chunk (acceptedChunks_ok accepted ▸ mem)
          rw [chunkSamples, size]
          rfl
        rw [flatMap_eq_getLast ends empty, info]
        refine Iff.trans ?_ (chunkSamples_eq_iff last).symm
        refine ⟨fun complete => complete chunks accepted last ends, fun room chunks' ok chunk isLast => ?_⟩
        obtain rfl : chunks = chunks' := Except.ok.inj (accepted.symm.trans ok)
        obtain rfl : last = chunk := Option.some.inj (ends.symm.trans isLast)
        exact room
    rw [complete]
    constructor
    · intro agrees
      have joined := agrees.ranges _ _ samples info [0, (lastInfo chunks).sampleCount]
        (List.isChain_pair.mpr (Nat.zero_le _)) rfl rfl
      rwa [flatMap_readRange (lastInfo chunks) (List.isChain_pair.mpr (Nat.zero_le _)) rfl rfl] at joined
    · intro whole
      refine ⟨iff_of_true ⟨_, samples⟩ ⟨_, info⟩, ?_, walks⟩
      intro list info' ok ok' points sorted starts ends
      obtain rfl : chunks.flatMap (chunkSamples file) = list := Except.ok.inj (samples.symm.trans ok)
      obtain rfl : lastInfo chunks = info' := Except.ok.inj (info.symm.trans ok')
      rwa [flatMap_readRange _ sorted starts ends]

/-! ## Files -/

def chunkBytes (id : String) (chunkSize : Nat) (body : WavBytes) : WavBytes :=
  idBytes id ++ Lib.littleEndian 4 chunkSize ++ body

/-- 16 kHz, mono and 16 bits. -/
def fmtChunk : WavBytes :=
  chunkBytes "fmt " 16 (Lib.littleEndian 2 1 ++ Lib.littleEndian 2 1 ++ Lib.littleEndian 4 16000 ++
    Lib.littleEndian 4 32000 ++ Lib.littleEndian 2 2 ++ Lib.littleEndian 2 16)

def riffFile (chunks : WavBytes) : WavBytes := chunkBytes "RIFF" 0 (idBytes "WAVE" ++ chunks)

def twoSamples : WavBytes := riffFile (fmtChunk ++ chunkBytes "data" 4 [1, 0, 2, 0])

/-- The data chunk comes first and has three bytes and one of padding. -/
def oddDataFirst : WavBytes := riffFile (chunkBytes "data" 3 [1, 0, 7, 0] ++ fmtChunk)

/-- Of two samples one is there. -/
def truncatedData : WavBytes := riffFile (fmtChunk ++ chunkBytes "data" 4 [1, 0])

theorem readers_agree_twoSamples : Aligned twoSamples ∧ (ReadersAgree twoSamples ↔ Complete twoSamples) := by
  have chunks : dataChunks twoSamples = [⟨44, 4, true⟩] := by decide +kernel
  have aligned : Aligned twoSamples := by
    constructor <;> rw [chunks]
    · exact fun chunk mem => .inl (List.mem_singleton.mp mem ▸ rfl)
    · exact List.forall_mem_nil _
  exact ⟨aligned, wavReaders_agree_iff twoSamples aligned⟩

theorem ok_of_toOption {ε α : Type} {result : Except ε α} {value : α}
    (found : result.toOption = some value) : result = .ok value := by
  cases result with
  | error e => cases found
  | ok a => exact congrArg Except.ok (Option.some.inj found)

/-- The readers disagree on whether the first file is a WAV file, and on the samples of
the second. -/
theorem readers_disagree : ¬ReadersAgree oddDataFirst ∧ ¬ReadersAgree truncatedData := by
  constructor
  · have info : (readPcmS16leMonoWavInfo oddDataFirst).toOption = some ⟨20, 1⟩ := by decide +kernel
    have samples : (readPcmS16leMonoWavSamples oddDataFirst).toOption = none := by decide +kernel
    intro agree
    obtain ⟨list, ok⟩ := agree.accept.mpr ⟨_, ok_of_toOption info⟩
    rw [ok] at samples
    cases samples
  · have info : (readPcmS16leMonoWavInfo truncatedData).toOption = some ⟨44, 2⟩ := by decide +kernel
    have samples : (readPcmS16leMonoWavSamples truncatedData).toOption = some [1 / 32768, 0] := by
      decide +kernel
    have range : readPcmS16leMonoWavRange truncatedData ⟨44, 2⟩ 0 2 = [1 / 32768] := by decide +kernel
    intro agree
    have joined := agree.ranges _ _ (ok_of_toOption samples) (ok_of_toOption info) [0, 2]
      (by decide) rfl rfl
    rw [show spans [0, 2] = [(0, 2)] from rfl, List.flatMap_singleton, range] at joined
    cases joined

end Svp.Audio
