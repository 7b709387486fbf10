import Svp.Cache.FileLock
import Svp.Exec.Records
import Svp.Lib.System

/-!
# Pin sets and eviction

Any number of tasks work on one cache: a task creates a pin set, adds pins and
tears it down, or runs `evict` or `remove_unpinned`, one system call a step, and may
crash at any point. `CacheState.Step` is the next step of one task. File-system
calls do what the state of the files lets them; a failing disk is not modelled.
-/

namespace Svp.Cache

open Exec (Blake3Digest blake3Hex parseBlake3Hex)

/-! ## State -/

/-- The files of a cache that pins and eviction touch. -/
structure CacheFiles where
  locks : LockFiles
  /-- The lines of each holder's pin list. -/
  pinLists : String → Option (List String)
  /-- The pin list each task has staged. -/
  pending : Nat → Option (List String)
  blobs : Blake3Digest → Bool

/-- A live pin set, with the digests `add` has returned ok for. -/
structure PinSet where
  holder : String
  inode : Nat
  digests : List Blake3Digest := []
  confirmed : List Blake3Digest := []

/-- What a pin set is doing. From `staging` to `returning`, `add` holds the eviction
lock on the inode given. -/
inductive PinActivity
  | resting
  | locking (digest : Blake3Digest) (call : LockCall)
  | staging (digest : Blake3Digest) (eviction : Nat)
  | renaming (digest : Blake3Digest) (eviction : Nat)
  | looking (digest : Blake3Digest) (eviction : Nat)
  | returning (digest : Blake3Digest) (eviction : Nat) (ok : Bool)
  | removingList
  | removingLock
  | releasing

structure CasBlobEntry where
  digest : Blake3Digest
  bytes : Nat
  lastUsed : Nat

/-- `evict` with the policy's limit, or `remove_unpinned`. -/
inductive EvictJob
  | evict (maxBytes : Nat)
  | removeUnpinned (digest : Blake3Digest)

def EvictJob.wait : EvictJob → LockWait
  | .evict _ => .tryOnce
  | .removeUnpinned _ => .block

/-- What `read_live_pins` has still to look at, and the pins it has found. -/
structure PinScan where
  locks : List String
  lists : List String
  pinned : List Blake3Digest := []

/-- What an eviction is doing. Behind `locking` it holds the eviction lock; from
`removingList` to `releasing` also the lock of the dead holder it cleans up. -/
inductive EvictActivity
  | locking (call : LockCall)
  | opening
  | listing (seen : LockPath → Option Nat)
  | visiting (scan : PinScan)
  | probing (holder : String) (call : LockCall) (scan : PinScan)
  | reading (holder : String) (scan : PinScan)
  | removingList (holder : String) (inode : Nat) (scan : PinScan)
  | removingLock (holder : String) (inode : Nat) (scan : PinScan)
  | releasing (holder : String) (inode : Nat) (scan : PinScan)
  | orphans (lists : List String) (pinned : List Blake3Digest)
  | removingOrphan (holder : String) (lists : List String) (pinned : List Blake3Digest)
  | pruning (pinned : List Blake3Digest)
  | removing (blobs : List CasBlobEntry) (total : Nat) (pinned : List Blake3Digest)
  | closing

/-- What a task does. The number of an eviction is the inode of the eviction lock, zero
until it has that lock. -/
inductive Task
  | idle
  | pinning (holder : String) (call : LockCall)
  | holding (set : PinSet) (activity : PinActivity)
  | evicting (job : EvictJob) (eviction : Nat) (activity : EvictActivity)

structure CacheState where
  files : CacheFiles
  tasks : Nat → Task

/-! ## Locks -/

def evictionHold (eviction : Nat) (mode : LockMode) : Hold where
  path := .eviction
  inode := eviction
  mode := mode

def pinHold (holder : String) (inode : Nat) : Hold where
  path := .pin holder
  inode := inode
  mode := .exclusive

def PinActivity.holds : PinActivity → List Hold
  | .resting => []
  | .locking _ call => call.holds
  | .staging _ eviction => [evictionHold eviction .shared]
  | .renaming _ eviction => [evictionHold eviction .shared]
  | .looking _ eviction => [evictionHold eviction .shared]
  | .returning _ eviction _ => [evictionHold eviction .shared]
  | .removingList => []
  | .removingLock => []
  | .releasing => []

/-- The locks an eviction holds besides the eviction lock. -/
def EvictActivity.probes : EvictActivity → List Hold
  | .probing _ call _ => call.holds
  | .removingList holder inode _ => [pinHold holder inode]
  | .removingLock holder inode _ => [pinHold holder inode]
  | .releasing holder inode _ => [pinHold holder inode]
  | _ => []

/-- The locks a task holds. They are gone when it crashes. -/
def Task.holds : Task → List Hold
  | .idle => []
  | .pinning _ call => call.holds
  | .holding set activity => pinHold set.holder set.inode :: activity.holds
  | .evicting _ _ (.locking call) => call.holds
  | .evicting _ eviction activity => evictionHold eviction .exclusive :: activity.probes

/-- Some lock that is held conflicts with the one wanted. -/
def CacheState.Blocks (s : CacheState) (wanted : Hold) : Prop :=
  ∃ t, ∃ held ∈ (s.tasks t).holds, held.Conflicts wanted

/-! ## Programs -/

def pinLockCall (holder : String) : LockCall where
  path := .pin holder
  mode := .exclusive
  wait := .tryOnce

def evictionLockCall (mode : LockMode) (wait : LockWait) : LockCall where
  path := .eviction
  mode := mode
  wait := wait

/-- `pin_set`: the holder's lock decides whether it is live. -/
def afterPinLock (holder : String) : LockOutcome → Task
  | .pending call => .pinning holder call
  | .acquired inode => .holding { holder, inode } .resting
  | .contended => .idle
  | .failed => .idle

/-- `add`, once it has the eviction lock: a digest that is not yet pinned is put on
the list. -/
def afterAddLock (set : PinSet) (digest : Blake3Digest) : LockOutcome → Task
  | .pending call => .holding set (.locking digest call)
  | .acquired eviction =>
    if digest ∈ set.digests then .holding set (.looking digest eviction)
    else .holding { set with digests := set.digests ++ [digest] } (.staging digest eviction)
  | .contended => .holding set .resting
  | .failed => .holding set .resting

def afterEvictionLock (job : EvictJob) (eviction : Nat) : LockOutcome → Task
  | .pending call => .evicting job eviction (.locking call)
  | .acquired eviction => .evicting job eviction .opening
  | .contended => .idle
  | .failed => .idle

/-- `read_live_pins` on one lock file: a lock that is taken belongs to a live holder,
a free one to a dead holder, and anything else ends the eviction. -/
def afterProbe (job : EvictJob) (eviction : Nat) (holder : String) (scan : PinScan) :
    LockOutcome → Task
  | .pending call => .evicting job eviction (.probing holder call scan)
  | .acquired inode => .evicting job eviction (.removingList holder inode scan)
  | .contended => .evicting job eviction (.reading holder scan)
  | .failed => .evicting job eviction .closing

/-- The lock a task is about to take, and how it goes on. -/
def Task.lockCall : Task → Option (LockCall × (LockOutcome → Task))
  | .pinning holder call => some (call, afterPinLock holder)
  | .holding set (.locking digest call) => some (call, afterAddLock set digest)
  | .evicting job eviction (.locking call) => some (call, afterEvictionLock job eviction)
  | .evicting job eviction (.probing holder call scan) =>
    some (call, afterProbe job eviction holder scan)
  | _ => none

/-- `write_pin_list`: one lowercase hex digest per line. -/
def pinListLines (digests : List Blake3Digest) : List String := digests.map blake3Hex

/-- `read_pin_list`: the lines that are digests; none where there is no list. -/
def readPinList (lines : Option (List String)) : List Blake3Digest :=
  (lines.getD []).filterMap parseBlake3Hex

/-- Oldest first; the digest breaks ties. -/
def oldestFirst (blobs : List CasBlobEntry) : List CasBlobEntry :=
  blobs.mergeSort fun left right =>
    decide (left.lastUsed < right.lastUsed ∨
      left.lastUsed = right.lastUsed ∧ left.digest.bytes ≤ right.digest.bytes)

def totalBytes (blobs : List CasBlobEntry) : Nat := (blobs.map CasBlobEntry.bytes).sum

def CacheFiles.setPinList (files : CacheFiles) (holder : String) (lines : Option (List String)) :
    CacheFiles :=
  { files with pinLists := Function.update files.pinLists holder lines }

def CacheFiles.setPending (files : CacheFiles) (t : Nat) (lines : Option (List String)) :
    CacheFiles :=
  { files with pending := Function.update files.pending t lines }

def CacheFiles.setBlob (files : CacheFiles) (digest : Blake3Digest) (stored : Bool) : CacheFiles :=
  { files with blobs := Function.update files.blobs digest stored }

def CacheFiles.unlinkLock (files : CacheFiles) (holder : String) : CacheFiles :=
  { files with locks := files.locks.unlink (.pin holder) }

/-- A directory listing misses no lock file that was there all the time: one that
was there at the start and still is. -/
def Listed (seen now : LockPath → Option Nat) (locks : List String) : Prop :=
  ∀ holder inode, seen (.pin holder) = some inode → now (.pin holder) = some inode → holder ∈ locks

/-! ## Steps -/

/-- The next step of task `t`: what it and the files become. -/
inductive Move (s : CacheState) (t : Nat) : Task → Task → CacheFiles → Prop
  /-- The next system call of a `lock_file` on its way. -/
  | lock {task call resume blocked locks outcome} :
      task.lockCall = some (call, resume) →
      (∀ inode, call.stage = .flocking inode → (blocked = true ↔ s.Blocks (call.hold inode))) →
      call.step s.files.locks blocked = some (locks, outcome) →
      Move s t task (resume outcome) { s.files with locks }
  | crash {task} : Move s t task .idle s.files
  -- A pin set.
  | pinSet {holder} : Exec.isRecordIdentifier holder = true →
      Move s t .idle (.pinning holder (pinLockCall holder)) s.files
  | add {set digest} :
      Move s t (.holding set .resting)
        (.holding set (.locking digest (evictionLockCall .shared .block))) s.files
  | stage {set digest eviction} :
      Move s t (.holding set (.staging digest eviction)) (.holding set (.renaming digest eviction))
        (s.files.setPending t (some (pinListLines set.digests)))
  | rename {set digest eviction lines} : s.files.pending t = some lines →
      Move s t (.holding set (.renaming digest eviction)) (.holding set (.looking digest eviction))
        ((s.files.setPending t none).setPinList set.holder (some lines))
  /-- The staged list is gone: the pin is taken back. -/
  | renameFails {set digest eviction} : s.files.pending t = none →
      Move s t (.holding set (.renaming digest eviction))
        (.holding { set with digests := set.digests.dropLast } (.returning digest eviction false))
        s.files
  | look {set digest eviction} :
      Move s t (.holding set (.looking digest eviction))
        (.holding set (.returning digest eviction (s.files.blobs digest))) s.files
  | added {set digest eviction ok} :
      Move s t (.holding set (.returning digest eviction ok))
        (.holding { set with confirmed := if ok then digest :: set.confirmed else set.confirmed }
          .resting) s.files
  | teardown {set} : Move s t (.holding set .resting) (.holding set .removingList) s.files
  | tearList {set} :
      Move s t (.holding set .removingList) (.holding set .removingLock)
        (s.files.setPinList set.holder none)
  | tearLock {set} :
      Move s t (.holding set .removingLock) (.holding set .releasing)
        (s.files.unlinkLock set.holder)
  | release {set} : Move s t (.holding set .releasing) .idle s.files
  -- `evict` and `remove_unpinned`.
  | evict {job} :
      Move s t .idle (.evicting job 0 (.locking (evictionLockCall .exclusive job.wait))) s.files
  | openPins {job eviction} :
      Move s t (.evicting job eviction .opening)
        (.evicting job eviction (.listing s.files.locks.inode)) s.files
  | listPins {job eviction seen locks lists} : Listed seen s.files.locks.inode locks →
      Move s t (.evicting job eviction (.listing seen))
        (.evicting job eviction (.visiting { locks, lists })) s.files
  | visit {job eviction holder locks lists pinned} :
      Move s t (.evicting job eviction (.visiting ⟨holder :: locks, lists, pinned⟩))
        (.evicting job eviction (.probing holder (pinLockCall holder) ⟨locks, lists, pinned⟩)) s.files
  | read {job eviction holder scan} :
      Move s t (.evicting job eviction (.reading holder scan))
        (.evicting job eviction (.visiting
          { scan with pinned := scan.pinned ++ readPinList (s.files.pinLists holder) })) s.files
  | cleanList {job eviction holder inode scan} :
      Move s t (.evicting job eviction (.removingList holder inode scan))
        (.evicting job eviction (.removingLock holder inode scan)) (s.files.setPinList holder none)
  | cleanLock {job eviction holder inode scan} :
      Move s t (.evicting job eviction (.removingLock holder inode scan))
        (.evicting job eviction (.releasing holder inode scan)) (s.files.unlinkLock holder)
  | cleaned {job eviction holder inode scan} :
      Move s t (.evicting job eviction (.releasing holder inode scan))
        (.evicting job eviction (.visiting scan)) s.files
  | visited {job eviction lists pinned} :
      Move s t (.evicting job eviction (.visiting ⟨[], lists, pinned⟩))
        (.evicting job eviction (.orphans lists pinned)) s.files
  | locked {job eviction holder lists pinned} : s.files.locks.inode (.pin holder) ≠ none →
      Move s t (.evicting job eviction (.orphans (holder :: lists) pinned))
        (.evicting job eviction (.orphans lists pinned)) s.files
  | orphan {job eviction holder lists pinned} : s.files.locks.inode (.pin holder) = none →
      Move s t (.evicting job eviction (.orphans (holder :: lists) pinned))
        (.evicting job eviction (.removingOrphan holder lists pinned)) s.files
  | cleanOrphan {job eviction holder lists pinned} :
      Move s t (.evicting job eviction (.removingOrphan holder lists pinned))
        (.evicting job eviction (.orphans lists pinned)) (s.files.setPinList holder none)
  | pinsRead {maxBytes eviction pinned} :
      Move s t (.evicting (.evict maxBytes) eviction (.orphans [] pinned))
        (.evicting (.evict maxBytes) eviction (.pruning pinned)) s.files
  /-- A stale pending file is removed, whoever staged it. -/
  | prune {maxBytes eviction pinned u} :
      Move s t (.evicting (.evict maxBytes) eviction (.pruning pinned))
        (.evicting (.evict maxBytes) eviction (.pruning pinned)) (s.files.setPending u none)
  /-- The listing of the blobs races with their writers, so it may be any list. -/
  | listBlobs {maxBytes eviction pinned blobs} :
      Move s t (.evicting (.evict maxBytes) eviction (.pruning pinned))
        (.evicting (.evict maxBytes) eviction (.removing (oldestFirst blobs) (totalBytes blobs) pinned))
        s.files
  | fits {maxBytes eviction blobs total pinned} : total ≤ maxBytes →
      Move s t (.evicting (.evict maxBytes) eviction (.removing blobs total pinned))
        (.evicting (.evict maxBytes) eviction .closing) s.files
  | keep {maxBytes eviction blob blobs total pinned} : maxBytes < total → blob.digest ∈ pinned →
      Move s t (.evicting (.evict maxBytes) eviction (.removing (blob :: blobs) total pinned))
        (.evicting (.evict maxBytes) eviction (.removing blobs total pinned)) s.files
  | removeBlob {maxBytes eviction blob blobs total pinned} : maxBytes < total →
      blob.digest ∉ pinned →
      Move s t (.evicting (.evict maxBytes) eviction (.removing (blob :: blobs) total pinned))
        (.evicting (.evict maxBytes) eviction (.removing blobs
          (if s.files.blobs blob.digest then total - blob.bytes else total) pinned))
        (s.files.setBlob blob.digest false)
  | evicted {maxBytes eviction total pinned} :
      Move s t (.evicting (.evict maxBytes) eviction (.removing [] total pinned))
        (.evicting (.evict maxBytes) eviction .closing) s.files
  | keepOne {digest eviction pinned} : digest ∈ pinned →
      Move s t (.evicting (.removeUnpinned digest) eviction (.orphans [] pinned))
        (.evicting (.removeUnpinned digest) eviction .closing) s.files
  | removeOne {digest eviction pinned} : digest ∉ pinned →
      Move s t (.evicting (.removeUnpinned digest) eviction (.orphans [] pinned))
        (.evicting (.removeUnpinned digest) eviction .closing) (s.files.setBlob digest false)
  | close {job eviction} : Move s t (.evicting job eviction .closing) .idle s.files

/-- Task `t` takes a step. -/
def CacheState.Step (s : CacheState) (t : Nat) (s' : CacheState) : Prop :=
  ∃ task files, Move s t (s.tasks t) task files ∧
    s' = { files, tasks := Function.update s.tasks t task }

/-- Blobs also come and go in other ways: `put` stores one, and a read that finds one
corrupt removes it. -/
def CacheState.BlobStep (s s' : CacheState) : Prop :=
  ∃ digest stored, s' = { s with files := s.files.setBlob digest stored }

/-- The system: it starts with whatever files earlier processes left. -/
def cacheSystem : Lib.System CacheState where
  init s := ∀ t, s.tasks t = .idle
  step s s' := (∃ t, s.Step t s') ∨ s.BlobStep s'

end Svp.Cache
