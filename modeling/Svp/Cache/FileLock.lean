import Svp.Exec.Digest

/-!
# Advisory locks on files that may be unlinked

`lock_file` opens a path, creating it where it is not there, takes `flock` on what
it opened, and then looks whether the path still names that file. `LockCall.step`
is one of these calls. Lock files are created and unlinked but never renamed, so an
inode is a path and a number.
-/

namespace Svp.Cache

/-- The lock files of a store: one for each pin holder, one for eviction. -/
inductive LockPath
  | pin (holder : String)
  | eviction
deriving DecidableEq

inductive LockMode
  | shared
  | exclusive
deriving DecidableEq

inductive LockWait
  | tryOnce
  | block
deriving DecidableEq

/-- A lock that is held: on which file, and how. -/
structure Hold where
  path : LockPath
  inode : Nat
  mode : LockMode
deriving DecidableEq

/-- Two locks on one file exclude each other unless both are shared. -/
def Hold.Conflicts (held wanted : Hold) : Prop :=
  held.path = wanted.path ∧ held.inode = wanted.inode ∧
    ¬ (held.mode = .shared ∧ wanted.mode = .shared)

/-- Which file each lock path names, and the next unused inode of each path. -/
structure LockFiles where
  inode : LockPath → Option Nat
  fresh : LockPath → Nat

def LockFiles.create (files : LockFiles) (path : LockPath) : LockFiles where
  inode := Function.update files.inode path (some (files.fresh path))
  fresh := Function.update files.fresh path (files.fresh path + 1)

def LockFiles.unlink (files : LockFiles) (path : LockPath) : LockFiles :=
  { files with inode := Function.update files.inode path none }

def kMaxRelinkRetries : Nat := 8

/-- Where a call of `lock_file` stands: before `open`, before `flock` on what it
opened, before the check of the path, or before the `close` of a file that the path
no longer names. -/
inductive LockStage
  | opening
  | flocking (inode : Nat)
  | checking (inode : Nat)
  | closing (inode : Nat)
deriving DecidableEq

structure LockCall where
  path : LockPath
  mode : LockMode
  wait : LockWait
  retry : Nat := 0
  stage : LockStage := .opening
deriving DecidableEq

def LockCall.hold (call : LockCall) (inode : Nat) : Hold where
  path := call.path
  inode := inode
  mode := call.mode

/-- The lock the call holds on its way. -/
def LockCall.holds (call : LockCall) : List Hold :=
  match call.stage with
  | .opening => []
  | .flocking _ => []
  | .checking inode => [call.hold inode]
  | .closing inode => [call.hold inode]

/-- What a call comes to; `pending` is not there yet. -/
inductive LockOutcome
  | pending (call : LockCall)
  | acquired (inode : Nat)
  | contended
  | failed

/-- The next system call. `blocked` says whether a lock that is held conflicts with
the one wanted; there is no next call where it has to wait. -/
def LockCall.step (call : LockCall) (files : LockFiles) (blocked : Bool) :
    Option (LockFiles × LockOutcome) :=
  match call.stage with
  | .opening =>
    match files.inode call.path with
    | some inode => some (files, .pending { call with stage := .flocking inode })
    | none =>
      some (files.create call.path,
        .pending { call with stage := .flocking (files.fresh call.path) })
  | .flocking inode =>
    if !blocked then some (files, .pending { call with stage := .checking inode })
    else
      match call.wait with
      | .tryOnce => some (files, .contended)
      | .block => none
  | .checking inode =>
    if files.inode call.path = some inode then some (files, .acquired inode)
    else some (files, .pending { call with stage := .closing inode })
  | .closing _ =>
    if call.retry < kMaxRelinkRetries then
      some (files, .pending { call with retry := call.retry + 1, stage := .opening })
    else some (files, .failed)

/-- The locks held once a call has come to `outcome`. -/
def LockOutcome.holds (outcome : LockOutcome) (call : LockCall) : List Hold :=
  match outcome with
  | .pending next => next.holds
  | .acquired inode => [call.hold inode]
  | .contended => []
  | .failed => []

/-- What one system call can do. -/
structure LockCall.Moves (call : LockCall) (files files' : LockFiles) (blocked : Bool)
    (outcome : LockOutcome) : Prop where
  /-- Only a path that names no file is given one. -/
  created : files' = files ∨ files.inode call.path = none ∧ files' = files.create call.path
  /-- A lock is kept, or was not blocked when it was taken. -/
  locked : ∀ hold ∈ outcome.holds call, hold ∈ call.holds ∨
    blocked = false ∧ ∃ inode, call.stage = .flocking inode ∧ hold = call.hold inode
  /-- The call goes on with the same path, mode and wait. -/
  same : ∀ next, outcome = .pending next →
    next.path = call.path ∧ next.mode = call.mode ∧ next.wait = call.wait
  /-- An acquired lock is on the file the path names. -/
  acquired : ∀ inode, outcome = .acquired inode →
    files.inode call.path = some inode ∧ call.hold inode ∈ call.holds

theorem LockCall.moves {call : LockCall} {files files' : LockFiles} {blocked : Bool}
    {outcome : LockOutcome} (stepped : call.step files blocked = some (files', outcome)) :
    call.Moves files files' blocked outcome := by
  unfold LockCall.step at stepped
  split at stepped
  · next stage =>
    split at stepped
    · next inode named =>
      cases stepped
      exact ⟨.inl rfl, fun _ mem => by simp [LockOutcome.holds, LockCall.holds] at mem,
        fun _ same => by cases same; exact ⟨rfl, rfl, rfl⟩, nofun⟩
    · next named =>
      cases stepped
      exact ⟨.inr ⟨named, rfl⟩, fun _ mem => by simp [LockOutcome.holds, LockCall.holds] at mem,
        fun _ same => by cases same; exact ⟨rfl, rfl, rfl⟩, nofun⟩
  · next inode stage =>
    split at stepped
    · next free =>
      cases stepped
      refine ⟨.inl rfl, fun hold mem => .inr ⟨by simpa using free, inode, stage, ?_⟩,
        fun _ same => by cases same; exact ⟨rfl, rfl, rfl⟩, nofun⟩
      exact List.mem_singleton.mp mem
    · split at stepped
      · cases stepped
        exact ⟨.inl rfl, fun _ mem => (List.not_mem_nil mem).elim, nofun,
          nofun⟩
      · cases stepped
  · next inode stage =>
    have held : call.holds = [call.hold inode] := by rw [LockCall.holds, stage]
    split at stepped
    · next named =>
      cases stepped
      refine ⟨.inl rfl, fun hold mem => .inl (by rwa [held]), nofun, ?_⟩
      rintro _ ⟨⟩
      exact ⟨named, by rw [held]; exact List.mem_singleton_self _⟩
    · cases stepped
      exact ⟨.inl rfl, fun hold mem => .inl (by rwa [held]),
        fun _ same => by cases same; exact ⟨rfl, rfl, rfl⟩, nofun⟩
  · next inode stage =>
    split at stepped
    · cases stepped
      exact ⟨.inl rfl, fun _ mem => by simp [LockOutcome.holds, LockCall.holds] at mem,
        fun _ same => by cases same; exact ⟨rfl, rfl, rfl⟩, nofun⟩
    · cases stepped
      exact ⟨.inl rfl, fun _ mem => (List.not_mem_nil mem).elim, nofun,
        nofun⟩

end Svp.Cache
