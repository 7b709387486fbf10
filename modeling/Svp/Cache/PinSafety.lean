import Svp.Cache.PinMoves

/-!
# Pinned blobs stay

`casPins_safe`: in every run the pin list of a live holder is on disk, an eviction
that has read the pins knows all of it, and no eviction removes a blob that was
confirmed as pinned.
-/

namespace Svp.Cache

open Exec (Blake3Digest)

/-- The pin list an eviction is about to delete. -/
def EvictActivity.deletes : EvictActivity → Option String
  | .removingList holder _ _ => some holder
  | .removingOrphan holder _ _ => some holder
  | _ => none

/-- The pins an eviction has read, once it has read all of them. -/
def EvictActivity.allPins : EvictActivity → Option (List Blake3Digest)
  | .orphans _ pinned => some pinned
  | .removingOrphan _ _ pinned => some pinned
  | .pruning pinned => some pinned
  | .removing _ _ pinned => some pinned
  | _ => none

/-- What holds of the live pin sets of a state. -/
structure PinsSafe (s : CacheState) : Prop where
  /-- The pin list of a live holder is on disk, -/
  onDisk : s.AllListed fun pins =>
    s.files.pinLists pins.holder = some (pinListLines pins.listed)
  /-- and with it every digest `add` has returned ok for. -/
  confirmed : ∀ t pins, (s.tasks t).live = some pins → pins.confirmed ⊆ pins.listed
  /-- No eviction is about to delete it, -/
  spared : s.AllListed fun pins => ∀ u job eviction activity,
    s.tasks u = .evicting job eviction activity → activity.deletes ≠ some pins.holder
  /-- and none has passed over it. -/
  known : s.AllListed fun pins => ∀ u job eviction activity pinned,
    s.tasks u = .evicting job eviction activity → activity.allPins = some pinned →
      pins.listed ⊆ pinned
  /-- No step of any task removes a confirmed blob. -/
  kept : ∀ t pins digest, (s.tasks t).live = some pins → digest ∈ pins.confirmed →
    s.files.blobs digest = true → ∀ u s', s.Step u s' → s'.files.blobs digest = true

/-! ## The invariant -/

structure Invariant (s : CacheState) : Prop where
  calls : ∀ t, (s.tasks t).CallRight
  /-- No two tasks hold locks that exclude each other. -/
  exclusive : ∀ t u, t ≠ u → ∀ held ∈ (s.tasks t).holds, ∀ wanted ∈ (s.tasks u).holds,
    ¬ held.Conflicts wanted
  /-- An owned lock is on the file its path names. -/
  named : ∀ t, ∀ hold ∈ (s.tasks t).owns, s.files.locks.inode hold.path = some hold.inode
  adding : ∀ t, (s.tasks t).AddRight
  staged : ∀ t, (s.tasks t).StagedRight (s.files.pending t)
  onDisk : s.AllListed fun pins =>
    s.files.pinLists pins.holder = some (pinListLines pins.listed)
  confirmed : ∀ t pins, (s.tasks t).live = some pins → pins.confirmed ⊆ pins.listed
  heeded : s.AllListed fun pins => ∀ u, (s.tasks u).Heeds pins

section Invariant

variable {s : CacheState} {t u : Nat}

/-- A path has one owner, where one of two wants it for itself. -/
theorem Invariant.owner (inv : Invariant s) {own other : Hold} (owns : own ∈ (s.tasks t).owns)
    (owned : other ∈ (s.tasks u).owns) (path : own.path = other.path)
    (alone : own.mode = .exclusive ∨ other.mode = .exclusive) : t = u := by
  by_contra apart
  have inode : own.inode = other.inode := by
    have here := inv.named t own owns
    rw [path, inv.named u other owned] at here
    exact (Option.some.inj here).symm
  refine inv.exclusive t u apart own (owns_holds owns) other (owns_holds owned)
    ⟨path, inode, ?_⟩
  rintro ⟨shared, shared'⟩
  rcases alone with exclusive | exclusive
  · rw [shared] at exclusive
    cases exclusive
  · rw [shared'] at exclusive
    cases exclusive

theorem Invariant.start {s : CacheState} (init : cacheSystem.init s) : Invariant s where
  calls t := by rw [init t]; trivial
  exclusive t _ _ held mem := by rw [init t] at mem; cases mem
  named t hold mem := by rw [init t] at mem; cases mem
  adding t := by rw [init t]; trivial
  staged t _ _ _ _ isRenaming := by rw [init t] at isRenaming; cases isRenaming
  onDisk t _ live := by rw [init t] at live; cases live
  confirmed t _ live := by rw [init t] at live; cases live
  heeded t _ live := by rw [init t] at live; cases live

/-- The tasks behind a step: the one that moved, and the others as they were. -/
theorem tasks_cases {task : Task} (P : Nat → Task → Prop) (moved : P t task)
    (others : ∀ u, u ≠ t → P u (s.tasks u)) (u : Nat) : P u (Function.update s.tasks t task u) := by
  by_cases here : u = t
  · subst here
    rw [Function.update_self]
    exact moved
  · rw [Function.update_of_ne here]
    exact others u here

variable {task : Task} {files : CacheFiles}

theorem Invariant.exclusive_step (inv : Invariant s) (move : Move s t (s.tasks t) task files) :
    ∀ u, u ≠ t → ∀ held ∈ task.holds, ∀ wanted ∈ (s.tasks u).holds,
      ¬ held.Conflicts wanted ∧ ¬ wanted.Conflicts held := by
  intro u apart held mem wanted mem'
  rcases holds_move move (inv.calls t) held mem with before | unblocked
  · exact ⟨inv.exclusive t u (Ne.symm apart) held before wanted mem',
      inv.exclusive u t apart wanted mem' held before⟩
  · have free : ¬ wanted.Conflicts held := fun conflict => unblocked ⟨u, wanted, mem', conflict⟩
    refine ⟨fun conflict => free ?_, free⟩
    obtain ⟨path, inode, modes⟩ := conflict
    exact ⟨path.symm, inode.symm, fun shared => modes shared.symm⟩

/-- A lock file that is owned stays where it is until its owner unlinks it. -/
theorem Invariant.named_step (inv : Invariant s) (move : Move s t (s.tasks t) task files) :
    (∀ hold ∈ task.owns, files.locks.inode hold.path = some hold.inode) ∧
    ∀ u, u ≠ t → ∀ hold ∈ (s.tasks u).owns, files.locks.inode hold.path = some hold.inode := by
  refine ⟨fun hold mem => ?_, fun u apart hold mem => ?_⟩
  · have before : s.files.locks.inode hold.path = some hold.inode := by
      rcases owns_move move (inv.calls t) hold mem with owned | here
      · exact inv.named t hold owned
      · exact here
    rcases locks_move move hold.path with same | unnamed | ⟨holder, inode, _, _, gone⟩
    · rw [same, before]
    · rw [before] at unnamed
      cases unnamed
    · exact absurd rfl (gone hold mem)
  · have before := inv.named u hold mem
    rcases locks_move move hold.path with same | unnamed | ⟨holder, inode, path, owned, _⟩
    · rw [same, before]
    · rw [before] at unnamed
      cases unnamed
    · exact absurd (inv.owner mem owned path (.inr rfl)) apart

/-- The pin list of a live set is changed by nobody else. -/
theorem Invariant.list_stays (inv : Invariant s) (move : Move s t (s.tasks t) task files)
    {pins : LivePins} (apart : u ≠ t) (live : (s.tasks u).live = some pins)
    (some_ : pins.listed ≠ []) : files.pinLists pins.holder = s.files.pinLists pins.holder := by
  rcases lists_move move pins.holder with same | ⟨inode, owned⟩ |
    ⟨job, eviction, lists, pinned, isOrphan⟩
  · exact same
  · exact absurd (inv.owner (live_owns live) owned rfl (.inl rfl)) apart
  · have heeds := inv.heeded u pins live some_ t
    rw [isOrphan] at heeds
    exact absurd rfl heeds.1

theorem Invariant.heeds_stays (inv : Invariant s) (move : Move s t (s.tasks t) task files)
    {pins : LivePins} (apart : u ≠ t) (live : (s.tasks u).live = some pins)
    (some_ : pins.listed ≠ []) : task.Heeds pins :=
  heeds_move move (inv.calls t) (inv.named u _ (live_owns live)) (inv.onDisk u pins live some_)
    (fun held => inv.exclusive u t apart _ (owns_holds (live_owns live)) _ held
      ⟨rfl, rfl, fun shared => nomatch shared.1⟩)
    (inv.heeded u pins live some_ t)

/-- What the task that moved has listed, every eviction that is under way heeds. -/
theorem Invariant.heeded_own (inv : Invariant s) (move : Move s t (s.tasks t) task files)
    {pins : LivePins} (live : task.live = some pins) (some_ : pins.listed ≠ []) (apart : u ≠ t) :
    (s.tasks u).Heeds pins := by
  rcases live_move move live with empty | ⟨before, wasLive, holder, inode, listed⟩ |
    ⟨eviction, owned⟩
  · exact absurd empty some_
  · rw [← listed] at some_
    exact heeds_congr holder inode listed (inv.heeded t before wasLive some_ u)
  · rcases heeds_or_owns (s.tasks u) with all | ⟨held, evicts⟩
    · exact all pins
    · exact absurd (inv.owner evicts owned rfl (.inl rfl)) apart

theorem Invariant.step (inv : Invariant s) {s' : CacheState} (stepped : s.Step t s') :
    Invariant s' := by
  obtain ⟨task, files, move, rfl⟩ := stepped
  obtain ⟨owned, othersOwned⟩ := inv.named_step move
  have apart := inv.exclusive_step move
  constructor
  · exact tasks_cases (fun _ task => task.CallRight) (callRight_move move (inv.calls t))
      fun u _ => inv.calls u
  · intro u v different held mem wanted mem'
    dsimp only at mem mem'
    by_cases first : u = t
    · subst first
      rw [Function.update_self] at mem
      rw [Function.update_of_ne (Ne.symm different)] at mem'
      exact (apart v (Ne.symm different) held mem wanted mem').1
    · rw [Function.update_of_ne first] at mem
      by_cases second : v = t
      · subst second
        rw [Function.update_self] at mem'
        exact (apart u first wanted mem' held mem).2
      · rw [Function.update_of_ne second] at mem'
        exact inv.exclusive u v different held mem wanted mem'
  · exact tasks_cases
      (fun _ task => ∀ hold ∈ task.owns, files.locks.inode hold.path = some hold.inode)
      owned othersOwned
  · exact tasks_cases (fun _ task => task.AddRight) (addRight_move move (inv.adding t))
      fun u _ => inv.adding u
  · refine tasks_cases (fun u task => task.StagedRight (files.pending u)) (staged_move move)
      fun u other set digest eviction lines isRenaming staged => ?_
    rcases pending_move move other with same | gone
    · rw [same] at staged
      exact inv.staged u set digest eviction lines isRenaming staged
    · rw [gone] at staged
      cases staged
  · refine tasks_cases (fun _ task => ∀ pins, task.live = some pins → pins.listed ≠ [] →
      files.pinLists pins.holder = some (pinListLines pins.listed))
      (listed_move move (inv.staged t) (inv.onDisk t)) fun u other pins live some_ => ?_
    rw [inv.list_stays move other live some_]
    exact inv.onDisk u pins live some_
  · exact tasks_cases
      (fun _ task => ∀ pins, task.live = some pins → pins.confirmed ⊆ pins.listed)
      (confirmed_move move (inv.adding t) (inv.confirmed t)) fun u _ => inv.confirmed u
  · refine tasks_cases (fun u task => ∀ pins, task.live = some pins → pins.listed ≠ [] →
      ∀ v, (Function.update s.tasks t _ v).Heeds pins) ?_ ?_
    · intro pins live some_
      exact tasks_cases (fun _ task => task.Heeds pins) (live_heeds live pins)
        fun v other => inv.heeded_own move live some_ other
    · intro u other pins live some_
      exact tasks_cases (fun _ task => task.Heeds pins) (inv.heeds_stays move other live some_)
        fun v _ => inv.heeded u pins live some_ v

/-- Blobs that come and go in other ways leave the pins alone. -/
theorem Invariant.blobStep (inv : Invariant s) {s' : CacheState} (stepped : s.BlobStep s') :
    Invariant s' := by
  obtain ⟨digest, stored, rfl⟩ := stepped
  exact ⟨inv.calls, inv.exclusive, inv.named, inv.adding, inv.staged, inv.onDisk, inv.confirmed,
    inv.heeded⟩

theorem invariant_reachable (reach : cacheSystem.Reachable s) : Invariant s :=
  reach.invariant (fun _ init => Invariant.start init) fun _ _ _ inv stepped => by
    rcases stepped with ⟨t, stepped⟩ | stepped
    · exact inv.step stepped
    · exact inv.blobStep stepped

end Invariant

/-! ## Safety -/

theorem deletes_heeds {activity : EvictActivity} {pins : LivePins} {holder : String}
    (deletes : activity.deletes = some holder) (heeds : activity.Heeds pins) :
    pins.holder ≠ holder := by
  cases activity with
  | removingList =>
    cases deletes
    exact heeds.1
  | removingOrphan =>
    cases deletes
    exact heeds.1
  | _ => cases deletes

theorem allPins_heeds {activity : EvictActivity} {pins : LivePins} {pinned : List Blake3Digest}
    (allPins : activity.allPins = some pinned) (heeds : activity.Heeds pins) :
    pins.listed ⊆ pinned := by
  cases activity with
  | orphans =>
    cases allPins
    exact heeds
  | removingOrphan =>
    cases allPins
    exact heeds.2
  | pruning =>
    cases allPins
    exact heeds
  | removing =>
    cases allPins
    exact heeds
  | _ => cases allPins

theorem casPins_safe (s : CacheState) (reach : cacheSystem.Reachable s) : PinsSafe s := by
  have inv := invariant_reachable reach
  refine ⟨inv.onDisk, inv.confirmed, ?_, ?_, ?_⟩
  · intro t pins live some_ u job eviction activity evicting deletes
    have heeds := inv.heeded t pins live some_ u
    rw [evicting] at heeds
    exact deletes_heeds deletes heeds rfl
  · intro t pins live some_ u job eviction activity pinned evicting allPins
    have heeds := inv.heeded t pins live some_ u
    rw [evicting] at heeds
    exact allPins_heeds allPins heeds
  · rintro t pins digest live mem stored u s' ⟨task, files, move, rfl⟩
    have listed := inv.confirmed t pins live mem
    rcases blobs_move move stored with stays | unknown
    · exact stays
    · exact absurd listed (unknown pins (inv.heeded t pins live (List.ne_nil_of_mem listed) u))

/-- The state in which one task is `task` and no other does anything. -/
def oneTask (files : CacheFiles) (task : Task) : CacheState where
  files := files
  tasks := Function.update (fun _ => .idle) 0 task

@[simp] theorem oneTask_tasks (files : CacheFiles) (task : Task) :
    (oneTask files task).tasks = Function.update (fun _ => .idle) 0 task := rfl

theorem oneTask_step {files files' : CacheFiles} {task task' : Task}
    (move : Move (oneTask files task) 0 task task' files') :
    cacheSystem.step (oneTask files task) (oneTask files' task') := by
  refine .inl ⟨0, task', files', ?_, ?_⟩
  · rwa [oneTask_tasks, Function.update_self]
  · rw [oneTask, oneTask, Function.update_idem]

theorem oneTask_free {files : CacheFiles} {task : Task} {wanted : Hold}
    (free : ∀ held ∈ task.holds, held.path ≠ wanted.path) : ¬ (oneTask files task).Blocks wanted := by
  rintro ⟨t, held, mem, path, -⟩
  rw [oneTask_tasks] at mem
  by_cases here : t = 0
  · rw [here, Function.update_self] at mem
    exact free held mem path
  · rw [Function.update_of_ne here] at mem
    cases mem

/-- A task alone gets a lock whose file is not there yet, in three system calls. -/
theorem oneTask_acquire (files : CacheFiles) (path : LockPath) (mode : LockMode) (wait : LockWait)
    (resume : LockOutcome → Task) (unnamed : files.locks.inode path = none)
    (program : ∀ stage, (resume (.pending { path, mode, wait, stage })).lockCall =
      some ({ path, mode, wait, stage }, resume))
    (free : ∀ inode, ∀ held ∈ (resume (.pending { path, mode, wait, stage := .flocking inode })).holds,
      held.path ≠ path) :
    cacheSystem.Leads (oneTask files (resume (.pending { path, mode, wait })))
      (oneTask { files with locks := files.locks.create path }
        (resume (.acquired (files.locks.fresh path)))) := by
  let inode := files.locks.fresh path
  let created : CacheFiles := { files with locks := files.locks.create path }
  have named : created.locks.inode path = some inode := Function.update_self _ _ _
  have opened : cacheSystem.step (oneTask files (resume (.pending { path, mode, wait })))
      (oneTask created (resume (.pending { path, mode, wait, stage := .flocking inode }))) := by
    have stepped : LockCall.step { path, mode, wait } files.locks false = some (created.locks,
        .pending { path, mode, wait, stage := .flocking inode }) := by
      rw [LockCall.step, unnamed]
    exact oneTask_step (.lock (program _) nofun stepped)
  have locked : cacheSystem.step
      (oneTask created (resume (.pending { path, mode, wait, stage := .flocking inode })))
      (oneTask created (resume (.pending { path, mode, wait, stage := .checking inode }))) := by
    have stepped : LockCall.step { path, mode, wait, stage := .flocking inode } created.locks false =
        some (created.locks, .pending { path, mode, wait, stage := .checking inode }) := rfl
    have unblocked : ∀ other, LockStage.flocking inode = .flocking other → (false = true ↔
        (oneTask created (resume (.pending { path, mode, wait, stage := .flocking inode }))).Blocks
          ⟨path, other, mode⟩) :=
      fun _ _ => ⟨nofun, fun blocks => absurd blocks (oneTask_free (free inode))⟩
    exact oneTask_step (.lock (program _) unblocked stepped)
  have checked : cacheSystem.step
      (oneTask created (resume (.pending { path, mode, wait, stage := .checking inode })))
      (oneTask created (resume (.acquired inode))) := by
    have stepped : LockCall.step { path, mode, wait, stage := .checking inode } created.locks false =
        some (created.locks, .acquired inode) := by
      rw [LockCall.step]
      exact if_pos named
    exact oneTask_step (.lock (program _) nofun stepped)
  exact .tail (.tail (.single opened) locked) checked

/-- A store without pins. -/
def sampleFiles : CacheFiles where
  locks := { inode := fun _ => none, fresh := fun _ => 0 }
  pinLists := fun _ => none
  pending := fun _ => none
  blobs := fun _ => true

/-- A pin set is made and pins a blob. -/
theorem casPins_safe_sample : ∃ s pins, cacheSystem.Reachable s ∧ (s.tasks 0).live = some pins ∧
    pins.confirmed = [.fill 7] ∧ PinsSafe s := by
  have start : cacheSystem.Reachable (oneTask sampleFiles .idle) := .start fun t => by simp
  have valid : Exec.isRecordIdentifier "worker" = true := by decide
  have made := (start.next (oneTask_step (.pinSet valid))).run
    (oneTask_acquire sampleFiles (.pin "worker") .exclusive .tryOnce (afterPinLock "worker") rfl
      (fun _ => rfl) (fun _ => nofun))
  let set : PinSet := { holder := "worker", inode := 0 }
  let files : CacheFiles :=
    { sampleFiles with locks := sampleFiles.locks.create (.pin "worker") }
  have locked := (made.next (oneTask_step .add)).run
    (oneTask_acquire files .eviction .shared .block (afterAddLock set (.fill 7)) rfl
      (fun _ => rfl) (fun _ held mem => by cases List.mem_singleton.mp mem; exact nofun))
  have staged := locked.next (oneTask_step .stage)
  have added := ((staged.next (oneTask_step (.rename rfl))).next (oneTask_step .look)).next
    (oneTask_step .added)
  exact ⟨_, _, added, rfl, rfl, casPins_safe _ added⟩

end Svp.Cache
