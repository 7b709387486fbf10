import Svp.Cache.PinRegistry

/-!
# What a move of a task does to pins

One lemma for each thing a task holds, owns, lists or heeds: what of it is there
behind a move, and on which grounds. A lock is owned from the check of its path to
the unlink, and only its owner unlinks that path.
-/

namespace Svp.Cache

open Exec (Blake3Digest blake3Hex parseBlake3Hex)

/-! ## Live pin sets -/

/-- What a live pin set has on disk, and what it has confirmed. -/
structure LivePins where
  holder : String
  inode : Nat
  listed : List Blake3Digest
  confirmed : List Blake3Digest

/-- The pins of a task before its teardown. A digest being added is not yet listed. -/
def Task.live : Task → Option LivePins
  | .holding _ .removingList => none
  | .holding _ .removingLock => none
  | .holding _ .releasing => none
  | .holding set (.staging _ _) =>
    some ⟨set.holder, set.inode, set.digests.dropLast, set.confirmed⟩
  | .holding set (.renaming _ _) =>
    some ⟨set.holder, set.inode, set.digests.dropLast, set.confirmed⟩
  | .holding set _ => some ⟨set.holder, set.inode, set.digests, set.confirmed⟩
  | _ => none

/-- All live pin sets with something on disk are `P`. -/
def CacheState.AllListed (s : CacheState) (P : LivePins → Prop) : Prop :=
  ∀ t pins, (s.tasks t).live = some pins → pins.listed ≠ [] → P pins

/-! ## Ownership -/

def PinActivity.owns : PinActivity → List Hold
  | .staging _ eviction => [evictionHold eviction .shared]
  | .renaming _ eviction => [evictionHold eviction .shared]
  | .looking _ eviction => [evictionHold eviction .shared]
  | .returning _ eviction _ => [evictionHold eviction .shared]
  | _ => []

def EvictActivity.owns : EvictActivity → List Hold
  | .removingList holder inode _ => [pinHold holder inode]
  | .removingLock holder inode _ => [pinHold holder inode]
  | _ => []

/-- The locks that passed their check and whose path the task has not unlinked. -/
def Task.owns : Task → List Hold
  | .holding _ .releasing => []
  | .holding set activity => pinHold set.holder set.inode :: activity.owns
  | .evicting _ _ (.locking _) => []
  | .evicting _ eviction activity => evictionHold eviction .exclusive :: activity.owns
  | _ => []

/-- The lock call of a task is on the right path. -/
def Task.CallRight : Task → Prop
  | .pinning holder call => call.path = .pin holder ∧ call.mode = .exclusive
  | .holding _ (.locking _ call) => call.path = .eviction ∧ call.mode = .shared
  | .evicting _ _ (.locking call) => call.path = .eviction ∧ call.mode = .exclusive
  | .evicting _ _ (.probing holder call _) => call.path = .pin holder ∧ call.mode = .exclusive
  | _ => True

theorem owns_holds {task : Task} {hold : Hold} (owned : hold ∈ task.owns) : hold ∈ task.holds := by
  cases task with
  | idle => cases owned
  | pinning => cases owned
  | holding set activity =>
    cases activity <;> simp_all [Task.owns, Task.holds, PinActivity.owns, PinActivity.holds]
  | evicting job eviction activity =>
    cases activity <;> simp_all [Task.owns, Task.holds, EvictActivity.owns, EvictActivity.probes]

/-- The digest an `add` works on is on its list. -/
def Task.AddRight : Task → Prop
  | .holding set (.staging digest _) => digest ∈ set.digests
  | .holding set (.renaming digest _) => digest ∈ set.digests
  | .holding set (.looking digest _) => digest ∈ set.digests
  | .holding set (.returning digest _ ok) => ok = true → digest ∈ set.digests
  | _ => True

/-! ## What a move does -/

theorem lockCall_cases {task : Task} {call : LockCall} {resume : LockOutcome → Task}
    (program : task.lockCall = some (call, resume)) :
    (∃ holder, task = .pinning holder call ∧ resume = afterPinLock holder) ∨
    (∃ set digest, task = .holding set (.locking digest call) ∧ resume = afterAddLock set digest) ∨
    (∃ job eviction, task = .evicting job eviction (.locking call) ∧
      resume = afterEvictionLock job eviction) ∨
    ∃ job eviction holder scan, task = .evicting job eviction (.probing holder call scan) ∧
      resume = afterProbe job eviction holder scan := by
  unfold Task.lockCall at program
  split at program
  · cases program
    exact .inl ⟨_, rfl, rfl⟩
  · cases program
    exact .inr (.inl ⟨_, _, rfl, rfl⟩)
  · cases program
    exact .inr (.inr (.inl ⟨_, _, rfl, rfl⟩))
  · cases program
    exact .inr (.inr (.inr ⟨_, _, _, _, rfl, rfl⟩))
  · cases program

section Move

variable {s : CacheState} {t : Nat} {task task' : Task} {files : CacheFiles}

theorem callRight_move (move : Move s t task task' files) (right : task.CallRight) :
    task'.CallRight := by
  cases move with
  | @lock _ call _ _ _ outcome program _ stepped =>
    have moves := LockCall.moves stepped
    obtain ⟨holder, rfl, rfl⟩ | ⟨set, digest, rfl, rfl⟩ | ⟨job, eviction, rfl, rfl⟩ |
      ⟨job, eviction, holder, scan, rfl, rfl⟩ := lockCall_cases program
    · cases outcome with
      | pending next =>
        obtain ⟨path, mode, -⟩ := moves.same next rfl
        exact ⟨path.trans right.1, mode.trans right.2⟩
      | _ => trivial
    · cases outcome with
      | pending next =>
        obtain ⟨path, mode, -⟩ := moves.same next rfl
        exact ⟨path.trans right.1, mode.trans right.2⟩
      | acquired inode =>
        rw [afterAddLock]
        split_ifs <;> trivial
      | _ => trivial
    · cases outcome with
      | pending next =>
        obtain ⟨path, mode, -⟩ := moves.same next rfl
        exact ⟨path.trans right.1, mode.trans right.2⟩
      | _ => trivial
    · cases outcome with
      | pending next =>
        obtain ⟨path, mode, -⟩ := moves.same next rfl
        exact ⟨path.trans right.1, mode.trans right.2⟩
      | _ => trivial
  | _ => simp [Task.CallRight, pinLockCall, evictionLockCall]

/-- A task that goes on after a lock call holds what it held besides the call, and what
the call has come to. -/
theorem holds_resume {call : LockCall} {resume : LockOutcome → Task}
    (program : task.lockCall = some (call, resume)) (right : task.CallRight) (outcome : LockOutcome) :
    ∀ hold ∈ (resume outcome).holds, hold ∈ task.holds ∨ hold ∈ outcome.holds call := by
  intro hold mem
  obtain ⟨holder, rfl, rfl⟩ | ⟨set, digest, rfl, rfl⟩ | ⟨job, eviction, rfl, rfl⟩ |
    ⟨job, eviction, holder, scan, rfl, rfl⟩ := lockCall_cases program
  · have own : ∀ inode, call.hold inode = pinHold holder inode := fun inode => by
      rw [LockCall.hold, right.1, right.2]
      rfl
    cases outcome with
    | pending next => exact .inr mem
    | acquired inode =>
      refine .inr ?_
      rw [LockOutcome.holds, own]
      exact mem
    | contended => cases mem
    | failed => cases mem
  · have own : ∀ inode, call.hold inode = evictionHold inode .shared := fun inode => by
      rw [LockCall.hold, right.1, right.2]
      rfl
    cases outcome with
    | pending next =>
      rcases List.mem_cons.mp mem with rfl | mem
      · exact .inl List.mem_cons_self
      · exact .inr mem
    | acquired inode =>
      rw [LockOutcome.holds, own]
      rw [afterAddLock] at mem
      split_ifs at mem
      · rcases List.mem_cons.mp mem with rfl | mem
        · exact .inl List.mem_cons_self
        · exact .inr mem
      · rcases List.mem_cons.mp mem with rfl | mem
        · exact .inl List.mem_cons_self
        · exact .inr mem
    | contended => exact .inl (List.mem_cons.mpr (.inl (List.mem_singleton.mp mem)))
    | failed => exact .inl (List.mem_cons.mpr (.inl (List.mem_singleton.mp mem)))
  · have own : ∀ inode, call.hold inode = evictionHold inode .exclusive := fun inode => by
      rw [LockCall.hold, right.1, right.2]
      rfl
    cases outcome with
    | pending next => exact .inr mem
    | acquired inode =>
      refine .inr ?_
      rw [LockOutcome.holds, own]
      exact mem
    | contended => cases mem
    | failed => cases mem
  · have own : ∀ inode, call.hold inode = pinHold holder inode := fun inode => by
      rw [LockCall.hold, right.1, right.2]
      rfl
    cases outcome with
    | pending next =>
      rcases List.mem_cons.mp mem with rfl | mem
      · exact .inl List.mem_cons_self
      · exact .inr mem
    | acquired inode =>
      rcases List.mem_cons.mp mem with rfl | mem
      · exact .inl List.mem_cons_self
      · refine .inr ?_
        rw [LockOutcome.holds, own]
        exact mem
    | contended => exact .inl (List.mem_cons.mpr (.inl (List.mem_singleton.mp mem)))
    | failed => exact .inl (List.mem_cons.mpr (.inl (List.mem_singleton.mp mem)))

theorem call_holds {call : LockCall} {resume : LockOutcome → Task}
    (program : task.lockCall = some (call, resume)) : ∀ hold ∈ call.holds, hold ∈ task.holds := by
  intro hold mem
  obtain ⟨holder, rfl, rfl⟩ | ⟨set, digest, rfl, rfl⟩ | ⟨job, eviction, rfl, rfl⟩ |
    ⟨job, eviction, holder, scan, rfl, rfl⟩ := lockCall_cases program
  · exact mem
  · exact List.mem_cons_of_mem _ mem
  · exact mem
  · exact List.mem_cons_of_mem _ mem

/-- A task takes a lock only where nothing blocks it. -/
theorem holds_move (move : Move s t task task' files) (right : task.CallRight) :
    ∀ hold ∈ task'.holds, hold ∈ task.holds ∨ ¬ s.Blocks hold := by
  cases move with
  | @lock _ call _ blocked _ outcome program free stepped =>
    intro hold mem
    have moves := LockCall.moves stepped
    rcases holds_resume program right outcome hold mem with kept | mem
    · exact .inl kept
    rcases moves.locked hold mem with kept | ⟨unblocked, inode, stage, rfl⟩
    · exact .inl (call_holds program hold kept)
    · refine .inr fun blocks => ?_
      rw [(free inode stage).mpr blocks] at unblocked
      cases unblocked
  | _ =>
    intro hold mem
    refine .inl ?_
    simp_all [Task.holds, PinActivity.holds, EvictActivity.probes, LockCall.holds, pinLockCall,
      evictionLockCall]

/-- What a task owns behind a move, it owned before or has just checked. -/
theorem owns_move (move : Move s t task task' files) (right : task.CallRight) :
    ∀ hold ∈ task'.owns, hold ∈ task.owns ∨ s.files.locks.inode hold.path = some hold.inode := by
  cases move with
  | @lock _ call _ _ _ outcome program _ stepped =>
    intro hold mem
    have moves := LockCall.moves stepped
    obtain ⟨holder, rfl, rfl⟩ | ⟨set, digest, rfl, rfl⟩ | ⟨job, eviction, rfl, rfl⟩ |
      ⟨job, eviction, holder, scan, rfl, rfl⟩ := lockCall_cases program
    · cases outcome with
      | acquired inode =>
        obtain ⟨named, -⟩ := moves.acquired inode rfl
        rw [right.1] at named
        obtain rfl := List.mem_singleton.mp mem
        exact .inr named
      | _ => cases mem
    · cases outcome with
      | acquired inode =>
        obtain ⟨named, -⟩ := moves.acquired inode rfl
        rw [right.1] at named
        have cases_ : hold = pinHold set.holder set.inode ∨ hold = evictionHold inode .shared := by
          rw [afterAddLock] at mem
          split_ifs at mem <;> simpa [Task.owns, PinActivity.owns] using mem
        rcases cases_ with rfl | rfl
        · exact .inl List.mem_cons_self
        · exact .inr named
      | _ => exact .inl mem
    · cases outcome with
      | acquired inode =>
        obtain ⟨named, -⟩ := moves.acquired inode rfl
        rw [right.1] at named
        obtain rfl := List.mem_singleton.mp mem
        exact .inr named
      | _ => cases mem
    · cases outcome with
      | acquired inode =>
        obtain ⟨named, -⟩ := moves.acquired inode rfl
        rw [right.1] at named
        rcases List.mem_cons.mp mem with rfl | mem
        · exact .inl List.mem_cons_self
        · obtain rfl := List.mem_singleton.mp mem
          exact .inr named
      | _ => exact .inl mem
  | _ =>
    intro hold mem
    refine .inl ?_
    simp_all [Task.owns, PinActivity.owns, EvictActivity.owns]

/-- A path that names a file keeps it unless its owner unlinks it. -/
theorem locks_move (move : Move s t task task' files) (path : LockPath) :
    files.locks.inode path = s.files.locks.inode path ∨ s.files.locks.inode path = none ∨
      ∃ holder inode, path = .pin holder ∧ pinHold holder inode ∈ task.owns ∧
        ∀ hold ∈ task'.owns, hold.path ≠ path := by
  cases move with
  | @lock _ call _ _ _ outcome program _ stepped =>
    rcases (LockCall.moves stepped).created with same | ⟨unnamed, created⟩
    · exact .inl (by rw [same])
    · by_cases here : path = call.path
      · exact .inr (.inl (by rw [here, unnamed]))
      · refine .inl ?_
        rw [created]
        exact Function.update_of_ne here _ _
  | @tearLock set =>
    by_cases here : path = .pin set.holder
    · refine .inr (.inr ⟨set.holder, set.inode, here, List.mem_cons_self, fun hold mem => ?_⟩)
      cases mem
    · exact .inl (Function.update_of_ne here _ _)
  | @cleanLock job eviction holder inode scan =>
    by_cases here : path = .pin holder
    · refine .inr (.inr ⟨holder, inode, here, List.mem_cons_of_mem _ (List.mem_singleton_self _),
        fun hold mem => ?_⟩)
      obtain rfl := List.mem_singleton.mp mem
      rw [here]
      exact nofun
    · exact .inl (Function.update_of_ne here _ _)
  | _ => exact .inl rfl

/-- A pin list is changed by the owner of its holder's lock, or it is an orphan. -/
theorem lists_move (move : Move s t task task' files) (holder : String) :
    files.pinLists holder = s.files.pinLists holder ∨
      (∃ inode, pinHold holder inode ∈ task.owns) ∨
      ∃ job eviction lists pinned,
        task = .evicting job eviction (.removingOrphan holder lists pinned) := by
  have elsewhere : ∀ (other : String) (lines : Option (List String)), holder ≠ other →
      (s.files.setPinList other lines).pinLists holder = s.files.pinLists holder :=
    fun other lines different => Function.update_of_ne different _ _
  cases move with
  | @rename set digest eviction lines _ =>
    by_cases here : holder = set.holder
    · exact .inr (.inl ⟨set.inode, by rw [here]; exact List.mem_cons_self⟩)
    · exact .inl (Function.update_of_ne here _ _)
  | @tearList set =>
    by_cases here : holder = set.holder
    · exact .inr (.inl ⟨set.inode, by rw [here]; exact List.mem_cons_self⟩)
    · exact .inl (elsewhere _ _ here)
  | @cleanList job eviction other inode scan =>
    by_cases here : holder = other
    · refine .inr (.inl ⟨inode, ?_⟩)
      rw [here]
      exact List.mem_cons_of_mem _ (List.mem_singleton_self _)
    · exact .inl (elsewhere _ _ here)
  | @cleanOrphan job eviction other lists pinned =>
    by_cases here : holder = other
    · exact .inr (.inr ⟨job, eviction, lists, pinned, by rw [here]⟩)
    · exact .inl (elsewhere _ _ here)
  | _ => exact .inl rfl

/-- The listed pins of a live set change only while it holds the eviction lock. -/
theorem live_move (move : Move s t task task' files) {pins : LivePins}
    (live : task'.live = some pins) : pins.listed = [] ∨
      (∃ before, task.live = some before ∧ before.holder = pins.holder ∧
        before.inode = pins.inode ∧ before.listed = pins.listed) ∨
      ∃ eviction, evictionHold eviction .shared ∈ task.owns := by
  cases move with
  | @lock _ call _ _ _ outcome program _ stepped =>
    obtain ⟨holder, rfl, rfl⟩ | ⟨set, digest, rfl, rfl⟩ | ⟨job, eviction, rfl, rfl⟩ |
      ⟨job, eviction, holder, scan, rfl, rfl⟩ := lockCall_cases program
    · cases outcome with
      | acquired inode =>
        cases live
        exact .inl rfl
      | _ => cases live
    · refine .inr (.inl ⟨_, rfl, ?_⟩)
      cases outcome with
      | acquired inode =>
        rw [afterAddLock] at live
        split_ifs at live
        · cases live
          exact ⟨rfl, rfl, rfl⟩
        · cases live
          exact ⟨rfl, rfl, List.dropLast_concat.symm⟩
      | _ =>
        cases live
        exact ⟨rfl, rfl, rfl⟩
    · cases outcome <;> cases live
    · cases outcome <;> cases live
  | rename => exact .inr (.inr ⟨_, List.mem_cons_of_mem _ (List.mem_singleton_self _)⟩)
  | _ => first
    | cases live; exact .inr (.inl ⟨_, rfl, rfl, rfl, rfl⟩)
    | cases live

theorem addRight_move (move : Move s t task task' files) (adding : task.AddRight) :
    task'.AddRight := by
  cases move with
  | @lock _ call _ _ _ outcome program _ stepped =>
    obtain ⟨holder, rfl, rfl⟩ | ⟨set, digest, rfl, rfl⟩ | ⟨job, eviction, rfl, rfl⟩ |
      ⟨job, eviction, holder, scan, rfl, rfl⟩ := lockCall_cases program
    · cases outcome <;> trivial
    · cases outcome with
      | acquired inode =>
        rw [afterAddLock]
        split_ifs with known
        · exact known
        · exact List.mem_append_right _ (List.mem_singleton_self _)
      | _ => trivial
    · cases outcome <;> trivial
    · cases outcome <;> trivial
  | stage => exact adding
  | rename => exact adding
  | renameFails => exact nofun
  | look => exact fun _ => adding
  | _ => trivial

/-- What a set has confirmed is on its list. -/
theorem confirmed_move (move : Move s t task task' files) (adding : task.AddRight)
    (confirmed : ∀ pins, task.live = some pins → pins.confirmed ⊆ pins.listed) :
    ∀ pins, task'.live = some pins → pins.confirmed ⊆ pins.listed := by
  intro pins live
  cases move with
  | @lock _ call _ _ _ outcome program _ stepped =>
    obtain ⟨holder, rfl, rfl⟩ | ⟨set, digest, rfl, rfl⟩ | ⟨job, eviction, rfl, rfl⟩ |
      ⟨job, eviction, holder, scan, rfl, rfl⟩ := lockCall_cases program
    · cases outcome with
      | acquired inode =>
        cases live
        exact List.nil_subset _
      | _ => cases live
    · have before : set.confirmed ⊆ set.digests := confirmed _ rfl
      cases outcome with
      | acquired inode =>
        rw [afterAddLock] at live
        split_ifs at live
        · cases live
          exact before
        · cases live
          show set.confirmed ⊆ (set.digests ++ [digest]).dropLast
          rwa [List.dropLast_concat]
      | _ =>
        cases live
        exact before
    · cases outcome <;> cases live
    · cases outcome <;> cases live
  | @rename set digest eviction lines _ =>
    cases live
    have before : set.confirmed ⊆ set.digests.dropLast := confirmed _ rfl
    exact List.Subset.trans before (List.dropLast_subset _)
  | @added set digest eviction ok =>
    cases live
    have before : set.confirmed ⊆ set.digests := confirmed _ rfl
    show (if ok then digest :: set.confirmed else set.confirmed) ⊆ set.digests
    split_ifs with isOk
    · exact List.cons_subset.mpr ⟨adding isOk, before⟩
    · exact before
  | _ => first
    | cases live; exact confirmed _ rfl
    | cases live

/-- The list a task has staged is the one of its digests. -/
def Task.StagedRight (task : Task) (staged : Option (List String)) : Prop :=
  ∀ set digest eviction lines, task = .holding set (.renaming digest eviction) →
    staged = some lines → lines = pinListLines set.digests

theorem pending_move (move : Move s t task task' files) {u : Nat} (other : u ≠ t) :
    files.pending u = s.files.pending u ∨ files.pending u = none := by
  cases move with
  | stage => exact .inl (Function.update_of_ne other _ _)
  | rename => exact .inl (Function.update_of_ne other _ _)
  | @prune maxBytes eviction pinned v =>
    by_cases here : u = v
    · refine .inr ?_
      rw [here]
      exact Function.update_self _ _ _
    · exact .inl (Function.update_of_ne here _ _)
  | _ => exact .inl rfl

theorem staged_move (move : Move s t task task' files) : task'.StagedRight (files.pending t) := by
  intro set digest eviction lines isRenaming staged
  cases move with
  | @lock _ call _ _ _ outcome program _ stepped =>
    obtain ⟨holder, rfl, rfl⟩ | ⟨set, digest, rfl, rfl⟩ | ⟨job, eviction, rfl, rfl⟩ |
      ⟨job, eviction, holder, scan, rfl, rfl⟩ := lockCall_cases program
    · cases outcome <;> cases isRenaming
    · cases outcome with
      | acquired inode =>
        rw [afterAddLock] at isRenaming
        split_ifs at isRenaming <;> cases isRenaming
      | _ => cases isRenaming
    · cases outcome <;> cases isRenaming
    · cases outcome <;> cases isRenaming
  | stage =>
    cases isRenaming
    have here := Function.update_self t (some (pinListLines set.digests)) s.files.pending
    exact (Option.some.inj (here.symm.trans staged)).symm
  | _ => cases isRenaming

/-- What a live set has listed is what its pin list on disk says. -/
theorem listed_move (move : Move s t task task' files) (right : task.StagedRight (s.files.pending t))
    (listed : ∀ pins, task.live = some pins → pins.listed ≠ [] →
      s.files.pinLists pins.holder = some (pinListLines pins.listed)) :
    ∀ pins, task'.live = some pins → pins.listed ≠ [] →
      files.pinLists pins.holder = some (pinListLines pins.listed) := by
  intro pins live some_
  cases move with
  | @lock _ call _ _ _ outcome program _ stepped =>
    obtain ⟨holder, rfl, rfl⟩ | ⟨set, digest, rfl, rfl⟩ | ⟨job, eviction, rfl, rfl⟩ |
      ⟨job, eviction, holder, scan, rfl, rfl⟩ := lockCall_cases program
    · cases outcome with
      | acquired inode =>
        cases live
        exact absurd rfl some_
      | _ => cases live
    · have before := listed _ rfl
      cases outcome with
      | acquired inode =>
        rw [afterAddLock] at live
        split_ifs at live
        · cases live
          exact before some_
        · cases live
          have same : (set.digests ++ [digest]).dropLast = set.digests := List.dropLast_concat
          dsimp only at some_ ⊢
          rw [same] at some_ ⊢
          exact before some_
      | _ =>
        cases live
        exact before some_
    · cases outcome <;> cases live
    · cases outcome <;> cases live
  | @rename set digest eviction lines staged =>
    cases live
    rw [right set digest eviction lines rfl staged]
    exact Function.update_self _ _ _
  | @added set digest eviction ok =>
    cases live
    exact listed ⟨set.holder, set.inode, set.digests, set.confirmed⟩ rfl some_
  | _ => first
    | cases live; exact listed _ rfl some_
    | cases live

end Move

/-! ## What an eviction heeds -/

def PinScan.Heeds (scan : PinScan) (pins : LivePins) : Prop :=
  pins.holder ∈ scan.locks ∨ pins.listed ⊆ scan.pinned

/-- An eviction has the listed pins of a live set among its pins, or has still to come
to the lock file of its holder. -/
def EvictActivity.Heeds : EvictActivity → LivePins → Prop
  | .locking _, _ => True
  | .opening, _ => True
  | .listing seen, pins => seen (.pin pins.holder) = some pins.inode
  | .visiting scan, pins => scan.Heeds pins
  | .probing holder _ scan, pins => pins.holder = holder ∨ scan.Heeds pins
  | .reading holder scan, pins => pins.holder = holder ∨ scan.Heeds pins
  | .removingList holder _ scan, pins => pins.holder ≠ holder ∧ scan.Heeds pins
  | .removingLock _ _ scan, pins => scan.Heeds pins
  | .releasing _ _ scan, pins => scan.Heeds pins
  | .orphans _ pinned, pins => pins.listed ⊆ pinned
  | .removingOrphan holder _ pinned, pins => pins.holder ≠ holder ∧ pins.listed ⊆ pinned
  | .pruning pinned, pins => pins.listed ⊆ pinned
  | .removing _ _ pinned, pins => pins.listed ⊆ pinned
  | .closing, _ => True

def Task.Heeds : Task → LivePins → Prop
  | .evicting _ _ activity, pins => activity.Heeds pins
  | _, _ => True

theorem live_owns {task : Task} {pins : LivePins} (live : task.live = some pins) :
    pinHold pins.holder pins.inode ∈ task.owns := by
  cases task with
  | holding set activity =>
    cases activity with
    | removingList => cases live
    | removingLock => cases live
    | releasing => cases live
    | _ =>
      cases live
      exact List.mem_cons_self
  | _ => cases live

/-- A task with live pins is no eviction. -/
theorem live_heeds {task : Task} {pins : LivePins} (live : task.live = some pins)
    (others : LivePins) : task.Heeds others := by
  cases task with
  | evicting => cases live
  | _ => trivial

/-- An eviction that heeds anything at all has the eviction lock. -/
theorem heeds_or_owns (task : Task) :
    (∀ pins, task.Heeds pins) ∨ ∃ eviction, evictionHold eviction .exclusive ∈ task.owns := by
  cases task with
  | evicting job eviction activity =>
    cases activity with
    | locking call => exact .inl fun _ => trivial
    | _ => exact .inr ⟨eviction, List.mem_cons_self⟩
  | _ => exact .inl fun _ => trivial

theorem heeds_congr {task : Task} {pins before : LivePins} (holder : before.holder = pins.holder)
    (inode : before.inode = pins.inode) (listed : before.listed = pins.listed)
    (heeds : task.Heeds before) : task.Heeds pins := by
  cases task with
  | evicting job eviction activity =>
    cases activity <;> simp_all [Task.Heeds, EvictActivity.Heeds, PinScan.Heeds]
  | _ => trivial

/-- Reading a pin list gives back the digests it was written from. -/
theorem readPinList_pinListLines (digests : List Blake3Digest) :
    readPinList (some (pinListLines digests)) = digests := by
  rw [readPinList, pinListLines, Option.getD_some, List.filterMap_map]
  have back : (parseBlake3Hex ∘ blake3Hex) = some := by
    funext digest
    exact Exec.parseBlake3Hex_blake3Hex digest
  rw [back, List.filterMap_some]

/-- An eviction goes on heeding a set whose lock file is in place, whose list is on
disk and whose lock it has not taken. -/
theorem heeds_move {s : CacheState} {t : Nat} {task task' : Task} {files : CacheFiles}
    {pins : LivePins} (move : Move s t task task' files) (right : task.CallRight)
    (named : s.files.locks.inode (.pin pins.holder) = some pins.inode)
    (onDisk : s.files.pinLists pins.holder = some (pinListLines pins.listed))
    (apart : pinHold pins.holder pins.inode ∉ task.holds) (heeds : task.Heeds pins) :
    task'.Heeds pins := by
  cases move with
  | @lock _ call _ _ _ outcome program _ stepped =>
    have moves := LockCall.moves stepped
    obtain ⟨holder, rfl, rfl⟩ | ⟨set, digest, rfl, rfl⟩ | ⟨job, eviction, rfl, rfl⟩ |
      ⟨job, eviction, holder, scan, rfl, rfl⟩ := lockCall_cases program
    · cases outcome <;> trivial
    · cases outcome with
      | acquired inode =>
        rw [afterAddLock]
        split_ifs <;> trivial
      | _ => trivial
    · cases outcome <;> trivial
    · cases outcome with
      | pending next => exact heeds
      | acquired inode =>
        -- The lock was free, so it is not the one of this set.
        have other : pins.holder ≠ holder := by
          intro same
          obtain ⟨here, held⟩ := moves.acquired inode rfl
          rw [right.1, ← same, named] at here
          cases here
          refine apart (List.mem_cons_of_mem _ ?_)
          have own : call.hold pins.inode = pinHold pins.holder pins.inode := by
            rw [LockCall.hold, right.1, right.2, same]
            rfl
          rwa [own] at held
        exact ⟨other, heeds.resolve_left other⟩
      | contended => exact heeds
      | failed => trivial
  | openPins => exact named
  | @listPins job eviction seen locks lists listing => exact .inl (listing _ _ heeds named)
  | @visit job eviction holder locks lists pinned =>
    rcases heeds with mem | known
    · rcases List.mem_cons.mp mem with here | later
      · exact .inl here
      · exact .inr (.inl later)
    · exact .inr (.inr known)
  | @read job eviction holder scan =>
    rcases heeds with here | mem | known
    · refine .inr ?_
      rw [← here, onDisk, readPinList_pinListLines]
      exact List.subset_append_right _ _
    · exact .inl mem
    · exact .inr (List.Subset.trans known (List.subset_append_left _ _))
  | cleanList => exact heeds.2
  | @visited job eviction lists pinned => exact heeds.resolve_left List.not_mem_nil
  | @orphan job eviction holder lists pinned unlocked =>
    refine ⟨fun same => ?_, heeds⟩
    rw [← same, named] at unlocked
    cases unlocked
  | cleanOrphan => exact heeds.2
  | _ => first
    | exact heeds
    | trivial

/-- Where a task removes a blob, it is an eviction that does not know it as pinned. -/
theorem blobs_move {s : CacheState} {t : Nat} {task task' : Task} {files : CacheFiles}
    {digest : Blake3Digest} (move : Move s t task task' files) (stored : s.files.blobs digest = true) :
    files.blobs digest = true ∨ ∀ pins, task.Heeds pins → digest ∉ pins.listed := by
  cases move with
  | @removeBlob maxBytes eviction blob blobs total pinned _ unpinned =>
    by_cases here : digest = blob.digest
    · refine .inr fun pins heeds mem => unpinned ?_
      rw [← here]
      exact heeds mem
    · refine .inl ?_
      rw [← stored]
      exact Function.update_of_ne here _ _
  | @removeOne removed eviction pinned unpinned =>
    by_cases here : digest = removed
    · refine .inr fun pins heeds mem => unpinned ?_
      rw [← here]
      exact heeds mem
    · refine .inl ?_
      rw [← stored]
      exact Function.update_of_ne here _ _
  | _ => exact .inl stored

end Svp.Cache
