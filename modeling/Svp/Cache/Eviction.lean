import Svp.Cache.PinRegistry

/-!
# One eviction

`evict` is `CasStore::evict` with the answers of the file system as its input: the
lock, the live pins, the pending files, the listing of the blobs and what each
removal does. Totals are counted in 64 bits.

1. `evictLoop_looked`: the loop stops at the first blob before which the total fits,
   and removes the unpinned ones it came to.
2. `evict_minimalLru`: an eviction whose removals all succeed removes the shortest
   run of the oldest unpinned blobs that suffices, and its report is exact, while the
   sizes add up in 64 bits; `evict_wraps`: otherwise it may remove nothing.
3. `evictLoop_leads`: the steps of a task of the shared cache that has the cache to
   itself are those of the loop.
-/

namespace Svp.Cache

open Exec (Blake3Digest)

/-! ## The program -/

inductive CacheErrorCode
  | unavailable
  | permissionDenied
  | noSpace
  | ioError
  | notFound
  | corrupt
  | busy
  | invalidArgument
deriving DecidableEq

structure CacheError where
  code : CacheErrorCode
  message : String

/-- An error code of the system: the class `cache_error_code_for` puts it in, and its text. -/
structure SystemError where
  code : CacheErrorCode
  message : String

def cacheError (error : SystemError) (context : String) : CacheError where
  code := error.code
  message := context ++ ": " ++ error.message

/-- What `lock_file` returns when it does not wait. -/
inductive LockAttempt
  | acquired
  | contended
  | failed (error : SystemError)

/-- A file in `pending/`; its time is none when it cannot be read. -/
structure PendingFile where
  written : Option Int
  isRegularFile : Bool
  /-- Whether `remove` deletes it. -/
  removable : Bool

/-- What the file system answers. `fs::remove` succeeds on the blobs `removes` says. -/
structure EvictionHost where
  lock : LockAttempt
  livePins : Except SystemError (List Blake3Digest)
  now : Int
  pending : List PendingFile
  blobs : Except SystemError (List CasBlobEntry)
  removes : CasBlobEntry → Bool

structure CachePolicy where
  maxBytes : Nat := 50 * 1024 * 1024 * 1024
  stalePendingAge : Int := 24 * 3600 * 10 ^ 9

structure EvictionReport where
  evictedBlobs : Nat := 0
  evictedBytes : Nat := 0
  pinnedBlobsKept : Nat := 0
  stalePendingRemoved : Nat := 0
  remainingBytes : Nat := 0
deriving DecidableEq

/-- Sums and differences of 64-bit byte counts. -/
def addBytes (a b : Nat) : Nat := (a + b) % 2 ^ 64

def subtractBytes (a b : Nat) : Nat := (a + (2 ^ 64 - b % 2 ^ 64)) % 2 ^ 64

/-- The file is one that `remove_stale_pending` deletes. -/
def PendingFile.stale (now staleAge : Int) (file : PendingFile) : Bool :=
  match file.written with
  | none => false
  | some written => file.isRegularFile && decide (staleAge ≤ now - written)

def removeStalePending (pending : List PendingFile) (now staleAge : Int) : Nat :=
  pending.countP fun file => file.stale now staleAge && file.removable

/-- The pruning on its way: the running total, the report and the blobs removed. -/
structure Pruning where
  total : Nat
  report : EvictionReport
  removed : List CasBlobEntry := []

/-- A pinned blob is kept. -/
def Pruning.keep (s : Pruning) : Pruning :=
  { s with report := { s.report with pinnedBlobsKept := s.report.pinnedBlobsKept + 1 } }

/-- A blob has been removed. -/
def Pruning.take (s : Pruning) (blob : CasBlobEntry) : Pruning where
  total := subtractBytes s.total blob.bytes
  report :=
    { s.report with
      evictedBlobs := s.report.evictedBlobs + 1
      evictedBytes := addBytes s.report.evictedBytes blob.bytes }
  removed := s.removed ++ [blob]

/-- The loop over the blobs, oldest first. -/
def evictLoop (maxBytes : Nat) (pinned : List Blake3Digest) (removes : CasBlobEntry → Bool) :
    List CasBlobEntry → Pruning → Pruning
  | [], s => s
  | blob :: rest, s =>
    if s.total ≤ maxBytes then s
    else if blob.digest ∈ pinned then evictLoop maxBytes pinned removes rest s.keep
    else if removes blob then evictLoop maxBytes pinned removes rest (s.take blob)
    else evictLoop maxBytes pinned removes rest s

/-- `CasStore::evict`, with the blobs it removed beside its report. -/
def evict (policy : CachePolicy) (host : EvictionHost) :
    Except CacheError (EvictionReport × List CasBlobEntry) :=
  match host.lock with
  | .contended => .error ⟨.busy, "cache eviction already running"⟩
  | .failed error => .error (cacheError error "cache eviction lock")
  | .acquired =>
    match host.livePins with
    | .error error => .error (cacheError error "cache eviction: read pins")
    | .ok pinned =>
      let report : EvictionReport :=
        { stalePendingRemoved :=
            removeStalePending host.pending host.now policy.stalePendingAge }
      match host.blobs with
      | .error error => .error (cacheError error "cache eviction: list blobs")
      | .ok blobs =>
        let total := blobs.foldl (fun total blob => addBytes total blob.bytes) 0
        let s := evictLoop policy.maxBytes pinned host.removes (oldestFirst blobs) { total, report }
        .ok ({ s.report with remainingBytes := s.total }, s.removed)

/-! ## What an eviction is for -/

def unpinned (pinned : List Blake3Digest) (blobs : List CasBlobEntry) : List CasBlobEntry :=
  blobs.filter fun blob => blob.digest ∉ pinned

/-- One blob comes before another, or is as old and has the same digest. -/
def CasBlobEntry.Before (left right : CasBlobEntry) : Prop :=
  left.lastUsed < right.lastUsed ∨
    left.lastUsed = right.lastUsed ∧ left.digest.bytes ≤ right.digest.bytes

/-- The blobs removed are the shortest run of the oldest unpinned ones that brings the
stored bytes to the limit, or all of them; the report is about them. -/
structure MinimalLru (policy : CachePolicy) (host : EvictionHost) (pinned : List Blake3Digest)
    (stored removed : List CasBlobEntry) (report : EvictionReport) : Prop where
  /-- They stand first among the unpinned blobs, in order of use. -/
  oldest : ∃ spared, (removed ++ spared).Perm (unpinned pinned stored) ∧
    (removed ++ spared).Pairwise CasBlobEntry.Before ∧
    (spared = [] ∨ totalBytes stored ≤ policy.maxBytes + totalBytes removed)
  shortest : ∀ shorter blob more, removed = shorter ++ blob :: more →
    policy.maxBytes + totalBytes shorter < totalBytes stored
  pinnedStay : ∀ blob ∈ removed, blob.digest ∉ pinned
  evictedBlobs : report.evictedBlobs = removed.length
  evictedBytes : report.evictedBytes = totalBytes removed
  remainingBytes : report.remainingBytes + totalBytes removed = totalBytes stored
  /-- The pinned blobs counted are those it would otherwise have come to remove. -/
  pinnedBlobsKept : ∃ looked newer, oldestFirst stored = looked ++ newer ∧
    unpinned pinned looked = removed ∧
    report.pinnedBlobsKept = looked.countP (fun blob => blob.digest ∈ pinned) ∧
    ∀ older blob more, looked = older ++ blob :: more →
      policy.maxBytes + totalBytes (unpinned pinned older) < totalBytes stored
  stalePendingRemoved : report.stalePendingRemoved =
    host.pending.countP fun file =>
      file.stale host.now policy.stalePendingAge && file.removable

/-! ## Totals -/

variable {maxBytes : Nat} {pinned : List Blake3Digest} {removes : CasBlobEntry → Bool}

theorem totalBytes_cons (blob : CasBlobEntry) (blobs : List CasBlobEntry) :
    totalBytes (blob :: blobs) = blob.bytes + totalBytes blobs := rfl

theorem totalBytes_perm {blobs blobs' : List CasBlobEntry} (perm : blobs.Perm blobs') :
    totalBytes blobs = totalBytes blobs' :=
  (perm.map CasBlobEntry.bytes).sum_eq

theorem totalBytes_filter_le (keep : CasBlobEntry → Bool) (blobs : List CasBlobEntry) :
    totalBytes (blobs.filter keep) ≤ totalBytes blobs :=
  (List.filter_sublist.map CasBlobEntry.bytes).sum_le_sum fun _ _ => Nat.zero_le _

theorem addBytes_of_lt {a b : Nat} (fits : a + b < 2 ^ 64) : addBytes a b = a + b :=
  Nat.mod_eq_of_lt fits

theorem subtractBytes_of_le {a b : Nat} (le : b ≤ a) (fits : a < 2 ^ 64) :
    subtractBytes a b = a - b := by
  rw [subtractBytes, Nat.mod_eq_of_lt (le.trans_lt fits)]
  omega

/-- Sizes that add up in 64 bits are added up exactly. -/
theorem foldl_addBytes (blobs : List CasBlobEntry) {total : Nat}
    (fits : total + totalBytes blobs < 2 ^ 64) :
    blobs.foldl (fun total blob => addBytes total blob.bytes) total = total + totalBytes blobs := by
  induction blobs generalizing total with
  | nil => rfl
  | cons blob rest ih =>
    rw [totalBytes_cons, ← add_assoc] at fits ⊢
    rw [List.foldl_cons, addBytes_of_lt (Nat.lt_of_add_right_lt fits)]
    exact ih fits

theorem unpinned_cons_pinned {blob : CasBlobEntry} (isPinned : blob.digest ∈ pinned)
    (rest : List CasBlobEntry) : unpinned pinned (blob :: rest) = unpinned pinned rest :=
  List.filter_cons_of_neg (by simpa using isPinned)

theorem unpinned_cons {blob : CasBlobEntry} (notPinned : blob.digest ∉ pinned)
    (rest : List CasBlobEntry) :
    unpinned pinned (blob :: rest) = blob :: unpinned pinned rest :=
  List.filter_cons_of_pos (by simpa using notPinned)

/-! ## The loop -/

/-- What the loop does from `s` to `s'`: it looks at the blobs `looked` and stops before
`newer`. -/
structure Looked (maxBytes : Nat) (pinned : List Blake3Digest) (s s' : Pruning)
    (looked newer : List CasBlobEntry) : Prop where
  removed : s'.removed = s.removed ++ unpinned pinned looked
  total : s'.total + totalBytes (unpinned pinned looked) = s.total
  /-- Before each blob it looks at, the total is above the limit. -/
  above : ∀ older blob more, looked = older ++ blob :: more →
    maxBytes + totalBytes (unpinned pinned older) < s.total
  stops : newer = [] ∨ s'.total ≤ maxBytes
  report : s'.report =
    { s.report with
      evictedBlobs := s.report.evictedBlobs + (unpinned pinned looked).length
      evictedBytes := s.report.evictedBytes + totalBytes (unpinned pinned looked)
      pinnedBlobsKept := s.report.pinnedBlobsKept + looked.countP (fun blob => blob.digest ∈ pinned) }

/-- Nothing before the first blob is over the limit unless the total is. -/
theorem above_cons {blob : CasBlobEntry} {looked : List CasBlobEntry} {P : List CasBlobEntry → Prop}
    (first : P [])
    (others : ∀ older next more, looked = older ++ next :: more → P (blob :: older)) :
    ∀ older next more, blob :: looked = older ++ next :: more → P older := by
  intro older next more split
  cases older with
  | nil => exact first
  | cons head older =>
    obtain ⟨rfl, rest⟩ := List.cons.inj split
    exact others older next more rest

/-- Where every removal succeeds, the loop removes the unpinned blobs it comes to, and
stops as soon as the total fits. -/
theorem evictLoop_looked (maxBytes : Nat) (removes : CasBlobEntry → Bool)
    (blobs : List CasBlobEntry) (s : Pruning) (succeeds : ∀ blob ∈ blobs, removes blob = true)
    (covers : totalBytes (unpinned pinned blobs) ≤ s.total) (fits : s.total < 2 ^ 64)
    (counts : s.report.evictedBytes + totalBytes (unpinned pinned blobs) < 2 ^ 64) :
    ∃ looked newer, blobs = looked ++ newer ∧
      Looked maxBytes pinned s (evictLoop maxBytes pinned removes blobs s) looked newer := by
  induction blobs generalizing s with
  | nil =>
    refine ⟨[], [], rfl, (List.append_nil _).symm, rfl, fun older _ _ impossible => ?_, .inl rfl, rfl⟩
    cases older <;> cases impossible
  | cons blob rest ih =>
    have succeedsRest : ∀ b ∈ rest, removes b = true := fun b mem =>
      succeeds b (List.mem_cons_of_mem blob mem)
    rw [evictLoop]
    split
    · next enough =>
      refine ⟨[], blob :: rest, rfl, (List.append_nil _).symm, rfl,
        fun older _ _ impossible => ?_, .inr enough, rfl⟩
      cases older <;> cases impossible
    · next tooMuch =>
      have above : maxBytes < s.total := not_le.mp tooMuch
      split
      · next isPinned =>
        rw [unpinned_cons_pinned isPinned] at covers counts
        obtain ⟨looked, newer, rfl, h⟩ := ih s.keep succeedsRest covers fits counts
        have same := unpinned_cons_pinned isPinned looked
        refine ⟨blob :: looked, newer, rfl, ?_, ?_, ?_, h.stops, ?_⟩
        · rw [same]
          exact h.removed
        · rw [same]
          exact h.total
        · refine above_cons above fun older next more split => ?_
          rw [unpinned_cons_pinned isPinned]
          exact h.above older next more split
        · rw [same, h.report, List.countP_cons_of_pos (by simpa using isPinned)]
          simp only [Pruning.keep, EvictionReport.mk.injEq, and_true, true_and]
          omega
      · next notPinned =>
        rw [if_pos (succeeds blob List.mem_cons_self)]
        rw [unpinned_cons notPinned, totalBytes_cons] at covers counts
        have total : (s.take blob).total = s.total - blob.bytes :=
          subtractBytes_of_le (Nat.le_of_add_right_le covers) fits
        have bytes : (s.take blob).report.evictedBytes = s.report.evictedBytes + blob.bytes :=
          addBytes_of_lt (by omega)
        obtain ⟨looked, newer, rfl, h⟩ := ih (s.take blob) succeedsRest (by omega) (by omega) (by omega)
        have more := unpinned_cons notPinned looked
        have left := h.total
        refine ⟨blob :: looked, newer, rfl, ?_, ?_, ?_, h.stops, ?_⟩
        · rw [h.removed, more]
          exact List.append_assoc ..
        · rw [more, totalBytes_cons]
          omega
        · refine above_cons above fun older next more split => ?_
          have before := h.above older next more split
          rw [unpinned_cons notPinned, totalBytes_cons]
          omega
        · rw [more, h.report, List.countP_cons_of_neg (by simpa using notPinned), totalBytes_cons,
            List.length_cons, bytes]
          simp only [Pruning.take, EvictionReport.mk.injEq, and_true]
          omega

/-! ## The order -/

theorem oldestFirst_perm (blobs : List CasBlobEntry) : (oldestFirst blobs).Perm blobs :=
  List.mergeSort_perm blobs _

theorem oldestFirst_sorted (blobs : List CasBlobEntry) :
    (oldestFirst blobs).Pairwise CasBlobEntry.Before := by
  let before := fun left right : CasBlobEntry =>
    decide (left.lastUsed < right.lastUsed ∨
      left.lastUsed = right.lastUsed ∧ left.digest.bytes ≤ right.digest.bytes)
  have sorted : (oldestFirst blobs).Pairwise (before · ·) :=
    List.pairwise_mergeSort ?_ ?_ blobs
  · exact sorted.imp fun before => of_decide_eq_true before
  · intro a b c ab bc
    rw [decide_eq_true_eq] at ab bc ⊢
    rcases ab with older | ⟨same, le⟩
    · rcases bc with older' | ⟨same', -⟩
      · exact .inl (older.trans older')
      · exact .inl (same' ▸ older)
    · rcases bc with older' | ⟨same', le'⟩
      · exact .inl (same ▸ older')
      · exact .inr ⟨same.trans same', List.le_trans le le'⟩
  · intro a b
    rw [Bool.or_eq_true, decide_eq_true_eq, decide_eq_true_eq]
    rcases lt_trichotomy a.lastUsed b.lastUsed with older | same | newer
    · exact .inl (.inl older)
    · exact (List.le_total a.digest.bytes b.digest.bytes).imp (fun le => .inr ⟨same, le⟩)
        fun le => .inr ⟨same.symm, le⟩
    · exact .inr (.inl newer)

theorem oldestFirst_of_sorted {blobs : List CasBlobEntry}
    (sorted : blobs.Pairwise CasBlobEntry.Before) : oldestFirst blobs = blobs := by
  refine List.mergeSort_of_pairwise (sorted.imp ?_)
  intro left right before
  rw [CasBlobEntry.Before] at before
  exact decide_eq_true before

/-! ## The result -/

theorem evict_eq_ok {policy : CachePolicy} {host : EvictionHost} {report : EvictionReport}
    {removed : List CasBlobEntry} (done : evict policy host = .ok (report, removed)) :
    ∃ pinned stored, host.livePins = .ok pinned ∧ host.blobs = .ok stored ∧
      let s := evictLoop policy.maxBytes pinned host.removes (oldestFirst stored)
        { total := stored.foldl (fun total blob => addBytes total blob.bytes) 0
          report :=
            { stalePendingRemoved :=
                removeStalePending host.pending host.now policy.stalePendingAge } }
      report = { s.report with remainingBytes := s.total } ∧ removed = s.removed := by
  unfold evict at done
  cases lock : host.lock with
  | contended => simp [lock] at done
  | failed error => simp [lock] at done
  | acquired =>
    cases pins : host.livePins with
    | error error => simp [lock, pins] at done
    | ok pinned =>
      cases blobs : host.blobs with
      | error error => simp [lock, pins, blobs] at done
      | ok stored =>
        simp only [lock, pins, blobs, Except.ok.injEq, Prod.mk.injEq] at done
        exact ⟨pinned, stored, rfl, rfl, done.1.symm, done.2.symm⟩

/-- An eviction whose removals all succeed is minimal and its report exact, whatever is
stored, as long as the sizes add up in 64 bits. -/
theorem evict_minimalLru (policy : CachePolicy) (host : EvictionHost) (report : EvictionReport)
    (removed : List CasBlobEntry) (done : evict policy host = .ok (report, removed))
    (pinned : List Blake3Digest) (stored : List CasBlobEntry)
    (pins : host.livePins = .ok pinned) (blobs : host.blobs = .ok stored)
    (succeeds : ∀ blob ∈ stored, host.removes blob = true) (fits : totalBytes stored < 2 ^ 64) :
    MinimalLru policy host pinned stored removed report := by
  obtain ⟨pinned', stored', pins', blobs', isReport, isRemoved⟩ := evict_eq_ok done
  obtain rfl : pinned = pinned' := Except.ok.inj (pins.symm.trans pins')
  obtain rfl : stored = stored' := Except.ok.inj (blobs.symm.trans blobs')
  have perm := oldestFirst_perm stored
  have sum := totalBytes_perm perm
  have some_ : totalBytes (unpinned pinned (oldestFirst stored)) ≤ totalBytes stored := by
    rw [← sum]
    exact totalBytes_filter_le _ _
  have total : stored.foldl (fun total blob => addBytes total blob.bytes) 0 = totalBytes stored := by
    rw [foldl_addBytes stored (by rwa [Nat.zero_add]), Nat.zero_add]
  rw [total] at isReport isRemoved
  obtain ⟨looked, newer, split, h⟩ := evictLoop_looked policy.maxBytes host.removes
    (oldestFirst stored)
    { total := totalBytes stored
      report :=
        { stalePendingRemoved := removeStalePending host.pending host.now policy.stalePendingAge } }
    (fun blob mem => succeeds blob (perm.mem_iff.mp mem)) some_ fits
    (by rw [Nat.zero_add]; exact some_.trans_lt fits)
  have isUnpinned : removed = unpinned pinned looked := by
    rw [isRemoved, h.removed]
    rfl
  have parts : unpinned pinned (oldestFirst stored) =
      unpinned pinned looked ++ unpinned pinned newer := by
    rw [split]
    exact List.filter_append ..
  have left := h.total
  simp only at left
  rw [h.report] at isReport
  constructor
  · refine ⟨unpinned pinned newer, ?_, ?_, ?_⟩
    · rw [isUnpinned, ← parts]
      exact perm.filter _
    · rw [isUnpinned, ← parts]
      exact (oldestFirst_sorted stored).sublist List.filter_sublist
    · rcases h.stops with rfl | enough
      · exact .inl rfl
      · rw [isUnpinned]
        omega
  · intro shorter blob more isSplit
    -- the loop looked at the blob behind the shorter run while the total was too large
    obtain ⟨older, rest, looked_eq, filter_older, filter_rest⟩ :=
      List.filter_eq_append_iff.mp (isUnpinned.symm.trans isSplit)
    obtain ⟨between, more', rest_eq, none_, -, -⟩ := List.filter_eq_cons_iff.mp filter_rest
    have above := h.above (older ++ between) blob more' (by rw [looked_eq, rest_eq, List.append_assoc])
    have same : unpinned pinned (older ++ between) = shorter := by
      rw [unpinned, List.filter_append, filter_older, List.filter_eq_nil_iff.mpr none_, List.append_nil]
    rw [same] at above
    exact above
  · intro blob mem
    rw [isUnpinned] at mem
    simpa using List.of_mem_filter mem
  · simp [isReport, isUnpinned]
  · simp [isReport, isUnpinned]
  · rw [isReport, isUnpinned]
    exact left
  · refine ⟨looked, newer, split, isUnpinned.symm, ?_, h.above⟩
    simp [isReport]
  · rw [isReport]
    rfl

/-! ## In the shared cache -/

/-- Removals that agree on the blobs make the loop do the same. -/
theorem evictLoop_congr {removes' : CasBlobEntry → Bool} (blobs : List CasBlobEntry) (s : Pruning)
    (same : ∀ blob ∈ blobs, removes blob = removes' blob) :
    evictLoop maxBytes pinned removes blobs s = evictLoop maxBytes pinned removes' blobs s := by
  induction blobs generalizing s with
  | nil => rfl
  | cons blob rest ih =>
    have others : ∀ b ∈ rest, removes b = removes' b := fun b mem =>
      same b (List.mem_cons_of_mem blob mem)
    rw [evictLoop, evictLoop, same blob List.mem_cons_self]
    split
    · rfl
    · split
      · exact ih _ others
      · split
        · exact ih _ others
        · exact ih _ others

/-- The blobs stored once those in `gone` are removed. -/
def CacheFiles.without (files : CacheFiles) (gone : List CasBlobEntry) (digest : Blake3Digest) :
    Bool :=
  files.blobs digest && decide (∀ blob ∈ gone, blob.digest ≠ digest)

theorem without_setBlob (files : CacheFiles) (blob : CasBlobEntry) (gone : List CasBlobEntry)
    (digest : Blake3Digest) :
    (files.setBlob blob.digest false).without gone digest = files.without (blob :: gone) digest := by
  simp only [CacheFiles.without, CacheFiles.setBlob, Function.update_apply]
  split
  · next here => simp [here]
  · next other => simp [Ne.symm other]

theorem without_nil (files : CacheFiles) (digest : Blake3Digest) :
    files.without [] digest = files.blobs digest := by
  simp [CacheFiles.without]

/-- A blob that is not stored is gone already. -/
theorem without_missing {files : CacheFiles} {blob : CasBlobEntry}
    (missing : files.blobs blob.digest = false) (gone : List CasBlobEntry) (digest : Blake3Digest) :
    files.without (blob :: gone) digest = files.without gone digest := by
  rw [CacheFiles.without, CacheFiles.without]
  by_cases here : blob.digest = digest
  · simp [← here, missing]
  · simp [here]

/-- The state after a step of task `t`. -/
def CacheState.after (s : CacheState) (t : Nat) (task : Task) (files : CacheFiles) : CacheState where
  files := files
  tasks := Function.update s.tasks t task

theorem tasks_after (s : CacheState) (t : Nat) (task : Task) (files : CacheFiles) :
    (s.after t task files).tasks t = task := Function.update_self ..

theorem step_after {s : CacheState} {t : Nat} {task task' : Task} {files : CacheFiles}
    (here : s.tasks t = task) (move : Move s t task task' files) :
    cacheSystem.step s (s.after t task' files) :=
  .inl ⟨t, task', files, here ▸ move, rfl⟩

/-- Task `t` alone, removing blobs, ends with the blobs gone that the loop removes, each
removal succeeding where the blob is stored. -/
theorem evictLoop_leads {t eviction : Nat} (blobs : List CasBlobEntry) (s : CacheState) (p : Pruning)
    (task : s.tasks t = .evicting (.evict maxBytes) eviction (.removing blobs p.total pinned))
    (distinct : (blobs.map CasBlobEntry.digest).Nodup)
    (covers : totalBytes (unpinned pinned blobs) ≤ p.total) (fits : p.total < 2 ^ 64) :
    ∃ s' gone, cacheSystem.Leads s s' ∧
      s'.tasks t = .evicting (.evict maxBytes) eviction .closing ∧
      (evictLoop maxBytes pinned (fun blob => s.files.blobs blob.digest) blobs p).removed =
        p.removed ++ gone ∧
      ∀ digest, s'.files.blobs digest = s.files.without gone digest := by
  induction blobs generalizing s p with
  | nil =>
    exact ⟨_, [], .single (step_after task .evicted), tasks_after .., (List.append_nil _).symm,
      fun digest => (without_nil s.files digest).symm⟩
  | cons blob rest ih =>
    obtain ⟨notIn, distinctRest⟩ := List.nodup_cons.mp distinct
    rw [evictLoop]
    split
    · next enough =>
      exact ⟨_, [], .single (step_after task (.fits enough)), tasks_after ..,
        (List.append_nil _).symm, fun digest => (without_nil s.files digest).symm⟩
    · next tooMuch =>
      have above : maxBytes < p.total := not_le.mp tooMuch
      split
      · next isPinned =>
        rw [unpinned_cons_pinned isPinned] at covers
        obtain ⟨s', gone, leads, closed, removed, stored⟩ :=
          ih _ p.keep (tasks_after ..) distinctRest covers fits
        exact ⟨s', gone, .head (step_after task (.keep above isPinned)) leads, closed, removed, stored⟩
      · next notPinned =>
        rw [unpinned_cons notPinned, totalBytes_cons] at covers
        have removes := step_after task (.removeBlob above notPinned)
        -- the other blobs of the listing have other digests
        have others : ∀ b ∈ rest, (s.files.setBlob blob.digest false).blobs b.digest =
            s.files.blobs b.digest := by
          intro b mem
          have other : b.digest ≠ blob.digest := by
            intro same
            rw [← same] at notIn
            exact notIn (List.mem_map_of_mem mem)
          exact Function.update_of_ne other _ _
        split
        · next isStored =>
          have total : (p.take blob).total = p.total - blob.bytes :=
            subtractBytes_of_le (Nat.le_of_add_right_le covers) fits
          rw [if_pos isStored, ← total] at removes
          obtain ⟨s', gone, leads, closed, removed, stored⟩ :=
            ih _ (p.take blob) (tasks_after ..) distinctRest (by omega) (by omega)
          refine ⟨s', blob :: gone, .head removes leads, closed, ?_, fun digest => ?_⟩
          · exact (congrArg _ (evictLoop_congr _ _ others)).symm.trans
              (removed.trans (List.append_assoc ..))
          · exact (stored digest).trans (without_setBlob ..)
        · next notStored =>
          have missing : s.files.blobs blob.digest = false := Bool.eq_false_of_not_eq_true notStored
          rw [if_neg notStored] at removes
          obtain ⟨s', gone, leads, closed, removed, stored⟩ :=
            ih _ p (tasks_after ..) distinctRest (by omega) fits
          refine ⟨s', gone, .head removes leads, closed, ?_, fun digest => ?_⟩
          · exact (congrArg _ (evictLoop_congr _ _ others)).symm.trans removed
          · exact (stored digest).trans
              ((without_setBlob ..).trans (without_missing missing gone digest))

/-! ## Examples -/

/-- A file system that lets an eviction do everything, with these blobs and pins. -/
def openHost (stored : List CasBlobEntry) (pinned : List Blake3Digest) : EvictionHost where
  lock := .acquired
  livePins := .ok pinned
  now := 0
  pending := []
  blobs := .ok stored
  removes _ := true

/-- Three blobs, the oldest of them pinned. -/
def threeBlobs : List CasBlobEntry :=
  [⟨.fill 2, 30, 3⟩, ⟨.fill 1, 40, 5⟩, ⟨.fill 3, 20, 7⟩]

theorem evict_minimalLru_three :
    MinimalLru { maxBytes := 50 } (openHost threeBlobs [.fill 2]) [.fill 2] threeBlobs
      [⟨.fill 1, 40, 5⟩]
      { evictedBlobs := 1, evictedBytes := 40, pinnedBlobsKept := 1, remainingBytes := 50 } :=
  evict_minimalLru _ _ _ _
    (by
      have sorted : threeBlobs.Pairwise CasBlobEntry.Before := by
        simp [threeBlobs, CasBlobEntry.Before]
      rw [evict]
      simp only [openHost]
      rw [oldestFirst_of_sorted sorted]
      rfl)
    _ _ rfl rfl (fun _ _ => rfl) (by decide)

/-- Blobs whose sizes add up to 2 ^ 64 bytes. -/
def vastBlobs : List CasBlobEntry :=
  [⟨.fill 1, 2 ^ 63 - 1, 1⟩, ⟨.fill 2, 2 ^ 63 - 1, 2⟩, ⟨.fill 3, 2, 3⟩]

/-- The total of these is zero in 64 bits: nothing is removed, though all of it could be,
and nothing is reported to remain. -/
theorem evict_wraps :
    evict {} (openHost vastBlobs []) = .ok ({}, []) ∧
      ¬ MinimalLru {} (openHost vastBlobs []) [] vastBlobs [] {} := by
  constructor
  · have sorted : vastBlobs.Pairwise CasBlobEntry.Before := by
      simp [vastBlobs, CasBlobEntry.Before]
    rw [evict]
    simp only [openHost]
    rw [oldestFirst_of_sorted sorted]
    rfl
  · intro minimal
    have counted := minimal.remainingBytes
    revert counted
    decide

end Svp.Cache
