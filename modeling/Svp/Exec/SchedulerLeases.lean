import Svp.Exec.SchedulerSafety

/-!
# Where the leases of a run come from

A handler takes leases out of the table, a heartbeat renews the expiry of one,
and only a dispatch adds any (`advance_drops`). So what is true of every lease
when it is granted, and does not depend on its expiry, is true of every lease in
the table of every reachable run (`reachable_leases`).
-/

namespace Svp.Exec

open Ledger

variable {S : SchedulerSetup}

namespace Ledger

/-! ## Moves -/

/-- Leases were taken out of the table and none was granted. -/
structure Drops (l l' : Ledger S) : Prop where
  leases : l'.leases.entries ⊆ l.leases.entries
  next : l'.nextLeaseNumber = l.nextLeaseNumber
  grants : l'.grants = l.grants

theorem Drops.refl (l : Ledger S) : Drops l l := ⟨List.Subset.refl _, rfl, rfl⟩

theorem Drops.trans {l l' l'' : Ledger S} (h : Drops l l') (h' : Drops l' l'') : Drops l l'' :=
  ⟨fun _ mem => h.leases (h'.leases mem), h'.next.trans h.next, h'.grants.trans h.grants⟩

theorem Move.drops {l l' : Ledger S} (h : Move l l') : Drops l l' := by
  cases h with
  | release id lease => exact ⟨fun _ mem => (Lib.OrderedMap.mem_erase.mp mem).2, rfl, rfl⟩
  | requeue _ => exact ⟨List.Subset.refl _, rfl, rfl⟩
  | quarantine e => exact ⟨List.Subset.refl _, rfl, rfl⟩
  | fail _ _ => exact ⟨List.Subset.refl _, rfl, rfl⟩

theorem Moves.drops {l l' : Ledger S} (h : Moves l l') : Drops l l' := by
  induction h with
  | refl => exact Drops.refl l
  | tail _ last ih => exact ih.trans last.drops

theorem drops_markReady_foldl (ready : List S.Task) (l : Ledger S) :
    Drops l (ready.foldl Ledger.markReady l) := by
  induction ready generalizing l with
  | nil => exact Drops.refl l
  | cons t rest ih =>
    refine Drops.trans ?_ (ih (l.markReady t))
    unfold Ledger.markReady
    split
    · exact ⟨List.Subset.refl _, rfl, rfl⟩
    · exact Drops.refl l

end Ledger

namespace SchedulerRun

/-! ## Handlers -/

/-- Whether the sink accepts it or not, a commit leaves the table alone. -/
theorem drops_commit (r : SchedulerRun S) (lease : LeaseRecord S) (output : AttemptOutput) :
    Drops r.ledger (r.commit lease output).ledger := by
  rcases ledger_commit r lease output with ⟨what, -, after⟩ | ⟨-, after⟩
  · rw [after]
    split
    · exact ⟨List.Subset.refl _, rfl, rfl⟩
    · exact ⟨List.Subset.refl _, rfl, rfl⟩
  · rw [after]
    refine Drops.trans ?_ (drops_markReady_foldl _ _)
    exact ⟨List.Subset.refl _, rfl, rfl⟩

theorem drops_onVerifiedSuccess (r : SchedulerRun S) (lease : LeaseRecord S)
    (output : AttemptOutput) : Drops r.ledger (r.onVerifiedSuccess lease output).ledger := by
  unfold onVerifiedSuccess
  extract_lets noted task
  have same : noted.ledger = r.ledger := ledger_noteExecutorRecovery r lease
  rw [← same]
  split
  · exact drops_commit noted lease output
  · split
    · rw [ledger_discardDuplicate]
      exact Drops.refl _
    · rw [ledger_reportIncident]
      split
      · exact Drops.refl _
      · exact ⟨List.Subset.refl _, rfl, rfl⟩

theorem drops_onFinished (r : SchedulerRun S) (id : String) (output : AttemptOutput) :
    Drops r.ledger (r.onFinished id output).ledger := by
  unfold onFinished
  split
  · exact Drops.refl _
  · next lease _ =>
    extract_lets released cleared
    have same : cleared.ledger = (r.release id lease).ledger := by
      apply ledger_modifyExecutor <;> exact fun _ => rfl
    refine (moves_releaseLease r id lease).drops.trans ?_
    rw [← same]
    split
    · exact (moves_onInvalidResult cleared lease _).drops
    · split
      · exact drops_onVerifiedSuccess cleared lease output
      · exact (moves_onVerifiedFailure cleared lease _).drops
      · exact Drops.refl _

/-- What a heartbeat does to the table: one lease has a new expiry. -/
theorem onHeartbeat_renews (r : SchedulerRun S) (id : String) :
    ∀ p ∈ (r.onHeartbeat id).leases.entries, ∃ q ∈ r.leases.entries,
      q.1 = p.1 ∧ p.2 = { q.2 with expiresAt := p.2.expiresAt } := by
  intro p mem
  unfold onHeartbeat at mem
  split at mem
  · exact ⟨p, mem, rfl, rfl⟩
  · next lease found =>
    rcases Lib.OrderedMap.mem_insert.mp mem with rfl | ⟨-, mem⟩
    · exact ⟨(id, lease), Lib.OrderedMap.find?_eq_some.mp found, rfl, rfl⟩
    · exact ⟨p, mem, rfl, rfl⟩

/-- An event takes leases out of the table, unless it is a heartbeat. -/
theorem apply_drops (r : SchedulerRun S) (event : InboxEvent) :
    Drops r.ledger (r.apply event).ledger ∨
      ∃ id, event = .heartbeat id ∧ r.apply event = r.onHeartbeat id := by
  unfold apply
  split
  · exact .inl (Drops.refl _)
  · cases event with
    | heartbeat id => exact .inr ⟨id, rfl, rfl⟩
    | finished id output => exact .inl (drops_onFinished r id output)
    | failed id kind message => exact .inl (moves_onFailed r id kind message).drops
    | rejected id code message => exact .inl (moves_onRejected r id code message).drops

/-! ## Dispatch -/

/-- What every grant keeps and reading the clock keeps, a dispatch keeps. -/
theorem dispatch_induction {P : SchedulerRun S → Prop} (tick : ∀ r, P r → P r.tick)
    (grant : ∀ r t e speculative, P r → P (r.grant t e speculative)) {r : SchedulerRun S}
    (h : P r) : P r.dispatch := by
  have fill : ∀ e rounds (r : SchedulerRun S), P r → P (fillSlots e rounds r) := by
    intro e rounds
    induction rounds with
    | zero => exact fun _ h => h
    | succ rounds ih =>
      intro r h
      rw [fillSlots]
      split
      · split
        · exact h
        · next t _ => exact ih _ (grant r t e false h)
      · exact h
  have fillSpeculative : ∀ e rounds (r : SchedulerRun S), P r →
      P (fillSlotsSpeculative e rounds r) := by
    intro e rounds
    induction rounds with
    | zero => exact fun _ h => h
    | succ rounds ih =>
      intro r h
      rw [fillSlotsSpeculative]
      split
      · split
        · exact h
        · next lease _ => exact ih _ (grant r lease.task e true h)
      · exact h
  have pass : ∀ (f : SchedulerRun S → S.ExecutorIndex → SchedulerRun S),
      (∀ r e, P r → P (f r e)) → ∀ (executors : List S.ExecutorIndex) (r : SchedulerRun S),
        P r → P (executors.foldl f r) := by
    intro f keeps executors
    induction executors with
    | nil => exact fun _ h => h
    | cons e rest ih => exact fun r h => ih _ (keeps r e h)
  have turn : ∀ (r : SchedulerRun S) e, P r → P (r.dispatchTo e) := by
    intro r e h
    unfold dispatchTo
    split
    · exact tick r h
    · exact fill e _ _ (tick r h)
  have turnSpeculative : ∀ (r : SchedulerRun S) e, P r → P (r.dispatchSpeculativeTo e) := by
    intro r e h
    unfold dispatchSpeculativeTo
    split
    · exact tick r h
    · exact fillSpeculative e _ _ (tick r h)
  unfold dispatch
  extract_lets passed
  have granted : P passed := pass dispatchTo turn _ r h
  split
  · exact pass dispatchSpeculativeTo turnSpeculative _ passed granted
  · exact granted

/-! ## Reachable runs -/

theorem drops_abandonOutstandingLeases (r : SchedulerRun S) :
    Drops r.ledger r.abandonOutstandingLeases.ledger := by
  have cancels : grantCalls (r.leases.entries.map fun entry =>
      (.cancel entry.2.executor entry.1 : Effect S)) = [] := by
    rw [grantCalls, List.filterMap_map]
    exact List.filterMap_eq_nil_iff.mpr fun _ _ => rfl
  refine ⟨List.nil_subset _, rfl, ?_⟩
  refine (List.filterMap_append).trans ?_
  rw [← grantCalls, ← grantCalls, cancels, List.append_nil]
  rfl

theorem drops_prepare (r : SchedulerRun S) : Drops r.ledger r.prepare.ledger := by
  have pass : ∀ (tasks : List S.Task) (r : SchedulerRun S),
      Drops r.ledger (tasks.foldl markInitiallyReady r).ledger := by
    intro tasks
    induction tasks with
    | nil => exact fun _ => Drops.refl _
    | cons t rest ih =>
      intro r
      refine Drops.trans ?_ (ih (r.markInitiallyReady t))
      unfold markInitiallyReady
      split
      · rw [ledger_requeue]
        exact ⟨List.Subset.refl _, rfl, rfl⟩
      · exact Drops.refl _
  exact pass _ r

end SchedulerRun

open SchedulerRun

/-- A step is a dispatch or a heartbeat, or else only takes leases away. -/
theorem advance_drops {s t : RunState S} {input : RoundInput} (advanced : s.advance input = some t) :
    Drops s.run.ledger t.run.ledger ∨
      (s.stage = .head ∧ s.run.failed = false ∧ t = ⟨s.run.dispatch, .dispatched⟩) ∨
      ∃ id rest, s.stage = .applying (.heartbeat id :: rest) ∧ t.run = s.run.onHeartbeat id := by
  obtain ⟨r, stage⟩ := s
  unfold RunState.advance at advanced
  cases stage with
  | head =>
    have cleared : ∀ status,
        Drops r.ledger (r.setStatus status).abandonOutstandingLeases.ledger := by
      intro status
      have kept : Drops r.ledger (r.setStatus status).ledger := ⟨List.Subset.refl _, rfl, rfl⟩
      exact kept.trans (drops_abandonOutstandingLeases _)
    simp only at advanced
    split_ifs at advanced with failed <;> cases advanced
    · exact .inl (drops_abandonOutstandingLeases r)
    · exact .inl (cleared .cancelled)
    · exact .inl (cleared .succeeded)
    · exact .inr (.inl ⟨rfl, by simpa using failed, rfl⟩)
  | dispatched =>
    simp only at advanced
    split_ifs at advanced <;> cases advanced
    · refine .inl ?_
      simp only [ledger_waited, ledger_tick, anyExecutorBackingOff, ledger_anyBackingOff]
      exact Drops.refl _
    · refine .inl (Drops.trans ?_ (drops_abandonOutstandingLeases _))
      rw [ledger_failBuild, anyExecutorBackingOff, ledger_anyBackingOff]
      split
      · exact Drops.refl _
      · exact ⟨List.Subset.refl _, rfl, rfl⟩
    · refine .inl ?_
      rw [ledger_waited, ledger_tick]
      exact Drops.refl _
  | applying events =>
    cases events with
    | nil =>
      cases advanced
      exact .inl (moves_expireLeases r).drops
    | cons event rest =>
      cases advanced
      rcases apply_drops r event with drops | ⟨id, rfl, same⟩
      · exact .inl drops
      · exact .inr (.inr ⟨id, rest, rfl, same⟩)
  | finished => cases advanced

/-- What holds of a lease at its grant, whatever its expiry becomes, holds of
every lease of a reachable run. -/
theorem reachable_leases {P : LeaseRecord S → Prop}
    (granted : ∀ (r : SchedulerRun S) t e speculative, P (r.newLease t e speculative))
    (renewed : ∀ lease expiresAt, P lease → P { lease with expiresAt })
    {resumed : List CommittedResult} {s : RunState S}
    (reach : (schedulerSystem S resumed).Reachable s) :
    ∀ p ∈ s.run.leases.entries, P p.2 := by
  refine reach.invariant (P := fun s => ∀ p ∈ s.run.leases.entries, P p.2) ?_ ?_
  · rintro s ⟨r, applied, rfl⟩ p mem
    have untouched : Untouched (start S).ledger := ⟨consistent_start, rfl, fun _ => .inl rfl⟩
    have empty : r.leases.entries = [] := (untouched_applyResumed untouched applied).table
    have mem : p ∈ r.leases.entries := (drops_prepare r).leases mem
    rw [empty] at mem
    cases mem
  · rintro s t - all ⟨input, advanced⟩ p mem
    rcases advance_drops advanced with drops | ⟨-, -, rfl⟩ | ⟨id, -, -, same⟩
    · exact all p (drops.leases mem)
    · refine dispatch_induction (P := fun r => ∀ p ∈ r.leases.entries, P p.2) (fun _ h => h) ?_
        all p mem
      intro r t e speculative all p mem
      rcases Lib.OrderedMap.mem_insert.mp mem with rfl | ⟨-, mem⟩
      · exact granted r t e speculative
      · exact all p mem
    · rw [same] at mem
      obtain ⟨q, old, -, lease⟩ := onHeartbeat_renews s.run id p mem
      rw [lease]
      exact renewed q.2 _ (all q old)

end Svp.Exec
