import Svp.Exec.JsonFields
import Svp.Lib.ChainedChecks
import Svp.Lib.OrderedMap

/-!
# The ledger of a package comparison

`EquivalenceLedger` collects the findings of a comparison and what is known of every
source layer. A digest that differs is decided by the layers it hashes: its check is
deferred, and `resolveDeferredDigests` settles all of them in the order in which they
were deferred. A check that fails makes its own entry not equivalent, which may be a
source of another check.

* The verdicts follow the final ledger exactly when no check fails, and no entry is
  compared, after a check that rests on it (`deferred_digests_follow_final_iff`, first
  part). Chains of checks are the matter of `Svp.Lib.ChainedChecks`.
* Verdicts that follow the final ledger do not depend on the order of the operations,
  nor do the findings under their keys or the classification (second part).
* In a package the entry of a block index comes after the manifest that hashes it, and
  its failure is found too late (`deferred_digest_late_failure`).
-/

namespace Svp.Validation

open Exec (Json)
open Lib (OrderedMap ChainedCheck)

/-! ## Findings -/

inductive EquivalenceOutcome
  | notEquivalent
  | withinTolerance
  | hashMismatchAllowedBySourceLayerEquivalence
  | normalizedBuildMetadata
  | canonicalizationOnly
deriving DecidableEq

inductive EquivalenceClass
  | byteIdentical
  | structurallyEquivalent
  | numericallyEquivalent
  | notEquivalent
deriving DecidableEq

inductive MetricDirection
  | lowerIsBetter
  | higherIsBetter
deriving DecidableEq

/-- Outcomes from the worst to the mildest. -/
def EquivalenceOutcome.toNat : EquivalenceOutcome → Nat
  | .notEquivalent => 0
  | .withinTolerance => 1
  | .hashMismatchAllowedBySourceLayerEquivalence => 2
  | .normalizedBuildMetadata => 3
  | .canonicalizationOnly => 4

/-- `Measure` is the type of measured values, with the order `is_worse` looks at. -/
structure EquivalenceFinding (Measure : Type) where
  outcome : EquivalenceOutcome
  entry : String
  layer : String
  rule : String
  location : String
  detail : String
  measured : Option Measure := none
  tolerance : Option Measure := none
  occurrences : UInt64 := 1
deriving DecidableEq

/-- A digest that differs, and the layers that decide it. Callers name every source by
an entry path or a block key, never by the empty string. -/
structure DeferredDigestCheck where
  entry : String
  location : String
  rule : String
  sourceKeys : List String
  named : "" ∉ sourceKeys

variable {Measure : Type}

abbrev FoldKey : Type := String × String × EquivalenceOutcome

def EquivalenceFinding.foldKey (finding : EquivalenceFinding Measure) : FoldKey :=
  (finding.entry, finding.rule, finding.outcome)

/-- What a finding adds to the report. -/
def EquivalenceFinding.summary (finding : EquivalenceFinding Measure) : FoldKey × UInt64 :=
  (finding.foldKey, finding.occurrences)

section Model

variable [LT Measure] [DecidableLT Measure]

def isWorse (candidate current : Measure) : MetricDirection → Bool
  | .lowerIsBetter => decide (current < candidate)
  | .higherIsBetter => decide (candidate < current)

/-- The worse of what was measured. -/
def worstMeasured (measured held : Option Measure) (direction : MetricDirection) :
    Option Measure :=
  match measured, held with
  | none, held => held
  | some value, none => some value
  | some value, some worst => if isWorse value worst direction then some value else some worst

/-- The findings after one more: under a key there is one finding at most, which
`fold_index_` finds by it. -/
def foldInto (finding : EquivalenceFinding Measure) (direction : MetricDirection) :
    List (EquivalenceFinding Measure) → List (EquivalenceFinding Measure)
  | [] => [finding]
  | folded :: rest =>
    if folded.foldKey = finding.foldKey then
      { folded with
        occurrences := folded.occurrences + finding.occurrences
        measured := worstMeasured finding.measured folded.measured direction } :: rest
    else folded :: foldInto finding direction rest

/-! ## The ledger -/

structure EquivalenceLedger (Measure : Type) where
  findings : List (EquivalenceFinding Measure) := []
  sourceNotEquivalent : OrderedMap String Bool := .empty
  deferred : List DeferredDigestCheck := []

namespace EquivalenceLedger

def markCompared (ledger : EquivalenceLedger Measure) (sourceKey : String) :
    EquivalenceLedger Measure :=
  { ledger with sourceNotEquivalent := ledger.sourceNotEquivalent.emplace sourceKey false }

def markOutcome (ledger : EquivalenceLedger Measure) (sourceKey : String)
    (outcome : EquivalenceOutcome) : EquivalenceLedger Measure :=
  { ledger with
    sourceNotEquivalent := ledger.sourceNotEquivalent.insert sourceKey
      ((ledger.sourceNotEquivalent.find? sourceKey).getD false || outcome == .notEquivalent) }

def add (ledger : EquivalenceLedger Measure) (finding : EquivalenceFinding Measure)
    (direction : MetricDirection) : EquivalenceLedger Measure :=
  { ledger.markOutcome finding.entry finding.outcome with
    findings := foldInto finding direction ledger.findings }

def deferDigest (ledger : EquivalenceLedger Measure) (check : DeferredDigestCheck) :
    EquivalenceLedger Measure :=
  { ledger with deferred := ledger.deferred ++ [check] }

/-- The first source that was not compared or is not equivalent; empty where there is
none. -/
def failingSource (ledger : EquivalenceLedger Measure) (check : DeferredDigestCheck) : String :=
  (check.sourceKeys.find? fun source =>
    (ledger.sourceNotEquivalent.find? source).getD true).getD ""

def digestFinding (ledger : EquivalenceLedger Measure) (check : DeferredDigestCheck) :
    EquivalenceFinding Measure :=
  let failing := ledger.failingSource check
  let base : EquivalenceFinding Measure :=
    { outcome := .hashMismatchAllowedBySourceLayerEquivalence
      entry := check.entry
      layer := "derived_digest"
      rule := check.rule
      location := check.location
      detail := "Digest differs; every hashed source layer compared as equivalent." }
  if failing.isEmpty then base
  else
    { base with
      outcome := .notEquivalent
      detail :=
        if ledger.sourceNotEquivalent.contains failing then
          "Digest differs and hashed source layer '" ++ failing ++ "' is not equivalent."
        else "Digest differs and hashed source layer '" ++ failing ++ "' could not be compared." }

/-- One deferred check. -/
def resolveCheck (ledger : EquivalenceLedger Measure) (check : DeferredDigestCheck) :
    EquivalenceLedger Measure := ledger.add (ledger.digestFinding check) .lowerIsBetter

def resolveDeferredDigests (ledger : EquivalenceLedger Measure) : EquivalenceLedger Measure :=
  ledger.deferred.foldl resolveCheck { ledger with deferred := [] }

def classification (ledger : EquivalenceLedger Measure) : EquivalenceClass :=
  if ledger.findings.any fun finding => finding.outcome == .notEquivalent then .notEquivalent
  else if ledger.findings.any fun finding => finding.outcome == .withinTolerance then
    .numericallyEquivalent
  else .structurallyEquivalent

/-- The findings of the report, the worst outcomes first. -/
def sortedFindings (ledger : EquivalenceLedger Measure) : List (EquivalenceFinding Measure) :=
  ledger.findings.mergeSort fun left right => left.outcome.toNat ≤ right.outcome.toNat

end EquivalenceLedger

inductive LedgerOperation (Measure : Type)
  | markCompared (sourceKey : String)
  | markOutcome (sourceKey : String) (outcome : EquivalenceOutcome)
  | add (finding : EquivalenceFinding Measure) (direction : MetricDirection)
  | deferDigest (check : DeferredDigestCheck)

def EquivalenceLedger.apply (ledger : EquivalenceLedger Measure) :
    LedgerOperation Measure → EquivalenceLedger Measure
  | .markCompared sourceKey => ledger.markCompared sourceKey
  | .markOutcome sourceKey outcome => ledger.markOutcome sourceKey outcome
  | .add finding direction => ledger.add finding direction
  | .deferDigest check => ledger.deferDigest check

/-- A comparison up to the resolution of its digests. -/
def runLedger (operations : List (LedgerOperation Measure)) : EquivalenceLedger Measure :=
  operations.foldl EquivalenceLedger.apply {}

end Model

/-! ## The checks of a package -/

inductive DigestSourceKind
  | packageLayers
  | recordBlock
deriving DecidableEq

structure JsonDerivedDigestField where
  entry : String
  pointer : String
  kind : DigestSourceKind := .packageLayers
  sources : List String := []
deriving DecidableEq

def kBlockStreamSources : List String :=
  ["spatial/depth.blocks.svpdz", "spatial/depth.index.jsonl", "spatial/masks.blocks.svpmz",
    "spatial/masks.index.jsonl", "embeddings/embeddings.blocks.svpez",
    "embeddings/embeddings.index.jsonl"]

/-- The two digests of a block, in the record that locates it. -/
def blockDigestFields (entry : String) : List JsonDerivedDigestField :=
  [{ entry, pointer := "/payload_blake3", kind := .recordBlock },
    { entry, pointer := "/block_blake3", kind := .recordBlock }]

def jsonDerivedDigestFields : List JsonDerivedDigestField :=
  [{ entry := "index/index_manifest.json", pointer := "/sqlite_file_blake3"
     sources := ["index/index.sqlite"] },
    { entry := "index/index_manifest.json", pointer := "/logical_rows_blake3"
      sources := ["index/index.sqlite"] },
    { entry := "index/index_manifest.json", pointer := "/created_from/manifest_blake3"
      sources := ["manifest.json"] },
    { entry := "index/index_manifest.json", pointer := "/created_from/embedding_sets_blake3"
      sources := ["embeddings/embedding_sets.json"] },
    { entry := "index/index_manifest.json"
      pointer := "/created_from/binary_blocks_manifest_blake3"
      sources := kBlockStreamSources }] ++
  blockDigestFields "spatial/depth.index.jsonl" ++ blockDigestFields "spatial/masks.index.jsonl" ++
  blockDigestFields "embeddings/embeddings.index.jsonl"

def blockSourceKey (blockFile : String) (blockOffset : Nat) : String :=
  "block:" ++ blockFile ++ "@" ++ toString blockOffset

def digestSources (field : JsonDerivedDigestField) (record : Json) : Option (List String) :=
  match field.kind with
  | .packageLayers => some field.sources
  | .recordBlock =>
    match record.fields.lookup "block_file", record.fields.lookup "block_offset" with
    | some (.string blockFile), some (.integer (.ofNat blockOffset)) =>
      some [blockSourceKey blockFile blockOffset]
    | _, _ => none

/-- Every source of a registered digest has a name. -/
theorem digestSources_named {field : JsonDerivedDigestField}
    (registered : field ∈ jsonDerivedDigestFields) {record : Json} {sources : List String} (found : digestSources field record = some sources) :
    "" ∉ sources := by
  unfold digestSources at found
  split at found
  · cases found
    revert field
    decide
  · split at found
    · cases found
      intro mem
      have empty := congrArg String.toList (List.mem_singleton.mp mem)
      simp [blockSourceKey] at empty
    · cases found

/-- The check that is deferred where a registered digest differs in a record. -/
def derivedDigestCheck (field : JsonDerivedDigestField)
    (registered : field ∈ jsonDerivedDigestFields) (locationPrefix : String) (record : Json) :
    Option DeferredDigestCheck :=
  match found : digestSources field record with
  | none => none
  | some sourceKeys => some
    { entry := field.entry
      location :=
        if locationPrefix.isEmpty then field.pointer else locationPrefix ++ " " ++ field.pointer
      rule := "derived_digest:" ++ field.pointer
      sourceKeys
      named := digestSources_named registered found }

/-! ## Resolving is settling chained checks -/

namespace EquivalenceLedger

def status (ledger : EquivalenceLedger Measure) : String → Option Bool :=
  ledger.sourceNotEquivalent.find?

end EquivalenceLedger

def DeferredDigestCheck.chained (check : DeferredDigestCheck) : ChainedCheck String where
  entry := check.entry
  sources := check.sourceKeys

section Resolve

variable (ledger : EquivalenceLedger Measure)

open EquivalenceLedger

theorem status_markOutcome (sourceKey : String) (outcome : EquivalenceOutcome) :
    (ledger.markOutcome sourceKey outcome).status =
      Lib.mark ledger.status sourceKey (outcome == .notEquivalent) := by
  funext source
  rw [Lib.mark, Function.update_apply]
  exact OrderedMap.find?_insert _ _ _ _

theorem status_markCompared (sourceKey : String) :
    (ledger.markCompared sourceKey).status = Lib.mark ledger.status sourceKey false := by
  funext source
  rw [Lib.mark, Function.update_apply, Bool.or_false]
  cases known : ledger.sourceNotEquivalent.find? sourceKey with
  | none =>
    have inserted := OrderedMap.emplace_absent false known
    dsimp only [status, markCompared]
    rw [inserted, OrderedMap.find?_insert, known]
    rfl
  | some bad =>
    have kept : ledger.sourceNotEquivalent.emplace sourceKey false =
        ledger.sourceNotEquivalent := by
      have isSome : (ledger.sourceNotEquivalent.entries.find?
          fun p => decide (p.1 = sourceKey)).isSome = true := by
        obtain ⟨p, found, -⟩ := Option.map_eq_some_iff.mp known
        rw [found]
        rfl
      exact if_pos isSome
    dsimp only [status, markCompared]
    rw [kept, known]
    split
    · next same => exact same ▸ known
    · rfl

/-- A check is allowed exactly when every source was compared and is equivalent. -/
theorem digestFinding_outcome (check : DeferredDigestCheck) :
    (ledger.digestFinding check).outcome =
      if Lib.passes ledger.status check.chained then
        .hashMismatchAllowedBySourceLayerEquivalence
      else .notEquivalent := by
  cases found : check.sourceKeys.find? fun source =>
      (ledger.sourceNotEquivalent.find? source).getD true with
  | none =>
    have passes : Lib.passes ledger.status check.chained = true := by
      refine Lib.passes_eq_true.mpr fun source among => ?_
      have good := List.find?_eq_none.mp found source among
      cases known : ledger.sourceNotEquivalent.find? source with
      | none =>
        rw [known] at good
        exact absurd rfl good
      | some bad =>
        rw [known, Option.getD_some, Bool.not_eq_true] at good
        exact good ▸ known
    have failing : ledger.failingSource check = "" := by rw [failingSource, found]; rfl
    rw [passes, if_pos rfl, digestFinding, failing]
    rfl
  | some source =>
    have among := List.mem_of_find?_eq_some found
    have bad := List.find?_some found
    have fails : Lib.passes ledger.status check.chained = false := by
      refine Lib.passes_eq_false.mpr ⟨source, among, ?_⟩
      dsimp only [status]
      cases known : ledger.sourceNotEquivalent.find? source with
      | none => exact .inl rfl
      | some notEquivalent =>
        rw [known] at bad
        exact .inr (congrArg some bad)
    have failing : ledger.failingSource check = source := by rw [failingSource, found]; rfl
    have named : source.isEmpty = false := by
      refine Bool.eq_false_iff.mpr fun empty => check.named ?_
      rwa [← String.isEmpty_iff.mp empty]
    rw [fails, if_neg Bool.false_ne_true, digestFinding, failing]
    dsimp only
    rw [named, if_neg Bool.false_ne_true]

theorem digestFinding_kept (check : DeferredDigestCheck) :
    (ledger.digestFinding check).entry = check.entry ∧
      (ledger.digestFinding check).rule = check.rule ∧
        (ledger.digestFinding check).occurrences = 1 := by
  unfold digestFinding
  dsimp only
  split
  · exact ⟨rfl, rfl, rfl⟩
  · exact ⟨rfl, rfl, rfl⟩

theorem digestFinding_summary (check : DeferredDigestCheck) :
    (ledger.digestFinding check).summary = ((check.entry, check.rule,
      if Lib.passes ledger.status check.chained then
        EquivalenceOutcome.hashMismatchAllowedBySourceLayerEquivalence
      else .notEquivalent), 1) := by
  obtain ⟨entry, rule, occurrences⟩ := digestFinding_kept ledger check
  rw [EquivalenceFinding.summary, EquivalenceFinding.foldKey, entry, rule, occurrences,
    digestFinding_outcome]

variable [LT Measure] [DecidableLT Measure]

theorem status_resolveCheck (check : DeferredDigestCheck) :
    (ledger.resolveCheck check).status = Lib.settleOne ledger.status check.chained := by
  refine (status_markOutcome ledger _ _).trans ?_
  rw [(digestFinding_kept ledger check).1, digestFinding_outcome, Lib.settleOne]
  cases Lib.passes ledger.status check.chained with
  | true => rfl
  | false => rfl

theorem status_resolveChecks (checks : List DeferredDigestCheck) :
    (checks.foldl resolveCheck ledger).status =
      Lib.settle ledger.status (checks.map DeferredDigestCheck.chained) := by
  induction checks generalizing ledger with
  | nil => rfl
  | cons check checks ih =>
    rw [List.foldl_cons, ih, status_resolveCheck]
    rfl

/-- The findings that resolving adds, one for each check. -/
def digestFindings (ledger : EquivalenceLedger Measure) :
    List DeferredDigestCheck → List (EquivalenceFinding Measure)
  | [] => []
  | check :: checks => ledger.digestFinding check :: digestFindings (ledger.resolveCheck check) checks

theorem resolveChecks_eq (checks : List DeferredDigestCheck) :
    checks.foldl resolveCheck ledger =
      (digestFindings ledger checks).foldl (fun ledger finding => ledger.add finding .lowerIsBetter)
        ledger := by
  induction checks generalizing ledger with
  | nil => rfl
  | cons check checks ih => exact ih (ledger.resolveCheck check)

theorem digestFindings_length (checks : List DeferredDigestCheck) :
    (digestFindings ledger checks).length = checks.length := by
  induction checks generalizing ledger with
  | nil => rfl
  | cons check checks ih => exact congrArg (· + 1) (ih (ledger.resolveCheck check))

/-- The finding of a check is made on what is known at its turn. -/
theorem digestFindings_getElem? (checks : List DeferredDigestCheck) {i : Nat}
    {check : DeferredDigestCheck} (here : checks[i]? = some check) :
    ∃ finding, (digestFindings ledger checks)[i]? = some finding ∧
      finding.summary = ((check.entry, check.rule,
        if Lib.passes (Lib.statusAt ledger.status (checks.map DeferredDigestCheck.chained) i)
            check.chained then
          EquivalenceOutcome.hashMismatchAllowedBySourceLayerEquivalence
        else .notEquivalent), 1) := by
  induction checks generalizing ledger i with
  | nil => cases here
  | cons first checks ih =>
    cases i with
    | zero =>
      cases here
      exact ⟨_, rfl, digestFinding_summary ledger check⟩
    | succ i =>
      obtain ⟨finding, at_, summary⟩ := ih (ledger.resolveCheck first) here
      rw [status_resolveCheck] at summary
      exact ⟨finding, at_, summary⟩

end Resolve

/-! ## Reports -/

/-- How often the findings say the same under a key; none where they say nothing. -/
def tally : List (FoldKey × UInt64) → FoldKey → Option UInt64
  | [], _ => none
  | (found, occurrences) :: rest, key =>
    if found = key then some (occurrences + (tally rest key).getD 0) else tally rest key

/-- What the report says under a key. -/
def EquivalenceLedger.reported (ledger : EquivalenceLedger Measure) : FoldKey → Option UInt64 :=
  tally (ledger.sortedFindings.map EquivalenceFinding.summary)

theorem tally_cons_congr {l l' : List (FoldKey × UInt64)} (first : FoldKey × UInt64)
    (same : tally l = tally l') : tally (first :: l) = tally (first :: l') := by
  funext key
  rw [tally, tally, same]

theorem tally_perm {l l' : List (FoldKey × UInt64)} (perm : l.Perm l') : tally l = tally l' := by
  induction perm with
  | nil => rfl
  | cons first _ ih => exact tally_cons_congr first ih
  | swap first second l =>
    funext key
    simp only [tally]
    split_ifs
    · exact congrArg some (add_left_comm _ _ _)
    · rfl
    · rfl
    · rfl
  | trans _ _ ih ih' => exact ih.trans ih'

theorem tally_append_congr {l l' : List (FoldKey × UInt64)} (front : List (FoldKey × UInt64))
    (same : tally l = tally l') : tally (front ++ l) = tally (front ++ l') := by
  induction front with
  | nil => exact same
  | cons first front ih => exact tally_cons_congr first ih

/-- Whether anything was found with an outcome. -/
theorem any_outcome (findings : List (EquivalenceFinding Measure)) (outcome : EquivalenceOutcome) :
    findings.any (fun finding => finding.outcome == outcome) = true ↔
      ∃ key : FoldKey, key.2.2 = outcome ∧
        tally (findings.map EquivalenceFinding.summary) key ≠ none := by
  induction findings with
  | nil => exact iff_of_false Bool.false_ne_true fun ⟨_, _, found⟩ => found rfl
  | cons finding findings ih =>
    rw [List.any_cons, Bool.or_eq_true, beq_iff_eq, ih]
    constructor
    · rintro (rfl | ⟨key, isOutcome, found⟩)
      · refine ⟨finding.foldKey, rfl, ?_⟩
        rw [List.map_cons, EquivalenceFinding.summary, tally, if_pos rfl]
        exact nofun
      · refine ⟨key, isOutcome, ?_⟩
        rw [List.map_cons, EquivalenceFinding.summary, tally]
        split
        · exact nofun
        · exact found
    · rintro ⟨key, isOutcome, found⟩
      rw [List.map_cons, EquivalenceFinding.summary, tally] at found
      split at found
      · next same => exact .inl ((congrArg (fun key => key.2.2) same).trans isOutcome)
      · exact .inr ⟨key, isOutcome, found⟩

/-- Two ledgers that report the same: the findings under their keys, and the class. -/
structure SameReport (ledger ledger' : EquivalenceLedger Measure) : Prop where
  reported : ledger.reported = ledger'.reported
  classification : ledger.classification = ledger'.classification

theorem sameReport_of {ledger ledger' : EquivalenceLedger Measure}
    (same : tally (ledger.findings.map EquivalenceFinding.summary) =
      tally (ledger'.findings.map EquivalenceFinding.summary)) : SameReport ledger ledger' := by
  constructor
  · have sorted : ∀ l : EquivalenceLedger Measure,
        l.reported = tally (l.findings.map EquivalenceFinding.summary) := fun l =>
      tally_perm ((List.mergeSort_perm _ _).map _)
    rw [sorted, sorted, same]
  · have outcomes : ∀ outcome,
        ledger.findings.any (fun finding => finding.outcome == outcome) =
          ledger'.findings.any (fun finding => finding.outcome == outcome) := fun outcome =>
      Bool.eq_iff_iff.mpr (by rw [any_outcome, any_outcome, same])
    rw [EquivalenceLedger.classification, EquivalenceLedger.classification, outcomes, outcomes]

section Runs

variable [LT Measure] [DecidableLT Measure]

theorem tally_foldInto (finding : EquivalenceFinding Measure) (direction : MetricDirection)
    (findings : List (EquivalenceFinding Measure)) :
    tally ((foldInto finding direction findings).map EquivalenceFinding.summary) =
      tally ((finding :: findings).map EquivalenceFinding.summary) := by
  induction findings with
  | nil => rfl
  | cons folded findings ih =>
    rw [foldInto]
    split
    · next same =>
      funext key
      simp only [List.map_cons, EquivalenceFinding.summary, EquivalenceFinding.foldKey, tally]
      have keys : (folded.entry, folded.rule, folded.outcome) =
          (finding.entry, finding.rule, finding.outcome) := same
      rw [keys]
      split
      · rw [Option.getD_some, add_comm folded.occurrences, add_assoc]
      · rfl
    · refine (tally_cons_congr folded.summary ih).trans ?_
      exact tally_perm (.swap _ _ _)

/-! ## What a run leaves to resolve -/

/-- The finding an operation adds. -/
def LedgerOperation.summaries : LedgerOperation Measure → List (FoldKey × UInt64)
  | .add finding _ => [finding.summary]
  | _ => []

def LedgerOperation.checks : LedgerOperation Measure → List DeferredDigestCheck
  | .deferDigest check => [check]
  | _ => []

/-- What an operation says of a source. -/
def LedgerOperation.marked (status : String → Option Bool) :
    LedgerOperation Measure → String → Option Bool
  | .markCompared sourceKey => Lib.mark status sourceKey false
  | .markOutcome sourceKey outcome => Lib.mark status sourceKey (outcome == .notEquivalent)
  | .add finding _ => Lib.mark status finding.entry (finding.outcome == .notEquivalent)
  | .deferDigest _ => status

omit [LT Measure] [DecidableLT Measure] in
theorem marked_comm (status : String → Option Bool) (operation other : LedgerOperation Measure) :
    LedgerOperation.marked (operation.marked status) other =
      LedgerOperation.marked (other.marked status) operation := by
  cases operation with
  | deferDigest check => rfl
  | _ =>
    cases other with
    | deferDigest check => rfl
    | _ => exact Lib.mark_comm ..

theorem status_apply (ledger : EquivalenceLedger Measure) (operation : LedgerOperation Measure) :
    (ledger.apply operation).status = operation.marked ledger.status := by
  cases operation with
  | markCompared sourceKey => exact status_markCompared ledger sourceKey
  | markOutcome sourceKey outcome => exact status_markOutcome ledger sourceKey outcome
  | add finding direction => exact status_markOutcome ledger finding.entry finding.outcome
  | deferDigest check => rfl

theorem status_run (ledger : EquivalenceLedger Measure)
    (operations : List (LedgerOperation Measure)) :
    (operations.foldl EquivalenceLedger.apply ledger).status =
      operations.foldl LedgerOperation.marked ledger.status := by
  induction operations generalizing ledger with
  | nil => rfl
  | cons operation operations ih => rw [List.foldl_cons, ih, status_apply, List.foldl_cons]

theorem deferred_run (ledger : EquivalenceLedger Measure)
    (operations : List (LedgerOperation Measure)) :
    (operations.foldl EquivalenceLedger.apply ledger).deferred =
      ledger.deferred ++ operations.flatMap LedgerOperation.checks := by
  induction operations generalizing ledger with
  | nil => exact (List.append_nil _).symm
  | cons operation operations ih =>
    rw [List.foldl_cons, ih, List.flatMap_cons, ← List.append_assoc]
    congr 1
    cases operation with
    | deferDigest check => rfl
    | _ => exact (List.append_nil _).symm

theorem tally_run (ledger : EquivalenceLedger Measure)
    (operations : List (LedgerOperation Measure)) :
    tally ((operations.foldl EquivalenceLedger.apply ledger).findings.map
        EquivalenceFinding.summary) =
      tally (operations.flatMap LedgerOperation.summaries ++
        ledger.findings.map EquivalenceFinding.summary) := by
  induction operations generalizing ledger with
  | nil => rfl
  | cons operation operations ih =>
    rw [List.foldl_cons, ih, List.flatMap_cons]
    cases operation with
    | add finding direction =>
      refine (tally_append_congr _ (tally_foldInto finding direction ledger.findings)).trans ?_
      exact tally_perm List.perm_middle
    | _ => rfl

theorem tally_adds (ledger : EquivalenceLedger Measure)
    (findings : List (EquivalenceFinding Measure)) (direction : MetricDirection) :
    tally ((findings.foldl (fun ledger finding => ledger.add finding direction) ledger).findings.map
        EquivalenceFinding.summary) =
      tally ((findings ++ ledger.findings).map EquivalenceFinding.summary) := by
  induction findings generalizing ledger with
  | nil => rfl
  | cons finding findings ih =>
    rw [List.foldl_cons, ih, List.map_append, List.cons_append, List.map_cons, List.map_append]
    refine (tally_append_congr _ (tally_foldInto finding direction ledger.findings)).trans ?_
    exact tally_perm List.perm_middle

/-! ## The final ledger -/

/-- A digest is allowed exactly when every source of it was compared and is equivalent in
the final ledger. -/
def FollowsFinalVerdicts (ledger : EquivalenceLedger Measure) : Prop :=
  ∀ (i : Nat) (check : DeferredDigestCheck) (finding : EquivalenceFinding Measure),
    ledger.deferred[i]? = some check →
    (digestFindings { ledger with deferred := [] } ledger.deferred)[i]? = some finding →
    (finding.outcome = .hashMismatchAllowedBySourceLayerEquivalence ↔
      ∀ source ∈ check.sourceKeys,
        ledger.resolveDeferredDigests.sourceNotEquivalent.find? source = some false)

/-- The deferred checks, in the order in which they are resolved. -/
def EquivalenceLedger.chain (ledger : EquivalenceLedger Measure) : List (ChainedCheck String) :=
  ledger.deferred.map DeferredDigestCheck.chained

omit [LT Measure] [DecidableLT Measure] in
theorem chain_getElem? (ledger : EquivalenceLedger Measure) {i : Nat}
    {check : DeferredDigestCheck} (here : ledger.deferred[i]? = some check) :
    ledger.chain[i]? = some check.chained :=
  (List.getElem?_map ..).trans (congrArg _ here)

theorem deferred_finding (ledger : EquivalenceLedger Measure) {i : Nat}
    {check : DeferredDigestCheck} (here : ledger.deferred[i]? = some check) :
    ∃ finding,
      (digestFindings { ledger with deferred := [] } ledger.deferred)[i]? = some finding ∧
      finding.summary = ((check.entry, check.rule,
        if Lib.passes (Lib.statusAt ledger.status ledger.chain i) check.chained then
          EquivalenceOutcome.hashMismatchAllowedBySourceLayerEquivalence
        else .notEquivalent), 1) :=
  digestFindings_getElem? { ledger with deferred := [] } ledger.deferred here

theorem allowed_iff (ledger : EquivalenceLedger Measure) {i : Nat} {check : DeferredDigestCheck}
    {finding : EquivalenceFinding Measure} (here : ledger.deferred[i]? = some check)
    (made : (digestFindings { ledger with deferred := [] } ledger.deferred)[i]? = some finding) :
    finding.outcome = .hashMismatchAllowedBySourceLayerEquivalence ↔
      Lib.passes (Lib.statusAt ledger.status ledger.chain i) check.chained = true := by
  obtain ⟨finding', made', summary⟩ := deferred_finding ledger here
  rw [made] at made'
  cases made'
  have outcome := congrArg (fun summary => summary.1.2.2) summary
  dsimp only [EquivalenceFinding.summary, EquivalenceFinding.foldKey] at outcome
  rw [outcome]
  constructor
  · intro same
    by_contra fails
    rw [if_neg fails] at same
    cases same
  · exact fun passes => if_pos passes

theorem finally_iff (ledger : EquivalenceLedger Measure) (check : DeferredDigestCheck) :
    (∀ source ∈ check.sourceKeys,
      ledger.resolveDeferredDigests.sourceNotEquivalent.find? source = some false) ↔
    Lib.passes (Lib.settle ledger.status ledger.chain) check.chained = true := by
  have final : ledger.resolveDeferredDigests.status = Lib.settle ledger.status ledger.chain :=
    status_resolveChecks { ledger with deferred := [] } ledger.deferred
  rw [← final, Lib.passes_eq_true]
  rfl

theorem followsFinalVerdicts_iff (ledger : EquivalenceLedger Measure) :
    FollowsFinalVerdicts ledger ↔ Lib.InOrder ledger.status ledger.chain := by
  rw [← Lib.followsFinal_iff]
  constructor
  · intro follows i check here
    rw [Option.mem_def, EquivalenceLedger.chain, List.getElem?_map] at here
    obtain ⟨deferred, isDeferred, rfl⟩ := Option.map_eq_some_iff.mp here
    obtain ⟨finding, made, -⟩ := deferred_finding ledger isDeferred
    rw [← finally_iff, ← allowed_iff ledger isDeferred made]
    exact follows i deferred finding isDeferred made
  · intro follows i check finding here made
    rw [finally_iff, allowed_iff ledger here made]
    exact follows i check.chained (chain_getElem? ledger here)

/-- Every check was deferred for an entry that was compared. -/
def EntriesCompared (ledger : EquivalenceLedger Measure) : Prop :=
  ∀ check ∈ ledger.deferred, ledger.sourceNotEquivalent.find? check.entry ≠ none

open scoped Classical in
/-- What a check reports, by the chains of checks in any order. -/
noncomputable def finalSummary (status : String → Option Bool)
    (checks : List (ChainedCheck String)) (check : DeferredDigestCheck) : FoldKey × UInt64 :=
  ((check.entry, check.rule,
    if Lib.Fails status checks check.chained then EquivalenceOutcome.notEquivalent
    else .hashMismatchAllowedBySourceLayerEquivalence), 1)

theorem digestFindings_final {ledger : EquivalenceLedger Measure}
    (compared : EntriesCompared ledger) (follows : Lib.InOrder ledger.status ledger.chain) :
    (digestFindings { ledger with deferred := [] } ledger.deferred).map
        EquivalenceFinding.summary =
      ledger.deferred.map (finalSummary ledger.status ledger.chain) := by
  have entries : ∀ check ∈ ledger.chain, ledger.status check.entry ≠ none := by
    intro check mem
    obtain ⟨deferred, isDeferred, rfl⟩ := List.mem_map.mp mem
    exact compared deferred isDeferred
  refine List.ext_getElem? fun i => ?_
  rw [List.getElem?_map, List.getElem?_map]
  cases here : ledger.deferred[i]? with
  | none =>
    rw [List.getElem?_eq_none_iff.mpr]
    · rfl
    · rw [digestFindings_length]
      exact List.getElem?_eq_none_iff.mp here
  | some check =>
    obtain ⟨finding, made, summary⟩ := deferred_finding ledger here
    have verdict := Lib.passes_iff_not_fails entries (Lib.followsFinal_iff.mpr follows)
      (chain_getElem? ledger here)
    rw [made, Option.map_some, Option.map_some, summary, finalSummary]
    by_cases fails : Lib.Fails ledger.status ledger.chain check.chained
    · rw [if_pos fails, if_neg (Bool.eq_false_iff.mp (verdict.mpr fails))]
    · have passes := Bool.of_not_eq_false (verdict.not.mpr fails)
      rw [if_neg fails, if_pos passes]

theorem tally_resolved {ledger : EquivalenceLedger Measure} (compared : EntriesCompared ledger)
    (follows : Lib.InOrder ledger.status ledger.chain) :
    tally (ledger.resolveDeferredDigests.findings.map EquivalenceFinding.summary) =
      tally (ledger.deferred.map (finalSummary ledger.status ledger.chain) ++
        ledger.findings.map EquivalenceFinding.summary) := by
  rw [EquivalenceLedger.resolveDeferredDigests, resolveChecks_eq, tally_adds, List.map_append,
    digestFindings_final compared follows]

theorem deferred_digests_follow_final_iff (operations : List (LedgerOperation Measure)) :
    (FollowsFinalVerdicts (runLedger operations) ↔
      Lib.InOrder (runLedger operations).status (runLedger operations).chain) ∧
    ∀ operations', operations.Perm operations' → EntriesCompared (runLedger operations) →
      Lib.InOrder (runLedger operations).status (runLedger operations).chain →
      Lib.InOrder (runLedger operations').status (runLedger operations').chain →
      SameReport (runLedger operations).resolveDeferredDigests
        (runLedger operations').resolveDeferredDigests := by
  refine ⟨followsFinalVerdicts_iff _, fun operations' perm compared follows follows' => ?_⟩
  have status : (runLedger operations).status = (runLedger operations').status := by
    rw [runLedger, runLedger, status_run, status_run]
    exact perm.foldl_eq' (fun operation _ other _ status => marked_comm status operation other) _
  have deferred : (runLedger operations).deferred.Perm (runLedger operations').deferred := by
    rw [runLedger, runLedger, deferred_run, deferred_run]
    exact perm.flatMap_right _
  have compared' : EntriesCompared (runLedger operations') := fun check mem => by
    have known := compared check (deferred.symm.subset mem)
    exact fun unknown => known ((congrFun status check.entry).trans unknown)
  have summaries : finalSummary (runLedger operations).status (runLedger operations).chain =
      finalSummary (runLedger operations').status (runLedger operations').chain := by
    have chains := deferred.map DeferredDigestCheck.chained
    have fails : Lib.Fails (runLedger operations).status (runLedger operations).chain =
        Lib.Fails (runLedger operations').status (runLedger operations').chain :=
      funext fun check => propext
        ⟨Lib.Fails.congr status.symm chains, Lib.Fails.congr status chains.symm⟩
    funext check
    unfold finalSummary
    rw [fails]
  refine sameReport_of ?_
  rw [tally_resolved compared follows, tally_resolved compared' follows', summaries]
  refine (tally_perm ((deferred.map _).append_right _)).trans (tally_append_congr _ ?_)
  rw [runLedger, runLedger, tally_run, tally_run]
  exact tally_perm ((perm.flatMap_right _).append_right _)

end Runs

/-- The digest of the block streams, in the index manifest. -/
def blocksManifestCheck : DeferredDigestCheck where
  entry := "index/index_manifest.json"
  location := "/created_from/binary_blocks_manifest_blake3"
  rule := "derived_digest:/created_from/binary_blocks_manifest_blake3"
  sourceKeys := kBlockStreamSources
  named := by decide

/-- The digest of a depth block, in the record that locates it. -/
def depthBlockCheck : DeferredDigestCheck where
  entry := "spatial/depth.index.jsonl"
  location := "line 1 /payload_blake3"
  rule := "derived_digest:/payload_blake3"
  sourceKeys := [blockSourceKey "spatial/depth.blocks.svpdz" 0]
  named := by decide

/-- The entries of two packages in the order of their paths. The depth blocks are the same
bytes, so no block of them is compared; the record of one names another payload digest. -/
def packageOperations : List (LedgerOperation Nat) :=
  [.markCompared "embeddings/embeddings.blocks.svpez",
    .markCompared "embeddings/embeddings.index.jsonl",
    .markCompared "index/index_manifest.json", .deferDigest blocksManifestCheck,
    .markCompared "spatial/depth.blocks.svpdz", .markCompared "spatial/depth.index.jsonl",
    .deferDigest depthBlockCheck, .markCompared "spatial/masks.blocks.svpmz",
    .markCompared "spatial/masks.index.jsonl"]

/-- The manifest's digest is allowed before the index of the depth blocks fails. -/
theorem deferred_digest_late_failure :
    ¬ FollowsFinalVerdicts (runLedger packageOperations) := by
  intro follows
  have late := (follows 0 blocksManifestCheck _ rfl rfl).mp (by decide)
    "spatial/depth.index.jsonl" (by decide)
  revert late
  decide

/-- Where the depth index is compared first, its failure is found in time. -/
theorem deferred_digests_follow_final_sample :
    FollowsFinalVerdicts (runLedger
      ([.markCompared "index/index_manifest.json", .markCompared "spatial/depth.index.jsonl",
        .deferDigest depthBlockCheck, .deferDigest blocksManifestCheck] :
          List (LedgerOperation Nat))) :=
  (deferred_digests_follow_final_iff _).1.mpr (Lib.inOrder_of_pairwise (by decide))

end Svp.Validation
