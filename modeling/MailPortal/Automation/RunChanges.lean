import MailPortal.Automation.RunStore

/-!
# What a Run Operation Changes

Inversion lemmas for the operations on runs. A capture finds a run, fails to read the rules, or
copies them (`captureLiveInbound_eq_ok`); pruning deletes final runs (`pruneHistory_eq_ok`);
a claim that is finalized or failed owns its run (`finalizeClaim_eq_ok`, `failClaim_eq_ok`).
-/

namespace MailPortal.Automation

open Failure Table

variable {Input Text : Type} {contract : DefinitionContract Input Text}
  {tables tables' : RunTables Text}
variable {timestampMs : ℤ} {claim : AutomationRunClaim}
variable {rules : RuleTables Text} {outcome : CaptureOutcome} {plan : AutomationActionPlan}
  {applyActions : Except AutomationError Unit}

/-- Pruning deletes final runs, twice. -/
theorem pruneHistory_eq_ok (h : pruneHistory timestampMs tables = .ok tables') :
    ∃ old surplus : RunRow → Bool,
      (∀ run ∈ tables.runs, old run = true → run.state.isFinal = true) ∧
      (∀ run ∈ (deleteRuns old tables).runs, surplus run = true → run.state.isFinal = true) ∧
      tables' = deleteRuns surplus (deleteRuns old tables) := by
  obtain ⟨runCutoff, -, h⟩ := bind_eq_ok.mp h
  cases h
  refine ⟨_, _, fun run _ hold => ?_, fun run _ hsurplus => ?_, rfl⟩
  · have hmem := List.mem_of_mem_take (List.contains_iff_mem.mp hold)
    have hrun := (List.mem_filter.mp ((List.perm_insertionSort _ _).mem_iff.mp hmem)).2
    exact (Bool.and_eq_true_iff.mp hrun).1
  · have hmem := List.mem_of_mem_take (List.mem_of_mem_take (List.contains_iff_mem.mp hsurplus))
    exact (List.mem_filter.mp ((List.perm_insertionSort _ _).mem_iff.mp hmem)).2

theorem copySnapshot_nil (runId : String) (rules : RuleTables Text) (names : List String) :
    copySnapshot runId rules [] names tables = tables := by
  rw [copySnapshot, List.zip_nil_left, List.zipIdx_nil, List.map_nil, List.append_nil]
  rfl

/-- What a capture does when the run is new. -/
inductive Captured (contract : DefinitionContract Input Text) (rules : RuleTables Text)
    (acceptedAt : String) (run : RunRow) (tables : RunTables Text) (outcome : CaptureOutcome)
    (tables' : RunTables Text) : Prop
  /-- An enabled rule does not read back. -/
  | unread (e : AutomationError) (acceptedAtMs : ℤ)
      (hnames : (enabledRules rules).mapM (activeName contract) = .error e)
      (houtcome : outcome = ⟨run.id, .failed, false, true⟩)
      (hpruned : pruneHistory acceptedAtMs (insertRun (run.captureFailed acceptedAt) tables) =
        .ok tables')
  /-- No rule is enabled. -/
  | nothing (acceptedAtMs : ℤ) (hnone : enabledRules rules = [])
      (houtcome : outcome = ⟨run.id, .noMatch, false, false⟩)
      (hpruned : pruneHistory acceptedAtMs (insertRun (run.captured true acceptedAt) tables) =
        .ok tables')
  /-- The enabled rules are copied. -/
  | copied (names : List String)
      (hnames : (enabledRules rules).mapM (activeName contract) = .ok names)
      (houtcome : outcome = ⟨run.id, .pending, false, false⟩)
      (hcopied : tables' = copySnapshot run.id rules (enabledRules rules) names
        (insertRun (run.captured false acceptedAt) tables))

/-- The outcome of a capture of a new run. -/
theorem Captured.fresh {acceptedAt : String} {run : RunRow}
    (h : Captured contract rules acceptedAt run tables outcome tables') :
    outcome.replayed = false ∧ outcome.runId = run.id := by
  cases h with
  | unread _ _ _ houtcome => exact ⟨by rw [houtcome], by rw [houtcome]⟩
  | nothing _ _ houtcome => exact ⟨by rw [houtcome], by rw [houtcome]⟩
  | copied _ _ houtcome => exact ⟨by rw [houtcome], by rw [houtcome]⟩

/-- A capture finds the run of the message, or captures a new one. -/
theorem captureLiveInbound_eq_ok {emails : List String} {messageId acceptedAt : String}
    (h : captureLiveInbound contract rules emails messageId acceptedAt tables =
      .ok (outcome, tables')) :
    (outcome.replayed = true ∧ tables' = tables) ∨
      (∀ run ∈ tables.runs, run.id ≠ "automation:" ++ messageId) ∧
        Captured contract rules acceptedAt
          (reservedRun messageId acceptedAt rules.state.rulesetGeneration) tables outcome
          tables' := by
  obtain ⟨acceptedAtMs, -, h⟩ := bind_eq_ok.mp h
  split at h
  · cases h
    exact .inl ⟨rfl, rfl⟩
  · obtain ⟨_, hnew, h⟩ := bind_eq_ok.mp h
    obtain ⟨_, -, h⟩ := bind_eq_ok.mp h
    have hnew := require_eq_ok.mp hnew
    refine .inr ⟨fun run hrun => ?_, ?_⟩
    · exact of_decide_eq_true (List.all_eq_true.mp hnew run hrun)
    · dsimp only at h
      split at h
      · next e hnames =>
        obtain ⟨pruned, hpruned, h⟩ := bind_eq_ok.mp h
        cases h
        exact .unread e acceptedAtMs hnames rfl hpruned
      · next names hnames =>
        cases henabled : enabledRules rules with
        | nil =>
            rw [henabled, List.mapM_nil] at hnames
            cases hnames
            rw [henabled] at h
            obtain ⟨pruned, hpruned, h⟩ := bind_eq_ok.mp h
            cases h
            rw [copySnapshot_nil] at hpruned
            exact .nothing acceptedAtMs henabled rfl hpruned
        | cons rule rest =>
            rw [henabled] at h
            obtain ⟨pruned, hpruned, h⟩ := bind_eq_ok.mp h
            cases h
            cases hpruned
            rw [henabled] at hnames
            refine .copied names (henabled ▸ hnames) rfl ?_
            rw [henabled]
            rfl

/-- A claim is finalized when it owns its run and its actions can be applied. -/
theorem finalizeClaim_eq_ok
    (h : finalizeClaim claim timestampMs plan applyActions tables = .ok (true, tables')) :
    ∃ timestamp final, ownsRun claim timestamp tables = true ∧ applyActions = .ok () ∧
      (∀ run, (final run).id = run.id ∧ (final run).state = plan.state.state ∧
        (final run).attemptCount = run.attemptCount) ∧
      pruneHistory timestampMs (dropRefs (· = claim.id) (updateRuns (RunRow.heldBy claim) final
        { tables with
          results := tables.results ++ resultRows claim timestamp plan.results })) =
        .ok tables' := by
  obtain ⟨timestamp, -, h⟩ := bind_eq_ok.mp h
  split at h
  · cases h
  · next howns =>
    obtain ⟨_, happlied, h⟩ := bind_eq_ok.mp h
    obtain ⟨_, -, h⟩ := bind_eq_ok.mp h
    obtain ⟨pruned, hpruned, h⟩ := bind_eq_ok.mp h
    cases h
    refine ⟨timestamp, _, by simpa using howns, happlied, ?_, hpruned⟩
    exact fun run => ⟨rfl, rfl, rfl⟩

/-- A claim that does not own its run changes nothing. -/
theorem finalizeClaim_stale
    (h : finalizeClaim claim timestampMs plan applyActions tables = .ok (false, tables')) :
    tables' = tables := by
  obtain ⟨timestamp, -, h⟩ := bind_eq_ok.mp h
  split at h
  · cases h
    rfl
  · obtain ⟨_, -, h⟩ := bind_eq_ok.mp h
    obtain ⟨_, -, h⟩ := bind_eq_ok.mp h
    obtain ⟨_, -, h⟩ := bind_eq_ok.mp h
    cases h

/-- The run of a claim that fails waits for another attempt, or fails. -/
theorem failClaim_eq_ok {category : String} {transient owned : Bool}
    (h : failClaim claim timestampMs category transient tables = .ok (owned, tables')) :
    tables' = tables ∨ ∃ settled : RunRow → RunRow,
      (∀ run, (settled run).id = run.id ∧ (settled run).attemptCount = run.attemptCount) ∧
      ((∀ run, (settled run).state = .pending ∧ (settled run).nextAttemptAt.isSome = true) ∧
          claim.attemptCount < maxAttempts ∧
          tables' = updateRuns (RunRow.heldBy claim) settled tables ∨
        (∀ run, (settled run).state = .failed) ∧
          tables' = dropRefs (· = claim.id)
            (updateRuns (RunRow.heldBy claim) settled tables)) := by
  obtain ⟨timestamp, -, h⟩ := bind_eq_ok.mp h
  split at h
  · cases h
    exact .inl rfl
  · obtain ⟨retryAt, hretry, h⟩ := bind_eq_ok.mp h
    cases h
    cases hcan : transient && decide (claim.attemptCount < maxAttempts) with
    | true =>
        have hsome : retryAt.isSome = true := by
          rw [hcan, if_pos rfl] at hretry
          cases htime : canonicalIso (timestampMs + retryDelay claim.attemptCount) with
          | ok time =>
              rw [htime] at hretry
              cases hretry
              rfl
          | error e =>
              rw [htime] at hretry
              cases hretry
        refine .inr ⟨_, ?_, .inl ⟨?_, ?_, rfl⟩⟩
        · exact fun run => ⟨rfl, rfl⟩
        · exact fun run => ⟨rfl, hsome⟩
        · exact of_decide_eq_true (Bool.and_eq_true_iff.mp hcan).2
    | false =>
        refine .inr ⟨_, ?_, .inr ⟨?_, rfl⟩⟩
        · exact fun run => ⟨rfl, rfl⟩
        · exact fun run => rfl

end MailPortal.Automation
