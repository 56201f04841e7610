import MailPortal.Automation.Rules

/-!
# The Automation Run Tables

A run is the work that one inbound message gives the enabled rules. It is captured with a
snapshot of the rules, claimed under a lease, and finalized or failed. The operations are
functions from the tables to a result and new tables, or to an error that rolls back.

Deleting a run deletes its rules, results and references with it. `pruneHistory` also prunes
the table of rule tests, which no run looks at; that part is left out.
-/

namespace MailPortal.Automation

open Failure Table

/-- The states of a run. -/
inductive AutomationRunState
  | pending
  | processing
  | noMatch
  | applied
  | appliedWithSkips
  | failed
  deriving DecidableEq

/-- The states that a run does not leave. -/
def AutomationRunState.isFinal : AutomationRunState → Bool
  | .pending => false
  | .processing => false
  | _ => true

/-- A row of `automation_runs`. -/
structure RunRow where
  id : String
  triggerMessageId : String
  rulesetGeneration : ℕ
  state : AutomationRunState
  attemptCount : ℕ
  nextAttemptAt : Option String
  leaseToken : Option String
  leaseExpiresAt : Option String
  startedAt : Option String
  completedAt : Option String
  evaluatedCount : ℕ
  matchedCount : ℕ
  appliedCount : ℕ
  stoppedByRuleId : Option String
  failureCategory : Option String
  createdAt : String
  updatedAt : String
  deriving DecidableEq

/-- A row of `automation_run_rules`. -/
structure RunRuleRow (Text : Type) where
  runId : String
  ordinal : ℕ
  ruleId : String
  ruleName : String
  ruleVersion : ℕ
  definitionJson : Text
  definitionFingerprint : String
  deriving DecidableEq

/-- A row of `automation_run_label_refs` or of `automation_run_folder_refs`. -/
structure RunRef where
  runId : String
  target : String
  deriving DecidableEq

/-- What became of an action. -/
inductive ActionStatus
  | applied
  | alreadySatisfied
  | skippedConflict
  | skippedInvalidTarget
  deriving DecidableEq

/-- An action, and what became of it. -/
structure AutomationActionResult where
  action : String
  status : ActionStatus
  targetId : Option String
  deriving DecidableEq

/-- What became of a rule in a run. -/
inductive RunResultOutcome
  | notMatched
  | applied
  | alreadySatisfied
  | skippedConflict
  | skippedInvalidTarget
  | skippedScopeChanged
  | stopped
  deriving DecidableEq

/-- The result of a rule. -/
structure AutomationPlannedRuleResult where
  ordinal : ℕ
  ruleId : String
  ruleName : String
  ruleVersion : ℕ
  outcome : RunResultOutcome
  matchedConditionIndexes : List ℕ
  plannedActions : List String
  actionResults : List AutomationActionResult
  failureCategory : Option String
  deriving DecidableEq

/-- A row of `automation_run_results`. -/
structure RunResultRow extends AutomationPlannedRuleResult where
  runId : String
  attemptCount : ℕ
  createdAt : String
  deriving DecidableEq

/-- The tables of the runs. -/
structure RunTables (Text : Type) where
  runs : List RunRow
  runRules : List (RunRuleRow Text)
  results : List RunResultRow
  labelRefs : List RunRef
  folderRefs : List RunRef
  deriving DecidableEq

def RunTables.empty {Text : Type} : RunTables Text := ⟨[], [], [], [], []⟩

/-- The final state of a plan. -/
inductive PlanState
  | noMatch
  | applied
  | appliedWithSkips
  | failed
  deriving DecidableEq

def PlanState.state : PlanState → AutomationRunState
  | .noMatch => .noMatch
  | .applied => .applied
  | .appliedWithSkips => .appliedWithSkips
  | .failed => .failed

/-- What `finalizeClaim` stores of a plan. The actions themselves go to `applyActions`. -/
structure AutomationActionPlan where
  state : PlanState
  evaluatedCount : ℕ
  matchedCount : ℕ
  appliedCount : ℕ
  stoppedByRuleId : Option String
  results : List AutomationPlannedRuleResult
  deriving DecidableEq

/-- A rule of a claimed run. -/
structure AutomationRuleVersionSnapshot where
  ordinal : ℕ
  ruleId : String
  ruleName : String
  version : ℕ
  definition : AutomationRuleDefinition
  definitionFingerprint : String
  deriving DecidableEq

/-- A run that is leased. -/
structure AutomationRunClaim where
  id : String
  triggerMessageId : String
  rulesetGeneration : ℕ
  attemptCount : ℕ
  leaseToken : String
  leaseExpiresAt : String
  rules : List AutomationRuleVersionSnapshot
  deriving DecidableEq

/-- What `captureLiveInbound` returns. -/
structure CaptureOutcome where
  runId : String
  state : AutomationRunState
  replayed : Bool
  captureFailed : Bool
  deriving DecidableEq

variable {Input Text : Type}

/-! ### Tables -/

/-- `time <= ?`; a missing time compares to nothing. -/
def notAfter (time : Option String) (timestamp : String) : Bool :=
  match time with
  | some t => t ≤ timestamp
  | none => false

/-- `time > ?`. -/
def isAfter (time : Option String) (timestamp : String) : Bool :=
  match time with
  | some t => timestamp < t
  | none => false

/-- Delete runs, and with them what belongs to them. -/
def deleteRuns (doomed : RunRow → Bool) (tables : RunTables Text) : RunTables Text :=
  let gone (runId : String) : Bool := tables.runs.any fun r => doomed r && r.id = runId
  { runs := deleteWhere (fun r => gone r.id) tables.runs
    runRules := deleteWhere (fun r => gone r.runId) tables.runRules
    results := deleteWhere (fun r => gone r.runId) tables.results
    labelRefs := deleteWhere (fun r => gone r.runId) tables.labelRefs
    folderRefs := deleteWhere (fun r => gone r.runId) tables.folderRefs }

/-- `UPDATE automation_runs SET … WHERE …`. -/
def updateRuns (p : RunRow → Bool) (f : RunRow → RunRow) (tables : RunTables Text) :
    RunTables Text := { tables with runs := updateWhere p f tables.runs }

/-- Drop the references of the runs that meet a condition. -/
def dropRefs (p : String → Bool) (tables : RunTables Text) : RunTables Text :=
  { tables with
    labelRefs := deleteWhere (fun ref => p ref.runId) tables.labelRefs
    folderRefs := deleteWhere (fun ref => p ref.runId) tables.folderRefs }

/-- `ORDER BY completed_at ASC, id ASC`; a missing time comes first. -/
def RunRow.completedBefore (a b : RunRow) : Prop :=
  match a.completedAt, b.completedAt with
  | none, none => a.id ≤ b.id
  | none, some _ => True
  | some _, none => False
  | some s, some t => s < t ∨ s = t ∧ a.id ≤ b.id

instance : DecidableRel RunRow.completedBefore := fun a b => by
  unfold RunRow.completedBefore
  split <;> infer_instance

/-- `pruneHistory`: old runs first, then those beyond the number that is kept. -/
def pruneHistory (timestampMs : ℤ) (tables : RunTables Text) :
    Except AutomationError (RunTables Text) := do
  let runCutoff ← canonicalIso (timestampMs - liveRetentionMs)
  let old := ((tables.runs.filter fun r =>
      r.state.isFinal && notAfter r.completedAt runCutoff).insertionSort
    RunRow.completedBefore).take pruneBatch
  let tables := deleteRuns (fun r => old.contains r) tables
  let final := (tables.runs.filter (·.state.isFinal)).insertionSort RunRow.completedBefore
  let surplus := (final.take (final.length - liveRuns)).take pruneBatch
  .ok (deleteRuns (fun r => surplus.contains r) tables)

/-! ### Capture -/

/-- An enabled rule with its active version, as the query of `captureLiveInbound` joins them. -/
structure EnabledRule (Text : Type) where
  rule : RuleRow
  version : VersionRow Text
  deriving DecidableEq

/-- The enabled rules with their active versions, in order, as many as may be enabled. -/
def enabledRules (rules : RuleTables Text) : List (EnabledRule Text) :=
  ((((rules.rules.filter (·.state = .enabled)).insertionSort RuleRow.before).flatMap fun rule =>
      (rules.versions.filter fun v => v.ruleId = rule.id && some v.version = rule.activeVersion).map
        fun version => ⟨rule, version⟩)).take maxEnabledRules

/-- The name that the definition of a rule has, when the definition and its fingerprint are
well formed. -/
def activeName (contract : DefinitionContract Input Text) (enabled : EnabledRule Text) :
    Except AutomationError String := do
  let definition ← contract.readDefinition enabled.version.definitionJson
  require (DefinitionContract.isFingerprint enabled.version.definitionFingerprint)
    (.rule .invalid "Stored Automation Rule fingerprint is invalid")
  .ok definition.name

/-- Copy the references of a version to a run, each once. -/
def copyRefs (runId : String) (rule : EnabledRule Text) (refs : List TargetRef)
    (copied : List RunRef) : List RunRef :=
  (refs.filter fun ref => ref.ruleId = rule.rule.id && ref.version = rule.version.version).foldl
    (fun copied ref =>
      if copied.contains ⟨runId, ref.target⟩ then copied else copied ++ [⟨runId, ref.target⟩])
    copied

/-- The snapshot of a rule in a run. -/
def snapshotRow (runId : String) (ordinal : ℕ) (rule : EnabledRule Text) (name : String) :
    RunRuleRow Text where
  runId := runId
  ordinal := ordinal
  ruleId := rule.rule.id
  ruleName := name
  ruleVersion := rule.version.version
  definitionJson := rule.version.definitionJson
  definitionFingerprint := rule.version.definitionFingerprint

/-- The run as it is reserved, before its rules are read. -/
def reservedRun (messageId acceptedAt : String) (rulesetGeneration : ℕ) : RunRow where
  id := "automation:" ++ messageId
  triggerMessageId := messageId
  rulesetGeneration := rulesetGeneration
  state := .pending
  attemptCount := 0
  nextAttemptAt := none
  leaseToken := none
  leaseExpiresAt := none
  startedAt := none
  completedAt := none
  evaluatedCount := 0
  matchedCount := 0
  appliedCount := 0
  stoppedByRuleId := none
  failureCategory := some "capture_in_progress"
  createdAt := acceptedAt
  updatedAt := acceptedAt

/-- The run whose rules could not be read. -/
def RunRow.captureFailed (run : RunRow) (acceptedAt : String) : RunRow :=
  { run with
    state := .failed
    completedAt := some acceptedAt
    failureCategory := some "capture_failed" }

/-- The run with its rules; without any there is nothing to do. -/
def RunRow.captured (run : RunRow) (nothing : Bool) (acceptedAt : String) : RunRow :=
  { run with
    state := if nothing then .noMatch else .pending
    nextAttemptAt := if nothing then none else some acceptedAt
    completedAt := if nothing then some acceptedAt else none
    failureCategory := none }

/-- A run is inserted. -/
def insertRun (run : RunRow) (tables : RunTables Text) : RunTables Text :=
  { tables with runs := tables.runs ++ [run] }

/-- The snapshot of the enabled rules is copied to a run. The run is new, so its rules cannot
meet the primary key of others. -/
def copySnapshot (runId : String) (rules : RuleTables Text) (enabled : List (EnabledRule Text))
    (names : List String) (tables : RunTables Text) : RunTables Text :=
  { tables with
    runRules := tables.runRules ++ (enabled.zip names).zipIdx.map fun entry =>
      snapshotRow runId entry.2 entry.1.1 entry.1.2
    labelRefs := enabled.foldl (fun copied rule =>
      copyRefs runId rule rules.labelRefs copied) tables.labelRefs
    folderRefs := enabled.foldl (fun copied rule =>
      copyRefs runId rule rules.folderRefs copied) tables.folderRefs }

/-- `captureLiveInbound`, for the messages that there are and the rules as they are. -/
def captureLiveInbound (contract : DefinitionContract Input Text) (rules : RuleTables Text)
    (emails : List String) (messageId acceptedAt : String) (tables : RunTables Text) :
    Except AutomationError (CaptureOutcome × RunTables Text) := do
  let acceptedAtMs ← orThrow
    (if messageId = "" || 300 < codeUnits messageId || !isCanonicalUtcTimestamp acceptedAt then none
      else isoTimeValue acceptedAt) (.rule .invalid "Automation Run trigger is invalid")
  match tables.runs.find? fun r => r.triggerMessageId = messageId with
  | some existing =>
      .ok (⟨existing.id, existing.state, true,
        existing.failureCategory = some "capture_failed"⟩, tables)
  | none => do
      let run := reservedRun messageId acceptedAt rules.state.rulesetGeneration
      require (tables.runs.all fun r => r.id ≠ run.id) (.constraint .unique)
      require (emails.contains messageId) (.constraint .foreignKey)
      let enabled := enabledRules rules
      match enabled.mapM (activeName contract) with
      | .error _ => do
          let tables ← pruneHistory acceptedAtMs
            (insertRun (run.captureFailed acceptedAt) tables)
          .ok (⟨run.id, .failed, false, true⟩, tables)
      | .ok names => do
          let run := run.captured enabled.isEmpty acceptedAt
          let tables := copySnapshot run.id rules enabled names (insertRun run tables)
          let tables ← (if enabled.isEmpty then pruneHistory acceptedAtMs tables else .ok tables)
          .ok (⟨run.id, run.state, false, false⟩, tables)

/-! ### Claims -/

/-- A run whose lease has run out. -/
def RunRow.expired (run : RunRow) (timestamp : String) : Bool :=
  run.state = .processing && notAfter run.leaseExpiresAt timestamp

/-- The run fails after its last attempt. -/
def RunRow.exhausted (run : RunRow) (timestamp : String) : RunRow :=
  { run with
    state := .failed
    completedAt := some timestamp
    updatedAt := timestamp
    leaseToken := none
    leaseExpiresAt := none
    failureCategory := some "attempts_exhausted" }

/-- The run is tried again. -/
def RunRow.recycled (run : RunRow) (timestamp : String) : RunRow :=
  { run with
    state := .pending
    nextAttemptAt := some timestamp
    updatedAt := timestamp
    leaseToken := none
    leaseExpiresAt := none }

/-- The leases that have run out end. -/
def recycleExpired (timestamp : String) (tables : RunTables Text) : RunTables Text :=
  let tables := updateRuns (fun r => r.expired timestamp && maxAttempts ≤ r.attemptCount)
    (·.exhausted timestamp) tables
  let tables := dropRefs (fun runId =>
    tables.runs.any fun r => r.id = runId && r.state = .failed) tables
  updateRuns (fun r => r.expired timestamp && r.attemptCount < maxAttempts)
    (·.recycled timestamp) tables

/-- `ORDER BY next_attempt_at ASC, id ASC`, among rows with a next attempt. -/
def RunRow.dueBefore (a b : RunRow) : Prop :=
  a.nextAttemptAt.getD "" < b.nextAttemptAt.getD "" ∨
    a.nextAttemptAt.getD "" = b.nextAttemptAt.getD "" ∧ a.id ≤ b.id

instance : DecidableRel RunRow.dueBefore := fun a b =>
  inferInstanceAs (Decidable (a.nextAttemptAt.getD "" < b.nextAttemptAt.getD "" ∨
    a.nextAttemptAt.getD "" = b.nextAttemptAt.getD "" ∧ a.id ≤ b.id))

/-- The pending run that is due first. -/
def dueRun (timestamp : String) (tables : RunTables Text) : Option RunRow :=
  ((tables.runs.filter fun r =>
    r.state = .pending && notAfter r.nextAttemptAt timestamp).insertionSort
      RunRow.dueBefore).head?

/-- `ORDER BY ordinal ASC`. -/
def RunRuleRow.before (a b : RunRuleRow Text) : Prop := a.ordinal ≤ b.ordinal

instance : DecidableRel (RunRuleRow.before : RunRuleRow Text → RunRuleRow Text → Prop) := fun a b =>
  inferInstanceAs (Decidable (a.ordinal ≤ b.ordinal))

/-- A captured rule, read back. -/
def readSnapshot (contract : DefinitionContract Input Text) (row : RunRuleRow Text) :
    Except AutomationError AutomationRuleVersionSnapshot := do
  let definition ← contract.readDefinition row.definitionJson
  .ok ⟨row.ordinal, row.ruleId, row.ruleName, row.ruleVersion, definition,
    row.definitionFingerprint⟩

/-- The run is leased to the holder of a token. -/
def RunRow.leased (run : RunRow) (token leaseExpiresAt timestamp : String) : RunRow :=
  { run with
    state := .processing
    attemptCount := run.attemptCount + 1
    leaseToken := some token
    leaseExpiresAt := some leaseExpiresAt
    startedAt := run.startedAt.orElse fun _ => some timestamp
    updatedAt := timestamp }

/-- The run that is due is leased. -/
def leaseRun (due : RunRow) (token leaseExpiresAt timestamp : String) (tables : RunTables Text) :
    RunTables Text :=
  updateRuns (fun r => r.id = due.id && r.state = .pending)
    (·.leased token leaseExpiresAt timestamp) tables

/-- The run fails, as its snapshot does not read back. -/
def RunRow.corrupted (run : RunRow) (timestamp : String) : RunRow :=
  { run with
    state := .failed
    completedAt := some timestamp
    updatedAt := timestamp
    leaseToken := none
    leaseExpiresAt := none
    nextAttemptAt := none
    failureCategory := some "invalid_captured_definition" }

/-- The run that was leased fails. -/
def failCorrupt (due : RunRow) (token timestamp : String) (tables : RunTables Text) :
    RunTables Text :=
  dropRefs (· = due.id) (updateRuns
    (fun r => r.id = due.id && r.state = .processing && r.leaseToken = some token)
    (·.corrupted timestamp) tables)

/-- The loop of `claimNextRun`. `tokens` are what `createToken` returns, call after call. -/
def claimLoop (contract : DefinitionContract Input Text) (tokens : ℕ → String)
    (timestampMs : ℤ) (timestamp : String) : ℕ → ℕ → RunTables Text →
    Except AutomationError (Option AutomationRunClaim × RunTables Text)
  | 0, _, tables => .ok (none, tables)
  | rounds + 1, drawn, tables =>
      match dueRun timestamp tables with
      | none => .ok (none, tables)
      | some due => do
          let token := tokens drawn
          let leaseExpiresAt ← canonicalIso (timestampMs + leaseMs)
          let tables := leaseRun due token leaseExpiresAt timestamp tables
          let captured := (tables.runRules.filter (·.runId = due.id)).insertionSort
            RunRuleRow.before
          match captured.mapM (readSnapshot contract) with
          | .error _ =>
              claimLoop contract tokens timestampMs timestamp rounds (drawn + 1)
                (failCorrupt due token timestamp tables)
          | .ok rules =>
              .ok (some ⟨due.id, due.triggerMessageId, due.rulesetGeneration, due.attemptCount + 1,
                token, leaseExpiresAt, rules⟩, tables)

/-- `claimNextRun`, when `drawn` tokens have been created before. -/
def claimNextRun (contract : DefinitionContract Input Text) (tokens : ℕ → String) (drawn : ℕ)
    (timestampMs : ℤ) (tables : RunTables Text) :
    Except AutomationError (Option AutomationRunClaim × RunTables Text) := do
  let timestamp ← canonicalIso timestampMs
  claimLoop contract tokens timestampMs timestamp maxEnabledRules drawn
    (recycleExpired timestamp tables)

/-! ### Finalization -/

/-- The run is processed under the lease of a claim, and the lease has not run out. -/
def ownsRun (claim : AutomationRunClaim) (timestamp : String) (tables : RunTables Text) : Bool :=
  tables.runs.any fun r => r.id = claim.id && r.state = .processing &&
    r.leaseToken = some claim.leaseToken && isAfter r.leaseExpiresAt timestamp

/-- `WHERE id = ? AND state = 'processing' AND lease_token = ?`. -/
def RunRow.heldBy (claim : AutomationRunClaim) (run : RunRow) : Bool :=
  run.id = claim.id && run.state = .processing && run.leaseToken = some claim.leaseToken

/-- The results of a plan as rows. -/
def resultRows (claim : AutomationRunClaim) (timestamp : String)
    (results : List AutomationPlannedRuleResult) : List RunResultRow :=
  results.map fun result => { result with
    runId := claim.id
    attemptCount := claim.attemptCount
    createdAt := timestamp }

/-- The primary key of results: one result an ordinal in a run. -/
def resultsFit (rows : List RunResultRow) (runId : String)
    (results : List AutomationPlannedRuleResult) : Bool :=
  (results.map (·.ordinal)).eraseDups.length = results.length &&
    results.all fun result => rows.all fun row => row.runId ≠ runId || row.ordinal ≠ result.ordinal

/-- `finalizeClaim`. `applyActions` is what applying the actions of the plan comes to. -/
def finalizeClaim (claim : AutomationRunClaim) (timestampMs : ℤ) (plan : AutomationActionPlan)
    (applyActions : Except AutomationError Unit) (tables : RunTables Text) :
    Except AutomationError (Bool × RunTables Text) := do
  let timestamp ← canonicalIso timestampMs
  if !ownsRun claim timestamp tables then .ok (false, tables)
  else
    applyActions
    require (resultsFit tables.results claim.id plan.results) (.constraint .unique)
    let tables := { tables with
      results := tables.results ++ resultRows claim timestamp plan.results }
    let tables := updateRuns (RunRow.heldBy claim) (fun r => { r with
      state := plan.state.state
      evaluatedCount := plan.evaluatedCount
      matchedCount := plan.matchedCount
      appliedCount := plan.appliedCount
      stoppedByRuleId := plan.stoppedByRuleId
      completedAt := some timestamp
      updatedAt := timestamp
      leaseToken := none
      leaseExpiresAt := none
      nextAttemptAt := none
      failureCategory :=
        if plan.state = .failed then some "scope_or_definition_invalid" else none }) tables
    let tables ← pruneHistory timestampMs (dropRefs (· = claim.id) tables)
    .ok (true, tables)

/-- How long a run waits after an attempt. -/
def retryDelay (attemptCount : ℕ) : ℤ :=
  retryMs.getD (min (attemptCount - 1) (retryMs.length - 1)) 0

/-- `failClaim`. -/
def failClaim (claim : AutomationRunClaim) (timestampMs : ℤ) (category : String)
    (transient : Bool) (tables : RunTables Text) :
    Except AutomationError (Bool × RunTables Text) := do
  let timestamp ← canonicalIso timestampMs
  if !ownsRun claim timestamp tables then .ok (false, tables)
  else
    let canRetry := transient && claim.attemptCount < maxAttempts
    let retryAt ← (if canRetry then
        (canonicalIso (timestampMs + retryDelay claim.attemptCount)).map some
      else .ok none)
    let tables := updateRuns (RunRow.heldBy claim) (fun r => { r with
      state := if canRetry then .pending else .failed
      nextAttemptAt := retryAt
      completedAt := if canRetry then none else some timestamp
      updatedAt := timestamp
      leaseToken := none
      leaseExpiresAt := none
      failureCategory := some category }) tables
    .ok (true, if canRetry then tables else dropRefs (· = claim.id) tables)

end MailPortal.Automation
