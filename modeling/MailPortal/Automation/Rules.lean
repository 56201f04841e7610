import MailPortal.Automation.Definition
import MailPortal.Lib.Failure
import MailPortal.Lib.Table
import Mathlib.Data.List.Sort
import Mathlib.Data.String.Basic

/-!
# The Automation Rule Tables

The rules of a mailbox, their immutable versions, and the references that keep the targets of
live versions from being deleted. Each operation of `createAutomationRulesModule` is a
function from the tables to new tables or an error; an error leaves the tables as they are,
as the transaction around the operation rolls back.

What an operation finds in the other tables (labels, folders, tests) is its `Surroundings`:
they may hold anything.
-/

namespace MailPortal.Automation

open Failure Table

/-- The states of a rule. -/
inductive AutomationRuleState
  | draft
  | enabled
  | disabled
  | needsAttention
  | archived
  deriving DecidableEq

/-- A row of `automation_rules`. -/
structure RuleRow where
  id : String
  name : String
  normalizedName : String
  state : AutomationRuleState
  activeVersion : Option ℕ
  draftVersion : Option ℕ
  nextVersion : ℕ
  position : ℕ
  revision : ℕ
  createdBy : String
  createdAt : String
  updatedBy : String
  updatedAt : String
  archivedBy : Option String
  archivedAt : Option String
  deriving DecidableEq

/-- A row of `automation_rule_versions`. -/
structure VersionRow (Text : Type) where
  ruleId : String
  version : ℕ
  definitionJson : Text
  definitionFingerprint : String
  createdBy : String
  createdAt : String
  deriving DecidableEq

/-- A row of `automation_rule_label_refs` or of `automation_rule_folder_refs`. -/
structure TargetRef where
  ruleId : String
  version : ℕ
  target : String
  deriving DecidableEq

/-- The row of `automation_rule_state`. -/
structure AutomationRulesState where
  rulesetGeneration : ℕ
  orderRevision : ℕ
  updatedAt : String
  deriving DecidableEq

/-- The tables of the rules. -/
structure RuleTables (Text : Type) where
  state : AutomationRulesState
  rules : List RuleRow
  versions : List (VersionRow Text)
  labelRefs : List TargetRef
  folderRefs : List TargetRef
  deriving DecidableEq

/-- A row of `folders`, as far as rules look at it. -/
structure FolderRow where
  id : String
  isDeletable : Bool
  deriving DecidableEq

/-- A row of `automation_rule_tests`, as far as `enable` looks at it. -/
structure AutomationTestRow where
  id : String
  ruleId : Option String
  definitionFingerprint : String
  evaluatedCount : ℕ
  matchedCount : ℕ
  acknowledgedZero : Bool
  createdAt : String
  expiresAt : String
  deriving DecidableEq

/-- What an operation finds when it runs: the time, and the tables it only reads. -/
structure Surroundings where
  now : ℤ
  labels : List String
  folders : List FolderRow
  tests : List AutomationTestRow

/-- No rules at all. -/
def RuleTables.empty {Text : Type} (updatedAt : String) : RuleTables Text where
  state := ⟨0, 0, updatedAt⟩
  rules := []
  versions := []
  labelRefs := []
  folderRefs := []

/-- `ORDER BY position ASC, id ASC`. -/
def RuleRow.before (a b : RuleRow) : Prop :=
  a.position < b.position ∨ a.position = b.position ∧ a.id ≤ b.id

instance : DecidableRel RuleRow.before := fun a b =>
  inferInstanceAs (Decidable (a.position < b.position ∨ a.position = b.position ∧ a.id ≤ b.id))

/-- `Number.isSafeInteger(expected) && revision === expected`. -/
def matchesRevision (revision : ℕ) (expected : JsNumber) : Bool :=
  expected = JsNumber.ofInt revision && revision ≤ 2 ^ 53 - 1

section Operations

variable {Input Text : Type} (contract : DefinitionContract Input Text)

/-! ### Reading -/

/-- `ruleRow`. -/
def ruleRow (tables : RuleTables Text) (ruleId : String) : Except AutomationError RuleRow :=
  orThrow (lookup RuleRow.id ruleId tables.rules)
    (.rule .notFound "Automation Rule was not found")

/-- `assertRevision`. -/
def assertRevision (rule : RuleRow) (expectedRevision : JsNumber) : Except AutomationError Unit :=
  require (matchesRevision rule.revision expectedRevision)
    (.rule .conflict "Automation Rule changed; refresh and try again")

/-- The version of a rule, if it is stored. -/
def versionRow (tables : RuleTables Text) (ruleId : String) (version : ℕ) :
    Option (VersionRow Text) :=
  tables.versions.find? fun v => v.ruleId = ruleId && v.version = version

/-- `listRules`. -/
def listRules (tables : RuleTables Text) (includeArchived : Bool) : List RuleRow :=
  (tables.rules.filter fun r => includeArchived || r.state ≠ .archived).insertionSort
    RuleRow.before

/-! ### Constraints -/

/-- The unique index over the names of rules that are not archived. -/
def nameIsFree (tables : RuleTables Text) (ruleId normalizedName : String) : Bool :=
  tables.rules.all fun r =>
    r.id = ruleId || r.state = .archived || r.normalizedName ≠ normalizedName

/-- `ruleWrite` rewrites what the database throws. -/
def ruleWrite {α : Type} : Except AutomationError α → Except AutomationError α
  | .error (.constraint .foreignKey) =>
      .error (.rule .invalid "An Automation Rule label or folder target is no longer available")
  | .error (.constraint .unique) =>
      .error (.rule .conflict "An Automation Rule with this name already exists")
  | result => result

/-! ### Versions and references -/

/-- The folders that rules may move mail to. -/
def isMoveTarget (folder : FolderRow) : Bool :=
  folder.id = "archive" || (folder.isDeletable && !folder.id.startsWith "_")

/-- The references of a version to its targets. -/
def targetRefs (ruleId : String) (version : ℕ) (targets : List String) : List TargetRef :=
  targets.map fun target => ⟨ruleId, version, target⟩

/-- `insertVersion`. The references of a version that is stored for the first time cannot be
there yet, so their primary key needs no test. -/
def insertVersion (around : Surroundings) (tables : RuleTables Text) (ruleId : String)
    (version : ℕ) (definition : AutomationRuleDefinition) (fingerprint actorId now : String) :
    Except AutomationError (RuleTables Text) := do
  require (version ≤ maxVersionsPerRule)
    (.rule .invalid "This Automation Rule has reached its retained version limit")
  require (tables.versions.length < maxRetainedVersions)
    (.rule .invalid "This Mailbox has reached its retained Automation Rule version limit")
  let definitionJson ← contract.canonicalAutomationRuleDefinition definition
  let targets := definitionTargets definition
  require (targets.labelIds.all fun labelId => labelId ∈ around.labels)
    (.rule .invalid "An Automation Rule label target is no longer available")
  require (targets.folderIds.all fun folderId =>
      ((around.folders.find? fun folder => folder.id = folderId).map isMoveTarget).getD false)
    (.rule .invalid "Automation Rules may move mail only to Archive or a custom folder")
  require (versionRow tables ruleId version).isNone (.constraint .unique)
  .ok { tables with
    versions := tables.versions ++
      [⟨ruleId, version, definitionJson, fingerprint, actorId, now⟩]
    labelRefs := tables.labelRefs ++ targetRefs ruleId version targets.labelIds
    folderRefs := tables.folderRefs ++ targetRefs ruleId version targets.folderIds }

/-- The versions of a rule that its row names. -/
def RuleRow.liveVersions (rule : RuleRow) : List ℕ :=
  rule.activeVersion.toList ++ rule.draftVersion.toList

/-- The references that `removeInactiveReferences` deletes from a table of references. -/
def isInactive (tables : RuleTables Text) (ruleId : String) (ref : TargetRef) : Bool :=
  ref.ruleId = ruleId &&
    !((tables.rules.filter (·.id = ruleId)).flatMap RuleRow.liveVersions).contains ref.version

/-- `removeInactiveReferences`. -/
def removeInactiveReferences (tables : RuleTables Text) (ruleId : String) : RuleTables Text :=
  { tables with
    labelRefs := deleteWhere (isInactive tables ruleId) tables.labelRefs
    folderRefs := deleteWhere (isInactive tables ruleId) tables.folderRefs }

/-! ### Writing -/

/-- `UPDATE automation_rules SET … WHERE id = ? AND revision = ?`. -/
def updateRule (tables : RuleTables Text) (current : RuleRow) (change : RuleRow → RuleRow) :
    RuleTables Text :=
  { tables with
    rules := updateWhere (fun r => r.id = current.id && r.revision = current.revision) change
      tables.rules }

/-- The ruleset has changed for runs that are captured from now on. -/
def bumpGeneration (tables : RuleTables Text) (timestamp : String) : RuleTables Text :=
  { tables with
    state := { tables.state with
      rulesetGeneration := tables.state.rulesetGeneration + 1
      updatedAt := timestamp } }

/-- The order of the rules has changed. -/
def bumpOrder (tables : RuleTables Text) (timestamp : String) : RuleTables Text :=
  { tables with
    state := { tables.state with
      orderRevision := tables.state.orderRevision + 1
      updatedAt := timestamp } }

/-- `createDraft`, with the identifier that `createId` gives. -/
def createDraft (around : Surroundings) (ruleId : String) (input : Input) (actorId : String)
    (expectedOrderRevision : JsNumber) (tables : RuleTables Text) :
    Except AutomationError (RuleTables Text) := do
  let definition ← contract.parse input
  let fingerprint ← contract.fingerprintAutomationRuleDefinition definition
  let timestamp ← canonicalIso around.now
  ruleWrite do
    require (expectedOrderRevision = JsNumber.ofInt tables.state.orderRevision)
      (.rule .conflict "Automation Rule order changed; refresh and try again")
    require (tables.rules.length < maxRetainedRules)
      (.rule .invalid "This Mailbox has reached its retained Automation Rule limit")
    let live := tables.rules.filter (·.state ≠ .archived)
    require (live.length < maxRules)
      (.rule .invalid "This Mailbox has reached its Automation Rule limit")
    let position := (live.map (·.position + 1)).foldl max 0
    let normalizedName := contract.normalizedName definition.name
    require ((lookup RuleRow.id ruleId tables.rules).isNone &&
      nameIsFree tables ruleId normalizedName) (.constraint .unique)
    let rule : RuleRow := {
      id := ruleId
      name := definition.name
      normalizedName := normalizedName
      state := .draft
      activeVersion := none
      draftVersion := some 1
      nextVersion := 2
      position := position
      revision := 1
      createdBy := actorId
      createdAt := timestamp
      updatedBy := actorId
      updatedAt := timestamp
      archivedBy := none
      archivedAt := none }
    let tables ← insertVersion contract around { tables with rules := tables.rules ++ [rule] }
      ruleId 1 definition fingerprint actorId timestamp
    .ok (bumpOrder tables timestamp)

/-- `updateDraft`. -/
def updateDraft (around : Surroundings) (ruleId : String) (input : Input) (actorId : String)
    (expectedRevision : JsNumber) (tables : RuleTables Text) :
    Except AutomationError (RuleTables Text) := do
  let definition ← contract.parse input
  let fingerprint ← contract.fingerprintAutomationRuleDefinition definition
  let timestamp ← canonicalIso around.now
  ruleWrite do
    let current ← ruleRow tables ruleId
    assertRevision current expectedRevision
    require (current.state ≠ .archived)
      (.rule .conflict "Archived Automation Rules cannot be edited")
    let version := current.nextVersion
    let normalizedName := contract.normalizedName definition.name
    let tables ← insertVersion contract around tables current.id version definition fingerprint
      actorId timestamp
    require (nameIsFree tables current.id normalizedName) (.constraint .unique)
    let tables := updateRule tables current fun r => { r with
      name := definition.name
      normalizedName := normalizedName
      draftVersion := some version
      nextVersion := version + 1
      state := if r.activeVersion.isNone then .draft else r.state
      revision := r.revision + 1
      updatedBy := actorId
      updatedAt := timestamp }
    .ok (removeInactiveReferences tables current.id)

/-- `ORDER BY created_at DESC, id DESC`. -/
def AutomationTestRow.after (a b : AutomationTestRow) : Prop :=
  b.createdAt < a.createdAt ∨ a.createdAt = b.createdAt ∧ b.id ≤ a.id

instance : DecidableRel AutomationTestRow.after := fun a b =>
  inferInstanceAs (Decidable (b.createdAt < a.createdAt ∨ a.createdAt = b.createdAt ∧ b.id ≤ a.id))

/-- `latestPassingTest`. -/
def latestPassingTest (tests : List AutomationTestRow) (ruleId fingerprint timestamp : String) :
    Option AutomationTestRow :=
  ((tests.filter fun t => t.ruleId = some ruleId && t.definitionFingerprint = fingerprint &&
    timestamp < t.expiresAt).insertionSort AutomationTestRow.after).head?

/-- The test lets the rule be enabled. -/
def AutomationTestRow.passes (test : AutomationTestRow) : Bool :=
  !((test.evaluatedCount = 0 || test.matchedCount = 0) && !test.acknowledgedZero)

/-- How many other rules are enabled. -/
def otherEnabled (tables : RuleTables Text) (ruleId : String) : ℕ :=
  tables.rules.countP fun r => r.state = .enabled && r.id ≠ ruleId

/-- `enable`: the draft becomes the active version. -/
def enable (around : Surroundings) (ruleId actorId : String) (expectedRevision : JsNumber)
    (tables : RuleTables Text) : Except AutomationError (RuleTables Text) := do
  let timestamp ← canonicalIso around.now
  let current ← ruleRow tables ruleId
  assertRevision current expectedRevision
  let noDraft := AutomationError.rule .conflict "Automation Rule has no draft to activate"
  require (current.state ≠ .archived) noDraft
  let draftVersion ← orThrow current.draftVersion noDraft
  let version ← orThrow (versionRow tables current.id draftVersion)
    (.rule .invalid "Automation Rule draft is unavailable")
  let test := latestPassingTest around.tests current.id version.definitionFingerprint timestamp
  require ((test.map (·.passes)).getD false)
    (.rule .activationTestRequired "Test this Automation Rule before enabling it")
  require (otherEnabled tables current.id < maxEnabledRules)
    (.rule .invalid "This Mailbox has reached its enabled Automation Rule limit")
  let tables := updateRule tables current fun r => { r with
    state := .enabled
    activeVersion := r.draftVersion
    draftVersion := none
    revision := r.revision + 1
    updatedBy := actorId
    updatedAt := timestamp }
  .ok (bumpGeneration (removeInactiveReferences tables current.id) timestamp)

/-- `setEnabled`: an active version is switched on or off. -/
def setEnabled (around : Surroundings) (ruleId : String) (enabled : Bool) (actorId : String)
    (expectedRevision : JsNumber) (tables : RuleTables Text) :
    Except AutomationError (RuleTables Text) := do
  let timestamp ← canonicalIso around.now
  let current ← ruleRow tables ruleId
  assertRevision current expectedRevision
  require (current.state ≠ .archived && current.activeVersion.isSome)
    (.rule .conflict "Automation Rule has no active version")
  if enabled && current.state = .enabled then .ok tables
  else if !enabled && current.state = .disabled then .ok tables
  else
    let tables := updateRule tables current fun r => { r with
      state := if enabled then .enabled else .disabled
      revision := r.revision + 1
      updatedBy := actorId
      updatedAt := timestamp }
    .ok (bumpGeneration tables timestamp)

/-- `archive`. -/
def archive (around : Surroundings) (ruleId actorId : String) (expectedRevision : JsNumber)
    (tables : RuleTables Text) : Except AutomationError (RuleTables Text) := do
  let timestamp ← canonicalIso around.now
  let current ← ruleRow tables ruleId
  assertRevision current expectedRevision
  if current.state = .archived then .ok tables
  else
    let tables := updateRule tables current fun r => { r with
      state := .archived
      revision := r.revision + 1
      updatedBy := actorId
      updatedAt := timestamp
      archivedBy := some actorId
      archivedAt := some timestamp }
    let tables := { tables with
      labelRefs := deleteWhere (·.ruleId = current.id) tables.labelRefs
      folderRefs := deleteWhere (·.ruleId = current.id) tables.folderRefs }
    .ok (bumpOrder (bumpGeneration tables timestamp) timestamp)

/-- `listVersions`, as definitions: every stored version of the rule has to read back. -/
def listVersions (tables : RuleTables Text) (ruleId : String) :
    Except AutomationError (List (ℕ × AutomationRuleDefinition)) := do
  let _ ← ruleRow tables ruleId
  (tables.versions.filter (·.ruleId = ruleId)).mapM fun v => do
    let definition ← contract.readDefinition v.definitionJson
    .ok (v.version, definition)

/-- `restoreVersion`: the definition of a stored version becomes the draft. -/
def restoreVersion (around : Surroundings) (ruleId : String) (version : JsNumber)
    (actorId : String) (expectedRevision : JsNumber) (tables : RuleTables Text) :
    Except AutomationError (RuleTables Text) := do
  let versions ← listVersions contract tables ruleId
  let source ← orThrow (versions.find? fun v => version = JsNumber.ofInt v.1)
    (.rule .notFound "Automation Rule version was not found")
  updateDraft contract around ruleId (contract.toInput source.2) actorId expectedRevision tables

/-- The positions that `reorder` writes, one rule after the other. -/
def writePositions (actorId timestamp : String) (rules : List RuleRow)
    (order : List (ℕ × String)) : List RuleRow :=
  order.foldl (fun rules entry =>
    updateWhere (fun r => r.id = entry.2 && r.state ≠ .archived) (fun r => { r with
      position := entry.1
      revision := r.revision + 1
      updatedBy := actorId
      updatedAt := timestamp }) rules) rules

/-- `reorder`. -/
def reorder (around : Surroundings) (orderedRuleIds : List String)
    (expectedOrderRevision : JsNumber) (actorId : String) (tables : RuleTables Text) :
    Except AutomationError (RuleTables Text) := do
  require (orderedRuleIds.eraseDups.length = orderedRuleIds.length)
    (.rule .invalid "Automation Rule order is invalid")
  let timestamp ← canonicalIso around.now
  require (expectedOrderRevision = JsNumber.ofInt tables.state.orderRevision)
    (.rule .conflict "Automation Rule order changed; refresh and try again")
  let currentIds := (listRules tables false).map (·.id)
  require (currentIds.length = orderedRuleIds.length &&
      currentIds.all fun id => orderedRuleIds.contains id)
    (.rule .conflict "Automation Rule list changed; refresh and try again")
  let tables := { tables with
    rules := writePositions actorId timestamp tables.rules
      (orderedRuleIds.zipIdx.map fun entry => (entry.2, entry.1)) }
  .ok (bumpOrder (bumpGeneration tables timestamp) timestamp)

/-! ### Targets in use -/

/-- The target that `rulesUsingTarget` is asked about. -/
structure TargetQuery where
  labelId : Option String
  folderId : Option String

/-- How many rules `rulesUsingTarget` names. -/
def targetRuleLimit : ℕ := 20

/-- The rules, not archived, with a reference to a target, in order. -/
def rulesReferring (tables : RuleTables Text) (refs : List TargetRef) (target : String) :
    List RuleRow :=
  (tables.rules.filter fun r => r.state ≠ .archived &&
    refs.any fun ref => ref.ruleId = r.id && ref.target = target).insertionSort RuleRow.before

/-- `rulesUsingTarget`. An empty label asks the folder table, and is an error as a target. -/
def rulesUsingTarget (tables : RuleTables Text) (query : TargetQuery) :
    Except AutomationError (List (String × String)) := do
  let refs := if truthy query.labelId then tables.labelRefs else tables.folderRefs
  let targetId := (query.labelId.orElse fun _ => query.folderId).getD ""
  require (targetId ≠ "") (.rule .invalid "Automation Rule target is invalid")
  .ok (((rulesReferring tables refs targetId).take targetRuleLimit).map fun r => (r.id, r.name))

/-! ### Commands -/

/-- The operations of the module that write rules. -/
inductive RuleCommand (Input : Type)
  | createDraft (ruleId : String) (input : Input) (actorId : String)
      (expectedOrderRevision : JsNumber)
  | updateDraft (ruleId : String) (input : Input) (actorId : String) (expectedRevision : JsNumber)
  | enable (ruleId actorId : String) (expectedRevision : JsNumber)
  | setEnabled (ruleId : String) (enabled : Bool) (actorId : String) (expectedRevision : JsNumber)
  | archive (ruleId actorId : String) (expectedRevision : JsNumber)
  | restoreVersion (ruleId : String) (version : JsNumber) (actorId : String)
      (expectedRevision : JsNumber)
  | reorder (orderedRuleIds : List String) (expectedOrderRevision : JsNumber) (actorId : String)

/-- What a command does. -/
def RuleCommand.perform (around : Surroundings) (tables : RuleTables Text) :
    RuleCommand Input → Except AutomationError (RuleTables Text)
  | .createDraft ruleId input actorId expected =>
      Automation.createDraft contract around ruleId input actorId expected tables
  | .updateDraft ruleId input actorId expected =>
      Automation.updateDraft contract around ruleId input actorId expected tables
  | .enable ruleId actorId expected => Automation.enable around ruleId actorId expected tables
  | .setEnabled ruleId enabled actorId expected =>
      Automation.setEnabled around ruleId enabled actorId expected tables
  | .archive ruleId actorId expected => Automation.archive around ruleId actorId expected tables
  | .restoreVersion ruleId version actorId expected =>
      Automation.restoreVersion contract around ruleId version actorId expected tables
  | .reorder ids expected actorId => Automation.reorder around ids expected actorId tables

/-- One operation, run to completion or rolled back. -/
def ruleStep (tables : RuleTables Text) (command : Surroundings × RuleCommand Input) :
    RuleTables Text :=
  match command.2.perform contract command.1 tables with
  | .ok tables => tables
  | .error _ => tables

end Operations

end MailPortal.Automation
