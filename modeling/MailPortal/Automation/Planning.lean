import Mathlib.Data.List.Infix
import MailPortal.Automation.RunStore

/-!
# Planning a Run

What the rules of a run make of a message. `evaluateAutomationRule` says whether a rule matches, and
`planAutomationRun` goes over the captured rules in their order and collects the labels to apply,
the star and the move, with a result for each rule.

A captured definition is any value here (`Input`), which the planner validates. The evaluation
validates it once more, outside of the `try` around the first time, and so planning may throw.

Texts are compared under the host's Unicode normalization and lower case, which may be any
functions.
-/

namespace MailPortal.Automation

open Failure

/-! ### Messages -/

/-- What a message shows to the rules. -/
structure AutomationMessageSnapshot where
  folderId : String
  senderAddress : String
  subject : String
  attachments : List String
  deriving DecidableEq

/-- The conversation in the inbox that a run acts on. -/
structure InboxScope where
  existingLabelIds : List String
  triggerIsStarred : Bool
  deriving DecidableEq

/-- The message, and where it can be put. -/
structure AutomationPlanningContext where
  snapshot : AutomationMessageSnapshot
  currentInboxScope : Option InboxScope
  availableLabelIds : List String
  availableMoveFolderIds : List String
  deriving DecidableEq

/-- A rule as it was captured, with a definition that is not validated. -/
structure CapturedRule (Input : Type) where
  ordinal : ℕ
  ruleId : String
  ruleName : String
  version : ℕ
  definition : Input
  deriving DecidableEq

/-! ### Conditions -/

/-- What the host knows of Unicode. -/
structure UnicodeHost where
  normalizeNFC : String → String
  toLowerCase : String → String

namespace UnicodeHost

variable (host : UnicodeHost)

def folded (value : String) : String := host.toLowerCase (host.normalizeNFC value)

/-- The part of an address behind its last `@`, when there is something on either side. -/
def senderDomain (address : String) : String :=
  let normalized := (host.toLowerCase (trim address)).toList
  let behind := (normalized.reverse.takeWhile (· ≠ '@')).reverse
  if behind ≠ [] ∧ behind.length + 1 < normalized.length then String.ofList behind else ""

end UnicodeHost

/-- `haystack.includes(needle)` -/
def includes (haystack needle : String) : Bool := decide (needle.toList <:+: haystack.toList)

def MembershipOperator.code : MembershipOperator → String
  | isAnyOf => "is_any_of"
  | isNotAnyOf => "is_not_any_of"

def SubjectOperator.code : SubjectOperator → String
  | equals => "equals"
  | contains => "contains"
  | startsWith => "starts_with"
  | doesNotContain => "does_not_contain"

def conditionCode : AutomationRuleCondition → String
  | .everyIncoming => "every_incoming"
  | .senderAddress operator _ => "sender_address:" ++ operator.code
  | .senderDomain operator _ => "sender_domain:" ++ operator.code
  | .subject operator _ => "subject:" ++ operator.code
  | .attachmentPresence has => "attachment_presence:" ++ if has then "has" else "does_not_have"
  | .attachmentFilenameContains _ => "attachment_filename:contains"
  | .attachmentFilenameEndsWithAny _ => "attachment_filename:ends_with_any"

/-- Being among the values, or not being. -/
def MembershipOperator.test (operator : MembershipOperator) (found : Bool) : Bool :=
  match operator with
  | isAnyOf => found
  | isNotAnyOf => !found

def conditionMatches (host : UnicodeHost) (snapshot : AutomationMessageSnapshot) :
    AutomationRuleCondition → Bool
  | .everyIncoming => true
  | .senderAddress operator values =>
      operator.test (values.contains (host.toLowerCase (trim snapshot.senderAddress)))
  | .senderDomain operator values =>
      operator.test (values.contains (host.senderDomain snapshot.senderAddress))
  | .subject operator value =>
      let subject := host.folded snapshot.subject
      let value := host.folded value
      match operator with
      | .equals => subject = value
      | .contains => includes subject value
      | .startsWith => value.toList.isPrefixOf subject.toList
      | .doesNotContain => !includes subject value
  | .attachmentPresence has => has = !snapshot.attachments.isEmpty
  | .attachmentFilenameContains value => filenames.any fun filename =>
      includes filename (host.folded value)
  | .attachmentFilenameEndsWithAny values => filenames.any fun filename =>
      (values.map host.folded).any fun suffix => suffix.toList.isSuffixOf filename.toList
where
  filenames : List String :=
    (snapshot.attachments.map fun filename => host.folded (trim filename)).filter (· ≠ "")

/-- Whether a condition matched. -/
structure ConditionResult where
  index : ℕ
  code : String
  matched : Bool
  deriving DecidableEq

/-- Whether a rule matched, and by which conditions. -/
structure AutomationRuleEvaluation where
  matched : Bool
  matchedConditionIndexes : List ℕ
  conditionResults : List ConditionResult
  deriving DecidableEq

variable {Input Text : Type}

def evaluateAutomationRule (contract : DefinitionContract Input Text) (host : UnicodeHost)
    (definitionInput : Input) (snapshot : AutomationMessageSnapshot) :
    Except AutomationError AutomationRuleEvaluation := do
  let definition ← contract.parse definitionInput
  let conditionResults := definition.conditions.mapIdx fun index condition =>
    ⟨index, conditionCode condition, conditionMatches host snapshot condition⟩
  return {
    matched := match definition.matchMode with
      | .all => conditionResults.all (·.matched)
      | .any => conditionResults.any (·.matched)
    matchedConditionIndexes := (conditionResults.filter (·.matched)).map (·.index)
    conditionResults }

/-! ### Plans -/

def actionCode : AutomationRuleAction → String
  | .applyLabels _ => "apply_labels"
  | .star => "star"
  | .moveToFolder _ => "move_to_folder"

/-- The rule that a planned action comes from. -/
structure Origin where
  ruleId : String
  ruleVersion : ℕ
  deriving DecidableEq

/-- A label, and the rule it comes from. -/
structure PlannedLabel where
  labelId : String
  origin : Origin
  deriving DecidableEq

/-- A folder, and the rule it comes from. -/
structure PlannedMove where
  folderId : String
  origin : Origin
  deriving DecidableEq

/-- A plan, with the actions that `finalizeClaim` does not store. -/
structure AutomationRunPlan extends AutomationActionPlan where
  applyLabels : List PlannedLabel
  star : Option Origin
  move : Option PlannedMove
  deriving DecidableEq

/-- The variables of the loop over the rules. -/
structure Planning where
  satisfiedLabels : List String
  applyLabels : List PlannedLabel := []
  star : Option Origin := none
  move : Option PlannedMove := none
  stoppedByRuleId : Option String := none
  matchedCount : ℕ := 0
  appliedCount : ℕ := 0
  hasSkip : Bool := false
  results : List AutomationPlannedRuleResult := []
  deriving DecidableEq

/-- The variables of the loop over the actions of a rule. -/
structure Acting where
  planning : Planning
  actionResults : List AutomationActionResult := []
  ruleApplied : Bool := false
  ruleConflict : Bool := false
  invalidTarget : Bool := false
  deriving DecidableEq

def CapturedRule.origin (rule : CapturedRule Input) : Origin := ⟨rule.ruleId, rule.version⟩

/-- The entry of a rule in the results. -/
def CapturedRule.result (rule : CapturedRule Input) (outcome : RunResultOutcome)
    (matchedConditionIndexes : List ℕ) (plannedActions : List String)
    (actionResults : List AutomationActionResult) (failureCategory : Option String) :
    AutomationPlannedRuleResult where
  ordinal := rule.ordinal
  ruleId := rule.ruleId
  ruleName := rule.ruleName
  ruleVersion := rule.version
  outcome
  matchedConditionIndexes
  plannedActions
  actionResults
  failureCategory

/-- `results.push(result)` -/
def Planning.push (s : Planning) (result : AutomationPlannedRuleResult) : Planning :=
  { s with results := s.results ++ [result] }

/-- `actionResults.push({ action: action.kind, status, targetId })` -/
def Acting.push (a : Acting) (action : AutomationRuleAction) (status : ActionStatus)
    (targetId : Option String) : Acting :=
  { a with actionResults := a.actionResults ++ [⟨actionCode action, status, targetId⟩] }

/-- An action is planned: it counts, and the rule has applied something. -/
def Acting.apply (a : Acting) (change : Planning → Planning) : Acting :=
  { a with
    planning := { change a.planning with appliedCount := a.planning.appliedCount + 1 }
    ruleApplied := true }

/-- A target that is not there. -/
def Acting.invalid (a : Acting) : Acting :=
  { a with planning := { a.planning with hasSkip := true }, invalidTarget := true }

/-- A move to another folder than the one that is planned. -/
def Acting.conflict (a : Acting) : Acting :=
  { a with planning := { a.planning with hasSkip := true }, ruleConflict := true }

variable (context : AutomationPlanningContext)

/-- One label of an action. -/
def applyLabel (origin : Origin) (action : AutomationRuleAction) (a : Acting) (labelId : String) :
    Acting :=
  if labelId ∉ context.availableLabelIds then
    a.invalid.push action .skippedInvalidTarget labelId
  else if labelId ∈ a.planning.satisfiedLabels then a.push action .alreadySatisfied labelId
  else
    (a.apply fun s => { s with
      satisfiedLabels := labelId :: s.satisfiedLabels
      applyLabels := s.applyLabels ++ [⟨labelId, origin⟩] }).push action .applied labelId

/-- One action of a rule. -/
def applyAction (scope : InboxScope) (origin : Origin) (a : Acting)
    (action : AutomationRuleAction) : Acting :=
  match action with
  | .applyLabels labelIds => labelIds.foldl (applyLabel context origin action) a
  | .star =>
      if scope.triggerIsStarred || a.planning.star.isSome then
        a.push action .alreadySatisfied none
      else (a.apply fun s => { s with star := some origin }).push action .applied none
  | .moveToFolder folderId =>
      if folderId ∉ context.availableMoveFolderIds then
        a.invalid.push action .skippedInvalidTarget folderId
      else if folderId = context.snapshot.folderId then a.push action .alreadySatisfied folderId
      else
        match a.planning.move with
        | none =>
            (a.apply fun s => { s with move := some ⟨folderId, origin⟩ }).push action .applied
              folderId
        | some move =>
            if move.folderId = folderId then a.push action .alreadySatisfied folderId
            else a.conflict.push action .skippedConflict folderId

/-- The targets of a definition that are not there. -/
def missingTargets (definition : AutomationRuleDefinition) : List String :=
  definition.actions.flatMap fun action =>
    match action with
    | .applyLabels labelIds => labelIds.filter (· ∉ context.availableLabelIds)
    | .moveToFolder folderId =>
        if folderId ∉ context.availableMoveFolderIds then [folderId] else []
    | .star => []

/-- The outcome of a rule whose actions were gone through. -/
def Acting.outcome (a : Acting) : RunResultOutcome :=
  if a.ruleApplied then .applied
  else if a.ruleConflict then .skippedConflict
  else if a.invalidTarget then .skippedInvalidTarget
  else .alreadySatisfied

/-- `if (definition.stopProcessing) stoppedByRuleId = rule.ruleId` -/
def Planning.stopAfter (s : Planning) (definition : AutomationRuleDefinition)
    (rule : CapturedRule Input) : Planning :=
  if definition.stopProcessing then { s with stoppedByRuleId := some rule.ruleId } else s

variable (contract : DefinitionContract Input Text) (host : UnicodeHost)

/-- One rule. -/
def planRule (s : Planning) (rule : CapturedRule Input) : Except AutomationError Planning :=
  if truthy s.stoppedByRuleId then .ok (s.push (rule.result .stopped [] [] [] none))
  else match contract.parse rule.definition with
    | .error _ => .ok ({ s with hasSkip := true }.push
        (rule.result .skippedInvalidTarget [] [] [] (some "invalid_captured_definition")))
    | .ok definition => do
        let evaluation ← evaluateAutomationRule contract host (contract.toInput definition)
          context.snapshot
        let indexes := evaluation.matchedConditionIndexes
        let planned := definition.actions.map actionCode
        if !evaluation.matched then return s.push (rule.result .notMatched indexes planned [] none)
        let s := { s with matchedCount := s.matchedCount + 1 }
        match context.currentInboxScope with
        | none =>
            return ({ s with hasSkip := true }.push (rule.result .skippedScopeChanged indexes
              planned [] (some "inbox_scope_changed"))).stopAfter definition rule
        | some scope =>
            let missing := missingTargets context definition
            if missing ≠ [] then
              return { s with hasSkip := true }.push (rule.result .skippedInvalidTarget indexes
                planned (missing.map fun targetId =>
                  ⟨"target", .skippedInvalidTarget, some targetId⟩)
                (some "target_unavailable"))
            let a :=
              definition.actions.foldl (applyAction context scope rule.origin) { planning := s }
            return (a.planning.push (rule.result a.outcome indexes planned a.actionResults
              (if a.invalidTarget then some "target_unavailable" else none))).stopAfter definition
                rule

/-- The plan of the rules that were gone through. -/
def Planning.plan (s : Planning) : AutomationRunPlan where
  state := if s.matchedCount = 0 then .noMatch
    else if s.hasSkip then .appliedWithSkips else .applied
  evaluatedCount := (s.results.filter (·.outcome ≠ .stopped)).length
  matchedCount := s.matchedCount
  appliedCount := s.appliedCount
  stoppedByRuleId := s.stoppedByRuleId
  results := s.results
  applyLabels := s.applyLabels
  star := s.star
  move := s.move

/-- The variables before the loop. -/
def Planning.start : Planning where
  satisfiedLabels := (context.currentInboxScope.map (·.existingLabelIds)).getD []

def planAutomationRun (rules : List (CapturedRule Input)) :
    Except AutomationError AutomationRunPlan := do
  let s ← rules.foldlM (planRule context contract host) (Planning.start context)
  return s.plan

end MailPortal.Automation
