import MailPortal.Platform.JavaScript

/-!
# Automation Rule Definitions

The vocabulary of inbound automation rules: what a definition says, the targets that its
actions name, and the errors of the module.

`DefinitionContract` is what the module uses of the definition schema, of JSON and of the
digest. The schema rests on a validation library; `DefinitionContract.Lawful` names what the
module relies on: a stored text reads back as a definition with the same actions.
-/

namespace MailPortal.Automation

/-! ### Limits -/

/-- `AUTOMATION_RUNTIME_LIMITS`. -/
def maxRules : ℕ := 100

def maxRetainedRules : ℕ := 500

def maxVersionsPerRule : ℕ := 500

def maxRetainedVersions : ℕ := 5000

def maxEnabledRules : ℕ := 50

def leaseMs : ℤ := 30000

def maxAttempts : ℕ := 4

def retryMs : List ℤ := [10000, 30000, 120000]

def liveRetentionMs : ℤ := 90 * 24 * 60 * 60000

def pruneBatch : ℕ := 100

/-- `AUTOMATION_RULE_LIMITS.liveRuns`. -/
def liveRuns : ℕ := 5000

/-! ### Definitions -/

inductive MembershipOperator
  | isAnyOf
  | isNotAnyOf
  deriving DecidableEq

inductive SubjectOperator
  | equals
  | contains
  | startsWith
  | doesNotContain
  deriving DecidableEq

/-- A condition on a message. -/
inductive AutomationRuleCondition
  | senderAddress (operator : MembershipOperator) (values : List String)
  | senderDomain (operator : MembershipOperator) (values : List String)
  | subject (operator : SubjectOperator) (value : String)
  | attachmentPresence (has : Bool)
  | attachmentFilenameContains (value : String)
  | attachmentFilenameEndsWithAny (values : List String)
  | everyIncoming
  deriving DecidableEq

/-- What a rule does. -/
inductive AutomationRuleAction
  | applyLabels (labelIds : List String)
  | star
  | moveToFolder (folderId : String)
  deriving DecidableEq

/-- All conditions, or any of them. -/
inductive MatchMode
  | all
  | any
  deriving DecidableEq

/-- What a rule says. -/
structure AutomationRuleDefinition where
  name : String
  matchMode : MatchMode
  conditions : List AutomationRuleCondition
  actions : List AutomationRuleAction
  stopProcessing : Bool
  deriving DecidableEq

/-- The labels and folders that a definition names. -/
structure DefinitionTargets where
  labelIds : List String
  folderIds : List String
  deriving DecidableEq

/-- The labels that an action names. -/
def AutomationRuleAction.labelIds : AutomationRuleAction → List String
  | .applyLabels labelIds => labelIds
  | _ => []

/-- The folder that an action names. -/
def AutomationRuleAction.folderIds : AutomationRuleAction → List String
  | .moveToFolder folderId => [folderId]
  | _ => []

/-- `definitionTargets`: each target once. -/
def definitionTargets (definition : AutomationRuleDefinition) : DefinitionTargets where
  labelIds := (definition.actions.flatMap (·.labelIds)).eraseDups
  folderIds := (definition.actions.flatMap (·.folderIds)).eraseDups

/-! ### Errors -/

inductive AutomationRuleErrorCode
  | invalid
  | notFound
  | conflict
  | activationTestRequired
  deriving DecidableEq

/-- The constraints of the tables that a write can violate. -/
inductive Constraint
  | unique
  | foreignKey
  deriving DecidableEq

/-- What the stores throw. -/
inductive AutomationError
  /-- `AutomationRuleError`. -/
  | rule (code : AutomationRuleErrorCode) (message : String)
  /-- `AutomationRuleContractError`. -/
  | contract (message : String)
  /-- What the database throws. -/
  | constraint (violated : Constraint)
  /-- `JSON.parse` fails. -/
  | json
  /-- The `RangeError` of an invalid date. -/
  | invalidTime
  /-- What a caller's own code throws. -/
  | caller (message : String)
  deriving DecidableEq

/-- `canonicalIso`. -/
def canonicalIso (timestamp : ℤ) : Except AutomationError String :=
  match toISOString timestamp with
  | some text => .ok text
  | none => .error .invalidTime

/-! ### The contract -/

/-- What the module uses of the definition schema (`parse`), of JSON, of the digest and of
Unicode. `Input` is a value that is not validated, `Text` a JSON text. -/
structure DefinitionContract (Input Text : Type) where
  parse : Input → Except AutomationError AutomationRuleDefinition
  toInput : AutomationRuleDefinition → Input
  stringify : AutomationRuleDefinition → Text
  parseJson : Text → Except AutomationError Input
  digest : Text → String
  normalizedName : String → String

namespace DefinitionContract

variable {Input Text : Type} (contract : DefinitionContract Input Text)

/-- `canonicalAutomationRuleDefinition`: the definition is validated once more. -/
def canonicalAutomationRuleDefinition (definition : AutomationRuleDefinition) :
    Except AutomationError Text := do
  let definition ← contract.parse (contract.toInput definition)
  .ok (contract.stringify definition)

/-- `fingerprintAutomationRuleDefinition`. -/
def fingerprintAutomationRuleDefinition (definition : AutomationRuleDefinition) :
    Except AutomationError String := do
  let text ← contract.canonicalAutomationRuleDefinition definition
  .ok (contract.digest text)

/-- A stored text as a definition: `parseAutomationRuleDefinition(JSON.parse(text))`. -/
def readDefinition (text : Text) : Except AutomationError AutomationRuleDefinition := do
  let input ← contract.parseJson text
  contract.parse input

/-- `/^[a-f0-9]{64}$/u`. -/
def isFingerprint (text : String) : Bool :=
  text.toList.length = 64 && text.toList.all fun c =>
    ('0' ≤ c && c ≤ '9') || ('a' ≤ c && c ≤ 'f')

/-- What the module relies on. Validation trims identifiers and rejects those that are not
normalized, so it leaves the actions of a validated definition as they are. -/
structure Lawful : Prop where
  /-- The text of a validated definition reads back, with the same actions. -/
  read : ∀ input definition text, contract.parse input = .ok definition →
    contract.canonicalAutomationRuleDefinition definition = .ok text →
    ∃ stored, contract.readDefinition text = .ok stored ∧ stored.actions = definition.actions
  /-- A SHA-256 digest is spelled in 64 hexadecimal digits. -/
  digest : ∀ text, isFingerprint (contract.digest text) = true

end DefinitionContract

end MailPortal.Automation
