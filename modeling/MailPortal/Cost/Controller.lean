import MailPortal.Cost.Ledger

/-!
# The AI Cost Controller

The methods of `AiCostController` over the D1 store, as programs that ask the ledger one
operation at a time. Between two operations other callers may have theirs, so what a program
has read may be out of date when it acts on it.

`#now()` and `createId()` are given to a program as values. Lower-casing is the host's.
-/

namespace MailPortal.Cost

open Concurrent Failure

/-- What the constructor of the controller accepts. -/
structure AiCostControlConfig where
  environment : String
  alertThresholdMicros : ℕ
  reviewThresholdMicros : ℕ
  cheapModel : String
  strongModel : String
  alert_pos : 0 < alertThresholdMicros
  alert_lt : alertThresholdMicros < reviewThresholdMicros
  review_safe : reviewThresholdMicros ≤ JsNumber.maxSafeInteger

/-- `AI_USAGE_RESERVATION_TTL_MS`. -/
def aiUsageReservationTtlMs : ℤ := 15 * 60 * 1000

/-- `STRONG_TIER_FEATURES`. -/
def strongTierFeatures : List String :=
  ["assistant_chat", "compose_draft", "global_today_brief", "reply_draft", "relationship_insight"]

/-- `MIN_ESCALATION_REASON_LENGTH`. -/
def minEscalationReasonLength : ℕ := 20

/-- Why a use is blocked. -/
inductive AiBlockReason
  | strongTierRequiresReason
  | strongTierNotAllowedForFeature
  | strongTierPausedAtAlertThreshold
  | adminReviewRequired
  | ledgerUnavailable
  | invalidRequest
  deriving DecidableEq

/-- The reason as it is recorded. -/
def AiBlockReason.text : AiBlockReason → String
  | .strongTierRequiresReason => "strong_tier_requires_reason"
  | .strongTierNotAllowedForFeature => "strong_tier_not_allowed_for_feature"
  | .strongTierPausedAtAlertThreshold => "strong_tier_paused_at_alert_threshold"
  | .adminReviewRequired => "admin_review_required"
  | .ledgerUnavailable => "ledger_unavailable"
  | .invalidRequest => "invalid_request"

/-- How a use is served. -/
inductive AiUsageMode
  | paid
  | cached
  | deterministic
  deriving DecidableEq

/-- What the controller decides. -/
inductive AiUsageDecision
  | allow (mode : AiUsageMode) (tier : AiModelTier) (model : String)
      (reservationId : Option String) (ledgerRecorded : Bool)
  | block (reason : AiBlockReason) (reviewRequired : Bool) (tier : AiModelTier) (model : String)
      (ledgerRecorded : Bool)
  deriving DecidableEq

/-- A request for a use. -/
structure BeginAiUsageInput where
  feature : String
  actorUserId : Option String
  mailboxId : Option String
  requestedTier : Option AiRequestedTier
  escalationReason : Option String
  estimatedCostMicros : JsNumber
  cacheKey : Option String
  cacheHit : Bool

/-- A program of the controller: it asks the ledger, and returns or throws. -/
abbrev CostProg (α : Type) : Type := Prog LedgerOp LedgerOp.Answer (Except LedgerError α)

/-! ### Helpers -/

/-- `utcMonthKey`. -/
def utcMonthKey (timestamp : ℤ) : Except LedgerError String := do
  let text ← orThrow (toISOString timestamp) (.thrown "Invalid time value")
  .ok (sliceTo 7 text)

/-- `/^[a-z][a-z0-9_]{1,63}$/`. -/
def isFeatureName (feature : String) : Bool :=
  match feature.toList with
  | [] => false
  | c :: cs => ('a' ≤ c && c ≤ 'z') && 1 ≤ cs.length && cs.length ≤ 63 && cs.all fun c =>
      ('a' ≤ c && c ≤ 'z') || ('0' ≤ c && c ≤ '9') || c = '_'

/-- `normalizeFeature`. -/
def normalizeFeature (toLowerCase : String → String) (feature : String) :
    Except LedgerError String := do
  let normalized := toLowerCase (trim feature)
  require (isFeatureName normalized) (.thrown "AI feature name is invalid")
  .ok normalized

/-- `cleanOptional`. -/
def cleanOptional (value : Option String) : Option String :=
  (value.map trim).filter (· ≠ "")

/-- A safe integer that is not negative. -/
def nonnegative (value : JsNumber) : Option ℕ :=
  (JsNumber.safeInteger value).bind fun n => if 0 ≤ n then some n.toNat else none

/-- `nonnegativeInteger`. -/
def nonnegativeInteger (value : JsNumber) : ℕ := (nonnegative value).getD 0

/-! ### Methods -/

/-- `#recordBestEffort`: whether the event is known to be recorded. -/
def recordBestEffort (config : AiCostControlConfig) (event : AiUsageEvent) :
    Prog LedgerOp LedgerOp.Answer Bool :=
  .call (.recordEvent config.reviewThresholdMicros event) fun answer =>
    match answer with
    | .ok _ => .done true
    | .error _ => .done false

/-- `#blocked`. -/
def blocked (config : AiCostControlConfig) (identity : AiUsageIdentity) (reason : AiBlockReason)
    (reviewRequired : Bool) (estimatedCostMicros : JsNumber) : CostProg AiUsageDecision :=
  (recordBestEffort config
    { identity with
      state := .blocked
      estimatedCostMicros := nonnegativeInteger estimatedCostMicros
      actualCostMicros := 0
      promptTokens := 0
      completionTokens := 0
      errorCode := some reason.text
      not_reserved := by simp }).bind fun ledgerRecorded =>
    .done (.ok (.block reason reviewRequired identity.selectedTier identity.model ledgerRecorded))

/-- A use that costs nothing is allowed. -/
def allowFree (config : AiCostControlConfig) (identity : AiUsageIdentity) (cacheHit : Bool) :
    CostProg AiUsageDecision :=
  (recordBestEffort config
    { identity with
      state := if cacheHit then .cacheHit else .deterministic
      estimatedCostMicros := 0
      actualCostMicros := 0
      promptTokens := 0
      completionTokens := 0
      errorCode := none
      not_reserved := by split <;> simp }).bind fun ledgerRecorded =>
    .done (.ok (.allow (if cacheHit then .cached else .deterministic) identity.selectedTier
      identity.model none ledgerRecorded))

/-- The ledger does not answer. -/
def ledgerUnavailable (identity : AiUsageIdentity) : AiUsageDecision :=
  .block .ledgerUnavailable false identity.selectedTier identity.model false

/-- The reservation is tried under a limit, and the decision depends on whether it fits. -/
def reserve (config : AiCostControlConfig) (identity : AiUsageIdentity)
    (estimatedCostMicros approvedLimit : ℕ) : CostProg AiUsageDecision :=
  let reservation : AiUsageReservation := { identity with
    estimatedCostMicros := estimatedCostMicros
    expiresAt := identity.createdAt + aiUsageReservationTtlMs }
  let maximumTotalMicros :=
    match identity.selectedTier with
    | .strong => min approvedLimit config.alertThresholdMicros
    | .cheap => approvedLimit
  .call (.tryReserve reservation maximumTotalMicros config.reviewThresholdMicros) fun reserved =>
    match reserved with
    | .error _ => .done (.ok (ledgerUnavailable identity))
    | .ok reserved =>
        -- `#requiredMonth`
        .call (.getMonth identity.environment identity.monthKey) fun month =>
          match month with
          | .error _ => .done (.ok (ledgerUnavailable identity))
          | .ok none => .done (.ok (ledgerUnavailable identity))
          | .ok (some month) =>
              if reserved then
                .done (.ok (.allow .paid identity.selectedTier identity.model (some identity.id)
                  true))
              else if identity.selectedTier = .strong &&
                  month.spentMicros + month.reservedMicros < approvedLimit then
                blocked config identity .strongTierPausedAtAlertThreshold false
                  (.ofInt estimatedCostMicros)
              else blocked config identity .adminReviewRequired true (.ofInt estimatedCostMicros)

/-- A use that costs is reserved within the limits of the month as it was read. -/
def beginPaid (config : AiCostControlConfig) (identity : AiUsageIdentity)
    (estimatedCostMicros : ℕ) : CostProg AiUsageDecision :=
  .call (.reapExpiredReservations identity.createdAt) fun reaped =>
    match reaped with
    | .error _ => .done (.ok (ledgerUnavailable identity))
    | .ok _ =>
        .call (.getMonth identity.environment identity.monthKey) fun month =>
          match month with
          | .error _ => .done (.ok (ledgerUnavailable identity))
          | .ok month =>
              let month := month.getD ⟨identity.environment, identity.monthKey, 0, 0,
                config.reviewThresholdMicros, none⟩
              let currentTotal := month.spentMicros + month.reservedMicros
              let approvedLimit := max month.approvedBudgetMicros config.reviewThresholdMicros
              if approvedLimit ≤ currentTotal ||
                  approvedLimit < currentTotal + estimatedCostMicros then
                blocked config identity .adminReviewRequired true (.ofInt estimatedCostMicros)
              else if identity.selectedTier = .strong &&
                  (config.alertThresholdMicros ≤ currentTotal ||
                    config.alertThresholdMicros < currentTotal + estimatedCostMicros) then
                blocked config identity .strongTierPausedAtAlertThreshold false
                  (.ofInt estimatedCostMicros)
              else reserve config identity estimatedCostMicros approvedLimit

/-- `beginUsage`, with what `#now()` and `#createId("aiuse")` return. -/
def beginUsage (config : AiCostControlConfig) (toLowerCase : String → String)
    (input : BeginAiUsageInput) (now : ℤ) (id : String) : CostProg AiUsageDecision :=
  let requestedTier := input.requestedTier.getD .auto
  let tier : AiModelTier := if requestedTier = .strong then .strong else .cheap
  match utcMonthKey now, normalizeFeature toLowerCase input.feature with
  | .error e, _ => .done (.error e)
  | _, .error e => .done (.error e)
  | .ok monthKey, .ok feature =>
      let identity : AiUsageIdentity := {
        id := id
        environment := config.environment
        monthKey := monthKey
        feature := feature
        actorUserId := cleanOptional input.actorUserId
        mailboxId := (cleanOptional input.mailboxId).map toLowerCase
        requestedTier := requestedTier
        selectedTier := tier
        model := match tier with
          | .strong => config.strongModel
          | .cheap => config.cheapModel
        cacheKey := cleanOptional input.cacheKey
        escalationReason := (cleanOptional input.escalationReason).map (sliceTo 500)
        createdAt := now }
      match nonnegative (if input.cacheHit then some 0 else input.estimatedCostMicros) with
      | none => blocked config identity .invalidRequest false input.estimatedCostMicros
      | some estimatedCostMicros =>
          if !input.cacheHit && tier = .strong && !strongTierFeatures.contains feature then
            blocked config identity .strongTierNotAllowedForFeature false
              (.ofInt estimatedCostMicros)
          else if !input.cacheHit && tier = .strong &&
              (codeUnits (identity.escalationReason.getD "") < minEscalationReasonLength) then
            blocked config identity .strongTierRequiresReason false (.ofInt estimatedCostMicros)
          else if input.cacheHit || estimatedCostMicros = 0 then
            allowFree config identity input.cacheHit
          else beginPaid config identity estimatedCostMicros

/-- What a caller says about a use that has ended. -/
structure AiUsageReport where
  actualCostMicros : JsNumber
  promptTokens : JsNumber
  completionTokens : JsNumber

/-- `completeUsage`. -/
def completeUsage (config : AiCostControlConfig) (reservationId : String)
    (actual : AiUsageReport) (now : ℤ) : CostProg (Bool × AiMonthLedger × Bool) :=
  match nonnegative actual.actualCostMicros with
  | none => .done (.error (.thrown "Actual AI usage is invalid"))
  | some actualCostMicros =>
      if reservationId = "" then .done (.error (.thrown "Actual AI usage is invalid"))
      else
        .call (.completeReservation reservationId
          ⟨actualCostMicros, nonnegativeInteger actual.promptTokens,
            nonnegativeInteger actual.completionTokens⟩ config.alertThresholdMicros now)
          fun completed =>
            match completed with
            | .error e => .done (.error e)
            | .ok (completed, emitAlert) =>
                .call (.monthForEvent reservationId) fun month =>
                  match month with
                  | .error e => .done (.error e)
                  | .ok none => .done (.error (.thrown "AI usage reservation is unavailable"))
                  | .ok (some month) => .done (.ok (completed, month, emitAlert))

/-- `startUsage`. -/
def startUsage (reservationId : String) (now : ℤ) : CostProg Bool :=
  if reservationId = "" then .done (.error (.thrown "AI usage reservation is required"))
  else .call (.markReservationStarted reservationId now) .done

/-- `failUsage`. -/
def failUsage (reservationId : String) (errorCode : Option String) (failure : AiUsageReport)
    (now : ℤ) : CostProg Bool :=
  let observed := (nonnegative failure.actualCostMicros).filter (0 < ·)
  .call (.failReservation reservationId {
    errorCode := (cleanOptional errorCode).map (sliceTo 100)
    failedAt := now
    charge := if observed.isSome then .observed else .auto
    actualCostMicros := observed
    promptTokens := nonnegativeInteger failure.promptTokens
    completionTokens := nonnegativeInteger failure.completionTokens }) .done

/-- What `approveMonthlyBudget` throws when the request is not valid. -/
def invalidReview : LedgerError :=
  .thrown "A valid admin review and higher monthly cap are required"

/-- `approveMonthlyBudget`, with what `#now()` and `#createId("aireview")` return. -/
def approveMonthlyBudget (config : AiCostControlConfig) (newApprovedBudgetMicros : JsNumber)
    (reviewedBy reason : Option String) (reviewedAt : ℤ) (reviewId : String) :
    CostProg AiMonthLedger :=
  match nonnegative newApprovedBudgetMicros, cleanOptional reviewedBy, cleanOptional reason with
  | some newApproved, some reviewedBy, some reason =>
      if newApproved ≤ config.reviewThresholdMicros then .done (.error invalidReview)
      else
        match utcMonthKey reviewedAt with
        | .error e => .done (.error e)
        | .ok monthKey =>
            .call (.reapExpiredReservations reviewedAt) fun reaped =>
              match reaped with
              | .error e => .done (.error e)
              | .ok _ =>
                  .call (.getMonth config.environment monthKey) fun month =>
                    match month with
                    | .error e => .done (.error e)
                    | .ok month =>
                        let currentTotal :=
                          (month.map fun m => m.spentMicros + m.reservedMicros).getD 0
                        if newApproved ≤ currentTotal then
                          .done (.error
                            (.thrown "The reviewed monthly cap must exceed current AI usage"))
                        else
                          .call (.approveBudget config.reviewThresholdMicros
                            ⟨config.environment, monthKey, newApproved, reviewedBy,
                              sliceTo 500 reason, reviewedAt, reviewId⟩) fun inserted =>
                            match inserted with
                            | .error e => .done (.error e)
                            | .ok false => .done (.error (.thrown
                                "The reviewed AI budget did not raise the active monthly cap"))
                            | .ok true =>
                                .call (.getMonth config.environment monthKey) fun month =>
                                  match month with
                                  | .error e => .done (.error e)
                                  | .ok none => .done (.error
                                      (.thrown "AI monthly ledger is unavailable"))
                                  | .ok (some month) => .done (.ok month)
  | _, _, _ => .done (.error invalidReview)

/-! ### Requests -/

/-- What callers ask of the controller. -/
inductive CostRequest
  | beginUsage (input : BeginAiUsageInput) (now : ℤ) (id : String)
  | startUsage (reservationId : String) (now : ℤ)
  | completeUsage (reservationId : String) (actual : AiUsageReport) (now : ℤ)
  | failUsage (reservationId : String) (errorCode : Option String) (failure : AiUsageReport)
      (now : ℤ)
  | reapExpiredReservations (now : ℤ)
  | approveMonthlyBudget (newApprovedBudgetMicros : JsNumber) (reviewedBy reason : Option String)
      (reviewedAt : ℤ) (reviewId : String)

/-- The program of a request, whatever comes of it. -/
def CostRequest.program (config : AiCostControlConfig) (toLowerCase : String → String) :
    CostRequest → Prog LedgerOp LedgerOp.Answer Unit
  | .beginUsage input now id =>
      (Cost.beginUsage config toLowerCase input now id).bind fun _ => .done ()
  | .startUsage reservationId now => (Cost.startUsage reservationId now).bind fun _ => .done ()
  | .completeUsage reservationId actual now =>
      (Cost.completeUsage config reservationId actual now).bind fun _ => .done ()
  | .failUsage reservationId errorCode failure now =>
      (Cost.failUsage reservationId errorCode failure now).bind fun _ => .done ()
  | .reapExpiredReservations now => .call (.reapExpiredReservations now) fun _ => .done ()
  | .approveMonthlyBudget newApproved reviewedBy reason reviewedAt reviewId =>
      (Cost.approveMonthlyBudget config newApproved reviewedBy reason reviewedAt reviewId).bind
        fun _ => .done ()

end MailPortal.Cost
