import MailPortal.Automation.Planning
import MailPortal.Automation.References

/-!
# The First Rule Wins

What a plan comes to, said without the loop. A rule acts when its definition is valid, its
conditions match, the conversation is still in the inbox and all its targets are there
(`acting`). It stops the rules behind it when it matches and says so, unless a target is missing
(`stopping`). The rules up to the first that stops are live (`live`).

The plan takes the star and the move from the first live rules that ask for them, and of the labels
asked for by the live rules the first of each that the conversation does not have (`firstLabels`).

`Agrees` is what the loop keeps: the variables are those of the rules gone through, and the counts
are those of the action results.

Main results:

* `planAutomationRun_spec` : the plan of any list of captured rules.
-/

namespace MailPortal.Automation

open Failure

variable {Input Text : Type} (context : AutomationPlanningContext)
  (contract : DefinitionContract Input Text) (host : UnicodeHost)
variable {asked : List (Origin × AutomationRuleAction)}
variable {definition : AutomationRuleDefinition} {outcome : RunResultOutcome}

/-! ### What rules ask for -/

/-- The definition of a rule that matches, with what is needed of its evaluation. -/
def matching (rule : CapturedRule Input) : Option AutomationRuleDefinition :=
  match contract.parse rule.definition with
  | .error _ => none
  | .ok definition =>
      match evaluateAutomationRule contract host (contract.toInput definition) context.snapshot with
      | .error _ => none
      | .ok evaluation => if evaluation.matched then some definition else none

/-- The definition of a rule that matches, in the inbox, with all its targets there. -/
def acting (rule : CapturedRule Input) : Option AutomationRuleDefinition :=
  (matching context contract host rule).filter fun definition =>
    context.currentInboxScope.isSome && missingTargets context definition = []

/-- The rule stops the rules behind it. -/
def stopping (rule : CapturedRule Input) : Bool :=
  (matching context contract host rule).any fun definition => definition.stopProcessing &&
    (context.currentInboxScope.isNone || missingTargets context definition = [])

/-- The rules up to the first that stops. -/
def live : List (CapturedRule Input) → List (CapturedRule Input)
  | [] => []
  | rule :: rules => if stopping context contract host rule then [rule] else rule :: live rules

/-- The actions of the rules that act, with the rules they come from. -/
def askedActions (rules : List (CapturedRule Input)) : List (Origin × AutomationRuleAction) :=
  rules.flatMap fun rule =>
    (((acting context contract host rule).map (·.actions)).getD []).map fun action =>
      (rule.origin, action)

/-- The labels that are asked for. -/
def labelsAsked (asked : List (Origin × AutomationRuleAction)) : List PlannedLabel :=
  asked.flatMap fun a => a.2.labelIds.map fun labelId => ⟨labelId, a.1⟩

/-- The stars that are asked for. -/
def starsAsked (asked : List (Origin × AutomationRuleAction)) : List Origin :=
  (asked.filter (·.2 = .star)).map (·.1)

/-- The moves out of the folder of the message that are asked for. -/
def movesAsked (asked : List (Origin × AutomationRuleAction)) : List PlannedMove :=
  asked.flatMap fun a =>
    (a.2.folderIds.filter (· ≠ context.snapshot.folderId)).map fun folderId => ⟨folderId, a.1⟩

/-- The first of each label that is not there yet. -/
def firstLabels : List String → List PlannedLabel → List PlannedLabel
  | _, [] => []
  | satisfied, label :: labels =>
      if label.labelId ∈ satisfied then firstLabels satisfied labels
      else label :: firstLabels (label.labelId :: satisfied) labels

/-- The labels of the conversation. -/
def existingLabels : List String := (context.currentInboxScope.map (·.existingLabelIds)).getD []

/-- The message has its star. -/
def isStarred : Bool := context.currentInboxScope.any (·.triggerIsStarred)

/-! ### Labels -/

section Labels

variable {satisfied : List String} {labels : List PlannedLabel} {label : PlannedLabel}

theorem mem_firstLabels (h : label ∈ firstLabels satisfied labels) :
    label ∈ labels ∧ label.labelId ∉ satisfied := by
  induction labels generalizing satisfied with
  | nil => cases h
  | cons first labels ih =>
      rw [firstLabels] at h
      split at h
      · exact ⟨List.mem_cons_of_mem _ (ih h).1, (ih h).2⟩
      · rename_i hnew
        obtain rfl | h := List.mem_cons.mp h
        · exact ⟨List.mem_cons_self, hnew⟩
        · exact ⟨List.mem_cons_of_mem _ (ih h).1, fun hmem =>
            (ih h).2 (List.mem_cons_of_mem _ hmem)⟩

theorem firstLabels_nodup : ((firstLabels satisfied labels).map (·.labelId)).Nodup := by
  induction labels generalizing satisfied with
  | nil => exact List.nodup_nil
  | cons first labels ih =>
      rw [firstLabels]
      split
      · exact ih
      · rw [List.map_cons, List.nodup_cons]
        refine ⟨fun hmem => ?_, ih⟩
        obtain ⟨later, hlater, hsame⟩ := List.mem_map.mp hmem
        exact (mem_firstLabels hlater).2 (hsame ▸ List.mem_cons_self)

/-- One more label is taken when nothing has it yet. -/
theorem firstLabels_concat : firstLabels satisfied (labels ++ [label]) =
    firstLabels satisfied labels ++
      if label.labelId ∈ satisfied ∨
        label.labelId ∈ (firstLabels satisfied labels).map (·.labelId) then [] else [label] := by
  induction labels generalizing satisfied with
  | nil => simp [firstLabels]
  | cons first labels ih =>
      rw [List.cons_append, firstLabels, firstLabels]
      split
      · exact ih
      · rename_i hnew
        rw [ih, List.cons_append]
        simp only [List.mem_cons, List.map_cons]
        congr 3
        exact propext ⟨by tauto, by tauto⟩

end Labels

/-! ### The actions of a rule -/

/-- The number of actions that were applied. -/
def appliedResults (results : List AutomationActionResult) : ℕ :=
  results.countP (·.status = .applied)

/-- The variables are what was asked for, and the counts agree. The action results of the rule that
is gone through are not in the results yet (`pending`). -/
structure Agrees (labels : List PlannedLabel) (stars : List Origin) (moves : List PlannedMove)
    (s : Planning) (pending : List AutomationActionResult) : Prop where
  satisfied : ∀ labelId, labelId ∈ s.satisfiedLabels ↔
    labelId ∈ existingLabels context ∨ labelId ∈ s.applyLabels.map (·.labelId)
  applyLabels : s.applyLabels = firstLabels (existingLabels context) labels
  star : s.star = if isStarred context then none else stars.head?
  move : s.move = moves.head?
  counted : s.appliedCount = s.applyLabels.length + s.star.toList.length + s.move.toList.length
  applied : s.appliedCount = appliedResults (s.results.flatMap (·.actionResults) ++ pending)

/-- What the actions of a rule leave alone. -/
structure Kept (s s' : Planning) : Prop where
  results : s'.results = s.results
  stopped : s'.stoppedByRuleId = s.stoppedByRuleId
  matched : s'.matchedCount = s.matchedCount

theorem Kept.refl (s : Planning) : Kept s s := ⟨rfl, rfl, rfl⟩

theorem Kept.trans {s s' s'' : Planning} (h : Kept s s') (h' : Kept s' s'') : Kept s s'' :=
  ⟨h'.results.trans h.results, h'.stopped.trans h.stopped, h'.matched.trans h.matched⟩

section Actions

variable {context} {labels : List PlannedLabel} {stars : List Origin} {moves : List PlannedMove}
  {a : Acting} {scope : InboxScope} (origin : Origin) (action : AutomationRuleAction)

section

variable (h : Agrees context labels stars moves a.planning a.actionResults)
include h

/-- A result that applies nothing. -/
theorem Agrees.push (status : ActionStatus) (hstatus : status ≠ .applied)
    (targetId : Option String) :
    Agrees context labels stars moves (a.push action status targetId).planning
      (a.push action status targetId).actionResults := by
  refine ⟨h.satisfied, h.applyLabels, h.star, h.move, h.counted, ?_⟩
  have happlied := h.applied
  simp only [appliedResults, Acting.push, ← List.append_assoc, List.countP_append] at happlied ⊢
  rw [List.countP_singleton, if_neg (by simpa using hstatus)]
  exact happlied

/-- A result of an action that applied something. -/
theorem applied_push {change : Planning → Planning}
    (hresults : (change a.planning).results = a.planning.results) (targetId : Option String) :
    ((a.apply change).push action .applied targetId).planning.appliedCount =
      appliedResults (((a.apply change).push action .applied targetId).planning.results.flatMap
        (·.actionResults) ++ ((a.apply change).push action .applied targetId).actionResults) := by
  have happlied := h.applied
  simp only [appliedResults, Acting.push, Acting.apply, hresults, ← List.append_assoc,
    List.countP_append] at happlied ⊢
  rw [happlied, List.countP_singleton]
  rfl

theorem Agrees.label {labelId : String} (havailable : labelId ∈ context.availableLabelIds) :
    Agrees context (labels ++ [⟨labelId, origin⟩]) stars moves
        (applyLabel context origin action a labelId).planning
        (applyLabel context origin action a labelId).actionResults ∧
      Kept a.planning (applyLabel context origin action a labelId).planning := by
  rw [applyLabel, if_neg (not_not.mpr havailable)]
  split
  · rename_i hsatisfied
    have hsame : firstLabels (existingLabels context) (labels ++ [⟨labelId, origin⟩]) =
        firstLabels (existingLabels context) labels := by
      rw [firstLabels_concat, ← h.applyLabels, if_pos ((h.satisfied labelId).mp hsatisfied),
        List.append_nil]
    have hpush := h.push action .alreadySatisfied nofun labelId
    exact ⟨⟨hpush.satisfied, hsame ▸ hpush.applyLabels, hpush.star, hpush.move, hpush.counted,
      hpush.applied⟩, .refl _⟩
  · rename_i hnew
    have hlabels : firstLabels (existingLabels context) (labels ++ [⟨labelId, origin⟩]) =
        a.planning.applyLabels ++ [⟨labelId, origin⟩] := by
      rw [firstLabels_concat, ← h.applyLabels, if_neg fun hmem => hnew ((h.satisfied _).mpr hmem)]
    refine ⟨⟨fun other => ?_, hlabels.symm, h.star, h.move, ?_, applied_push _ h rfl _⟩,
      rfl, rfl, rfl⟩
    · have hsatisfied := h.satisfied other
      simp only [Acting.push, Acting.apply, List.mem_cons, List.map_append, List.map_cons,
        List.map_nil, List.mem_append, List.not_mem_nil, or_false, hsatisfied]
      tauto
    · have hcounted := h.counted
      simp only [Acting.push, Acting.apply, List.length_append, List.length_singleton, hcounted]
      omega

theorem Agrees.labelList {labelIds : List String}
    (havailable : ∀ labelId ∈ labelIds, labelId ∈ context.availableLabelIds) :
    Agrees context (labels ++ labelIds.map fun labelId => ⟨labelId, origin⟩) stars moves
        (labelIds.foldl (applyLabel context origin action) a).planning
        (labelIds.foldl (applyLabel context origin action) a).actionResults ∧
      Kept a.planning (labelIds.foldl (applyLabel context origin action) a).planning := by
  induction labelIds generalizing a labels with
  | nil => exact ⟨by simpa using h, .refl _⟩
  | cons labelId labelIds ih =>
      obtain ⟨hagrees, hkept⟩ := h.label origin action (havailable labelId List.mem_cons_self)
      obtain ⟨hrest, hkept'⟩ := ih hagrees fun other hmem =>
        havailable other (List.mem_cons_of_mem _ hmem)
      rw [List.append_assoc] at hrest
      exact ⟨hrest, hkept.trans hkept'⟩

theorem Agrees.starAction (hscope : context.currentInboxScope = some scope) :
    Agrees context labels (stars ++ [origin]) moves
        (applyAction context scope origin a .star).planning
        (applyAction context scope origin a .star).actionResults ∧
      Kept a.planning (applyAction context scope origin a .star).planning := by
  have hstarred : isStarred context = scope.triggerIsStarred := by
    rw [isStarred, hscope, Option.any_some]
  have hstar := h.star
  rw [hstarred] at hstar
  simp only [applyAction]
  split
  · rename_i hsatisfied
    have hsame : a.planning.star =
        if isStarred context then none else (stars ++ [origin]).head? := by
      rw [hstarred]
      cases hs : scope.triggerIsStarred with
      | true => simpa [hs] using hstar
      | false =>
          cases stars with
          | nil => simp [hs, hstar] at hsatisfied
          | cons first stars => simpa [hs] using hstar
    have hpush := h.push .star .alreadySatisfied nofun none
    exact ⟨⟨hpush.satisfied, hpush.applyLabels, hsame, hpush.move, hpush.counted,
      hpush.applied⟩, .refl _⟩
  · rename_i hnew
    simp only [Bool.or_eq_true, not_or, Bool.not_eq_true, Option.isSome_eq_false_iff,
      Option.isNone_iff_eq_none] at hnew
    obtain ⟨hunstarred, hnone⟩ := hnew
    rw [hunstarred, hnone] at hstar
    have hempty : stars = [] := List.head?_eq_none_iff.mp hstar.symm
    refine ⟨⟨h.satisfied, h.applyLabels, ?_, h.move, ?_, applied_push _ h rfl _⟩, rfl, rfl, rfl⟩
    · rw [hstarred, hunstarred, hempty]
      rfl
    · have hcounted := h.counted
      rw [hnone] at hcounted
      simp only [Acting.push, Acting.apply, hcounted, Option.toList_none, Option.toList_some,
        List.length_nil, List.length_singleton]
      omega

theorem Agrees.moveAction {folderId : String}
    (havailable : folderId ∈ context.availableMoveFolderIds) :
    Agrees context labels stars (moves ++ ([folderId].filter
        (· ≠ context.snapshot.folderId)).map fun folderId => ⟨folderId, origin⟩)
        (applyAction context scope origin a (.moveToFolder folderId)).planning
        (applyAction context scope origin a (.moveToFolder folderId)).actionResults ∧
      Kept a.planning (applyAction context scope origin a (.moveToFolder folderId)).planning := by
  simp only [applyAction, havailable, not_true_eq_false, if_false]
  by_cases hcurrent : folderId = context.snapshot.folderId
  · rw [if_pos hcurrent]
    have hpush := h.push (.moveToFolder folderId) .alreadySatisfied nofun (some folderId)
    simp only [hcurrent, ne_eq, not_true_eq_false, decide_false, List.filter_cons_of_neg,
      List.filter_nil, List.map_nil, List.append_nil, Bool.false_eq_true, not_false_eq_true]
    exact ⟨hcurrent ▸ hpush, .refl _⟩
  · rw [if_neg hcurrent]
    have hasked : ([folderId].filter (· ≠ context.snapshot.folderId)).map
        (fun folderId => (⟨folderId, origin⟩ : PlannedMove)) = [⟨folderId, origin⟩] := by
      simp [hcurrent]
    rw [hasked]
    have hmove := h.move
    cases hplanned : a.planning.move with
    | none =>
        rw [hplanned] at hmove
        have hempty : moves = [] := List.head?_eq_none_iff.mp hmove.symm
        refine ⟨⟨h.satisfied, h.applyLabels, h.star, ?_, ?_, applied_push _ h rfl _⟩, rfl, rfl, rfl⟩
        · rw [hempty]
          rfl
        · have hcounted := h.counted
          rw [hplanned] at hcounted
          simp only [Acting.push, Acting.apply, hcounted, Option.toList_none, Option.toList_some,
            List.length_nil, List.length_singleton]
    | some move =>
        have hsame : a.planning.move =
            (moves ++ [(⟨folderId, origin⟩ : PlannedMove)]).head? := by
          cases moves with
          | nil => rw [hplanned] at hmove; cases hmove
          | cons first moves => exact hmove
        simp only
        split
        · have hpush := h.push (.moveToFolder folderId) .alreadySatisfied nofun (some folderId)
          exact ⟨⟨hpush.satisfied, hpush.applyLabels, hpush.star, hsame, hpush.counted,
            hpush.applied⟩, .refl _⟩
        · have hconflict : Agrees context labels stars moves a.conflict.planning
              a.conflict.actionResults :=
            ⟨h.satisfied, h.applyLabels, h.star, h.move, h.counted, h.applied⟩
          have hpush := hconflict.push (.moveToFolder folderId) .skippedConflict nofun
            (some folderId)
          exact ⟨⟨hpush.satisfied, hpush.applyLabels, hpush.star, hsame, hpush.counted,
            hpush.applied⟩, rfl, rfl, rfl⟩

end

/-- The targets of an action are there. -/
def Available (context : AutomationPlanningContext) (action : AutomationRuleAction) : Prop :=
  (∀ labelId ∈ action.labelIds, labelId ∈ context.availableLabelIds) ∧
    ∀ folderId ∈ action.folderIds, folderId ∈ context.availableMoveFolderIds

theorem available_of_missingTargets (h : missingTargets context definition = []) :
    ∀ action ∈ definition.actions, Available context action := by
  intro action haction
  have hnone := List.flatMap_eq_nil_iff.mp h action haction
  cases action with
  | applyLabels labelIds =>
      simp only [List.filter_eq_nil_iff, decide_eq_true_eq, not_not] at hnone
      exact ⟨hnone, nofun⟩
  | star => exact ⟨nofun, nofun⟩
  | moveToFolder folderId =>
      refine ⟨nofun, fun other hother => ?_⟩
      obtain rfl := List.mem_singleton.mp hother
      by_contra hmissing
      simp [hmissing] at hnone

/-- What was asked for, action by action. -/
abbrev AgreesAsked (context : AutomationPlanningContext)
    (asked : List (Origin × AutomationRuleAction)) :
    Planning → List AutomationActionResult → Prop :=
  Agrees context (labelsAsked asked) (starsAsked asked) (movesAsked context asked)

theorem labelsAsked_concat :
    labelsAsked (asked ++ [(origin, action)]) =
      labelsAsked asked ++ action.labelIds.map fun labelId => ⟨labelId, origin⟩ := by
  simp [labelsAsked]

theorem starsAsked_concat :
    starsAsked (asked ++ [(origin, action)]) =
      starsAsked asked ++ if action = .star then [origin] else [] := by
  by_cases h : action = .star <;> simp [starsAsked, List.filter_append, h]

theorem movesAsked_concat :
    movesAsked context (asked ++ [(origin, action)]) = movesAsked context asked ++
      (action.folderIds.filter (· ≠ context.snapshot.folderId)).map fun folderId =>
        ⟨folderId, origin⟩ := by
  simp [movesAsked]

section

variable (h : AgreesAsked context asked a.planning a.actionResults)
  (hscope : context.currentInboxScope = some scope)
include h hscope

/-- **One action.** -/
theorem agreesAsked_action (havailable : Available context action) :
    AgreesAsked context (asked ++ [(origin, action)])
        (applyAction context scope origin a action).planning
        (applyAction context scope origin a action).actionResults ∧
      Kept a.planning (applyAction context scope origin a action).planning := by
  rw [AgreesAsked, labelsAsked_concat, starsAsked_concat, movesAsked_concat]
  cases action with
  | applyLabels labelIds =>
      simp only [AutomationRuleAction.labelIds, AutomationRuleAction.folderIds, reduceCtorEq,
        if_false, List.filter_nil, List.map_nil, List.append_nil]
      exact Agrees.labelList origin _ h havailable.1
  | star =>
      simp only [AutomationRuleAction.labelIds, AutomationRuleAction.folderIds, if_true,
        List.filter_nil, List.map_nil, List.append_nil]
      exact Agrees.starAction origin h hscope
  | moveToFolder folderId =>
      simp only [AutomationRuleAction.labelIds, AutomationRuleAction.folderIds, reduceCtorEq,
        if_false, List.map_nil, List.append_nil]
      exact Agrees.moveAction origin h (havailable.2 folderId (List.mem_singleton_self _))

theorem agreesAsked_actions {actions : List AutomationRuleAction}
    (havailable : ∀ action ∈ actions, Available context action) :
    AgreesAsked context (asked ++ actions.map fun action => (origin, action))
        (actions.foldl (applyAction context scope origin) a).planning
        (actions.foldl (applyAction context scope origin) a).actionResults ∧
      Kept a.planning (actions.foldl (applyAction context scope origin) a).planning := by
  induction actions generalizing a asked with
  | nil => exact ⟨by simpa using h, .refl _⟩
  | cons action actions ih =>
      obtain ⟨hagrees, hkept⟩ := agreesAsked_action origin action h hscope
        (havailable action List.mem_cons_self)
      obtain ⟨hrest, hkept'⟩ := ih hagrees fun other hmem =>
        havailable other (List.mem_cons_of_mem _ hmem)
      rw [List.append_assoc] at hrest
      exact ⟨hrest, hkept.trans hkept'⟩

end

end Actions

/-! ### One rule -/

section Rules

variable {context contract host} {s s' : Planning} {rule : CapturedRule Input}
  {done rules : List (CapturedRule Input)}

theorem askedActions_concat : askedActions context contract host (done ++ [rule]) =
    askedActions context contract host done ++
      (((acting context contract host rule).map (·.actions)).getD []).map fun action =>
        (rule.origin, action) := by
  simp [askedActions]

theorem askedActions_of_none (h : acting context contract host rule = none) :
    askedActions context contract host (done ++ [rule]) =
      askedActions context contract host done := by
  rw [askedActions_concat, h, Option.map_none, Option.getD_none, List.map_nil, List.append_nil]

/-- A result is recorded, and nothing is pending any more. -/
theorem Agrees.record {labels : List PlannedLabel} {stars : List Origin} {moves : List PlannedMove}
    {pending : List AutomationActionResult} {result : AutomationPlannedRuleResult}
    (h : Agrees context labels stars moves s pending)
    (hcount : appliedResults result.actionResults = appliedResults pending) :
    Agrees context labels stars moves (s.push result) [] := by
  refine ⟨h.satisfied, h.applyLabels, h.star, h.move, h.counted, ?_⟩
  have happlied := h.applied
  simp only [appliedResults, Planning.push, List.flatMap_append, List.flatMap_singleton,
    List.append_nil, List.countP_append] at happlied hcount ⊢
  rw [happlied, hcount]

/-- What one live rule does. -/
structure Step (context : AutomationPlanningContext) (contract : DefinitionContract Input Text)
    (host : UnicodeHost) (done : List (CapturedRule Input)) (rule : CapturedRule Input)
    (s s' : Planning) : Prop where
  agrees : AgreesAsked context (askedActions context contract host (done ++ [rule])) s' []
  results : ∃ outcome indexes planned actions failure, outcome ≠ .stopped ∧
    s'.results = s.results ++ [rule.result outcome indexes planned actions failure]
  stopped : s'.stoppedByRuleId =
    if stopping context contract host rule then some rule.ruleId else s.stoppedByRuleId
  matched : s'.matchedCount =
    s.matchedCount + if (matching context contract host rule).isSome then 1 else 0

/-- A rule that does not match changes nothing. -/
theorem step_of_not_matching
    (hagrees : AgreesAsked context (askedActions context contract host done) s [])
    (hmatching : matching context contract host rule = none) {hasSkip : Bool}
    (houtcome : outcome ≠ .stopped) (indexes : List ℕ) (planned : List String)
    (failure : Option String) :
    Step context contract host done rule s
      ({ s with hasSkip := hasSkip }.push (rule.result outcome indexes planned [] failure)) := by
  have hacting : acting context contract host rule = none := by rw [acting, hmatching]; rfl
  have hstopping : stopping context contract host rule = false := by rw [stopping, hmatching]; rfl
  refine ⟨?_, ⟨outcome, indexes, planned, [], failure, houtcome, rfl⟩, ?_, ?_⟩
  · rw [askedActions_concat, hacting, Option.map_none, Option.getD_none, List.map_nil,
      List.append_nil]
    have hskip : AgreesAsked context (askedActions context contract host done)
        { s with hasSkip := hasSkip } [] :=
      ⟨hagrees.satisfied, hagrees.applyLabels, hagrees.star, hagrees.move, hagrees.counted,
        hagrees.applied⟩
    exact hskip.record rfl
  · rw [hstopping]
    rfl
  · rw [hmatching]
    rfl

/-- A rule that matches, whose entry is recorded. It stops the rules behind it if it is asked to
(`stops`). -/
theorem step_of_matching {t : Planning} {actions : List AutomationActionResult} (stops : Bool)
    (pending : List AutomationActionResult)
    (hmatching : matching context contract host rule = some definition)
    (hstopping : stopping context contract host rule = (definition.stopProcessing && stops))
    (hagrees : AgreesAsked context (askedActions context contract host (done ++ [rule])) t pending)
    (hkept : Kept { s with matchedCount := s.matchedCount + 1 } t)
    (hcount : appliedResults actions = appliedResults pending) (houtcome : outcome ≠ .stopped)
    (indexes : List ℕ) (planned : List String) (failure : Option String) :
    Step context contract host done rule s
      (if stops then
        (t.push (rule.result outcome indexes planned actions failure)).stopAfter definition rule
      else t.push (rule.result outcome indexes planned actions failure)) := by
  have hrecord : AgreesAsked context (askedActions context contract host (done ++ [rule]))
      (t.push (rule.result outcome indexes planned actions failure)) [] := hagrees.record hcount
  have hresults : (t.push (rule.result outcome indexes planned actions failure)).results =
      s.results ++ [rule.result outcome indexes planned actions failure] :=
    congrArg (· ++ [_]) hkept.results
  have hmatched : t.matchedCount =
      s.matchedCount + if (matching context contract host rule).isSome then 1 else 0 := by
    rw [hkept.matched, hmatching]
    rfl
  cases stops with
  | false =>
      rw [Bool.and_false] at hstopping
      refine ⟨hrecord, ⟨outcome, indexes, planned, actions, failure, houtcome, hresults⟩, ?_,
        hmatched⟩
      rw [hstopping]
      exact hkept.stopped
  | true =>
      rw [Bool.and_true] at hstopping
      simp only [if_true, Planning.stopAfter]
      split
      · rename_i hstops
        exact ⟨⟨hrecord.satisfied, hrecord.applyLabels, hrecord.star, hrecord.move,
          hrecord.counted, hrecord.applied⟩,
          ⟨outcome, indexes, planned, actions, failure, houtcome, hresults⟩, by
            rw [hstopping, hstops]; rfl, hmatched⟩
      · rename_i hstops
        refine ⟨hrecord, ⟨outcome, indexes, planned, actions, failure, houtcome, hresults⟩, ?_,
          hmatched⟩
        rw [hstopping, if_neg hstops]
        exact hkept.stopped

theorem planRule_live (hlive : truthy s.stoppedByRuleId = false)
    (hagrees : AgreesAsked context (askedActions context contract host done) s [])
    (h : planRule context contract host s rule = .ok s') :
    Step context contract host done rule s s' := by
  rw [planRule, hlive] at h
  simp only [Bool.false_eq_true, if_false] at h
  cases hparse : contract.parse rule.definition with
  | error =>
      rw [hparse] at h
      cases h
      exact step_of_not_matching hagrees (by rw [matching, hparse]) (by decide) [] [] _
  | ok definition =>
      rw [hparse] at h
      obtain ⟨evaluation, hevaluation, h⟩ := bind_eq_ok.mp h
      cases hmatched : evaluation.matched with
      | false =>
          rw [hmatched] at h
          obtain rfl := pure_eq_ok.mp h
          have hmatching : matching context contract host rule = none := by
            simp [matching, hparse, hevaluation, hmatched]
          exact step_of_not_matching hagrees hmatching (by decide) _ _ none
      | true =>
          have hmatching : matching context contract host rule = some definition := by
            simp [matching, hparse, hevaluation, hmatched]
          simp only [hmatched, Bool.not_true, Bool.false_eq_true, if_false] at h
          have hcounting : AgreesAsked context (askedActions context contract host done)
              { s with matchedCount := s.matchedCount + 1 } [] :=
            ⟨hagrees.satisfied, hagrees.applyLabels, hagrees.star, hagrees.move, hagrees.counted,
              hagrees.applied⟩
          cases hscope : context.currentInboxScope with
          | none =>
              rw [hscope] at h
              obtain rfl := pure_eq_ok.mp h
              have hacting : acting context contract host rule = none := by
                simp [acting, hmatching, hscope]
              have hstopping : stopping context contract host rule =
                  (definition.stopProcessing && true) := by
                simp [stopping, hmatching, hscope]
              refine step_of_matching true [] hmatching hstopping ?_ ?_ ?_ ?_ _ _ _
              · rw [askedActions_of_none hacting]
                exact ⟨hcounting.satisfied, hcounting.applyLabels, hcounting.star, hcounting.move,
                  hcounting.counted, hcounting.applied⟩
              · exact ⟨rfl, rfl, rfl⟩
              · rfl
              · decide
          | some scope =>
              rw [hscope] at h
              simp only at h
              split at h
              · rename_i hmissing
                obtain rfl := pure_eq_ok.mp h
                have hacting : acting context contract host rule = none := by
                  simp [acting, hmatching, hmissing]
                have hstopping : stopping context contract host rule =
                    (definition.stopProcessing && false) := by
                  simp [stopping, hmatching, hscope, hmissing]
                refine step_of_matching false [] hmatching hstopping ?_ ?_ ?_ ?_ _ _ _
                · rw [askedActions_of_none hacting]
                  exact ⟨hcounting.satisfied, hcounting.applyLabels, hcounting.star,
                    hcounting.move, hcounting.counted, hcounting.applied⟩
                · exact ⟨rfl, rfl, rfl⟩
                · simp [appliedResults, List.countP_map, List.countP_eq_zero]
                · decide
              · rename_i hmissing
                obtain rfl := pure_eq_ok.mp h
                have hnone : missingTargets context definition = [] := not_not.mp hmissing
                have hacting : acting context contract host rule = some definition := by
                  simp [acting, hmatching, hscope, hnone]
                have hstopping : stopping context contract host rule =
                    (definition.stopProcessing && true) := by
                  simp [stopping, hmatching, hscope, hnone]
                obtain ⟨hactions, hkept⟩ := agreesAsked_actions rule.origin
                  (a := { planning := { s with matchedCount := s.matchedCount + 1 } }) hcounting
                  hscope (available_of_missingTargets hnone)
                set a := definition.actions.foldl (applyAction context scope rule.origin)
                  { planning := { s with matchedCount := s.matchedCount + 1 } }
                refine step_of_matching true a.actionResults hmatching hstopping ?_
                  hkept ?_ ?_ _ _ _
                · rw [askedActions_concat, hacting]
                  exact hactions
                · rfl
                · rw [Acting.outcome]
                  split_ifs <;> decide

/-! ### All rules -/

/-- What the store of the captured rules promises: ids are not empty, and a definition that is
valid is valid again in the form that validating gave it. -/
structure WellCaptured (contract : DefinitionContract Input Text)
    (rules : List (CapturedRule Input)) :
    Prop where
  ids : ∀ rule ∈ rules, rule.ruleId ≠ ""
  valid : ∀ rule ∈ rules, ∀ definition, contract.parse rule.definition = .ok definition →
    ∃ again, contract.parse (contract.toInput definition) = .ok again

/-- The rule that a result is about. -/
def AutomationPlannedRuleResult.entry (result : AutomationPlannedRuleResult) :
    ℕ × String × String × ℕ :=
  (result.ordinal, result.ruleId, result.ruleName, result.ruleVersion)

def CapturedRule.entry (rule : CapturedRule Input) : ℕ × String × String × ℕ :=
  (rule.ordinal, rule.ruleId, rule.ruleName, rule.version)

/-- A result says that a rule was not reached. -/
def AutomationPlannedRuleResult.isStopped (result : AutomationPlannedRuleResult) : Prop :=
  result.outcome = .stopped ∧ result.plannedActions = [] ∧ result.actionResults = []

variable (rules) in
theorem live_append_of_none (h : ∀ rule ∈ done, stopping context contract host rule = false) :
    live context contract host (done ++ rules) = done ++ live context contract host rules := by
  induction done with
  | nil => rfl
  | cons rule done ih =>
      rw [List.cons_append, live, h rule List.mem_cons_self]
      simp only [Bool.false_eq_true, if_false]
      rw [ih fun other hmem => h other (List.mem_cons_of_mem _ hmem), List.cons_append]

theorem live_singleton : live context contract host [rule] = [rule] := by
  rw [live]
  split <;> rfl

variable (rules) in
/-- Behind a rule that stops there is no live rule. -/
theorem live_append_of_some (h : ∃ rule ∈ done, stopping context contract host rule = true) :
    live context contract host (done ++ rules) = live context contract host done := by
  induction done with
  | nil =>
      obtain ⟨_, hmem, -⟩ := h
      cases hmem
  | cons first done ih =>
      rw [List.cons_append, live, live]
      split
      · rfl
      · rename_i hfirst
        obtain ⟨rule, hmem, hstops⟩ := h
        obtain rfl | hmem := List.mem_cons.mp hmem
        · exact absurd hstops hfirst
        · rw [ih ⟨rule, hmem, hstops⟩]

/-- The variables of the loop behind some of the rules. -/
structure Planned (context : AutomationPlanningContext) (contract : DefinitionContract Input Text)
    (host : UnicodeHost) (done : List (CapturedRule Input)) (s : Planning) : Prop where
  agrees : AgreesAsked context (askedActions context contract host
    (live context contract host done)) s []
  stopped : s.stoppedByRuleId =
    (done.find? (stopping context contract host)).map (·.ruleId)
  entries : s.results.map (·.entry) = done.map (·.entry)
  reached : ∃ heads tails, s.results = heads ++ tails ∧
    heads.length = (live context contract host done).length ∧
    (∀ result ∈ heads, result.outcome ≠ .stopped) ∧ ∀ result ∈ tails, result.isStopped
  matched : s.matchedCount =
    (live context contract host done).countP fun rule =>
      (matching context contract host rule).isSome

theorem Planned.start : Planned context contract host [] (Planning.start context) where
  agrees := by
    refine ⟨fun labelId => ?_, rfl, ?_, rfl, rfl, rfl⟩
    · exact ⟨.inl, fun h => h.elim id nofun⟩
    · rw [starsAsked]
      exact (ite_self _).symm
  stopped := rfl
  entries := rfl
  reached := ⟨[], [], rfl, rfl, nofun, nofun⟩
  matched := rfl

/-- **One more rule.** -/
theorem planned_rule (hplanned : Planned context contract host done s)
    (hids : ∀ other ∈ done, other.ruleId ≠ "")
    (h : planRule context contract host s rule = .ok s') :
    Planned context contract host (done ++ [rule]) s' ∧
      ∃ result, s'.results = s.results ++ [result] := by
  obtain ⟨heads, tails, hresults, hlength, hheads, htails⟩ := hplanned.reached
  by_cases hstop : ∃ other ∈ done, stopping context contract host other = true
  · obtain ⟨first, hfind⟩ := Option.isSome_iff_exists.mp (List.find?_isSome.mpr hstop)
    have hstopped := hplanned.stopped
    rw [hfind, Option.map_some] at hstopped
    have htruthy : truthy s.stoppedByRuleId = true := by
      rw [hstopped]
      exact decide_eq_true (hids first (List.mem_of_find?_eq_some hfind))
    rw [planRule, htruthy] at h
    cases h
    have hlive := live_append_of_some [rule] hstop
    refine ⟨⟨hlive ▸ hplanned.agrees.record rfl, ?_, ?_, ?_, hlive ▸ hplanned.matched⟩, _, rfl⟩
    · rw [List.find?_append, hfind]
      exact hstopped
    · simp only [Planning.push, List.map_append, hplanned.entries]
      rfl
    · refine ⟨heads, tails ++ [rule.result .stopped [] [] [] none], ?_, hlive ▸ hlength, hheads, ?_⟩
      · rw [← List.append_assoc, ← hresults]
        rfl
      · intro result hmem
        obtain hmem | hmem := List.mem_append.mp hmem
        · exact htails result hmem
        · obtain rfl := List.mem_singleton.mp hmem
          exact ⟨rfl, rfl, rfl⟩
  · have hnone : ∀ other ∈ done, stopping context contract host other = false := by
      intro other hmem
      by_contra hother
      exact hstop ⟨other, hmem, (Bool.not_eq_false _).mp hother⟩
    have hlive : live context contract host done = done := by
      simpa [live] using live_append_of_none [] hnone
    have hlive' : live context contract host (done ++ [rule]) = done ++ [rule] := by
      rw [live_append_of_none [rule] hnone, live_singleton]
    have hfind : done.find? (stopping context contract host) = none :=
      List.find?_eq_none.mpr fun other hmem => by simp [hnone other hmem]
    have hstopped := hplanned.stopped
    rw [hfind, Option.map_none] at hstopped
    have hstep := planRule_live (by rw [hstopped]; rfl) (hlive ▸ hplanned.agrees) h
    obtain ⟨outcome, indexes, planned, actions, failure, houtcome, hresults'⟩ := hstep.results
    have htail : tails = [] := by
      have hcount := congrArg List.length hplanned.entries
      rw [List.length_map, List.length_map, hresults, List.length_append, hlength, hlive] at hcount
      exact List.length_eq_zero_iff.mp (by omega)
    rw [htail, List.append_nil] at hresults
    refine ⟨⟨hlive'.symm ▸ hstep.agrees, ?_, ?_, ⟨s'.results, [], (List.append_nil _).symm, ?_, ?_,
      nofun⟩, ?_⟩, _, hresults'⟩
    · rw [hstep.stopped, List.find?_append, hfind, Option.none_or, hstopped, List.find?_singleton]
      split <;> rfl
    · rw [hresults', List.map_append, hplanned.entries, List.map_append]
      rfl
    · rw [hresults', hresults, hlive', List.length_append, List.length_append, hlength, hlive]
      rfl
    · intro result hmem
      rw [hresults', hresults] at hmem
      obtain hmem | hmem := List.mem_append.mp hmem
      · exact hheads result hmem
      · obtain rfl := List.mem_singleton.mp hmem
        exact houtcome
    · rw [hstep.matched, hlive', List.countP_append, hplanned.matched, hlive, List.countP_singleton]

theorem planned_run (hplanned : Planned context contract host done s)
    (hids : ∀ rule ∈ done ++ rules, rule.ruleId ≠ "")
    (h : rules.foldlM (planRule context contract host) s = .ok s') :
    Planned context contract host (done ++ rules) s' ∧ s.results <+: s'.results := by
  induction rules generalizing done s with
  | nil =>
      obtain rfl := pure_eq_ok.mp h
      rw [List.append_nil]
      exact ⟨hplanned, List.prefix_rfl⟩
  | cons rule rules ih =>
      rw [List.foldlM_cons] at h
      obtain ⟨t, ht, h⟩ := bind_eq_ok.mp h
      obtain ⟨hone, result, hresult⟩ := planned_rule hplanned
        (fun other hmem => hids other (List.mem_append_left _ hmem)) ht
      have happend : done ++ rule :: rules = done ++ [rule] ++ rules := by
        rw [List.append_assoc, List.singleton_append]
      rw [happend] at hids ⊢
      obtain ⟨hall, hprefix⟩ := ih hone hids h
      exact ⟨hall, (hresult ▸ List.prefix_append s.results [result]).trans hprefix⟩

variable (context host) in
/-- A valid definition can be evaluated, and so a captured rule can be planned. -/
theorem planRule_ok (hvalid : ∀ definition, contract.parse rule.definition = .ok definition →
    ∃ again, contract.parse (contract.toInput definition) = .ok again) :
    ∃ s', planRule context contract host s rule = .ok s' := by
  rw [planRule]
  split
  · exact ⟨_, rfl⟩
  · cases hparse : contract.parse rule.definition with
    | error => exact ⟨_, rfl⟩
    | ok definition =>
        obtain ⟨again, hagain⟩ := hvalid definition hparse
        have hevaluation : ∃ evaluation, evaluateAutomationRule contract host
            (contract.toInput definition) context.snapshot = .ok evaluation := by
          rw [evaluateAutomationRule, hagain]
          exact ⟨_, rfl⟩
        obtain ⟨evaluation, hevaluation⟩ := hevaluation
        simp only [hevaluation, ok_bind]
        split
        · exact ⟨_, rfl⟩
        · split
          · exact ⟨_, rfl⟩
          · split <;> exact ⟨_, rfl⟩

variable (context host) in
theorem planRules_ok (hvalid : ∀ rule ∈ rules, ∀ definition,
    contract.parse rule.definition = .ok definition →
      ∃ again, contract.parse (contract.toInput definition) = .ok again) (s : Planning) :
    ∃ s', rules.foldlM (planRule context contract host) s = .ok s' := by
  induction rules generalizing s with
  | nil => exact ⟨s, rfl⟩
  | cons rule rules ih =>
      obtain ⟨t, ht⟩ := planRule_ok context host (s := s) (hvalid rule List.mem_cons_self)
      obtain ⟨s', hs'⟩ := ih (fun other hmem => hvalid other (List.mem_cons_of_mem _ hmem)) t
      exact ⟨s', by rw [List.foldlM_cons, ht]; exact hs'⟩

end Rules

/-! ### The plan -/

/-- What a plan comes to. -/
structure FirstRuleWins (rules : List (CapturedRule Input)) (plan : AutomationRunPlan) : Prop where
  /-- Each rule has one result, in the order of the rules. -/
  entries : plan.results.map (·.entry) = rules.map (·.entry)
  /-- The live rules are reached, and the others are not. -/
  reached : ∃ heads tails, plan.results = heads ++ tails ∧
    heads.length = (live context contract host rules).length ∧
    (∀ result ∈ heads, result.outcome ≠ .stopped) ∧ ∀ result ∈ tails, result.isStopped
  stoppedByRuleId : plan.stoppedByRuleId =
    (rules.find? (stopping context contract host)).map (·.ruleId)
  labels : plan.applyLabels = firstLabels (existingLabels context) (labelsAsked
    (askedActions context contract host (live context contract host rules)))
  labels_nodup : (plan.applyLabels.map (·.labelId)).Nodup
  labels_new : ∀ label ∈ plan.applyLabels, label.labelId ∉ existingLabels context
  labels_available : ∀ label ∈ plan.applyLabels, label.labelId ∈ context.availableLabelIds
  star : plan.star = if isStarred context then none else (starsAsked
    (askedActions context contract host (live context contract host rules))).head?
  move : plan.move = (movesAsked context
    (askedActions context contract host (live context contract host rules))).head?
  move_available : ∀ move ∈ plan.move, move.folderId ∈ context.availableMoveFolderIds ∧
    move.folderId ≠ context.snapshot.folderId
  matchedCount : plan.matchedCount = (live context contract host rules).countP fun rule =>
    (matching context contract host rule).isSome
  counted : plan.appliedCount =
    plan.applyLabels.length + plan.star.toList.length + plan.move.toList.length
  applied : plan.appliedCount = appliedResults (plan.results.flatMap (·.actionResults))

variable {context contract host} {s : Planning} {rules : List (CapturedRule Input)}

/-- The actions that are asked for have their targets. -/
theorem available_of_asked {asked : Origin × AutomationRuleAction}
    (h : asked ∈ askedActions context contract host rules) : Available context asked.2 := by
  obtain ⟨rule, -, h⟩ := List.mem_flatMap.mp h
  obtain ⟨action, haction, rfl⟩ := List.mem_map.mp h
  cases hacting : acting context contract host rule with
  | none =>
      rw [hacting] at haction
      cases haction
  | some definition =>
      rw [hacting] at haction
      have hmissing := (Option.filter_eq_some_iff.mp hacting).2
      simp only [Bool.and_eq_true, decide_eq_true_eq] at hmissing
      exact available_of_missingTargets hmissing.2 action haction

theorem Planned.mem_applyLabels (h : Planned context contract host rules s) {label : PlannedLabel}
    (hlabel : label ∈ s.applyLabels) : label ∈ firstLabels (existingLabels context) (labelsAsked
      (askedActions context contract host (live context contract host rules))) :=
  h.agrees.applyLabels ▸ hlabel

theorem Planned.wins (h : Planned context contract host rules s) :
    FirstRuleWins context contract host rules s.plan where
  entries := h.entries
  reached := h.reached
  stoppedByRuleId := h.stopped
  labels := h.agrees.applyLabels
  labels_nodup := by
    change (s.applyLabels.map (·.labelId)).Nodup
    rw [h.agrees.applyLabels]
    exact firstLabels_nodup
  labels_new := fun label hlabel => (mem_firstLabels (h.mem_applyLabels hlabel)).2
  labels_available := fun label hlabel => by
    obtain ⟨hasked, -⟩ := mem_firstLabels (h.mem_applyLabels hlabel)
    obtain ⟨asked, hmem, hlabel⟩ := List.mem_flatMap.mp hasked
    obtain ⟨labelId, hlabelId, rfl⟩ := List.mem_map.mp hlabel
    exact (available_of_asked hmem).1 labelId hlabelId
  star := h.agrees.star
  move := h.agrees.move
  move_available := fun move hmove => by
    have hfirst := List.mem_of_head? (h.agrees.move.symm.trans hmove)
    obtain ⟨asked, hmem, hmove⟩ := List.mem_flatMap.mp hfirst
    obtain ⟨folderId, hfolder, rfl⟩ := List.mem_map.mp hmove
    obtain ⟨hfolder, hother⟩ := List.mem_filter.mp hfolder
    exact ⟨(available_of_asked hmem).2 folderId hfolder, of_decide_eq_true hother⟩
  matchedCount := h.matched
  counted := h.agrees.counted
  applied := by
    have happlied := h.agrees.applied
    rw [List.append_nil] at happlied
    exact happlied

/-- **The first rule wins.** Rules that were captured well have a plan. It takes the labels, the
star and the move from the first live rules that ask for them, its counts agree with its action
results, and the results of the first rules are those of planning these rules alone. -/
theorem planAutomationRun_spec (context : AutomationPlanningContext) (host : UnicodeHost)
    (h : WellCaptured contract rules) :
    ∃ plan, planAutomationRun context contract host rules = .ok plan ∧
      FirstRuleWins context contract host rules plan ∧
      ∀ done more, rules = done ++ more →
        ∃ plan', planAutomationRun context contract host done = .ok plan' ∧
          plan'.results = plan.results.take done.length := by
  obtain ⟨s, hs⟩ := planRules_ok context host h.valid (Planning.start context)
  obtain ⟨hplanned, -⟩ := planned_run .start (by simpa using h.ids) hs
  refine ⟨s.plan, by rw [planAutomationRun, hs]; rfl, hplanned.wins, ?_⟩
  rintro done more rfl
  rw [List.foldlM_append] at hs
  obtain ⟨t, ht, hs⟩ := bind_eq_ok.mp hs
  have hids : ∀ rule ∈ done, rule.ruleId ≠ "" := fun rule hmem =>
    h.ids rule (List.mem_append_left _ hmem)
  obtain ⟨hdone, -⟩ := planned_run .start (by simpa using hids) ht
  obtain ⟨-, hprefix⟩ := planned_run hdone (by simpa using h.ids) hs
  refine ⟨t.plan, by rw [planAutomationRun, ht]; rfl, ?_⟩
  have hlength : t.results.length = done.length := by
    simpa using congrArg List.length hdone.entries
  exact hlength ▸ List.prefix_iff_eq_take.mp hprefix

/-- A rule for every message. -/
def everyMessage (ruleId : String) (actions : List AutomationRuleAction) (stopProcessing : Bool) :
    CapturedRule AutomationRuleDefinition :=
  ⟨0, ruleId, ruleId, 1, ⟨ruleId, .all, [.everyIncoming], actions, stopProcessing⟩⟩

/-- Three rules that clash, of which the second stops the third. -/
def clashingRules : List (CapturedRule AutomationRuleDefinition) :=
  [everyMessage "r1" [.applyLabels ["old", "new"], .moveToFolder "archive"] false,
    everyMessage "r2" [.applyLabels ["new"], .moveToFolder "receipts"] true,
    everyMessage "r3" [.star] false]

def clashingContext : AutomationPlanningContext where
  snapshot := ⟨"inbox", "a@example.com", "Hello", []⟩
  currentInboxScope := some ⟨["old"], false⟩
  availableLabelIds := ["old", "new"]
  availableMoveFolderIds := ["archive", "receipts"]

theorem clashing_captured : WellCaptured sampleContract clashingRules :=
  ⟨by decide, fun _ _ definition _ => ⟨definition, rfl⟩⟩

theorem planAutomationRun_spec_clash : ∃ plan,
    planAutomationRun clashingContext sampleContract ⟨id, id⟩ clashingRules = .ok plan ∧
      plan.applyLabels = [⟨"new", ⟨"r1", 1⟩⟩] ∧ plan.star = none ∧
      plan.move = some ⟨"archive", ⟨"r1", 1⟩⟩ ∧ plan.appliedCount = 2 := by
  obtain ⟨plan, hplan, hwins, -⟩ := planAutomationRun_spec clashingContext ⟨id, id⟩
    clashing_captured
  have hlabels : plan.applyLabels = [⟨"new", ⟨"r1", 1⟩⟩] := hwins.labels.trans (by decide +kernel)
  have hstar : plan.star = none := hwins.star.trans (by decide +kernel)
  have hmove : plan.move = some ⟨"archive", ⟨"r1", 1⟩⟩ := hwins.move.trans (by decide +kernel)
  exact ⟨plan, hplan, hlabels, hstar, hmove, by rw [hwins.counted, hlabels, hstar, hmove]; rfl⟩

end MailPortal.Automation
