import MailPortal.Automation.Rules
import MailPortal.Lib.Runs

/-!
# What a Rule Operation Changes

The operations on rules change the tables in six ways, or not at all (`RuleChange`). This
module says so once, so that invariants go by these cases and never look into an operation.

Main result: `RuleCommand.perform_change`.
-/

namespace MailPortal.Automation

open Failure Table

variable {Input Text : Type} {contract : DefinitionContract Input Text}
  {around : Surroundings} {tables tables' : RuleTables Text} {switches : RuleRow → Bool}
variable {ruleId actorId : String} {expected : JsNumber}
variable {input : Input}

/-! ### The row that changes -/

/-- What does not change when rules are ordered anew. -/
def RuleRow.view (rule : RuleRow) :
    String × AutomationRuleState × Option ℕ × Option ℕ :=
  (rule.id, rule.state, rule.activeVersion, rule.draftVersion)

/-- The rules after one of them has changed. -/
structure RuleChanged (rules rules' : List RuleRow) (current changed : RuleRow) : Prop where
  mem : current ∈ rules
  id : changed.id = current.id
  rows : ∀ r, r ∈ rules' ↔ r = changed ∨ r ∈ rules ∧ r.id ≠ current.id
  ids : rules'.map RuleRow.id = rules.map RuleRow.id

/-- A version with its references has been stored. -/
structure VersionStored (contract : DefinitionContract Input Text)
    (tables tables' : RuleTables Text) (ruleId : String) (version : ℕ)
    (definition : AutomationRuleDefinition) : Prop where
  fresh : versionRow tables ruleId version = none
  versions : ∃ text digested actorId now,
    contract.canonicalAutomationRuleDefinition definition = .ok text ∧
    tables'.versions =
      tables.versions ++ [⟨ruleId, version, text, contract.digest digested, actorId, now⟩]
  labelRefs : tables'.labelRefs = tables.labelRefs ++
    targetRefs ruleId version (definitionTargets definition).labelIds
  folderRefs : tables'.folderRefs = tables.folderRefs ++
    targetRefs ruleId version (definitionTargets definition).folderIds

/-- The rules that a command may switch on without a look at how many are enabled. -/
def RuleCommand.switchesOn (command : RuleCommand Input) (rule : RuleRow) : Bool :=
  match command with
  | .setEnabled ruleId true _ expected =>
      rule.id = ruleId && matchesRevision rule.revision expected
  | _ => false

/-- **What a rule operation does to the tables.** `switches` are the rules that it may switch
on. -/
inductive RuleChange (contract : DefinitionContract Input Text) (switches : RuleRow → Bool)
    (tables tables' : RuleTables Text) : Prop
  /-- Nothing has changed. -/
  | same (h : tables' = tables)
  /-- A rule with its first draft is there. -/
  | created (input : Input) (definition : AutomationRuleDefinition) (rule : RuleRow)
      (hparse : contract.parse input = .ok definition)
      (hstored : VersionStored contract tables tables' rule.id 1 definition)
      (hnew : ∀ r ∈ tables.rules, r.id ≠ rule.id)
      (hrule : rule.state = .draft ∧ rule.activeVersion = none ∧ rule.draftVersion = some 1)
      (hrules : tables'.rules = tables.rules ++ [rule])
  /-- A rule has a new draft; the references of the old one are dropped. -/
  | drafted (input : Input) (definition : AutomationRuleDefinition) (stored : RuleTables Text)
      (current changed : RuleRow) (version : ℕ)
      (hparse : contract.parse input = .ok definition)
      (hstored : VersionStored contract tables stored current.id version definition)
      (hchanged : RuleChanged tables.rules tables'.rules current changed)
      (hstate : current.state ≠ .archived ∧
        (changed.state = current.state ∨ changed.state = .draft))
      (hversions : changed.activeVersion = current.activeVersion ∧
        changed.draftVersion = some version)
      (hrest : tables'.versions = stored.versions ∧
        tables'.labelRefs = deleteWhere (isInactive tables' current.id) stored.labelRefs ∧
        tables'.folderRefs = deleteWhere (isInactive tables' current.id) stored.folderRefs)
  /-- The draft of a rule has become its active version, and the rule is enabled. -/
  | activated (current changed : RuleRow)
      (hchanged : RuleChanged tables.rules tables'.rules current changed)
      (hstate : current.state ≠ .archived ∧ changed.state = .enabled)
      (hversions : current.draftVersion.isSome ∧ changed.activeVersion = current.draftVersion ∧
        changed.draftVersion = none)
      (hcap : otherEnabled tables current.id < maxEnabledRules)
      (hrest : tables'.versions = tables.versions ∧
        tables'.labelRefs = deleteWhere (isInactive tables' current.id) tables.labelRefs ∧
        tables'.folderRefs = deleteWhere (isInactive tables' current.id) tables.folderRefs)
  /-- A rule with an active version is switched on or off. -/
  | switched (current changed : RuleRow)
      (hchanged : RuleChanged tables.rules tables'.rules current changed)
      (hstate : current.state ≠ .archived ∧ current.activeVersion.isSome ∧
        (changed.state = .enabled ∧ current.state ≠ .enabled ∧ switches current = true ∨
          changed.state = .disabled))
      (hversions : changed.activeVersion = current.activeVersion ∧
        changed.draftVersion = current.draftVersion)
      (hrest : tables'.versions = tables.versions ∧ tables'.labelRefs = tables.labelRefs ∧
        tables'.folderRefs = tables.folderRefs)
  /-- A rule is archived, without references. -/
  | archived (current changed : RuleRow)
      (hchanged : RuleChanged tables.rules tables'.rules current changed)
      (hstate : changed.state = .archived)
      (hversions : changed.activeVersion = current.activeVersion ∧
        changed.draftVersion = current.draftVersion)
      (hrest : tables'.versions = tables.versions ∧
        tables'.labelRefs = deleteWhere (·.ruleId = current.id) tables.labelRefs ∧
        tables'.folderRefs = deleteWhere (·.ruleId = current.id) tables.folderRefs)
  /-- The rules are ordered anew. -/
  | reordered
      (hrules : tables'.rules.map RuleRow.view = tables.rules.map RuleRow.view)
      (hrest : tables'.versions = tables.versions ∧ tables'.labelRefs = tables.labelRefs ∧
        tables'.folderRefs = tables.folderRefs)

/-! ### The parts of the operations -/

/-- `ruleWrite` changes what is thrown, and nothing else. -/
theorem ruleWrite_eq_ok {α : Type} {x : Except AutomationError α} {a : α} :
    ruleWrite x = .ok a ↔ x = .ok a := by
  cases x with
  | ok b => exact Iff.rfl
  | error e =>
      cases e with
      | constraint violated =>
          cases violated <;> constructor <;> intro h <;> cases h
      | _ => exact Iff.rfl

theorem ruleRow_eq_ok {rule : RuleRow} (h : ruleRow tables ruleId = .ok rule) :
    rule ∈ tables.rules ∧ rule.id = ruleId := lookup_eq_some (orThrow_eq_ok.mp h)

/-- With distinct identifiers an update by identifier and revision is that of one row. -/
theorem updateRule_changed (hids : (tables.rules.map RuleRow.id).Nodup) {current : RuleRow}
    (hmem : current ∈ tables.rules) (change : RuleRow → RuleRow)
    (hid : ∀ r, (change r).id = r.id) :
    RuleChanged tables.rules (updateRule tables current change).rules current (change current) := by
  refine ⟨hmem, hid current, fun r => ?_, map_key_updateWhere hid⟩
  have honly : ∀ r ∈ tables.rules, r.id = current.id → r = current :=
    fun r hr hr' => eq_of_key_eq hids hr hmem hr'
  rw [updateRule, mem_updateWhere]
  constructor
  · rintro (⟨r₀, hr₀, hp, rfl⟩ | ⟨hr, hp⟩)
    · simp only [Bool.and_eq_true, decide_eq_true_eq] at hp
      rw [honly r₀ hr₀ hp.1]
      exact .inl rfl
    · refine .inr ⟨hr, fun hr' => ?_⟩
      rw [honly r hr hr'] at hp
      simp at hp
  · rintro (rfl | ⟨hr, hne⟩)
    · exact .inl ⟨current, hmem, by simp, rfl⟩
    · exact .inr ⟨hr, by simp [hne]⟩

/-- What storing a version does. -/
theorem insertVersion_stored {version : ℕ} {definition : AutomationRuleDefinition}
    {fingerprint now : String}
    (hfingerprint : contract.fingerprintAutomationRuleDefinition definition = .ok fingerprint)
    (h : insertVersion contract around tables ruleId version definition fingerprint actorId now =
      .ok tables') :
    VersionStored contract tables tables' ruleId version definition ∧
      tables'.rules = tables.rules ∧ tables'.state = tables.state := by
  obtain ⟨text, htext, hdigest⟩ := bind_eq_ok.mp hfingerprint
  cases hdigest
  obtain ⟨_, -, h⟩ := bind_eq_ok.mp h
  obtain ⟨_, -, h⟩ := bind_eq_ok.mp h
  obtain ⟨text', htext', h⟩ := bind_eq_ok.mp h
  obtain ⟨_, -, h⟩ := bind_eq_ok.mp h
  obtain ⟨_, -, h⟩ := bind_eq_ok.mp h
  obtain ⟨_, hfresh, h⟩ := bind_eq_ok.mp h
  cases h
  have hnone := require_eq_ok.mp hfresh
  exact ⟨⟨Option.isNone_iff_eq_none.mp hnone, ⟨text', text, actorId, now, htext', rfl⟩, rfl, rfl⟩,
    rfl, rfl⟩

theorem createDraft_change
    (h : createDraft contract around ruleId input actorId expected tables = .ok tables') :
    RuleChange contract switches tables tables' := by
  obtain ⟨definition, hparse, h⟩ := bind_eq_ok.mp h
  obtain ⟨fingerprint, hfingerprint, h⟩ := bind_eq_ok.mp h
  obtain ⟨timestamp, -, h⟩ := bind_eq_ok.mp h
  have h := ruleWrite_eq_ok.mp h
  obtain ⟨_, -, h⟩ := bind_eq_ok.mp h
  obtain ⟨_, -, h⟩ := bind_eq_ok.mp h
  obtain ⟨_, -, h⟩ := bind_eq_ok.mp h
  obtain ⟨_, hunique, h⟩ := bind_eq_ok.mp h
  obtain ⟨stored, hstored, h⟩ := bind_eq_ok.mp h
  cases h
  have hunique := require_eq_ok.mp hunique
  rw [Bool.and_eq_true, Option.isNone_iff_eq_none] at hunique
  have hnew : ∀ r ∈ tables.rules, r.id ≠ ruleId := by
    intro r hr hid
    have hnone := List.find?_eq_none.mp hunique.1 r hr
    simp [hid] at hnone
  obtain ⟨hinserted, hrules, -⟩ := insertVersion_stored hfingerprint hstored
  refine .created input definition _ hparse ?_ ?_ ?_ hrules
  · exact ⟨hinserted.fresh, hinserted.versions, hinserted.labelRefs, hinserted.folderRefs⟩
  · exact hnew
  · exact ⟨rfl, rfl, rfl⟩

section

variable (hids : (tables.rules.map RuleRow.id).Nodup)
include hids

theorem updateDraft_change
    (h : updateDraft contract around ruleId input actorId expected tables = .ok tables') :
    RuleChange contract switches tables tables' := by
  obtain ⟨definition, hparse, h⟩ := bind_eq_ok.mp h
  obtain ⟨fingerprint, hfingerprint, h⟩ := bind_eq_ok.mp h
  obtain ⟨timestamp, -, h⟩ := bind_eq_ok.mp h
  have h := ruleWrite_eq_ok.mp h
  obtain ⟨current, hcurrent, h⟩ := bind_eq_ok.mp h
  obtain ⟨_, -, h⟩ := bind_eq_ok.mp h
  obtain ⟨_, hlive, h⟩ := bind_eq_ok.mp h
  obtain ⟨stored, hstored, h⟩ := bind_eq_ok.mp h
  obtain ⟨_, -, h⟩ := bind_eq_ok.mp h
  cases h
  have hlive : current.state ≠ .archived := by simpa using require_eq_ok.mp hlive
  obtain ⟨hmem, -⟩ := ruleRow_eq_ok hcurrent
  obtain ⟨hinserted, hrules, -⟩ := insertVersion_stored hfingerprint hstored
  rw [← hrules] at hmem hids
  have hchanged := updateRule_changed hids hmem (fun r => { r with
    name := definition.name
    normalizedName := contract.normalizedName definition.name
    draftVersion := some current.nextVersion
    nextVersion := current.nextVersion + 1
    state := if r.activeVersion.isNone then .draft else r.state
    revision := r.revision + 1
    updatedBy := actorId
    updatedAt := timestamp }) fun _ => rfl
  rw [hrules] at hchanged
  refine .drafted input definition stored current _ current.nextVersion hparse hinserted hchanged
    ⟨hlive, ?_⟩ ⟨rfl, rfl⟩ ⟨rfl, rfl, rfl⟩
  dsimp only
  split
  · exact .inr rfl
  · exact .inl rfl

theorem enable_change (h : enable around ruleId actorId expected tables = .ok tables') :
    RuleChange contract switches tables tables' := by
  obtain ⟨timestamp, -, h⟩ := bind_eq_ok.mp h
  obtain ⟨current, hcurrent, h⟩ := bind_eq_ok.mp h
  obtain ⟨_, -, h⟩ := bind_eq_ok.mp h
  obtain ⟨_, hlive, h⟩ := bind_eq_ok.mp h
  obtain ⟨draftVersion, hdraft, h⟩ := bind_eq_ok.mp h
  obtain ⟨version, -, h⟩ := bind_eq_ok.mp h
  obtain ⟨_, -, h⟩ := bind_eq_ok.mp h
  obtain ⟨_, hcap, h⟩ := bind_eq_ok.mp h
  cases h
  have hlive : current.state ≠ .archived := by simpa using require_eq_ok.mp hlive
  have hcap : otherEnabled tables current.id < maxEnabledRules := by
    simpa using require_eq_ok.mp hcap
  obtain ⟨hmem, -⟩ := ruleRow_eq_ok hcurrent
  have hchanged := updateRule_changed hids hmem (fun r => { r with
    state := .enabled
    activeVersion := r.draftVersion
    draftVersion := none
    revision := r.revision + 1
    updatedBy := actorId
    updatedAt := timestamp }) fun _ => rfl
  have hsome : current.draftVersion.isSome = true := by
    rw [orThrow_eq_ok.mp hdraft]
    rfl
  exact .activated current _ hchanged ⟨hlive, rfl⟩ ⟨hsome, rfl, rfl⟩ hcap ⟨rfl, rfl, rfl⟩

theorem setEnabled_change {enabled : Bool}
    (h : setEnabled around ruleId enabled actorId expected tables = .ok tables') :
    RuleChange contract (.setEnabled ruleId enabled actorId expected : RuleCommand Input).switchesOn
      tables tables' := by
  obtain ⟨timestamp, -, h⟩ := bind_eq_ok.mp h
  obtain ⟨current, hcurrent, h⟩ := bind_eq_ok.mp h
  obtain ⟨_, hrevision, h⟩ := bind_eq_ok.mp h
  obtain ⟨_, hlive, h⟩ := bind_eq_ok.mp h
  have hlive := require_eq_ok.mp hlive
  simp only [Bool.and_eq_true, decide_eq_true_eq] at hlive
  obtain ⟨hmem, hid⟩ := ruleRow_eq_ok hcurrent
  split at h
  · cases h
    exact .same rfl
  · next hon =>
    split at h
    · cases h
      exact .same rfl
    · cases h
      have hchanged := updateRule_changed hids hmem (fun r => { r with
        state := if enabled then .enabled else .disabled
        revision := r.revision + 1
        updatedBy := actorId
        updatedAt := timestamp }) fun _ => rfl
      refine .switched current _ hchanged ⟨hlive.1, hlive.2, ?_⟩ ⟨rfl, rfl⟩ ⟨rfl, rfl, rfl⟩
      cases enabled with
      | true =>
          refine .inl ⟨rfl, by simpa using hon, ?_⟩
          rw [RuleCommand.switchesOn, hid, require_eq_ok.mp hrevision]
          simp
      | false => exact .inr rfl

theorem archive_change (h : archive around ruleId actorId expected tables = .ok tables') :
    RuleChange contract switches tables tables' := by
  obtain ⟨timestamp, -, h⟩ := bind_eq_ok.mp h
  obtain ⟨current, hcurrent, h⟩ := bind_eq_ok.mp h
  obtain ⟨_, -, h⟩ := bind_eq_ok.mp h
  obtain ⟨hmem, -⟩ := ruleRow_eq_ok hcurrent
  split at h
  · cases h
    exact .same rfl
  · cases h
    have hchanged := updateRule_changed hids hmem (fun r => { r with
      state := .archived
      revision := r.revision + 1
      updatedBy := actorId
      updatedAt := timestamp
      archivedBy := some actorId
      archivedAt := some timestamp }) fun _ => rfl
    exact .archived current _ hchanged rfl ⟨rfl, rfl⟩ ⟨rfl, rfl, rfl⟩

end

/-- New positions leave the rest of the rules as it is. -/
theorem writePositions_view (actorId timestamp : String) (rules : List RuleRow)
    (order : List (ℕ × String)) :
    (writePositions actorId timestamp rules order).map RuleRow.view = rules.map RuleRow.view := by
  induction order generalizing rules with
  | nil => rfl
  | cons entry order ih =>
      rw [writePositions, List.foldl_cons, ← writePositions, ih]
      exact map_key_updateWhere fun _ => rfl

theorem reorder_change {ids : List String}
    (h : reorder around ids expected actorId tables = .ok tables') :
    RuleChange contract switches tables tables' := by
  obtain ⟨_, -, h⟩ := bind_eq_ok.mp h
  obtain ⟨timestamp, -, h⟩ := bind_eq_ok.mp h
  obtain ⟨_, -, h⟩ := bind_eq_ok.mp h
  obtain ⟨_, -, h⟩ := bind_eq_ok.mp h
  cases h
  exact .reordered (writePositions_view _ _ _ _) ⟨rfl, rfl, rfl⟩

/-- **Every operation changes the tables in one of the ways of `RuleChange`.** -/
theorem RuleCommand.perform_change (hids : (tables.rules.map RuleRow.id).Nodup)
    {command : RuleCommand Input} (h : command.perform contract around tables = .ok tables') :
    RuleChange contract command.switchesOn tables tables' := by
  cases command with
  | createDraft => exact createDraft_change h
  | updateDraft => exact updateDraft_change hids h
  | enable => exact enable_change hids h
  | setEnabled => exact setEnabled_change hids h
  | archive => exact archive_change hids h
  | restoreVersion =>
      obtain ⟨_, -, h⟩ := bind_eq_ok.mp h
      obtain ⟨_, -, h⟩ := bind_eq_ok.mp h
      exact updateDraft_change hids h
  | reorder => exact reorder_change h

/-- A step changes the tables in one of these ways. -/
theorem ruleStep_change (hids : (tables.rules.map RuleRow.id).Nodup)
    (command : Surroundings × RuleCommand Input) :
    RuleChange contract command.2.switchesOn tables (ruleStep contract tables command) := by
  rw [ruleStep]
  cases h : command.2.perform contract command.1 tables with
  | ok tables' => exact RuleCommand.perform_change hids h
  | error e => exact .same rfl

/-- The identifiers of rules stay distinct. -/
theorem RuleChange.ids (h : RuleChange contract switches tables tables')
    (hids : (tables.rules.map RuleRow.id).Nodup) : (tables'.rules.map RuleRow.id).Nodup := by
  cases h with
  | same h => exact h ▸ hids
  | created _ _ rule _ _ hnew _ hrules =>
      rw [hrules, List.map_append, List.map_singleton]
      refine List.Nodup.append hids (List.nodup_singleton _) ?_
      intro id hid hrule
      obtain ⟨r, hr, rfl⟩ := List.mem_map.mp hid
      exact hnew r hr (List.mem_singleton.mp hrule)
  | drafted _ _ _ _ _ _ _ _ hchanged => exact hchanged.ids ▸ hids
  | activated _ _ hchanged => exact hchanged.ids ▸ hids
  | switched _ _ hchanged => exact hchanged.ids ▸ hids
  | archived _ _ hchanged => exact hchanged.ids ▸ hids
  | reordered hrules =>
      have hmap := congrArg (List.map Prod.fst) hrules
      rw [List.map_map, List.map_map] at hmap
      exact (show tables'.rules.map RuleRow.id = tables.rules.map RuleRow.id from hmap) ▸ hids

end MailPortal.Automation
