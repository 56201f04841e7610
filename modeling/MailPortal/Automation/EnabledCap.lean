import MailPortal.Automation.References
import MailPortal.Automation.RunChanges

/-!
# Every Enabled Rule Runs

`captureLiveInbound` reads at most `maxEnabledRules` enabled rules. As long as no more are
enabled, a run captures the active version of each of them. `enable` looks at how many rules
are enabled; `setEnabled` does not.

Main results:

* `every_enabled_rule_runs` : in every state of a run of operations there are at most as many
  enabled rules as a capture reads, and a capture drops none, exactly when no `setEnabled` of
  the run switches on one rule too many.
* `enabled_rules_overfilled` : a run that enables one rule too many.
-/

namespace MailPortal.Automation

open Failure Table Runs

variable {Input Text : Type} {contract : DefinitionContract Input Text}
  {tables tables' : RuleTables Text}
variable {rules : List RuleRow} {current changed : RuleRow}
variable {timestampMs : ℤ}

/-- How many rules are enabled. -/
def enabledCount (tables : RuleTables Text) : ℕ := tables.rules.countP (·.state = .enabled)

/-- The enabled rules, in order, however many there are. -/
def enabledInOrder (tables : RuleTables Text) : List RuleRow :=
  (tables.rules.filter (·.state = .enabled)).insertionSort RuleRow.before

/-- The row is the snapshot of a numbered rule in a run: its active version as it is stored, with
the name that its definition has. -/
def Snapshot (contract : DefinitionContract Input Text) (tables : RuleTables Text)
    (runId : String) (entry : RuleRow × ℕ) (row : RunRuleRow Text) : Prop :=
  row.runId = runId ∧ row.ordinal = entry.2 ∧ row.ruleId = entry.1.id ∧
    entry.1.activeVersion = some row.ruleVersion ∧
    ∃ version, versionRow tables row.ruleId row.ruleVersion = some version ∧
      row.definitionJson = version.definitionJson ∧
      row.definitionFingerprint = version.definitionFingerprint ∧
      ∃ definition, contract.readDefinition version.definitionJson = .ok definition ∧
        row.ruleName = definition.name

/-- The rows are the snapshots of the rules in a run, in order. -/
def Snapshots (contract : DefinitionContract Input Text) (tables : RuleTables Text)
    (runId : String) (rules : List RuleRow) (rows : List (RunRuleRow Text)) : Prop :=
  List.Forall₂ (Snapshot contract tables runId) rules.zipIdx rows

/-- A message that a capture must take up: it is stored and has no run yet, and the time is
written as `toISOString` writes it. Without an enabled rule the run is over at once, and the
capture prunes, for which the time may not be among the first ninety days that can be printed. -/
structure Capturable (tables : RuleTables Text) (emails : List String)
    (messageId acceptedAt : String) (runs : RunTables Text) : Prop where
  named : messageId ≠ "" ∧ codeUnits messageId ≤ 300
  stored : messageId ∈ emails
  fresh : ∀ run ∈ runs.runs,
    run.triggerMessageId ≠ messageId ∧ run.id ≠ "automation:" ++ messageId
  time : isCanonicalUtcTimestamp acceptedAt = true
  cutoff : enabledInOrder tables = [] → ∀ t, isoTimeValue acceptedAt = some t →
    (toISOString (t - liveRetentionMs)).isSome = true

/-- **Captures drop no enabled rule.** -/
structure CapturesEnabled (contract : DefinitionContract Input Text) (tables : RuleTables Text) :
    Prop where
  /-- A message that can be captured is captured. -/
  answers : ∀ emails messageId acceptedAt runs,
    Capturable tables emails messageId acceptedAt runs → ∃ outcome runs',
      captureLiveInbound contract tables emails messageId acceptedAt runs =
        .ok (outcome, runs') ∧ outcome.replayed = false
  /-- A run that is captured has the snapshot of all enabled rules, and waits for its turn. -/
  complete : ∀ emails messageId acceptedAt runs outcome runs',
    captureLiveInbound contract tables emails messageId acceptedAt runs = .ok (outcome, runs') →
    outcome.replayed = false →
    outcome.captureFailed = false ∧ outcome.runId = "automation:" ++ messageId ∧
      (enabledInOrder tables ≠ [] → ∃ run ∈ runs'.runs, run.id = outcome.runId ∧
        run.triggerMessageId = messageId ∧ run.state = .pending) ∧
      ∃ kept rows, kept.Sublist runs.runRules ∧ runs'.runRules = kept ++ rows ∧
        Snapshots contract tables outcome.runId (enabledInOrder tables) rows

/-- The rules that a step may switch on, although as many as may be are enabled. -/
def overfills (tables : RuleTables Text) (command : Surroundings × RuleCommand Input) : Bool :=
  (toISOString command.1.now).isSome && tables.rules.any fun rule =>
    command.2.switchesOn rule && rule.state ≠ .enabled && rule.state ≠ .archived &&
      rule.activeVersion.isSome && maxEnabledRules ≤ otherEnabled tables rule.id

/-! ### Counting -/

/-- One rule apart, the same rules are counted after it has changed. -/
theorem RuleChanged.countP {rules' : List RuleRow} (h : RuleChanged rules rules' current changed)
    (hids : (rules.map RuleRow.id).Nodup) (p : RuleRow → Bool) : rules'.countP p =
      rules.countP (fun r => p r && r.id ≠ current.id) + if p changed then 1 else 0 := by
  have hids' : (rules'.map RuleRow.id).Nodup := h.ids ▸ hids
  have hothers : (rules'.filter (·.id ≠ current.id)).Perm (rules.filter (·.id ≠ current.id)) := by
    refine (List.perm_ext_iff_of_nodup (hids'.of_map.filter _) (hids.of_map.filter _)).mpr
      fun r => ?_
    rw [List.mem_filter, List.mem_filter, h.rows, decide_eq_true_iff]
    constructor
    · rintro ⟨rfl | ⟨hr, -⟩, hne⟩
      · exact absurd h.id hne
      · exact ⟨hr, hne⟩
    · exact fun ⟨hr, hne⟩ => ⟨.inr ⟨hr, hne⟩, hne⟩
  have hsingle : rules'.filter (fun r => !decide (r.id ≠ current.id)) = [changed] := by
    refine filter_eq_singleton hids' ((h.rows changed).mpr (.inl rfl)) (by simp [h.id]) ?_
    intro r _ hne
    rw [h.id] at hne
    simp [hne]
  have hsplit := List.countP_eq_countP_filter_add rules' p (fun r => decide (r.id ≠ current.id))
  rw [hsingle, hothers.countP_eq, List.countP_filter, List.countP_singleton] at hsplit
  exact hsplit

/-- A row that stays as it is. -/
theorem RuleChanged.refl (hids : (rules.map RuleRow.id).Nodup) (hmem : current ∈ rules) :
    RuleChanged rules rules current current := by
  refine ⟨hmem, rfl, fun r => ⟨fun hr => ?_, ?_⟩, rfl⟩
  · by_cases hid : r.id = current.id
    · exact .inl (eq_of_key_eq hids hr hmem hid)
    · exact .inr ⟨hr, hid⟩
  · rintro (rfl | ⟨hr, -⟩)
    · exact hmem
    · exact hr

/-- The count of enabled rules after one of them has changed. -/
theorem RuleChanged.enabledCount (h : RuleChanged tables.rules tables'.rules current changed)
    (hids : (tables.rules.map RuleRow.id).Nodup) : enabledCount tables' =
      otherEnabled tables current.id + if changed.state = .enabled then 1 else 0 := by
  rw [Automation.enabledCount, h.countP hids, otherEnabled]
  simp

/-- The count of enabled rules, seen from one of the rules. -/
theorem enabledCount_eq (hids : (tables.rules.map RuleRow.id).Nodup)
    (hmem : current ∈ tables.rules) :
    enabledCount tables =
      otherEnabled tables current.id + if current.state = .enabled then 1 else 0 :=
  (RuleChanged.refl hids hmem).enabledCount hids

/-! ### The invariant -/

/-- The primary key of versions. -/
def VersionRow.key (version : VersionRow Text) : String × ℕ := (version.ruleId, version.version)

/-- What a capture relies on. -/
structure CapInv (contract : DefinitionContract Input Text) (tables : RuleTables Text) :
    Prop where
  refs : RefInv contract tables
  keys : (tables.versions.map VersionRow.key).Nodup
  digests : ∀ version ∈ tables.versions,
    DefinitionContract.isFingerprint version.definitionFingerprint = true
  active : ∀ rule ∈ tables.rules, rule.state = .enabled → rule.activeVersion.isSome = true
  cap : enabledCount tables ≤ maxEnabledRules

theorem CapInv.empty (updatedAt : String) :
    CapInv contract (RuleTables.empty updatedAt : RuleTables Text) where
  refs := .empty updatedAt
  keys := List.nodup_nil
  digests _ hversion := absurd hversion List.not_mem_nil
  active _ hrule := absurd hrule List.not_mem_nil
  cap := Nat.zero_le _

/-- The version that is stored is new, and its fingerprint is a digest. -/
theorem VersionStored.keys {ruleId : String} {version : ℕ}
    {definition : AutomationRuleDefinition} (hlawful : contract.Lawful)
    (h : VersionStored contract tables tables' ruleId version definition)
    (hkeys : (tables.versions.map VersionRow.key).Nodup)
    (hdigests : ∀ version ∈ tables.versions,
      DefinitionContract.isFingerprint version.definitionFingerprint = true) :
    (tables'.versions.map VersionRow.key).Nodup ∧ ∀ version ∈ tables'.versions,
      DefinitionContract.isFingerprint version.definitionFingerprint = true := by
  obtain ⟨text, digested, actorId, now, -, hversions⟩ := h.versions
  rw [hversions, List.map_append, List.map_singleton]
  refine ⟨List.Nodup.append hkeys (List.nodup_singleton _) ?_, fun v hv => ?_⟩
  · intro key hkey hnew
    obtain ⟨v, hv, rfl⟩ := List.mem_map.mp hkey
    have hnone := List.find?_eq_none.mp h.fresh v hv
    have hsame := List.mem_singleton.mp hnew
    simp only [VersionRow.key, Prod.mk.injEq] at hsame
    simp [hsame] at hnone
  · rcases List.mem_append.mp hv with hv | hv
    · exact hdigests v hv
    · rw [List.mem_singleton.mp hv]
      exact hlawful.digest digested

section

variable (h : CapInv contract tables)
  (hchanged : RuleChanged tables.rules tables'.rules current changed)
include h hchanged

/-- The rules stay enabled with an active version when one rule changes. -/
theorem CapInv.active_changed
    (hactive : changed.state = .enabled → changed.activeVersion.isSome = true) :
    ∀ rule ∈ tables'.rules, rule.state = .enabled → rule.activeVersion.isSome = true := by
  intro rule hrule hstate
  rcases (hchanged.rows rule).mp hrule with rfl | ⟨hmem, -⟩
  · exact hactive hstate
  · exact h.active rule hmem hstate

/-- No more rules are enabled when one rule that is not enabled after it was changes. -/
theorem CapInv.cap_changed (hstate : changed.state = .enabled → current.state = .enabled) :
    enabledCount tables' ≤ maxEnabledRules := by
  have hcap := h.cap
  rw [enabledCount_eq h.refs.ids hchanged.mem] at hcap
  rw [hchanged.enabledCount h.refs.ids]
  split
  · next hon =>
    rw [if_pos (hstate hon)] at hcap
    exact hcap
  · omega

end

/-- **The invariant is kept by a change that does not switch on one rule too many.** -/
theorem CapInv.change (hlawful : contract.Lawful) (h : CapInv contract tables)
    {switches : RuleRow → Bool} (hchange : RuleChange contract switches tables tables')
    (hfits : ∀ rule ∈ tables.rules, switches rule = true → rule.state ≠ .enabled →
      rule.state ≠ .archived → rule.activeVersion.isSome = true →
      otherEnabled tables rule.id < maxEnabledRules) : CapInv contract tables' := by
  have hrefs := h.refs.change hlawful hchange
  have hids := h.refs.ids
  cases hchange with
  | same hsame => exact hsame ▸ h
  | created input definition rule hparse hstored hnew hrule hrules =>
      obtain ⟨hkeys, hdigests⟩ := hstored.keys hlawful h.keys h.digests
      refine ⟨hrefs, hkeys, hdigests, fun r hr hstate => ?_, ?_⟩
      · rw [hrules, List.mem_append, List.mem_singleton] at hr
        rcases hr with hr | rfl
        · exact h.active r hr hstate
        · rw [hrule.1] at hstate
          cases hstate
      · rw [enabledCount, hrules, List.countP_append, List.countP_singleton, hrule.1]
        exact h.cap
  | drafted input definition stored current changed version hparse hstored hchanged hstate
      hversions hrest =>
      obtain ⟨hkeys, hdigests⟩ := hstored.keys hlawful h.keys h.digests
      rw [← hrest.1] at hkeys hdigests
      have hon : changed.state = .enabled → current.state = .enabled := by
        intro hon
        rcases hstate.2 with hsame | hdraft
        · rw [← hsame, hon]
        · rw [hdraft] at hon
          cases hon
      refine ⟨hrefs, hkeys, hdigests, h.active_changed hchanged fun hstate => ?_,
        h.cap_changed hchanged hon⟩
      rw [hversions.1]
      exact h.active current hchanged.mem (hon hstate)
  | activated current changed hchanged hstate hversions hcap hrest =>
      refine ⟨hrefs, hrest.1 ▸ h.keys, hrest.1 ▸ h.digests, h.active_changed hchanged fun _ => ?_,
        ?_⟩
      · rw [hversions.2.1]
        exact hversions.1
      · rw [hchanged.enabledCount hids]
        split <;> omega
  | switched current changed hchanged hstate hversions hrest =>
      refine ⟨hrefs, hrest.1 ▸ h.keys, hrest.1 ▸ h.digests, h.active_changed hchanged fun _ => ?_,
        ?_⟩
      · rw [hversions.1]
        exact hstate.2.1
      · rw [hchanged.enabledCount hids]
        rcases hstate.2.2 with ⟨-, hoff, hswitches⟩ | hoff
        · have hfit := hfits current hchanged.mem hswitches hoff hstate.1 hstate.2.1
          split <;> omega
        · have hcap := h.cap
          rw [enabledCount_eq hids hchanged.mem] at hcap
          rw [hoff]
          simp only [reduceCtorEq, if_false]
          omega
  | archived current changed hchanged hstate hversions hrest =>
      have hoff : changed.state ≠ .enabled := by
        rw [hstate]
        simp
      exact ⟨hrefs, hrest.1 ▸ h.keys, hrest.1 ▸ h.digests,
        h.active_changed hchanged fun hon => absurd hon hoff,
        h.cap_changed hchanged fun hon => absurd hon hoff⟩
  | reordered hrules hrest =>
      refine ⟨hrefs, hrest.1 ▸ h.keys, hrest.1 ▸ h.digests, fun rule hrule hstate => ?_, ?_⟩
      · have hview : rule.view ∈ tables'.rules.map RuleRow.view :=
          List.mem_map.mpr ⟨rule, hrule, rfl⟩
        rw [hrules] at hview
        obtain ⟨old, hold, heq⟩ := List.mem_map.mp hview
        simp only [RuleRow.view, Prod.mk.injEq] at heq
        rw [← heq.2.2.1]
        exact h.active old hold (heq.2.1.trans hstate)
      · have hcount : ∀ rules : List RuleRow, rules.countP (·.state = .enabled) =
            (rules.map RuleRow.view).countP fun view => view.2.1 = .enabled := by
          intro rules
          rw [List.countP_map]
          rfl
        rw [enabledCount, hcount, hrules, ← hcount]
        exact h.cap

/-- A step that does not overfill keeps the invariant. -/
theorem CapInv.step (hlawful : contract.Lawful) (h : CapInv contract tables)
    (command : Surroundings × RuleCommand Input) (hfits : overfills tables command = false) :
    CapInv contract (ruleStep contract tables command) := by
  obtain ⟨around, command⟩ := command
  cases command with
  | setEnabled ruleId enabled actorId expected =>
      rw [overfills, Bool.and_eq_false_iff, List.any_eq_false] at hfits
      rcases hfits with htime | hfits
      · -- without a time nothing is written
        have herror : setEnabled around ruleId enabled actorId expected tables =
            .error .invalidTime := by
          rw [setEnabled, canonicalIso, Option.isSome_eq_false_iff.mp htime |>
            Option.isNone_iff_eq_none.mp]
          rfl
        rw [ruleStep, RuleCommand.perform, herror]
        exact h
      · refine h.change hlawful (ruleStep_change h.refs.ids _)
          fun rule hrule hswitches hoff hlive hactive => ?_
        have hfit := hfits rule hrule
        simp only [hswitches, hactive, Bool.and_eq_true, decide_eq_true_eq, not_and] at hfit
        simpa [hoff, hlive] using hfit
  | _ =>
      exact h.change hlawful (ruleStep_change h.refs.ids (around, _))
        fun _ _ hswitches => absurd hswitches Bool.false_ne_true

/-- A step that overfills enables more rules than a capture reads. -/
theorem CapInv.step_overfills (h : CapInv contract tables)
    {command : Surroundings × RuleCommand Input} (hover : overfills tables command = true) :
    maxEnabledRules < enabledCount (ruleStep contract tables command) := by
  obtain ⟨around, command⟩ := command
  rw [overfills, Bool.and_eq_true, List.any_eq_true] at hover
  obtain ⟨htime, rule, hrule, hover⟩ := hover
  simp only [Bool.and_eq_true, decide_eq_true_eq] at hover
  obtain ⟨⟨⟨⟨hswitches, hoff⟩, hlive⟩, hactive⟩, hfull⟩ := hover
  obtain ⟨timestamp, htimestamp⟩ := Option.isSome_iff_exists.mp htime
  cases command with
  | setEnabled ruleId enabled actorId expected =>
      cases enabled with
      | false => exact absurd hswitches Bool.false_ne_true
      | true =>
          rw [RuleCommand.switchesOn, Bool.and_eq_true, decide_eq_true_eq] at hswitches
          obtain ⟨rfl, hrevision⟩ := hswitches
          have hstep : setEnabled around rule.id true actorId expected tables =
              .ok (bumpGeneration (updateRule tables rule fun r => { r with
                state := .enabled
                revision := r.revision + 1
                updatedBy := actorId
                updatedAt := timestamp }) timestamp) := by
            simp [setEnabled, canonicalIso, htimestamp, ok_bind, ruleRow, orThrow,
              lookup_of_mem h.refs.ids hrule, assertRevision, require, hrevision, hlive, hactive,
              hoff]
          have hchanged := updateRule_changed h.refs.ids hrule (fun r => { r with
            state := .enabled
            revision := r.revision + 1
            updatedBy := actorId
            updatedAt := timestamp }) fun _ => rfl
          have hcount := RuleChanged.enabledCount hchanged h.refs.ids
          simp only [if_true] at hcount
          rw [ruleStep, RuleCommand.perform, hstep]
          exact lt_of_lt_of_eq (Nat.lt_succ_of_le hfull) hcount.symm
  | _ => exact absurd hswitches Bool.false_ne_true

/-! ### Captures -/

/-- An enabled rule has one active version, which reads back. -/
theorem CapInv.activeVersion (h : CapInv contract tables) {rule : RuleRow}
    (hrule : rule ∈ tables.rules) (hstate : rule.state = .enabled) :
    ∃ version, tables.versions.filter (fun v =>
        v.ruleId = rule.id && some v.version = rule.activeVersion) = [version] ∧
      rule.activeVersion = some version.version ∧
      versionRow tables rule.id version.version = some version ∧
      ∃ definition, activeName contract ⟨rule, version⟩ = .ok definition.name ∧
        contract.readDefinition version.definitionJson = .ok definition := by
  obtain ⟨number, hnumber⟩ := Option.isSome_iff_exists.mp (h.active rule hrule hstate)
  have hread := h.refs.stored rule hrule number (.inl hnumber)
  obtain ⟨definition, hread⟩ := Option.isSome_iff_exists.mp hread
  obtain ⟨version, hversion, hread⟩ := Option.bind_eq_some_iff.mp hread
  have hmem := List.mem_of_find?_eq_some hversion
  have hkey := List.find?_some hversion
  simp only [Bool.and_eq_true, decide_eq_true_eq] at hkey
  have hok : contract.readDefinition version.definitionJson = .ok definition := by
    cases hr : contract.readDefinition version.definitionJson with
    | ok d =>
        rw [hr] at hread
        exact congrArg _ (Option.some.inj hread)
    | error e =>
        rw [hr] at hread
        cases hread
  refine ⟨version, ?_, hkey.2 ▸ hnumber, hkey.2 ▸ hversion, definition, ?_, hok⟩
  · refine filter_eq_singleton h.keys hmem (by simp [hkey, hnumber]) fun v _ hne => ?_
    have hother : ¬ (v.ruleId = rule.id ∧ v.version = number) :=
      fun heq => hne (Prod.ext (heq.1.trans hkey.1.symm) (heq.2.trans hkey.2.symm))
    simpa [hnumber] using hother
  · rw [activeName, hok, ok_bind, h.digests version hmem]
    rfl

/-- The rule is joined with its active version, which can be read. -/
def Joined (contract : DefinitionContract Input Text) (tables : RuleTables Text) (rule : RuleRow)
    (enabled : EnabledRule Text) : Prop :=
  enabled.rule = rule ∧ rule.activeVersion = some enabled.version.version ∧
    versionRow tables rule.id enabled.version.version = some enabled.version ∧
    ∃ definition, activeName contract enabled = .ok definition.name ∧
      contract.readDefinition enabled.version.definitionJson = .ok definition

/-- The enabled rules with their active versions are all of them, in order. -/
theorem CapInv.enabledRules (h : CapInv contract tables) :
    List.Forall₂ (Joined contract tables) (enabledInOrder tables) (enabledRules tables) := by
  have hperm := List.perm_insertionSort RuleRow.before
    (tables.rules.filter (·.state = .enabled))
  have hlength : (enabledInOrder tables).length = enabledCount tables := by
    rw [enabledInOrder, hperm.length_eq, enabledCount, List.countP_eq_length_filter]
  rw [Automation.enabledRules, ← enabledInOrder]
  have hpairs : ∀ rule ∈ enabledInOrder tables, ∃ enabled : EnabledRule Text,
      ((tables.versions.filter fun v => v.ruleId = rule.id &&
        some v.version = rule.activeVersion).map fun version => ⟨rule, version⟩) = [enabled] ∧
      Joined contract tables rule enabled := by
    intro rule hrule
    obtain ⟨hmem, hstate⟩ := List.mem_filter.mp (hperm.mem_iff.mp hrule)
    obtain ⟨version, hjoin, hactive, hstored, hread⟩ :=
      h.activeVersion hmem (of_decide_eq_true hstate)
    exact ⟨⟨rule, version⟩, by rw [hjoin]; rfl, rfl, hactive, hstored, hread⟩
  have hjoined := forall₂_flatMap hpairs
  rwa [List.take_of_length_le (by rw [← hjoined.length_eq, hlength]; exact h.cap)]

/-- Pruning takes rules of runs away, and adds none. -/
theorem pruneHistory_runRules {runs runs' : RunTables Text}
    (h : pruneHistory timestampMs runs = .ok runs') : runs'.runRules.Sublist runs.runRules := by
  obtain ⟨old, surplus, -, -, rfl⟩ := pruneHistory_eq_ok h
  exact List.filter_sublist.trans List.filter_sublist

/-- Rows that are made of numbered pairs, pair by pair. -/
theorem snapshots_of_pairs (runId : String) {enabled : List (EnabledRule Text)}
    {names : List String} (hrules : List.Forall₂ (Joined contract tables) rules enabled)
    (hnames : List.Forall₂ (fun enabled name => activeName contract enabled = .ok name)
      enabled names) (first : ℕ) :
    List.Forall₂ (Snapshot contract tables runId) (rules.zipIdx first)
      (((enabled.zip names).zipIdx first).map fun entry =>
        snapshotRow runId entry.2 entry.1.1 entry.1.2) := by
  induction hrules generalizing names first with
  | nil => exact .nil
  | cons hrule hrules ih =>
      cases hnames with
      | cons hname hnames =>
          obtain ⟨rfl, hactive, hstored, definition, hactiveName, hread⟩ := hrule
          rw [List.zipIdx_cons, List.zip_cons_cons, List.zipIdx_cons, List.map_cons]
          refine .cons ⟨rfl, rfl, rfl, hactive, _, hstored, rfl, rfl, definition, hread, ?_⟩
            (ih hnames (first + 1))
          rw [hactiveName] at hname
          exact (Except.ok.inj hname).symm

/-- The enabled rules all have a name that can be read. -/
theorem CapInv.names (h : CapInv contract tables) :
    ∃ names, (Automation.enabledRules tables).mapM (activeName contract) = .ok names :=
  mapM_ok fun enabled henabled => by
    obtain ⟨rule, -, -, -, definition, hname, -⟩ := exists_partner h.enabledRules henabled
    exact ⟨_, hname⟩

/-- Pruning succeeds when its cutoff can be printed. -/
theorem pruneHistory_ok (runs : RunTables Text)
    (h : (toISOString (timestampMs - liveRetentionMs)).isSome = true) :
    ∃ runs', pruneHistory timestampMs runs = .ok runs' := by
  obtain ⟨cutoff, hcutoff⟩ := Option.isSome_iff_exists.mp h
  cases hpruned : pruneHistory timestampMs runs with
  | ok runs' => exact ⟨runs', rfl⟩
  | error e =>
      rw [pruneHistory, canonicalIso, hcutoff] at hpruned
      cases hpruned

/-- A message that can be captured is captured. -/
theorem CapInv.answers (h : CapInv contract tables) {emails : List String}
    {messageId acceptedAt : String} {runs : RunTables Text}
    (hcapturable : Capturable tables emails messageId acceptedAt runs) : ∃ outcome runs',
      captureLiveInbound contract tables emails messageId acceptedAt runs =
        .ok (outcome, runs') ∧ outcome.replayed = false := by
  obtain ⟨acceptedAtMs, hms⟩ : ∃ t, isoTimeValue acceptedAt = some t := by
    have htime := hcapturable.time
    rw [isCanonicalUtcTimestamp] at htime
    split at htime
    · exact ⟨_, ‹_›⟩
    · cases htime
  have hvalid : (messageId = "" || 300 < codeUnits messageId ||
      !isCanonicalUtcTimestamp acceptedAt) = false := by
    simp [hcapturable.named, hcapturable.time]
  have hfind : (runs.runs.find? fun r => r.triggerMessageId = messageId) = none :=
    List.find?_eq_none.mpr fun run hrun => by simpa using (hcapturable.fresh run hrun).1
  have hid : (runs.runs.all fun r => r.id ≠
      (reservedRun messageId acceptedAt tables.state.rulesetGeneration).id) = true :=
    List.all_eq_true.mpr fun run hrun => by
      exact decide_eq_true (hcapturable.fresh run hrun).2
  have hstored : emails.contains messageId = true :=
    List.contains_iff_mem.mpr hcapturable.stored
  obtain ⟨names, hnames⟩ := h.names
  rw [captureLiveInbound, hvalid, hms]
  simp only [Bool.false_eq_true, if_false, orThrow, ok_bind, hfind]
  rw [(require_eq_ok (u := ())).mpr hid, ok_bind, (require_eq_ok (u := ())).mpr hstored, ok_bind,
    hnames]
  cases henabled : Automation.enabledRules tables with
  | nil =>
      have hnone : enabledInOrder tables = [] :=
        List.forall₂_nil_right_iff.mp (henabled ▸ h.enabledRules)
      obtain ⟨pruned, hpruned⟩ := pruneHistory_ok _ (hcapturable.cutoff hnone acceptedAtMs hms)
      simp only [List.isEmpty_nil, if_true]
      rw [hpruned]
      exact ⟨_, pruned, rfl, rfl⟩
  | cons rule rest => exact ⟨_, _, rfl, rfl⟩

/-- A capture in a state of the invariant drops no enabled rule. -/
theorem CapInv.captures (h : CapInv contract tables) : CapturesEnabled contract tables := by
  refine ⟨fun _ _ _ _ => h.answers, ?_⟩
  intro emails messageId acceptedAt runs outcome runs' hcapture hfresh
  rcases captureLiveInbound_eq_ok hcapture with ⟨hreplayed, -⟩ | ⟨-, hcaptured⟩
  · rw [hfresh] at hreplayed
    cases hreplayed
  · have hrules := h.enabledRules
    cases hcaptured with
    | unread e acceptedAtMs hnames =>
        obtain ⟨names, hok⟩ := h.names
        rw [hok] at hnames
        cases hnames
    | nothing acceptedAtMs hnone houtcome hpruned =>
        rw [hnone] at hrules
        have hempty := List.forall₂_nil_right_iff.mp hrules
        have hkept := pruneHistory_runRules hpruned
        refine ⟨by rw [houtcome], by rw [houtcome]; rfl, fun hsome => absurd hempty hsome,
          runs'.runRules, [], hkept, (List.append_nil _).symm, ?_⟩
        rw [Snapshots, hempty]
        exact .nil
    | copied names hnames houtcome hcopied =>
        have hrows := snapshots_of_pairs outcome.runId hrules (mapM_eq_ok.mp hnames) 0
        refine ⟨by rw [houtcome], by rw [houtcome]; rfl, fun _ => ?_, runs.runRules, _,
          List.Sublist.refl _, ?_, hrows⟩
        · rw [hcopied, houtcome]
          exact ⟨_, List.mem_append_right _ (List.mem_singleton_self _), rfl, rfl, rfl⟩
        · rw [hcopied, houtcome]
          rfl

/-- The rules of a state all run: a capture reads each enabled rule. -/
def EveryEnabledRuns (contract : DefinitionContract Input Text) (tables : RuleTables Text) :
    Prop :=
  enabledCount tables ≤ maxEnabledRules ∧ CapturesEnabled contract tables

/-- **Every enabled rule runs**, in every state of a run from an empty rule set, exactly when no
step of the run switches on a rule although as many as may be are enabled. -/
theorem every_enabled_rule_runs (hlawful : contract.Lawful) (updatedAt : String)
    (commands : List (Surroundings × RuleCommand Input)) :
    (∀ before after, commands = before ++ after →
        EveryEnabledRuns contract (run (ruleStep contract) (.empty updatedAt) before)) ↔
      Along (ruleStep contract) (fun tables command => overfills tables command = false)
        (.empty updatedAt) commands := by
  have hinv : ∀ commands, Along (ruleStep contract)
      (fun tables command => overfills tables command = false) (.empty updatedAt) commands →
      CapInv contract (run (ruleStep contract) (.empty updatedAt) commands) := fun commands =>
    run_invariant_of_along (fun _ command h hfits => h.step hlawful command hfits)
      (.empty updatedAt) commands
  constructor
  · intro hruns
    -- by induction on the run: up to a step that overfills, the invariant holds
    induction commands using List.reverseRec with
    | nil => exact fun before command after heq => absurd heq (by simp)
    | append_singleton commands command ih =>
        have halong := ih fun before after heq =>
          hruns before (after ++ [command]) (by rw [heq, List.append_assoc])
        refine halong.concat ?_
        by_contra hover
        have hcount := (hinv commands halong).step_overfills (Bool.eq_true_of_not_eq_false hover)
        have hcap := (hruns (commands ++ [command]) [] (List.append_nil _).symm).1
        rw [run_append, run_cons, run_nil] at hcap
        exact absurd hcap (Nat.not_le_of_lt hcount)
  · rintro halong before after rfl
    have h := hinv before halong.of_append
    exact ⟨h.cap, h.captures⟩

/-! ### A run -/

/-- A contract in which a rule is told from others by the name of its definition. -/
def namedContract : DefinitionContract AutomationRuleDefinition AutomationRuleDefinition :=
  { sampleContract with normalizedName := id }

theorem namedContract_lawful : namedContract.Lawful :=
  ⟨sampleContract_lawful.read, sampleContract_lawful.digest⟩

/-- The rules `A`, `B` and so on. -/
def nthRule (n : ℕ) : String := String.singleton (Char.ofNat ('A'.toNat + n))

/-- Draft a rule that does nothing, as the `n`-th. -/
def draftNth (n : ℕ) : Surroundings × RuleCommand AutomationRuleDefinition :=
  (sampleSurroundings, .createDraft (nthRule n)
    { sampleDefinition with name := nthRule n, actions := [] } "user" (some n))

/-- Enable a rule that has just been drafted and tested. -/
def enableNth (n : ℕ) : Surroundings × RuleCommand AutomationRuleDefinition :=
  ({ sampleSurroundings with
      tests := [⟨"test", some (nthRule n), sampleDigest, 1, 1, false, "", "9999"⟩] },
    .enable (nthRule n) "user" (some 1))

/-- Two rules are enabled, and one of them is switched off and on. -/
def enabling : List (Surroundings × RuleCommand AutomationRuleDefinition) :=
  [draftNth 0, enableNth 0, draftNth 1, enableNth 1,
    (sampleSurroundings, .setEnabled (nthRule 0) false "user" (some 2)),
    (sampleSurroundings, .setEnabled (nthRule 0) true "user" (some 3))]

/-- When the message of the sample is accepted. -/
def sampleAcceptedAt : String := "2026-07-11T10:00:40.000Z"

/-- Two of two enabled rules run: a message that can be captured is, with both of them. -/
theorem every_enabled_rule_runs_sample :
    EveryEnabledRuns namedContract (run (ruleStep namedContract) (.empty "") enabling) ∧
      enabledCount (run (ruleStep namedContract) (.empty "") enabling) = 2 ∧
      Capturable (run (ruleStep namedContract) (.empty "") enabling) ["message"] "message"
        sampleAcceptedAt (.empty : RunTables AutomationRuleDefinition) ∧
      (captureLiveInbound namedContract (run (ruleStep namedContract) (.empty "") enabling)
        ["message"] "message" sampleAcceptedAt .empty).toOption.map
          (fun captured => (captured.1, captured.2.runRules.map fun row =>
            (row.runId, row.ordinal, row.ruleId, row.ruleVersion))) =
        some (⟨"automation:message", .pending, false, false⟩,
          [("automation:message", 0, nthRule 0, 1), ("automation:message", 1, nthRule 1, 1)]) := by
  have hstart : Along (ruleStep namedContract)
      (fun tables command => overfills tables command = false) (.empty "") [] :=
    fun before command after heq => absurd heq (by simp)
  have halong : Along (ruleStep namedContract)
      (fun tables command => overfills tables command = false) (.empty "") enabling := by
    refine (((((hstart.concat ?_).concat ?_).concat ?_).concat ?_).concat ?_).concat ?_ <;>
      decide +kernel
  have hcount : enabledCount (run (ruleStep namedContract) (.empty "") enabling) = 2 := by
    decide +kernel
  have hcaptured : Capturable (run (ruleStep namedContract) (.empty "") enabling) ["message"]
      "message" sampleAcceptedAt (.empty : RunTables AutomationRuleDefinition) :=
    ⟨by decide, List.mem_singleton_self _, fun _ hrun => absurd hrun List.not_mem_nil,
      by decide +kernel, fun hnone => absurd hnone (by decide +kernel)⟩
  exact ⟨(every_enabled_rule_runs namedContract_lawful "" enabling).mpr halong enabling []
    (List.append_nil _).symm, hcount, hcaptured, by decide +kernel⟩

/-- All rules that may be enabled are, one of them is switched off, another rule is enabled in
its place, and the first one is switched on again. -/
def overfilling : List (Surroundings × RuleCommand AutomationRuleDefinition) :=
  (List.range 50).flatMap (fun n => [draftNth n, enableNth n]) ++
    [(sampleSurroundings, .setEnabled (nthRule 0) false "user" (some 2)),
      draftNth 50, enableNth 50,
      (sampleSurroundings, .setEnabled (nthRule 0) true "user" (some 3))]

set_option maxRecDepth 20000 in
/-- **One rule too many is enabled.** -/
theorem enabled_rules_overfilled : ¬ ∀ before after, overfilling = before ++ after →
    EveryEnabledRuns namedContract (run (ruleStep namedContract) (.empty "") before) := by
  intro hruns
  have hcount : enabledCount (run (ruleStep namedContract) (.empty "") overfilling) = 51 := by
    decide +kernel
  have hcap := (hruns overfilling [] (List.append_nil _).symm).1
  rw [hcount] at hcap
  exact absurd hcap (by decide)

end MailPortal.Automation
