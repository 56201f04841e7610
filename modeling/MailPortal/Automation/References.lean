import MailPortal.Automation.Changes

/-!
# Target References

The references to labels and folders keep a target from being deleted while a live version
of a rule names it. They are written when a version is stored, and dropped when it is no
longer the active version or the draft of its rule.

Main result: `references_mirror`. In every state that the operations reach, the references
are those of the live versions of rules that are not archived, and `rulesUsingTarget` names
the rules whose live versions name the target.
-/

namespace MailPortal.Automation

open Failure Table

variable {Input Text : Type} {contract : DefinitionContract Input Text}
  {tables tables' : RuleTables Text}
variable {rules rules' : List RuleRow} {ruleId : String} {version : ℕ} {input : Input}
  {definition : AutomationRuleDefinition}
variable {rule : RuleRow} {stored : RuleTables Text}

/-- The definition of a stored version, when there is one and its text reads back. -/
def readVersion (contract : DefinitionContract Input Text) (tables : RuleTables Text)
    (ruleId : String) (version : ℕ) : Option AutomationRuleDefinition :=
  (versionRow tables ruleId version).bind fun row =>
    (contract.readDefinition row.definitionJson).toOption

/-- The version is the active version or the draft of a rule that is not archived. -/
def Live (rules : List RuleRow) (ruleId : String) (version : ℕ) : Prop :=
  ∃ rule ∈ rules, rule.id = ruleId ∧ rule.state ≠ .archived ∧
    (rule.activeVersion = some version ∨ rule.draftVersion = some version)

/-- A stored version names a target: a label, or a folder. -/
def Names (contract : DefinitionContract Input Text) (tables : RuleTables Text)
    (select : DefinitionTargets → List String) (ruleId : String) (version : ℕ)
    (target : String) : Prop :=
  ∃ definition, readVersion contract tables ruleId version = some definition ∧
    target ∈ select (definitionTargets definition)

/-- **The references are exactly those of live versions to what they name.** -/
def Mirrors (contract : DefinitionContract Input Text) (tables : RuleTables Text)
    (select : DefinitionTargets → List String) (refs : List TargetRef) : Prop :=
  ∀ ref, ref ∈ refs ↔ Live tables.rules ref.ruleId ref.version ∧
    Names contract tables select ref.ruleId ref.version ref.target

/-- The invariant of the rule tables. -/
structure RefInv (contract : DefinitionContract Input Text) (tables : RuleTables Text) :
    Prop where
  ids : (tables.rules.map RuleRow.id).Nodup
  /-- Live versions are stored, and read back. -/
  stored : ∀ rule ∈ tables.rules, ∀ version,
    rule.activeVersion = some version ∨ rule.draftVersion = some version →
      (readVersion contract tables rule.id version).isSome = true
  labels : Mirrors contract tables DefinitionTargets.labelIds tables.labelRefs
  folders : Mirrors contract tables DefinitionTargets.folderIds tables.folderRefs

/-! ### What a change does to live versions -/

theorem readVersion_congr (h : tables'.versions = tables.versions) (ruleId : String)
    (version : ℕ) : readVersion contract tables' ruleId version =
      readVersion contract tables ruleId version := by
  rw [readVersion, readVersion, versionRow, versionRow, h]

variable {current changed : RuleRow}

/-- The live versions after one rule has changed. -/
theorem RuleChanged.live (h : RuleChanged rules rules' current changed) (ruleId : String)
    (version : ℕ) :
    Live rules' ruleId version ↔ ruleId ≠ current.id ∧ Live rules ruleId version ∨
      ruleId = current.id ∧ changed.state ≠ .archived ∧
        (changed.activeVersion = some version ∨ changed.draftVersion = some version) := by
  constructor
  · rintro ⟨rule, hrule, rfl, hlive⟩
    rcases (h.rows rule).mp hrule with rfl | ⟨hmem, hne⟩
    · exact .inr ⟨h.id, hlive⟩
    · exact .inl ⟨hne, rule, hmem, rfl, hlive⟩
  · rintro (⟨hne, rule, hmem, rfl, hlive⟩ | ⟨rfl, hlive⟩)
    · exact ⟨rule, (h.rows rule).mpr (.inr ⟨hmem, hne⟩), rfl, hlive⟩
    · exact ⟨changed, (h.rows changed).mpr (.inl rfl), h.id, hlive⟩

/-- The live versions of the rule before it changed. -/
theorem RuleChanged.live_current (h : RuleChanged rules rules' current changed)
    (hids : (rules.map RuleRow.id).Nodup) (version : ℕ) :
    Live rules current.id version ↔ current.state ≠ .archived ∧
      (current.activeVersion = some version ∨ current.draftVersion = some version) := by
  constructor
  · rintro ⟨rule, hrule, hid, hlive⟩
    rw [eq_of_key_eq hids hrule h.mem hid] at hlive
    exact hlive
  · exact fun hlive => ⟨current, h.mem, rfl, hlive⟩

/-- What `removeInactiveReferences` keeps. -/
theorem RuleChanged.kept (h : RuleChanged rules tables'.rules current changed)
    (hids : (rules.map RuleRow.id).Nodup) (ref : TargetRef) :
    isInactive tables' current.id ref = false ↔ ref.ruleId = current.id →
      changed.activeVersion = some ref.version ∨ changed.draftVersion = some ref.version := by
  have hids' : (tables'.rules.map RuleRow.id).Nodup := h.ids ▸ hids
  have hchanged : changed ∈ tables'.rules := (h.rows changed).mpr (.inl rfl)
  have hlive : ((tables'.rules.filter (·.id = current.id)).flatMap
      RuleRow.liveVersions).contains ref.version = true ↔
      changed.activeVersion = some ref.version ∨ changed.draftVersion = some ref.version := by
    rw [List.contains_iff_mem, List.mem_flatMap]
    constructor
    · rintro ⟨rule, hrule, hversion⟩
      obtain ⟨hmem, hid⟩ := List.mem_filter.mp hrule
      have hsame : rule = changed :=
        eq_of_key_eq hids' hmem hchanged ((of_decide_eq_true hid).trans h.id.symm)
      rw [hsame, RuleRow.liveVersions, List.mem_append] at hversion
      simpa using hversion
    · intro hversion
      refine ⟨changed, List.mem_filter.mpr ⟨hchanged, by simpa using h.id⟩, ?_⟩
      rw [RuleRow.liveVersions, List.mem_append]
      simpa using hversion
  rw [isInactive, Bool.and_eq_false_iff, Bool.not_eq_false', hlive, decide_eq_false_iff_not]
  exact ⟨fun hor hid => hor.resolve_left (not_not_intro hid), fun himp =>
    or_iff_not_imp_left.mpr fun hid => himp (not_not.mp hid)⟩

/-- A version that is stored can be read, and no other one has changed. -/
theorem VersionStored.read (hlawful : contract.Lawful)
    (hparse : contract.parse input = .ok definition)
    (h : VersionStored contract tables tables' ruleId version definition) :
    (∀ ruleId' version', ¬ (ruleId' = ruleId ∧ version' = version) →
      readVersion contract tables' ruleId' version' =
        readVersion contract tables ruleId' version') ∧
    ∃ stored, readVersion contract tables' ruleId version = some stored ∧
      definitionTargets stored = definitionTargets definition := by
  obtain ⟨text, digested, actorId, now, htext, hversions⟩ := h.versions
  refine ⟨fun ruleId' version' hne => ?_, ?_⟩
  · have hother : ¬ (ruleId = ruleId' ∧ version = version') :=
      fun heq => hne ⟨heq.1.symm, heq.2.symm⟩
    rw [readVersion, readVersion, versionRow, versionRow, hversions, List.find?_append]
    simp [hother]
  · obtain ⟨stored, hread, hactions⟩ := hlawful.read input definition text hparse htext
    have hfresh : tables.versions.find? (fun v => v.ruleId = ruleId && v.version = version) =
      none :=
      h.fresh
    refine ⟨stored, ?_, ?_⟩
    · rw [readVersion, versionRow, hversions, List.find?_append, hfresh]
      simp [hread, Except.toOption]
    · rw [definitionTargets, definitionTargets, hactions]

theorem mem_targetRefs {targets : List String} {ref : TargetRef} :
    ref ∈ targetRefs ruleId version targets ↔
      ref.ruleId = ruleId ∧ ref.version = version ∧ ref.target ∈ targets := by
  rw [targetRefs, List.mem_map]
  constructor
  · rintro ⟨target, htarget, rfl⟩
    exact ⟨rfl, rfl, htarget⟩
  · rintro ⟨rfl, rfl, htarget⟩
    exact ⟨ref.target, htarget, rfl⟩

/-- What is named after a version is stored. -/
theorem VersionStored.names (hlawful : contract.Lawful)
    (hparse : contract.parse input = .ok definition)
    (h : VersionStored contract tables tables' ruleId version definition)
    (select : DefinitionTargets → List String) (ref : TargetRef) :
    Names contract tables' select ref.ruleId ref.version ref.target ↔
      Names contract tables select ref.ruleId ref.version ref.target ∨
        ref ∈ targetRefs ruleId version (select (definitionTargets definition)) := by
  obtain ⟨hother, stored, hread, htargets⟩ := h.read hlawful hparse
  have hold : ¬ Names contract tables select ruleId version ref.target := by
    rintro ⟨d, hd, -⟩
    rw [readVersion, h.fresh] at hd
    cases hd
  rw [mem_targetRefs]
  by_cases hsame : ref.ruleId = ruleId ∧ ref.version = version
  · rw [hsame.1, hsame.2, Names, hread]
    constructor
    · rintro ⟨d, hd, htarget⟩
      cases hd
      rw [htargets] at htarget
      exact .inr ⟨rfl, rfl, htarget⟩
    · rintro (hnames | ⟨-, -, htarget⟩)
      · exact absurd hnames hold
      · exact ⟨stored, rfl, htargets ▸ htarget⟩
  · rw [Names, Names, hother _ _ hsame]
    exact ⟨.inl, fun hor => hor.resolve_right fun hnew => hsame ⟨hnew.1, hnew.2.1⟩⟩

/-! ### The references after a change -/

variable {select : DefinitionTargets → List String} {refs : List TargetRef}

/-- A rule with its first draft is there. -/
theorem Mirrors.created (hlawful : contract.Lawful) (h : Mirrors contract tables select refs)
    (hparse : contract.parse input = .ok definition)
    (hstored : VersionStored contract tables tables' rule.id 1 definition)
    (hnew : ∀ r ∈ tables.rules, r.id ≠ rule.id)
    (hrule : rule.state = .draft ∧ rule.activeVersion = none ∧ rule.draftVersion = some 1)
    (hrules : tables'.rules = tables.rules ++ [rule]) :
    Mirrors contract tables' select
      (refs ++ targetRefs rule.id 1 (select (definitionTargets definition))) := by
  obtain ⟨hstate, hactive, hdraft⟩ := hrule
  have hlive : ∀ ruleId version, Live tables'.rules ruleId version ↔
      Live tables.rules ruleId version ∨ ruleId = rule.id ∧ version = 1 := by
    intro ruleId version
    simp only [Live, hrules, List.mem_append, List.mem_singleton, or_and_right, exists_or,
      exists_eq_left, hstate, hactive, hdraft]
    refine or_congr_right ?_
    simp [eq_comm]
  intro ref
  rw [List.mem_append, h ref, hlive, hstored.names hlawful hparse]
  have hnone : ∀ version, ¬ Live tables.rules rule.id version := by
    rintro version ⟨r, hr, hid, -⟩
    exact hnew r hr hid
  have hfresh : ∀ target, ¬ Names contract tables select rule.id 1 target := by
    rintro target ⟨d, hd, -⟩
    rw [readVersion, hstored.fresh] at hd
    cases hd
  constructor
  · rintro (⟨hold, hnames⟩ | href)
    · exact ⟨.inl hold, .inl hnames⟩
    · obtain ⟨hid, hversion, -⟩ := mem_targetRefs.mp href
      exact ⟨.inr ⟨hid, hversion⟩, .inr href⟩
  · rintro ⟨hold | ⟨hid, hversion⟩, hnames | href⟩
    · exact .inl ⟨hold, hnames⟩
    · rw [(mem_targetRefs.mp href).1] at hold
      exact absurd hold (hnone _)
    · rw [hid, hversion] at hnames
      exact absurd hnames (hfresh _)
    · exact .inr href

/-- A rule has a new draft. -/
theorem Mirrors.drafted (hlawful : contract.Lawful) (hids : (tables.rules.map RuleRow.id).Nodup)
    (h : Mirrors contract tables select refs)
    (hparse : contract.parse input = .ok definition)
    (hstored : VersionStored contract tables stored current.id version definition)
    (hchanged : RuleChanged tables.rules tables'.rules current changed)
    (hcurrent : current.state ≠ .archived) (hstate : changed.state ≠ .archived)
    (hactive : changed.activeVersion = current.activeVersion)
    (hdraft : changed.draftVersion = some version)
    (hversions : tables'.versions = stored.versions) :
    Mirrors contract tables' select (deleteWhere (isInactive tables' current.id)
      (refs ++ targetRefs current.id version (select (definitionTargets definition)))) := by
  have hnames : ∀ ref : TargetRef, Names contract tables' select ref.ruleId ref.version ref.target ↔
      Names contract stored select ref.ruleId ref.version ref.target := by
    intro ref
    rw [Names, Names, readVersion_congr hversions]
  intro ref
  rw [mem_deleteWhere, hchanged.kept hids, List.mem_append, h ref, hnames,
    hstored.names hlawful hparse, hchanged.live, hactive, hdraft]
  have hfresh : ∀ target, ¬ Names contract tables select current.id version target := by
    rintro target ⟨d, hd, -⟩
    rw [readVersion, hstored.fresh] at hd
    cases hd
  constructor
  · rintro ⟨⟨hold, hnamed⟩ | href, hkept⟩
    · by_cases hid : ref.ruleId = current.id
      · exact ⟨.inr ⟨hid, hstate, hkept hid⟩, .inl hnamed⟩
      · exact ⟨.inl ⟨hid, hold⟩, .inl hnamed⟩
    · have hid := (mem_targetRefs.mp href).1
      exact ⟨.inr ⟨hid, hstate, hkept hid⟩, .inr href⟩
  · rintro ⟨⟨hid, hold⟩ | ⟨hid, -, hversion⟩, hnamed | href⟩
    · exact ⟨.inl ⟨hold, hnamed⟩, fun heq => absurd heq hid⟩
    · exact absurd (mem_targetRefs.mp href).1 hid
    · refine ⟨.inl ⟨?_, hnamed⟩, fun _ => hversion⟩
      rw [hid] at hnamed ⊢
      refine (hchanged.live_current hids _).mpr ⟨hcurrent, hversion.imp_right fun heq => ?_⟩
      rw [← Option.some.inj heq] at hnamed
      exact absurd hnamed (hfresh _)
    · exact ⟨.inr href, fun _ => hversion⟩

/-- A rule changes, and the references that are not live any more are dropped. -/
theorem Mirrors.dropped (hids : (tables.rules.map RuleRow.id).Nodup)
    (h : Mirrors contract tables select refs)
    (hchanged : RuleChanged tables.rules tables'.rules current changed)
    (hcurrent : current.state ≠ .archived) (hstate : changed.state ≠ .archived)
    (hsome : ∀ version,
      changed.activeVersion = some version ∨ changed.draftVersion = some version →
      current.activeVersion = some version ∨ current.draftVersion = some version)
    (hversions : tables'.versions = tables.versions) :
    Mirrors contract tables' select (deleteWhere (isInactive tables' current.id) refs) := by
  intro ref
  rw [mem_deleteWhere, hchanged.kept hids, h ref, hchanged.live, Names, Names,
    readVersion_congr hversions]
  constructor
  · rintro ⟨⟨hold, hnamed⟩, hkept⟩
    by_cases hid : ref.ruleId = current.id
    · exact ⟨.inr ⟨hid, hstate, hkept hid⟩, hnamed⟩
    · exact ⟨.inl ⟨hid, hold⟩, hnamed⟩
  · rintro ⟨⟨hid, hold⟩ | ⟨hid, -, hversion⟩, hnamed⟩
    · exact ⟨⟨hold, hnamed⟩, fun heq => absurd heq hid⟩
    · refine ⟨⟨?_, hnamed⟩, fun _ => hversion⟩
      rw [hid]
      exact (hchanged.live_current hids _).mpr ⟨hcurrent, hsome _ hversion⟩

/-- The live versions stay as they are, and so do the references. -/
theorem Mirrors.of_live (h : Mirrors contract tables select refs)
    (hlive : ∀ ruleId version, Live tables'.rules ruleId version ↔ Live tables.rules ruleId version)
    (hversions : tables'.versions = tables.versions) : Mirrors contract tables' select refs := by
  intro ref
  rw [h ref, hlive, Names, Names, readVersion_congr hversions]

/-- A rule is archived, without references. -/
theorem Mirrors.archived (h : Mirrors contract tables select refs)
    (hchanged : RuleChanged tables.rules tables'.rules current changed)
    (hstate : changed.state = .archived) (hversions : tables'.versions = tables.versions) :
    Mirrors contract tables' select (deleteWhere (·.ruleId = current.id) refs) := by
  intro ref
  rw [mem_deleteWhere, h ref, hchanged.live, Names, Names, readVersion_congr hversions,
    decide_eq_false_iff_not]
  constructor
  · rintro ⟨⟨hold, hnamed⟩, hid⟩
    exact ⟨.inl ⟨hid, hold⟩, hnamed⟩
  · rintro ⟨⟨hid, hold⟩ | ⟨-, hlive, -⟩, hnamed⟩
    · exact ⟨⟨hold, hnamed⟩, hid⟩
    · exact absurd hstate hlive

/-- The view of a rule that decides what is live. -/
theorem live_of_view (h : rules'.map RuleRow.view = rules.map RuleRow.view) (ruleId : String)
    (version : ℕ) : Live rules' ruleId version ↔ Live rules ruleId version := by
  have hview : ∀ rules : List RuleRow, Live rules ruleId version ↔
      ∃ view ∈ rules.map RuleRow.view, view.1 = ruleId ∧ view.2.1 ≠ .archived ∧
        (view.2.2.1 = some version ∨ view.2.2.2 = some version) := by
    intro rules
    constructor
    · rintro ⟨rule, hrule, hlive⟩
      exact ⟨_, List.mem_map.mpr ⟨rule, hrule, rfl⟩, hlive⟩
    · rintro ⟨view, hview, hlive⟩
      obtain ⟨rule, hrule, rfl⟩ := List.mem_map.mp hview
      exact ⟨rule, hrule, hlive⟩
  rw [hview, hview, h]

/-! ### The invariant -/

theorem RefInv.empty (updatedAt : String) :
    RefInv contract (RuleTables.empty updatedAt : RuleTables Text) where
  ids := List.nodup_nil
  stored := nofun
  labels _ := ⟨fun href => absurd href List.not_mem_nil,
    fun ⟨⟨_, hrule, _⟩, _⟩ => absurd hrule List.not_mem_nil⟩
  folders _ := ⟨fun href => absurd href List.not_mem_nil,
    fun ⟨⟨_, hrule, _⟩, _⟩ => absurd hrule List.not_mem_nil⟩

/-- The live versions stay stored when one rule changes and no version is taken away. -/
theorem RefInv.stored_changed (h : RefInv contract tables)
    (hchanged : RuleChanged tables.rules tables'.rules current changed)
    (hread : ∀ ruleId version, (readVersion contract tables ruleId version).isSome = true →
      (readVersion contract tables' ruleId version).isSome = true)
    (hversions : ∀ version,
      changed.activeVersion = some version ∨ changed.draftVersion = some version →
        (readVersion contract tables' current.id version).isSome = true) :
    ∀ rule ∈ tables'.rules, ∀ version,
      rule.activeVersion = some version ∨ rule.draftVersion = some version →
        (readVersion contract tables' rule.id version).isSome = true := by
  intro rule hrule version hversion
  rcases (hchanged.rows rule).mp hrule with rfl | ⟨hmem, -⟩
  · rw [hchanged.id]
    exact hversions version hversion
  · exact hread _ _ (h.stored rule hmem version hversion)

/-! ### What keeps the invariant -/

section Change

variable {current changed : RuleRow}

section

variable (hlawful : contract.Lawful) (h : RefInv contract tables)
  (hparse : contract.parse input = .ok definition)
include hlawful h hparse

/-- A rule is created with its first draft. -/
theorem RefInv.created (hstored : VersionStored contract tables tables' rule.id 1 definition)
    (hnew : ∀ r ∈ tables.rules, r.id ≠ rule.id)
    (hrule : rule.state = .draft ∧ rule.activeVersion = none ∧ rule.draftVersion = some 1)
    (hrules : tables'.rules = tables.rules ++ [rule])
    (hids' : (tables'.rules.map RuleRow.id).Nodup) :
    RefInv contract tables' := by
  obtain ⟨hother, d, hd, -⟩ := hstored.read hlawful hparse
  refine ⟨hids', fun r hr version hversion => ?_, ?_, ?_⟩
  · rw [hrules, List.mem_append, List.mem_singleton] at hr
    rcases hr with hr | rfl
    · rw [hother _ _ fun heq => hnew r hr heq.1]
      exact h.stored r hr version hversion
    · rw [hrule.2.1, hrule.2.2] at hversion
      obtain rfl : 1 = version := by simpa using hversion
      rw [hd]
      rfl
  · rw [hstored.labelRefs]
    exact h.labels.created hlawful hparse hstored hnew hrule hrules
  · rw [hstored.folderRefs]
    exact h.folders.created hlawful hparse hstored hnew hrule hrules

/-- A rule has a new draft. -/
theorem RefInv.drafted
    (hstored : VersionStored contract tables stored current.id version definition)
    (hchanged : RuleChanged tables.rules tables'.rules current changed)
    (hstate : current.state ≠ .archived ∧ (changed.state = current.state ∨ changed.state = .draft))
    (hversions : changed.activeVersion = current.activeVersion ∧
      changed.draftVersion = some version) (hrest : tables'.versions = stored.versions ∧
      tables'.labelRefs = deleteWhere (isInactive tables' current.id) stored.labelRefs ∧
      tables'.folderRefs = deleteWhere (isInactive tables' current.id) stored.folderRefs) :
    RefInv contract tables' := by
  have hids := h.ids
  have hids' := hchanged.ids ▸ hids
  obtain ⟨hother, d, hd, -⟩ := hstored.read hlawful hparse
  obtain ⟨hcurrent, hstate⟩ := hstate
  obtain ⟨hactive, hdraft⟩ := hversions
  obtain ⟨hvers, hlabels, hfolders⟩ := hrest
  have hlive : changed.state ≠ .archived := by
    rcases hstate with hstate | hstate <;> rw [hstate]
    · exact hcurrent
    · decide
  have hnew : (readVersion contract tables' current.id version).isSome = true := by
    rw [readVersion_congr hvers, hd]
    rfl
  have hread : ∀ ruleId version', (readVersion contract tables ruleId version').isSome = true →
      (readVersion contract tables' ruleId version').isSome = true := by
    intro ruleId version' hsome
    by_cases hsame : ruleId = current.id ∧ version' = version
    · rw [hsame.1, hsame.2]
      exact hnew
    · rwa [readVersion_congr hvers, hother _ _ hsame]
  refine ⟨hids', h.stored_changed hchanged hread fun version' hversion => ?_, ?_, ?_⟩
  · rw [hactive, hdraft] at hversion
    rcases hversion with hversion | hversion
    · exact hread _ _ (h.stored current hchanged.mem version' (.inl hversion))
    · rw [← Option.some.inj hversion]
      exact hnew
  · rw [hlabels, hstored.labelRefs]
    exact h.labels.drafted hlawful hids hparse hstored hchanged hcurrent hlive hactive hdraft
      hvers
  · rw [hfolders, hstored.folderRefs]
    exact h.folders.drafted hlawful hids hparse hstored hchanged hcurrent hlive hactive hdraft
      hvers

end

section

variable (h : RefInv contract tables)
  (hchanged : RuleChanged tables.rules tables'.rules current changed)
include h hchanged

/-- The draft of a rule becomes its active version. -/
theorem RefInv.activated (hstate : current.state ≠ .archived ∧ changed.state = .enabled)
    (hversions : changed.activeVersion = current.draftVersion ∧ changed.draftVersion = none)
    (hrest : tables'.versions = tables.versions ∧
      tables'.labelRefs = deleteWhere (isInactive tables' current.id) tables.labelRefs ∧
      tables'.folderRefs = deleteWhere (isInactive tables' current.id) tables.folderRefs) :
    RefInv contract tables' := by
  have hids := h.ids
  have hids' := hchanged.ids ▸ hids
  obtain ⟨hcurrent, hstate⟩ := hstate
  obtain ⟨hactive, hdraft⟩ := hversions
  obtain ⟨hvers, hlabels, hfolders⟩ := hrest
  have hlive : changed.state ≠ .archived := by
    rw [hstate]
    decide
  have hsome : ∀ version,
      changed.activeVersion = some version ∨ changed.draftVersion = some version →
      current.activeVersion = some version ∨ current.draftVersion = some version := by
    intro version hversion
    rw [hactive, hdraft] at hversion
    exact .inr (hversion.resolve_right (by simp))
  refine ⟨hids', h.stored_changed hchanged (fun ruleId version => ?_)
    fun version hversion => ?_, ?_, ?_⟩
  · rw [readVersion_congr hvers]
    exact id
  · rw [readVersion_congr hvers]
    exact h.stored current hchanged.mem version (hsome version hversion)
  · rw [hlabels]
    exact h.labels.dropped hids hchanged hcurrent hlive hsome hvers
  · rw [hfolders]
    exact h.folders.dropped hids hchanged hcurrent hlive hsome hvers

/-- A rule is switched on or off. -/
theorem RefInv.switched (hcurrent : current.state ≠ .archived)
    (hstate : changed.state = .enabled ∨ changed.state = .disabled)
    (hversions : changed.activeVersion = current.activeVersion ∧
      changed.draftVersion = current.draftVersion)
    (hrest : tables'.versions = tables.versions ∧ tables'.labelRefs = tables.labelRefs ∧
      tables'.folderRefs = tables.folderRefs) : RefInv contract tables' := by
  have hids := h.ids
  have hids' := hchanged.ids ▸ hids
  obtain ⟨hactive, hdraft⟩ := hversions
  obtain ⟨hvers, hlabels, hfolders⟩ := hrest
  have hlive : changed.state ≠ .archived := by
    rcases hstate with hstate | hstate <;> rw [hstate] <;> decide
  have hsame : ∀ ruleId version,
      Live tables'.rules ruleId version ↔ Live tables.rules ruleId version := by
    intro ruleId version
    rw [hchanged.live, hactive, hdraft]
    by_cases hid : ruleId = current.id
    · rw [hid, hchanged.live_current hids]
      simp [hcurrent, hlive]
    · simp [hid]
  refine ⟨hids', h.stored_changed hchanged (fun ruleId version => ?_)
    fun version hversion => ?_, ?_, ?_⟩
  · rw [readVersion_congr hvers]
    exact id
  · rw [hactive, hdraft] at hversion
    rw [readVersion_congr hvers]
    exact h.stored current hchanged.mem version hversion
  · rw [hlabels]
    exact h.labels.of_live hsame hvers
  · rw [hfolders]
    exact h.folders.of_live hsame hvers

/-- A rule is archived. -/
theorem RefInv.archived (hstate : changed.state = .archived)
    (hversions : changed.activeVersion = current.activeVersion ∧
      changed.draftVersion = current.draftVersion) (hrest : tables'.versions = tables.versions ∧
      tables'.labelRefs = deleteWhere (·.ruleId = current.id) tables.labelRefs ∧
      tables'.folderRefs = deleteWhere (·.ruleId = current.id) tables.folderRefs) :
    RefInv contract tables' := by
  have hids' := hchanged.ids ▸ h.ids
  obtain ⟨hactive, hdraft⟩ := hversions
  obtain ⟨hvers, hlabels, hfolders⟩ := hrest
  refine ⟨hids', h.stored_changed hchanged (fun ruleId version => ?_)
    fun version hversion => ?_, ?_, ?_⟩
  · rw [readVersion_congr hvers]
    exact id
  · rw [hactive, hdraft] at hversion
    rw [readVersion_congr hvers]
    exact h.stored current hchanged.mem version hversion
  · rw [hlabels]
    exact h.labels.archived hchanged hstate hvers
  · rw [hfolders]
    exact h.folders.archived hchanged hstate hvers

end

end Change

/-- The rules are ordered anew. -/
theorem RefInv.reordered (h : RefInv contract tables)
    (hrules : tables'.rules.map RuleRow.view = tables.rules.map RuleRow.view)
    (hrest : tables'.versions = tables.versions ∧ tables'.labelRefs = tables.labelRefs ∧
      tables'.folderRefs = tables.folderRefs)
    (hids' : (tables'.rules.map RuleRow.id).Nodup) : RefInv contract tables' := by
  obtain ⟨hvers, hlabels, hfolders⟩ := hrest
  refine ⟨hids', fun rule hrule version hversion => ?_, ?_, ?_⟩
  · have hview : rule.view ∈ tables'.rules.map RuleRow.view := List.mem_map.mpr ⟨rule, hrule, rfl⟩
    rw [hrules] at hview
    obtain ⟨old, hold, heq⟩ := List.mem_map.mp hview
    simp only [RuleRow.view, Prod.mk.injEq] at heq
    rw [readVersion_congr hvers, ← heq.1]
    refine h.stored old hold version ?_
    rw [heq.2.2.1, heq.2.2.2]
    exact hversion
  · rw [hlabels]
    exact h.labels.of_live (live_of_view hrules) hvers
  · rw [hfolders]
    exact h.folders.of_live (live_of_view hrules) hvers

/-- **The invariant is kept by every change.** -/
theorem RefInv.change (hlawful : contract.Lawful) (h : RefInv contract tables)
    {switches : RuleRow → Bool} (hchange : RuleChange contract switches tables tables') :
    RefInv contract tables' := by
  have hids' := hchange.ids h.ids
  cases hchange with
  | same hsame => exact hsame ▸ h
  | created input definition rule hparse hstored hnew hrule hrules =>
      exact h.created hlawful hparse hstored hnew hrule hrules hids'
  | drafted input definition stored current changed version hparse hstored hchanged hstate
      hversions hrest =>
      exact h.drafted hlawful hparse hstored hchanged hstate hversions hrest
  | activated current changed hchanged hstate hversions hcap hrest =>
      exact h.activated hchanged hstate hversions.2 hrest
  | switched current changed hchanged hstate hversions hrest =>
      have hswitched := hstate.2.2.imp_left fun hon => hon.1
      exact h.switched hchanged hstate.1 hswitched hversions hrest
  | archived current changed hchanged hstate hversions hrest =>
      exact h.archived hchanged hstate hversions hrest
  | reordered hrules hrest => exact h.reordered hrules hrest hids'

/-- The invariant holds in every state that the operations reach. -/
theorem RefInv.run (hlawful : contract.Lawful) (updatedAt : String)
    (commands : List (Surroundings × RuleCommand Input)) :
    RefInv contract (Runs.run (ruleStep contract) (.empty updatedAt) commands) :=
  Runs.run_invariant (fun _ command h => h.change hlawful (ruleStep_change h.ids command))
    (.empty updatedAt) commands

/-! ### Targets in use -/

/-- A rule that is not archived, and the active version or the draft of which names a target. -/
def usesTarget (contract : DefinitionContract Input Text) (tables : RuleTables Text)
    (select : DefinitionTargets → List String) (target : String) (rule : RuleRow) : Bool :=
  rule.state ≠ .archived && rule.liveVersions.any fun version =>
    ((readVersion contract tables rule.id version).map fun definition =>
      (select (definitionTargets definition)).contains target).getD false

/-- The rules with a reference to a target are those that use it. -/
theorem Mirrors.rulesReferring (hids : (tables.rules.map RuleRow.id).Nodup)
    (h : Mirrors contract tables select refs) (target : String) :
    rulesReferring tables refs target =
      (tables.rules.filter (usesTarget contract tables select target)).insertionSort
        RuleRow.before := by
  rw [Automation.rulesReferring]
  congr 1
  refine List.filter_congr fun rule hrule => ?_
  rw [usesTarget, Bool.eq_iff_iff, Bool.and_eq_true, Bool.and_eq_true]
  refine and_congr_right fun hstate => ?_
  have hstate : rule.state ≠ .archived := by simpa using hstate
  rw [List.any_eq_true, List.any_eq_true]
  constructor
  · rintro ⟨ref, href, hmatch⟩
    simp only [Bool.and_eq_true, decide_eq_true_eq] at hmatch
    obtain ⟨⟨owner, howner, hid, -, hversion⟩, definition, hread, htarget⟩ := (h ref).mp href
    obtain rfl := eq_of_key_eq hids howner hrule (hid.trans hmatch.1)
    refine ⟨ref.version, ?_, ?_⟩
    · rw [RuleRow.liveVersions, List.mem_append]
      simpa using hversion
    · rw [← hmatch.1, hread, ← hmatch.2]
      simpa using htarget
  · rintro ⟨version, hversion, hnamed⟩
    rw [RuleRow.liveVersions, List.mem_append] at hversion
    cases hread : readVersion contract tables rule.id version with
    | none =>
        rw [hread] at hnamed
        cases hnamed
    | some definition =>
        rw [hread] at hnamed
        refine ⟨⟨rule.id, version, target⟩, (h _).mpr ⟨?_, definition, hread, ?_⟩, by simp⟩
        · exact ⟨rule, hrule, rfl, hstate, by simpa using hversion⟩
        · simpa using hnamed

/-- **The references mirror the live versions** in every state that the operations reach, and
`rulesUsingTarget` names the first twenty of the rules that use the target, in their order. -/
theorem references_mirror (hlawful : contract.Lawful) (updatedAt : String)
    (commands : List (Surroundings × RuleCommand Input)) :
    let tables := Runs.run (ruleStep contract) (RuleTables.empty updatedAt) commands
    Mirrors contract tables DefinitionTargets.labelIds tables.labelRefs ∧
      Mirrors contract tables DefinitionTargets.folderIds tables.folderRefs ∧
      (∀ rule ∈ tables.rules, rule.state = .archived →
        ∀ ref ∈ tables.labelRefs ++ tables.folderRefs, ref.ruleId ≠ rule.id) ∧
      (∀ labelId folderId, labelId ≠ "" →
        rulesUsingTarget tables ⟨some labelId, folderId⟩ =
          .ok ((((tables.rules.filter
            (usesTarget contract tables DefinitionTargets.labelIds labelId)).insertionSort
              RuleRow.before).take targetRuleLimit).map fun r => (r.id, r.name))) ∧
      ∀ folderId, folderId ≠ "" →
        rulesUsingTarget tables ⟨none, some folderId⟩ =
          .ok ((((tables.rules.filter
            (usesTarget contract tables DefinitionTargets.folderIds folderId)).insertionSort
              RuleRow.before).take targetRuleLimit).map fun r => (r.id, r.name)) := by
  intro tables
  have h : RefInv contract tables := RefInv.run hlawful updatedAt commands
  refine ⟨h.labels, h.folders, fun rule hrule harchived ref href hid => ?_,
    fun labelId folderId hne => ?_, fun folderId hne => ?_⟩
  · have hlive : Live tables.rules ref.ruleId ref.version := by
      rcases List.mem_append.mp href with href | href
      · exact ((h.labels ref).mp href).1
      · exact ((h.folders ref).mp href).1
    obtain ⟨owner, howner, hsame, hstate, -⟩ := hlive
    rw [eq_of_key_eq h.ids howner hrule (hsame.trans hid)] at hstate
    exact hstate harchived
  · rw [← h.labels.rulesReferring h.ids]
    simp [rulesUsingTarget, truthy, hne, require, ok_bind]
  · rw [← h.folders.rulesReferring h.ids]
    simp [rulesUsingTarget, truthy, hne, require, ok_bind]

/-- The digest of `sampleDefinition`. -/
def sampleDigest : String := "035981b43191deb870c34efe7530ad2feab30286e95289d385a3207e250ee1e9"

/-- A contract in which every definition is valid and is its own text. -/
def sampleContract : DefinitionContract AutomationRuleDefinition AutomationRuleDefinition where
  parse := .ok
  toInput := id
  stringify := id
  parseJson := .ok
  digest _ := sampleDigest
  normalizedName _ := "file"

theorem sampleContract_lawful : sampleContract.Lawful where
  read _ _ _ hparse htext := by
    cases hparse
    cases htext
    exact ⟨_, rfl, rfl⟩
  digest _ := show DefinitionContract.isFingerprint sampleDigest = true by decide

/-- Every message gets one label. -/
def sampleDefinition : AutomationRuleDefinition where
  name := "File"
  matchMode := .all
  conditions := [.everyIncoming]
  actions := [.applyLabels ["l1"]]
  stopProcessing := false

def sampleSurroundings : Surroundings := ⟨0, ["l1"], [], []⟩

/-- One draft, and the label that it names. -/
theorem references_mirror_sample :
    rulesUsingTarget (Runs.run (ruleStep sampleContract) (.empty "")
      [(sampleSurroundings, .createDraft "rule_1" sampleDefinition "user" (some 0))])
      ⟨some "l1", none⟩ = .ok [("rule_1", "File")] := by
  have h := (references_mirror sampleContract_lawful "" [(sampleSurroundings,
    .createDraft "rule_1" sampleDefinition "user" (some 0))]).2.2.2.1 "l1" none (by decide)
  rw [h]
  decide +kernel

end MailPortal.Automation
