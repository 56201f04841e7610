import MailPortal.Automation.Leases
import MailPortal.Automation.References

/-!
# Actions are Applied at Most Once

Workers capture runs, claim them, and finalize or fail the claims they hold, however old these
are, in any order and at any times. A world records the tables, the claims that were handed out,
and a log of captures and of committed applications of actions.

Main result: `applied_at_most_once`. The actions of a run are applied at most once, attempts are
bounded, final runs stay as they are until they are pruned, no run is stranded, and references
belong to runs that are not final.
-/

namespace MailPortal.Automation

open Failure Table Runs

variable {Text Input : Type} {contract : DefinitionContract Input Text} {tokens : ℕ → String}

/-! ### The world -/

/-- What the log records of a run. -/
inductive RunEvent
  | captured (runId : String)
  | applied (runId : String)
  deriving DecidableEq

/-- The tables, how many tokens were created, the claims that workers hold, and the log, the
latest event first. -/
structure RunWorld (Text : Type) where
  tables : RunTables Text
  drawn : ℕ
  issued : List AutomationRunClaim
  log : List RunEvent

def RunWorld.empty {Text : Type} : RunWorld Text := ⟨.empty, 0, [], []⟩

/-- What a worker may do. -/
inductive RunCall (Text : Type)
  | capture (rules : RuleTables Text) (emails : List String) (messageId acceptedAt : String)
  | claim (timestampMs : ℤ)
  | finalize (claim : AutomationRunClaim) (timestampMs : ℤ) (plan : AutomationActionPlan)
      (applyActions : Except AutomationError Unit)
  | fail (claim : AutomationRunClaim) (timestampMs : ℤ) (category : String) (transient : Bool)

/-- A worker finalizes or fails only a claim that it was given. -/
def RunCall.Held (world : RunWorld Text) : RunCall Text → Prop
  | .capture .. => True
  | .claim _ => True
  | .finalize held .. => held ∈ world.issued
  | .fail held .. => held ∈ world.issued

/-- One call; an error rolls back. Each `claimNextRun` has its own tokens to draw from, as many
as its loop can need. -/
def RunWorld.call (contract : DefinitionContract Input Text) (tokens : ℕ → String)
    (world : RunWorld Text) : RunCall Text → RunWorld Text
  | .capture rules emails messageId acceptedAt =>
      match captureLiveInbound contract rules emails messageId acceptedAt world.tables with
      | .ok (outcome, tables) =>
          { world with
            tables := tables
            log := if outcome.replayed then world.log else .captured outcome.runId :: world.log }
      | .error _ => world
  | .claim timestampMs =>
      match claimNextRun contract tokens world.drawn timestampMs world.tables with
      | .ok (claim, tables) =>
          { world with
            tables := tables
            drawn := world.drawn + maxEnabledRules
            issued := claim.toList ++ world.issued }
      | .error _ => { world with drawn := world.drawn + maxEnabledRules }
  | .finalize claim timestampMs plan applyActions =>
      match finalizeClaim claim timestampMs plan applyActions world.tables with
      | .ok (applied, tables) =>
          { world with
            tables := tables
            log := if applied then .applied claim.id :: world.log else world.log }
      | .error _ => world
  | .fail claim timestampMs category transient =>
      match failClaim claim timestampMs category transient world.tables with
      | .ok (_, tables) => { world with tables := tables }
      | .error _ => world

/-! ### The log -/

/-- Since a run was captured last, its actions have not been applied. -/
def Unapplied (runId : String) (log : List RunEvent) : Prop :=
  ∀ later earlier, log = later ++ .applied runId :: earlier → .captured runId ∈ later

/-- **Between two applications of the actions of a run it was captured anew.** -/
def AppliedOnce (log : List RunEvent) : Prop :=
  ∀ runId later earlier, log = later ++ .applied runId :: earlier → Unapplied runId earlier

theorem Unapplied.captured (runId : String) (log : List RunEvent) :
    Unapplied runId (.captured runId :: log) := by
  intro later earlier heq
  cases later with
  | nil => cases heq
  | cons event later =>
      cases heq
      exact List.mem_cons_self

theorem Unapplied.cons {runId : String} {log : List RunEvent} (h : Unapplied runId log)
    {event : RunEvent} (hne : event ≠ .applied runId) : Unapplied runId (event :: log) := by
  intro later earlier heq
  cases later with
  | nil =>
      cases heq
      exact absurd rfl hne
  | cons first later =>
      cases heq
      exact List.mem_cons_of_mem _ (h later earlier rfl)

theorem AppliedOnce.cons {log : List RunEvent} (h : AppliedOnce log) {event : RunEvent}
    (hevent : ∀ runId, event = .applied runId → Unapplied runId log) :
    AppliedOnce (event :: log) := by
  intro runId later earlier heq
  cases later with
  | nil =>
      cases heq
      exact hevent runId rfl
  | cons first later =>
      cases heq
      exact h runId later earlier rfl

/-! ### The invariant -/

/-- The invariant of the world. -/
structure RunWorld.Inv (tokens : ℕ → String) (world : RunWorld Text) : Prop where
  tables : RunInv tokens world.drawn world.issued world.tables
  unapplied : ∀ run ∈ world.tables.runs, run.state.isFinal = false → Unapplied run.id world.log
  once : AppliedOnce world.log

theorem RunWorld.Inv.empty : (RunWorld.empty : RunWorld Text).Inv tokens where
  tables := ⟨List.nodup_nil, fun _ h => absurd h List.not_mem_nil,
    fun _ h => absurd h List.not_mem_nil, fun _ h => absurd h List.not_mem_nil⟩
  unapplied _ h := absurd h List.not_mem_nil
  once _ later _ heq := absurd heq (by simp [RunWorld.empty])

/-- A run that is not final was not final before. -/
theorem KeepsFinal.of_open {tables tables' : RunTables Text} (h : KeepsFinal tables tables')
    (hids : (tables'.runs.map RunRow.id).Nodup) {run' : RunRow} (hrun' : run' ∈ tables'.runs)
    (hopen : run'.state.isFinal = false) :
    ∃ run ∈ tables.runs, run.id = run'.id ∧ run.state.isFinal = false := by
  obtain ⟨run, hrun, hid⟩ := h.ids run' hrun'
  refine ⟨run, hrun, hid, Bool.eq_false_iff.mpr fun hfinal => ?_⟩
  rcases h.final run hrun hfinal with hkept | hgone
  · rw [eq_of_key_eq hids hkept hrun' hid, hopen] at hfinal
    cases hfinal
  · exact hgone run' hrun' hid.symm

section

variable {world : RunWorld Text} (h : world.Inv tokens)
include h

/-- A step that logs nothing. -/
theorem RunWorld.Inv.quiet {world' : RunWorld Text} (hlog : world'.log = world.log)
    (htables : RunInv tokens world'.drawn world'.issued world'.tables)
    (hkeeps : KeepsFinal world.tables world'.tables) : world'.Inv tokens where
  tables := htables
  unapplied run hrun hopen := by
    obtain ⟨old, hold, hid, hopen'⟩ := hkeeps.of_open htables.ids hrun hopen
    rw [hlog, ← hid]
    exact h.unapplied old hold hopen'
  once := hlog ▸ h.once

/-- A run is captured anew. -/
theorem RunWorld.Inv.captured {rules : RuleTables Text} {messageId acceptedAt : String}
    {outcome : CaptureOutcome} {tables : RunTables Text}
    (hnew : ∀ run ∈ world.tables.runs, run.id ≠ "automation:" ++ messageId)
    (hcaptured : Captured contract rules acceptedAt
      (reservedRun messageId acceptedAt rules.state.rulesetGeneration) world.tables outcome
      tables) :
    RunWorld.Inv tokens { world with
      tables := tables
      log := if outcome.replayed then world.log else .captured outcome.runId :: world.log } ∧
      ∀ run ∈ world.tables.runs, run.state.isFinal = true →
        run ∈ tables.runs ∨ ∀ run' ∈ tables.runs, run'.id ≠ run.id := by
  obtain ⟨htables, inserted, hinserted, hkeeps⟩ := h.tables.capture rfl hnew hcaptured
  obtain ⟨hfresh, hid⟩ := hcaptured.fresh
  rw [hfresh, hid, if_neg Bool.false_ne_true]
  refine ⟨⟨htables, fun run hrun hopen => ?_, ?_⟩, fun run hrun hfinal => ?_⟩
  · obtain ⟨old, hold, hsame, hopen'⟩ := hkeeps.of_open htables.ids hrun hopen
    rw [← hsame]
    rcases List.mem_append.mp hold with hold | hlast
    · exact (h.unapplied old hold hopen').cons (by simp)
    · rw [List.mem_singleton.mp hlast, hinserted]
      exact Unapplied.captured _ _
  · exact h.once.cons fun runId heq => absurd heq (by simp)
  · exact hkeeps.final run (List.mem_append_left _ hrun) hfinal

/-- The actions of a run are applied. -/
theorem RunWorld.Inv.finalized {claim : AutomationRunClaim} {timestampMs : ℤ}
    {plan : AutomationActionPlan} {applyActions : Except AutomationError Unit}
    {tables : RunTables Text}
    (hfinalize : finalizeClaim claim timestampMs plan applyActions world.tables =
      .ok (true, tables)) :
    RunWorld.Inv tokens { world with
      tables := tables
      log := .applied claim.id :: world.log } ∧
      ∀ run ∈ world.tables.runs, run.state.isFinal = true →
        run ∈ tables.runs ∨ ∀ run' ∈ tables.runs, run'.id ≠ run.id := by
  obtain ⟨htables, hkeeps, ⟨owner, howner, hid, hstate⟩, hfinal⟩ :=
    h.tables.finalizeClaim hfinalize
  refine ⟨⟨htables, fun run hrun hopen => ?_, h.once.cons fun runId happlied => ?_⟩,
    hkeeps.final⟩
  · have hne : run.id ≠ claim.id := fun hsame => by
      rw [hfinal run hrun hsame] at hopen
      cases hopen
    obtain ⟨old, hold, hsame, hopen'⟩ := hkeeps.of_open htables.ids hrun hopen
    rw [← hsame] at hne ⊢
    exact (h.unapplied old hold hopen').cons fun heq => hne (RunEvent.applied.inj heq).symm
  · cases happlied
    rw [← hid]
    exact h.unapplied owner howner (isFinal_of_processing hstate)

/-- What a call does to the world: the invariant is kept, and a final run stays or goes. -/
theorem RunWorld.Inv.call (htokens : Function.Injective tokens) {call : RunCall Text}
    (hheld : call.Held world) :
    (world.call contract tokens call).Inv tokens ∧
      ∀ run ∈ world.tables.runs, run.state.isFinal = true →
        run ∈ (world.call contract tokens call).tables.runs ∨
        ∀ run' ∈ (world.call contract tokens call).tables.runs, run'.id ≠ run.id := by
  have hsame : world.Inv tokens ∧ ∀ run ∈ world.tables.runs, run.state.isFinal = true →
      run ∈ world.tables.runs ∨ ∀ run' ∈ world.tables.runs, run'.id ≠ run.id :=
    ⟨h, fun run hrun _ => .inl hrun⟩
  cases call with
  | capture rules emails messageId acceptedAt =>
      rw [RunWorld.call]
      cases hcapture : captureLiveInbound contract rules emails messageId acceptedAt
          world.tables with
      | error e => exact hsame
      | ok result =>
          obtain ⟨outcome, tables⟩ := result
          rcases captureLiveInbound_eq_ok hcapture with ⟨hreplayed, rfl⟩ | ⟨hnew, hcaptured⟩
          · simp only [hreplayed, if_true]
            exact hsame
          · exact h.captured hnew hcaptured
  | claim timestampMs =>
      rw [RunWorld.call]
      cases hclaim : claimNextRun contract tokens world.drawn timestampMs world.tables with
      | error e =>
          exact ⟨h.quiet rfl (h.tables.mono (Nat.le_add_right _ _) (List.Subset.refl _))
            (.refl _), hsame.2⟩
      | ok result =>
          obtain ⟨claim, tables⟩ := result
          obtain ⟨htables, hkeeps⟩ := h.tables.claimNextRun htokens hclaim
          exact ⟨h.quiet rfl htables hkeeps, hkeeps.final⟩
  | finalize claim timestampMs plan applyActions =>
      rw [RunWorld.call]
      cases hfinalize : finalizeClaim claim timestampMs plan applyActions world.tables with
      | error e => exact hsame
      | ok result =>
          obtain ⟨applied, tables⟩ := result
          cases applied with
          | false =>
              obtain rfl := finalizeClaim_stale hfinalize
              exact hsame
          | true => exact h.finalized hfinalize
  | fail claim timestampMs category transient =>
      rw [RunWorld.call]
      cases hfail : failClaim claim timestampMs category transient world.tables with
      | error e => exact hsame
      | ok result =>
          obtain ⟨owned, tables⟩ := result
          obtain ⟨htables, hkeeps⟩ := h.tables.failClaim hheld hfail
          exact ⟨h.quiet rfl htables hkeeps, hkeeps.final⟩

end

/-! ### Runs of the world -/

/-- The world that calls lead to. -/
def RunWorld.after (contract : DefinitionContract Input Text) (tokens : ℕ → String)
    (calls : List (RunCall Text)) : RunWorld Text :=
  run (RunWorld.call contract tokens) .empty calls

theorem RunWorld.Inv.after (htokens : Function.Injective tokens) (calls : List (RunCall Text))
    (hheld : Along (RunWorld.call contract tokens) (fun world call => call.Held world) .empty
      calls) : (RunWorld.after contract tokens calls).Inv tokens := by
  have hstep : ∀ (world : RunWorld Text) (call : RunCall Text), world.Inv tokens →
      call.Held world → (world.call contract tokens call).Inv tokens :=
    fun world call h hcall => (h.call htokens hcall).1
  exact run_invariant_of_along hstep .empty calls hheld

/-- **The actions of a run are applied at most once**, whatever workers with fresh or stale claims
do, at whatever times. -/
theorem applied_at_most_once (htokens : Function.Injective tokens) (calls : List (RunCall Text))
    (hheld : Along (RunWorld.call contract tokens) (fun world call => call.Held world) .empty
      calls) :
    let world := RunWorld.after contract tokens calls
    AppliedOnce world.log ∧
      (∀ run ∈ world.tables.runs, run.attemptCount ≤ maxAttempts ∧
        (run.state = .pending → run.nextAttemptAt.isSome = true) ∧
        (run.state = .processing → run.leaseToken.isSome = true ∧
          run.leaseExpiresAt.isSome = true)) ∧
      (∀ timestamp, (∀ run ∈ (recycleExpired timestamp world.tables).runs,
          run.expired timestamp = false) ∧
        ∀ run ∈ world.tables.runs, run.state = .pending →
          notAfter run.nextAttemptAt timestamp = true →
          (dueRun timestamp world.tables).isSome = true) ∧
      (∀ ref ∈ world.tables.labelRefs ++ world.tables.folderRefs,
        ∃ run ∈ world.tables.runs, run.id = ref.runId ∧
          (run.state = .pending ∨ run.state = .processing)) ∧
      ∀ call : RunCall Text, call.Held world →
        ∀ run ∈ world.tables.runs, run.state.isFinal = true →
          run ∈ (world.call contract tokens call).tables.runs ∨
          ∀ run' ∈ (world.call contract tokens call).tables.runs, run'.id ≠ run.id := by
  intro world
  have h : world.Inv tokens := RunWorld.Inv.after htokens calls hheld
  refine ⟨h.once, fun run hrun => ?_, fun timestamp => ⟨recycleExpired_expired timestamp,
    fun run hrun => dueRun_isSome hrun⟩, fun ref href => ?_, fun call hcall => ?_⟩
  · have hrow := h.tables.rows run hrun
    refine ⟨hrow.attempts, fun hstate => (hrow.pending hstate).1, fun hstate => ?_⟩
    obtain ⟨hexpires, n, -, htoken, -⟩ := hrow.processing hstate
    exact ⟨by rw [htoken]; rfl, hexpires⟩
  · obtain ⟨run, hrun, hid, hopen⟩ := h.tables.refs ref href
    refine ⟨run, hrun, hid, ?_⟩
    cases hstate : run.state with
    | pending => exact .inl rfl
    | processing => exact .inr rfl
    | noMatch | applied | appliedWithSkips | failed =>
        rw [hstate] at hopen
        cases hopen
  · exact (h.call htokens hcall).2

/-- One enabled rule, which labels every message. -/
def sampleRules : RuleTables AutomationRuleDefinition where
  state := ⟨1, 1, ""⟩
  rules := [⟨"rule_1", "File", "file", .enabled, some 1, none, 2, 0, 2, "user", "", "user", "",
    none, none⟩]
  versions := [⟨"rule_1", 1, sampleDefinition, sampleDigest, "user", ""⟩]
  labelRefs := [⟨"rule_1", 1, "l1"⟩]
  folderRefs := []

/-- Tokens of growing length. -/
def sampleTokens (n : ℕ) : String := String.ofList (List.replicate n 't')

theorem sampleTokens_injective : Function.Injective sampleTokens := fun m n h => by
  have hlists := congrArg (fun s : String => s.toList.length) h
  simpa [sampleTokens] using hlists

/-- The claim of the run of message `m1`. -/
def sampleClaim : AutomationRunClaim :=
  ⟨"automation:m1", "m1", 1, 1, "", "1970-01-01T00:00:30.000Z",
    [⟨0, "rule_1", "File", 1, sampleDefinition, sampleDigest⟩]⟩

/-- A run is captured and claimed, and two workers finalize the claim. -/
def sampleRunCalls : List (RunCall AutomationRuleDefinition) :=
  [.capture sampleRules ["m1"] "m1" "1970-01-01T00:00:00.000Z", .claim 0,
    .finalize sampleClaim 1000 ⟨.applied, 1, 1, 1, none, []⟩ (.ok ()),
    .finalize sampleClaim 2000 ⟨.applied, 1, 1, 1, none, []⟩ (.ok ())]

/-- The actions of the run are applied by the first worker alone. -/
theorem applied_at_most_once_sample :
    AppliedOnce (RunWorld.after sampleContract sampleTokens sampleRunCalls).log ∧
      (RunWorld.after sampleContract sampleTokens sampleRunCalls).log =
        [.applied "automation:m1", .captured "automation:m1"] := by
  have hstart : Along (RunWorld.call sampleContract sampleTokens)
      (fun world call => call.Held world) .empty [] :=
    fun before call after heq => absurd heq (by simp)
  have hheld : Along (RunWorld.call sampleContract sampleTokens)
      (fun world call => call.Held world) .empty sampleRunCalls := by
    refine (((hstart.concat ?_).concat ?_).concat ?_).concat ?_
    · exact trivial
    · exact trivial
    · exact (show sampleClaim ∈ RunWorld.issued _ by decide +kernel)
    · exact (show sampleClaim ∈ RunWorld.issued _ by decide +kernel)
  exact ⟨(applied_at_most_once sampleTokens_injective sampleRunCalls hheld).1, by decide +kernel⟩

end MailPortal.Automation
