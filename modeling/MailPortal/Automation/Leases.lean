import MailPortal.Automation.RunChanges

/-!
# Run Leases

The invariant of the run tables (`RunInv`): the run that a claim leases is that of its token, and
has the attempts that the claim says; a run that is not final waits for a time or for the end of
a lease; references belong to runs that are not final. Each operation on runs keeps it, and
keeps final runs as they are or deletes them (`KeepsFinal`).

Main results: `RunInv.capture`, `RunInv.claimNextRun`, `RunInv.finalizeClaim`,
`RunInv.failClaim`.
-/

namespace MailPortal.Automation

open Failure Table

variable {Input Text : Type} {contract : DefinitionContract Input Text}
variable {tables' : RunTables Text} {timestampMs : ℤ} {run : RunRow} {timestamp : String}
  {claim : AutomationRunClaim}
variable {p : RunRow → Bool} {f : RunRow → RunRow} {due : RunRow} {runId : String}
  {refs : List TargetRef} {copied : List RunRef} {ref : RunRef}

/-! ### The invariant -/

/-- What holds of a row, when so many tokens were created and these claims handed out. -/
structure RowInv (tokens : ℕ → String) (drawn : ℕ) (issued : List AutomationRunClaim)
    (run : RunRow) : Prop where
  attempts : run.attemptCount ≤ maxAttempts
  pending : run.state = .pending →
    run.nextAttemptAt.isSome = true ∧ run.attemptCount < maxAttempts
  /-- The lease of a run that is processed is that of the claims with its token. -/
  processing : run.state = .processing → run.leaseExpiresAt.isSome = true ∧
    ∃ n < drawn, run.leaseToken = some (tokens n) ∧ ∀ claim ∈ issued,
      claim.leaseToken = tokens n → claim.id = run.id ∧ claim.attemptCount = run.attemptCount

/-- The invariant of the run tables. -/
structure RunInv (tokens : ℕ → String) (drawn : ℕ) (issued : List AutomationRunClaim)
    (tables : RunTables Text) : Prop where
  ids : (tables.runs.map RunRow.id).Nodup
  rows : ∀ run ∈ tables.runs, RowInv tokens drawn issued run
  tokens : ∀ claim ∈ issued, ∃ n < drawn, claim.leaseToken = tokens n
  refs : ∀ ref ∈ tables.labelRefs ++ tables.folderRefs,
    ∃ run ∈ tables.runs, run.id = ref.runId ∧ run.state.isFinal = false

/-- What no operation changes: there are no new runs, and final runs stay or go. -/
structure KeepsFinal (tables tables' : RunTables Text) : Prop where
  ids : ∀ run' ∈ tables'.runs, ∃ run ∈ tables.runs, run.id = run'.id
  final : ∀ run ∈ tables.runs, run.state.isFinal = true →
    run ∈ tables'.runs ∨ ∀ run' ∈ tables'.runs, run'.id ≠ run.id

theorem KeepsFinal.refl (tables : RunTables Text) : KeepsFinal tables tables :=
  ⟨fun run hrun => ⟨run, hrun, rfl⟩, fun _ hrun _ => .inl hrun⟩

theorem KeepsFinal.trans {tables tables'' : RunTables Text} (h : KeepsFinal tables tables')
    (h' : KeepsFinal tables' tables'') :
    KeepsFinal tables tables'' where
  ids run'' hrun'' := by
    obtain ⟨run', hrun', hid⟩ := h'.ids run'' hrun''
    obtain ⟨run, hrun, hid'⟩ := h.ids run' hrun'
    exact ⟨run, hrun, hid'.trans hid⟩
  final run hrun hfinal := by
    rcases h.final run hrun hfinal with hkept | hgone
    · exact h'.final run hkept hfinal
    · refine .inr fun run'' hrun'' hid => ?_
      obtain ⟨run', hrun', hid'⟩ := h'.ids run'' hrun''
      exact hgone run' hrun' (hid'.trans hid)

section Primitives

variable {tokens : ℕ → String} {drawn : ℕ} {issued : List AutomationRunClaim}
  {tables : RunTables Text}

/-- **The update rule.** Runs that are not final are changed, and lose their references when they
become final. -/
theorem RunInv.update (h : RunInv tokens drawn issued tables) (dropped : String → Bool)
    (hid : ∀ run, (f run).id = run.id) (hopen : ∀ run, p run = true → run.state.isFinal = false)
    (hrow : ∀ run ∈ tables.runs, p run = true → RowInv tokens drawn issued (f run))
    (hdropped : ∀ run ∈ tables.runs, p run = true → (f run).state.isFinal = true →
      dropped run.id = true) :
    RunInv tokens drawn issued (dropRefs dropped (updateRuns p f tables)) ∧
      KeepsFinal tables (dropRefs dropped (updateRuns p f tables)) := by
  have hmap : (updateWhere p f tables.runs).map RunRow.id = tables.runs.map RunRow.id :=
    map_key_updateWhere hid
  refine ⟨⟨?_, fun run hrun => ?_, h.tokens, fun ref href => ?_⟩, fun run' hrun' => ?_,
    fun run hrun hfinal => ?_⟩
  · exact (congrArg List.Nodup hmap).mpr h.ids
  · rcases mem_updateWhere.mp hrun with ⟨old, hold, hp, rfl⟩ | ⟨hold, -⟩
    · exact hrow old hold hp
    · exact h.rows run hold
  · have href' : ref ∈ tables.labelRefs ++ tables.folderRefs ∧ dropped ref.runId = false := by
      rcases List.mem_append.mp href with href | href
      · exact ⟨List.mem_append_left _ (mem_deleteWhere.mp href).1, (mem_deleteWhere.mp href).2⟩
      · exact ⟨List.mem_append_right _ (mem_deleteWhere.mp href).1, (mem_deleteWhere.mp href).2⟩
    obtain ⟨owner, howner, hsame, hfinal⟩ := h.refs ref href'.1
    cases hp : p owner with
    | true =>
        refine ⟨f owner, mem_updateWhere.mpr (.inl ⟨owner, howner, hp, rfl⟩),
          (hid owner).trans hsame, Bool.eq_false_iff.mpr fun hf => ?_⟩
        have hd := hdropped owner howner hp hf
        rw [hsame, href'.2] at hd
        cases hd
    | false => exact ⟨owner, mem_updateWhere.mpr (.inr ⟨howner, hp⟩), hsame, hfinal⟩
  · have hmem : run'.id ∈ (updateWhere p f tables.runs).map RunRow.id :=
      List.mem_map.mpr ⟨run', hrun', rfl⟩
    rw [hmap] at hmem
    exact List.mem_map.mp hmem
  · refine .inl (mem_updateWhere.mpr (.inr ⟨hrun, Bool.eq_false_iff.mpr fun hp => ?_⟩))
    rw [hopen run hp] at hfinal
    cases hfinal

/-- Without references to drop. -/
theorem dropRefs_none (tables : RunTables Text) : dropRefs (fun _ => false) tables = tables := by
  simp [dropRefs, deleteWhere]

section

variable (h : RunInv tokens drawn issued tables)
include h

/-- **The deletion rule.** Final runs may be deleted. -/
theorem RunInv.delete {doomed : RunRow → Bool}
    (hfinal : ∀ run ∈ tables.runs, doomed run = true → run.state.isFinal = true) :
    RunInv tokens drawn issued (deleteRuns doomed tables) ∧
      KeepsFinal tables (deleteRuns doomed tables) := by
  have hgone : ∀ run ∈ tables.runs, (run ∈ (deleteRuns doomed tables).runs ↔
      doomed run = false) := by
    intro run hrun
    have hany : (tables.runs.any fun r => doomed r && decide (r.id = run.id)) = doomed run := by
      rw [Bool.eq_iff_iff, List.any_eq_true]
      constructor
      · rintro ⟨r, hr, hboth⟩
        obtain ⟨hd, hsame⟩ := Bool.and_eq_true_iff.mp hboth
        rwa [← eq_of_key_eq h.ids hr hrun (of_decide_eq_true hsame)]
      · exact fun hd => ⟨run, hrun, by simp [hd]⟩
    rw [deleteRuns, mem_deleteWhere, ← hany]
    exact and_iff_right hrun
  have hsub : ∀ run ∈ (deleteRuns doomed tables).runs, run ∈ tables.runs :=
    fun run hrun => (mem_deleteWhere.mp hrun).1
  refine ⟨⟨nodup_deleteWhere h.ids, fun run hrun => h.rows run (hsub run hrun), h.tokens,
    fun ref href => ?_⟩, fun run hrun => ⟨run, hsub run hrun, rfl⟩, fun run hrun _ => ?_⟩
  · have href' : ref ∈ tables.labelRefs ++ tables.folderRefs := by
      rcases List.mem_append.mp href with href | href
      · exact List.mem_append_left _ (mem_deleteWhere.mp href).1
      · exact List.mem_append_right _ (mem_deleteWhere.mp href).1
    obtain ⟨owner, howner, hsame, hopen⟩ := h.refs ref href'
    refine ⟨owner, (hgone owner howner).mpr (Bool.eq_false_iff.mpr fun hd => ?_), hsame, hopen⟩
    rw [hfinal owner howner hd] at hopen
    cases hopen
  · cases hd : doomed run with
    | false => exact .inl ((hgone run hrun).mpr hd)
    | true =>
        refine .inr fun run' hrun' hid => ?_
        rw [eq_of_key_eq h.ids (hsub run' hrun') hrun hid] at hrun'
        rw [(hgone run hrun).mp hrun'] at hd
        cases hd

/-- Pruning keeps the invariant. -/
theorem RunInv.prune (hpruned : pruneHistory timestampMs tables = .ok tables') :
    RunInv tokens drawn issued tables' ∧ KeepsFinal tables tables' := by
  obtain ⟨old, surplus, hold, hsurplus, rfl⟩ := pruneHistory_eq_ok hpruned
  obtain ⟨h₁, hkeeps₁⟩ := h.delete hold
  obtain ⟨h₂, hkeeps₂⟩ := h₁.delete hsurplus
  exact ⟨h₂, hkeeps₁.trans hkeeps₂⟩

/-- Changes after which no run is final drop no reference. -/
theorem RunInv.update_open (hid : ∀ run, (f run).id = run.id)
    (hopen : ∀ run, p run = true → run.state.isFinal = false)
    (hrow : ∀ run ∈ tables.runs, p run = true → RowInv tokens drawn issued (f run))
    (hstill : ∀ run, (f run).state.isFinal = false) :
    RunInv tokens drawn issued (updateRuns p f tables) ∧
      KeepsFinal tables (updateRuns p f tables) := by
  have hupdate := h.update (fun _ => false) hid hopen hrow fun run _ _ hfinal => by
    rw [hstill run] at hfinal
    cases hfinal
  rwa [dropRefs_none] at hupdate

end

/-- A row of a final run. -/
theorem RowInv.of_final (hfinal : run.state.isFinal = true)
    (hattempts : run.attemptCount ≤ maxAttempts) : RowInv tokens drawn issued run where
  attempts := hattempts
  pending hstate := by
    rw [hstate] at hfinal
    cases hfinal
  processing hstate := by
    rw [hstate] at hfinal
    cases hfinal

theorem RowInv.of_pending (hstate : run.state = .pending) (hnext : run.nextAttemptAt.isSome = true)
    (hattempts : run.attemptCount < maxAttempts) :
    RowInv tokens drawn issued run where
  attempts := hattempts.le
  pending _ := ⟨hnext, hattempts⟩
  processing hprocessing := by
    rw [hstate] at hprocessing
    cases hprocessing

theorem isFinal_of_processing (h : run.state = .processing) : run.state.isFinal = false := by
  rw [h]
  rfl

theorem RunRow.expired_processing (h : run.expired timestamp = true) : run.state = .processing :=
  of_decide_eq_true (Bool.and_eq_true_iff.mp h).1

/-- Ending the leases that have run out keeps the invariant. -/
theorem RunInv.recycle (h : RunInv tokens drawn issued tables) (timestamp : String) :
    RunInv tokens drawn issued (recycleExpired timestamp tables) ∧
      KeepsFinal tables (recycleExpired timestamp tables) := by
  have hopen : ∀ (p : RunRow → Bool) (run : RunRow), (run.expired timestamp && p run) = true →
      run.state.isFinal = false := fun p run hp =>
    isFinal_of_processing (RunRow.expired_processing (Bool.and_eq_true_iff.mp hp).1)
  obtain ⟨h₁, hkeeps₁⟩ := h.update (f := (·.exhausted timestamp))
    (fun runId => (updateWhere (fun r => r.expired timestamp &&
      decide (maxAttempts ≤ r.attemptCount)) (·.exhausted timestamp) tables.runs).any
        fun r => decide (r.id = runId) && decide (r.state = .failed))
    (fun _ => rfl) (hopen _) (fun run hrun _ => .of_final rfl (h.rows run hrun).attempts)
    fun run hrun hp _ => List.any_eq_true.mpr
      ⟨_, mem_updateWhere.mpr (.inl ⟨run, hrun, hp, rfl⟩), by simp [RunRow.exhausted]⟩
  obtain ⟨h₂, hkeeps₂⟩ := h₁.update_open (p := fun r => r.expired timestamp &&
      decide (r.attemptCount < maxAttempts)) (f := (·.recycled timestamp)) (fun _ => rfl)
    (hopen _) (fun run _ hp => .of_pending rfl rfl
      (of_decide_eq_true (Bool.and_eq_true_iff.mp hp).2)) fun _ => rfl
  exact ⟨h₂, hkeeps₁.trans hkeeps₂⟩

/-- No lease that has run out is left. -/
theorem recycleExpired_expired (timestamp : String) :
    ∀ run ∈ (recycleExpired timestamp tables).runs, run.expired timestamp = false := by
  intro run hrun
  rcases mem_updateWhere.mp hrun with ⟨old, -, -, rfl⟩ | ⟨hrun, hmore⟩
  · rfl
  · rcases mem_updateWhere.mp hrun with ⟨old, -, -, rfl⟩ | ⟨-, hless⟩
    · rfl
    · by_contra hexpired
      rw [Bool.eq_true_of_not_eq_false hexpired, Bool.true_and, decide_eq_false_iff_not] at hmore
      rw [Bool.eq_true_of_not_eq_false hexpired, Bool.true_and, decide_eq_false_iff_not] at hless
      omega

/-- A pending run whose time has come makes a run due. -/
theorem dueRun_isSome (hrun : run ∈ tables.runs) (hstate : run.state = .pending)
    (htime : notAfter run.nextAttemptAt timestamp = true) :
    (dueRun timestamp tables).isSome = true := by
  have hmem : run ∈ (tables.runs.filter fun r =>
      r.state = .pending && notAfter r.nextAttemptAt timestamp).insertionSort RunRow.dueBefore :=
    (List.perm_insertionSort _ _).mem_iff.mpr
      (List.mem_filter.mpr ⟨hrun, by rw [hstate, htime]; rfl⟩)
  rw [dueRun, List.isSome_head?]
  exact List.ne_nil_of_mem hmem

/-- One more token is drawn, for a claim that has it. -/
theorem RunInv.issue (h : RunInv tokens drawn issued tables) (htokens : Function.Injective tokens)
    (hclaim : claim.leaseToken = tokens drawn) :
    RunInv tokens (drawn + 1) (claim :: issued) tables where
  ids := h.ids
  rows run hrun := by
    have hrow := h.rows run hrun
    refine ⟨hrow.attempts, hrow.pending, fun hstate => ?_⟩
    obtain ⟨hexpires, n, hn, htoken, hclaims⟩ := hrow.processing hstate
    refine ⟨hexpires, n, Nat.lt_succ_of_lt hn, htoken, fun other hother hsame => ?_⟩
    rcases List.mem_cons.mp hother with rfl | hother
    · exact absurd (htokens (hclaim.symm.trans hsame)) hn.ne'
    · exact hclaims other hother hsame
  tokens other hother := by
    rcases List.mem_cons.mp hother with rfl | hother
    · exact ⟨drawn, Nat.lt_succ_self drawn, hclaim⟩
    · obtain ⟨n, hn, hsame⟩ := h.tokens other hother
      exact ⟨n, Nat.lt_succ_of_lt hn, hsame⟩
  refs := h.refs

/-- More tokens were drawn, and fewer claims handed out. -/
theorem RunInv.mono (h : RunInv tokens drawn issued tables) {drawn' : ℕ}
    {issued' : List AutomationRunClaim} (hdrawn : drawn ≤ drawn') (hissued : issued' ⊆ issued) :
    RunInv tokens drawn' issued' tables where
  ids := h.ids
  rows run hrun := by
    have hrow := h.rows run hrun
    refine ⟨hrow.attempts, hrow.pending, fun hstate => ?_⟩
    obtain ⟨hexpires, n, hn, htoken, hclaims⟩ := hrow.processing hstate
    exact ⟨hexpires, n, hn.trans_le hdrawn, htoken, fun claim hclaim => hclaims claim
      (hissued hclaim)⟩
  tokens claim hclaim := by
    obtain ⟨n, hn, hsame⟩ := h.tokens claim (hissued hclaim)
    exact ⟨n, hn.trans_le hdrawn, hsame⟩
  refs := h.refs

/-- A run that is due is pending. -/
theorem dueRun_mem (hdue : dueRun timestamp tables = some due) :
    due ∈ tables.runs ∧ due.state = .pending := by
  have hmem := (List.perm_insertionSort _ _).mem_iff.mp (List.mem_of_mem_head? hdue)
  obtain ⟨hrun, hp⟩ := List.mem_filter.mp hmem
  exact ⟨hrun, of_decide_eq_true (Bool.and_eq_true_iff.mp hp).1⟩

section

variable (h : RunInv tokens drawn issued tables)
include h

/-- A lease of the run that is due keeps the invariant, when the claim is handed out. -/
theorem RunInv.lease (htokens : Function.Injective tokens) (hmem : due ∈ tables.runs)
    (hpending : due.state = .pending) (claim : AutomationRunClaim)
    (hclaim : claim.leaseToken = tokens drawn) (hid : claim.id = due.id)
    (hcount : claim.attemptCount = due.attemptCount + 1) (leaseExpiresAt timestamp : String) :
    RunInv tokens (drawn + 1) (claim :: issued)
        (leaseRun due (tokens drawn) leaseExpiresAt timestamp tables) ∧
      KeepsFinal tables (leaseRun due (tokens drawn) leaseExpiresAt timestamp tables) := by
  refine (h.issue htokens hclaim).update_open (fun _ => rfl) (fun run hp => ?_)
    (fun run hrun hp => ?_) fun _ => rfl
  · rw [of_decide_eq_true (Bool.and_eq_true_iff.mp hp).2]
    rfl
  · obtain rfl := eq_of_key_eq h.ids hrun hmem
      (of_decide_eq_true (Bool.and_eq_true_iff.mp hp).1)
    have hattempts := ((h.rows run hrun).pending hpending).2
    refine ⟨hattempts, nofun, fun _ => ⟨rfl, drawn, Nat.lt_succ_self drawn, rfl, ?_⟩⟩
    intro other hother hsame
    rcases List.mem_cons.mp hother with rfl | hother
    · exact ⟨hid, hcount⟩
    · obtain ⟨n, hn, htoken⟩ := h.tokens other hother
      exact absurd (htokens (htoken.symm.trans hsame)) hn.ne

/-- A run whose snapshot does not read back fails, without references. -/
theorem RunInv.corrupt (due : RunRow) (token timestamp : String) :
    RunInv tokens drawn issued (failCorrupt due token timestamp tables) ∧
      KeepsFinal tables (failCorrupt due token timestamp tables) := by
  refine h.update _ (fun _ => rfl) (fun run hp => ?_)
    (fun run hrun _ => .of_final rfl (h.rows run hrun).attempts) fun run _ hp _ => ?_
  · exact isFinal_of_processing
      (of_decide_eq_true (Bool.and_eq_true_iff.mp (Bool.and_eq_true_iff.mp hp).1).2)
  · exact (Bool.and_eq_true_iff.mp (Bool.and_eq_true_iff.mp hp).1).1

/-- The claim loop keeps the invariant: by induction on the rounds that are left. -/
theorem RunInv.claimLoop (htokens : Function.Injective tokens) {rounds : ℕ}
    {claim : Option AutomationRunClaim}
    (hloop : claimLoop contract tokens timestampMs timestamp rounds drawn tables =
      .ok (claim, tables')) :
    RunInv tokens (drawn + rounds) (claim.toList ++ issued) tables' ∧
      KeepsFinal tables tables' := by
  induction rounds generalizing drawn tables with
  | zero =>
      cases hloop
      exact ⟨h, .refl _⟩
  | succ rounds ih =>
      rw [Automation.claimLoop] at hloop
      cases hdue : dueRun timestamp tables with
      | none =>
          rw [hdue] at hloop
          cases hloop
          exact ⟨h.mono (Nat.le_add_right _ _) (List.Subset.refl _), .refl _⟩
      | some due =>
          rw [hdue] at hloop
          obtain ⟨leaseExpiresAt, -, hloop⟩ := bind_eq_ok.mp hloop
          obtain ⟨hmem, hpending⟩ := dueRun_mem hdue
          have hleased := fun rules => h.lease htokens hmem hpending ⟨due.id,
            due.triggerMessageId, due.rulesetGeneration, due.attemptCount + 1, tokens drawn,
            leaseExpiresAt, rules⟩ rfl rfl rfl leaseExpiresAt timestamp
          dsimp only at hloop
          split at hloop
          · -- nobody is given the claim, and the loop goes on
            obtain ⟨h₁, hkeeps₁⟩ := hleased []
            obtain ⟨h₂, hkeeps₂⟩ := (h₁.mono le_rfl (List.subset_cons_self _ _)).corrupt due
              (tokens drawn) timestamp
            obtain ⟨h₃, hkeeps₃⟩ := ih h₂ hloop
            rw [Nat.add_assoc, Nat.add_comm 1] at h₃
            exact ⟨h₃, (hkeeps₁.trans hkeeps₂).trans hkeeps₃⟩
          · next rules _ =>
            cases hloop
            obtain ⟨h₁, hkeeps₁⟩ := hleased rules
            exact ⟨h₁.mono (by omega) (List.Subset.refl _), hkeeps₁⟩

/-- `claimNextRun` keeps the invariant. -/
theorem RunInv.claimNextRun (htokens : Function.Injective tokens)
    {claim : Option AutomationRunClaim}
    (hclaim : claimNextRun contract tokens drawn timestampMs tables = .ok (claim, tables')) :
    RunInv tokens (drawn + maxEnabledRules) (claim.toList ++ issued) tables' ∧
      KeepsFinal tables tables' := by
  obtain ⟨timestamp, -, hloop⟩ := bind_eq_ok.mp hclaim
  obtain ⟨h₁, hkeeps₁⟩ := h.recycle timestamp
  obtain ⟨h₂, hkeeps₂⟩ := h₁.claimLoop htokens hloop
  exact ⟨h₂, hkeeps₁.trans hkeeps₂⟩

end

theorem RunRow.heldBy_iff :
    run.heldBy claim = true ↔ run.id = claim.id ∧ run.state = .processing ∧
      run.leaseToken = some claim.leaseToken := by
  simp [RunRow.heldBy, and_assoc]

section

variable (h : RunInv tokens drawn issued tables)
include h

/-- The run of a held claim has the attempts that the claim says. -/
theorem RunInv.held_attempts (hissued : claim ∈ issued) (hrun : run ∈ tables.runs)
    (hheld : run.heldBy claim = true) : run.attemptCount = claim.attemptCount := by
  obtain ⟨-, hstate, htoken⟩ := RunRow.heldBy_iff.mp hheld
  obtain ⟨-, n, -, hlease, hclaims⟩ := (h.rows run hrun).processing hstate
  rw [hlease] at htoken
  exact ((hclaims claim hissued) (Option.some.inj htoken).symm).2.symm

/-- A failed claim keeps the invariant. -/
theorem RunInv.failClaim (hissued : claim ∈ issued) {category : String} {transient owned : Bool}
    (hfail : failClaim claim timestampMs category transient tables = .ok (owned, tables')) :
    RunInv tokens drawn issued tables' ∧ KeepsFinal tables tables' := by
  have hopen : ∀ run : RunRow, run.heldBy claim = true → run.state.isFinal = false :=
    fun run hheld => isFinal_of_processing (RunRow.heldBy_iff.mp hheld).2.1
  rcases failClaim_eq_ok hfail with rfl | ⟨settled, hsame, ⟨hpending, hmore, rfl⟩ | ⟨hfailed, rfl⟩⟩
  · exact ⟨h, .refl _⟩
  · refine h.update_open (fun run => (hsame run).1) hopen (fun run hrun hheld => ?_)
      fun run => ?_
    · refine .of_pending (hpending run).1 (hpending run).2 ?_
      rw [(hsame run).2, h.held_attempts hissued hrun hheld]
      exact hmore
    · rw [(hpending run).1]
      rfl
  · refine h.update _ (fun run => (hsame run).1) hopen (fun run hrun _ => ?_)
      fun run _ hheld _ => ?_
    · refine .of_final ?_ ?_
      · rw [hfailed run]
        rfl
      · rw [(hsame run).2]
        exact (h.rows run hrun).attempts
    · exact decide_eq_true (RunRow.heldBy_iff.mp hheld).1

/-- The invariant does not look at results. -/
theorem RunInv.results (results : List RunResultRow) :
    RunInv tokens drawn issued { tables with results := results } :=
  ⟨h.ids, h.rows, h.tokens, h.refs⟩

end

theorem PlanState.isFinal (state : PlanState) : state.state.isFinal = true := by
  cases state <;> rfl

/-- A finalized claim keeps the invariant, and its run is final. -/
theorem RunInv.finalizeClaim (h : RunInv tokens drawn issued tables) {plan : AutomationActionPlan}
    {applyActions : Except AutomationError Unit}
    (hfinalize : finalizeClaim claim timestampMs plan applyActions tables =
      .ok (true, tables')) :
    RunInv tokens drawn issued tables' ∧ KeepsFinal tables tables' ∧
      (∃ run ∈ tables.runs, run.id = claim.id ∧ run.state = .processing) ∧
      ∀ run ∈ tables'.runs, run.id = claim.id → run.state.isFinal = true := by
  obtain ⟨timestamp, final, howns, -, hsame, hpruned⟩ := finalizeClaim_eq_ok hfinalize
  have hopen : ∀ run : RunRow, run.heldBy claim = true → run.state.isFinal = false :=
    fun run hheld => isFinal_of_processing (RunRow.heldBy_iff.mp hheld).2.1
  have hfinal : ∀ run, (final run).state.isFinal = true := fun run => by
    rw [(hsame run).2.1]
    exact plan.state.isFinal
  obtain ⟨owner, howner, howns⟩ := List.any_eq_true.mp howns
  obtain ⟨hheld, -⟩ := Bool.and_eq_true_iff.mp howns
  have hheld : owner.heldBy claim = true := hheld
  obtain ⟨hid, hstate, -⟩ := RunRow.heldBy_iff.mp hheld
  obtain ⟨h₁, hkeeps₁⟩ := (h.results (tables.results ++
    resultRows claim timestamp plan.results)).update (· = claim.id) (fun run => (hsame run).1) hopen
    (fun run hrun _ => .of_final (hfinal run) (by
      rw [(hsame run).2.2]
      exact (h.rows run hrun).attempts))
    fun run _ hheld _ => decide_eq_true (RunRow.heldBy_iff.mp hheld).1
  obtain ⟨h₂, hkeeps₂⟩ := h₁.prune hpruned
  refine ⟨h₂, ⟨(hkeeps₁.trans hkeeps₂).ids, (hkeeps₁.trans hkeeps₂).final⟩,
    ⟨owner, howner, hid, hstate⟩, fun run hrun hrunId => ?_⟩
  -- the run is final before pruning, and pruning keeps or deletes it
  have hmem : final owner ∈ (updateWhere (RunRow.heldBy claim) final tables.runs) :=
    mem_updateWhere.mpr (.inl ⟨owner, howner, hheld, rfl⟩)
  rcases hkeeps₂.final (final owner) hmem (hfinal owner) with hkept | hgone
  · rw [eq_of_key_eq h₂.ids hrun hkept (hrunId.trans (hid.symm.trans (hsame owner).1.symm))]
    exact hfinal owner
  · exact absurd (hrunId.trans (hid.symm.trans (hsame owner).1.symm)) (hgone run hrun)

/-- Copied references belong to the run. -/
theorem mem_copyRefs {rule : EnabledRule Text} (href : ref ∈ copyRefs runId rule refs copied) :
    ref ∈ copied ∨ ref.runId = runId := by
  rw [copyRefs] at href
  generalize refs.filter _ = targets at href
  induction targets generalizing copied with
  | nil => exact .inl href
  | cons target targets ih =>
      rw [List.foldl_cons] at href
      rcases ih href with hmem | hrun
      · split at hmem
        · exact .inl hmem
        · rcases List.mem_append.mp hmem with hmem | hmem
          · exact .inl hmem
          · rw [List.mem_singleton.mp hmem]
            exact .inr rfl
      · exact .inr hrun

theorem mem_foldl_copyRefs {enabled : List (EnabledRule Text)}
    (href : ref ∈ enabled.foldl (fun copied rule => copyRefs runId rule refs copied) copied) :
    ref ∈ copied ∨ ref.runId = runId := by
  induction enabled generalizing copied with
  | nil => exact .inl href
  | cons rule enabled ih =>
      rcases ih href with hmem | hrun
      · exact mem_copyRefs hmem
      · exact .inr hrun

section

variable (h : RunInv tokens drawn issued tables)
include h

/-- A new run keeps the invariant. -/
theorem RunInv.insert (run : RunRow) (hnew : ∀ r ∈ tables.runs, r.id ≠ run.id)
    (hrow : RowInv tokens drawn issued run) :
    RunInv tokens drawn issued (insertRun run tables) where
  ids := by
    rw [insertRun, List.map_append, List.map_singleton]
    refine List.Nodup.append h.ids (List.nodup_singleton _) fun id hid hlast => ?_
    obtain ⟨r, hr, rfl⟩ := List.mem_map.mp hid
    exact hnew r hr (List.mem_singleton.mp hlast)
  rows r hr := by
    rcases List.mem_append.mp hr with hr | hr
    · exact h.rows r hr
    · rw [List.mem_singleton.mp hr]
      exact hrow
  tokens := h.tokens
  refs ref href := by
    obtain ⟨owner, howner, hsame, hopen⟩ := h.refs ref href
    exact ⟨owner, List.mem_append_left _ howner, hsame, hopen⟩

/-- A snapshot is copied to a run that is not final. -/
theorem RunInv.copySnapshot (hrun : run ∈ tables.runs) (hopen : run.state.isFinal = false)
    (rules : RuleTables Text) (enabled : List (EnabledRule Text)) (names : List String) :
    RunInv tokens drawn issued (copySnapshot run.id rules enabled names tables) where
  ids := h.ids
  rows := h.rows
  tokens := h.tokens
  refs ref href := by
    have hold : ref ∈ tables.labelRefs ++ tables.folderRefs ∨ ref.runId = run.id := by
      rcases List.mem_append.mp href with href | href
      · exact (mem_foldl_copyRefs href).imp_left (List.mem_append_left _)
      · exact (mem_foldl_copyRefs href).imp_left (List.mem_append_right _)
    rcases hold with hold | hsame
    · exact h.refs ref hold
    · exact ⟨run, hrun, hsame.symm, hopen⟩

/-- A new run keeps the invariant, and the other runs as they are or deletes final ones. -/
theorem RunInv.capture {rules : RuleTables Text} {acceptedAt : String} {outcome : CaptureOutcome}
    (hcount : run.attemptCount = 0) (hnew : ∀ r ∈ tables.runs, r.id ≠ run.id)
    (hcaptured : Captured contract rules acceptedAt run tables outcome tables') :
    RunInv tokens drawn issued tables' ∧ ∃ inserted : RunRow, inserted.id = run.id ∧
        KeepsFinal (insertRun inserted tables) tables' := by
  cases hcaptured with
  | unread e acceptedAtMs hnames _ hpruned =>
      have hrow : RowInv tokens drawn issued (run.captureFailed acceptedAt) :=
        .of_final rfl (by rw [RunRow.captureFailed, hcount]; exact Nat.zero_le _)
      obtain ⟨h₁, hkeeps⟩ := (h.insert (run.captureFailed acceptedAt) hnew hrow).prune hpruned
      exact ⟨h₁, run.captureFailed acceptedAt, rfl, hkeeps⟩
  | nothing acceptedAtMs hnone _ hpruned =>
      have hrow : RowInv tokens drawn issued (run.captured true acceptedAt) :=
        .of_final rfl (by rw [RunRow.captured, hcount]; exact Nat.zero_le _)
      obtain ⟨h₁, hkeeps⟩ := (h.insert (run.captured true acceptedAt) hnew hrow).prune hpruned
      exact ⟨h₁, run.captured true acceptedAt, rfl, hkeeps⟩
  | copied names hnames _ hcopied =>
      have hrow : RowInv tokens drawn issued (run.captured false acceptedAt) :=
        .of_pending rfl rfl (by rw [RunRow.captured, hcount]; decide)
      have h₁ :=
        (h.insert (run.captured false acceptedAt) hnew hrow).copySnapshot (List.mem_append_right _
        (List.mem_singleton_self _)) rfl rules (enabledRules rules) names
      rw [hcopied]
      refine ⟨h₁, run.captured false acceptedAt, rfl, ?_, ?_⟩
      · exact fun r hr => ⟨r, hr, rfl⟩
      · exact fun r hr _ => .inl hr

end

end Primitives

end MailPortal.Automation
