import MailPortal.Drafts.CleanupInvariant

/-!
# Promoted Objects are Owned or Cleaned

The keys that were recorded last for a claim are seen to: by the claim while it stands, by the save
when it is committed, by an intent otherwise, until a pass has found of every key that there is no
object, or one of another owner, or has deleted it. A pass deletes objects of its own token only,
and this token is never committed. So no object that a draft names, or named when it was sent, is
ever deleted by a pass.

This rests on keys that are made from the token of the claim, and on writes that name what their own
claim recorded, and otherwise keys that are named already.

Main results:

* `draft_objects_owned_or_cleaned` : all of this, in every run.
* `draft_object_lost` : what fails when a claim records twice, when a commit does not name what was
  recorded, when a write names a key of another claim, and when two claims write to one key.
-/

namespace MailPortal.Drafts

open Runs

variable {tokenOf : String → Option String} {s s' : DraftSystem}
variable {key : String} {objects : Objects}
variable {history events : List CleanupEvent} {intent : DraftSaveCleanupIntent}
  {emails : List EmailRow} {attachments : List AttachmentRow}

/-! ### The invariant of the passes -/

/-- A pass found no object of the token under the key, or deleted it. -/
def Verified (history : List CleanupEvent) (token key : String) : Prop :=
  .sawNone token key ∈ history ∨ .sawForeign token key ∈ history ∨ .cleared token key ∈ history

theorem Verified.mono {history' : List CleanupEvent} {token : String}
    (h : Verified history token key) (hmono : ∀ event ∈ history, event ∈ history') :
    Verified history' token key :=
  h.imp (hmono _) (Or.imp (hmono _) (hmono _))

/-- What a pass has found out. -/
def StageInv (tokenOf : String → Option String) (s : DraftSystem) : PassStage → Prop
  | .reading intent unread owned =>
      (∀ key ∈ owned, tokenOf key = some intent.claimToken ∧
        ∀ object, s.objects key = some object → object = some intent.claimToken) ∧
      ∀ key ∈ intent.destinationKeys,
        key ∈ unread ∨ key ∈ owned ∨ Verified s.history intent.claimToken key
  | .settling intent verification => verification = .succeeded →
      ∀ key ∈ intent.destinationKeys, Verified s.history intent.claimToken key

/-- **The invariant of the passes**: they destroy only what is over. -/
structure PassesInv (tokenOf : String → Option String) (s : DraftSystem) : Prop where
  finished : ∀ stage ∈ s.passes, Over s stage.intent.claimToken
  plans : ∀ stage ∈ s.passes, ∀ intent ∈ s.tables.intents,
    intent.claimToken = stage.intent.claimToken →
      intent.destinationKeys = stage.intent.destinationKeys
  stages : ∀ stage ∈ s.passes, StageInv tokenOf s stage
  objects : ∀ key token, s.objects key = some (some token) → tokenOf key = some token
  destroyed : ∀ token key object, .destroyed token key object ∈ s.history →
    object = some token ∧ tokenOf key = some token ∧ Over s token
  settled : ∀ before token keys after, s.history = before ++ .settled token keys :: after →
    ∀ key ∈ keys, Verified before token key

/-- Steps that write down nothing about intents that are deleted. -/
theorem settled_append
    (h : ∀ before token keys after, history = before ++ .settled token keys :: after →
      ∀ key ∈ keys, Verified before token key)
    (hevents : ∀ token keys, .settled token keys ∈ events → ∀ key ∈ keys,
      Verified history token key) :
    ∀ before token keys after, history ++ events = before ++ .settled token keys :: after →
      ∀ key ∈ keys, Verified before token key := by
  intro before token keys after heq key hkey
  rcases List.append_eq_append_iff.mp heq with ⟨rest, hbefore, hrest⟩ | ⟨rest, hhistory, hrest⟩
  · have hmem : .settled token keys ∈ events := hrest ▸ List.mem_append_right _ List.mem_cons_self
    exact (hevents token keys hmem key hkey).mono fun event hmem =>
      hbefore ▸ List.mem_append_left _ hmem
  · cases rest with
    | nil =>
        rw [List.nil_append] at hrest
        have hmem : .settled token keys ∈ events := hrest ▸ List.mem_cons_self
        rw [List.append_nil] at hhistory
        exact hhistory ▸ hevents token keys hmem key hkey
    | cons event rest =>
        obtain ⟨rfl, -⟩ := List.cons.inj (hrest : _ = event :: (rest ++ events))
        exact h before token keys rest hhistory key hkey

/-- What a pass has found out stays true when no object comes but those of their own keys. -/
theorem StageInv.mono {stage : PassStage} (h : StageInv tokenOf s stage)
    (hmono : ∀ event ∈ s.history, event ∈ s'.history)
    (hobjects : ∀ key object, s'.objects key = some object →
      s.objects key = some object ∨ ∃ token, object = some token ∧ tokenOf key = some token) :
    StageInv tokenOf s' stage := by
  cases stage with
  | reading intent unread owned =>
      refine ⟨fun key hkey => ⟨(h.1 key hkey).1, fun object hobject => ?_⟩, fun key hkey =>
        (h.2 key hkey).imp_right (Or.imp_right fun hverified => hverified.mono hmono)⟩
      rcases hobjects key object hobject with hold | ⟨token, rfl, htoken⟩
      · exact (h.1 key hkey).2 object hold
      · exact htoken.symm.trans (h.1 key hkey).1
  | settling intent verification =>
      exact fun hsucceeded key hkey => (h hsucceeded key hkey).mono hmono

/-- What a step has to show: for what it writes down, for the objects that it leaves, and for a pass
that it moves. -/
theorem PassesInv.keeps (h : PassesInv tokenOf s) (hover : ∀ token, Over s token → Over s' token)
    (hhistory : s'.history = s.history ++ events)
    (hdestroyed : ∀ token key object, .destroyed token key object ∈ events →
      object = some token ∧ tokenOf key = some token ∧ Over s' token)
    (hsettled : ∀ token keys, .settled token keys ∈ events → ∀ key ∈ keys,
      Verified s.history token key) (hobjects : ∀ key object, s'.objects key = some object →
      s.objects key = some object ∨ ∃ token, object = some token ∧ tokenOf key = some token)
    (hplans : ∀ stage ∈ s'.passes, ∀ intent ∈ s'.tables.intents,
      intent.claimToken = stage.intent.claimToken →
        intent.destinationKeys = stage.intent.destinationKeys)
    (hpasses : ∀ stage ∈ s'.passes, stage ∈ s.passes ∨
      Over s' stage.intent.claimToken ∧ StageInv tokenOf s' stage) : PassesInv tokenOf s' := by
  have hmono : ∀ event ∈ s.history, event ∈ s'.history := fun event hmem =>
    hhistory ▸ List.mem_append_left _ hmem
  refine ⟨fun stage hstage => ?_, hplans, fun stage hstage => ?_, ?_, ?_, ?_⟩
  · rcases hpasses stage hstage with hold | ⟨hnew, -⟩
    · exact hover _ (h.finished stage hold)
    · exact hnew
  · rcases hpasses stage hstage with hold | ⟨-, hnew⟩
    · exact (h.stages stage hold).mono hmono hobjects
    · exact hnew
  · intro key token hobject
    rcases hobjects key _ hobject with hold | ⟨token', heq, htoken⟩
    · exact h.objects key token hold
    · exact Option.some.inj heq ▸ htoken
  · intro token key object hmem
    rw [hhistory] at hmem
    rcases List.mem_append.mp hmem with hold | hnew
    · obtain ⟨hobject, htoken, hover'⟩ := h.destroyed token key object hold
      exact ⟨hobject, htoken, hover token hover'⟩
    · exact hdestroyed token key object hnew
  · rw [hhistory]
    exact settled_append h.settled hsettled

/-! ### Steps -/

/-- The invariant of the tables and of the passes. -/
structure SystemInv (tokenOf : String → Option String) (s : DraftSystem) : Prop where
  tables : TablesInv tokenOf s
  passes : PassesInv tokenOf s

namespace SystemInv

section

variable (h : SystemInv tokenOf s)
include h

theorem keeps_call {call : DraftCall} (hd : Disciplined tokenOf s (.call call)) :
    SystemInv tokenOf (systemStep s (.call call)) := by
  refine ⟨h.tables.keeps_call hd, h.passes.keeps (fun token hover => h.tables.over_call hd hover)
    rfl ?_ ?_ (fun _ _ hobject => .inl hobject) ?_ fun stage hstage => .inl hstage⟩
  · intro token key object hmem
    rcases mem_callEvents hmem with ⟨_, heq, -⟩ | ⟨_, _, _, _, _, heq, -⟩ | ⟨_, _, -, -, heq⟩ |
      ⟨_, heq⟩ | ⟨_, _, heq⟩ <;> cases heq
  · intro token keys hmem
    rcases mem_callEvents hmem with ⟨_, heq, -⟩ | ⟨_, _, _, _, _, heq, -⟩ | ⟨_, _, -, -, heq⟩ |
      ⟨_, heq⟩ | ⟨_, _, heq⟩ <;> cases heq
  · intro stage hstage intent hintent hkey
    obtain ⟨ended, hending⟩ := ending_step h.tables.draft h.tables.noPlan call
    have hover := h.passes.finished stage hstage
    -- No claim of the token stands, so none was ended, and the plan is the one there was.
    have hkept := hending.intents.kept stage.intent.claimToken fun row hrow howner => by
      obtain ⟨hmem, hstate⟩ := hending.mem row hrow
      exact absurd ⟨row, hmem, hstate, howner ▸ h.tables.promotionOwner_eq hmem⟩ hover.unclaimed
    rw [plan, plan, ← hkey, Table.lookup_of_mem (hending.intents.keys h.tables.intentKeys) hintent,
      Option.map_some] at hkept
    obtain ⟨old, hold, hsame⟩ := Option.map_eq_some_iff.mp hkept.symm
    obtain ⟨hmem, holdkey⟩ := Table.lookup_eq_some hold
    rw [← hsame]
    exact h.passes.plans stage hstage old hmem (holdkey.trans hkey)

/-- A step that leaves the tables alone, and writes down what a pass did. -/
theorem keeps_local (events : List CleanupEvent) (htables : s'.tables = s.tables)
    (hhistory : s'.history = s.history ++ events) (hevents : ∀ event ∈ events, event.OfPass)
    (hdestroyed : ∀ token key object, .destroyed token key object ∈ events →
      object = some token ∧ tokenOf key = some token ∧ Over s token)
    (hobjects : ∀ key object, s'.objects key = some object →
      s.objects key = some object ∨ ∃ token, object = some token ∧ tokenOf key = some token)
    (hpasses : ∀ stage ∈ s'.passes, stage ∈ s.passes ∨ StageInv tokenOf s' stage ∧
      ((∃ old ∈ s.passes, old.intent = stage.intent) ∨ stage.intent ∈ s.tables.intents)) :
    SystemInv tokenOf s' := by
  have hover : ∀ token, Over s token → Over s' token := fun token hover =>
    hover.ofPass (by rw [htables]) hhistory (fun _ hmem => hevents _ hmem)
      fun _ hmem => hevents _ hmem
  have hplan : ∀ stage ∈ s'.passes, ∀ intent ∈ s.tables.intents,
      intent.claimToken = stage.intent.claimToken →
        intent.destinationKeys = stage.intent.destinationKeys := by
    intro stage hstage intent hintent hkey
    rcases hpasses stage hstage with hold | ⟨-, ⟨old, hold, heq⟩ | hnew⟩
    · exact h.passes.plans stage hold intent hintent hkey
    · rw [← heq] at hkey ⊢
      exact h.passes.plans old hold intent hintent hkey
    · rw [Table.eq_of_key_eq h.tables.intentKeys hintent hnew hkey]
  refine ⟨h.tables.ofPass htables hhistory hevents, h.passes.keeps hover hhistory ?_ ?_ hobjects ?_
    fun stage hstage => ?_⟩
  · intro token key object hmem
    obtain ⟨hobject, htoken, hover'⟩ := hdestroyed token key object hmem
    exact ⟨hobject, htoken, hover token hover'⟩
  · exact fun token keys hmem => (hevents _ hmem).elim
  · rw [htables]
    exact hplan
  · rcases hpasses stage hstage with hold | ⟨hstage', ⟨old, hold, heq⟩ | hnew⟩
    · exact .inl hold
    · exact .inr ⟨heq ▸ hover _ (h.passes.finished old hold), hstage'⟩
    · exact .inr ⟨hover _ (h.tables.intents _ hnew), hstage'⟩

theorem keeps_promote {owner : String} (hd : tokenOf key = some owner) :
    SystemInv tokenOf (systemStep s (.promote key owner)) := by
  rw [systemStep]
  split
  · refine h.keeps_local [] rfl (List.append_nil _).symm (by simp) (by simp) ?_
      fun stage hstage => .inl hstage
    intro key' object hobject
    dsimp only at hobject
    by_cases hkey : key' = key
    · subst hkey
      rw [Function.update_self] at hobject
      exact .inr ⟨owner, (Option.some.inj hobject).symm, hd⟩
    · rw [Function.update_of_ne hkey] at hobject
      exact .inl hobject
  · exact h

theorem keeps_remove (key : String) : SystemInv tokenOf (systemStep s (.remove key)) := by
  refine h.keeps_local [] rfl (List.append_nil _).symm (by simp) (by simp) ?_
    fun stage hstage => .inl hstage
  intro key' object hobject
  dsimp only [systemStep] at hobject
  by_cases hkey : key' = key
  · subst hkey
    rw [Function.update_self] at hobject
    cases hobject
  · rw [Function.update_of_ne hkey] at hobject
    exact .inl hobject

theorem keeps_stop (position : ℕ) : SystemInv tokenOf (systemStep s (.stop position)) :=
  h.keeps_local [] rfl (List.append_nil _).symm (by simp) (by simp)
    (fun _ _ hobject => .inl hobject) fun _ hstage => .inl (List.mem_of_mem_eraseIdx hstage)

theorem keeps_startPass (now : ℤ) : SystemInv tokenOf (systemStep s (.startPass now)) := by
  refine h.keeps_local [] rfl (List.append_nil _).symm (by simp) (by simp)
    (fun _ _ hobject => .inl hobject) fun stage hstage => ?_
  rcases List.mem_append.mp hstage with hold | hnew
  · exact .inl hold
  · obtain ⟨intent, hhead, rfl⟩ := Option.map_eq_some_iff.mp (Option.mem_toList.mp hnew)
    have hdue := List.mem_of_head? hhead
    rw [dueIntents, List.mem_insertionSort] at hdue
    have hmem := (List.mem_filter.mp hdue).1
    refine .inr ?_
    split
    · rename_i keys hdecode
      obtain rfl := decode_eq_some hdecode
      exact ⟨⟨by simp, fun key hkey => .inl hkey⟩, .inr hmem⟩
    · exact ⟨fun hsucceeded => absurd hsucceeded (by simp), .inr hmem⟩

end

/-- A pass that moves on, with what it has found out. -/
theorem mem_set {position : ℕ} {old stage : PassStage} (new : PassStage)
    (hold : s.passes[position]? = some old) (heq : old.intent = new.intent)
    (hnew : StageInv tokenOf s' new)
    (hstage : stage ∈ s.passes.set position new) : stage ∈ s.passes ∨ StageInv tokenOf s' stage ∧
      ((∃ old ∈ s.passes, old.intent = stage.intent) ∨ stage.intent ∈ s.tables.intents) := by
  rcases List.mem_or_eq_of_mem_set hstage with hmem | rfl
  · exact .inl hmem
  · exact .inr ⟨hnew, .inl ⟨old, List.mem_of_getElem? hold, heq⟩⟩

theorem keeps_read (h : SystemInv tokenOf s) (position : ℕ) (answered : Bool) :
    SystemInv tokenOf (systemStep s (.read position answered)) := by
  rw [systemStep, DraftSystem.readObject]
  split
  · rename_i intent key unread owned hstage
    obtain ⟨howned, hkeys⟩ := h.passes.stages _ (List.mem_of_getElem? hstage)
    -- The key that was read goes where its object says; the others stay where they are.
    have hrest : ∀ key' ∈ intent.destinationKeys, key' = key ∨ key' ∈ unread ∨ key' ∈ owned ∨
        Verified s.history intent.claimToken key' := by
      intro key' hkey'
      rcases hkeys key' hkey' with hunread | hrest
      · exact (List.mem_cons.mp hunread).imp_right .inl
      · exact .inr (.inr hrest)
    have hmove : ∀ event, ∀ s₁ : DraftSystem, s₁.history = s.history ++ [event] →
        s₁.objects = s.objects → Verified s₁.history intent.claimToken key →
          StageInv tokenOf s₁ (.reading intent unread owned) := by
      intro event s₁ hhistory hobjects hverified
      refine ⟨fun key' hkey' => ⟨(howned key' hkey').1, hobjects ▸ (howned key' hkey').2⟩,
        fun key' hkey' => ?_⟩
      rcases hrest key' hkey' with rfl | hunread | hown | hold
      · exact .inr (.inr hverified)
      · exact .inl hunread
      · exact .inr (.inl hown)
      · exact .inr (.inr (hold.mono fun _ hmem => hhistory ▸ List.mem_append_left _ hmem))
    split
    · exact h.keeps_local [] rfl (List.append_nil _).symm (by simp) (by simp)
        (fun _ _ hobject => .inl hobject) fun stage hmem =>
          mem_set (.settling intent .failed) hstage rfl
            (fun hsucceeded => absurd hsucceeded (by simp)) hmem
    · split
      · refine h.keeps_local [.sawNone intent.claimToken key] rfl rfl
          (by simp [CleanupEvent.OfPass])
          (by simp) (fun _ _ hobject => .inl hobject) fun stage hmem =>
            mem_set (.reading intent unread owned) hstage rfl ?_ hmem
        exact hmove _ _ rfl rfl (.inl (List.mem_append_right _ (List.mem_singleton_self _)))
      · rename_i promotionOwner hobject
        split
        · rename_i hmine
          refine h.keeps_local [] rfl (List.append_nil _).symm (by simp) (by simp)
            (fun _ _ hobject => .inl hobject) fun stage hmem =>
              mem_set (.reading intent unread (owned ++ [key])) hstage rfl ?_ hmem
          refine ⟨fun key' hkey' => ?_, fun key' hkey' => ?_⟩
          · rcases List.mem_append.mp hkey' with hold | hnew
            · exact howned key' hold
            · obtain rfl := List.mem_singleton.mp hnew
              rw [hmine] at hobject
              refine ⟨h.passes.objects _ _ hobject, fun object hobject' => ?_⟩
              exact Option.some.inj (hobject'.symm.trans hobject)
          · rcases hrest key' hkey' with rfl | hunread | hown | hold
            · exact .inr (.inl (List.mem_append_right _ (List.mem_singleton_self _)))
            · exact .inl hunread
            · exact .inr (.inl (List.mem_append_left _ hown))
            · exact .inr (.inr hold)
        · refine h.keeps_local [.sawForeign intent.claimToken key] rfl rfl
            (by simp [CleanupEvent.OfPass]) (by simp) (fun _ _ hobject => .inl hobject)
            fun stage hmem => mem_set (.reading intent unread owned) hstage rfl ?_ hmem
          exact hmove _ _ rfl rfl
            (.inr (.inl (List.mem_append_right _ (List.mem_singleton_self _))))
  · exact h

/-- What a deletion of owned objects takes away. -/
theorem destroyed_owned (h : SystemInv tokenOf s) {owned : List String}
    (hstage : .reading intent [] owned ∈ s.passes) (keys : List String)
    (hkeys : ∀ key ∈ keys, key ∈ owned) (event : CleanupEvent)
    (hevent : event ∈ s.destroyedEvents intent.claimToken keys) :
    ∃ key, event = .destroyed intent.claimToken key (some intent.claimToken) ∧
      tokenOf key = some intent.claimToken := by
  obtain ⟨key, hkey, hevent⟩ := List.mem_filterMap.mp hevent
  obtain ⟨object, hobject, rfl⟩ := Option.map_eq_some_iff.mp hevent
  obtain ⟨htoken, hown⟩ := (h.passes.stages _ hstage).1 key (hkeys key hkey)
  exact ⟨key, by rw [hown object hobject], htoken⟩

theorem without_eq_some {keys : List String} {object : R2Object}
    (h : DraftSystem.without objects keys key = some object) : objects key = some object := by
  rw [DraftSystem.without] at h
  split at h
  · cases h
  · exact h

theorem keeps_delete (h : SystemInv tokenOf s) (position : ℕ) (outcome : DeletionOutcome) :
    SystemInv tokenOf (systemStep s (.delete position outcome)) := by
  rw [systemStep, DraftSystem.deleteObjects]
  split
  · rename_i intent owned hstage
    have hmem := List.mem_of_getElem? hstage
    obtain ⟨howned, hkeys⟩ := h.passes.stages _ hmem
    have hread : ∀ key ∈ intent.destinationKeys,
        key ∈ owned ∨ Verified s.history intent.claimToken key := by
      intro key hkey
      exact (hkeys key hkey).resolve_left List.not_mem_nil
    have hover := h.passes.finished _ hmem
    split
    · refine h.keeps_local [] rfl (List.append_nil _).symm (by simp) (by simp)
        (fun _ _ hobject => .inl hobject) fun stage hmem =>
          mem_set (.settling intent .succeeded) hstage rfl ?_ hmem
      exact fun _ key hkey => (hread key hkey).resolve_left List.not_mem_nil
    · have hevents : ∀ event ∈ s.destroyedEvents intent.claimToken owned ++
          owned.map (.cleared intent.claimToken),
          (∃ key, event = .destroyed intent.claimToken key (some intent.claimToken) ∧
            tokenOf key = some intent.claimToken) ∨
              ∃ key, event = .cleared intent.claimToken key := by
        intro event hevent
        rcases List.mem_append.mp hevent with hdestroyed | hcleared
        · exact .inl (h.destroyed_owned hmem owned (fun _ hkey => hkey) event hdestroyed)
        · obtain ⟨key, -, rfl⟩ := List.mem_map.mp hcleared
          exact .inr ⟨key, rfl⟩
      refine h.keeps_local (s.destroyedEvents intent.claimToken owned ++
        owned.map (.cleared intent.claimToken)) rfl (List.append_assoc ..) ?_ ?_
        (fun _ _ hobject => .inl (without_eq_some hobject))
        fun stage hmem => mem_set (.settling intent .succeeded) hstage rfl ?_ hmem
      · intro event hevent
        rcases hevents event hevent with ⟨key, rfl, -⟩ | ⟨key, rfl⟩ <;> trivial
      · intro token key object hevent
        rcases hevents _ hevent with ⟨key', heq, htoken⟩ | ⟨key', heq⟩
        · obtain ⟨rfl, rfl, rfl⟩ := CleanupEvent.destroyed.inj heq
          exact ⟨rfl, htoken, hover⟩
        · cases heq
      · intro _ key hkey
        rcases hread key hkey with hown | hold
        · exact .inr (.inr (List.mem_append_right _ (List.mem_map_of_mem hown)))
        · exact hold.mono fun _ hmem => List.mem_append_left _ (List.mem_append_left _ hmem)
    · rename_i applied _
      have hevents := h.destroyed_owned hmem (owned.filter fun key => decide (key ∈ applied))
        fun key hkey => (List.mem_filter.mp hkey).1
      refine h.keeps_local _ rfl rfl ?_ ?_
        (fun _ _ hobject => .inl (without_eq_some hobject))
        fun stage hmem =>
          mem_set (.settling intent .failed) hstage rfl
            (fun hsucceeded => absurd hsucceeded (by simp)) hmem
      · intro event hevent
        obtain ⟨key, rfl, -⟩ := hevents event hevent
        trivial
      · intro token key object hevent
        obtain ⟨key', heq, htoken⟩ := hevents _ hevent
        obtain ⟨rfl, rfl, rfl⟩ := CleanupEvent.destroyed.inj heq
        exact ⟨rfl, htoken, hover⟩
  · exact h

theorem keeps_settle (h : SystemInv tokenOf s) (position : ℕ) (completedAt : ℤ) :
    SystemInv tokenOf (systemStep s (.settle position completedAt)) := by
  rw [systemStep, DraftSystem.settle]
  split
  · rename_i intent verification hstage
    have hmem := List.mem_of_getElem? hstage
    obtain ⟨intents, heq⟩ :=
      settleIntent_eq (t := s.tables) intent.claimToken verification completedAt
    have hsettled : ∀ event ∈ settledEvents s.tables intent.claimToken verification completedAt,
        ∃ current ∈ s.tables.intents, current.claimToken = intent.claimToken ∧
          verification = .succeeded ∧
          event = .settled intent.claimToken current.destinationKeys := by
      intro event hevent
      obtain ⟨current, hcurrent, hdeletes, rfl⟩ := mem_settledEvents hevent
      obtain ⟨hcurrentMem, hkey⟩ := Table.lookup_eq_some hcurrent
      rw [deletesIntent, Bool.and_eq_true, Bool.and_eq_true] at hdeletes
      exact ⟨current, hcurrentMem, hkey, of_decide_eq_true hdeletes.1.2, rfl⟩
    refine ⟨h.tables.keeps_settle rfl rfl, h.passes.keeps (fun token hover => ?_) rfl ?_ ?_
      (fun _ _ hobject => .inl hobject) ?_ fun stage hstage =>
        .inl (List.mem_of_mem_eraseIdx hstage)⟩
    · refine hover.ofPass ?_ rfl ?_ ?_
      · dsimp only
        rw [heq]
      · intro token hevent
        obtain ⟨_, -, -, -, heq⟩ := hsettled _ hevent
        cases heq
      · intro token hevent
        obtain ⟨_, -, -, -, heq⟩ := hsettled _ hevent
        cases heq
    · intro token key object hevent
      obtain ⟨_, -, -, -, heq⟩ := hsettled _ hevent
      cases heq
    · intro token keys hevent key hkey
      obtain ⟨current, hcurrent, hsame, hsucceeded, heq⟩ := hsettled _ hevent
      cases heq
      rw [h.passes.plans _ hmem current hcurrent hsame] at hkey
      exact h.passes.stages _ hmem hsucceeded key hkey
    · intro stage hstage new hnew hkey
      obtain ⟨old, hold, holdkey, hplan⟩ := mem_settleIntent hnew
      rw [← hplan]
      exact h.passes.plans stage (List.mem_of_mem_eraseIdx hstage) old hold (holdkey.trans hkey)
  · exact h

/-- **Every step keeps the invariant**, when clients keep to their discipline. -/
theorem keeps (s : DraftSystem) (event : SystemEvent) (h : SystemInv tokenOf s)
    (hd : Disciplined tokenOf s event) : SystemInv tokenOf (systemStep s event) := by
  cases event with
  | call call => exact h.keeps_call hd
  | promote key owner => exact h.keeps_promote hd
  | remove key => exact h.keeps_remove key
  | startPass now => exact h.keeps_startPass now
  | read position answered => exact h.keeps_read position answered
  | delete position outcome => exact h.keeps_delete position outcome
  | settle position completedAt => exact h.keeps_settle position completedAt
  | stop position => exact h.keeps_stop position

/-- **An intent stays under its token and with its plan**, until a pass deletes it. -/
theorem intent_step (h : SystemInv tokenOf s) (hintent : intent ∈ s.tables.intents)
    (event : SystemEvent) :
    (∃ new ∈ (systemStep s event).tables.intents, new.claimToken = intent.claimToken ∧
      new.destinationKeys = intent.destinationKeys) ∨
    .settled intent.claimToken intent.destinationKeys ∈ (systemStep s event).history := by
  have hsame : (systemStep s event).tables = s.tables →
      ∃ new ∈ (systemStep s event).tables.intents, new.claimToken = intent.claimToken ∧
        new.destinationKeys = intent.destinationKeys := by
    intro htables
    exact ⟨intent, htables ▸ hintent, rfl, rfl⟩
  cases event with
  | call call =>
      obtain ⟨ended, hending⟩ := ending_step h.tables.draft h.tables.noPlan call
      exact .inl (h.tables.intent_call hending hintent)
  | promote key owner =>
      refine .inl (hsame ?_)
      rw [systemStep]
      split <;> rfl
  | remove key => exact .inl (hsame rfl)
  | startPass now => exact .inl (hsame rfl)
  | read position answered =>
      refine .inl (hsame ?_)
      rw [systemStep, DraftSystem.readObject]
      repeat' split
      all_goals rfl
  | delete position outcome =>
      refine .inl (hsame ?_)
      rw [systemStep, DraftSystem.deleteObjects]
      repeat' split
      all_goals rfl
  | settle position completedAt =>
      rw [systemStep, DraftSystem.settle]
      split
      · rename_i stageIntent verification hstage
        rcases intent_settleIntent stageIntent.claimToken verification completedAt
          h.tables.intentKeys hintent with hkept | hdeleted
        · exact .inl hkept
        · exact .inr (List.mem_append_right _ hdeleted)
      · exact .inl ⟨intent, hintent, rfl, rfl⟩
  | stop position => exact .inl (hsame rfl)

/-- What a pass deleted is of no committed save. -/
theorem kept_of_committed (h : SystemInv tokenOf s)
    (hkey : ∀ token, tokenOf key = some token → .committed token ∈ s.history) (token : String)
    (object : R2Object) : .destroyed token key object ∉ s.history := by
  intro hdestroyed
  obtain ⟨-, htoken, hover⟩ := h.passes.destroyed token key object hdestroyed
  exact hover.uncommitted (hkey token htoken)

end SystemInv

/-! ### Runs -/

/-- A mailbox without saves, in which no key that is named is made from a token, and every promoted
object is at a key of its owner. -/
structure Starts (tokenOf : String → Option String) (emails : List EmailRow)
    (attachments : List AttachmentRow) (objects : Objects) : Prop where
  ids : (emails.map EmailRow.id).Nodup
  attachments : ∀ row ∈ attachments, tokenOf (storedAttachmentKey row) = none
  objects : ∀ key token, objects key = some (some token) → tokenOf key = some token

/-- The system after some steps. -/
def systemRun (emails : List EmailRow) (attachments : List AttachmentRow)
    (bodyObjectKeys : List String) (objects : Objects) (events : List SystemEvent) : DraftSystem :=
  run systemStep (.init emails attachments bodyObjectKeys objects) events

theorem systemInv_init (hstart : Starts tokenOf emails attachments objects)
    (bodyObjectKeys : List String) :
    SystemInv tokenOf (.init emails attachments bodyObjectKeys objects) where
  tables := {
    draft := draftInv_init hstart.ids attachments bodyObjectKeys
    fresh := List.nodup_nil
    tokens := ⟨nofun, fun _ hrow =>
      absurd hrow List.not_mem_nil⟩
    owned := nofun
    intentKeys := List.nodup_nil
    intents := nofun
    committed := nofun
    named := fun row hrow token htoken => by
      rw [hstart.attachments row hrow] at htoken
      cases htoken
    handed := nofun
    covered := fun _ _ hlast => by cases hlast }
  passes := {
    finished := nofun
    plans := nofun
    stages := nofun
    objects := hstart.objects
    destroyed := fun _ _ _ hmem => absurd hmem List.not_mem_nil
    settled := fun before token keys after heq => by cases before <;> cases heq }

/-- **The invariant holds in every run.** -/
theorem systemInv_run {bodyObjectKeys : List String}
    (hstart : Starts tokenOf emails attachments objects) {events : List SystemEvent}
    (halong : Along systemStep (Disciplined tokenOf)
      (.init emails attachments bodyObjectKeys objects) events) :
    SystemInv tokenOf (systemRun emails attachments bodyObjectKeys objects events) :=
  run_invariant_of_along SystemInv.keeps (systemInv_init hstart bodyObjectKeys) events halong

/-- **Promoted objects are owned or cleaned.** In every state that is reached: the keys recorded
last for a claim belong to the claim that stands, or are named by the save that was committed, or
are the plan of an intent, unless a pass has deleted the intent. An intent keeps its plan until
then, and when it was deleted each of its keys had been seen without an object or with one of
another owner, or had been cleared. What a pass deleted belonged to the token of its intent, and the
save of this token is not committed. And no pass deleted an object that an attachment names now, or
named when its draft was consumed. -/
theorem draft_objects_owned_or_cleaned (emails : List EmailRow) (attachments : List AttachmentRow)
    (bodyObjectKeys : List String) (objects : Objects)
    (hstart : Starts tokenOf emails attachments objects) (events : List SystemEvent)
    (halong : Along systemStep (Disciplined tokenOf)
      (.init emails attachments bodyObjectKeys objects) events) (s : DraftSystem)
    (hs : s = systemRun emails attachments bodyObjectKeys objects events) :
    (∀ token keys, lastRecord token s.history = some keys → keys ≠ [] → Covered s token keys) ∧
    (∀ intent ∈ s.tables.intents, ∀ event,
      (∃ new ∈ (systemStep s event).tables.intents, new.claimToken = intent.claimToken ∧
        new.destinationKeys = intent.destinationKeys) ∨
      .settled intent.claimToken intent.destinationKeys ∈ (systemStep s event).history) ∧
    (∀ before token keys after, s.history = before ++ .settled token keys :: after →
      ∀ key ∈ keys, Verified before token key) ∧
    (∀ token key object, .destroyed token key object ∈ s.history →
      object = some token ∧ .committed token ∉ s.history) ∧
    (∀ row ∈ s.tables.attachments, ∀ token object,
      .destroyed token (storedAttachmentKey row) object ∉ s.history) ∧
    ∀ keys, .handedOver keys ∈ s.history → ∀ key ∈ keys, ∀ token object,
      .destroyed token key object ∉ s.history := by
  subst hs
  have hinv := systemInv_run hstart halong
  refine ⟨hinv.tables.covered, fun intent hintent event => hinv.intent_step hintent event,
    hinv.passes.settled, fun token key object hdestroyed => ?_, fun row hrow => ?_,
    fun keys hkeys key hkey => ?_⟩
  · obtain ⟨hobject, -, hover⟩ := hinv.passes.destroyed token key object hdestroyed
    exact ⟨hobject, hover.uncommitted⟩
  · exact hinv.kept_of_committed (hinv.tables.named row hrow)
  · exact hinv.kept_of_committed (hinv.tables.handed keys hkeys key hkey)

/-! ### A run that cleans up, and runs that break the discipline -/

def copyKey : String := "attachments/draft-1/copy-1/a.txt"

def copyTokenOf (key : String) : Option String := if key = copyKey then some "token-1" else none

/-- A save is claimed, and its copy recorded and written. -/
def copyEvents : List SystemEvent :=
  [.call (.claim ⟨"key-1", "print-1", "draft-1", 0, "token-1", 300000⟩ 0),
    .call (.record "key-1" "print-1" "token-1" [copyKey] 1), .promote copyKey "token-1"]

/-- The save is given up, and a pass cleans up after a month. -/
def cleanedEvents : List SystemEvent :=
  copyEvents ++ [.call (.abort "key-1" "print-1" "token-1" 2), .startPass 2, .read 0 true,
    .delete 0 .deleted, .settle 0 2592000002]

def copyRun (events : List SystemEvent) : DraftSystem := systemRun [] [] [] (fun _ => none) events

theorem disciplined_cleanedEvents : Along systemStep (Disciplined copyTokenOf)
    (.init [] [] [] fun _ => none) cleanedEvents := by
  simp only [cleanedEvents, copyEvents, List.cons_append, List.nil_append, along_cons]
  refine ⟨?_, trivial, ?_, trivial, trivial, trivial, trivial, trivial, along_nil⟩
  · exact List.not_mem_nil
  · exact if_pos rfl

/-- The intent is deleted after the copy was cleared. -/
theorem draft_objects_owned_or_cleaned_sample :
    ∃ before after, (copyRun cleanedEvents).history =
        before ++ .settled "token-1" [copyKey] :: after ∧ Verified before "token-1" copyKey := by
  have h := draft_objects_owned_or_cleaned [] [] [] (fun _ => none)
    ⟨List.nodup_nil, nofun, fun _ _ hobject => by
      cases hobject⟩ cleanedEvents disciplined_cleanedEvents _ rfl
  have hhistory : (copyRun cleanedEvents).history =
      [.drawn "token-1", .recorded "token-1" [copyKey],
        .destroyed "token-1" copyKey (some "token-1"), .cleared "token-1" copyKey] ++
      .settled "token-1" [copyKey] :: [] := by
    decide +kernel
  exact ⟨_, _, hhistory, h.2.2.1 _ _ _ _ hhistory copyKey (List.mem_singleton_self _)⟩

/-- The claim records another key: the first is forgotten. -/
def forgottenEvents : List SystemEvent :=
  copyEvents ++ [.call (.record "key-1" "print-1" "token-1" ["attachments/draft-1/copy-2/b.txt"] 2),
    .call (.abort "key-1" "print-1" "token-1" 3)]

def copyWrite (saveKey saveFingerprint saveClaimToken : Option String)
    (attachments : List AttachmentRow) : SystemEvent :=
  .call (.upsert ⟨"draft-1", none, none, none,
    ⟨"Hello", "a@b.c", "d@e.f", none, none, "Hi", none, "draft-1"⟩, saveKey, saveFingerprint,
    saveClaimToken, []⟩ attachments 2)

/-- The save is committed without an attachment. -/
def unnamedEvents : List SystemEvent :=
  copyEvents ++ [copyWrite (some "key-1") (some "print-1") (some "token-1") []]

def copyRow : AttachmentRow :=
  ⟨"copy-1", "draft-1", "a.txt", "text/plain", 1, none, none, some copyKey⟩

/-- The save is given up, and a write without a claim names its key. -/
def namedEvents : List SystemEvent :=
  copyEvents ++ [.call (.abort "key-1" "print-1" "token-1" 2), copyWrite none none none [copyRow],
    .startPass 2, .read 0 true, .delete 0 .deleted]

/-- The object is replaced by one of another owner after a pass has read it. -/
def replacedEvents : List SystemEvent :=
  copyEvents ++ [.call (.abort "key-1" "print-1" "token-1" 2), .startPass 2, .read 0 true,
    .remove copyKey, .promote copyKey "token-2", .delete 0 .deleted]

/-- **Objects are lost without the discipline.** A recorded key is forgotten when the claim records
others, and when the commit does not name it: no claim stands, no attachment names it, and no intent
has it. A pass deletes an object that a draft names when a write names a key of another claim. And a
pass deletes an object of another owner when two claims write to one key. -/
theorem draft_object_lost :
    (∀ events ∈ [forgottenEvents, unnamedEvents],
      .recorded "token-1" [copyKey] ∈ (copyRun events).history ∧
        (∀ row ∈ (copyRun events).tables.saves, row.state ≠ .claimed) ∧
        (copyRun events).tables.attachments = [] ∧
        ∀ intent ∈ (copyRun events).tables.intents, copyKey ∉ intent.destinationKeys) ∧
      copyRow ∈ (copyRun namedEvents).tables.attachments ∧
      .destroyed "token-1" copyKey (some "token-1") ∈ (copyRun namedEvents).history ∧
      .destroyed "token-1" copyKey (some "token-2") ∈ (copyRun replacedEvents).history := by
  decide +kernel

end MailPortal.Drafts
