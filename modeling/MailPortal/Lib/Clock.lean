import Mathlib.Tactic.Ring

/-!
# Local Clocks

A time zone says at each instant how far the local clock is ahead of the universal one, in
milliseconds. The offset is less than a day and jumps by two hours at most, no two jumps are within
a week, and the clock may go back only so far that the instants of each local date stay an interval.

Near a local midnight there is at most one jump, so that the clock has one of two offsets there. The
midnight is searched by going on from a guess to the instant that would be midnight with the offset
at the guess.

Main results:

* `Zone.window`: between any two instants within a week there is one jump or none.
* `Zone.date_mono`: local dates do not go back.
* `search_begins_iff`: the search finds where a date begins exactly when its midnight exists and the
  clock does not go back to it with an offset that is not negative.
-/

namespace Clock

variable {t s guess : ℤ}
variable {lo hi start stop : ℤ}

def DAY : ℤ := 86400000

def WEEK : ℤ := 604800000

/-- The longest jump, two hours. -/
def JUMP : ℤ := 7200000

/-- The offset of a zone at each instant. -/
structure Zone where
  offset : ℤ → ℤ
  seconds : ∀ t, 1000 ∣ offset t
  bounded : ∀ t, -DAY < offset t ∧ offset t < DAY
  jumps : ∀ t, -JUMP ≤ offset t - offset (t - 1) ∧ offset t - offset (t - 1) ≤ JUMP
  apart : ∀ s t, s < t → offset s ≠ offset (s - 1) → offset t ≠ offset (t - 1) → s + WEEK ≤ t
  interval : ∀ s t u, s ≤ t → t ≤ u → (s + offset s) / DAY = (u + offset u) / DAY →
    (t + offset t) / DAY = (s + offset s) / DAY

namespace Zone

variable (z : Zone)

/-- What the local clock shows, as if it were the universal one. -/
def wall (t : ℤ) : ℤ := t + z.offset t

/-- The local date, as a number of days. -/
def date (t : ℤ) : ℤ := z.wall t / DAY

/-! ### One jump -/

/-- Without jumps the offset stays. -/
theorem offset_eq (h : ∀ t, lo < t → t ≤ hi → z.offset t = z.offset (t - 1)) (hlo : lo ≤ t)
    (hhi : t ≤ hi) : z.offset t = z.offset lo := by
  induction t, hlo using Int.leInduction with
  | base => rfl
  | succ t hlo ih =>
    have hstep := h (t + 1) (by omega) hhi
    rw [hstep, Int.add_sub_cancel, ih (by omega)]

/-- **Between instants within a week** the offset jumps once, or not at all. -/
theorem window (h : hi < lo + WEEK) :
    ∃ jump before after, (-DAY < before ∧ before < DAY) ∧ (-DAY < after ∧ after < DAY) ∧
      (-JUMP ≤ after - before ∧ after - before ≤ JUMP) ∧
      ∀ t, lo ≤ t → t ≤ hi → z.offset t = if t < jump then before else after := by
  by_cases hjump : ∃ jump, lo < jump ∧ jump ≤ hi ∧ z.offset jump ≠ z.offset (jump - 1)
  · obtain ⟨jump, hlo, hhi, hne⟩ := hjump
    refine ⟨jump, z.offset (jump - 1), z.offset jump, z.bounded _, z.bounded _, z.jumps jump,
      fun t htlo hthi => ?_⟩
    have hnone : ∀ s, lo < s → s ≤ hi → s ≠ jump → z.offset s = z.offset (s - 1) := by
      intro s hslo hshi hs
      by_contra hother
      rcases Int.lt_or_gt_of_ne hs with hlt | hgt
      · have := z.apart s jump hlt hother hne
        omega
      · have := z.apart jump s hgt hne hother
        omega
    split
    · rename_i hlt
      have hbefore := fun s (hs : lo < s) (hs' : s ≤ jump - 1) =>
        hnone s hs (by omega) (by omega)
      rw [z.offset_eq hbefore htlo (by omega), z.offset_eq hbefore (by omega) (Int.le_refl _)]
    · rename_i hge
      exact z.offset_eq (fun s hs hs' => hnone s (by omega) hs' (by omega)) (by omega) hthi
  · have hnone : ∀ s, lo < s → s ≤ hi → z.offset s = z.offset (s - 1) := by
      intro s hslo hshi
      by_contra hne
      exact hjump ⟨s, hslo, hshi, hne⟩
    refine ⟨lo, z.offset lo, z.offset lo, z.bounded lo, z.bounded lo, ?_, fun t htlo hthi => ?_⟩
    · unfold JUMP
      omega
    · rw [z.offset_eq hnone htlo hthi, if_neg (by omega)]

/-- Within a week the offset changes by one jump at most. -/
theorem offset_near (hst : s ≤ t) (hweek : t < s + WEEK) :
    -JUMP ≤ z.offset t - z.offset s ∧ z.offset t - z.offset s ≤ JUMP := by
  obtain ⟨jump, before, after, -, -, hjump, hoffset⟩ := z.window hweek
  have hs := hoffset s (Int.le_refl s) hst
  have ht := hoffset t hst (Int.le_refl t)
  rw [hs, ht]
  unfold JUMP at *
  split <;> split <;> omega

/-! ### Dates -/

theorem date_succ_le (t : ℤ) : z.date (t + 1) ≤ z.date t + 1 := by
  obtain ⟨-, hjump⟩ := z.jumps (t + 1)
  rw [Int.add_sub_cancel] at hjump
  unfold date wall DAY JUMP at *
  omega

/-- A date that comes later is passed on the way. -/
theorem exists_date {d : ℤ} (hst : s ≤ t) (hs : z.date s ≤ d) (ht : d ≤ z.date t) :
    ∃ u, s ≤ u ∧ u ≤ t ∧ z.date u = d := by
  induction t, hst using Int.leInduction with
  | base => exact ⟨s, Int.le_refl s, Int.le_refl s, by omega⟩
  | succ t hst ih =>
    by_cases hd : d ≤ z.date t
    · obtain ⟨u, hsu, hut, hu⟩ := ih hd
      exact ⟨u, hsu, by omega, hu⟩
    · have hstep := z.date_succ_le t
      exact ⟨t + 1, by omega, Int.le_refl _, by omega⟩

/-- **Local dates do not go back.** -/
theorem date_mono (h : s ≤ t) : z.date s ≤ z.date t := by
  by_contra hback
  have hbound : z.date s ≤ z.date (t + (z.date s - z.date t + 2) * DAY) := by
    obtain ⟨hlow, -⟩ := z.bounded (t + (z.date s - z.date t + 2) * DAY)
    obtain ⟨-, hhigh⟩ := z.bounded t
    unfold date wall DAY at *
    omega
  have hlater : t ≤ t + (z.date s - z.date t + 2) * DAY := by
    unfold DAY
    omega
  obtain ⟨u, htu, -, hu⟩ := z.exists_date hlater (by omega) hbound
  have hsame := z.interval s t u h htu (by unfold date wall at hu; exact hu.symm)
  unfold date wall at hback
  omega

/-- The instants from which on it is a date or a later one. -/
def Begins (d t : ℤ) : Prop := ∀ s, d ≤ z.date s ↔ t ≤ s

variable {z}

theorem Begins.unique {d : ℤ} (hs : z.Begins d s) (ht : z.Begins d t) : s = t := by
  have hst := (hs t).mp ((ht t).mpr (Int.le_refl t))
  have hts := (ht s).mp ((hs s).mpr (Int.le_refl s))
  omega

/-- A date is the instants from where it begins to where the next one does. -/
theorem date_eq_iff {d : ℤ} (hstart : z.Begins d start) (hstop : z.Begins (d + 1) stop) (t : ℤ) :
    z.date t = d ↔ start ≤ t ∧ t < stop := by
  rw [← hstart t]
  have hnext := hstop t
  omega

/-- A date begins at an instant when the one before has an earlier date. -/
theorem begins_of {d : ℤ} (ht : z.date t = d) (hbefore : z.date (t - 1) < d) : z.Begins d t := by
  intro s
  constructor
  · intro hs
    by_contra hlt
    have := z.date_mono (show s ≤ t - 1 by omega)
    omega
  · intro hs
    have := z.date_mono hs
    omega

/-- Where a date and the next begin, when the instants of the date are known. -/
theorem begins_of_date {d now : ℤ} (hnow : z.date now = d) (hstart : start ≤ now)
    (hstop : now < stop) (hall : ∀ t, z.date t = d ↔ start ≤ t ∧ t < stop) :
    z.Begins d start ∧ z.Begins (d + 1) stop := by
  have hfirst := (hall start).mpr ⟨Int.le_refl start, by omega⟩
  refine ⟨fun s => ?_, fun s => ?_⟩
  · have hs := hall s
    by_cases hle : start ≤ s
    · have := z.date_mono hle
      omega
    · have := z.date_mono (show s ≤ start by omega)
      omega
  · have hs := hall s
    by_cases hle : now ≤ s
    · have := z.date_mono hle
      omega
    · have := z.date_mono (show s ≤ now by omega)
      omega

/-- **A midnight that the search can be trusted with.** It exists, and where the clock goes back to
it, the offset is negative from then on. -/
def SoundMidnight (z : Zone) (d : ℤ) : Prop :=
  (∃ t, z.wall t = d * DAY) ∧
    ∀ s t, s < t → z.wall s = d * DAY → z.wall t = d * DAY → z.offset t < 0

end Zone

/-! ### The search -/

/-- Correct a guess by what the clock is off there, for a number of times. -/
def search (z : Zone) (target : ℤ) : ℕ → ℤ → Option ℤ
  | 0, guess => if z.wall guess = target then some guess else none
  | n + 1, guess =>
    if z.wall guess = target then some guess
    else search z target n (guess + (target - z.wall guess))

theorem search_wall {z : Zone} {target : ℤ} {n : ℕ} (h : search z target n guess = some t) :
    z.wall t = target := by
  induction n generalizing guess with
  | zero =>
    rw [search] at h
    split at h
    · cases h
      assumption
    · cases h
  | succ n ih =>
    rw [search] at h
    split at h
    · cases h
      assumption
    · exact ih h

theorem search_of_wall {z : Zone} {target : ℤ} (h : z.wall guess = target) (n : ℕ) :
    search z target n guess = some guess := by
  cases n with
  | zero => rw [search, if_pos h]
  | succ n => rw [search, if_pos h]

/-- Without an instant that shows the target the search finds none. -/
theorem search_none {z : Zone} {target : ℤ} (hnone : ∀ t, z.wall t ≠ target) (n : ℕ) (guess : ℤ) :
    search z target n guess = none := by
  cases hfound : search z target n guess with
  | none => rfl
  | some t => exact absurd (search_wall hfound) (hnone t)

/-- The offsets within a day of a target: one before a jump and one from then on. -/
structure Near (z : Zone) (target jump before after : ℤ) : Prop where
  before_lt : -DAY < before ∧ before < DAY
  after_lt : -DAY < after ∧ after < DAY
  jump_le : -JUMP ≤ after - before ∧ after - before ≤ JUMP
  offset : ∀ t, target - DAY ≤ t → t ≤ target + DAY →
    z.offset t = if t < jump then before else after

theorem exists_near (z : Zone) (target : ℤ) : ∃ jump before after,
    Near z target jump before after := by
  have hweek : target + DAY < target - DAY + WEEK := by
    unfold DAY WEEK
    omega
  obtain ⟨jump, before, after, hbefore, hafter, hjump, hoffset⟩ := z.window hweek
  exact ⟨jump, before, after, hbefore, hafter, hjump, hoffset⟩

namespace Near

variable {z : Zone} {target jump before after : ℤ} (h : Near z target jump before after)

include h

/-- At most two instants have the target on the clock, one before the jump and one after. -/
theorem wall_eq_iff (t : ℤ) : z.wall t = target ↔
    t = target - before ∧ t < jump ∨ t = target - after ∧ jump ≤ t := by
  have hbefore := h.before_lt
  have hafter := h.after_lt
  constructor
  · intro ht
    have hbound := z.bounded t
    have hoffset := h.offset t (by unfold Zone.wall at ht; omega) (by unfold Zone.wall at ht; omega)
    unfold Zone.wall at ht
    split at hoffset <;> omega
  · rintro (⟨heq, hlt⟩ | ⟨heq, hge⟩)
    · have hoffset := h.offset t (by omega) (by omega)
      rw [if_pos hlt] at hoffset
      unfold Zone.wall
      omega
    · have hoffset := h.offset t (by omega) (by omega)
      rw [if_neg (by omega)] at hoffset
      unfold Zone.wall
      omega

/-- A correction leads to what is the target with the offset at the guess. -/
theorem search_step (hlow : target - DAY ≤ guess) (hhigh : guess ≤ target + DAY) (n : ℕ) :
    search z target (n + 1) guess =
      search z target n (if guess < jump then target - before else target - after) := by
  have hoffset := h.offset guess hlow hhigh
  have hnext : guess + (target - z.wall guess) =
      if guess < jump then target - before else target - after := by
    unfold Zone.wall
    split at hoffset <;> omega
  by_cases hwall : z.wall guess = target
  · have hsame : guess = if guess < jump then target - before else target - after := by omega
    rw [search_of_wall hwall, ← hsame, search_of_wall hwall]
  · rw [search, if_neg hwall, hnext]

/-- **What the search finds** from the target on: the offset at the target is tried first. -/
theorem search_eq (n : ℕ) : search z target (n + 2) target =
    if target < jump then
      if target - before < jump then some (target - before)
      else if jump ≤ target - after then some (target - after) else none
    else
      if jump ≤ target - after then some (target - after)
      else if target - before < jump then some (target - before) else none := by
  have hbefore := h.before_lt
  have hafter := h.after_lt
  have hfirst : ∀ m, target - before < jump →
      search z target m (target - before) = some (target - before) := fun m hlt =>
    search_of_wall ((h.wall_eq_iff _).mpr (.inl ⟨rfl, hlt⟩)) m
  have hsecond : ∀ m, jump ≤ target - after →
      search z target m (target - after) = some (target - after) := fun m hge =>
    search_of_wall ((h.wall_eq_iff _).mpr (.inr ⟨rfl, hge⟩)) m
  have hnone : ¬target - before < jump → ¬jump ≤ target - after →
      ∀ m g, search z target m g = none := by
    intro hb ha m g
    refine search_none (fun t ht => ?_) m g
    rcases (h.wall_eq_iff t).mp ht with ⟨rfl, hlt⟩ | ⟨rfl, hge⟩
    · exact hb hlt
    · exact ha hge
  rw [h.search_step (by unfold DAY; omega) (by unfold DAY; omega)]
  by_cases htarget : target < jump
  · rw [if_pos htarget, if_pos htarget]
    by_cases hb : target - before < jump
    · rw [if_pos hb, hfirst _ hb]
    · rw [if_neg hb, h.search_step (by omega) (by omega), if_neg hb]
      by_cases ha : jump ≤ target - after
      · rw [if_pos ha, hsecond _ ha]
      · rw [if_neg ha, hnone hb ha]
  · rw [if_neg htarget, if_neg htarget]
    by_cases ha : jump ≤ target - after
    · rw [if_pos ha, hsecond _ ha]
    · rw [if_neg ha, h.search_step (by omega) (by omega), if_pos (by omega)]
      by_cases hb : target - before < jump
      · rw [if_pos hb, hfirst _ hb]
      · rw [if_neg hb, hnone hb ha]

end Near

/-! ### Where a date begins -/

namespace Near

variable {z : Zone} {d jump before after : ℤ} (h : Near z (d * DAY) jump before after)

include h

/-- Before the jump a date begins at its midnight. -/
theorem begins_before (hlt : d * DAY - before < jump) : z.Begins d (d * DAY - before) := by
  have hbefore := h.before_lt
  have hwall := (h.wall_eq_iff _).mpr (.inl ⟨rfl, hlt⟩)
  have hoffset := h.offset (d * DAY - before - 1) (by omega) (by omega)
  rw [if_pos (by omega)] at hoffset
  refine Zone.begins_of ?_ ?_
  · unfold Zone.date
    rw [hwall]
    unfold DAY
    omega
  · unfold Zone.date Zone.wall
    rw [hoffset]
    unfold DAY
    omega

/-- From the jump on it does when there was no midnight before. -/
theorem begins_after (hge : jump ≤ d * DAY - after) (hno : ¬d * DAY - before < jump) :
    z.Begins d (d * DAY - after) := by
  have hafter := h.after_lt
  have hwall := (h.wall_eq_iff _).mpr (.inr ⟨rfl, hge⟩)
  have hoffset := h.offset (d * DAY - after - 1) (by omega) (by omega)
  refine Zone.begins_of ?_ ?_
  · unfold Zone.date
    rw [hwall]
    unfold DAY
    omega
  · unfold Zone.date Zone.wall
    rw [hoffset]
    split <;> (unfold DAY at *; omega)

/-- A clock that goes back over a midnight goes back to it. -/
theorem jump_eq (hlt : d * DAY - before < jump) (hge : jump ≤ d * DAY - after) :
    jump = d * DAY - after := by
  have hbefore := h.before_lt
  have hafter := h.after_lt
  have hdate := (h.begins_before hlt jump).mpr (Int.le_of_lt hlt)
  have hoffset := h.offset jump (by omega) (by omega)
  rw [if_neg (by omega)] at hoffset
  unfold Zone.date Zone.wall at hdate
  rw [hoffset] at hdate
  unfold DAY at *
  omega

theorem soundMidnight_iff : z.SoundMidnight d ↔
    (d * DAY - before < jump ∨ jump ≤ d * DAY - after) ∧
      (d * DAY - before < jump → jump ≤ d * DAY - after → after < 0) := by
  have hafter := h.after_lt
  constructor
  · rintro ⟨⟨t, ht⟩, htwice⟩
    refine ⟨?_, fun hlt hge => ?_⟩
    · rcases (h.wall_eq_iff t).mp ht with ⟨rfl, hlt⟩ | ⟨rfl, hge⟩
      · exact .inl hlt
      · exact .inr hge
    · have hsecond := (h.wall_eq_iff _).mpr (.inr ⟨rfl, hge⟩)
      have hneg := htwice _ _ (by omega) ((h.wall_eq_iff _).mpr (.inl ⟨rfl, hlt⟩)) hsecond
      unfold Zone.wall at hsecond
      omega
  · rintro ⟨hexists, htwice⟩
    refine ⟨?_, fun s t hst hs ht => ?_⟩
    · rcases hexists with hlt | hge
      · exact ⟨_, (h.wall_eq_iff _).mpr (.inl ⟨rfl, hlt⟩)⟩
      · exact ⟨_, (h.wall_eq_iff _).mpr (.inr ⟨rfl, hge⟩)⟩
    · have hs' := (h.wall_eq_iff s).mp hs
      have ht' := (h.wall_eq_iff t).mp ht
      unfold Zone.wall at ht
      omega

end Near

/-- **The search finds where a date begins** exactly when its midnight is sound. -/
theorem search_begins_iff (z : Zone) (d : ℤ) (n : ℕ) :
    (∃ t, search z (d * DAY) (n + 2) (d * DAY) = some t ∧ z.Begins d t) ↔ z.SoundMidnight d := by
  obtain ⟨jump, before, after, h⟩ := exists_near z (d * DAY)
  rw [h.soundMidnight_iff, h.search_eq n]
  by_cases hlt : d * DAY - before < jump
  · have hbegins := h.begins_before hlt
    by_cases hge : jump ≤ d * DAY - after
    · have hjump := h.jump_eq hlt hge
      -- both midnights exist, and the first is found when the target comes before the second
      by_cases hneg : after < 0
      · rw [if_pos (by omega), if_pos hlt]
        exact ⟨fun _ => ⟨.inl hlt, fun _ _ => hneg⟩, fun _ => ⟨_, rfl, hbegins⟩⟩
      · rw [if_neg (by omega), if_pos hge]
        refine ⟨?_, fun hsound => absurd (hsound.2 hlt hge) hneg⟩
        rintro ⟨t, ht, hother⟩
        cases ht
        have hsame := hbegins.unique hother
        omega
    · simp only [if_pos hlt, if_neg hge, ite_self]
      exact ⟨fun _ => ⟨.inl hlt, fun _ hge' => absurd hge' hge⟩, fun _ => ⟨_, rfl, hbegins⟩⟩
  · by_cases hge : jump ≤ d * DAY - after
    · simp only [if_neg hlt, if_pos hge, ite_self]
      exact ⟨fun _ => ⟨.inr hge, fun hlt' => absurd hlt' hlt⟩,
        fun _ => ⟨_, rfl, h.begins_after hge hlt⟩⟩
    · simp [hlt, hge]

end Clock
