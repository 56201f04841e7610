import MailPortal.Lib.Loop
import Mathlib.Data.List.Perm.Subperm
import Mathlib.Data.List.Range

/-!
# Walks along Links

Links lead from places to places. A walk follows them up to an end and does not enter a place twice,
so that it ends wherever the links lead.

Main results:

* `walk_ok` : the places of a walk are distinct and lead to the end.
* `walk_error` : a walk among finitely many places ends with an error of its visits only.
-/

namespace Walk

open Failure Loop

variable {place bound : ℕ} {seen : List ℕ}

/-- The places that lead from one place to another. -/
def Leads (next : ℕ → Option ℕ) : ℕ → List ℕ → ℕ → Prop
  | start, [], stop => start = stop
  | start, place :: path, stop => place = start ∧ ∃ n, next start = some n ∧ Leads next n path stop

theorem Leads.concat {next : ℕ → Option ℕ} {start n : ℕ} {path : List ℕ}
    (h : Leads next start path place) (hnext : next place = some n) :
    Leads next start (path ++ [place]) n := by
  induction path generalizing start with
  | nil => exact ⟨h.symm, n, h.symm ▸ hnext, rfl⟩
  | cons first path ih =>
    obtain ⟨rfl, m, hm, hrest⟩ := h
    exact ⟨rfl, m, hm, ih hrest⟩

/-- Distinct places below a bound. -/
theorem length_le (hnodup : seen.Nodup) (hlt : ∀ n ∈ seen, n < bound) : seen.length ≤ bound := by
  have hsub := (hnodup.subperm fun n hn => List.mem_range.mpr (hlt n hn)).length_le
  rwa [List.length_range] at hsub

variable {ε β : Type}

/-- What was picked up, the places seen and the place that is next. -/
structure State (β : Type) where
  pieces : List β
  seen : List ℕ
  place : ℕ

/-- A visit is given the places seen and a place, and finds a piece and the next place. -/
def pass (visit : List ℕ → ℕ → Except ε (β × ℕ)) (s : State β) : Except ε (State β) := do
  let (piece, next) ← visit s.seen s.place
  return ⟨s.pieces ++ [piece], s.seen ++ [s.place], next⟩

def walk (stuck : ε) (stop : ℕ) (visit : List ℕ → ℕ → Except ε (β × ℕ)) :
    ℕ → State β → Except ε (State β) :=
  whileLoop stuck (fun s => s.place ≠ stop) (pass visit)

/-- A visit enters a new and valid place, and follows its link. -/
def Guarded (visit : List ℕ → ℕ → Except ε (β × ℕ)) (Valid : ℕ → Prop) (next : ℕ → Option ℕ)
    (pieceAt : ℕ → β) : Prop :=
  ∀ {seen place piece n}, visit seen place = .ok (piece, n) →
    place ∉ seen ∧ Valid place ∧ next place = some n ∧ piece = pieceAt place

section Walk

variable {stuck : ε} {stop start passes : ℕ} {visit : List ℕ → ℕ → Except ε (β × ℕ)}
  {Valid : ℕ → Prop} {next : ℕ → Option ℕ} {pieceAt : ℕ → β}

theorem pass_eq_ok (hvisit : Guarded visit Valid next pieceAt) {s s' : State β}
    (h : pass visit s = .ok s') : s.place ∉ s.seen ∧ Valid s.place ∧ next s.place = some s'.place ∧
      s'.pieces = s.pieces ++ [pieceAt s.place] ∧ s'.seen = s.seen ++ [s.place] := by
  obtain ⟨⟨piece, n⟩, hpiece, hs⟩ := bind_eq_ok.mp h
  cases hs
  obtain ⟨hnew, hvalid, hnext, rfl⟩ := hvisit hpiece
  exact ⟨hnew, hvalid, hnext, rfl, rfl⟩

theorem nodup_concat (hnodup : seen.Nodup) (hnew : place ∉ seen) : (seen ++ [place]).Nodup :=
  List.nodup_append.mpr ⟨hnodup, List.pairwise_singleton _ _, fun _ ha _ hb heq =>
    hnew (List.mem_singleton.mp hb ▸ heq ▸ ha)⟩

/-- **The places of a walk** are distinct and lead to the end. -/
theorem walk_ok (hvisit : Guarded visit Valid next pieceAt) {s : State β}
    (h : walk stuck stop visit passes ⟨[], [], start⟩ = .ok s) :
    Leads next start s.seen stop ∧ s.seen.Nodup ∧ (∀ n ∈ s.seen, Valid n) ∧
      s.pieces = s.seen.map pieceAt := by
  have hstart : Leads next start [] start := rfl
  have hrun := whileLoop_ok (fun s : State β => Leads next start s.seen s.place ∧
      s.seen.Nodup ∧ (∀ n ∈ s.seen, Valid n) ∧ s.pieces = s.seen.map pieceAt)
    (fun s s' ⟨hleads, hnodup, hvalid, hpieces⟩ _ hpass => ?_)
    ⟨hstart, List.nodup_nil, fun _ hn => absurd hn List.not_mem_nil, rfl⟩ h
  · obtain ⟨⟨hleads, hrest⟩, hstop⟩ := hrun
    exact ⟨Decidable.not_not.mp (of_decide_eq_false hstop) ▸ hleads, hrest⟩
  · obtain ⟨hnew, hhere, hnext, hpiece, hseen⟩ := pass_eq_ok hvisit hpass
    rw [hseen, hpiece, hpieces]
    refine ⟨hleads.concat hnext, nodup_concat hnodup hnew, fun n hn => ?_, ?_⟩
    · rcases List.mem_append.mp hn with hn | hn
      · exact hvalid n hn
      · exact List.mem_singleton.mp hn ▸ hhere
    · rw [List.map_append, List.map_singleton]

/-- A walk among finitely many places ends. -/
theorem walk_error {Allowed : ε → Prop} (hvisit : Guarded visit Valid next pieceAt)
    (hbound : ∀ n, Valid n → n < bound)
    (herror : ∀ seen place e, visit seen place = .error e → Allowed e) (hpasses : bound < passes)
    {e : ε} (h : walk stuck stop visit passes ⟨[], [], start⟩ = .error e) : Allowed e := by
  refine whileLoop_error (fun s : State β => s.seen.Nodup ∧ ∀ n ∈ s.seen, n < bound)
    (fun s => bound - s.seen.length) (fun s s' ⟨hnodup, hlt⟩ _ hpass => ?_)
    (fun s e _ _ hpass => ?_) ⟨List.nodup_nil, fun _ hn => absurd hn List.not_mem_nil⟩ hpasses h
  · obtain ⟨hnew, hhere, -, -, hseen⟩ := pass_eq_ok hvisit hpass
    have hnodup' : s'.seen.Nodup := hseen ▸ nodup_concat hnodup hnew
    have hlt' : ∀ n ∈ s'.seen, n < bound := by
      intro n hn
      rw [hseen] at hn
      rcases List.mem_append.mp hn with hn | hn
      · exact hlt n hn
      · exact List.mem_singleton.mp hn ▸ hbound _ hhere
    have hlength := length_le hnodup' hlt'
    have hmore : s'.seen.length = s.seen.length + 1 := by rw [hseen, List.length_append]; rfl
    exact ⟨⟨hnodup', hlt'⟩, by omega⟩
  · unfold pass at hpass
    cases hfound : visit s.seen s.place with
    | error e' =>
      rw [hfound] at hpass
      exact Except.error.inj hpass ▸ herror _ _ _ hfound
    | ok found =>
      rw [hfound] at hpass
      exact absurd hpass nofun

end Walk

end Walk
