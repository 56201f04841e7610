import MailPortal.Derived.Ledger

/-!
# Rules of the Ledger

What the rules of calls say of a read of a JSON text, and the keys that tell the records apart.
-/

namespace MailPortal.Derived

open Concurrent

/-- Keys that begin differently are different. -/
theorem append_ne_append {s t x y : String} (n : ℕ) (hs : n ≤ s.toList.length)
    (ht : n ≤ t.toList.length) (hne : s.toList.take n ≠ t.toList.take n) : s ++ x ≠ t ++ y := by
  intro h
  have hlists := congrArg (fun s => s.toList.take n) h
  simp only [String.toList_append] at hlists
  rw [List.take_append_of_le_length hs, List.take_append_of_le_length ht] at hlists
  exact hne hlists

variable {α : Type} {Inv : LedgerWorld → Prop} {Step : LedgerWorld → LedgerWorld → Prop}
  {w : LedgerWorld}

/-- The program keeps to the rules. -/
abbrev LedgerKeeps (Inv : LedgerWorld → Prop) (Step : LedgerWorld → LedgerWorld → Prop)
    (Q : α → LedgerWorld → Prop) (p : LedgerProg α) (w : LedgerWorld) : Prop :=
  TurnKeeps LedgerOp.Exec Inv Step Q p w

/-- What a read has found was stored. -/
def Found (key : String) (stored : Option StoredJson) (w : LedgerWorld) : Prop :=
  ∀ found, stored = some found → w.bucket key = some found.etag ∧
    ∃ readable, found.value = jsonOf found.etag readable

theorem readJson_keeps {K : LedgerWorld → Prop} (hrefl : ∀ w, Step w w)
    (hlasting : Lasting Step K) (hK : K w) (key : String) :
    LedgerKeeps Inv Step (fun o w' => K w' ∧ Inv w' ∧ ∀ stored, o = some stored →
      Found key stored w') (readJson key).run w := by
  refine Prog.Keeps.of_known K hlasting hK fun w₁ hinv hK₁ answer w₂ hexec => ?_
  obtain ⟨hget, rfl⟩ := hexec
  refine ⟨hinv, hrefl w₂, ?_⟩
  cases answer with
  | none => exact ⟨hK₁, hinv, fun _ h => by cases h⟩
  | some answer =>
      cases answer with
      | absent =>
          refine ⟨hK₁, hinv, fun stored h => ?_⟩
          cases h
          exact fun found hfound => by cases hfound
      | found text readable =>
          refine ⟨hK₁, hinv, fun stored h => ?_⟩
          cases h
          intro found hfound
          cases hfound
          exact ⟨hget.of_found, readable, rfl⟩

end MailPortal.Derived
