import Mathlib.Data.List.Infix

/-!
# Global Replacement

A global regular expression replaces every match of a text, from left to right: where a match
starts, its replacement is written and the scan goes on behind the match; elsewhere the symbol is
copied. What was written is not read again.

A text that is put together from pieces, each of which is rewritten in the same way whatever comes
behind it, is rewritten piece by piece (`replaceAll_flatMap`).
-/

namespace Replace

variable {α β : Type*}
variable {rest word : List α}

/-- What a rule finds at the start of a text: the replacement, and the number of symbols of the
match behind its first one. -/
abbrev Rule (α : Type*) := List α → Option (List α × ℕ)

/-- Scan a text of which the next `skip` symbols belong to a match. -/
def scan (rule : Rule α) : (skip : ℕ) → List α → List α
  | _, [] => []
  | skip + 1, _ :: rest => scan rule skip rest
  | 0, a :: rest =>
      match rule (a :: rest) with
      | some (replacement, more) => replacement ++ scan rule more rest
      | none => a :: scan rule 0 rest

/-- `replace` with a global regular expression. -/
def replaceAll (rule : Rule α) (text : List α) : List α := scan rule 0 text

variable {rule : Rule α}

@[simp] theorem replaceAll_nil : replaceAll rule [] = [] := rfl

/-- The symbols that belong to a match are passed over. -/
theorem scan_length (word rest : List α) :
    scan rule word.length (word ++ rest) = replaceAll rule rest := by
  induction word with
  | nil => rfl
  | cons a word ih => exact ih

/-- A symbol at which no match starts is copied. -/
theorem replaceAll_cons {a : α} (h : rule (a :: rest) = none) :
    replaceAll rule (a :: rest) = a :: replaceAll rule rest := by
  rw [replaceAll, scan, h]
  rfl

/-- A match is replaced, and the scan goes on behind it. -/
theorem replaceAll_match {a : α} {replacement : List α}
    (h : rule (a :: (word ++ rest)) = some (replacement, word.length)) :
    replaceAll rule (a :: (word ++ rest)) = replacement ++ replaceAll rule rest := by
  rw [replaceAll, scan, h]
  exact congrArg (replacement ++ ·) (scan_length word rest)

/-- Symbols at which no match can start are copied. -/
theorem replaceAll_append_of_none (h : ∀ a ∈ word, ∀ rest, rule (a :: rest) = none) :
    replaceAll rule (word ++ rest) = word ++ replaceAll rule rest := by
  induction word with
  | nil => rfl
  | cons a word ih =>
      rw [List.cons_append, replaceAll_cons (h a List.mem_cons_self _),
        ih fun b hb => h b (List.mem_cons_of_mem a hb), List.cons_append]

theorem replaceAll_of_none (h : ∀ a ∈ word, ∀ rest, rule (a :: rest) = none) :
    replaceAll rule word = word := by
  have happend : replaceAll rule (word ++ []) = word ++ replaceAll rule [] :=
    replaceAll_append_of_none h
  rwa [List.append_nil, replaceAll_nil, List.append_nil] at happend

/-- **Piece by piece.** -/
theorem replaceAll_flatMap {write rewritten : β → List α} {pieces : List β}
    (h : ∀ piece ∈ pieces, ∀ rest,
      replaceAll rule (write piece ++ rest) = rewritten piece ++ replaceAll rule rest) :
    replaceAll rule (pieces.flatMap write) = pieces.flatMap rewritten := by
  induction pieces with
  | nil => rfl
  | cons piece pieces ih =>
      rw [List.flatMap_cons, List.flatMap_cons, h piece List.mem_cons_self,
        ih fun piece' hmem => h piece' (List.mem_cons_of_mem piece hmem)]

end Replace
