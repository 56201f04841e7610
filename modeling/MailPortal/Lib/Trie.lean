import Mathlib.Data.List.Basic

/-!
# Tries

A trie over keys of type `List κ`: a node holds the value of the key that ends there, if
any, and a finite map of children, kept as a function.

`walk_insert` and `lookup_insert` say what an insertion does to the paths and to the values;
with `walk_append` they are all that a proof about a trie built by insertions needs.
-/

/-- A trie node. -/
inductive Trie (κ ρ : Type)
  | node (value : Option ρ) (children : κ → Option (Trie κ ρ))

namespace Trie

variable {κ ρ : Type}

/-- The value of the key that ends here. -/
def value : Trie κ ρ → Option ρ
  | node value _ => value

/-- The subtrie below a symbol. -/
def child : Trie κ ρ → κ → Option (Trie κ ρ)
  | node _ children => children

/-- A node without value and children. -/
def empty : Trie κ ρ := node none fun _ => none

/-- The node that a path leads to. -/
def walk (t : Trie κ ρ) : List κ → Option (Trie κ ρ)
  | [] => some t
  | k :: ks => (t.child k).bind fun t' => t'.walk ks

/-- The value of a key. -/
def lookup (t : Trie κ ρ) (ks : List κ) : Option ρ := (t.walk ks).bind value

/-- Enter a value under a key. -/
def insert [DecidableEq κ] (r : ρ) : List κ → Trie κ ρ → Trie κ ρ
  | [], t => node (some r) t.child
  | k :: ks, t =>
      node t.value (Function.update t.child k (some (insert r ks ((t.child k).getD empty))))

@[simp] theorem value_node (v : Option ρ) (c : κ → Option (Trie κ ρ)) : (node v c).value = v := rfl

@[simp] theorem child_node (v : Option ρ) (c : κ → Option (Trie κ ρ)) : (node v c).child = c := rfl

@[simp] theorem walk_nil (t : Trie κ ρ) : t.walk [] = some t := rfl

theorem walk_cons (t : Trie κ ρ) (k : κ) (ks : List κ) :
    t.walk (k :: ks) = (t.child k).bind fun t' => t'.walk ks := rfl

/-- A path in two parts. -/
theorem walk_append (t : Trie κ ρ) (ks ls : List κ) :
    t.walk (ks ++ ls) = (t.walk ks).bind fun t' => t'.walk ls := by
  induction ks generalizing t with
  | nil => rfl
  | cons k ks ih =>
      rw [List.cons_append, walk_cons, walk_cons]
      cases t.child k with
      | none => rfl
      | some t' => exact ih t'

/-- The node one symbol further on. -/
theorem walk_concat (t : Trie κ ρ) (ks : List κ) (k : κ) :
    t.walk (ks ++ [k]) = (t.walk ks).bind fun t' => t'.child k := by
  rw [walk_append]
  congr 1
  funext t'
  rw [walk_cons]
  cases t'.child k <;> rfl

theorem walk_empty_cons (k : κ) (ks : List κ) : (empty : Trie κ ρ).walk (k :: ks) = none := rfl

variable [DecidableEq κ]

/-- **The paths after an insertion** are those from before and the prefixes of the key. -/
theorem walk_insert (r : ρ) (ks ls : List κ) (t : Trie κ ρ) :
    ((insert r ks t).walk ls).isSome ↔ (t.walk ls).isSome ∨ ls <+: ks := by
  induction ks generalizing t ls with
  | nil =>
      cases ls with
      | nil => simp [insert]
      | cons l ls => simp [insert, walk_cons]
  | cons k ks ih =>
      cases ls with
      | nil => simp [insert]
      | cons l ls =>
          by_cases hl : l = k
          · subst hl
            rw [insert, walk_cons, child_node, Function.update_self, Option.bind_some, ih,
              walk_cons, List.cons_prefix_cons]
            cases t.child l with
            | some t' => simp
            | none =>
                cases ls with
                | nil => simp
                | cons k' ls => simp [walk_empty_cons]
          · rw [insert, walk_cons, child_node, Function.update_of_ne hl, walk_cons]
            simp [List.cons_prefix_cons, hl]

/-- **The values after an insertion.** -/
theorem lookup_insert (r : ρ) (ks ls : List κ) (t : Trie κ ρ) :
    (insert r ks t).lookup ls = if ls = ks then some r else t.lookup ls := by
  induction ks generalizing t ls with
  | nil =>
      cases ls with
      | nil => simp [insert, lookup]
      | cons l ls => simp [insert, lookup, walk_cons]
  | cons k ks ih =>
      cases ls with
      | nil => simp [insert, lookup]
      | cons l ls =>
          by_cases hl : l = k
          · subst hl
            have hstep : (insert r (l :: ks) t).lookup (l :: ls) =
                (insert r ks ((t.child l).getD empty)).lookup ls := by
              simp [lookup, insert, walk_cons]
            rw [hstep, ih]
            cases hchild : t.child l with
            | some t' => simp [lookup, walk_cons, hchild]
            | none =>
                cases ls with
                | nil => simp [lookup, walk_cons, hchild, empty]
                | cons k' ls => simp [lookup, walk_cons, hchild, empty]
          · simp [lookup, insert, walk_cons, hl]

end Trie
