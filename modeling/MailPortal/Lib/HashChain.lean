import Mathlib.Data.List.Induction

/-!
# Chains of Hashes

A digest of a list that takes its items one after another: the hash of a first text that names the
list, then for every item the hash of a text made of the digest so far and the item. The digest
can be taken in pieces, and it commits to the name and to the items: two lists with one digest are
the same, or among the texts that were hashed for them there are two with one hash. Nothing is
assumed of the hash.

Main results:

* `extend_append` : the digest is taken in pieces.
* `digest_binding` : the digest commits to the list, up to a collision that the lists exhibit.
-/

namespace HashChain

/-- How a list is hashed: `first` is the text of a name, `next` that of an item after a digest. -/
structure Scheme (ι α τ δ : Type*) where
  hash : τ → δ
  first : ι → τ
  next : ι → δ → α → τ

open Scheme

variable {ι α τ δ : Type*} (c : Scheme ι α τ δ)

/-- The digest after further items. -/
def Scheme.extend (name : ι) (d : δ) (items : List α) : δ :=
  items.foldl (fun d item => c.hash (c.next name d item)) d

/-- The digest of a list. -/
def Scheme.digest (name : ι) (items : List α) : δ := extend c name (c.hash (c.first name)) items

/-- The texts that are hashed for further items. -/
def Scheme.furtherTexts (name : ι) (d : δ) : List α → List τ
  | [] => []
  | item :: items =>
      c.next name d item :: furtherTexts name (c.hash (c.next name d item)) items

/-- The texts that are hashed for a list. -/
def Scheme.texts (name : ι) (items : List α) : List τ :=
  c.first name :: furtherTexts c name (c.hash (c.first name)) items

@[simp] theorem extend_nil (name : ι) (d : δ) : extend c name d [] = d := rfl

/-- **Pieces**: the cuts of a list do not matter to its digest. -/
theorem extend_append (name : ι) (d : δ) (items more : List α) :
    extend c name d (items ++ more) = extend c name (extend c name d items) more :=
  List.foldl_append

theorem digest_concat (name : ι) (items : List α) (item : α) :
    digest c name (items ++ [item]) = c.hash (c.next name (digest c name items) item) :=
  extend_append c name _ items [item]

theorem furtherTexts_append (name : ι) (d : δ) (items more : List α) :
    furtherTexts c name d (items ++ more) =
      furtherTexts c name d items ++ furtherTexts c name (extend c name d items) more := by
  induction items generalizing d with
  | nil => rfl
  | cons item items ih =>
      simp only [List.cons_append, furtherTexts, ih]
      rfl

theorem texts_concat (name : ι) (items : List α) (item : α) :
    texts c name (items ++ [item]) =
      texts c name items ++ [c.next name (digest c name items) item] := by
  simp only [texts, furtherTexts_append, List.cons_append]
  rfl

/-- Two texts of two lists of texts that differ and have one hash. -/
def Scheme.Collision (xs ys : List τ) : Prop := ∃ x ∈ xs, ∃ y ∈ ys, x ≠ y ∧ c.hash x = c.hash y

variable {c}

theorem collision_mono {xs ys xs' ys' : List τ} (h : Collision c xs ys) (hx : xs ⊆ xs')
    (hy : ys ⊆ ys') : Collision c xs' ys' := by
  obtain ⟨x, hxs, y, hys, hne, hhash⟩ := h
  exact ⟨x, hx hxs, y, hy hys, hne, hhash⟩

/-- Texts with one hash are one text, or they collide. -/
theorem eq_or_collision {xs ys : List τ} {x y : τ} (hx : x ∈ xs) (hy : y ∈ ys)
    (h : c.hash x = c.hash y) : x = y ∨ Collision c xs ys := by
  by_cases hne : x = y
  · exact .inl hne
  · exact .inr ⟨x, hx, y, hy, hne, h⟩

/-- The texts of a scheme tell what they are made of, for items of a kind. -/
structure Scheme.Readable (c : Scheme ι α τ δ) (good : α → Prop) : Prop where
  first_inj : ∀ name name', c.first name = c.first name' → name = name'
  next_inj : ∀ name d item name' d' item', good item → good item' →
    c.next name d item = c.next name' d' item' → name = name' ∧ d = d' ∧ item = item'
  apart : ∀ name name' d' item', good item' → c.first name ≠ c.next name' d' item'

/-- **Binding**: a digest commits to the name and the items. -/
theorem digest_binding {good : α → Prop} (hread : c.Readable good) {name name' : ι}
    {items items' : List α} (hgood : ∀ item ∈ items, good item)
    (hgood' : ∀ item ∈ items', good item)
    (h : digest c name items = digest c name' items') :
    name = name' ∧ items = items' ∨ Collision c (texts c name items) (texts c name' items') := by
  have hhead : ∀ (name : ι) (items : List α), c.first name ∈ texts c name items :=
    fun name items => List.mem_cons_self
  induction items using List.reverseRecOn generalizing items' with
  | nil =>
      rcases List.eq_nil_or_concat items' with rfl | ⟨items', item', rfl⟩
      · exact (eq_or_collision (hhead name []) (hhead name' []) h).imp_left
          fun he => ⟨hread.first_inj _ _ he, rfl⟩
      · rw [List.concat_eq_append] at h hgood' ⊢
        rw [digest_concat] at h
        rw [texts_concat]
        rcases eq_or_collision (hhead name [])
          (List.mem_append_right (texts c name' items') List.mem_cons_self) h with he | hcollision
        · exact absurd he (hread.apart _ _ _ _ (hgood' item' (by simp)))
        · exact .inr hcollision
  | append_singleton items item ih =>
      have hgoodItem := hgood item (by simp)
      rcases List.eq_nil_or_concat items' with rfl | ⟨items', item', rfl⟩
      · rw [digest_concat] at h
        rw [texts_concat]
        rcases eq_or_collision (List.mem_append_right (texts c name items) List.mem_cons_self)
          (hhead name' []) h with he | hcollision
        · exact absurd he.symm (hread.apart _ _ _ _ hgoodItem)
        · exact .inr hcollision
      · rw [List.concat_eq_append] at h hgood' ⊢
        rw [digest_concat, digest_concat] at h
        rw [texts_concat, texts_concat]
        rcases eq_or_collision (List.mem_append_right (texts c name items) List.mem_cons_self)
          (List.mem_append_right (texts c name' items') List.mem_cons_self) h with he | hcollision
        · obtain ⟨-, hdigest, rfl⟩ :=
            hread.next_inj _ _ _ _ _ _ hgoodItem (hgood' item' (by simp)) he
          rcases ih (fun i hi => hgood i (List.mem_append_left _ hi))
            (fun i hi => hgood' i (List.mem_append_left _ hi)) hdigest with ⟨rfl, rfl⟩ | hcollision
          · exact .inl ⟨rfl, rfl⟩
          · exact .inr (collision_mono hcollision (List.subset_append_left _ _)
              (List.subset_append_left _ _))
        · exact .inr hcollision

end HashChain
