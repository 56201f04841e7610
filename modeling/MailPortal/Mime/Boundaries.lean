import MailPortal.Lib.Failure
import MailPortal.Lib.Trie

/-!
# Active Multipart Boundaries

The boundaries of a MIME node are its own and those of its ancestors, innermost first. The
splitter keeps them as a list and as a trie; a boundary's place in the list is its priority.

Main result: `Indexes.collect`, the trie holds exactly the listed boundaries, each under its
own bytes.
-/

namespace MailPortal.Mime

open Failure

variable {boundaries : List (List UInt8)} {boundary : List UInt8}

/-- `MAX_MIME_BOUNDARY_BYTES`. -/
def maxMimeBoundaryBytes : ℕ := 70

/-- An error with its message and its `code`. -/
structure MimeError where
  message : String
  code : Option String
  deriving DecidableEq

def MimeError.boundaryInvalid : MimeError :=
  ⟨"MIME_MULTIPART_BOUNDARY_INVALID", some "MIME_MULTIPART_BOUNDARY_INVALID"⟩

def MimeError.headerSizeExceeded : MimeError :=
  ⟨"MIME_HEADER_SIZE_EXCEEDED", some "MIME_HEADER_SIZE_EXCEEDED"⟩

def MimeError.unsupportedState : MimeError := ⟨"Unsupported mailsplit parser state", none⟩

/-- `BoundaryReference`. -/
structure BoundaryReference where
  value : List UInt8
  priority : ℕ
  deriving DecidableEq

/-- `BoundaryTrieNode`. -/
abbrev BoundaryTrieNode := Trie UInt8 BoundaryReference

variable {trie : BoundaryTrieNode}

/-- `boundaryBytes`: no boundary, or one that is not too long. -/
def boundaryBytes (value : Option (List UInt8)) : Except MimeError (Option (List UInt8)) :=
  match value with
  | none => .ok none
  | some value =>
      if value = [] then .ok none
      else if maxMimeBoundaryBytes < value.length then .error .boundaryInvalid
      else .ok (some value)

/-- The loop of `#boundaries` over a node and its ancestors, given their `_boundary` fields. -/
def collectBoundaries :
    List (Option (List UInt8)) → List (List UInt8) → BoundaryTrieNode →
      Except MimeError (List (List UInt8) × BoundaryTrieNode)
  | [], boundaries, trie => .ok (boundaries, trie)
  | value :: lineage, boundaries, trie => do
      match ← boundaryBytes value with
      | none => collectBoundaries lineage boundaries trie
      | some boundary =>
          if boundary ∈ boundaries then collectBoundaries lineage boundaries trie
          else
            collectBoundaries lineage (boundaries ++ [boundary])
              (trie.insert ⟨boundary, boundaries.length⟩ boundary)

/-- The trie holds the listed boundaries, and nothing else. -/
structure Indexes (trie : BoundaryTrieNode) (boundaries : List (List UInt8)) : Prop where
  nonempty : ∀ b ∈ boundaries, b ≠ []
  walk : ∀ v, (trie.walk v).isSome ↔ v = [] ∨ ∃ b ∈ boundaries, v <+: b
  lookup : ∀ v r, trie.lookup v = some r → v ∈ boundaries ∧ r.value = v
  find : ∀ v ∈ boundaries, (trie.lookup v).isSome

theorem Indexes.empty : Indexes Trie.empty [] := by
  refine ⟨nofun, fun v => ?_, fun v r h => ?_, nofun⟩
  · cases v with
    | nil => simp
    | cons k ks => simp [Trie.walk_empty_cons]
  · cases v with
    | nil => cases h
    | cons k ks => simp [Trie.lookup, Trie.walk_empty_cons] at h

/-- One more boundary. -/
theorem Indexes.insert (h : Indexes trie boundaries) (hne : boundary ≠ []) (priority : ℕ) :
    Indexes (trie.insert ⟨boundary, priority⟩ boundary) (boundaries ++ [boundary]) := by
  refine ⟨fun b hb => ?_, fun v => ?_, fun v r hr => ?_, fun v hv => ?_⟩
  · rcases List.mem_append.mp hb with hb | hb
    · exact h.nonempty b hb
    · exact List.mem_singleton.mp hb ▸ hne
  · rw [Trie.walk_insert, h.walk]
    constructor
    · rintro ((hv | ⟨b, hb, hv⟩) | hv)
      · exact .inl hv
      · exact .inr ⟨b, List.mem_append_left _ hb, hv⟩
      · exact .inr ⟨boundary, by simp, hv⟩
    · rintro (hv | ⟨b, hb, hv⟩)
      · exact .inl (.inl hv)
      · rcases List.mem_append.mp hb with hb | hb
        · exact .inl (.inr ⟨b, hb, hv⟩)
        · exact .inr (List.mem_singleton.mp hb ▸ hv)
  · rw [Trie.lookup_insert] at hr
    split at hr
    · next hv =>
      cases hr
      exact ⟨by simp [hv], hv.symm⟩
    · obtain ⟨hmem, hvalue⟩ := h.lookup v r hr
      exact ⟨List.mem_append_left _ hmem, hvalue⟩
  · rw [Trie.lookup_insert]
    split
    · rfl
    · next hne =>
      rcases List.mem_append.mp hv with hmem | hmem
      · exact h.find v hmem
      · exact absurd (List.mem_singleton.mp hmem) hne

theorem boundaryBytes_ne_nil {value : Option (List UInt8)}
    (h : boundaryBytes value = .ok (some boundary)) : boundary ≠ [] := by
  cases value with
  | none => cases h
  | some value =>
      rw [boundaryBytes] at h
      split at h
      · cases h
      · next hne =>
        split at h
        · cases h
        · cases h
          exact hne

/-- **The trie of a node's lineage** holds the boundaries that were listed with it. -/
theorem Indexes.collect {lineage : List (Option (List UInt8))} (h : Indexes trie boundaries)
    {result : List (List UInt8) × BoundaryTrieNode}
    (hcollect : collectBoundaries lineage boundaries trie = .ok result) :
    Indexes result.2 result.1 := by
  induction lineage generalizing boundaries trie with
  | nil =>
      cases hcollect
      exact h
  | cons value lineage ih =>
      obtain ⟨boundary, hvalue, hrest⟩ := bind_eq_ok.mp hcollect
      cases boundary with
      | none => exact ih h hrest
      | some boundary =>
          dsimp only at hrest
          split at hrest
          · exact ih h hrest
          · exact ih (h.insert (boundaryBytes_ne_nil hvalue) _) hrest

end MailPortal.Mime
