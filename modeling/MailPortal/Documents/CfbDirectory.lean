import MailPortal.Documents.CfbChains

/-!
# The Directory of a Compound File

The entries of the directory link one another: each has a left and a right sibling, and a storage
has a child. The reader goes through them with a stack, and accepts the directory when it comes to
every entry but the root, and to none of them twice. Then the entries are the nodes of a binary
tree.

Main results:

* `traversal_run` : what the loop goes through is trees.
* `reach_spanned` : an accepted directory is a tree under its only root.
-/

namespace MailPortal.Documents

open Bytes Failure Loop

variable {bytes directory : List UInt8} {header : Header} {fat : List ℕ}
  {entries : List DirectoryEntry} {root : DirectoryEntry}
variable {index : ℕ} {entry : DirectoryEntry}
variable {major : ℕ} {toLowerCase : List ℕ → List ℕ} {s : Traversal}

/-! ### Entries -/

theorem contained_readEntryName {view : List UInt8} {nameLength : ℕ}
    (h : nameLength ≤ view.length) :
    Contained (readEntryName view nameLength) := by
  refine contained_readEach fun i hi => contained_bind (contained_getUint16 ?_) fun _ _ =>
    contained_bind contained_failIf fun _ _ => contained_ok _
  have := List.mem_range.mp hi
  omega

theorem contained_readEntry (h : index * 128 + 128 ≤ directory.length) :
    Contained (readEntry major directory index) := by
  have hview : dataView directory (index * 128) 128 =
      .ok (slice directory (index * 128) (index * 128 + 128)) := by
    rw [dataView, if_pos h]
    rfl
  have hlength : (slice directory (index * 128) (index * 128 + 128)).length = 128 := by
    rw [length_slice h, Nat.add_sub_cancel_left]
  rw [readEntry, hview, ok_bind]
  refine contained_bind (contained_getUint16 (by omega)) fun nameLength _ =>
    contained_bind (contained_byteAt (by omega)) fun type _ =>
    contained_ite (fun _ => contained_ok _) fun _ =>
    contained_bind contained_failIf fun _ hname => ?_
  have hle : 2 ≤ nameLength ∧ nameLength ≤ 64 := by
    have := failIf_eq_ok.mp hname
    omega
  exact contained_bind (contained_getUint16 (by omega)) fun _ _ =>
    contained_bind contained_failIf fun _ _ =>
    contained_bind (contained_readEntryName (by omega)) fun _ _ =>
    contained_bind (contained_getUint32 (by omega)) fun _ _ =>
    contained_bind contained_failIf fun _ _ =>
    contained_bind (contained_getUint32 (by omega)) fun _ _ =>
    contained_bind contained_failIf fun _ _ =>
    contained_bind (contained_getUint32 (by omega)) fun _ _ =>
    contained_bind (contained_getUint32 (by omega)) fun _ _ =>
    contained_bind (contained_getUint32 (by omega)) fun _ _ =>
    contained_bind (contained_getUint32 (by omega)) fun _ _ => contained_ok _

/-- An entry has the index at which it is. -/
theorem readEntry_index (h : readEntry major directory index = .ok (some entry)) :
    entry.index = index := by
  obtain ⟨view, -, h⟩ := bind_eq_ok.mp h
  obtain ⟨nameLength, -, h⟩ := bind_eq_ok.mp h
  obtain ⟨type, -, h⟩ := bind_eq_ok.mp h
  split at h
  · cases h
  · obtain ⟨_, -, h⟩ := bind_eq_ok.mp h
    obtain ⟨terminator, -, h⟩ := bind_eq_ok.mp h
    obtain ⟨_, -, h⟩ := bind_eq_ok.mp h
    obtain ⟨name, -, h⟩ := bind_eq_ok.mp h
    obtain ⟨highSize, -, h⟩ := bind_eq_ok.mp h
    obtain ⟨_, -, h⟩ := bind_eq_ok.mp h
    obtain ⟨lowSize, -, h⟩ := bind_eq_ok.mp h
    obtain ⟨_, -, h⟩ := bind_eq_ok.mp h
    obtain ⟨left, -, h⟩ := bind_eq_ok.mp h
    obtain ⟨right, -, h⟩ := bind_eq_ok.mp h
    obtain ⟨child, -, h⟩ := bind_eq_ok.mp h
    obtain ⟨startSector, -, h⟩ := bind_eq_ok.mp h
    obtain rfl := Option.some.inj (Except.ok.inj h)
    rfl

theorem contained_readDirectory (h : header.Fits) : Contained (readDirectory bytes header fat) := by
  have hview := h.view
  refine contained_bind (contained_getUint32 (by omega)) fun _ _ =>
    contained_bind contained_cfbChain fun directory _ =>
    contained_bind contained_failIf fun _ hlength =>
    contained_bind (contained_readEach fun index hindex => contained_readEntry ?_) fun _ _ =>
      contained_ok _
  have hlength := failIf_eq_ok.mp hlength
  have := List.mem_range.mp hindex
  omega

/-- The entries in use of a chain of distinct sectors, in order. -/
def InDirectory (bytes : List UInt8) (header : Header) (fat : List ℕ)
    (entries : List DirectoryEntry) : Prop :=
  ∃ startSector path count found, Chain bytes header.sectorSize fat startSector path ∧
    List.Forall₂
      (fun index a => readEntry header.major (joined bytes header.sectorSize path) index =
      .ok a) (List.range count) found ∧ entries = found.filterMap id

theorem readDirectory_eq_ok (h : readDirectory bytes header fat = .ok entries) :
    InDirectory bytes header fat entries := by
  obtain ⟨startSector, -, h⟩ := bind_eq_ok.mp h
  obtain ⟨directory, hchain, h⟩ := bind_eq_ok.mp h
  obtain ⟨_, -, h⟩ := bind_eq_ok.mp h
  obtain ⟨found, hfound, h⟩ := bind_eq_ok.mp h
  cases h
  obtain ⟨path, hpath, rfl⟩ := cfbChain_eq_ok hchain
  exact ⟨startSector, path, _, found, hpath, readEach_eq_ok hfound, rfl⟩

/-- No two entries have one index. -/
theorem InDirectory.indexes (h : InDirectory bytes header fat entries) :
    (entries.map DirectoryEntry.index).Nodup := by
  obtain ⟨_, _, _, found, -, hfound, rfl⟩ := h
  have hsub : ∀ {directory : List UInt8} {indexes : List ℕ} {found : List (Option DirectoryEntry)},
      List.Forall₂ (fun i a => readEntry header.major directory i = .ok a) indexes found →
        ((found.filterMap id).map DirectoryEntry.index).Sublist indexes := by
    intro directory indexes found hall
    induction hall with
    | nil => exact List.Sublist.slnil
    | @cons i a _ found hread _ ih =>
      cases a with
      | none => exact ih.cons i
      | some entry =>
        have hcons : ((some entry :: found).filterMap id).map DirectoryEntry.index =
            i :: (found.filterMap id).map DirectoryEntry.index :=
              by rw [← readEntry_index hread]; rfl
        rw [hcons]
        exact ih.cons_cons i
  exact List.nodup_range.sublist (hsub hfound)

theorem byIndex_eq_some (h : byIndex entries index = some entry) :
    entry ∈ entries ∧ entry.index = index :=
  ⟨List.mem_of_find?_eq_some h, of_decide_eq_true
    (List.find?_some (p := fun entry : DirectoryEntry => decide (entry.index = index)) h)⟩

theorem contained_findWorkbook : Contained (findWorkbook toLowerCase entries) := by
  unfold findWorkbook
  split
  · exact contained_bind contained_failIf fun _ _ => contained_ok _
  · exact contained_failure

theorem contained_findRoot : Contained (findRoot entries) := by
  unfold findRoot
  split
  · exact contained_bind contained_failIf fun _ _ => contained_ok _
  · exact contained_failure

theorem contained_checkNames : Contained (checkNames toLowerCase entries) :=
  contained_bind contained_failIf fun _ _ => contained_failIf

theorem findRoot_eq_ok (h : findRoot entries = .ok root) :
    entries.filter (fun entry => entry.type = 5) = [root] := by
  unfold findRoot at h
  split at h
  · rename_i root' hroots
    obtain ⟨_, -, h⟩ := bind_eq_ok.mp h
    cases h
    exact hroots
  · exact absurd h nofun

/-! ### The tree -/

/-- A binary tree of siblings, whose nodes have trees of their own below them. -/
inductive DirectoryTree
  | free
  | node (index : ℕ) (left child right : DirectoryTree)

/-- The indexes of the nodes. -/
def DirectoryTree.indexes : DirectoryTree → List ℕ
  | .free => []
  | .node index left child right => index :: (left.indexes ++ (child.indexes ++ right.indexes))

/-- The entries that a link leads to are the nodes of the tree. -/
def Stands (entries : List DirectoryEntry) : ℕ → DirectoryTree → Prop
  | place, .free => place = CFB_FREE_SECTOR
  | place, .node index left child right => place = index ∧ ∃ entry,
      byIndex entries index = some entry ∧ entry.type ≠ 5 ∧ Stands entries entry.left left ∧
        Stands entries entry.child child ∧ Stands entries entry.right right

theorem Stands.mem {place : ℕ} {tree : DirectoryTree} (h : Stands entries place tree) :
    ∀ index ∈ tree.indexes, ∃ entry ∈ entries, entry.index = index ∧ entry.type ≠ 5 := by
  induction tree generalizing place with
  | free => exact nofun
  | node index left child right ihl ihc ihr =>
    obtain ⟨rfl, entry, hentry, htype, hleft, hchild, hright⟩ := h
    obtain ⟨hmem, hindex⟩ := byIndex_eq_some hentry
    intro i hi
    rcases List.mem_cons.mp hi with rfl | hi
    · exact ⟨entry, hmem, hindex, htype⟩
    · rcases List.mem_append.mp hi with hi | hi
      · exact ihl hleft i hi
      · rcases List.mem_append.mp hi with hi | hi
        · exact ihc hchild i hi
        · exact ihr hright i hi

/-! ### The loop over the stack -/

theorem contained_childOf : Contained (childOf entry) :=
  contained_ite (fun _ => contained_ok _) fun _ =>
    contained_bind contained_failIf fun _ _ => contained_ok _

/-- A storage has its child below it, and other entries have nothing. -/
theorem childOf_eq_ok {below : List ℕ} (h : childOf entry = .ok below) :
    below = [entry.child] ∨ (below = [] ∧ entry.child = CFB_FREE_SECTOR) := by
  unfold childOf at h
  split at h
  · exact Or.inl (Except.ok.inj h).symm
  · obtain ⟨_, hfree, h⟩ := bind_eq_ok.mp h
    exact Or.inr ⟨(Except.ok.inj h).symm, Decidable.not_not.mp (failIf_eq_ok.mp hfree)⟩

theorem contained_visitEntry : Contained (visitEntry entries s) := by
  unfold visitEntry
  split
  · exact contained_ok _
  · exact contained_ite (fun _ => contained_ok _) fun _ =>
      contained_bind contained_orThrow fun _ _ => contained_bind contained_failIf fun _ _ =>
      contained_bind contained_failIf fun _ _ => contained_bind contained_childOf fun _ _ =>
        contained_ok _

/-- What a pass does. -/
theorem visitEntry_cases {stack reachable : List ℕ}
    (h : visitEntry entries ⟨index :: stack, reachable⟩ = .ok s) :
    (index = CFB_FREE_SECTOR ∧ s = ⟨stack, reachable⟩) ∨
    (∃ entry below, byIndex entries index = some entry ∧ entry.type ≠ 5 ∧ index ∉ reachable ∧
      reachable.length < entries.length ∧ childOf entry = .ok below ∧
      s = ⟨entry.left :: (below ++ entry.right :: stack), reachable ++ [index]⟩) := by
  unfold visitEntry at h
  simp only at h
  split at h
  · exact Or.inl ⟨‹_›, (Except.ok.inj h).symm⟩
  · obtain ⟨entry, hentry, h⟩ := bind_eq_ok.mp h
    obtain ⟨_, hnew, h⟩ := bind_eq_ok.mp h
    obtain ⟨_, hlength, h⟩ := bind_eq_ok.mp h
    obtain ⟨below, hbelow, h⟩ := bind_eq_ok.mp h
    cases h
    obtain ⟨htype, hnew⟩ := not_or.mp (failIf_eq_ok.mp hnew)
    have hlength := failIf_eq_ok.mp hlength
    rw [List.length_append, List.length_singleton] at hlength
    exact Or.inr ⟨entry, below, orThrow_eq_ok.mp hentry, htype, hnew, by omega, hbelow, rfl⟩

/-- **What the loop goes through is trees**, one for each index on the stack, and it comes to no
index twice. -/
theorem traversal_run {passes : ℕ} {s' : Traversal}
    (h : whileLoop .stuck (fun s : Traversal => !s.stack.isEmpty) (visitEntry entries) passes s =
      .ok s') (hnodup : s.reachable.Nodup) :
    ∃ trees, List.Forall₂ (Stands entries) s.stack trees ∧
      s'.reachable = s.reachable ++ trees.flatMap DirectoryTree.indexes ∧ s'.reachable.Nodup := by
  induction passes generalizing s with
  | zero =>
    obtain ⟨hdone, rfl⟩ | ⟨_, _, hpasses, -⟩ := whileLoop_eq_ok h
    · have hstack : s'.stack = [] := by simpa using hdone
      exact ⟨[], hstack ▸ List.Forall₂.nil, (List.append_nil _).symm, hnodup⟩
    · exact absurd hpasses (Nat.succ_ne_zero _).symm
  | succ passes ih =>
    obtain ⟨hdone, rfl⟩ | ⟨_, s₁, hpasses, hrun, hpass, hrest⟩ := whileLoop_eq_ok h
    · have hstack : s'.stack = [] := by simpa using hdone
      exact ⟨[], hstack ▸ List.Forall₂.nil, (List.append_nil _).symm, hnodup⟩
    cases hpasses
    obtain ⟨stack, reachable⟩ := s
    cases stack with
    | nil => exact absurd hrun nofun
    | cons index stack =>
      obtain ⟨rfl, rfl⟩ | ⟨entry, below, hentry, htype, hnew, -, hbelow, rfl⟩ :=
        visitEntry_cases hpass
      · obtain ⟨trees, htrees, hreached, hnodup'⟩ := ih hrest hnodup
        have hfree : Stands entries CFB_FREE_SECTOR .free := rfl
        exact ⟨.free :: trees, List.Forall₂.cons hfree htrees, hreached, hnodup'⟩
      · obtain ⟨trees, htrees, hreached, hnodup'⟩ := ih hrest (Walk.nodup_concat hnodup hnew)
        obtain ⟨left, _, hleft, hbehind, rfl⟩ := List.forall₂_cons_left_iff.mp htrees
        rcases childOf_eq_ok hbelow with rfl | ⟨rfl, hfree⟩
        · obtain ⟨child, _, hchild, hsiblings, rfl⟩ := List.forall₂_cons_left_iff.mp hbehind
          obtain ⟨right, trees, hright, hstack, rfl⟩ := List.forall₂_cons_left_iff.mp hsiblings
          have hnode : Stands entries index (.node index left child right) :=
            ⟨rfl, entry, hentry, htype, hleft, hchild, hright⟩
          refine ⟨_ :: trees, List.Forall₂.cons hnode hstack, ?_, hnodup'⟩
          rw [hreached]
          simp only [List.flatMap_cons, DirectoryTree.indexes, List.append_assoc, List.cons_append,
            List.nil_append]
        · obtain ⟨right, trees, hright, hstack, rfl⟩ := List.forall₂_cons_left_iff.mp hbehind
          have hnode : Stands entries index (.node index left .free right) :=
            ⟨rfl, entry, hentry, htype, hleft, hfree, hright⟩
          refine ⟨_ :: trees, List.Forall₂.cons hnode hstack, ?_, hnodup'⟩
          rw [hreached]
          simp only [List.flatMap_cons, DirectoryTree.indexes, List.append_assoc, List.cons_append,
            List.nil_append]

/-- Every pass takes an index off the stack or comes to a new entry. -/
theorem contained_reach {child : ℕ} : Contained (reach entries child) := by
  refine contained_bind (fun e h => ?_) fun _ _ => contained_bind contained_failIf fun _ _ =>
    contained_ok _
  refine whileLoop_error (fun s : Traversal => s.reachable.length ≤ entries.length)
    (fun s => s.stack.length + 4 * (entries.length - s.reachable.length))
    (fun s s' hle hrun hpass => ?_) (fun s e _ _ hpass => contained_visitEntry e hpass)
    (Nat.zero_le _) ?_ h
  · obtain ⟨stack, reachable⟩ := s
    cases stack with
    | nil => exact absurd hrun nofun
    | cons index stack =>
      obtain ⟨-, rfl⟩ | ⟨entry, below, -, -, -, hlt, hbelow, rfl⟩ := visitEntry_cases hpass
      · simp only [List.length_cons] at hle ⊢
        exact ⟨hle, by omega⟩
      · have hone : below.length ≤ 1 := by
          rcases childOf_eq_ok hbelow with rfl | ⟨rfl, -⟩
          · exact le_rfl
          · exact Nat.zero_le _
        simp only [List.length_cons, List.length_append, List.length_nil] at hle ⊢
        exact ⟨by omega, by omega⟩
  · simp only [List.length_cons, List.length_nil]
    omega

/-- The entries are a root and the nodes of a tree that it leads to, each of them once. -/
structure Spanned (entries : List DirectoryEntry) (root : DirectoryEntry) : Prop where
  roots : entries.filter (fun entry => entry.type = 5) = [root]
  indexes : (entries.map DirectoryEntry.index).Nodup
  tree : ∃ tree, Stands entries root.child tree ∧ tree.indexes.Nodup ∧ tree.indexes.Perm
    ((entries.filter fun entry => entry.type ≠ 5).map DirectoryEntry.index)

/-- **An accepted directory is a tree** under its only root. -/
theorem reach_spanned {order : List ℕ} (hentries : readDirectory bytes header fat = .ok entries)
    (hroot : findRoot entries = .ok root) (h : reach entries root.child = .ok order) :
    Spanned entries root := by
  obtain ⟨s, hloop, h⟩ := bind_eq_ok.mp h
  obtain ⟨_, hlength, -⟩ := bind_eq_ok.mp h
  have hcount := Decidable.not_not.mp (failIf_eq_ok.mp hlength)
  have hroots := findRoot_eq_ok hroot
  obtain ⟨trees, htrees, hreached, hnodup⟩ := traversal_run hloop List.nodup_nil
  obtain ⟨tree, trees, htree, hnil, rfl⟩ := List.forall₂_cons_left_iff.mp htrees
  obtain rfl := List.forall₂_nil_left_iff.mp hnil
  have horder : s.reachable = tree.indexes := by
    rw [hreached, List.flatMap_cons, List.flatMap_nil, List.append_nil]
    rfl
  rw [horder] at hnodup hcount
  refine ⟨hroots, (readDirectory_eq_ok hentries).indexes, tree, htree, hnodup, ?_⟩
  have hsub : tree.indexes ⊆
      (entries.filter fun entry => entry.type ≠ 5).map DirectoryEntry.index := by
    intro index hindex
    obtain ⟨entry, hmem, rfl, htype⟩ := htree.mem index hindex
    exact List.mem_map_of_mem (List.mem_filter.mpr ⟨hmem, decide_eq_true htype⟩)
  refine (hnodup.subperm hsub).perm_of_length_le ?_
  have hsplit := List.length_eq_length_filter_add (l := entries) fun entry => entry.type = 5
  simp only [hroots, List.length_singleton, ← decide_not] at hsplit
  rw [List.length_map, hcount, hsplit, Nat.add_sub_cancel_left]

end MailPortal.Documents
