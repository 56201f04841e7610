import Mathlib.Data.List.Basic

/-!
# Incremental Machines

A machine reads its input in chunks of any size. It handles a chunk one symbol at a time,
may do something at the end of each chunk (hand on what it has buffered), and finishes with
a flush.

To prove that the cuts do not matter it is enough to say, for every state, what the machine
will have produced in the end from any remaining input: `spec s rest`. If no symbol and no
end of chunk changes that (`Follows`), the result of a run is the specification of the
concatenated input (`Follows.run`), whatever the chunks were.

`Output` is the usual shape of such a machine's output: bytes handed on, and a buffer.
-/

namespace Incremental

variable {σ β ω : Type*}
variable {s : σ}

/-- A machine that reads symbols and acts at the end of each chunk. -/
structure Machine (σ β : Type*) where
  step : σ → β → σ
  endChunk : σ → σ

/-- Read one chunk. -/
def Machine.transform (m : Machine σ β) (s : σ) (chunk : List β) : σ :=
  m.endChunk (chunk.foldl m.step s)

/-- Read a list of chunks. -/
def Machine.run (m : Machine σ β) (s : σ) (chunks : List (List β)) : σ :=
  chunks.foldl m.transform s

/-- `spec s rest` is what the machine makes of `rest` in state `s`, for the states that
satisfy `Inv`: neither a symbol nor the end of a chunk changes it. -/
structure Follows (m : Machine σ β) (Inv : σ → Prop) (spec : σ → List β → ω) : Prop where
  step : ∀ s b, Inv s → Inv (m.step s b) ∧ ∀ rest, spec (m.step s b) rest = spec s (b :: rest)
  endChunk : ∀ s, Inv s → Inv (m.endChunk s) ∧ ∀ rest, spec (m.endChunk s) rest = spec s rest

variable {m : Machine σ β} {Inv : σ → Prop} {spec : σ → List β → ω}

/-- Reading symbols one after another. -/
theorem Follows.foldl (h : Follows m Inv spec) (hs : Inv s) (chunk : List β) :
    Inv (chunk.foldl m.step s) ∧
      ∀ rest, spec (chunk.foldl m.step s) rest = spec s (chunk ++ rest) := by
  induction chunk generalizing s with
  | nil => exact ⟨hs, fun _ => rfl⟩
  | cons b chunk ih =>
      obtain ⟨hs', hspec⟩ := h.step s b hs
      obtain ⟨hinv, hrest⟩ := ih hs'
      exact ⟨hinv, fun rest => (hrest rest).trans (hspec (chunk ++ rest))⟩

/-- **The cuts do not matter.** A run over any chunks follows the specification on their
concatenation. -/
theorem Follows.run (h : Follows m Inv spec) (hs : Inv s) (chunks : List (List β)) :
    Inv (m.run s chunks) ∧
      ∀ rest, spec (m.run s chunks) rest = spec s (chunks.flatten ++ rest) := by
  induction chunks generalizing s with
  | nil => exact ⟨hs, fun _ => rfl⟩
  | cons chunk chunks ih =>
      obtain ⟨hs₁, hchunk⟩ := h.foldl hs chunk
      obtain ⟨hs₂, hend⟩ := h.endChunk _ hs₁
      obtain ⟨hinv, hrest⟩ := ih hs₂
      refine ⟨hinv, fun rest => ?_⟩
      calc spec (m.run (m.transform s chunk) chunks) rest
          = spec (m.transform s chunk) (chunks.flatten ++ rest) := hrest rest
        _ = spec s (chunk ++ (chunks.flatten ++ rest)) :=
            (hend _).trans (hchunk (chunks.flatten ++ rest))
        _ = spec s ((chunk :: chunks).flatten ++ rest) := by
            rw [List.flatten_cons, List.append_assoc]

/-- What holds at the start and at the end of every chunk holds after a run. -/
theorem Machine.run_endChunk {P : σ → Prop} (hs : P s) (hend : ∀ s, P (m.endChunk s))
    (chunks : List (List β)) : P (m.run s chunks) := by
  induction chunks generalizing s with
  | nil => exact hs
  | cons chunk chunks ih => exact ih (hend _)

/-! ### Buffered output -/

/-- What was handed on, and what is still held in a buffer. -/
structure Output (α : Type*) where
  pushed : List α
  held : List α

namespace Output

variable {α : Type*}

def empty : Output α := ⟨[], []⟩

/-- Everything produced so far, in order. -/
def text (o : Output α) : List α := o.pushed ++ o.held

/-- Hand on the buffer. -/
def flush (o : Output α) : Output α := ⟨o.pushed ++ o.held, []⟩

/-- Append one symbol to a buffer of the given capacity, making room first. -/
def emit (capacity : ℕ) (o : Output α) (b : α) : Output α :=
  if capacity ≤ o.held.length then ⟨o.pushed ++ o.held, [b]⟩ else ⟨o.pushed, o.held ++ [b]⟩

/-- Hand on symbols past the buffer. -/
def push (o : Output α) (bs : List α) : Output α := { o with pushed := o.pushed ++ bs }

@[simp] theorem text_empty : (empty : Output α).text = [] := rfl

@[simp] theorem text_flush (o : Output α) : o.flush.text = o.text := by simp [text, flush]

@[simp] theorem held_flush (o : Output α) : o.flush.held = [] := rfl

@[simp] theorem text_emit (capacity : ℕ) (o : Output α) (b : α) :
    (o.emit capacity b).text = o.text ++ [b] := by
  unfold emit
  split <;> simp [text]

/-- A push keeps the order as long as nothing is held back. -/
theorem text_push {o : Output α} (h : o.held = []) (bs : List α) :
    (o.push bs).text = o.text ++ bs := by
  simp [text, push, h]

@[simp] theorem held_push (o : Output α) (bs : List α) : (o.push bs).held = o.held := rfl

@[simp] theorem text_push_flush (o : Output α) (bs : List α) :
    (o.flush.push bs).text = o.text ++ bs := by
  rw [text_push o.held_flush, text_flush]

end Output

end Incremental
