import Mathlib.Data.List.Basic

/-!
# The Body Output of the Splitter

Body bytes leave the splitter in chunks of 64 KiB, each for one MIME node. `BodyOutput` is
the buffer with everything that was pushed; its capacity is a field, so that a copy always
finds room.

Main results:

* `append_eq_foldl`: copying a slice is copying its bytes one at a time, hence
  `append_append`: where a value is cut makes no difference to what is pushed, or when.
* `Wrote.append`, `Wrote.flush`: what is pushed and what is held make up what was appended.
-/

namespace MailPortal.Mime

variable {value : List UInt8}

/-- `OUTPUT_CHUNK_BYTES`. -/
def outputChunkBytes : ℕ := 64 * 1024

/-- `SplitterChunk`: what mailsplit reports about a node, or body bytes of a node. The type
of a body chunk is "data" for a multipart node and "body" otherwise. -/
inductive SplitterChunk (Node Data : Type)
  | node (data : Data)
  | body (node : Node) (multipart : Bool) (value : List UInt8)
  deriving DecidableEq

/-- `#output` and `#outputNode`, with the chunks pushed so far. -/
structure BodyOutput (Node Data : Type) where
  pushed : List (SplitterChunk Node Data)
  output : List UInt8
  outputNode : Option Node
  room : output.length < outputChunkBytes

namespace BodyOutput

variable {Node Data : Type} [DecidableEq Node]

theorem outputChunkBytes_pos : 0 < outputChunkBytes := by decide

/-- The output at the start. -/
def new : BodyOutput Node Data where
  pushed := []
  output := []
  outputNode := none
  room := outputChunkBytes_pos

/-- `#pushWithBackpressure`. -/
def push (o : BodyOutput Node Data) (chunk : SplitterChunk Node Data) : BodyOutput Node Data :=
  { o with pushed := o.pushed ++ [chunk] }

/-- `#flushOutput`. -/
def flush (multipart : Node → Bool) (o : BodyOutput Node Data) : BodyOutput Node Data :=
  match o.outputNode with
  | none => o
  | some node =>
      if o.output = [] then o
      else
        { pushed := o.pushed ++ [.body node (multipart node) o.output]
          output := []
          outputNode := none
          room := outputChunkBytes_pos }

/-- Put bytes into the buffer, which is handed on when that fills it. -/
def put (multipart : Node → Bool) (node : Node) (value : List UInt8)
    (o : BodyOutput Node Data) : BodyOutput Node Data :=
  if h : o.output.length + value.length < outputChunkBytes then
    { o with
      output := o.output ++ value
      outputNode := some node
      room := by simpa using h }
  else
    { pushed := o.pushed ++ [.body node (multipart node) (o.output ++ value)]
      output := []
      outputNode := none
      room := outputChunkBytes_pos }

/-- The copying loop of `#appendBody`: each turn copies as much as there is room for. The
first argument bounds the number of turns. -/
def copy (multipart : Node → Bool) (node : Node) :
    ℕ → List UInt8 → BodyOutput Node Data → BodyOutput Node Data
  | 0, _, o => o
  | turns + 1, value, o =>
      if value = [] then o
      else
        let writable := min (outputChunkBytes - o.output.length) value.length
        copy multipart node turns (value.drop writable)
          (o.put multipart node (value.take writable))

/-- The buffer is handed on when the bytes to come are for another node. -/
def switch (multipart : Node → Bool) (node : Node) (o : BodyOutput Node Data) :
    BodyOutput Node Data :=
  if o.outputNode.isSome && o.outputNode ≠ some node then o.flush multipart else o

/-- `#appendBody`, for the current node. -/
def append (multipart : Node → Bool) (node : Node) (value : List UInt8)
    (o : BodyOutput Node Data) : BodyOutput Node Data :=
  if value = [] then o else copy multipart node value.length value (o.switch multipart node)

/-! ### One byte at a time -/

/-- Append one byte. -/
def appendByte (multipart : Node → Bool) (node : Node) (o : BodyOutput Node Data) (byte : UInt8) :
    BodyOutput Node Data :=
  (o.switch multipart node).put multipart node [byte]

variable {multipart : Node → Bool} {node : Node}

/-- After a byte for a node the output belongs to that node, or to none. -/
theorem switch_put (value : List UInt8) (o : BodyOutput Node Data) :
    (o.put multipart node value).switch multipart node = o.put multipart node value := by
  rw [put]
  split <;> simp [switch]

/-- Bytes that the buffer has room for go in one at a time. -/
theorem put_eq_foldl {b : UInt8} {o : BodyOutput Node Data}
    (h : o.output.length + (b :: value).length ≤ outputChunkBytes) :
    o.put multipart node (b :: value) =
      value.foldl (appendByte multipart node) (o.put multipart node [b]) := by
  induction value generalizing b o with
  | nil => rfl
  | cons c value ih =>
      simp only [List.length_cons] at h
      have hput : o.put multipart node [b] =
          { o with
            output := o.output ++ [b]
            outputNode := some node
            room := by simp; omega } := by
        rw [put, dif_pos (by simp; omega)]
      rw [List.foldl_cons, appendByte, switch_put, ← ih (by rw [hput]; simp; omega), hput]
      simp [put, Nat.add_assoc, Nat.add_comm 1]

/-- A flushed output belongs to no node, unless there was nothing to flush. -/
theorem switch_switch (o : BodyOutput Node Data) :
    (o.switch multipart node).switch multipart node = o.switch multipart node := by
  obtain ⟨pushed, output, outputNode, room⟩ := o
  cases outputNode with
  | none => rfl
  | some other =>
      by_cases hnode : other = node
      · simp [switch, hnode]
      · by_cases hnil : output = [] <;> simp [switch, flush, hnode, hnil]

/-- Copying a slice is copying its bytes one at a time. -/
theorem copy_eq_foldl {turns : ℕ} (o : BodyOutput Node Data) (hturns : value.length ≤ turns)
    (hswitch : o.switch multipart node = o) :
    copy multipart node turns value o = value.foldl (appendByte multipart node) o := by
  induction turns generalizing value o with
  | zero =>
      rw [List.length_eq_zero_iff.mp (Nat.le_zero.mp hturns)]
      rfl
  | succ turns ih =>
      rw [copy]
      split
      · next hnil => rw [hnil]; rfl
      · next hne =>
        have hroom := o.room
        have hlength := List.length_pos_iff.mpr hne
        generalize hw : min (outputChunkBytes - o.output.length) value.length = writable
        obtain ⟨b, rest, hrest⟩ : ∃ b rest, value.take writable = b :: rest := by
          cases htake : value.take writable with
          | nil =>
              have hzero := congrArg List.length htake
              simp only [List.length_take, List.length_nil] at hzero
              omega
          | cons b rest => exact ⟨b, rest, rfl⟩
        have hfits : o.output.length + (b :: rest).length ≤ outputChunkBytes := by
          rw [← hrest, List.length_take]
          omega
        calc copy multipart node turns (value.drop writable)
              (o.put multipart node (value.take writable))
            = (value.drop writable).foldl (appendByte multipart node)
                (o.put multipart node (value.take writable)) :=
              ih _ (by rw [List.length_drop]; omega) (switch_put _ o)
          _ = (value.drop writable).foldl (appendByte multipart node)
                ((value.take writable).foldl (appendByte multipart node) o) := by
              rw [hrest, put_eq_foldl hfits, List.foldl_cons, appendByte, hswitch]
          _ = value.foldl (appendByte multipart node) o := by
              rw [← List.foldl_append, List.take_append_drop]

/-- **Appending is appending byte for byte.** -/
theorem append_eq_foldl (value : List UInt8) (o : BodyOutput Node Data) :
    o.append multipart node value = value.foldl (appendByte multipart node) o := by
  cases value with
  | nil => rfl
  | cons b value =>
      rw [append, if_neg nofun, copy_eq_foldl _ (Nat.le_refl _) (switch_switch o), List.foldl_cons,
        List.foldl_cons, appendByte, appendByte, switch_switch]

/-- **Where a value is cut makes no difference.** -/
theorem append_append (a b : List UInt8) (o : BodyOutput Node Data) :
    (o.append multipart node a).append multipart node b = o.append multipart node (a ++ b) := by
  simp only [append_eq_foldl, List.foldl_append]

@[simp] theorem append_nil (o : BodyOutput Node Data) : o.append multipart node [] = o := rfl

/-! ### The bytes of a node -/

/-- Since `base` was pushed, the bytes `text` were appended for a node, and nothing else was. -/
structure Wrote (multipart : Node → Bool) (node : Node) (base : List (SplitterChunk Node Data))
    (text : List UInt8) (o : BodyOutput Node Data) : Prop where
  owner : o.output ≠ [] → o.outputNode = some node
  written : ∃ values : List (List UInt8),
    o.pushed = base ++ values.map (.body node (multipart node)) ∧ values.flatten ++ o.output = text

variable {base : List (SplitterChunk Node Data)} {text : List UInt8} {o : BodyOutput Node Data}

omit [DecidableEq Node] in
/-- A flush with nothing to flush. -/
theorem flush_of_output_nil (h : o.output = []) : o.flush multipart = o := by
  rw [flush]
  cases o.outputNode with
  | none => rfl
  | some node => simp [h]

omit [DecidableEq Node] in
theorem Wrote.start (multipart : Node → Bool) (node : Node) (h : o.output = []) :
    Wrote multipart node o.pushed [] o :=
  ⟨fun hne => absurd h hne, [], by simp, by simpa using h⟩

omit [DecidableEq Node] in
/-- A flush hands on what is held. -/
theorem Wrote.flush (h : Wrote multipart node base text o) :
    Wrote multipart node base text (o.flush multipart) ∧ (o.flush multipart).output = [] := by
  obtain ⟨values, hpushed, htext⟩ := h.written
  by_cases hnil : o.output = []
  · rw [flush_of_output_nil hnil]
    exact ⟨h, hnil⟩
  · have hflush : o.flush multipart =
        { pushed := o.pushed ++ [.body node (multipart node) o.output]
          output := []
          outputNode := none
          room := outputChunkBytes_pos } := by
      simp only [BodyOutput.flush, h.owner hnil, if_neg hnil]
    rw [hflush]
    exact ⟨⟨fun hne => absurd rfl hne, values ++ [o.output], by simp [hpushed],
      by simpa using htext⟩, rfl⟩

/-- A byte for the node. -/
theorem Wrote.appendByte (h : Wrote multipart node base text o) (b : UInt8) :
    Wrote multipart node base (text ++ [b]) (o.appendByte multipart node b) := by
  have hswitch : Wrote multipart node base text (o.switch multipart node) := by
    rw [switch]
    split
    · exact h.flush.1
    · exact h
  rw [BodyOutput.appendByte, put]
  obtain ⟨values, hpushed, htext⟩ := hswitch.written
  split
  · exact ⟨fun _ => rfl, values, hpushed, by simp [← htext]⟩
  · exact ⟨fun hne => absurd rfl hne, values ++ [(o.switch multipart node).output ++ [b]],
      by simp [hpushed], by simp [← htext]⟩

/-- **What is appended for the node is what is written.** -/
theorem Wrote.append (h : Wrote multipart node base text o) (value : List UInt8) :
    Wrote multipart node base (text ++ value) (o.append multipart node value) := by
  rw [append_eq_foldl]
  induction value generalizing text o with
  | nil => simpa using h
  | cons b value ih => simpa using ih (h.appendByte b)

end BodyOutput

end MailPortal.Mime
