import MailPortal.Lib.JsonNumber

/-!
# JSON Texts

JSON values as JavaScript has them, the text that is written for a value, and the reader of
texts. An object is the list of its members, in their order and with distinct keys; a number is
a double, or none when it is not finite.

The reader is a machine over the characters of the text with a stack of open arrays and objects,
so that it is total by construction. Where a text has half of a surrogate pair alone, the reader
puts U+FFFD, and numbers are written out in full.

Main results:

* `parse_stringify` : what is written reads back as it was.
* `parse_sound` : what is read has distinct keys and is made of doubles.
-/

/-- A value. -/
inductive Json
  | null
  | bool (b : Bool)
  /-- `none` for a number that is not finite. -/
  | num (x : Option ℚ)
  | str (s : String)
  | arr (items : List Json)
  | obj (members : List (String × Json))

namespace Json

variable {members : List (String × Json)} {v : Json} {c : Char}

/-! ### Values -/

mutual

/-- The numbers of a value satisfy `P`, and the keys of its objects are distinct. -/
def Over (P : Option ℚ → Prop) : Json → Prop
  | .num x => P x
  | .arr items => OverItems P items
  | .obj members => (members.map Prod.fst).Nodup ∧ OverMembers P members
  | _ => True

def OverItems (P : Option ℚ → Prop) : List Json → Prop
  | [] => True
  | v :: vs => v.Over P ∧ OverItems P vs

def OverMembers (P : Option ℚ → Prop) : List (String × Json) → Prop
  | [] => True
  | (_, v) :: members => v.Over P ∧ OverMembers P members

end

/-- A finite number. -/
def IsFinite (x : Option ℚ) : Prop := x.isSome = true

/-- A number as it is read: a double, if it is finite. -/
def IsNumber (x : Option ℚ) : Prop := ∀ q, x = some q → Double.IsDouble q

/-- **A value that is plain data.** -/
def Plain (v : Json) : Prop := v.Over fun x => IsFinite x ∧ IsNumber x

theorem overItems_iff {P : Option ℚ → Prop} {items : List Json} :
    OverItems P items ↔ ∀ v ∈ items, v.Over P := by
  induction items with
  | nil => simp [OverItems]
  | cons v vs ih => simp [OverItems, ih]

theorem overMembers_iff {P : Option ℚ → Prop} :
    OverMembers P members ↔ ∀ m ∈ members, m.2.Over P := by
  induction members with
  | nil => simp [OverMembers]
  | cons m members ih =>
      obtain ⟨key, v⟩ := m
      simp [OverMembers, ih]

mutual

variable {P Q : Option ℚ → Prop}

theorem Over.and {v : Json} (hP : v.Over P) (hQ : v.Over Q) : v.Over fun x => P x ∧ Q x := by
  cases v with
  | num x => exact ⟨hP, hQ⟩
  | arr items => exact OverItems.and hP hQ
  | obj members => exact ⟨hP.1, OverMembers.and hP.2 hQ.2⟩
  | _ => exact trivial

theorem OverItems.and {items : List Json} (hP : OverItems P items) (hQ : OverItems Q items) :
    OverItems (fun x => P x ∧ Q x) items := by
  cases items with
  | nil => exact trivial
  | cons v vs => exact ⟨Over.and hP.1 hQ.1, OverItems.and hP.2 hQ.2⟩

theorem OverMembers.and {members : List (String × Json)} (hP : OverMembers P members)
    (hQ : OverMembers Q members) : OverMembers (fun x => P x ∧ Q x) members := by
  cases members with
  | nil => exact trivial
  | cons m members => exact ⟨Over.and hP.1 hQ.1, OverMembers.and hP.2 hQ.2⟩

end

/-! ### Texts -/

def hexChar (d : ℕ) : Char := if d < 10 then Char.ofNat (0x30 + d) else Char.ofNat (0x57 + d)

/-- A character of a string, in its text. -/
def escapeChar (c : Char) : List Char :=
  if c = '"' then ['\\', '"']
  else if c = '\\' then ['\\', '\\']
  else if c = '\x08' then ['\\', 'b']
  else if c = '\t' then ['\\', 't']
  else if c = '\n' then ['\\', 'n']
  else if c = '\x0c' then ['\\', 'f']
  else if c = '\r' then ['\\', 'r']
  else if c.toNat < 0x20 then
    ['\\', 'u', '0', '0', hexChar (c.toNat / 16), hexChar (c.toNat % 16)]
  else [c]

/-- The text of a string, after the opening quote. -/
def quoted (s : String) : List Char := s.toList.flatMap escapeChar ++ ['"']

mutual

/-- The text of a value. -/
def chars : Json → List Char
  | .null => ['n', 'u', 'l', 'l']
  | .bool true => ['t', 'r', 'u', 'e']
  | .bool false => ['f', 'a', 'l', 's', 'e']
  | .num none => ['n', 'u', 'l', 'l']
  | .num (some q) => numberText q
  | .str s => '"' :: quoted s
  | .arr [] => ['[', ']']
  | .arr (v :: vs) => '[' :: (v.chars ++ moreItems vs)
  | .obj [] => ['{', '}']
  | .obj ((key, v) :: members) =>
      '{' :: '"' :: (quoted key ++ ':' :: (v.chars ++ moreMembers members))

/-- The items of an array after the first. -/
def moreItems : List Json → List Char
  | [] => [']']
  | v :: vs => ',' :: (v.chars ++ moreItems vs)

/-- The members of an object after the first. -/
def moreMembers : List (String × Json) → List Char
  | [] => ['}']
  | (key, v) :: members =>
      ',' :: '"' :: (quoted key ++ ':' :: (v.chars ++ moreMembers members))

end

/-- `JSON.stringify`. -/
def stringify (v : Json) : String := String.ofList v.chars

/-! ### The reader -/

/-- An array or an object that is open. -/
inductive Frame
  | items (done : List Json)
  | object (done : List (String × Json))
  /-- The value of a key is to come. -/
  | member (done : List (String × Json)) (key : String)

/-- What a string is. -/
inductive Role
  | value
  | key

/-- Where in an escape sequence. -/
inductive Escape
  | none
  | slash
  | hex (value left : ℕ)

/-- What the reader waits for. -/
inductive Mode
  | value
  /-- After an opening bracket. -/
  | firstItem
  /-- After an opening brace. -/
  | firstKey
  | nextKey
  | colon (key : String)
  /-- `high` is half of a surrogate pair. -/
  | text (role : Role) (read : List Char) (high : Option ℕ) (escape : Escape)
  | word (rest : List Char) (v : Json)
  | number (read : List Char)
  | done (v : Json)

/-- A text read up to a place. -/
structure Reader where
  mode : Mode
  stack : List Frame

variable {r r' : Reader} {stack : List Frame}

def isBlank (c : Char) : Bool := c = ' ' || c = '\t' || c = '\n' || c = '\r'

/-- A value begins. -/
def beginValue (stack : List Frame) (c : Char) : Option Reader :=
  if c = '"' then some ⟨.text .value [] none .none, stack⟩
  else if c = '[' then some ⟨.firstItem, .items [] :: stack⟩
  else if c = '{' then some ⟨.firstKey, .object [] :: stack⟩
  else if c = 'n' then some ⟨.word ['u', 'l', 'l'] .null, stack⟩
  else if c = 't' then some ⟨.word ['r', 'u', 'e'] (.bool true), stack⟩
  else if c = 'f' then some ⟨.word ['a', 'l', 's', 'e'] (.bool false), stack⟩
  else if c = '-' || isDigit c then some ⟨.number [c], stack⟩
  else none

/-- A member of an object: a key that is there keeps its place. -/
def put (members : List (String × Json)) (key : String) (v : Json) : List (String × Json) :=
  if members.any fun m => m.1 = key then members.map fun m => if m.1 = key then (key, v) else m
  else members ++ [(key, v)]

/-- A value has ended, and a character follows it. -/
def endValue (v : Json) (stack : List Frame) (c : Char) : Option Reader :=
  if isBlank c then some ⟨.done v, stack⟩
  else
    match stack with
    | .items done :: stack =>
        if c = ',' then some ⟨.value, .items (done ++ [v]) :: stack⟩
        else if c = ']' then some ⟨.done (.arr (done ++ [v])), stack⟩
        else none
    | .member done key :: stack =>
        if c = ',' then some ⟨.nextKey, .object (put done key v) :: stack⟩
        else if c = '}' then some ⟨.done (.obj (put done key v)), stack⟩
        else none
    | _ => none

/-- The characters read, with what is left of a surrogate pair. -/
def flush (read : List Char) (high : Option ℕ) : List Char :=
  if high.isSome then read ++ [Char.ofNat 0xFFFD] else read

/-- A string has ended. -/
def endText (role : Role) (read : List Char) (stack : List Frame) : Option Reader :=
  match role, stack with
  | .value, stack => some ⟨.done (.str (String.ofList read)), stack⟩
  | .key, .object done :: stack =>
      some ⟨.colon (String.ofList read), .object done :: stack⟩
  | .key, _ => none

def hexValue (c : Char) : Option ℕ :=
  if '0' ≤ c && c ≤ '9' then some (c.toNat - 0x30)
  else if 'a' ≤ c && c ≤ 'f' then some (c.toNat - 0x57)
  else if 'A' ≤ c && c ≤ 'F' then some (c.toNat - 0x37)
  else none

/-- A code unit: the characters that are complete, and half of a surrogate pair. -/
def pushUnit (read : List Char) (high : Option ℕ) (unit : ℕ) : List Char × Option ℕ :=
  if 0xD800 ≤ unit && unit < 0xDC00 then (flush read high, some unit)
  else if 0xDC00 ≤ unit && unit < 0xE000 then
    match high with
    | some h => (read ++ [Char.ofNat (0x10000 + (h - 0xD800) * 0x400 + (unit - 0xDC00))], none)
    | none => (read ++ [Char.ofNat 0xFFFD], none)
  else (flush read high ++ [Char.ofNat unit], none)

/-- A character after a backslash. -/
def unescape (c : Char) : Option Char :=
  if c = '"' || c = '\\' || c = '/' then some c
  else if c = 'b' then some '\x08'
  else if c = 'f' then some '\x0c'
  else if c = 'n' then some '\n'
  else if c = 'r' then some '\r'
  else if c = 't' then some '\t'
  else none

/-- A character of a string. -/
def readText (role : Role) (read : List Char) (high : Option ℕ) (stack : List Frame) (c : Char) :
    Escape → Option Reader
  | .none =>
      if c = '"' then endText role (flush read high) stack
      else if c = '\\' then some ⟨.text role read high .slash, stack⟩
      else if c.toNat < 0x20 then none
      else some ⟨.text role (flush read high ++ [c]) none .none, stack⟩
  | .slash =>
      if c = 'u' then some ⟨.text role read high (.hex 0 4), stack⟩
      else (unescape c).map fun c => ⟨.text role (flush read high ++ [c]) none .none, stack⟩
  | .hex value left =>
      (hexValue c).map fun d =>
        if left ≤ 1 then
          let (read, high) := pushUnit read high (16 * value + d)
          ⟨.text role read high .none, stack⟩
        else ⟨.text role read high (.hex (16 * value + d) (left - 1)), stack⟩

/-- One character. -/
def step (r : Reader) (c : Char) : Option Reader :=
  match r.mode, r.stack with
  | .value, stack => if isBlank c then some r else beginValue stack c
  | .firstItem, .items [] :: stack =>
      if isBlank c then some r
      else if c = ']' then some ⟨.done (.arr []), stack⟩
      else beginValue (.items [] :: stack) c
  | .firstItem, _ => none
  | .firstKey, .object [] :: stack =>
      if isBlank c then some r
      else if c = '}' then some ⟨.done (.obj []), stack⟩
      else if c = '"' then some ⟨.text .key [] none .none, .object [] :: stack⟩
      else none
  | .firstKey, _ => none
  | .nextKey, stack =>
      if isBlank c then some r
      else if c = '"' then some ⟨.text .key [] none .none, stack⟩
      else none
  | .colon key, .object done :: stack =>
      if isBlank c then some r
      else if c = ':' then some ⟨.value, .member done key :: stack⟩
      else none
  | .colon _, _ => none
  | .text role read high escape, stack => readText role read high stack c escape
  | .word [] v, stack => endValue v stack c
  | .word (c' :: rest) v, stack =>
      if c ≠ c' then none
      else if rest = [] then some ⟨.done v, stack⟩
      else some ⟨.word rest v, stack⟩
  | .number read, stack =>
      if isNumberChar c then some ⟨.number (read ++ [c]), stack⟩
      else (readNumber read).bind fun q => endValue (.num (Double.nearest q)) stack c
  | .done v, stack => endValue v stack c

/-- The end of the text. -/
def finish (r : Reader) : Option Json :=
  match r.mode, r.stack with
  | .done v, [] => some v
  | .number read, [] => (readNumber read).map fun q => .num (Double.nearest q)
  | _, _ => none

/-- Many characters. -/
def run (r : Reader) (cs : List Char) : Option Reader := cs.foldlM step r

/-- `JSON.parse`; `none` when it throws. -/
def parse (s : String) : Option Json := (run ⟨.value, []⟩ s.toList).bind finish

/-! ### What is written reads back -/

theorem run_append (r : Reader) (cs ds : List Char) :
    run r (cs ++ ds) = (run r cs).bind fun r => run r ds := List.foldlM_append

theorem run_cons (r : Reader) (c : Char) (cs : List Char) :
    run r (c :: cs) = (step r c).bind fun r => run r cs := List.foldlM_cons

/-- A control character is the character of its two hexadecimal digits. -/
theorem hex_control (n : ℕ) (h : n < 32) : hexValue (hexChar (n / 16)) = some (n / 16) ∧
    hexValue (hexChar (n % 16)) = some (n % 16) := by
  have hall : ∀ n < 32, hexValue (hexChar (n / 16)) = some (n / 16) ∧
      hexValue (hexChar (n % 16)) = some (n % 16) := by decide
  exact hall n h

/-- A character of a string reads back. -/
theorem run_escapeChar (role : Role) (read : List Char) (stack : List Frame) (c : Char) :
    run ⟨.text role read none .none, stack⟩ (escapeChar c) =
      some ⟨.text role (read ++ [c]) none .none, stack⟩ := by
  rw [escapeChar]
  split
  · rename_i h
    rw [h]
    rfl
  split
  · rename_i h
    rw [h]
    rfl
  split
  · rename_i h
    rw [h]
    rfl
  split
  · rename_i h
    rw [h]
    rfl
  split
  · rename_i h
    rw [h]
    rfl
  split
  · rename_i h
    rw [h]
    rfl
  split
  · rename_i h
    rw [h]
    rfl
  split
  · rename_i hcontrol
    obtain ⟨hhigh, hlow⟩ := hex_control c.toNat hcontrol
    have hzero : hexValue '0' = some 0 := by decide
    have hunit : 16 * (c.toNat / 16) + c.toNat % 16 = c.toNat := Nat.div_add_mod _ _
    have hplain : pushUnit read none c.toNat = (read ++ [c], none) := by
      have hfirst : ¬ 0xD800 ≤ c.toNat := by omega
      have hsecond : ¬ 0xDC00 ≤ c.toNat := by omega
      simp [pushUnit, flush, hfirst, hsecond]
    simp [run, step, readText, hzero, hhigh, hlow, hunit, hplain]
  · rename_i hquote hslash _ _ _ _ _ hcontrol
    simp [run, step, readText, hquote, hslash, hcontrol, flush]

/-- **A string reads back.** -/
theorem run_quoted (role : Role) (s : String) (stack : List Frame) :
    run ⟨.text role [] none .none, stack⟩ (quoted s) = endText role s.toList stack := by
  have hchars : ∀ (cs read : List Char), run ⟨.text role read none .none, stack⟩
      (cs.flatMap escapeChar) = some ⟨.text role (read ++ cs) none .none, stack⟩ := by
    intro cs
    induction cs with
    | nil =>
        intro read
        rw [List.append_nil]
        rfl
    | cons c cs ih =>
        intro read
        rw [List.flatMap_cons, run_append, run_escapeChar, Option.bind_some, ih, List.append_assoc]
        rfl
  rw [quoted, run_append, hchars, Option.bind_some, List.nil_append]
  simp [run, step, readText, flush]

/-- A value has been read, but for the end of a number. -/
def Reader.Holds (r : Reader) (v : Json) (stack : List Frame) : Prop :=
  r = ⟨.done v, stack⟩ ∨
    ∃ read q, r = ⟨.number read, stack⟩ ∧ readNumber read = some q ∧ v = .num (Double.nearest q)

/-- What follows a value ends it. -/
theorem Reader.Holds.step (h : r.Holds v stack) (hc : isNumberChar c = false) :
    Json.step r c = endValue v stack c := by
  rcases h with rfl | ⟨read, q, rfl, hread, rfl⟩
  · rfl
  · simp [Json.step, hc, hread]

theorem Reader.Holds.finish (h : r.Holds v []) : Json.finish r = some v := by
  rcases h with rfl | ⟨read, q, rfl, hread, rfl⟩
  · rfl
  · simp [Json.finish, hread]

/-- The numbers of a number's text are read one by one. -/
theorem run_number (stack : List Frame) (cs read : List Char)
    (h : ∀ c ∈ cs, isNumberChar c = true) :
    run ⟨.number read, stack⟩ cs = some ⟨.number (read ++ cs), stack⟩ := by
  induction cs generalizing read with
  | nil =>
      rw [List.append_nil]
      rfl
  | cons c cs ih =>
      have hc := h c List.mem_cons_self
      rw [run_cons, step]
      simp only [hc, if_true, Option.bind_some]
      rw [ih _ fun c' hc' => h c' (List.mem_cons_of_mem c hc'), List.append_assoc]
      rfl

/-- How the text of a value begins. -/
theorem chars_head (v : Json) : ∃ c cs, v.chars = c :: cs ∧ isBlank c = false ∧ c ≠ ']' := by
  have hnumber : ∀ c, isNumberChar c = true → isBlank c = false ∧ c ≠ ']' := by
    intro c hc
    constructor
    · by_contra hblank
      rw [Bool.not_eq_false, isBlank] at hblank
      simp only [Bool.or_eq_true, decide_eq_true_eq] at hblank
      rcases hblank with ((rfl | rfl) | rfl) | rfl <;> cases hc
    · rintro rfl
      cases hc
  cases v with
  | null => exact ⟨_, _, rfl, by decide, by decide⟩
  | bool b => cases b <;> exact ⟨_, _, rfl, by decide, by decide⟩
  | num x =>
      cases x with
      | none => exact ⟨_, _, rfl, by decide, by decide⟩
      | some q =>
          obtain ⟨c, cs, htext, -⟩ := numberText_head q
          exact ⟨c, cs, htext, hnumber c (numberText_chars q c (htext ▸ List.mem_cons_self))⟩
  | str s => exact ⟨_, _, rfl, by decide, by decide⟩
  | arr items => cases items <;> exact ⟨_, _, rfl, by decide, by decide⟩
  | obj members => cases members <;> exact ⟨_, _, rfl, by decide, by decide⟩

/-- The first item of an array is read like any other. -/
theorem run_firstItem (v : Json) (rest : List Char) (stack : List Frame) :
    run ⟨.firstItem, .items [] :: stack⟩ (v.chars ++ rest) =
      run ⟨.value, .items [] :: stack⟩ (v.chars ++ rest) := by
  obtain ⟨c, cs, htext, hblank, hclose⟩ := chars_head v
  rw [htext, List.cons_append, run_cons, run_cons]
  simp [step, hblank, hclose]

/-- A number's text begins a number. -/
theorem run_numberText (q : ℚ) (stack : List Frame) :
    run ⟨.value, stack⟩ (numberText q) = some ⟨.number (numberText q), stack⟩ := by
  obtain ⟨c, cs, htext, hstart⟩ := numberText_head q
  have hbegin : step ⟨.value, stack⟩ c = some ⟨.number [c], stack⟩ := by
    have hother : ∀ d : Char, (decide (d = '-') || isDigit d) = false → c ≠ d := by
      rintro d hd rfl
      rw [hstart] at hd
      cases hd
    have hblank : isBlank c = false := by
      simp [isBlank, hother ' ' (by decide), hother '\t' (by decide), hother '\n' (by decide),
        hother '\r' (by decide)]
    simp only [step, hblank, Bool.false_eq_true, if_false]
    rw [beginValue, if_neg (hother _ (by decide)), if_neg (hother _ (by decide)),
      if_neg (hother _ (by decide)), if_neg (hother _ (by decide)),
      if_neg (hother _ (by decide)), if_neg (hother _ (by decide)), if_pos hstart]
  have hchars : ∀ c' ∈ cs, isNumberChar c' = true := fun c' hc' =>
    numberText_chars q c' (htext ▸ List.mem_cons_of_mem c hc')
  rw [htext, run_cons, hbegin, Option.bind_some, run_number stack cs [c] hchars]
  rfl

/-- A new member comes last. -/
theorem put_new {key : String} (v : Json) (h : key ∉ members.map Prod.fst) :
    put members key v = members ++ [(key, v)] := by
  rw [put, if_neg]
  rw [Bool.not_eq_true, List.any_eq_false]
  intro m hm
  simpa using fun hkey => h (List.mem_map.mpr ⟨m, hm, hkey⟩)

/-- A key and the colon after it. -/
theorem run_member (key : String) (rest : List Char) (done : List (String × Json))
    (stack : List Frame) :
    run ⟨.text .key [] none .none, .object done :: stack⟩ (quoted key ++ ':' :: rest) =
      run ⟨.value, .member done key :: stack⟩ rest := by
  rw [run_append, run_quoted, endText, String.ofList_toList, Option.bind_some, run_cons]
  rfl

mutual

/-- **A value reads back.** By recursion on the value, for any stack. -/
theorem run_chars {v : Json} (h : v.Plain) (stack : List Frame) :
    ∃ r, run ⟨.value, stack⟩ v.chars = some r ∧ r.Holds v stack := by
  cases v with
  | null => exact ⟨_, rfl, .inl rfl⟩
  | bool b => cases b <;> exact ⟨_, rfl, .inl rfl⟩
  | num x =>
      obtain ⟨hfinite, hnumber⟩ := h
      obtain ⟨q, rfl⟩ := Option.isSome_iff_exists.mp hfinite
      have hq := hnumber q rfl
      refine ⟨_, run_numberText q stack, .inr ⟨_, q, rfl, readNumber_numberText hq, ?_⟩⟩
      rw [hq]
  | str s =>
      refine ⟨⟨.done (.str s), stack⟩, ?_, .inl rfl⟩
      rw [chars, run_cons]
      simp [step, beginValue, isBlank, run_quoted, endText]
  | arr items =>
      cases items with
      | nil => exact ⟨_, rfl, .inl rfl⟩
      | cons v vs =>
          obtain ⟨r, hr, hholds⟩ := run_chars h.1 (.items [] :: stack)
          have hrest := run_moreItems (overItems_iff.mp h.2) hholds
          have hopen : step ⟨.value, stack⟩ '[' = some ⟨.firstItem, .items [] :: stack⟩ := rfl
          refine ⟨_, ?_, .inl rfl⟩
          rw [chars, run_cons, hopen, Option.bind_some, run_firstItem, run_append, hr,
            Option.bind_some, hrest]
          rfl
  | obj members =>
      obtain ⟨hkeys, hmembers⟩ := h
      cases members with
      | nil => exact ⟨_, rfl, .inl rfl⟩
      | cons m members =>
          obtain ⟨key, v⟩ := m
          obtain ⟨r, hr, hholds⟩ := run_chars hmembers.1 (.member [] key :: stack)
          have hrest := run_moreMembers (overMembers_iff.mp hmembers.2) hholds hkeys
          have hopen : step ⟨.value, stack⟩ '{' = some ⟨.firstKey, .object [] :: stack⟩ := rfl
          have hquote : step ⟨.firstKey, .object [] :: stack⟩ '"' =
              some ⟨.text .key [] none .none, .object [] :: stack⟩ := rfl
          refine ⟨_, ?_, .inl rfl⟩
          rw [chars, run_cons, hopen, Option.bind_some, run_cons, hquote, Option.bind_some,
            run_member, run_append, hr, Option.bind_some, hrest]
          rfl

theorem run_moreItems {vs : List Json} (h : ∀ v ∈ vs, v.Plain) {r : Reader} {v : Json}
    {done : List Json} {stack : List Frame} (hr : r.Holds v (.items done :: stack)) :
    run r (moreItems vs) = some ⟨.done (.arr (done ++ v :: vs)), stack⟩ := by
  cases vs with
  | nil =>
      rw [moreItems, run_cons, hr.step (by decide)]
      rfl
  | cons v' vs =>
      obtain ⟨r', hr', hholds'⟩ :=
        run_chars (h v' List.mem_cons_self) (.items (done ++ [v]) :: stack)
      have hrest := run_moreItems (fun v'' hv'' => h v'' (List.mem_cons_of_mem v' hv'')) hholds'
      rw [moreItems, run_cons, hr.step (by decide)]
      simp [endValue, isBlank, run_append, hr', hrest]

theorem run_moreMembers {members : List (String × Json)} (h : ∀ m ∈ members, m.2.Plain)
    {r : Reader} {v : Json} {done : List (String × Json)} {key : String} {stack : List Frame}
    (hr : r.Holds v (.member done key :: stack))
    (hkeys : ((done ++ (key, v) :: members).map Prod.fst).Nodup) :
    run r (moreMembers members) = some ⟨.done (.obj (done ++ (key, v) :: members)), stack⟩ := by
  have hput : put done key v = done ++ [(key, v)] := by
    refine put_new v fun hkey => ?_
    rw [List.map_append, List.nodup_append] at hkeys
    exact hkeys.2.2 key hkey key List.mem_cons_self rfl
  cases members with
  | nil =>
      rw [moreMembers, run_cons, hr.step (by decide), ← hput]
      rfl
  | cons m members =>
      obtain ⟨key', v'⟩ := m
      rw [List.append_cons, ← hput] at hkeys
      obtain ⟨r', hr', hholds'⟩ :=
        run_chars (h (key', v') List.mem_cons_self) (.member (put done key v) key' :: stack)
      have hrest := run_moreMembers
        (fun m hm => h m (List.mem_cons_of_mem (key', v') hm)) hholds' hkeys
      have hcomma : endValue v (.member done key :: stack) ',' =
          some ⟨.nextKey, .object (put done key v) :: stack⟩ := rfl
      have hquote : step ⟨.nextKey, .object (put done key v) :: stack⟩ '"' =
          some ⟨.text .key [] none .none, .object (put done key v) :: stack⟩ := rfl
      rw [moreMembers, run_cons, hr.step (by decide), hcomma, Option.bind_some, run_cons, hquote,
        Option.bind_some, run_member, run_append, hr', Option.bind_some, hrest, hput,
        ← List.append_cons]

end

theorem parse_ofList (cs : List Char) :
    parse (String.ofList cs) = (run ⟨.value, []⟩ cs).bind finish := by
  rw [parse, String.toList_ofList]

/-- **What is written reads back.** -/
theorem parse_stringify {v : Json} (h : v.Plain) : parse (stringify v) = some v := by
  obtain ⟨r, hr, hholds⟩ := run_chars h []
  rw [stringify, parse_ofList, hr, Option.bind_some, hholds.finish]

/-- A value is told by its text. -/
theorem stringify_inj {w : Json} (hv : v.Plain) (hw : w.Plain) (h : stringify v = stringify w) :
    v = w := by
  have hparse := parse_stringify hv
  rw [h, parse_stringify hw] at hparse
  exact (Option.some.inj hparse).symm

/-! ### What is read -/

/-- The members of an object that is read. -/
def GoodMembers (members : List (String × Json)) : Prop :=
  (members.map Prod.fst).Nodup ∧ ∀ m ∈ members, m.2.Over IsNumber

/-- What has been read of an open array or object. -/
def Frame.Good : Frame → Prop
  | .items done => ∀ v ∈ done, v.Over IsNumber
  | .object done => GoodMembers done
  | .member done _ => GoodMembers done

def Mode.Good : Mode → Prop
  | .word _ v => v.Over IsNumber
  | .done v => v.Over IsNumber
  | _ => True

/-- The reader's invariant. -/
structure Reader.Good (r : Reader) : Prop where
  mode : r.mode.Good
  stack : ∀ f ∈ r.stack, f.Good

/-- A member keeps the keys distinct. -/
theorem GoodMembers.put (h : GoodMembers members) (key : String) (hv : v.Over IsNumber) :
    GoodMembers (put members key v) := by
  obtain ⟨hkeys, hmembers⟩ := h
  by_cases hkey : key ∈ members.map Prod.fst
  · obtain ⟨m, hm, hmkey⟩ := List.mem_map.mp hkey
    rw [Json.put, if_pos (List.any_eq_true.mpr ⟨m, hm, decide_eq_true hmkey⟩)]
    have hsame : (members.map fun m => if m.1 = key then (key, v) else m).map Prod.fst =
        members.map Prod.fst := by
      rw [List.map_map]
      refine List.map_congr_left fun m _ => ?_
      by_cases h : m.1 = key <;> simp [h]
    refine ⟨hsame ▸ hkeys, fun m hm => ?_⟩
    obtain ⟨m', hm', rfl⟩ := List.mem_map.mp hm
    split
    · exact hv
    · exact hmembers m' hm'
  · rw [put_new v hkey]
    refine ⟨?_, fun m hm => ?_⟩
    · rw [List.map_append, List.map_singleton]
      exact List.concat_eq_append ▸ List.Nodup.concat hkey hkeys
    · rcases List.mem_append.mp hm with hm | hm
      · exact hmembers m hm
      · rw [List.mem_singleton.mp hm]
        exact hv

theorem good_append {done : List Json} (h : ∀ v ∈ done, v.Over IsNumber) (hv : v.Over IsNumber) :
    ∀ v' ∈ done ++ [v], v'.Over IsNumber := by
  intro v' hv'
  rcases List.mem_append.mp hv' with hv' | hv'
  · exact h v' hv'
  · rw [List.mem_singleton.mp hv']
    exact hv

/-- A number that is read is a double. -/
theorem isNumber_nearest (q : ℚ) : IsNumber (Double.nearest q) := fun _ h =>
  Double.nearest_isDouble h

theorem endValue_good (hv : v.Over IsNumber) (hstack : ∀ f ∈ stack, f.Good)
    (h : endValue v stack c = some r) : r.Good := by
  unfold endValue at h
  split at h
  · cases h
    exact ⟨hv, hstack⟩
  · split at h
    · rename_i done stack
      obtain ⟨hdone, hrest⟩ := List.forall_mem_cons.mp hstack
      have hitems := good_append hdone hv
      split at h
      · cases h
        exact ⟨trivial, List.forall_mem_cons.mpr ⟨hitems, hrest⟩⟩
      · split at h
        · cases h
          exact ⟨overItems_iff.mpr hitems, hrest⟩
        · cases h
    · rename_i done key stack
      obtain ⟨hdone, hrest⟩ := List.forall_mem_cons.mp hstack
      have hmembers := GoodMembers.put hdone key hv
      split at h
      · cases h
        exact ⟨trivial, List.forall_mem_cons.mpr ⟨hmembers, hrest⟩⟩
      · split at h
        · cases h
          exact ⟨⟨hmembers.1, overMembers_iff.mpr hmembers.2⟩, hrest⟩
        · cases h
    · cases h

theorem beginValue_good (hstack : ∀ f ∈ stack, f.Good) (h : beginValue stack c = some r) :
    r.Good := by
  rw [beginValue] at h
  have hitems : Frame.Good (.items []) := nofun
  have hobject : Frame.Good (.object []) := ⟨List.nodup_nil, nofun⟩
  split at h
  · cases h
    exact ⟨trivial, hstack⟩
  split at h
  · cases h
    exact ⟨trivial, List.forall_mem_cons.mpr ⟨hitems, hstack⟩⟩
  split at h
  · cases h
    exact ⟨trivial, List.forall_mem_cons.mpr ⟨hobject, hstack⟩⟩
  split at h
  · cases h
    exact ⟨trivial, hstack⟩
  split at h
  · cases h
    exact ⟨trivial, hstack⟩
  split at h
  · cases h
    exact ⟨trivial, hstack⟩
  split at h
  · cases h
    exact ⟨trivial, hstack⟩
  · cases h

theorem readText_good {role : Role} {read : List Char} {high : Option ℕ} {escape : Escape}
    (hstack : ∀ f ∈ stack, f.Good) (h : readText role read high stack c escape = some r) :
    r.Good := by
  cases escape with
  | none =>
      rw [readText] at h
      split at h
      · unfold endText at h
        split at h
        · cases h
          exact ⟨trivial, hstack⟩
        · cases h
          exact ⟨trivial, hstack⟩
        · cases h
      split at h
      · cases h
        exact ⟨trivial, hstack⟩
      split at h
      · cases h
      · cases h
        exact ⟨trivial, hstack⟩
  | slash =>
      rw [readText] at h
      split at h
      · cases h
        exact ⟨trivial, hstack⟩
      · obtain ⟨c', -, rfl⟩ := Option.map_eq_some_iff.mp h
        exact ⟨trivial, hstack⟩
  | hex value left =>
      rw [readText] at h
      obtain ⟨d, -, rfl⟩ := Option.map_eq_some_iff.mp h
      split <;> exact ⟨trivial, hstack⟩

/-- One character keeps the invariant. -/
theorem step_good (hr : r.Good) (h : step r c = some r') : r'.Good := by
  obtain ⟨mode, stack⟩ := r
  obtain ⟨hmode, hstack⟩ := hr
  have hempty : Json.Over IsNumber (.arr []) ∧ Json.Over IsNumber (.obj []) :=
    ⟨trivial, List.nodup_nil, trivial⟩
  unfold step at h
  dsimp only at h hmode hstack
  split at h
  · split at h
    · cases h
      exact ⟨trivial, hstack⟩
    · exact beginValue_good hstack h
  · split at h
    · cases h
      exact ⟨trivial, hstack⟩
    split at h
    · cases h
      exact ⟨hempty.1, (List.forall_mem_cons.mp hstack).2⟩
    · exact beginValue_good hstack h
  · cases h
  · split at h
    · cases h
      exact ⟨trivial, hstack⟩
    split at h
    · cases h
      exact ⟨hempty.2, (List.forall_mem_cons.mp hstack).2⟩
    split at h
    · cases h
      exact ⟨trivial, hstack⟩
    · cases h
  · cases h
  · split at h
    · cases h
      exact ⟨trivial, hstack⟩
    split at h
    · cases h
      exact ⟨trivial, hstack⟩
    · cases h
  · split at h
    · cases h
      exact ⟨trivial, hstack⟩
    split at h
    · cases h
      obtain ⟨hdone, hrest⟩ := List.forall_mem_cons.mp hstack
      exact ⟨trivial, List.forall_mem_cons.mpr ⟨hdone, hrest⟩⟩
    · cases h
  · cases h
  · exact readText_good hstack h
  · exact endValue_good hmode hstack h
  · split at h
    · cases h
    split at h
    · cases h
      exact ⟨hmode, hstack⟩
    · cases h
      exact ⟨hmode, hstack⟩
  · split at h
    · cases h
      exact ⟨trivial, hstack⟩
    · obtain ⟨q, -, hend⟩ := Option.bind_eq_some_iff.mp h
      exact endValue_good (v := .num _) (isNumber_nearest q) hstack hend
  · exact endValue_good hmode hstack h

theorem run_good {cs : List Char} (hr : r.Good) (h : run r cs = some r') : r'.Good := by
  induction cs generalizing r with
  | nil =>
      cases h
      exact hr
  | cons c cs ih =>
      rw [run_cons] at h
      obtain ⟨r₁, hstep, hrun⟩ := Option.bind_eq_some_iff.mp h
      exact ih (step_good hr hstep) hrun

/-- **What is read has distinct keys and is made of doubles.** -/
theorem parse_sound {s : String} (h : parse s = some v) : v.Over IsNumber := by
  obtain ⟨r, hrun, hfinish⟩ := Option.bind_eq_some_iff.mp h
  have hbegin : (⟨.value, []⟩ : Reader).Good := ⟨trivial, nofun⟩
  have hr : r.Good := run_good hbegin hrun
  obtain ⟨hmode, -⟩ := hr
  unfold finish at hfinish
  split at hfinish
  · rename_i hdone _
    cases hfinish
    rw [hdone] at hmode
    exact hmode
  · obtain ⟨q, -, rfl⟩ := Option.map_eq_some_iff.mp hfinish
    exact isNumber_nearest q
  · cases hfinish

end Json
