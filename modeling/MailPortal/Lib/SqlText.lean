import Mathlib.Data.List.Infix

/-!
# SQL Texts

How SQLite matches texts. `LIKE` reads `%` as any text and `_` as any character, unless the escape
character stands in front of them, and folds the case of the ASCII letters only; so does `lower`.

Main results:

* `like_contains` : a pattern that was made by escaping a text between two `%` finds the text
  itself, up to the case of ASCII letters.
* `likeUnescaped_suffix` : a word behind a `%` is found at the end of a text.
-/

namespace SqlText

/-- Lower case of an ASCII letter; other characters stay. -/
def foldCase (c : Char) : Char := if 'A' ≤ c ∧ c ≤ 'Z' then Char.ofNat (c.toNat + 32) else c

/-- `lower(text)` -/
def lower (text : String) : String := String.ofList (text.toList.map foldCase)

/-- `text LIKE pattern ESCAPE '\'` on characters. -/
def matchesPattern : (pattern text : List Char) → Bool
  | [], text => text.isEmpty
  | '%' :: pattern, text => text.tails.any (matchesPattern pattern)
  | '_' :: pattern, text =>
      match text with
      | [] => false
      | _ :: text => matchesPattern pattern text
  | '\\' :: [], _ => false
  | '\\' :: c :: pattern, text =>
      match text with
      | [] => false
      | d :: text => foldCase c = foldCase d && matchesPattern pattern text
  | c :: pattern, text =>
      match text with
      | [] => false
      | d :: text => foldCase c = foldCase d && matchesPattern pattern text

/-- `text LIKE pattern ESCAPE '\'` -/
def like (text pattern : String) : Bool := matchesPattern pattern.toList text.toList

/-- `text LIKE pattern`, where nothing is escaped and a backslash stands for itself. -/
def likeUnescaped (text pattern : String) : Bool :=
  matchesPattern (pattern.toList.flatMap fun c => if c = '\\' then ['\\', '\\'] else [c])
    text.toList

/-- `trim(text)` takes spaces and nothing else from both ends. -/
def trim (text : String) : String :=
  String.ofList ((text.toList.dropWhile (· = ' ')).reverse.dropWhile (· = ' ')).reverse

/-- `instr(text, word)`: the place of the first occurrence, from 1 on, or 0. -/
def instr (text word : String) : ℕ :=
  match text.toList.tails.findIdx? fun rest => word.toList.isPrefixOf rest with
  | some i => i + 1
  | none => 0

/-- `substr(text, start, length)`, for a start from 1 on. -/
def substr (text : String) (start length : ℕ) : String :=
  String.ofList ((text.toList.drop (start - 1)).take length)

/-- Put the escape character in front of the wildcards and of itself. -/
def escape (c : Char) : List Char := if c = '\\' ∨ c = '%' ∨ c = '_' then ['\\', c] else [c]

/-- The word occurs in the text, up to the case of ASCII letters. -/
def Occurs (word text : String) : Prop :=
  word.toList.map foldCase <:+: text.toList.map foldCase

instance (word text : String) : Decidable (Occurs word text) :=
  inferInstanceAs (Decidable (_ <:+: _))

variable {c d : Char} {pattern word text : List Char}

theorem foldCase_foldCase (c : Char) : foldCase (foldCase c) = foldCase c := by
  have hall : ∀ n < 26, foldCase (Char.ofNat (65 + n + 32)) = Char.ofNat (65 + n + 32) := by decide
  by_cases hc : 'A' ≤ c ∧ c ≤ 'Z'
  · have hlow : 65 ≤ c.toNat := hc.1
    have hhigh : c.toNat ≤ 90 := hc.2
    have hfold : foldCase c = Char.ofNat (c.toNat + 32) := if_pos hc
    have heq : 65 + (c.toNat - 65) + 32 = c.toNat + 32 := by omega
    rw [hfold, ← heq]
    exact hall (c.toNat - 65) (by omega)
  · have hfold : foldCase c = c := if_neg hc
    rw [hfold, hfold]

/-- Lower case is lower case already. -/
theorem map_foldCase (text : List Char) : (text.map foldCase).map foldCase = text.map foldCase := by
  rw [List.map_map]
  exact List.map_congr_left fun c _ => foldCase_foldCase c

theorem matches_percent : matchesPattern ('%' :: pattern) text = true ↔
    ∃ before after, text = before ++ after ∧ matchesPattern pattern after = true := by
  rw [matchesPattern, List.any_eq_true]
  constructor
  · rintro ⟨after, hmem, h⟩
    obtain ⟨before, heq⟩ := (List.mem_tails _ _).mp hmem
    exact ⟨before, after, heq.symm, h⟩
  · rintro ⟨before, after, rfl, h⟩
    exact ⟨after, (List.mem_tails _ _).mpr (List.suffix_append before after), h⟩

/-- An escaped character stands for itself. -/
theorem matches_escape : matchesPattern (escape c ++ pattern) text = true ↔
    ∃ d rest, text = d :: rest ∧ foldCase c = foldCase d ∧ matchesPattern pattern rest = true := by
  rw [escape]
  split
  · cases text with
    | nil => simp [matchesPattern]
    | cons d rest => simp [matchesPattern]
  · rename_i h
    simp only [not_or] at h
    cases text with
    | nil => simp [matchesPattern, h.1, h.2.1, h.2.2]
    | cons d rest => simp [matchesPattern, h.1, h.2.1, h.2.2]

/-- An escaped word in front of a pattern. -/
theorem matches_word : matchesPattern (word.flatMap escape ++ pattern) text = true ↔
    ∃ found rest, text = found ++ rest ∧ found.map foldCase = word.map foldCase ∧
      matchesPattern pattern rest = true := by
  induction word generalizing text with
  | nil => simp
  | cons c word ih =>
      rw [List.flatMap_cons, List.append_assoc, matches_escape]
      constructor
      · rintro ⟨d, rest, rfl, hfold, h⟩
        obtain ⟨found, rest, rfl, hfound, h⟩ := ih.mp h
        exact ⟨d :: found, rest, rfl, by rw [List.map_cons, List.map_cons, hfold, hfound], h⟩
      · rintro ⟨found, rest, rfl, hfound, h⟩
        cases found with
        | nil => cases hfound
        | cons d found =>
            obtain ⟨hfold, hfound⟩ := List.cons.inj hfound
            exact ⟨d, found ++ rest, rfl, hfold.symm, ih.mpr ⟨found, rest, rfl, hfound, h⟩⟩

theorem infix_map_iff {f : Char → Char} {word text : List Char} :
    word.map f <:+: text.map f ↔ ∃ before found rest, text = before ++ (found ++ rest) ∧
      found.map f = word.map f := by
  constructor
  · rintro ⟨before, rest, h⟩
    obtain ⟨front, rest', rfl, hfront, rfl⟩ := List.map_eq_append_iff.mp h.symm
    obtain ⟨before', found, rfl, rfl, hfound⟩ := List.map_eq_append_iff.mp hfront
    exact ⟨before', found, rest', List.append_assoc .., hfound⟩
  · rintro ⟨before, found, rest, rfl, hfound⟩
    refine ⟨before.map f, rest.map f, ?_⟩
    rw [← hfound, List.map_append, List.map_append, List.append_assoc]

/-- **Escaped between two wildcards, a word is found wherever it occurs.** -/
theorem like_contains (word text : String) :
    like text ("%" ++ String.ofList (word.toList.flatMap escape) ++ "%") = true ↔
      Occurs word text := by
  rw [like, Occurs, infix_map_iff]
  have hpattern : ("%" ++ String.ofList (word.toList.flatMap escape) ++ "%").toList =
      '%' :: (word.toList.flatMap escape ++ ['%']) := by
    simp
  rw [hpattern, matches_percent]
  constructor
  · rintro ⟨before, after, htext, h⟩
    obtain ⟨found, rest, rfl, hfound, -⟩ := matches_word.mp h
    exact ⟨before, found, rest, htext, hfound⟩
  · rintro ⟨before, found, rest, htext, hfound⟩
    refine ⟨before, found ++ rest, htext, matches_word.mpr ⟨found, rest, rfl, hfound, ?_⟩⟩
    exact matches_percent.mpr ⟨rest, [], (List.append_nil rest).symm, rfl⟩

theorem flatMap_unescaped (hword : ∀ c ∈ word, c ≠ '%' ∧ c ≠ '_' ∧ c ≠ '\\') :
    word.flatMap (fun c => if c = '\\' then ['\\', '\\'] else [c]) = word.flatMap escape := by
  refine List.flatMap_congr fun c hc => ?_
  obtain ⟨hpercent, hunderscore, hbackslash⟩ := hword c hc
  rw [if_neg hbackslash, escape, if_neg (by simp [hpercent, hunderscore, hbackslash])]

/-- **Behind a wildcard**, a word with no wildcards is found at the end of a text. -/
theorem likeUnescaped_suffix {word text : String}
    (hword : ∀ c ∈ word.toList, c ≠ '%' ∧ c ≠ '_' ∧ c ≠ '\\') :
    likeUnescaped text ("%" ++ word) = true ↔
      word.toList.map foldCase <:+ text.toList.map foldCase := by
  have hpattern : ("%" ++ word).toList.flatMap (fun c => if c = '\\' then ['\\', '\\'] else [c]) =
      '%' :: (word.toList.flatMap escape ++ []) := by
    rw [← flatMap_unescaped hword]
    simp
  rw [likeUnescaped, hpattern, matches_percent]
  constructor
  · rintro ⟨before, after, htext, h⟩
    obtain ⟨found, rest, rfl, hfound, hrest⟩ := matches_word.mp h
    obtain rfl : rest = [] := by simpa [matchesPattern] using hrest
    rw [htext, List.map_append, List.append_nil, ← hfound]
    exact List.suffix_append _ _
  · rintro ⟨lead, h⟩
    obtain ⟨before, found, htext, -, hfound⟩ := List.map_eq_append_iff.mp h.symm
    refine ⟨before, found, htext, matches_word.mpr ?_⟩
    exact ⟨found, [], (List.append_nil _).symm, hfound, rfl⟩

/-- What `instr` finds of a character is where the text in front of it ends. -/
theorem take_findIdx_tails (c : Char) (text : List Char) :
    (match text.tails.findIdx? fun rest => [c].isPrefixOf rest with
      | some i => text.take i
      | none => text) = text.takeWhile (· ≠ c) := by
  induction text with
  | nil => rfl
  | cons d text ih =>
      rw [List.tails_cons, List.findIdx?_cons, List.takeWhile_cons]
      by_cases hd : d = c
      · simp [hd, List.isPrefixOf]
      · rw [← ih]
        have hno : ([c].isPrefixOf (d :: text)) = false := by simp [List.isPrefixOf, Ne.symm hd]
        rw [hno]
        cases text.tails.findIdx? fun rest => [c].isPrefixOf rest <;> simp [hd]

/-- **The text in front of a character**, as SQL cuts it out. -/
theorem substr_instr (text : String) {word : String} {c : Char} (hword : word.toList = [c]) :
    (if instr text word > 0 then substr text 1 (instr text word - 1) else text).toList =
      text.toList.takeWhile (· ≠ c) := by
  rw [← take_findIdx_tails, instr, hword]
  cases text.toList.tails.findIdx? fun rest => [c].isPrefixOf rest <;> simp [substr]

example : like "50% OFF" "%50\\% o%" = true := by decide

end SqlText
