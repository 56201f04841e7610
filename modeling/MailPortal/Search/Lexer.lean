import MailPortal.Search.Query
import Mathlib.Data.List.Induction

/-!
# Reading Two Queries as One

Two texts are read one after the other when a space is put between them: the tokens of the whole are
those of the parts (`lex_join`). One thing passes from the first text to the second. A quote is
remembered until a token is pushed, and empty quotes are no token: when a text ends in them
(`EndsInEmptyQuotes`), the first token of the next text counts as quoted (`mark`).

Trimming a text changes nothing, because white space outside quotes only pushes.
-/

namespace MailPortal.Search

open Failure

variable {s s' : Lexing} {text spaces before tail : List Char} {c : Char}
  {tokens : List LexedToken}

/-! ### States of the lexer -/

/-- Neither in quotes nor behind a backslash. -/
structure Outside (s : Lexing) : Prop where
  inQuote : s.inQuote = false
  escaped : s.escaped = false

theorem push_nil (h : s.value = []) : s.push = .ok s := if_pos h

/-- What a push leaves. -/
structure Pushed (s s' : Lexing) : Prop where
  value : s'.value = []
  inQuote : s'.inQuote = s.inQuote
  escaped : s'.escaped = s.escaped
  quoted : s'.quoted = true ↔ s.value = [] ∧ s.quoted = true

theorem pushed (h : s.push = .ok s') : Pushed s s' := by
  rw [Lexing.push] at h
  split at h
  · rename_i hvalue
    cases h
    exact ⟨hvalue, rfl, rfl, by simp [hvalue]⟩
  · split at h
    · cases h
    · rename_i hvalue _
      cases h
      exact ⟨rfl, rfl, rfl, by simp [hvalue]⟩

theorem Outside.pushed (h : Outside s) (hpush : s.push = .ok s') : Outside s' :=
  have hpushed := Search.pushed hpush
  ⟨hpushed.inQuote.trans h.inQuote, hpushed.escaped.trans h.escaped⟩

theorem ne_quote_of_isTrimmed (h : isTrimmed c = true) : c ≠ '"' := by
  rintro rfl
  exact absurd h (by decide)

theorem ne_backslash_of_isTrimmed (h : isTrimmed c = true) : c ≠ '\\' := by
  rintro rfl
  exact absurd h (by decide)

/-- White space outside quotes pushes. -/
theorem Outside.read_space (h : Outside s) (hc : isTrimmed c = true) : s.read c = s.push := by
  simp [Lexing.read, h.inQuote, h.escaped, hc, ne_quote_of_isTrimmed hc]

/-- White space neither opens nor closes a quote. -/
theorem read_inQuote (hc : isTrimmed c = true) (h : s.read c = .ok s') :
    s'.inQuote = s.inQuote := by
  simp only [Lexing.read, ne_quote_of_isTrimmed hc, ne_backslash_of_isTrimmed hc, decide_false,
    Bool.and_false, Bool.false_eq_true, if_false] at h
  split at h
  · cases h
    rfl
  · split at h
    · exact (pushed h).inQuote
    · cases h
      rfl

/-- A backslash escapes in quotes only. -/
theorem read_escaped (h : s.read c = .ok s') (hs : s.escaped = true → s.inQuote = true) :
    s'.escaped = true → s'.inQuote = true := by
  rw [Lexing.read] at h
  split at h
  · cases h
    exact nofun
  · rename_i hescaped
    split at h
    · rename_i hquote
      cases h
      exact fun _ => (Bool.and_eq_true .. ▸ hquote : _ ∧ _).1
    · split at h
      · cases h
        exact fun hcontra => absurd hcontra hescaped
      · split at h
        · rw [(pushed h).escaped, (pushed h).inQuote]
          exact hs
        · cases h
          exact hs

theorem foldlM_read_cons (h : (c :: text).foldlM Lexing.read s = .ok s') :
    ∃ s₁, s.read c = .ok s₁ ∧ text.foldlM Lexing.read s₁ = .ok s' := by
  rw [List.foldlM_cons] at h
  exact bind_eq_ok.mp h

theorem foldlM_escaped (h : text.foldlM Lexing.read s = .ok s')
    (hs : s.escaped = true → s.inQuote = true) : s'.escaped = true → s'.inQuote = true := by
  induction text generalizing s with
  | nil => exact Except.ok.inj h ▸ hs
  | cons c text ih =>
      obtain ⟨s₁, hread, hrest⟩ := foldlM_read_cons h
      exact ih hrest (read_escaped hread hs)

/-- A text that was read to its end. -/
theorem lexChars_eq_ok : lexChars text = .ok tokens ↔
    ∃ s, text.foldlM Lexing.read {} = .ok s ∧ s.close = .ok tokens := bind_eq_ok

theorem close_eq_ok (h : s.close = .ok tokens) :
    Outside s ∧ ∃ s', s.push = .ok s' ∧ s'.tokens = tokens ∧ tokens.length ≤ 32 := by
  obtain ⟨_, houtside, h⟩ := bind_eq_ok.mp h
  obtain ⟨s', hpush, h⟩ := bind_eq_ok.mp h
  obtain ⟨_, hcount, h⟩ := bind_eq_ok.mp h
  have hclosed := require_eq_ok.mp houtside
  rw [Bool.not_eq_true', Bool.or_eq_false_iff] at hclosed
  obtain rfl := pure_eq_ok.mp h
  exact ⟨⟨hclosed.1, hclosed.2⟩, s', hpush, rfl, of_decide_eq_true (require_eq_ok.mp hcount)⟩

/-! ### Trimming -/

section

variable (h : Outside s) (hspaces : ∀ c ∈ spaces, isTrimmed c = true)
include h hspaces

/-- White space behind a text that ends outside quotes changes nothing. -/
theorem close_spaces : (spaces.foldlM Lexing.read s >>= Lexing.close) = s.close := by
  induction spaces generalizing s with
  | nil => rfl
  | cons c spaces ih =>
      have hrest : ∀ c ∈ spaces, isTrimmed c = true :=
        fun c' hc' => hspaces c' (List.mem_cons_of_mem c hc')
      rw [List.foldlM_cons, h.read_space (hspaces c List.mem_cons_self)]
      cases hpush : s.push with
      | error e => simp [Lexing.close, require, h.inQuote, h.escaped, hpush, ok_bind, error_bind]
      | ok s' =>
          have houtside := h.pushed hpush
          rw [ok_bind, ih houtside hrest]
          simp [Lexing.close, require, h.inQuote, h.escaped, houtside.inQuote, houtside.escaped,
            hpush, push_nil (pushed hpush).value, ok_bind]

/-- White space behind a text: the reader stays outside quotes, and closes as before. -/
theorem foldlM_spaces (hclose : s.close = .ok tokens) :
    ∃ s', spaces.foldlM Lexing.read s = .ok s' ∧ s'.close = .ok tokens :=
  bind_eq_ok.mp ((close_spaces h hspaces).trans hclose)

end

/-- White space in front of a text is passed over. -/
theorem foldlM_leading (hspaces : ∀ c ∈ spaces, isTrimmed c = true) :
    spaces.foldlM Lexing.read {} = .ok {} := by
  induction spaces with
  | nil => rfl
  | cons c spaces ih =>
      rw [List.foldlM_cons, Outside.read_space ⟨rfl, rfl⟩ (hspaces c List.mem_cons_self),
        push_nil rfl, ok_bind]
      exact ih fun c' hc' => hspaces c' (List.mem_cons_of_mem c hc')

/-- Behind white space that leaves the reader outside quotes, it was outside before. -/
theorem outside_of_spaces (hspaces : ∀ c ∈ spaces, isTrimmed c = true)
    (h : spaces.foldlM Lexing.read s = .ok s') (hs : s.escaped = true → s.inQuote = true)
    (houtside : Outside s') : Outside s := by
  have hinQuote : s.inQuote = false := by
    clear hs
    induction spaces generalizing s with
    | nil =>
        cases h
        exact houtside.inQuote
    | cons c spaces ih =>
        obtain ⟨s₁, hread, hrest⟩ := foldlM_read_cons h
        rw [← read_inQuote (hspaces c List.mem_cons_self) hread]
        exact ih (fun c' hc' => hspaces c' (List.mem_cons_of_mem c hc')) hrest
  refine ⟨hinQuote, ?_⟩
  cases hescaped : s.escaped with
  | false => rfl
  | true => exact absurd (hs hescaped) (by rw [hinQuote]; exact Bool.false_ne_true)

/-- A trimmed text is read like the whole text, when the whole text ends outside quotes. -/
theorem lex_trim {text : String} (h : text.toList.foldlM Lexing.read {} = .ok s)
    (houtside : Outside s) : lex (trim text) = s.close := by
  obtain ⟨leading, trailing, htext, hleading, htrailing⟩ := exists_trim text
  rw [htext, List.append_assoc, List.foldlM_append, foldlM_leading hleading, ok_bind,
    List.foldlM_append] at h
  obtain ⟨s₁, hs₁, hrest⟩ := bind_eq_ok.mp h
  have houtside₁ := outside_of_spaces htrailing hrest (foldlM_escaped hs₁ nofun) houtside
  have hclose := close_spaces houtside₁ htrailing
  rw [hrest, ok_bind] at hclose
  rw [lex, lexChars, hs₁, ok_bind, hclose]

/-- A text whose trimmed form is read is read itself. -/
theorem read_of_lex_trim {text : String} (h : lex (trim text) = .ok tokens) :
    ∃ s, text.toList.foldlM Lexing.read {} = .ok s ∧ s.close = .ok tokens := by
  obtain ⟨leading, trailing, htext, hleading, htrailing⟩ := exists_trim text
  obtain ⟨s₁, hs₁, hclose⟩ := lexChars_eq_ok.mp h
  obtain ⟨s', hs', hclose'⟩ := foldlM_spaces (close_eq_ok hclose).1 htrailing hclose
  refine ⟨s', ?_, hclose'⟩
  rw [htext, List.append_assoc, List.foldlM_append, foldlM_leading hleading, ok_bind,
    List.foldlM_append, hs₁, ok_bind, hs']

/-! ### Empty quotes at the end -/

/-- White space and empty quotes. -/
inductive Blanks : List Char → Prop
  | nil : Blanks []
  | space {c : Char} {rest : List Char} (hc : isTrimmed c = true) (hrest : Blanks rest) :
      Blanks (c :: rest)
  | quotes {rest : List Char} (hrest : Blanks rest) : Blanks ('"' :: '"' :: rest)

theorem Blanks.append {rest : List Char} (h : Blanks text) (hrest : Blanks rest) :
    Blanks (text ++ rest) := by
  induction h with
  | nil => exact hrest
  | space hc _ ih => exact .space hc ih
  | quotes _ ih => exact .quotes ih

/-- A word ends here: at the start of the text, or behind white space. -/
def AtGap (before : List Char) : Prop := ∀ c ∈ before.getLast?, isTrimmed c = true

/-- Empty quotes, one pair at least, stand behind the last word of the text. -/
def EndsInEmptyQuotes (text : List Char) : Prop :=
  ∃ before tail, text = before ++ tail ∧ AtGap before ∧ Blanks tail ∧ '"' ∈ tail

/-- Where the lexer has no value, the text ends in white space and empty quotes, or is about to
close such quotes. A quote is remembered when there is one. -/
structure Remembers (text : List Char) (s : Lexing) : Prop where
  outside : Outside s → s.value = [] → ∃ before tail, text = before ++ tail ∧ AtGap before ∧
    Blanks tail ∧ (s.quoted = true → '"' ∈ tail)
  inside : s.inQuote = true → s.escaped = false → s.value = [] → ∃ before tail,
    text = before ++ tail ++ ['"'] ∧ AtGap before ∧ Blanks tail

theorem concat_ne_nil {α : Type} (xs : List α) (x : α) : xs ++ [x] ≠ [] := by simp

theorem Remembers.read (h : Remembers text s) (hread : s.read c = .ok s') :
    Remembers (text ++ [c]) s' := by
  rw [Lexing.read] at hread
  split at hread
  · cases hread
    exact ⟨fun _ hvalue => absurd hvalue (concat_ne_nil _ _),
      fun _ _ hvalue => absurd hvalue (concat_ne_nil _ _)⟩
  · rename_i hescaped
    have hescaped := Bool.eq_false_iff.mpr hescaped
    split at hread
    · rename_i hquote
      cases hread
      exact ⟨fun houtside => absurd houtside.escaped Bool.noConfusion,
        fun _ hnot => absurd hnot Bool.noConfusion⟩
    · split at hread
      · rename_i hquote
        cases hread
        refine ⟨fun houtside hvalue => ?_, fun hinside _ hvalue => ?_⟩
        · obtain ⟨before, tail, rfl, hgap, hblanks⟩ :=
            h.inside (by simpa using houtside.inQuote) hescaped hvalue
          refine ⟨before, tail ++ ['"', '"'], by rw [hquote]; simp, hgap,
            hblanks.append (.quotes .nil), fun _ => by simp⟩
        · obtain ⟨before, tail, rfl, hgap, hblanks, -⟩ :=
            h.outside ⟨by simpa using hinside, hescaped⟩ hvalue
          exact ⟨before, tail, by rw [hquote], hgap, hblanks⟩
      · split at hread
        · rename_i hspace
          obtain ⟨hnot, hc⟩ : (!s.inQuote) = true ∧ isTrimmed c = true :=
            Bool.and_eq_true .. ▸ hspace
          have houtside : Outside s := ⟨by simpa using hnot, hescaped⟩
          have hpushed := pushed hread
          refine ⟨fun _ _ => ?_, fun hinside => ?_⟩
          · by_cases hvalue : s.value = []
            · obtain ⟨before, tail, rfl, hgap, hblanks, hquoted⟩ := h.outside houtside hvalue
              exact ⟨before, tail ++ [c], List.append_assoc .., hgap,
                hblanks.append (.space hc .nil), fun hq =>
                  List.mem_append_left _ (hquoted (hpushed.quoted.mp hq).2)⟩
            · exact ⟨text ++ [c], [], by simp, fun c' hc' => by
                rw [List.getLast?_concat] at hc'
                exact Option.some.inj hc' ▸ hc, .nil,
                fun hq => absurd (hpushed.quoted.mp hq).1 hvalue⟩
          · rw [hpushed.inQuote, houtside.inQuote] at hinside
            exact absurd hinside Bool.noConfusion
        · cases hread
          exact ⟨fun _ hvalue => absurd hvalue (concat_ne_nil _ _),
            fun _ _ hvalue => absurd hvalue (concat_ne_nil _ _)⟩

theorem remembers (h : text.foldlM Lexing.read {} = .ok s) : Remembers text s := by
  induction text using List.reverseRecOn generalizing s with
  | nil =>
      cases h
      exact ⟨fun _ _ => ⟨[], [], rfl, nofun, .nil, nofun⟩, nofun⟩
  | append_singleton text c ih =>
      rw [List.foldlM_append] at h
      obtain ⟨s₁, hs₁, hlast⟩ := bind_eq_ok.mp h
      obtain ⟨s₂, hread, hnil⟩ := foldlM_read_cons hlast
      obtain rfl : s₂ = s := Except.ok.inj hnil
      exact (ih hs₁).read hread

/-- White space and empty quotes leave a reader inside quotes inside them. -/
theorem Blanks.inside (h : Blanks tail) (hinside : s.inQuote = true) (hescaped : s.escaped = false)
    (hread : tail.foldlM Lexing.read s = .ok s') : s'.inQuote = true := by
  induction h generalizing s with
  | nil => exact Except.ok.inj hread ▸ hinside
  | space hc _ ih =>
      obtain ⟨s₁, hc', hrest⟩ := foldlM_read_cons hread
      simp only [Lexing.read, hinside, hescaped, Bool.false_eq_true, if_false, Bool.true_and,
        ne_backslash_of_isTrimmed hc, ne_quote_of_isTrimmed hc, decide_false, Bool.not_true,
        Bool.false_and, Except.ok.injEq] at hc'
      subst hc'
      refine ih ?_ ?_ hrest
      · rfl
      · rfl
  | quotes _ ih =>
      obtain ⟨s₁, hopen, hrest⟩ := foldlM_read_cons hread
      obtain ⟨s₂, hclose, hrest⟩ := foldlM_read_cons hrest
      simp [Lexing.read, hinside, hescaped] at hopen
      subst hopen
      simp [Lexing.read] at hclose
      subst hclose
      refine ih ?_ ?_ hrest
      · rfl
      · rfl

/-- White space and empty quotes outside quotes: the value stays empty, and a quote is
remembered. -/
theorem Blanks.outside (h : Blanks tail) (houtside : Outside s) (hvalue : s.value = [])
    (hread : tail.foldlM Lexing.read s = .ok s') :
    s'.value = [] ∧ (s.quoted = true ∨ '"' ∈ tail → s'.quoted = true) := by
  induction h generalizing s with
  | nil =>
      cases hread
      exact ⟨hvalue, fun h => h.elim id nofun⟩
  | space hc _ ih =>
      obtain ⟨s₁, hc', hrest⟩ := foldlM_read_cons hread
      rw [houtside.read_space hc, push_nil hvalue] at hc'
      cases hc'
      obtain ⟨hend, hquoted⟩ := ih houtside hvalue hrest
      refine ⟨hend, fun h => hquoted (h.imp_right fun hmem => ?_)⟩
      exact (List.mem_cons.mp hmem).resolve_left (ne_quote_of_isTrimmed hc).symm
  | quotes _ ih =>
      obtain ⟨s₁, hopen, hrest⟩ := foldlM_read_cons hread
      obtain ⟨s₂, hclose, hrest⟩ := foldlM_read_cons hrest
      simp [Lexing.read, houtside.inQuote, houtside.escaped] at hopen
      subst hopen
      simp [Lexing.read] at hclose
      subst hclose
      have hopened : Outside { s with quoted := true, inQuote := false, escaped := false } :=
        ⟨rfl, rfl⟩
      obtain ⟨hend, hquoted⟩ := ih hopened hvalue hrest
      exact ⟨hend, fun _ => hquoted (.inl rfl)⟩

/-- Behind white space the reader is not escaped, and outside quotes it has no value. -/
theorem atGap_value {before : List Char} (h : before.foldlM Lexing.read {} = .ok s)
    (hgap : AtGap before) : s.escaped = false ∧ (s.inQuote = false → s.value = []) := by
  rcases List.eq_nil_or_concat before with rfl | ⟨before, c, rfl⟩
  · cases h
    exact ⟨rfl, fun _ => rfl⟩
  · rw [List.concat_eq_append] at h hgap
    have hc : isTrimmed c = true := hgap c List.getLast?_concat
    rw [List.foldlM_append] at h
    obtain ⟨s₁, hs₁, hlast⟩ := bind_eq_ok.mp h
    obtain ⟨s₂, hread, hnil⟩ := foldlM_read_cons hlast
    obtain rfl : s₂ = s := Except.ok.inj hnil
    have hescaped := foldlM_escaped hs₁ nofun
    have hsame := read_inQuote hc hread
    simp only [Lexing.read, ne_quote_of_isTrimmed hc, ne_backslash_of_isTrimmed hc, decide_false,
      Bool.and_false, Bool.false_eq_true, if_false, hc, Bool.and_true] at hread
    split at hread
    · rename_i hes
      cases hread
      exact ⟨rfl, fun hnot => absurd (hescaped hes) (by rw [← hsame, hnot]; exact Bool.noConfusion)⟩
    · rename_i hes
      split at hread
      · exact ⟨(pushed hread).escaped.trans (Bool.eq_false_iff.mpr hes),
          fun _ => (pushed hread).value⟩
      · rename_i hinside
        cases hread
        exact ⟨Bool.eq_false_iff.mpr hes, fun hnot => absurd hnot (by simpa using hinside)⟩

/-- **What passes to the next text**: a quote is remembered behind a text that ends in empty
quotes. -/
theorem remembered_iff (h : text.foldlM Lexing.read {} = .ok s) (houtside : Outside s) :
    s.value = [] ∧ s.quoted = true ↔ EndsInEmptyQuotes text := by
  constructor
  · rintro ⟨hvalue, hquoted⟩
    obtain ⟨before, tail, htext, hgap, hblanks, hmem⟩ := (remembers h).outside houtside hvalue
    exact ⟨before, tail, htext, hgap, hblanks, hmem hquoted⟩
  · rintro ⟨before, tail, rfl, hgap, hblanks, hmem⟩
    rw [List.foldlM_append] at h
    obtain ⟨s₁, hs₁, htail⟩ := bind_eq_ok.mp h
    obtain ⟨hescaped, hvalue⟩ := atGap_value hs₁ hgap
    have hinQuote : s₁.inQuote = false := by
      cases hinside : s₁.inQuote with
      | false => rfl
      | true => exact (hblanks.inside hinside hescaped htail).symm.trans houtside.inQuote
    obtain ⟨hend, hquoted⟩ := hblanks.outside ⟨hinQuote, hescaped⟩ (hvalue hinQuote) htail
    exact ⟨hend, hquoted (.inr hmem)⟩

/-! ### Two texts -/

/-- The first token counts as quoted. -/
def mark (quoted : Bool) : List LexedToken → List LexedToken
  | [] => []
  | token :: tokens => { token with quoted := token.quoted || quoted } :: tokens

/-- The state of a reader behind other tokens, with a quote remembered or not. -/
def Lexing.behind (read : List LexedToken) (quoted : Bool) (s : Lexing) : Lexing :=
  { s with tokens := read ++ mark quoted s.tokens,
           quoted := s.quoted || (quoted && s.tokens.isEmpty) }

variable {read : List LexedToken} {quoted : Bool}

theorem behind_push : (s.behind read quoted).push = s.push.map (Lexing.behind read quoted) := by
  by_cases hvalue : s.value = []
  · rw [push_nil hvalue, push_nil (show (s.behind read quoted).value = [] from hvalue)]
    rfl
  · by_cases hlong : MAIL_SEARCH_LIMITS.tokenChars < codeUnits (String.ofList s.value)
    · simp [Lexing.push, Lexing.behind, hvalue, hlong, Except.map]
    · cases htokens : s.tokens <;>
        simp [Lexing.push, Lexing.behind, hvalue, hlong, Except.map, htokens, mark]

/-- One character is read in the same way behind other tokens. -/
theorem behind_read :
    (s.behind read quoted).read c = (s.read c).map (Lexing.behind read quoted) := by
  have hinQuote : (s.behind read quoted).inQuote = s.inQuote := rfl
  have hescaped : (s.behind read quoted).escaped = s.escaped := rfl
  rw [Lexing.read, Lexing.read, behind_push, hinQuote, hescaped]
  by_cases h₁ : s.escaped = true
  · rw [if_pos h₁, if_pos h₁]
    rfl
  rw [if_neg h₁, if_neg h₁]
  by_cases h₂ : (s.inQuote && c = '\\') = true
  · rw [if_pos h₂, if_pos h₂]
    rfl
  rw [if_neg h₂, if_neg h₂]
  by_cases h₃ : c = '"'
  · rw [if_pos h₃, if_pos h₃]
    rfl
  rw [if_neg h₃, if_neg h₃]
  by_cases h₄ : (!s.inQuote && isTrimmed c) = true
  · rw [if_pos h₄, if_pos h₄]
  · rw [if_neg h₄, if_neg h₄]
    rfl

theorem behind_foldlM : text.foldlM Lexing.read (s.behind read quoted) =
    (text.foldlM Lexing.read s).map (Lexing.behind read quoted) := by
  induction text generalizing s with
  | nil => rfl
  | cons c text ih =>
      rw [List.foldlM_cons, List.foldlM_cons, behind_read]
      cases s.read c with
      | error e => rfl
      | ok s₁ => exact ih

def tooManyTerms : SearchQueryError := tooLarge "Search cannot contain more than 32 terms"

theorem behind_close (h : s.close = .ok tokens) : (s.behind read quoted).close =
    if (read ++ mark quoted tokens).length ≤ 32 then .ok (read ++ mark quoted tokens)
    else .error tooManyTerms := by
  obtain ⟨houtside, s', hpush, rfl, -⟩ := close_eq_ok h
  have hinQuote : (s.behind read quoted).inQuote = false := houtside.inQuote
  have hescaped : (s.behind read quoted).escaped = false := houtside.escaped
  rw [Lexing.close, hinQuote, hescaped, behind_push, hpush]
  change (require (decide ((read ++ mark quoted s'.tokens).length ≤ 32)) tooManyTerms >>=
    fun _ => pure (read ++ mark quoted s'.tokens)) = _
  by_cases hcount : (read ++ mark quoted s'.tokens).length ≤ 32
  · rw [require, decide_eq_true hcount, if_pos hcount]
    rfl
  · rw [require, decide_eq_false hcount, if_neg hcount]
    rfl

/-- **Two texts, one after the other.** -/
theorem lex_join {a b : String} {tokensA tokensB : List LexedToken}
    (ha : lex (trim a) = .ok tokensA) (hb : lex (trim b) = .ok tokensB) :
    ∃ quoted, (quoted = true ↔ EndsInEmptyQuotes a.toList) ∧ lex (trim (a ++ " " ++ b)) =
      if (tokensA ++ mark quoted tokensB).length ≤ 32 then .ok (tokensA ++ mark quoted tokensB)
      else .error tooManyTerms := by
  obtain ⟨sa, hsa, hclosea⟩ := read_of_lex_trim ha
  obtain ⟨sb, hsb, hcloseb⟩ := read_of_lex_trim hb
  obtain ⟨houta, sa', hpush, rfl, -⟩ := close_eq_ok hclosea
  have hpushed := pushed hpush
  have houta' := houta.pushed hpush
  have hbehind : sa' = Lexing.behind sa'.tokens sa'.quoted {} := by
    have hvalue := hpushed.value
    obtain ⟨hin, hes⟩ := houta'
    cases sa'
    simp_all [Lexing.behind, mark]
  have hwhole : (a ++ " " ++ b).toList.foldlM Lexing.read {} =
      .ok (sb.behind sa'.tokens sa'.quoted) := by
    have hspace : sa.read ' ' = .ok (Lexing.behind sa'.tokens sa'.quoted {}) := by
      rw [houta.read_space (by decide), hpush, ← hbehind]
    rw [String.toList_append, String.toList_append, List.append_assoc, List.foldlM_append, hsa,
      ok_bind]
    change (' ' :: b.toList).foldlM Lexing.read sa = _
    rw [List.foldlM_cons, hspace, ok_bind, behind_foldlM, hsb]
    rfl
  refine ⟨sa'.quoted, hpushed.quoted.trans (remembered_iff hsa houta), ?_⟩
  rw [lex_trim hwhole ⟨(close_eq_ok hcloseb).1.inQuote, (close_eq_ok hcloseb).1.escaped⟩,
    behind_close hcloseb]

end MailPortal.Search
