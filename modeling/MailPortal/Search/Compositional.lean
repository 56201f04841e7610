import MailPortal.Search.Lexer
import Mathlib.Order.Lattice

/-!
# Search Parsing is Compositional

A query in two parts means what its parts mean together: the values of terms, phrases and repeated
filters one after the other, the flags of both, the later start and the earlier end. When both parts
parse, the whole can only fail by a limit on its size, by flags that contradict each other, or by an
empty range of dates.

The quote that the lexer remembers is the one exception: a part that ends in empty quotes makes a
phrase of the first word of the next part, and that is the only way in which the whole can differ
from the merge.

Main results:

* `parseSearchQuery_append` : the whole of two parts.
-/

namespace MailPortal.Search

open Failure Parsing

variable {value label : String}
variable {flag flag' : Option Bool} {target values : List String} {next : Bool} {α : Type}
  {input : String}

/-! ### Merging -/

/-- The later start of two. -/
def laterDate (date : Option String) : Option String → Option String
  | none => date
  | some next => some (later date next)

/-- The earlier end of two. -/
def earlierDate (date : Option String) : Option String → Option String
  | none => date
  | some next => some (earlier date next)

def Parsing.merge (p q : Parsing) : Parsing where
  terms := p.terms ++ q.terms
  phrases := p.phrases ++ q.phrases
  «from» := p.«from» ++ q.«from»
  «to» := p.«to» ++ q.«to»
  subject := p.subject ++ q.subject
  filename := p.filename ++ q.filename
  folder := p.folder ++ q.folder
  is_read := p.is_read.or q.is_read
  is_starred := p.is_starred.or q.is_starred
  has_attachment := q.has_attachment.or p.has_attachment
  date_start := laterDate p.date_start q.date_start
  date_end := earlierDate p.date_end q.date_end

/-- The values of a repeated filter, one after the other. -/
def joined (values more : Option (List String)) : Option (List String) :=
  given (values.getD [] ++ more.getD [])

/-- The merge of two searches, under the query of the whole. -/
def ParsedSearch.merge (query : String) (p q : ParsedSearch) : ParsedSearch where
  query
  terms := p.terms ++ q.terms
  phrases := p.phrases ++ q.phrases
  «from» := joined p.«from» q.«from»
  «to» := joined p.«to» q.«to»
  subject := joined p.subject q.subject
  filename := joined p.filename q.filename
  folder := joined p.folder q.folder
  is_read := p.is_read.or q.is_read
  is_starred := p.is_starred.or q.is_starred
  has_attachment := q.has_attachment.or p.has_attachment
  date_start := laterDate p.date_start q.date_start
  date_end := earlierDate p.date_end q.date_end

/-- Two flags do not contradict each other. -/
def Agree (flag flag' : Option Bool) : Prop := ∀ b ∈ flag, ∀ b' ∈ flag', b = b'

theorem agree_none : Agree flag none := by
  intro b _ b' hb'
  cases hb'

theorem given_getD (values : List String) : (given values).getD [] = values := by
  rw [given]
  split
  · rename_i h
    exact h.symm
  · rfl

theorem parsed_merge (query queryA queryB : String) (p q : Parsing) :
    (p.merge q).parsed query = (p.parsed queryA).merge query (q.parsed queryB) := by
  simp [parsed, merge, ParsedSearch.merge, joined, given_getD]

/-! ### Dates -/

theorem jsLt_iff {a b : String} : jsLt a b = true ↔ units a < units b := unitsLt_iff

theorem later_some (date next : String) :
    units (later (some date) next) = max (units date) (units next) := by
  rw [later]
  split
  · rename_i h
    exact (max_eq_right (jsLt_iff.mp h).le).symm
  · rename_i h
    exact (max_eq_left (not_lt.mp (mt jsLt_iff.mpr h))).symm

theorem earlier_some (date next : String) :
    units (earlier (some date) next) = min (units date) (units next) := by
  rw [earlier]
  split
  · rename_i h
    exact (min_eq_right (jsLt_iff.mp h).le).symm
  · rename_i h
    exact (min_eq_left (not_lt.mp (mt jsLt_iff.mpr h))).symm

theorem later_later (date date' : Option String) (next : String) :
    later (laterDate date date') next = later date (later date' next) := by
  cases date with
  | none => cases date' <;> rfl
  | some d =>
      cases date' with
      | none => rfl
      | some d' =>
          refine units_inj ?_
          rw [laterDate, later_some, later_some, later_some, later_some, max_assoc]

theorem earlier_earlier (date date' : Option String) (next : String) :
    earlier (earlierDate date date') next = earlier date (earlier date' next) := by
  cases date with
  | none => cases date' <;> rfl
  | some d =>
      cases date' with
      | none => rfl
      | some d' =>
          refine units_inj ?_
          rw [earlierDate, earlier_some, earlier_some, earlier_some, earlier_some, min_assoc]

/-! ### One token more -/

/-- The errors that a whole may have when its parts have none. -/
def Permitted (e : SearchQueryError) : Prop :=
  e.code = .QUERY_TOO_LARGE ∨ e = bothRead ∨ e = bothStarred ∨ e = emptyRange

variable {toLowerCase : String → String} {p q q' r : Parsing} {token : LexedToken}
  {tokens : List LexedToken} {e : SearchQueryError}

/-- What is parsed behind another part: the merge, or an error that is permitted. -/
def Merges (p q : Parsing) (result : Except SearchQueryError Parsing) : Prop :=
  match result with
  | .ok r => r = p.merge q ∧ Agree p.is_read q.is_read ∧ Agree p.is_starred q.is_starred
  | .error e => Permitted e

theorem pushBounded_eq_ok :
    pushBounded target value label = .ok values ↔
      isBlank value = false ∧ target.length < 8 ∧ values = target ++ [trim value] := by
  rw [pushBounded, bind_eq_ok]
  constructor
  · rintro ⟨_, hblank, h⟩
    obtain ⟨_, hlength, h⟩ := bind_eq_ok.mp h
    exact ⟨by simpa using require_eq_ok.mp hblank, of_decide_eq_true (require_eq_ok.mp hlength),
      (pure_eq_ok.mp h).symm⟩
  · rintro ⟨hblank, hlength, rfl⟩
    exact ⟨(), require_eq_ok.mpr (by rw [hblank]; rfl),
      bind_eq_ok.mpr ⟨(), require_eq_ok.mpr (decide_eq_true hlength), rfl⟩⟩

/-- A value more for a filter: behind other values it is added too, or there are too many. -/
theorem pushBounded_append (before : List String)
    (h : pushBounded target value label = .ok values) :
    pushBounded (before ++ target) value label = .ok (before ++ values) ∨
      ∃ e, pushBounded (before ++ target) value label = .error e ∧ e.code = .QUERY_TOO_LARGE := by
  obtain ⟨hblank, -, rfl⟩ := pushBounded_eq_ok.mp h
  by_cases hlength : (before ++ target).length < 8
  · exact .inl (pushBounded_eq_ok.mpr ⟨hblank, hlength, (List.append_assoc ..).symm⟩)
  · refine .inr ⟨tooLarge (label ++ " cannot be repeated more than 8 times"), ?_, rfl⟩
    rw [pushBounded, hblank, Bool.not_false, require, if_pos rfl, ok_bind, require,
      if_neg (by simpa [MAIL_SEARCH_LIMITS.valuesPerFilter] using hlength), error_bind]

theorem setFlag_eq_ok :
    setFlag flag next e = .ok flag' ↔ flag ≠ some (!next) ∧ flag' = some next := by
  rw [setFlag]
  split
  · rename_i h
    exact ⟨nofun, fun hboth => absurd h hboth.1⟩
  · rename_i h
    exact ⟨fun heq => ⟨h, (Except.ok.inj heq).symm⟩, fun hboth => by rw [hboth.2]⟩

/-- A flag behind another one: it is set too, or they contradict each other. -/
theorem setFlag_or {before : Option Bool} (h : setFlag flag next e = .ok flag')
    (hagree : Agree before flag) :
    (setFlag (before.or flag) next e = .ok (before.or flag') ∧ Agree before flag') ∨
      setFlag (before.or flag) next e = .error e := by
  obtain ⟨hflag, rfl⟩ := setFlag_eq_ok.mp h
  cases before with
  | none => exact .inl ⟨h, nofun⟩
  | some b =>
      by_cases hb : b = next
      · subst hb
        refine .inl ⟨setFlag_eq_ok.mpr ⟨by simp, rfl⟩, fun b' hb' b'' hb'' => ?_⟩
        rw [← Option.some.inj hb', ← Option.some.inj hb'']
      · refine .inr (if_pos ?_)
        rw [Option.some_or, show b = !next by cases b <;> cases next <;> simp_all]

theorem parseIs_merges (h : parseIs toLowerCase q value = .ok q')
    (hread : Agree p.is_read q.is_read) (hstarred : Agree p.is_starred q.is_starred) :
    Merges p q' (parseIs toLowerCase (p.merge q) value) := by
  simp only [parseIs] at h ⊢
  split at h
  · cases h
  · rename_i hvalue
    rw [if_neg hvalue]
    split at h
    · rename_i hcase
      rw [if_pos hcase]
      obtain ⟨flag, hflag, h⟩ := bind_eq_ok.mp h
      obtain rfl := pure_eq_ok.mp h
      rcases setFlag_or hflag hread with ⟨hset, hagree⟩ | hset
      · rw [show (p.merge q).is_read = p.is_read.or q.is_read from rfl, hset]
        exact ⟨rfl, hagree, hstarred⟩
      · rw [show (p.merge q).is_read = p.is_read.or q.is_read from rfl, hset]
        exact .inr (.inl rfl)
    · rename_i hcase
      rw [if_neg hcase]
      split at h
      · rename_i hcase'
        rw [if_pos hcase']
        obtain ⟨flag, hflag, h⟩ := bind_eq_ok.mp h
        obtain rfl := pure_eq_ok.mp h
        rcases setFlag_or hflag hstarred with ⟨hset, hagree⟩ | hset
        · rw [show (p.merge q).is_starred = p.is_starred.or q.is_starred from rfl, hset]
          exact ⟨rfl, hread, hagree⟩
        · rw [show (p.merge q).is_starred = p.is_starred.or q.is_starred from rfl, hset]
          exact .inr (.inr (.inl rfl))
      · cases h

/-- A filter with a value more, behind another part. -/
theorem push_merges {before : List String} {set set' : List String → Parsing}
    (h : (pushBounded target value label >>= fun values => pure (set values)) = .ok q')
    (hset : ∀ values, set' (before ++ values) = p.merge (set values))
    (hagree : ∀ values, Agree p.is_read (set values).is_read ∧
      Agree p.is_starred (set values).is_starred) :
    Merges p q' (pushBounded (before ++ target) value label >>= fun values =>
      pure (set' values)) := by
  obtain ⟨values, hvalues, h⟩ := bind_eq_ok.mp h
  obtain rfl := pure_eq_ok.mp h
  rcases pushBounded_append before hvalues with heq | ⟨e, heq, hcode⟩
  · rw [heq]
    exact ⟨hset values, hagree values⟩
  · rw [heq]
    exact .inl hcode

/-- **One token behind another part.** -/
theorem parseToken_merges (h : parseToken toLowerCase q token = .ok q')
    (hread : Agree p.is_read q.is_read) (hstarred : Agree p.is_starred q.is_starred) :
    Merges p q' (parseToken toLowerCase (p.merge q) token) := by
  have hagree : Agree p.is_read q.is_read ∧ Agree p.is_starred q.is_starred := ⟨hread, hstarred⟩
  simp only [parseToken] at h ⊢
  generalize splitOperator toLowerCase token.value = parts at h ⊢
  obtain ⟨operator, value⟩ := parts
  simp only at h ⊢
  cases hop : operatorOf operator with
  | none =>
      rw [hop] at h
      obtain ⟨_, hvalue, h⟩ := bind_eq_ok.mp h
      simp only at h ⊢
      rw [require_eq_ok.mp hvalue, require, if_pos rfl, ok_bind]
      split at h
      · rename_i hquoted
        rw [if_pos hquoted]
        obtain rfl := pure_eq_ok.mp h
        exact ⟨by simp [merge], hagree⟩
      · rename_i hquoted
        rw [if_neg hquoted]
        obtain rfl := pure_eq_ok.mp h
        exact ⟨by simp [merge], hagree⟩
  | some op =>
      rw [hop] at h
      cases op with
      | «from» => exact push_merges h (fun _ => rfl) fun _ => hagree
      | «to» => exact push_merges h (fun _ => rfl) fun _ => hagree
      | subject => exact push_merges h (fun _ => rfl) fun _ => hagree
      | filename => exact push_merges h (fun _ => rfl) fun _ => hagree
      | «in» => exact push_merges h (fun _ => rfl) fun _ => hagree
      | is => exact parseIs_merges h hread hstarred
      | has =>
          obtain ⟨_, hvalue, h⟩ := bind_eq_ok.mp h
          obtain rfl := pure_eq_ok.mp h
          simp only
          rw [require_eq_ok.mp hvalue, require, if_pos rfl, ok_bind]
          exact ⟨rfl, hagree⟩
      | after =>
          obtain ⟨next, hnext, h⟩ := bind_eq_ok.mp h
          obtain rfl := pure_eq_ok.mp h
          simp only
          rw [hnext, ok_bind]
          exact ⟨congrArg (fun date => { p.merge q with date_start := some date })
            (later_later p.date_start q.date_start next), hagree⟩
      | before =>
          obtain ⟨next, hnext, h⟩ := bind_eq_ok.mp h
          obtain rfl := pure_eq_ok.mp h
          simp only
          rw [hnext, ok_bind]
          exact ⟨congrArg (fun date => { p.merge q with date_end := some date })
            (earlier_earlier p.date_end q.date_end next), hagree⟩

/-- **A list of tokens behind another part.** -/
theorem parseTokens_merges (h : tokens.foldlM (parseToken toLowerCase) q = .ok q')
    (hread : Agree p.is_read q.is_read) (hstarred : Agree p.is_starred q.is_starred) :
    Merges p q' (tokens.foldlM (parseToken toLowerCase) (p.merge q)) := by
  induction tokens generalizing q with
  | nil =>
      cases h
      exact ⟨rfl, hread, hstarred⟩
  | cons token tokens ih =>
      rw [List.foldlM_cons] at h ⊢
      obtain ⟨q₁, htoken, h⟩ := bind_eq_ok.mp h
      have hmerges := parseToken_merges (p := p) htoken hread hstarred
      cases hresult : parseToken toLowerCase (p.merge q) token with
      | error e =>
          rw [hresult] at hmerges
          exact hmerges
      | ok r =>
          rw [hresult] at hmerges
          obtain ⟨rfl, hread₁, hstarred₁⟩ := hmerges
          exact ih h hread₁ hstarred₁

/-! ### The first token of the second part -/

/-- The token is a term: it is not quoted, and has none of the operators. -/
def IsTerm (toLowerCase : String → String) (token : LexedToken) : Prop :=
  token.quoted = false ∧ operatorOf (splitOperator toLowerCase token.value).1 = none

instance (token : LexedToken) : Decidable (IsTerm toLowerCase token) := inferInstanceAs
  (Decidable (_ ∧ _))

/-- A quote makes a phrase of a term, and changes nothing else. -/
theorem parseToken_quoted (token : LexedToken) (h : ¬ IsTerm toLowerCase token) :
    parseToken toLowerCase q { token with quoted := true } = parseToken toLowerCase q token := by
  by_cases hquoted : token.quoted = true
  · rw [show { token with quoted := true } = token by cases token; simp_all]
  · cases hop : operatorOf (splitOperator toLowerCase token.value).1 with
    | none => exact absurd ⟨by simpa using hquoted, hop⟩ h
    | some op =>
        simp only [parseToken, hop]
        cases op <;> rfl

/-- More terms in front of a search. -/
def Parsing.withTerms (terms : List String) (q : Parsing) : Parsing :=
  { q with terms := terms ++ q.terms }

theorem parseIs_withTerms (terms : List String) (q : Parsing) (value : String) :
    parseIs toLowerCase (q.withTerms terms) value =
      (parseIs toLowerCase q value).map (withTerms terms) := by
  simp only [parseIs, withTerms]
  by_cases h₁ : value = ""
  · rw [if_pos h₁, if_pos h₁]
    rfl
  rw [if_neg h₁, if_neg h₁]
  by_cases h₂ : toLowerCase value = "read" ∨ toLowerCase value = "unread"
  · rw [if_pos h₂, if_pos h₂]
    cases setFlag q.is_read (toLowerCase value = "read") bothRead <;> rfl
  rw [if_neg h₂, if_neg h₂]
  by_cases h₃ : toLowerCase value = "starred" ∨ toLowerCase value = "unstarred"
  · rw [if_pos h₃, if_pos h₃]
    cases setFlag q.is_starred (toLowerCase value = "starred") bothStarred <;> rfl
  rw [if_neg h₃, if_neg h₃]
  rfl

/-- A part of a search that is set to what a test gives, whatever the terms are. -/
theorem push_withTerms {result result' : Except SearchQueryError α} {set set' : α → Parsing}
    (terms : List String) (hresult : result' = result)
    (hset : ∀ a, set' a = (set a).withTerms terms) :
    (result' >>= fun a => pure (set' a)) =
      (result >>= fun a => pure (set a)).map (withTerms terms) := by
  subst hresult
  cases result' with
  | error e => rfl
  | ok a => exact congrArg Except.ok (hset a)

/-- Terms that were read before make no difference. -/
theorem parseToken_withTerms (terms : List String) (q : Parsing) (token : LexedToken) :
    parseToken toLowerCase (q.withTerms terms) token =
      (parseToken toLowerCase q token).map (withTerms terms) := by
  simp only [parseToken]
  generalize splitOperator toLowerCase token.value = parts
  obtain ⟨operator, value⟩ := parts
  cases operatorOf operator with
  | none =>
      simp only
      cases require (!(decide (value = "") && decide (operator ≠ "")))
          (invalid (operator ++ ": requires a value")) with
      | error e => rfl
      | ok _ =>
          cases token.quoted with
          | true => rfl
          | false =>
              exact congrArg (fun terms => Except.ok { q with terms := terms })
                (List.append_assoc ..)
  | some op =>
      cases op with
      | «from» => exact push_withTerms terms rfl fun _ => rfl
      | «to» => exact push_withTerms terms rfl fun _ => rfl
      | subject => exact push_withTerms terms rfl fun _ => rfl
      | filename => exact push_withTerms terms rfl fun _ => rfl
      | «in» => exact push_withTerms terms rfl fun _ => rfl
      | is => exact parseIs_withTerms terms q value
      | has => exact push_withTerms terms rfl fun _ => rfl
      | after => exact push_withTerms terms rfl fun _ => rfl
      | before => exact push_withTerms terms rfl fun _ => rfl

theorem parseTokens_withTerms (toLowerCase : String → String) (terms : List String) (q : Parsing)
    (tokens : List LexedToken) :
    tokens.foldlM (parseToken toLowerCase) (q.withTerms terms) =
      (tokens.foldlM (parseToken toLowerCase) q).map (withTerms terms) := by
  induction tokens generalizing q with
  | nil => rfl
  | cons token tokens ih =>
      rw [List.foldlM_cons, List.foldlM_cons, parseToken_withTerms]
      cases parseToken toLowerCase q token with
      | error e => rfl
      | ok q₁ => exact ih q₁

/-- A quote around a term makes a phrase of it. -/
theorem parseToken_term (h : IsTerm toLowerCase token)
    (htoken : parseToken toLowerCase q token = .ok q') :
    q' = { q with terms := q.terms ++ [token.value] } ∧ ∀ r,
      parseToken toLowerCase r { token with quoted := true } =
        .ok { r with phrases := r.phrases ++ [token.value] } := by
  simp only [parseToken, h.2] at htoken ⊢
  obtain ⟨_, hvalue, htoken⟩ := bind_eq_ok.mp htoken
  simp only [h.1] at htoken
  obtain rfl := pure_eq_ok.mp htoken
  refine ⟨rfl, fun r => ?_⟩
  rw [require_eq_ok.mp hvalue]
  rfl

/-- **Two lists of tokens**: the second one may begin with a token that counts as quoted. -/
theorem parseTokens_mark (quoted : Bool) {tokensA tokensB : List LexedToken}
    (hA : tokensA.foldlM (parseToken toLowerCase) {} = .ok p)
    (hB : tokensB.foldlM (parseToken toLowerCase) {} = .ok q) :
    match (tokensA ++ mark quoted tokensB).foldlM (parseToken toLowerCase) {} with
    | .error e => Permitted e
    | .ok r => Agree p.is_read q.is_read ∧ Agree p.is_starred q.is_starred ∧
        (r = p.merge q ↔ ¬ (quoted = true ∧ ∃ token rest, tokensB = token :: rest ∧
          IsTerm toLowerCase token)) := by
  rw [List.foldlM_append, hA, ok_bind]
  have hplain : (h : ¬ (quoted = true ∧ ∃ token rest, tokensB = token :: rest ∧
      IsTerm toLowerCase token)) → (mark quoted tokensB).foldlM (parseToken toLowerCase) p =
        tokensB.foldlM (parseToken toLowerCase) (p.merge {}) := by
    intro h
    have hmerge : p.merge {} = p := by
      simp [merge, laterDate, earlierDate]
    rw [hmerge]
    cases tokensB with
    | nil => rfl
    | cons token rest =>
        cases quoted with
        | false => simp [mark]
        | true =>
            have hterm : ¬ IsTerm toLowerCase token := fun hterm => h ⟨rfl, token, rest, rfl, hterm⟩
            simp only [mark, Bool.or_true, List.foldlM_cons, parseToken_quoted token hterm]
  by_cases hquoted : quoted = true ∧ ∃ token rest, tokensB = token :: rest ∧
      IsTerm toLowerCase token
  · obtain ⟨rfl, token, rest, rfl, hterm⟩ := hquoted
    rw [List.foldlM_cons] at hB
    obtain ⟨q₁, htoken, hrest⟩ := bind_eq_ok.mp hB
    obtain ⟨rfl, hphrase⟩ := parseToken_term hterm htoken
    -- the rest of the second part, without the term in front of it
    obtain ⟨q₀, hq₀, hq⟩ : ∃ q₀, rest.foldlM (parseToken toLowerCase) {} = .ok q₀ ∧
        q₀.withTerms [token.value] = q := by
      have hwith := parseTokens_withTerms toLowerCase [token.value] {} rest
      rw [show withTerms [token.value] {} = { terms := [token.value] } from rfl] at hwith
      have hsame := hwith.symm.trans hrest
      cases hq₀ : rest.foldlM (parseToken toLowerCase) {} with
      | error e => rw [hq₀] at hsame; cases hsame
      | ok q₀ => rw [hq₀] at hsame; exact ⟨q₀, rfl, Except.ok.inj hsame⟩
    have hmerges := parseTokens_merges (p := { p with phrases := p.phrases ++ [token.value] }) hq₀
      agree_none agree_none
    rw [show mark true (token :: rest) = { token with quoted := true } :: rest by simp [mark],
      List.foldlM_cons, hphrase p, ok_bind]
    rw [show merge _ {} = { p with phrases := p.phrases ++ [token.value] } by
      simp [merge, laterDate, earlierDate]] at hmerges
    cases hresult : rest.foldlM (parseToken toLowerCase)
        { p with phrases := p.phrases ++ [token.value] } with
    | error e =>
        rw [hresult] at hmerges
        exact hmerges
    | ok r =>
        rw [hresult] at hmerges
        obtain ⟨rfl, hread, hstarred⟩ := hmerges
        subst hq
        refine ⟨hread, hstarred, iff_of_false (fun h => ?_)
          fun hnot => hnot ⟨rfl, token, rest, rfl, hterm⟩⟩
        have hterms := congrArg (fun r : Parsing => r.terms.length) h
        simp [merge, withTerms] at hterms
  · rw [hplain hquoted]
    have hmerges := parseTokens_merges (p := p) hB agree_none agree_none
    cases hresult : tokensB.foldlM (parseToken toLowerCase) (p.merge {}) with
    | error e =>
        rw [hresult] at hmerges
        exact hmerges
    | ok r =>
        rw [hresult] at hmerges
        exact ⟨hmerges.2.1, hmerges.2.2, iff_of_true hmerges.1 hquoted⟩

/-! ### The whole query -/

/-- The first word of a text is a term. -/
def BeginsWithTerm (toLowerCase : String → String) (text : String) : Prop :=
  ∃ token rest, lex (trim text) = .ok (token :: rest) ∧ IsTerm toLowerCase token

theorem parseSearchQuery_eq_ok {search : ParsedSearch} :
    parseSearchQuery toLowerCase input = .ok search ↔ codeUnits (trim input) ≤ 500 ∧
      ∃ tokens p, lex (trim input) = .ok tokens ∧
        tokens.foldlM (parseToken toLowerCase) {} = .ok p ∧ p.rangeOk = true ∧
        search = p.parsed (trim input) := by
  rw [parseSearchQuery, bind_eq_ok]
  constructor
  · rintro ⟨_, hlength, h⟩
    obtain ⟨tokens, hlex, h⟩ := bind_eq_ok.mp h
    obtain ⟨p, hp, h⟩ := bind_eq_ok.mp h
    obtain ⟨_, hrange, h⟩ := bind_eq_ok.mp h
    exact ⟨of_decide_eq_true (require_eq_ok.mp hlength), tokens, p, hlex, hp,
      require_eq_ok.mp hrange, (pure_eq_ok.mp h).symm⟩
  · rintro ⟨hlength, tokens, p, hlex, hp, hrange, rfl⟩
    exact ⟨(), require_eq_ok.mpr (decide_eq_true hlength), bind_eq_ok.mpr ⟨tokens, hlex,
      bind_eq_ok.mpr ⟨p, hp, bind_eq_ok.mpr ⟨(), require_eq_ok.mpr hrange, rfl⟩⟩⟩⟩

/-- The result of a query, once the result of the lexer is known. -/
theorem parseSearchQuery_of_lex (toLowerCase : String → String)
    {lexed : Except SearchQueryError (List LexedToken)} (hlex : lex (trim input) = lexed) :
    (∃ e, parseSearchQuery toLowerCase input = .error e ∧ e.code = .QUERY_TOO_LARGE) ∨
      parseSearchQuery toLowerCase input = (do
        let tokens ← lexed
        let p ← tokens.foldlM (parseToken toLowerCase) {}
        require p.rangeOk emptyRange
        return p.parsed (trim input)) := by
  by_cases hlength : codeUnits (trim input) ≤ MAIL_SEARCH_LIMITS.queryChars
  · refine .inr ?_
    rw [parseSearchQuery, require, if_pos (decide_eq_true hlength), ok_bind, hlex]
  · refine .inl ⟨tooLarge "Search cannot exceed 500 characters", ?_, rfl⟩
    rw [parseSearchQuery, require, if_neg (by simpa using hlength), error_bind]

theorem permitted_error {result : Except SearchQueryError α} {P : α → Prop} (he : result = .error e)
    (h : Permitted e) : (∀ e, result = .error e → Permitted e) ∧ ∀ a, result = .ok a → P a := by
  subst he
  exact ⟨fun e' he' => Except.error.inj he' ▸ h, nofun⟩

/-- The values of a parsed search tell the filters that it was parsed from. -/
theorem parsed_inj {query : String} (h : p.parsed query = q.parsed query) : p = q := by
  have hgiven : ∀ {values more : List String}, given values = given more → values = more :=
    fun {values more} h => by rw [← given_getD values, h, given_getD]
  cases p
  cases q
  simp only [parsed, ParsedSearch.mk.injEq, true_and] at h
  obtain ⟨rfl, rfl, hfrom, hto, hsubject, hfilename, hfolder, rfl, rfl, rfl, rfl, rfl⟩ := h
  rw [hgiven hfrom, hgiven hto, hgiven hsubject, hgiven hfilename, hgiven hfolder]

/-- **Parsing is compositional.** Let both parts of a query parse. The whole fails by a limit on its
size, by contradictory flags or by an empty range of dates only. Where it parses, the flags of the
parts agree, and the result is the merge of the parts, exactly unless the first part ends in empty
quotes and the second one begins with a term. -/
theorem parseSearchQuery_append (toLowerCase : String → String) (a b : String)
    (searchA searchB : ParsedSearch) (ha : parseSearchQuery toLowerCase a = .ok searchA)
    (hb : parseSearchQuery toLowerCase b = .ok searchB) :
    (∀ e, parseSearchQuery toLowerCase (a ++ " " ++ b) = .error e → Permitted e) ∧
    ∀ search, parseSearchQuery toLowerCase (a ++ " " ++ b) = .ok search →
      Agree searchA.is_read searchB.is_read ∧ Agree searchA.is_starred searchB.is_starred ∧
      (search = searchA.merge (trim (a ++ " " ++ b)) searchB ↔
        ¬ (EndsInEmptyQuotes a.toList ∧ BeginsWithTerm toLowerCase b)) := by
  obtain ⟨-, tokensA, p, hlexA, hp, -, rfl⟩ := parseSearchQuery_eq_ok.mp ha
  obtain ⟨-, tokensB, q, hlexB, hq, -, rfl⟩ := parseSearchQuery_eq_ok.mp hb
  obtain ⟨quoted, hquoted, hlex⟩ := lex_join hlexA hlexB
  have hterm : (∃ token rest, tokensB = token :: rest ∧ IsTerm toLowerCase token) ↔
      BeginsWithTerm toLowerCase b := by
    rw [BeginsWithTerm, hlexB]
    simp only [Except.ok.injEq]
  have htokens := parseTokens_mark quoted hp hq
  rw [hquoted, hterm] at htokens
  rcases parseSearchQuery_of_lex toLowerCase hlex with ⟨e, he, hcode⟩ | hwhole
  · exact permitted_error he (.inl hcode)
  by_cases hcount : (tokensA ++ mark quoted tokensB).length ≤ 32
  · rw [if_pos hcount, ok_bind] at hwhole
    cases hresult : (tokensA ++ mark quoted tokensB).foldlM (parseToken toLowerCase) {} with
    | error e =>
        rw [hresult] at htokens hwhole
        exact permitted_error hwhole htokens
    | ok r =>
        rw [hresult] at htokens hwhole
        obtain ⟨hread, hstarred, hmerge⟩ := htokens
        rw [ok_bind] at hwhole
        cases hrange : r.rangeOk with
        | false =>
            rw [hrange] at hwhole
            exact permitted_error hwhole (.inr (.inr (.inr rfl)))
        | true =>
            rw [hrange] at hwhole
            have hok : parseSearchQuery toLowerCase (a ++ " " ++ b) =
                .ok (r.parsed (trim (a ++ " " ++ b))) := hwhole
            rw [hok]
            refine ⟨nofun, fun search hsearch => ⟨hread, hstarred, ?_⟩⟩
            rw [← Except.ok.inj hsearch, ← hmerge, ← parsed_merge]
            exact ⟨parsed_inj, fun h => by rw [h]⟩
  · rw [if_neg hcount, error_bind] at hwhole
    exact permitted_error hwhole (.inl rfl)

/-- Lower case of the basic letters. -/
def lowerBasic (text : String) : String := String.ofList (text.toList.map Char.toLower)

theorem parseSearchQuery_append_sample : ∃ searchA searchB search,
    parseSearchQuery lowerBasic "from:ann \"\"" = .ok searchA ∧
    parseSearchQuery lowerBasic "is:unread \"next steps\"" = .ok searchB ∧
    parseSearchQuery lowerBasic
      ("from:ann \"\"" ++ " " ++ "is:unread \"next steps\"") = .ok search ∧
    Agree searchA.is_read searchB.is_read :=
  ⟨_, _, _, rfl, rfl, rfl, ((parseSearchQuery_append lowerBasic "from:ann \"\""
    "is:unread \"next steps\"" _ _ rfl rfl).2 _ rfl).1⟩

/-- Empty quotes in the first part make a phrase of the term in the second part. -/
theorem empty_quotes_make_phrase : ∃ searchA searchB search,
    parseSearchQuery lowerBasic "\"\"" = .ok searchA ∧
    parseSearchQuery lowerBasic "foo" = .ok searchB ∧
    parseSearchQuery lowerBasic ("\"\"" ++ " " ++ "foo") = .ok search ∧
    searchB.terms = ["foo"] ∧ search.terms = [] ∧ search.phrases = ["foo"] ∧
    search ≠ searchA.merge (trim ("\"\"" ++ " " ++ "foo")) searchB := by
  refine ⟨_, _, _, rfl, rfl, rfl, ?_, ?_, ?_, ?_⟩ <;> decide

end MailPortal.Search
