import MailPortal.Lib.Distinct
import MailPortal.Lib.Words
import MailPortal.Platform.Text

/-!
# Threading Headers

An outbound message names the messages before it: `In-Reply-To` the one that it answers, and
`References` all of the thread, with a token of our own at the end. The provider refuses a header of
more than 996 characters, so a long chain is cut.

Main results:

* `isMessageId_iff`: what counts as a message id.
* `isOwnThreadToken_iff`: which message ids are tokens of our own.
-/

namespace MailPortal.Threading

open Utf16

variable {id : Units}

/-! ### Ids -/

/-- `[^\s<>]` -/
def isIdUnit (u : UInt16) : Bool := !isSpaceUnit u && u ≠ LESS && u ≠ GREATER

/-- `value.trim().replace(/^<|>$/g, "")` -/
def bareMessageId (value : Units) : Units :=
  let trimmed := Words.trimBoth isSpaceUnit value
  let opened := if trimmed.head? = some LESS then trimmed.tail else trimmed
  if opened.getLast? = some GREATER then opened.dropLast else opened

/-- `/^[^\s<>]+@[^\s<>]+$/` -/
def isMessageId (value : Units) : Bool :=
  value.all isIdUnit && (value.drop 1).dropLast.contains AT_SIGN

/-! ### Thread tokens -/

def buildThreadToken (threadId domain : Units) : Units :=
  unitsOf "thread-" ++ threadId ++ [AT_SIGN] ++ domain

/-- What `/^thread-(.+)@/` captures, up to the last `@` in the line. -/
def matchThreadToken (candidate : Units) : Option Units :=
  if (unitsOf "thread-").isPrefixOf candidate then
    let line := (candidate.drop (unitsOf "thread-").length).takeWhile fun u => !isLineTerminator u
    let stop := lastIndexOf AT_SIGN line
    if 0 < stop then some (line.take stop.toNat) else none
  else none

def extractThreadTokens (references : List Units) (inReplyTo : Option Units) : List Units :=
  let candidates := references ++ (inReplyTo.filter (· ≠ [])).toList
  (candidates.flatMap fun candidate => (matchThreadToken candidate).toList).eraseDups

/-- `token.slice(token.lastIndexOf("@"))` -/
def ownDomain (threadToken : Units) : Units :=
  let start := lastIndexOf AT_SIGN threadToken
  -- a negative start counts from the end
  if start < 0 then threadToken.drop (threadToken.length - 1) else threadToken.drop start.toNat

def isOwnThreadToken (id : Units) (threadToken : Option Units) : Bool :=
  match threadToken.filter (· ≠ []) with
  | none => false
  | some threadToken =>
    (ownDomain threadToken).isSuffixOf id && (extractThreadTokens [id] none).length > 0

/-! ### Headers -/

def MAX_HEADER_LENGTH : ℕ := 996

def MAX_REFERENCES_LENGTH : ℕ := MAX_HEADER_LENGTH - (unitsOf "References").length

def fitsHeader (name : String) (value : Units) : Bool :=
  (unitsOf name).length + value.length ≤ MAX_HEADER_LENGTH

/-- An id between angle brackets. -/
def bracketed (id : Units) : Units := [LESS] ++ id ++ [GREATER]

def render (ids : List Units) : Units := [0x20].intercalate (ids.map bracketed)

/-- The loop of `fitReferences` over the ids from the newest on. -/
def newestFrom (candidate : List Units → List Units) : List Units → List Units → List Units
  | [], newest => newest
  | id :: rest, newest =>
    if (render (candidate (id :: newest))).length > MAX_REFERENCES_LENGTH then newest
    else newestFrom candidate rest (id :: newest)

def fitReferences (ids : List Units) : Units :=
  if (render ids).length ≤ MAX_REFERENCES_LENGTH then render ids
  else
    let root := ids.headD []
    let keepsRoot : Bool := (render [root, ids.getLastD []]).length ≤ MAX_REFERENCES_LENGTH
    let candidate newest := if keepsRoot then root :: newest else newest
    render (candidate (newestFrom candidate ids.tail.reverse []))

/-- The headers of a reply. -/
structure ThreadingHeaders where
  inReplyTo : Option Units
  references : Option Units
  deriving DecidableEq

/-- `ids`: the bare message ids of the references, each once. -/
def messageIds (references : List Units) : List Units :=
  ((references.map bareMessageId).filter isMessageId).eraseDups

def buildThreadingHeaders (originalMsgId : Option Units) (references : List Units)
    (threadToken : Option Units) : ThreadingHeaders :=
  let ids := messageIds references
  let original := originalMsgId.filter (· ≠ [])
  let replyTarget := original.map bareMessageId
  let inReplyTo :=
    match replyTarget.filter isMessageId with
    | some target => some target
    | none =>
      if original.isSome then
        (ids.filter fun id => !isOwnThreadToken id threadToken).getLast?
      else none
  let refs :=
    match threadToken.filter (· ≠ []) with
    | some token => ids.filter (· ≠ token) ++ [token]
    | none => ids
  let referencesHeader := fitReferences refs
  { inReplyTo :=
      (inReplyTo.filter fun id => id ≠ [] && fitsHeader "In-Reply-To" (bracketed id)).map bracketed
    references := if referencesHeader ≠ [] then some referencesHeader else none }

/-! ### What the tests find -/

/-- A message id: `local@domain` without white space and angle brackets. -/
structure MessageId (id : Units) : Prop where
  split : ∃ front domain, front ≠ [] ∧ domain ≠ [] ∧ id = front ++ AT_SIGN :: domain
  units : ∀ u ∈ id, isIdUnit u = true

theorem isMessageId_iff : isMessageId id = true ↔ MessageId id := by
  rw [isMessageId, Bool.and_eq_true, List.all_eq_true, List.contains_iff_mem]
  constructor
  · rintro ⟨hunits, hmem⟩
    refine ⟨?_, hunits⟩
    cases id with
    | nil => cases hmem
    | cons u us =>
      rw [List.drop_one, List.tail_cons] at hmem
      have hus : us ≠ [] := by
        rintro rfl
        cases hmem
      obtain ⟨front, back, hsplit⟩ := List.append_of_mem hmem
      refine ⟨u :: front, back ++ [us.getLast hus], List.cons_ne_nil _ _, by simp, ?_⟩
      calc u :: us = u :: (us.dropLast ++ [us.getLast hus]) := by
            rw [List.dropLast_append_getLast hus]
        _ = u :: front ++ AT_SIGN :: (back ++ [us.getLast hus]) := by rw [hsplit]; simp
  · rintro ⟨⟨front, domain, hfront, hdomain, rfl⟩, hunits⟩
    refine ⟨hunits, ?_⟩
    obtain ⟨u, us, rfl⟩ := List.exists_cons_of_ne_nil hfront
    rw [List.cons_append, List.drop_one, List.tail_cons,
      List.dropLast_append_of_ne_nil (List.cons_ne_nil _ _), List.dropLast_cons_of_ne_nil hdomain]
    exact List.mem_append_right _ List.mem_cons_self

/-- A line terminator is white space. -/
theorem isLineTerminator_isSpaceUnit {u : UInt16} (h : isLineTerminator u = true) :
    isSpaceUnit u = true := by
  have hall : ([0x0A, 0x0D, 0x2028, 0x2029] : List UInt16).all isSpaceUnit = true := by decide
  exact List.all_eq_true.mp hall u (of_decide_eq_true h)

/-- The units of an id are one line. -/
theorem takeWhile_line (hid : ∀ u ∈ id, isIdUnit u = true) :
    id.takeWhile (fun u => !isLineTerminator u) = id := by
  rw [List.takeWhile_eq_self_iff]
  intro u hu
  have hunit := hid u hu
  by_contra hterm
  have hspace := isLineTerminator_isSpaceUnit (by simpa using hterm)
  simp [isIdUnit, hspace] at hunit

/-- An id of a token: the thread's id is not empty, and the domain is what is behind the last `@` of
our token. -/
def OwnToken (threadToken id : Units) : Prop :=
  ∃ threadId domain, threadId ≠ [] ∧ AT_SIGN ∉ domain ∧
    (∃ front, threadToken = front ++ AT_SIGN :: domain) ∧ id = buildThreadToken threadId domain

theorem extractThreadTokens_singleton (id : Units) :
    (extractThreadTokens [id] none).length > 0 ↔ (matchThreadToken id).isSome = true := by
  have hcandidates : extractThreadTokens [id] none = (matchThreadToken id).toList.eraseDups := by
    simp [extractThreadTokens]
  rw [hcandidates]
  cases matchThreadToken id with
  | none => simp
  | some threadId => simp [List.eraseDups_cons]

/-- Without line terminators, a token is found where a last `@` leaves something in front of it. -/
theorem matchThreadToken_isSome (hid : ∀ u ∈ id, isIdUnit u = true) :
    (matchThreadToken id).isSome = true ↔
      ∃ threadId domain, threadId ≠ [] ∧ AT_SIGN ∉ domain ∧
        id = buildThreadToken threadId domain := by
  rw [matchThreadToken]
  constructor
  · intro h
    split at h
    · rename_i hprefix
      obtain ⟨rest, rfl⟩ := List.isPrefixOf_iff_prefix.mp hprefix
      rw [List.drop_left, takeWhile_line fun u hu => hid u (List.mem_append_right _ hu)] at h
      dsimp only at h
      split at h
      · rename_i hpos
        by_cases hmem : AT_SIGN ∈ rest
        · obtain ⟨threadId, domain, rfl, hdomain⟩ := exists_last_unit hmem
          rw [lastIndexOf_append threadId hdomain] at hpos
          refine ⟨threadId, domain, ?_, hdomain, by simp [buildThreadToken]⟩
          rintro rfl
          exact absurd hpos (by decide)
        · rw [lastIndexOf_of_not_mem hmem] at hpos
          exact absurd hpos (by decide)
      · cases h
    · cases h
  · rintro ⟨threadId, domain, hthread, hdomain, rfl⟩
    have hform : buildThreadToken threadId domain =
        unitsOf "thread-" ++ (threadId ++ AT_SIGN :: domain) := by
      simp [buildThreadToken]
    rw [hform] at hid ⊢
    have hlength := List.length_pos_iff.mpr hthread
    rw [if_pos (List.isPrefixOf_iff_prefix.mpr (List.prefix_append _ _)), List.drop_left,
      takeWhile_line fun u hu => hid u (List.mem_append_right _ hu)]
    dsimp only
    rw [lastIndexOf_append threadId hdomain, if_pos (by omega)]
    rfl

/-- **A message id is a token of our own** when it reads as one with the domain of the token. -/
theorem isOwnThreadToken_iff {threadId domain : Units} (hid : ∀ u ∈ id, isIdUnit u = true) :
    isOwnThreadToken id (some (buildThreadToken threadId domain)) = true ↔
      OwnToken (buildThreadToken threadId domain) id := by
  have hne : buildThreadToken threadId domain ≠ [] := by simp [buildThreadToken]
  have hmem : AT_SIGN ∈ buildThreadToken threadId domain := by simp [buildThreadToken]
  obtain ⟨front, own, htoken, hown⟩ := exists_last_unit hmem
  have hdomain : ownDomain (buildThreadToken threadId domain) = AT_SIGN :: own := by
    rw [ownDomain, htoken, lastIndexOf_append front hown, if_neg (by omega),
      Int.toNat_natCast, List.drop_left]
  have hfilter : (some (buildThreadToken threadId domain)).filter (· ≠ []) =
      some (buildThreadToken threadId domain) := by
    simp [hne]
  rw [isOwnThreadToken, hfilter]
  dsimp only
  rw [hdomain, Bool.and_eq_true, decide_eq_true_iff, extractThreadTokens_singleton,
    matchThreadToken_isSome hid, List.isSuffixOf_iff_suffix, OwnToken]
  constructor
  · rintro ⟨⟨lead, hlead⟩, thread, behind, hthread, hbehind, rfl⟩
    rw [buildThreadToken, List.append_assoc] at hlead
    have hsame : lead ++ AT_SIGN :: own = unitsOf "thread-" ++ thread ++ AT_SIGN :: behind := hlead
    obtain ⟨-, heq⟩ := last_unit_unique hsame hown hbehind
    obtain rfl : own = behind := (List.cons.inj heq).2
    exact ⟨thread, own, hthread, hown, ⟨front, htoken⟩, rfl⟩
  · rintro ⟨thread, behind, hthread, hbehind, ⟨before, hbefore⟩, rfl⟩
    obtain ⟨-, heq⟩ := last_unit_unique (htoken.symm.trans hbefore) hown hbehind
    obtain rfl : own = behind := (List.cons.inj heq).2
    refine ⟨?_, thread, own, hthread, hown, rfl⟩
    rw [buildThreadToken, List.append_assoc]
    exact List.suffix_append _ _

end MailPortal.Threading
