import MailPortal.Threading.Headers

/-!
# The Chain that is Kept

`References` is the chain of the ids that were given, in the order of their first occurrences, with
the token at the end. A chain that is too long is cut: the newest ids are kept while they fit,
behind the first one when that fits beside the token.

Main results:

* `newestFrom_spec`: the loop stops at the first id that does not fit.
* `fitReferences_kept`: what is kept of a chain.
* `buildThreadingHeaders_threads`: both headers.
-/

namespace MailPortal.Threading

open Utf16

variable {token : Units} {ids : List Units}

/-! ### What the headers are to be -/

/-- The rendering of the ids fits behind the name of the header. -/
def Fits (ids : List Units) : Prop := (render ids).length ≤ MAX_REFERENCES_LENGTH

instance (ids : List Units) : Decidable (Fits ids) :=
  inferInstanceAs (Decidable ((render ids).length ≤ MAX_REFERENCES_LENGTH))

/-- The message ids of the references, bare and in the order of their first occurrences, and the
token behind the others. -/
def IsChain (references : List Units) (token : Units) (chain : List Units) : Prop :=
  let given := references.map bareMessageId
  ∃ earlier, chain = earlier ++ [token] ∧
    earlier.Pairwise (fun a b => given.idxOf a < given.idxOf b) ∧
    ∀ id, id ∈ earlier ↔ id ≠ token ∧ MessageId id ∧ id ∈ given

/-- What is kept of a chain that does not fit: the newest ids, with no room for one more, behind the
first one when it fits beside the token. -/
def Cut (token : Units) (chain kept : List Units) : Prop :=
  ∃ root rest newest, chain = root :: rest ∧ newest <:+ rest ∧
    (Fits [root, token] →
      kept = root :: newest ∧ ∀ id, id :: newest <:+ rest → ¬Fits (root :: id :: newest)) ∧
    (¬Fits [root, token] →
      kept = newest ∧ ∀ id, id :: newest <:+ chain → ¬Fits (id :: newest))

/-- What a header keeps of a chain. -/
structure Kept (token : Units) (chain kept : List Units) : Prop where
  fits : Fits kept
  nodup : kept.Nodup
  sublist : kept.Sublist chain
  last : kept.getLast? = some token
  whole : Fits chain → kept = chain
  cut : ¬Fits chain → Cut token chain kept

/-- The last, in the order of first occurrences, of the ids of a condition. -/
def LastOf (given : List Units) (P : Units → Prop) (id : Units) : Prop :=
  id ∈ given ∧ P id ∧ ∀ other ∈ given, P other → given.idxOf other ≤ given.idxOf id

/-- The id of the message that is answered, or else the last one given that is not a token of our
own. -/
def RepliesTo (originalMsgId : Option Units) (references : List Units) (token id : Units) : Prop :=
  ∃ original, originalMsgId = some original ∧
    (MessageId (bareMessageId original) → id = bareMessageId original) ∧
    (¬MessageId (bareMessageId original) →
      LastOf (references.map bareMessageId) (fun id => MessageId id ∧ ¬OwnToken token id) id)

/-! ### The loop over the newest ids -/

/-- **The loop stops at the first id that does not fit.** -/
theorem newestFrom_spec (candidate : List Units → List Units) (todo newest : List Units) :
    ∃ skipped, todo.reverse ++ newest = skipped ++ newestFrom candidate todo newest ∧
      newest <:+ newestFrom candidate todo newest ∧
      (Fits (candidate newest) → Fits (candidate (newestFrom candidate todo newest))) ∧
      ∀ id, [id] <:+ skipped → ¬Fits (candidate (id :: newestFrom candidate todo newest)) := by
  induction todo generalizing newest with
  | nil => exact ⟨[], rfl, List.suffix_refl _, id, fun id h => by simp at h⟩
  | cons id todo ih =>
    rw [newestFrom]
    by_cases hfits : Fits (candidate (id :: newest))
    · rw [if_neg (Nat.not_lt.mpr hfits)]
      obtain ⟨skipped, hsplit, hsuffix, hstays, hstop⟩ := ih (id :: newest)
      refine ⟨skipped, ?_, (List.suffix_cons id newest).trans hsuffix, fun _ => hstays hfits, hstop⟩
      rw [List.reverse_cons, List.append_assoc]
      exact hsplit
    · rw [if_pos (Nat.lt_of_not_le hfits)]
      refine ⟨(id :: todo).reverse, rfl, List.suffix_refl _, fun h => h, fun other hother => ?_⟩
      rw [List.reverse_cons] at hother
      obtain ⟨lead, hlead⟩ := hother
      obtain ⟨-, heq⟩ := List.append_inj' hlead rfl
      rw [(List.cons.inj heq).1]
      exact hfits

/-- From the token on, the loop keeps the newest ids with no room for one more. -/
theorem newestFrom_token (candidate : List Units → List Units) (middle : List Units)
    (htoken : Fits (candidate [token])) :
    let newest := newestFrom candidate (token :: middle.reverse) []
    newest <:+ middle ++ [token] ∧ [token] <:+ newest ∧ Fits (candidate newest) ∧
      ∀ id, id :: newest <:+ middle ++ [token] → ¬Fits (candidate (id :: newest)) := by
  have hfirst : newestFrom candidate (token :: middle.reverse) [] =
      newestFrom candidate middle.reverse [token] := by
    rw [newestFrom, if_neg (Nat.not_lt.mpr htoken)]
  obtain ⟨skipped, hsplit, hsuffix, hstays, hstop⟩ :=
    newestFrom_spec candidate middle.reverse [token]
  rw [List.reverse_reverse] at hsplit
  rw [hfirst, hsplit]
  refine ⟨List.suffix_append _ _, hsuffix, hstays htoken, fun id hid => hstop id ?_⟩
  rwa [← List.singleton_append, List.suffix_append_self_iff] at hid

/-- The cut of a chain that does not fit. -/
theorem fitReferences_cut {root : Units} {middle : List Units}
    (h : ¬Fits (root :: (middle ++ [token]))) :
    let candidate newest := if Fits [root, token] then root :: newest else newest
    fitReferences (root :: (middle ++ [token])) =
      render (candidate (newestFrom candidate (token :: middle.reverse) [])) := by
  have hlast : (root :: (middle ++ [token])).getLastD [] = token := by
    rw [← List.cons_append, List.getLastD_concat]
  have hreverse : (middle ++ [token]).reverse = token :: middle.reverse := by simp
  have hlong : ¬(render (root :: (middle ++ [token]))).length ≤ MAX_REFERENCES_LENGTH := h
  intro candidate
  rw [fitReferences, if_neg hlong, List.headD_cons, hlast, List.tail_cons, hreverse]
  simp only [decide_eq_true_eq]
  rfl

/-- **What is kept of a chain** of different ids, when its token fits alone. -/
theorem fitReferences_kept {earlier : List Units} (hnodup : (earlier ++ [token]).Nodup)
    (htoken : Fits [token]) :
    ∃ kept, fitReferences (earlier ++ [token]) = render kept ∧
      Kept token (earlier ++ [token]) kept := by
  by_cases hfits : Fits (earlier ++ [token])
  · refine ⟨earlier ++ [token], if_pos hfits, ?_⟩
    exact ⟨hfits, hnodup, List.Sublist.refl _, List.getLast?_concat, fun _ => rfl,
      fun h => absurd hfits h⟩
  · cases earlier with
    | nil => exact absurd htoken hfits
    | cons root middle =>
      rw [List.cons_append] at hnodup hfits ⊢
      rw [fitReferences_cut hfits]
      by_cases hroot : Fits [root, token]
      · simp only [if_pos hroot]
        obtain ⟨hsuffix, ⟨lead, hlead⟩, hkept, hstop⟩ :=
          newestFrom_token (fun newest => root :: newest) middle hroot
        generalize newestFrom (fun newest => root :: newest) (token :: middle.reverse) [] = newest
          at *
        have hsublist : (root :: newest).Sublist (root :: (middle ++ [token])) :=
          hsuffix.sublist.cons_cons root
        refine ⟨root :: newest, rfl, hkept, hnodup.sublist hsublist, hsublist, ?_,
          fun h => absurd h hfits, fun _ => ⟨root, middle ++ [token], newest, rfl, hsuffix, ?_⟩⟩
        · rw [← hlead, ← List.cons_append, List.getLast?_concat]
        · exact ⟨fun _ => ⟨rfl, hstop⟩, fun h => absurd hroot h⟩
      · simp only [if_neg hroot]
        obtain ⟨hsuffix, ⟨lead, hlead⟩, hkept, hstop⟩ :=
          newestFrom_token (fun newest => newest) middle htoken
        generalize newestFrom (fun newest => newest) (token :: middle.reverse) [] = newest at *
        have hsublist : newest.Sublist (root :: (middle ++ [token])) :=
          hsuffix.sublist.cons root
        refine ⟨newest, rfl, hkept, hnodup.sublist hsublist, hsublist, ?_,
          fun h => absurd h hfits, fun _ => ⟨root, middle ++ [token], newest, rfl, hsuffix, ?_⟩⟩
        · rw [← hlead, List.getLast?_concat]
        · refine ⟨fun h => absurd h hroot, fun _ => ⟨rfl, fun id hid => ?_⟩⟩
          rcases List.suffix_cons_iff.mp hid with heq | hid
          · rw [heq]
            exact hfits
          · exact hstop id hid

/-! ### The headers -/

/-- The ids of the references, in the order of their first occurrences. -/
theorem ids_spec (references : List Units) :
    let given := references.map bareMessageId
    (messageIds references).Pairwise (fun a b => given.idxOf a < given.idxOf b) ∧
      (messageIds references).Nodup ∧
      ∀ id, id ∈ messageIds references ↔ MessageId id ∧ id ∈ given := by
  intro given
  have hfilter : messageIds references = given.eraseDups.filter isMessageId :=
    Distinct.eraseDups_filter _ _
  refine ⟨?_, Distinct.eraseDups_nodup _, fun id => ?_⟩
  · rw [hfilter]
    exact (Distinct.eraseDups_pairwise given).filter _
  · rw [messageIds, List.mem_eraseDups, List.mem_filter, isMessageId_iff, and_comm]

/-- The last of ids in the order of first occurrences. -/
theorem LastOf.of_getLast {given : List Units} {P : Units → Prop} {id : Units}
    (horder : ids.Pairwise fun a b => given.idxOf a < given.idxOf b)
    (hmem : ∀ id, id ∈ ids ↔ P id ∧ id ∈ given) (hlast : ids.getLast? = some id) :
    LastOf given P id := by
  obtain ⟨front, rfl⟩ := List.getLast?_eq_some_iff.mp hlast
  obtain ⟨hP, hgiven⟩ := (hmem id).mp (List.mem_append_right _ (List.mem_singleton.mpr rfl))
  refine ⟨hgiven, hP, fun other hother hPother => ?_⟩
  rcases List.mem_append.mp ((hmem other).mpr ⟨hPother, hother⟩) with hfront | hid
  · exact Nat.le_of_lt ((List.pairwise_append.mp horder).2.2 other hfront id
      (List.mem_singleton.mpr rfl))
  · rw [List.mem_singleton.mp hid]

theorem render_ne_nil (h : ids ≠ []) : render ids ≠ [] := by
  obtain ⟨id, rest, rfl⟩ := List.exists_cons_of_ne_nil h
  cases rest with
  | nil => simp [render, List.intercalate, bracketed]
  | cons next rest => simp [render, List.intercalate, bracketed]

/-- What `In-Reply-To` names. -/
theorem repliesTo {originalMsgId : Option Units} {references : List Units}
    {threadId domain id : Units}
    (h : (match ((originalMsgId.filter (· ≠ [])).map bareMessageId).filter isMessageId with
      | some target => some target
      | none =>
        if (originalMsgId.filter (· ≠ [])).isSome then
          ((messageIds references).filter fun id =>
            !isOwnThreadToken id (some (buildThreadToken threadId domain))).getLast?
        else none) = some id) :
    RepliesTo originalMsgId references (buildThreadToken threadId domain) id := by
  obtain ⟨original, horiginal⟩ : ∃ original, originalMsgId.filter (· ≠ []) = some original := by
    cases hfilter : originalMsgId.filter (· ≠ []) with
    | none => rw [hfilter] at h; cases h
    | some original => exact ⟨original, rfl⟩
  refine ⟨original, (Option.filter_eq_some_iff.mp horiginal).1, fun hid => ?_, fun hno => ?_⟩
  · rw [← isMessageId_iff] at hid
    rw [horiginal, Option.map_some, Option.filter_some, if_pos hid] at h
    exact (Option.some.inj h).symm
  · rw [← isMessageId_iff] at hno
    rw [horiginal, Option.map_some, Option.filter_some, if_neg hno] at h
    obtain ⟨horder, -, hmem⟩ := ids_spec references
    refine LastOf.of_getLast (horder.filter _) (fun other => ?_) h
    rw [List.mem_filter, hmem, Bool.not_eq_true', Bool.eq_false_iff, ne_eq]
    constructor
    · rintro ⟨⟨hother, hgiven⟩, hown⟩
      rw [isOwnThreadToken_iff hother.units] at hown
      exact ⟨⟨hother, hown⟩, hgiven⟩
    · rintro ⟨⟨hother, hown⟩, hgiven⟩
      rw [← isOwnThreadToken_iff hother.units] at hown
      exact ⟨⟨hother, hgiven⟩, hown⟩

/-- The chain of the ids, without the token and with it at the end. -/
theorem isChain (references : List Units) (token : Units) :
    IsChain references token
      ((messageIds references).filter (· ≠ token) ++ [token]) := by
  obtain ⟨horder, -, hmem⟩ := ids_spec references
  refine ⟨_, rfl, horder.filter _, fun id => ?_⟩
  rw [List.mem_filter, hmem, decide_eq_true_iff, and_comm]

theorem chain_nodup (h : ids.Nodup) (token : Units) :
    (ids.filter (· ≠ token) ++ [token]).Nodup := by
  rw [List.nodup_append]
  refine ⟨h.filter _, List.nodup_singleton token, fun id hid other hother heq => ?_⟩
  rw [heq, List.mem_singleton.mp hother] at hid
  simp at hid

/-- **Both headers.** Each fits. `References` is what is kept of the chain, with the token at the
end; `In-Reply-To` is the id of the message that is answered, or else the last one given that is
not a token of our own. -/
theorem buildThreadingHeaders_threads (originalMsgId : Option Units) (references : List Units)
    (threadId domain : Units)
    (hplain : ∀ u ∈ buildThreadToken threadId domain, isIdUnit u = true)
    (hfits : Fits [buildThreadToken threadId domain]) :
    let token := buildThreadToken threadId domain
    let headers := buildThreadingHeaders originalMsgId references (some token)
    (∀ value, headers.inReplyTo = some value →
      (unitsOf "In-Reply-To").length + value.length ≤ MAX_HEADER_LENGTH ∧
        ∃ id, value = bracketed id ∧ RepliesTo originalMsgId references token id) ∧
    ∃ chain kept, headers.references = some (render kept) ∧
      (unitsOf "References").length + (render kept).length ≤ MAX_HEADER_LENGTH ∧
      IsChain references token chain ∧ Kept token chain kept ∧
      ∀ id ∈ kept, ∀ u ∈ id, isIdUnit u = true := by
  intro token headers
  refine ⟨fun value hvalue => ?_, ?_⟩
  · obtain ⟨id, hid, rfl⟩ := Option.map_eq_some_iff.mp hvalue
    obtain ⟨hid, hfit⟩ := Option.filter_eq_some_iff.mp hid
    rw [Bool.and_eq_true, fitsHeader, decide_eq_true_iff (p := _ ≤ _)] at hfit
    exact ⟨hfit.2, id, rfl, repliesTo hid⟩
  · obtain ⟨horder, hnodup, hmem⟩ := ids_spec references
    have htoken : token ≠ [] := by simp [token, buildThreadToken]
    have hfilter : (some token).filter (· ≠ []) = some token := by simp [htoken]
    obtain ⟨kept, hkept, hspec⟩ := fitReferences_kept (chain_nodup hnodup token) hfits
    have hchain := isChain references token
    refine ⟨_, kept, ?_, ?_, hchain, hspec, fun id hid => ?_⟩
    · have hne : render kept ≠ [] :=
        render_ne_nil (List.ne_nil_of_mem (List.mem_of_getLast? hspec.last))
      have hrefs : headers.references =
          if fitReferences ((messageIds references).filter (· ≠ token) ++ [token]) ≠ [] then
            some (fitReferences ((messageIds references).filter (· ≠ token) ++ [token]))
          else none := by
        simp only [headers, buildThreadingHeaders, hfilter]
      rw [hrefs, hkept, if_pos hne]
    · have hlength : (unitsOf "References").length = 10 := by decide
      have hbound : (render kept).length ≤ 986 := hspec.fits
      have hmax : MAX_HEADER_LENGTH = 996 := rfl
      omega
    · obtain ⟨earlier, hsplit, -, hearlier⟩ := hchain
      rcases List.mem_append.mp (hsplit ▸ hspec.sublist.subset hid) with hmember | hmember
      · exact ((hearlier id).mp hmember).2.1.units
      · rw [List.mem_singleton.mp hmember]
        exact hplain

theorem buildThreadingHeaders_threads_reply :
    let token := buildThreadToken (unitsOf "2") (unitsOf "c")
    let headers := buildThreadingHeaders (some (unitsOf "x"))
      [unitsOf "a@b", unitsOf "thread-1@c"] (some token)
    (∀ value, headers.inReplyTo = some value →
      (unitsOf "In-Reply-To").length + value.length ≤ MAX_HEADER_LENGTH ∧
        ∃ id, value = bracketed id ∧
          RepliesTo (some (unitsOf "x")) [unitsOf "a@b", unitsOf "thread-1@c"] token id) ∧
    ∃ chain kept, headers.references = some (render kept) ∧
      (unitsOf "References").length + (render kept).length ≤ MAX_HEADER_LENGTH ∧
      IsChain [unitsOf "a@b", unitsOf "thread-1@c"] token chain ∧ Kept token chain kept ∧
      ∀ id ∈ kept, ∀ u ∈ id, isIdUnit u = true :=
  buildThreadingHeaders_threads (some (unitsOf "x")) [unitsOf "a@b", unitsOf "thread-1@c"]
    (unitsOf "2") (unitsOf "c") (List.all_eq_true.mp (by decide)) (by decide)

/-- A token of our own is passed over, though it is the last message id that is given. -/
theorem own_token_passed_over :
    (buildThreadingHeaders (some (unitsOf "x")) [unitsOf "a@b", unitsOf "thread-1@c"]
        (some (buildThreadToken (unitsOf "2") (unitsOf "c")))).inReplyTo =
      some (bracketed (unitsOf "a@b")) ∧
    ¬MessageId (bareMessageId (unitsOf "x")) ∧
    ¬LastOf ([unitsOf "a@b", unitsOf "thread-1@c"].map bareMessageId) MessageId
      (unitsOf "a@b") := by
  refine ⟨by decide, fun h => absurd (isMessageId_iff.mpr h) (by decide), fun h => ?_⟩
  have hlast := h.2.2 (unitsOf "thread-1@c") (by decide) (isMessageId_iff.mp (by decide))
  exact absurd hlast (by decide)

end MailPortal.Threading
