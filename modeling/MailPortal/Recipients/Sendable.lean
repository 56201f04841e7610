import MailPortal.Recipients.PlainRecipients
import Mathlib.Data.List.Nodup

/-!
# Recipients of a Send

A send carries each address once, in the first field that mentions it.

Main results:

* `sendableRecipients_sendsOnce` : nobody is lost, and nobody is written to twice.
* `recipients_stable` : joined recipients are read back, and sent once.
-/

namespace MailPortal.Recipients

open Utf16

variable {toLowerCase : Units → Units}

/-- What a pass over a field keeps: the first address with each key that was not seen before. -/
structure Keeps (toLowerCase : Units → Units) (addresses seen kept seen' : List Units) : Prop where
  sublist : kept.Sublist addresses
  nodup : (kept.map (normalizedAddress toLowerCase)).Nodup
  unseen : ∀ key ∈ kept.map (normalizedAddress toLowerCase), key ∉ seen
  known : ∀ key, key ∈ seen' ↔ key ∈ seen ∨ key ∈ kept.map (normalizedAddress toLowerCase)
  complete : ∀ key ∈ addresses.map (normalizedAddress toLowerCase), key ∈ seen'

variable (toLowerCase) in
theorem keeps_keepUnseen (addresses seen : List Units) :
    Keeps toLowerCase addresses seen (keepUnseen toLowerCase addresses seen).1
      (keepUnseen toLowerCase addresses seen).2 := by
  induction addresses generalizing seen with
  | nil =>
    exact ⟨.slnil, List.nodup_nil, nofun,
      fun key => (or_iff_left List.not_mem_nil).symm, nofun⟩
  | cons address addresses ih =>
    rw [keepUnseen]
    dsimp only
    split
    · rename_i hseen
      obtain ⟨hsublist, hnodup, hunseen, hknown, hcomplete⟩ := ih seen
      refine ⟨hsublist.cons address, hnodup, hunseen, hknown, ?_⟩
      exact List.forall_mem_cons.mpr ⟨(hknown _).mpr (.inl hseen), hcomplete⟩
    · rename_i hseen
      obtain ⟨hsublist, hnodup, hunseen, hknown, hcomplete⟩ :=
        ih (normalizedAddress toLowerCase address :: seen)
      refine ⟨hsublist.cons_cons address, ?_, ?_, fun key => ?_, ?_⟩
      · exact List.nodup_cons.mpr ⟨fun hmem => hunseen _ hmem List.mem_cons_self, hnodup⟩
      · exact List.forall_mem_cons.mpr ⟨hseen, fun key hkey hmem =>
          hunseen key hkey (List.mem_cons_of_mem _ hmem)⟩
      · rw [hknown, List.mem_cons, List.map_cons, List.mem_cons, or_assoc, or_left_comm]
      · exact List.forall_mem_cons.mpr ⟨(hknown _).mpr (.inl List.mem_cons_self), hcomplete⟩

theorem Keeps.found {addresses seen kept seen' : List Units} {key : Units}
    (h : Keeps toLowerCase addresses seen kept seen')
    (hkey : key ∈ addresses.map (normalizedAddress toLowerCase)) (hunseen : key ∉ seen) :
    key ∈ kept.map (normalizedAddress toLowerCase) :=
  ((h.known key).mp (h.complete key hkey)).resolve_left hunseen

/-- Nobody is sent a message twice, and everybody is sent it by the first field that mentions
them. -/
structure SendsOnce (key : Units → Units) (parsed sent : RecipientFields (List Units)) : Prop where
  once : ((sent.«to» ++ sent.cc ++ sent.bcc).map key).Nodup
  parsed_to : sent.«to».Sublist parsed.«to»
  parsed_cc : sent.cc.Sublist parsed.cc
  parsed_bcc : sent.bcc.Sublist parsed.bcc
  sent_to : ∀ k ∈ parsed.«to».map key, k ∈ sent.«to».map key
  sent_cc : ∀ k ∈ parsed.cc.map key, k ∉ parsed.«to».map key → k ∈ sent.cc.map key
  sent_bcc : ∀ k ∈ parsed.bcc.map key, k ∉ parsed.«to».map key → k ∉ parsed.cc.map key →
    k ∈ sent.bcc.map key

def RecipientFields.map {α β : Type} (f : α → β) (fields : RecipientFields α) :
    RecipientFields β :=
  ⟨f fields.«to», f fields.cc, f fields.bcc⟩

/-- **Each address is sent once**, in the first field that mentions it. -/
theorem sendableRecipients_sendsOnce (toLowerCase : Units → Units)
    (fields : RecipientFields Units) :
    SendsOnce (normalizedAddress toLowerCase) (fields.map parseRecipientText)
      (sendableRecipients toLowerCase fields) := by
  have hto := keeps_keepUnseen toLowerCase (parseRecipientText fields.«to») []
  rcases hfirst : keepUnseen toLowerCase (parseRecipientText fields.«to») [] with ⟨first, seen₁⟩
  rw [hfirst] at hto
  have hcc := keeps_keepUnseen toLowerCase (parseRecipientText fields.cc) seen₁
  rcases hsecond : keepUnseen toLowerCase (parseRecipientText fields.cc) seen₁ with ⟨second, seen₂⟩
  rw [hsecond] at hcc
  have hbcc := keeps_keepUnseen toLowerCase (parseRecipientText fields.bcc) seen₂
  rcases hthird : keepUnseen toLowerCase (parseRecipientText fields.bcc) seen₂ with ⟨third, seen₃⟩
  rw [hthird] at hbcc
  have hsent : sendableRecipients toLowerCase fields = ⟨first, second, third⟩ := by
    rw [sendableRecipients, hfirst]
    dsimp only
    rw [hsecond]
    dsimp only
    rw [hthird]
  have hseen₁ : ∀ key, key ∈ seen₁ → key ∈ first.map (normalizedAddress toLowerCase) :=
    fun key hkey => ((hto.known key).mp hkey).resolve_left List.not_mem_nil
  have hsub₁ := hto.sublist.map (normalizedAddress toLowerCase)
  have hsub₂ := hcc.sublist.map (normalizedAddress toLowerCase)
  rw [hsent]
  refine ⟨?_, hto.sublist, hcc.sublist, hbcc.sublist, fun key hkey => ?_, fun key hkey hnot => ?_,
    fun key hkey hnot hnotCc => ?_⟩
  · rw [List.map_append, List.map_append]
    refine (hto.nodup.append hcc.nodup ?_).append hbcc.nodup ?_
    · exact fun key hkey hmem => hcc.unseen key hmem ((hto.known key).mpr (.inr hkey))
    · intro key hkey hmem
      refine hbcc.unseen key hmem ((hcc.known key).mpr ?_)
      exact (List.mem_append.mp hkey).imp_left fun hkey => (hto.known key).mpr (.inr hkey)
  · exact hto.found hkey List.not_mem_nil
  · exact hcc.found hkey fun hseen => hnot (hsub₁.subset (hseen₁ key hseen))
  · refine hbcc.found hkey fun hseen => ?_
    rcases (hcc.known key).mp hseen with hseen | hmem
    · exact hnot (hsub₁.subset (hseen₁ key hseen))
    · exact hnotCc (hsub₂.subset hmem)

/-! ### Stability -/

/-- `recipients.join(", ")`, which the composer keeps. -/
def serializeRecipients (recipients : List Units) : Units := (unitsOf ", ").intercalate recipients

theorem isGap_comma : IsGap (unitsOf ", ") where
  units := List.forall_mem_cons.mpr ⟨.inr rfl, List.forall_mem_singleton.mpr (.inl rfl)⟩
  separates := ⟨0x2C, List.mem_cons_self, rfl⟩

/-- **Recipients are stable**: valid addresses are read as they stand, unless they begin with an
apostrophe; a text is read back where each part of it is kept or gives plain recipients, as in every
plain text; and each address is sent once. -/
theorem recipients_stable (toLowerCase : Units → Units) :
    (∀ gap addresses, IsGap gap → (∀ address ∈ addresses,
        isValidRecipientAddress address = true ∧ address.head? ≠ some APOSTROPHE) →
      parseRecipientText (gap.intercalate addresses) = addresses) ∧
    (∀ text, (IsPlainText text ∨ ∀ part ∈ splitAddressList text, partRecipients part = [part] ∨
        ∀ recipient ∈ partRecipients part, IsPlain recipient) →
      parseRecipientText (serializeRecipients (parseRecipientText text)) =
        parseRecipientText text) ∧
    ∀ fields, SendsOnce (normalizedAddress toLowerCase) (fields.map parseRecipientText)
      (sendableRecipients toLowerCase fields) := by
  refine ⟨fun gap addresses hgap hvalid => ?_, fun text htext => ?_,
    sendableRecipients_sendsOnce toLowerCase⟩
  · have hplain : ∀ address ∈ addresses, IsPlain address := fun address hmem =>
      isPlain_of_valid (hvalid address hmem).1 (hvalid address hmem).2
    refine parseRecipientText_join hgap ?_ fun address hmem => (hplain address hmem).standsAlone
    exact List.pairwise_of_forall_mem_list fun address hmem _ _ => (hplain address hmem).isClosed
  · refine parseRecipientText_parts isGap_comma fun part hpart => ?_
    rcases htext with hplain | hparts
    · exact parts_of_plain_text hplain hpart
    · exact hparts part hpart

theorem recipients_stable_named :
    parseRecipientText ((unitsOf "\n").intercalate [unitsOf "a@x.com", unitsOf "b@y.org"]) =
      [unitsOf "a@x.com", unitsOf "b@y.org"] ∧
    parseRecipientText (serializeRecipients (parseRecipientText (unitsOf "ann bob@x.com"))) =
      parseRecipientText (unitsOf "ann bob@x.com") ∧
    parseRecipientText (serializeRecipients
        (parseRecipientText (unitsOf "(b, c); \"A, B\" <a@x.com>"))) =
      parseRecipientText (unitsOf "(b, c); \"A, B\" <a@x.com>") := by
  obtain ⟨hread, hback, -⟩ := recipients_stable id
  have hgap : IsGap (unitsOf "\n") :=
    ⟨List.forall_mem_singleton.mpr (.inr rfl), 0x0A, List.mem_cons_self, rfl⟩
  refine ⟨hread _ _ hgap (by decide), hback _ (.inl (by decide)), hback _ (.inr ?_)⟩
  have hparts : splitAddressList (unitsOf "(b, c); \"A, B\" <a@x.com>") =
      [unitsOf "(b, c)", unitsOf "\"A, B\" <a@x.com>"] := by decide
  have hread : partRecipients (unitsOf "\"A, B\" <a@x.com>") = [unitsOf "a@x.com"] := by decide
  rw [hparts]
  refine List.forall_mem_cons.mpr ⟨.inl (by decide), List.forall_mem_singleton.mpr (.inr ?_)⟩
  rw [hread]
  exact List.forall_mem_singleton.mpr (isPlain_of_valid (by decide) (by decide))

/-- A valid address loses its apostrophe, and behind an open parenthesis a name gets a comma. -/
theorem recipients_unstable :
    (¬∀ addresses, (∀ address ∈ addresses, isValidRecipientAddress address = true) →
      parseRecipientText (serializeRecipients addresses) = addresses) ∧
    ¬∀ text, parseRecipientText (serializeRecipients (parseRecipientText text)) =
      parseRecipientText text := by
  constructor
  · intro h
    have hread : parseRecipientText (serializeRecipients [unitsOf "'a@x.com"]) =
        [unitsOf "a@x.com"] := by decide
    rw [h _ (by decide)] at hread
    exact absurd hread (by decide)
  · intro h
    have hfirst : parseRecipientText (unitsOf "(foo a@x.com") =
        [unitsOf "(foo", unitsOf "a@x.com"] := by decide
    have hsecond : parseRecipientText (serializeRecipients [unitsOf "(foo", unitsOf "a@x.com"]) =
        [unitsOf "(foo,", unitsOf "a@x.com"] := by decide
    have hsame := h (unitsOf "(foo a@x.com")
    rw [hfirst, hsecond] at hsame
    exact absurd hsame (by decide)

end MailPortal.Recipients
