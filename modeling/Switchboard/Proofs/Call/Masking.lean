import Switchboard.Mask
import Switchboard.Proofs.Call.Destinations
import Switchboard.Proofs.Text.Digits
import Switchboard.Proofs.Text.Split
/-!
# What masking shows of a number

Whom a flow dials is told in messages and logs, masked.  Masking finds out by itself what a destination is, and dialing
does as well.  They agree on what a phone number is, the addresses of clients apart, which masking shows as they stand; of
every other phone number no more than its last four digits is shown (`phone_destination_masked`).

Masking knows a user id by its length and its dashes, dialing by its groups of digits.  Nothing is said here of texts that
look like one to the first and are none to the second.
-/
namespace Switchboard.Mask

open Destination

/-- The address of a client of the telephone provider. -/
def IsClientAddress (d : String) : Prop := "client:".toList <+: d.toList

/-- What masking takes for a user id: thirty-six characters, four of them dashes. -/
def LooksLikeUserId (d : String) : Prop := d.toList.length = 36 ∧ d.toList.count '-' = 4

instance (d : String) : Decidable (IsClientAddress d) := inferInstanceAs (Decidable (_ <+: _))

instance (d : String) : Decidable (LooksLikeUserId d) := inferInstanceAs (Decidable (_ ∧ _))

theorem looksLikeUserId_of_isUserId {d : String} (h : isUserId d = true) : LooksLikeUserId d :=
  ⟨(length_of_isGroups h).1, (length_of_isGroups h).2.1⟩

/-! ## What is shown -/

/-- **Of a phone number the last digits are shown**, four of them at most. -/
theorem digits_phone (d : String) :
    (Text.digits (phone (some d))).length ≤ 4 ∧ Text.digits (phone (some d)) <:+ Text.digits d := by
  have hmarks : Text.digits "[no-phone]" = [] ∧ Text.digits "****" = [] ∧ Text.digits "***" = [] := by decide
  have hown (n : Nat) : Text.digits (String.ofList ((Text.digits d).drop n)) = (Text.digits d).drop n := by
    rw [Text.digits, String.toList_ofList, List.filter_eq_self]
    exact fun c hc => Text.isDigit_of_mem_digits (List.mem_of_mem_drop hc)
  unfold phone
  dsimp only
  split
  · exact ⟨by rw [hmarks.1]; decide, by rw [hmarks.1]; exact List.nil_suffix⟩
  · split
    · exact ⟨by rw [hmarks.2.1]; decide, by rw [hmarks.2.1]; exact List.nil_suffix⟩
    · rw [Text.digits_append, hmarks.2.2, List.nil_append, hown]
      exact ⟨by rw [List.length_drop]; omega, List.drop_suffix ..⟩

/-- What is shown of a phone number is made of stars and digits, a star among them. -/
theorem phone_chars {d : String} (hd : d ≠ "") :
    '*' ∈ (phone (some d)).toList ∧ ∀ c ∈ (phone (some d)).toList, c = '*' ∨ Text.isDigit c = true := by
  unfold phone
  dsimp only
  rw [if_neg hd]
  split
  · exact ⟨by decide, fun c hc => .inl (List.eq_of_mem_replicate (show c ∈ List.replicate 4 '*' from hc))⟩
  · simp only [String.toList_append, String.toList_ofList]
    refine ⟨List.mem_append_left _ (by decide), fun c hc => ?_⟩
    rcases List.mem_append.mp hc with hc | hc
    · exact .inl (List.eq_of_mem_replicate (show c ∈ List.replicate 3 '*' from hc))
    · exact .inr (Text.isDigit_of_mem_digits (List.mem_of_mem_drop hc))

/-- What is shown of an email has its at sign. -/
theorem email_at {d : String} (h : '@' ∈ d.toList) : '@' ∈ (email (some d)).toList := by
  obtain ⟨name, domain, hd, hname⟩ := List.eq_append_cons_of_mem h
  unfold email
  rw [Option.getD_some, hd, Text.splitFirst_append _ hname]
  simp

/-- No address of a client is a user id. -/
theorem not_isClientAddress_of_isUserId {d : String} (h : isUserId d = true) : ¬ IsClientAddress d := by
  intro hclient
  have hcolon : ':' ∈ d.toList := hclient.subset (by decide)
  exact absurd ((length_of_isGroups h).2.2 _ hcolon) (by decide)

/-- **What masking does with a destination**, by what it is. -/
theorem destination_of_shape {d : String} (hd : d ≠ "") (hshape : LooksLikeUserId d → isUserId d = true) :
    destination (some d) =
      if '@' ∈ d.toList then email (some d) else if IsClientAddress d ∨ isUserId d = true then d else phone (some d) := by
  have hid : LooksLikeUserId d ↔ isUserId d = true := ⟨hshape, looksLikeUserId_of_isUserId⟩
  unfold destination
  dsimp only
  rw [if_neg hd]
  by_cases hat : '@' ∈ d.toList
  · rw [if_pos (List.contains_iff_mem.mpr hat), if_pos hat]
  · rw [if_neg (mt List.contains_iff_mem.mp hat), if_neg hat]
    refine ite_congr (propext ?_) (fun _ => rfl) fun _ => rfl
    rw [← hid, LooksLikeUserId, Bool.or_eq_true, Text.stripFront?_isSome, Bool.and_eq_true, decide_eq_true_eq,
      decide_eq_true_eq, IsClientAddress]

/-- **What is dialed as a phone number shows its last digits**, the addresses of clients apart. -/
theorem destination_of_phone {d : String} (hshape : LooksLikeUserId d → isUserId d = true)
    (hkind : (classify (some d)).kind = .phone) :
    if IsClientAddress d then destination (some d) = d
    else (Text.digits (destination (some d))).length ≤ 4 ∧ Text.digits (destination (some d)) <:+ Text.digits d := by
  by_cases hd : d = ""
  · subst hd
    decide
  obtain ⟨hid, hat⟩ := classify_eq_phone_iff.mp hkind
  have hid : ¬ isUserId d = true := fun h => by
    rw [trim_of_isUserId h, h] at hid
    cases hid
  rw [destination_of_shape hd hshape, if_neg hat]
  split
  · rename_i hclient
    rw [if_pos (.inl hclient)]
  · rename_i hclient
    rw [if_neg (not_or.mpr ⟨hclient, hid⟩)]
    exact digits_phone d

/-- **Masking and dialing agree** on what a phone number is, the addresses of clients apart. -/
theorem masked_as_phone_iff {d : String} (hshape : LooksLikeUserId d → isUserId d = true) (hd : d ≠ "")
    (htrim : Text.trim d = d) : (classify (some d)).kind = .phone ↔
      destination (some d) = phone (some d) ∨ IsClientAddress d ∧ '@' ∉ d.toList := by
  obtain ⟨hstar, hchars⟩ := phone_chars hd
  rw [classify_eq_phone_iff, htrim, destination_of_shape hd hshape]
  by_cases hat : '@' ∈ d.toList
  · rw [if_pos hat]
    refine iff_of_false (fun h => h.2 hat) fun h => ?_
    rcases h with h | h
    · exact absurd (hchars _ (h ▸ email_at hat)) (by decide)
    · exact h.2 hat
  rw [if_neg hat]
  by_cases hid : isUserId d = true
  · rw [if_pos (.inr hid)]
    refine iff_of_false (fun h => Bool.false_ne_true (h.1.symm.trans hid)) fun h => ?_
    rcases h with h | h
    · -- Masked as a number, a user id would have a star.
      have hmem : '*' ∈ d.toList := (congrArg (fun s => '*' ∈ s.toList) h).mpr hstar
      exact absurd ((length_of_isGroups hid).2.2 _ hmem) (by decide)
    · exact not_isClientAddress_of_isUserId hid h.1
  refine iff_of_true ⟨Bool.eq_false_iff.mpr hid, hat⟩ ?_
  by_cases hclient : IsClientAddress d
  · exact .inr ⟨hclient, hat⟩
  · exact .inl (if_neg (not_or.mpr ⟨hclient, hid⟩))

/-- **Of a phone number no more than its last four digits is shown.**  The address of a client is shown as it stands; of
everything else that is dialed as a phone number no more than the last four digits are.  Masking takes for phone numbers
exactly what dialing takes for them, the addresses of clients apart. -/
theorem phone_destination_masked {d : String} (hshape : LooksLikeUserId d → isUserId d = true) :
    ((classify (some d)).kind = .phone →
      if IsClientAddress d then destination (some d) = d
      else (Text.digits (destination (some d))).length ≤ 4 ∧ Text.digits (destination (some d)) <:+ Text.digits d) ∧
    (d ≠ "" → Text.trim d = d → ((classify (some d)).kind = .phone ↔
      destination (some d) = phone (some d) ∨ IsClientAddress d ∧ '@' ∉ d.toList)) :=
  ⟨destination_of_phone hshape, masked_as_phone_iff hshape⟩

/-- A number with four dashes, which is too short for a user id. -/
theorem number_with_dashes_masked :
    let d := "+1-555-123-4567-8"
    ¬ LooksLikeUserId d ∧ (classify (some d)).kind = .phone ∧ (Text.digits (destination (some d))).length ≤ 4 := by
  intro d
  have hshape : ¬ LooksLikeUserId d := by decide
  have hkind : (classify (some d)).kind = .phone := by decide
  have hmasked := (phone_destination_masked fun h => absurd h hshape).1 hkind
  rw [if_neg (by decide)] at hmasked
  exact ⟨hshape, hkind, hmasked.1⟩

/-- **The address of a client is shown as it stands**, whatever digits it has: here eleven, of what is dialed as a phone
number. -/
theorem client_address_is_shown :
    ¬ ∀ d : String, (classify (some d)).kind = .phone → (Text.digits (destination (some d))).length ≤ 4 := by
  intro h
  have hkind : (classify (some "client:15551234567")).kind = .phone := by decide
  exact absurd (h _ hkind) (by decide)

end Switchboard.Mask
