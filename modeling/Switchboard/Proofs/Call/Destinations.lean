import Switchboard.Call.Target
import Switchboard.Proofs.Text.Digits
import Switchboard.Proofs.Text.Numeral
/-!
# What a destination is

A destination is told by its text without the white space around it: groups of digits as a user id has them, else an email
if there is an at sign anywhere, else a phone number.
-/
namespace Switchboard.Destination

theorem classify_raw (d : String) : (classify (some d)).raw = Text.trim d := by
  rw [classify]
  split
  · rfl
  · split <;> rfl

/-- **A destination is a phone number** if it is no user id and has no at sign. -/
theorem classify_eq_phone_iff {d : String} :
    (classify (some d)).kind = .phone ↔ isUserId (Text.trim d) = false ∧ '@' ∉ d.toList := by
  have hat : (Text.trim d).toList.contains '@' = true ↔ '@' ∈ d.toList := by
    rw [List.contains_iff_mem, Text.trim, String.toList_ofList, Text.mem_trimBoth (by decide)]
  rw [classify, Option.getD_some, ← hat, Bool.not_eq_true]
  split
  · rename_i h
    exact iff_of_false (fun h => by cases h) fun hno => by rw [h] at hno; cases hno.1
  · rename_i h
    rw [Bool.not_eq_true] at h
    split
    · rename_i hc
      exact iff_of_false (fun h => by cases h) fun hno => by rw [hc] at hno; cases hno.2
    · rename_i hc
      exact iff_of_true rfl ⟨h, Bool.not_eq_true _ ▸ hc⟩

/-! ## User ids -/

/-- **Groups of digits** have the length and the dashes that their number and lengths tell. -/
theorem length_of_isGroups : ∀ {ns : List Nat} {cs : List Char}, isGroups ns cs = true →
    cs.length = ns.sum + (ns.length - 1) ∧ cs.count '-' = ns.length - 1 ∧ ∀ c ∈ cs, isHex c = true ∨ c = '-'
  | [], cs, h => by
    rw [isGroups, List.isEmpty_iff] at h
    subst h
    exact ⟨rfl, rfl, fun _ hc => nomatch hc⟩
  | [n], cs, h => by
    simp only [isGroups, Bool.and_eq_true, decide_eq_true_eq, List.all_eq_true] at h
    obtain ⟨hlength, hall⟩ := h
    refine ⟨hlength.trans (List.sum_singleton).symm, List.count_eq_zero.mpr fun hmem => ?_, fun c hc => .inl (hall c hc)⟩
    exact absurd (hall _ hmem) (by decide)
  | n :: m :: rest, cs, h => by
    rw [isGroups] at h
    case x_2 => exact fun h => nomatch h
    simp only [Bool.and_eq_true, decide_eq_true_eq, List.all_eq_true] at h
    obtain ⟨⟨hlength, hall⟩, hmore⟩ := h
    split at hmore
    · rename_i more hdrop
      obtain ⟨ihlength, ihcount, ihall⟩ := length_of_isGroups hmore
      have hcs : cs = cs.take n ++ '-' :: more := hdrop ▸ (List.take_append_drop n cs).symm
      have hnone : (cs.take n).count '-' = 0 :=
        List.count_eq_zero.mpr fun hmem => absurd (hall _ hmem) (by decide)
      refine ⟨?_, ?_, fun c hc => ?_⟩
      · rw [hcs, List.length_append, hlength, List.length_cons, ihlength]
        simp only [List.sum_cons, List.length_cons]
        omega
      · rw [hcs, List.count_append, hnone, List.count_cons_self, ihcount]
        simp
      · rw [hcs] at hc
        rcases List.mem_append.mp hc with hc | hc
        · exact .inl (hall c hc)
        · rcases List.mem_cons.mp hc with rfl | hc
          · exact .inr rfl
          · exact ihall c hc
    · cases hmore

/-- A user id has no white space around it. -/
theorem trim_of_isUserId {d : String} (h : isUserId d = true) : Text.trim d = d := by
  have hblank (c : Char) (hc : isHex c = true ∨ c = '-') : Text.isBlank c = false := by
    have hrange : 45 ≤ c.toNat ∧ c.toNat < 128 := by
      rcases hc with hc | rfl
      · simp only [isHex, Bool.or_eq_true, Bool.and_eq_true, decide_eq_true_eq, Char.le_def, UInt32.le_iff_toNat_le] at hc
        change ((48 ≤ c.toNat ∧ c.toNat ≤ 57) ∨ (97 ≤ c.toNat ∧ c.toNat ≤ 102)) ∨ (65 ≤ c.toNat ∧ c.toNat ≤ 70) at hc
        omega
      · decide
    simp only [Text.isBlank, Bool.or_eq_false_iff, Bool.and_eq_false_iff, decide_eq_false_iff_not]
    omega
  rw [Text.trim, Text.trimBoth_of_all fun c hc => hblank c ((length_of_isGroups h).2.2 c hc), String.ofList_toList]

end Switchboard.Destination
