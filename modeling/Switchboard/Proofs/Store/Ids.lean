import Switchboard.Proofs.Service.Mutation
import Mathlib.Data.Nat.Digits.Defs
/-!
# Ids of rows

Rows get ids by counting, so a row that is inserted has an id that no row has had (`idAfter_inj`), as long as no row came
with an id that is still to be given.  A store in which this holds is identified; every write keeps it so.
-/
namespace Switchboard

/-! ## Counting -/

theorem toLower_of_isDigit {c : Char} (h : c.isDigit = true) : c.toLower = c := by
  unfold Char.toLower
  split
  · rename_i hupper
    simp only [Char.isDigit, Bool.and_eq_true, decide_eq_true_eq, ge_iff_le] at h
    exact absurd (UInt32.le_trans hupper.1 h.2) (by decide)
  · rfl

theorem toList_padded (width n : Nat) :
    (Time.padded width n).toList = List.replicate (width - (toString n).length) '0' ++ Nat.toDigits 10 n := by
  simp [Time.padded]

theorem isDigit_padded (width n : Nat) : ∀ c ∈ (Time.padded width n).toList, c.isDigit = true := by
  intro c hc
  rw [toList_padded, List.mem_append] at hc
  rcases hc with hzero | hdigit
  · rw [List.eq_of_mem_replicate hzero]
    decide
  · exact Nat.isDigit_of_mem_toDigits (by decide) (by decide) hdigit

/-- **A padded number is read back.** -/
theorem ofDigitChars_padded (width n : Nat) : Nat.ofDigitChars 10 (Time.padded width n).toList 0 = n := by
  rw [toList_padded, Nat.ofDigitChars_append, Nat.ofDigitChars_replicate_zero, Nat.mul_zero,
    Nat.ofDigitChars_ten_toDigits]

namespace Store

/-- **Counting gives every id once**, also where the case of letters does not count. -/
theorem idAfter_inj {m n : Nat} (h : sameId (idAfter m) (idAfter n) = true) : m = n := by
  have hlower (k : Nat) : (Time.padded 12 ((k + 1 : Nat) : Int)).toList.map Char.toLower =
      (Time.padded 12 ((k + 1 : Nat) : Int)).toList := by
    refine (List.map_congr_left fun c hc => ?_).trans (List.map_id _)
    exact toLower_of_isDigit (isDigit_padded 12 (k + 1) c hc)
  have heq : (idAfter m).toList.map Char.toLower = (idAfter n).toList.map Char.toLower := of_decide_eq_true h
  unfold idAfter at heq
  rw [String.toList_append, String.toList_append, List.map_append, List.map_append] at heq
  generalize "00000000-0000-4000-8000-".toList.map Char.toLower = front at heq
  have hdigits : (Time.padded 12 ((m + 1 : Nat) : Int)).toList = (Time.padded 12 ((n + 1 : Nat) : Int)).toList := by
    rw [← hlower m, ← hlower n]
    exact List.append_cancel_left heq
  have hread := congrArg (fun cs => Nat.ofDigitChars 10 cs 0) hdigits
  rw [ofDigitChars_padded, ofDigitChars_padded] at hread
  omega

theorem sameId_empty (n : Nat) : sameId "" (idAfter n) = false := by
  rw [Bool.eq_false_iff]
  intro h
  have heq : "".toList.map Char.toLower = (idAfter n).toList.map Char.toLower := of_decide_eq_true h
  unfold idAfter at heq
  rw [String.toList_append, List.map_append] at heq
  have hfront : "00000000-0000-4000-8000-".toList.map Char.toLower = [] := (List.append_eq_nil_iff.mp heq.symm).1
  rw [List.map_eq_nil_iff] at hfront
  exact absurd hfront (by decide)

/-! ## Identified stores -/

/-- No two segments have the same id, and none has one that is still to be given. -/
structure Identified (db : Store) : Prop where
  keyed : db.Keyed
  fresh : ∀ n, db.counted ≤ n → ∀ r ∈ db.calls, sameId r.segment.id (idAfter n) = false

theorem identified_empty : Store.empty.Identified := ⟨List.Pairwise.nil, fun _ _ _ h => nomatch h⟩

theorem Identified.of_calls {db db' : Store} (h : db.Identified) (hcalls : db'.calls = db.calls)
    (hcounted : db.counted ≤ db'.counted) : db'.Identified := by
  refine ⟨?_, ?_⟩
  · rw [Keyed, hcalls]
    exact h.keyed
  · rw [hcalls]
    exact fun n hn => h.fresh n (le_trans hcounted hn)

theorem Identified.updateCalls {db : Store} (h : db.Identified) (p : CallRow → Bool) {g : CallRow → CallRow}
    (hg : ∀ r, (g r).segment.id = r.segment.id) : (db.updateCalls p g).Identified := by
  refine ⟨h.keyed.updateCalls p hg, fun n hn r hr => ?_⟩
  obtain ⟨a, ha, rfl⟩ := List.mem_map.mp hr
  have hid : (if p a then g a else a).segment.id = a.segment.id := by
    split
    · exact hg a
    · rfl
  rw [hid]
  exact h.fresh n hn a ha

theorem insertCall_eq_ok {r r' : CallRow} {db db' : Store} (h : db.insertCall r = .ok (r', db')) :
    db.isNew r.segment = true ∧ r' = { r with segment := { r.segment with id := idAfter db.counted } } ∧
      db' = { db with calls := db.calls ++ [r'], counted := db.counted + 1 } := by
  unfold Store.insertCall at h
  split at h
  · cases h
  · rename_i hnew
    cases h
    exact ⟨by simpa using hnew, rfl, rfl⟩

/-- **An insertion leaves a store identified.** -/
theorem Identified.insertCall {r r' : CallRow} {db db' : Store} (hdb : db.Identified)
    (h : db.insertCall r = .ok (r', db')) : db'.Identified := by
  obtain ⟨-, rfl, rfl⟩ := insertCall_eq_ok h
  refine ⟨?_, fun n hn a ha => ?_⟩
  · show List.Pairwise _ (db.calls ++ [_])
    rw [List.pairwise_append]
    refine ⟨hdb.keyed, List.pairwise_singleton _ _, fun a ha b hb => ?_⟩
    rw [List.mem_singleton.mp hb]
    exact hdb.fresh db.counted (Nat.le_refl _) a ha
  · rcases List.mem_append.mp ha with hold | hnew
    · exact hdb.fresh n (Nat.le_of_succ_le hn) a hold
    · rw [List.mem_singleton.mp hnew, Bool.eq_false_iff]
      intro hsame
      have : db.counted = n := idAfter_inj hsame
      change db.counted + 1 ≤ n at hn
      omega

end Store

end Switchboard
