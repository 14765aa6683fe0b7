import Switchboard.Call.Naming
import Switchboard.Proofs.Text.Numeral
import Switchboard.Proofs.Text.Split
/-!
# Names of segments

Names are put together without escapes.  Still each can be taken apart in one way: a number holds no underscore, so what
stands behind the last one is the number (`numbered_inj`), and what stands before the mark of a transfer is the root
(`root_transfer`), whatever else the root is made of.  So conferences have different names (`conference_injective`), and so
have segments of calls that no transfer named (`segment_inj`).
-/
namespace Switchboard.Naming

/-! ## Roots -/

/-- A call id that no transfer made. -/
def Unmarked (sid : String) : Prop := Text.holds transferMark.toList sid.toList = false

instance : DecidablePred Unmarked := fun _ => inferInstanceAs (Decidable (_ = false))

/-- The id of a segment's call. -/
def segment (root : String) (number : Int) : String := if number = 0 then root else transfer root number

theorem root_of_unmarked {sid : String} (h : Unmarked sid) : root sid = sid := by
  rw [root, Text.before_of_not_holds _ h, String.ofList_toList]

/-- **What a transfer named leads to what it was named from.** -/
theorem root_transfer {root : String} (h : Unmarked root) (number : Int) : Naming.root (transfer root number) = root := by
  have hmark : transferMark.toList = '_' :: "transfer".toList := by decide
  have hlist : (transfer root number).toList =
      root.toList ++ '_' :: "transfer".toList ++ ("_" ++ toString number).toList := by
    rw [transfer, String.toList_append, String.toList_append, String.toList_append, hmark, String.toList_append]
    simp only [List.append_assoc]
  rw [Unmarked, hmark] at h
  rw [Naming.root, hlist, hmark, Text.before_append (by decide) _ _ h, String.ofList_toList]

/-- **Every id of a call leads to the caller's call.** -/
theorem root_segment {root : String} (h : Unmarked root) (number : Int) : Naming.root (segment root number) = root := by
  unfold segment
  split
  · exact root_of_unmarked h
  · exact root_transfer h number

/-! ## Different names -/

/-- **A number at the end of a name can be told from what stands before it.** -/
theorem numbered_inj {front front' : String} {n n' : Int}
    (h : front ++ "_" ++ toString n = front' ++ "_" ++ toString n') : front = front' ∧ n = n' := by
  have hlist (front : String) (n : Int) :
      (front ++ "_" ++ toString n).toList = front.toList ++ '_' :: (toString n).toList := by
    rw [String.toList_append, String.toList_append, List.append_assoc]
    rfl
  have hunmarked (n : Int) : '_' ∉ (toString n).toList := Text.not_mem_toString (by decide) (by decide) n
  have hlists := congrArg String.toList h
  rw [hlist, hlist] at hlists
  obtain ⟨hfront, hnumber⟩ := Text.append_inj_of_not_mem (hunmarked n) (hunmarked n') hlists
  exact ⟨String.toList_injective hfront, Text.toString_injective (String.toList_injective hnumber)⟩

theorem conference_injective : Function.Injective2 conference := by
  intro root root' n n' h
  have hbehind : "_seg_" = "_seg" ++ "_" := by decide
  rw [conference, conference, hbehind, ← String.append_assoc, ← String.append_assoc] at h
  obtain ⟨hfront, hnumber⟩ := numbered_inj h
  exact ⟨(String.append_right_inj _).1 ((String.append_left_inj _).1 hfront), hnumber⟩

theorem transfer_injective : Function.Injective2 transfer := by
  intro root root' n n' h
  obtain ⟨hfront, hnumber⟩ := numbered_inj h
  exact ⟨(String.append_left_inj _).1 hfront, hnumber⟩

theorem transfer_ne (root : String) (number : Int) : transfer root number ≠ root := by
  intro h
  have hmark : transferMark.toList.length = 9 := by decide
  have hlength := congrArg (fun t => t.toList.length) h
  simp only [transfer, String.toList_append, List.length_append] at hlength
  omega

/-- **Segments have different names**, of one call or of several. -/
theorem segment_inj {root root' : String} {n n' : Int} (hroot : Unmarked root) (hroot' : Unmarked root')
    (h : segment root n = segment root' n') : root = root' ∧ n = n' := by
  obtain rfl : root = root' := by rw [← root_segment hroot n, h, root_segment hroot']
  refine ⟨rfl, ?_⟩
  unfold segment at h
  split at h <;> split at h
  · rename_i hn hn'
    rw [hn, hn']
  · exact absurd h.symm (transfer_ne root n')
  · exact absurd h (transfer_ne root n)
  · exact (transfer_injective h).2

end Switchboard.Naming
