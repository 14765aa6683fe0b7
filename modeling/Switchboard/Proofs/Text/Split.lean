import Switchboard.Text.Split
/-!
# Lists that are split

A list of characters falls apart at a separator where it was put together with it, as long as the separator stands in none
of its pieces.  At the last separator it falls apart in one way, if only what stands behind it is free of separators.
-/
namespace Switchboard.Text

variable {sep : Char}

theorem splitOn_of_not_mem : ∀ {piece : List Char}, sep ∉ piece → splitOn sep piece = [piece]
  | [], _ => rfl
  | c :: piece, h => by
    rw [List.mem_cons, not_or] at h
    rw [splitOn, if_neg (Ne.symm h.1), splitOn_of_not_mem h.2]

theorem splitOn_ne_nil : ∀ cs : List Char, splitOn sep cs ≠ []
  | [] => List.cons_ne_nil _ _
  | c :: cs => by
    rw [splitOn]
    split
    · exact List.cons_ne_nil _ _
    · split <;> exact List.cons_ne_nil _ _

theorem not_mem_of_mem_splitOn : ∀ {cs piece : List Char}, piece ∈ splitOn sep cs → sep ∉ piece
  | [], piece, h => by
    rw [List.mem_singleton.mp h]
    exact List.not_mem_nil
  | c :: cs, piece, h => by
    rw [splitOn] at h
    split at h
    · rcases List.mem_cons.mp h with rfl | h
      · exact List.not_mem_nil
      · exact not_mem_of_mem_splitOn h
    · rename_i hc
      split at h
      · rename_i first more hcs
        rcases List.mem_cons.mp h with rfl | h
        · have hfirst : sep ∉ first := not_mem_of_mem_splitOn (hcs ▸ List.mem_cons_self)
          exact fun hm => (List.mem_cons.mp hm).elim (fun he => hc he.symm) hfirst
        · exact not_mem_of_mem_splitOn (hcs ▸ List.mem_cons_of_mem _ h)
      · rename_i hcs
        exact absurd hcs (splitOn_ne_nil cs)

/-- **A list is split piece by piece**, wherever it is cut at the separator. -/
theorem splitOn_append : ∀ (front rest : List Char),
    splitOn sep (front ++ sep :: rest) = splitOn sep front ++ splitOn sep rest
  | [], rest => by
    rw [List.nil_append, splitOn.eq_2, if_pos rfl]
    rfl
  | c :: front, rest => by
    rw [List.cons_append, splitOn, splitOn, splitOn_append front rest]
    by_cases hc : c = sep
    · rw [if_pos hc, if_pos hc, List.cons_append]
    · rw [if_neg hc, if_neg hc]
      cases hfront : splitOn sep front with
      | nil => exact absurd hfront (splitOn_ne_nil front)
      | cons piece more => rfl

/-- **A list falls apart where its pieces were joined.** -/
theorem splitOn_intercalate : ∀ {pieces : List (List Char)}, pieces ≠ [] → (∀ p ∈ pieces, sep ∉ p) →
    splitOn sep ([sep].intercalate pieces) = pieces
  | [], h, _ => absurd rfl h
  | [p], _, h => by
    rw [List.intercalate_singleton, splitOn_of_not_mem (h p List.mem_cons_self)]
  | p :: q :: more, _, h => by
    rw [List.intercalate_cons_cons, List.append_assoc, List.singleton_append, splitOn_append,
      splitOn_of_not_mem (h p List.mem_cons_self),
      splitOn_intercalate (List.cons_ne_nil q more) fun r hr => h r (List.mem_cons_of_mem _ hr)]
    rfl

theorem not_mem_intercalate {c : Char} (hc : c ≠ sep) : ∀ {pieces : List (List Char)}, (∀ p ∈ pieces, c ∉ p) →
    c ∉ [sep].intercalate pieces
  | [], _ => List.not_mem_nil
  | [p], h => by
    rw [List.intercalate_singleton]
    exact h p List.mem_cons_self
  | p :: q :: more, h => by
    have hrest : c ∉ [sep].intercalate (q :: more) := not_mem_intercalate hc fun r hr => h r (List.mem_cons_of_mem _ hr)
    rw [List.intercalate_cons_cons]
    simp [h p List.mem_cons_self, hc, hrest]

theorem splitFirst_of_not_mem {piece : List Char} (h : sep ∉ piece) : splitFirst sep piece = (piece, none) := by
  have hall : ∀ c ∈ piece, (c != sep) = true := fun c hc => bne_iff_ne.2 fun he => h (he ▸ hc)
  unfold splitFirst
  rw [← List.append_nil piece, List.dropWhile_append_of_pos hall, List.append_nil]
  rfl

theorem splitFirst_append {piece : List Char} (rest : List Char) (h : sep ∉ piece) :
    splitFirst sep (piece ++ sep :: rest) = (piece, some rest) := by
  have hall : ∀ c ∈ piece, (c != sep) = true := fun c hc => bne_iff_ne.2 fun he => h (he ▸ hc)
  unfold splitFirst
  rw [List.dropWhile_append_of_pos hall, List.takeWhile_append_of_pos hall]
  simp

/-- **Where the separator stands for the last time**, a list falls apart in one way. -/
theorem append_inj_of_not_mem {front front' piece piece' : List Char} (h : sep ∉ piece) (h' : sep ∉ piece')
    (heq : front ++ sep :: piece = front' ++ sep :: piece') : front = front' ∧ piece = piece' := by
  have hreverse (front piece : List Char) : (front ++ sep :: piece).reverse = piece.reverse ++ sep :: front.reverse := by
    rw [List.reverse_append, List.reverse_cons, List.append_assoc, List.singleton_append]
  have hsplit := congrArg (splitFirst sep) (congrArg List.reverse heq)
  rw [hreverse, hreverse, splitFirst_append _ (mt List.mem_reverse.1 h),
    splitFirst_append _ (mt List.mem_reverse.1 h')] at hsplit
  obtain ⟨hpiece, hfront⟩ := Prod.mk.inj hsplit
  exact ⟨List.reverse_inj.1 (Option.some.inj hfront), List.reverse_inj.1 hpiece⟩

/-! ## Marks -/

theorem stripFront?_isSome {α : Type} [DecidableEq α] :
    ∀ mark xs : List α, (stripFront? mark xs).isSome = true ↔ mark <+: xs
  | [], xs => by simp [stripFront?]
  | m :: ms, [] => by simp [stripFront?]
  | m :: ms, x :: xs => by
    rw [stripFront?, List.cons_prefix_cons]
    by_cases h : m = x
    · rw [if_pos h, stripFront?_isSome ms xs]
      exact (and_iff_right h).symm
    · rw [if_neg h]
      exact iff_of_false Bool.false_ne_true fun hx => h hx.1

/-- **A mark is cut off where it was put**, if it starts with a character that it does not hold again and stands nowhere
before. -/
theorem before_append {α : Type} [DecidableEq α] {m : α} {ms : List α} (hm : m ∉ ms) (ys : List α) :
    ∀ xs : List α, holds (m :: ms) xs = false → before (m :: ms) (xs ++ m :: ms ++ ys) = xs
  | [], _ => by
    rw [List.nil_append, List.cons_append, before, ← List.cons_append,
      if_pos ((stripFront?_isSome _ _).2 (List.prefix_append _ _))]
  | x :: xs, h => by
    rw [holds, Bool.or_eq_false_iff, Bool.eq_false_iff, ne_eq, stripFront?_isSome] at h
    have hhead : ¬ m :: ms <+: x :: xs ++ (m :: ms ++ ys) := by
      rintro ⟨behind, heq⟩
      rcases List.append_eq_append_iff.1 heq with ⟨tail, hfront, -⟩ | ⟨tail, hmark, htail⟩
      · exact h.1 ⟨tail, hfront.symm⟩
      · -- A mark that starts in the front and ends behind it holds its first character twice.
        cases tail with
        | nil =>
          rw [List.append_nil] at hmark
          exact h.1 (hmark ▸ List.prefix_rfl)
        | cons o os =>
          rw [List.cons_append] at htail hmark
          rw [← (List.cons.inj htail).1] at hmark
          exact hm ((List.cons.inj hmark).2 ▸ List.mem_append_right _ List.mem_cons_self)
    rw [List.append_assoc, List.cons_append, before, if_neg, ← List.append_assoc, before_append hm ys xs h.2]
    rw [stripFront?_isSome]
    exact hhead

theorem before_of_not_holds {α : Type} [DecidableEq α] {mark : List α} :
    ∀ xs : List α, holds mark xs = false → before mark xs = xs
  | [], _ => rfl
  | x :: xs, h => by
    rw [holds, Bool.or_eq_false_iff] at h
    rw [before, h.1, if_neg Bool.false_ne_true, before_of_not_holds xs h.2]

end Switchboard.Text
