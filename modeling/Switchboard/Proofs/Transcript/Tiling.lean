import Mathlib.Algebra.Order.Ring.Rat
import Mathlib.Order.CompletePartialOrder
import Mathlib.Order.Interval.Set.Basic
import Mathlib.Tactic.Linarith
import Switchboard.Proofs.Transcript.Parts
/-!
# Cutting a transcript along its windows

A transcript is cut along windows that tile a stretch of time.  Every window holds a piece of each utterance that it
overlaps, counted from the window's start.  Put back on the clock of the call, the pieces of an utterance tile the part of it
that the windows cover (`pieces_tile`).  So, with exact times, every part is what its window shows of the whole transcript
(`transcript_cut_along_windows`).
-/
namespace Switchboard

/-! ## Windows -/

/-- Windows that have a length and follow one another without a gap from one point to another. -/
def Tiles {τ : Type} [LT τ] : τ → List (Window τ) → τ → Prop
  | lo, [], hi => lo = hi
  | lo, w :: ws, hi => w.start = lo ∧ w.start < w.stop ∧ Tiles w.stop ws hi

/-- The time that a window covers: its start belongs to it and its end does not. -/
def Window.span (w : Window ℚ) : Set ℚ := Set.Ico w.start w.stop

/-- The time that some windows cover together. -/
def covered (ws : List (Window ℚ)) : Set ℚ := {x | ∃ w ∈ ws, x ∈ w.span}

namespace Tiles

variable {hi : ℚ}

theorem le : ∀ {lo : ℚ} {ws : List (Window ℚ)}, Tiles lo ws hi → lo ≤ hi
  | _, [], h => le_of_eq h
  | _, _ :: _, ⟨hlo, hw, h⟩ => by
    have := le h
    linarith

theorem proper : ∀ {lo : ℚ} {ws : List (Window ℚ)}, Tiles lo ws hi → ∀ w ∈ ws, w.start < w.stop
  | _, [], _ => fun _ hw => nomatch hw
  | _, _ :: _, ⟨_, hw, h⟩ => List.forall_mem_cons.mpr ⟨hw, proper h⟩

/-- **Windows that tile a stretch cover it**, and nothing else. -/
theorem covered_eq : ∀ {lo : ℚ} {ws : List (Window ℚ)}, Tiles lo ws hi → covered ws = Set.Ico lo hi
  | _, [], h => by
    cases h
    simp [covered]
  | _, w :: ws, ⟨hlo, hw, h⟩ => by
    have hcons : covered (w :: ws) = w.span ∪ covered ws := by
      ext x
      simp [covered]
    rw [hcons, covered_eq h, Window.span, ← hlo]
    exact Set.Ico_union_Ico_eq_Ico hw.le (le h)

/-- **They do not overlap.** -/
theorem disjoint : ∀ {lo : ℚ} {ws : List (Window ℚ)}, Tiles lo ws hi → ws.Pairwise fun v w => Disjoint v.span w.span
  | _, [], _ => .nil
  | _, w :: ws, ⟨_, _, h⟩ => by
    refine List.pairwise_cons.mpr ⟨fun v hv => ?_, disjoint h⟩
    have hbehind : v.span ⊆ Set.Ico w.stop hi := by
      rw [← covered_eq h]
      exact fun x hx => ⟨v, hv, hx⟩
    exact Set.disjoint_left.mpr fun x hx hxv => absurd (hbehind hxv).1 (not_le.mpr hx.2)

end Tiles

/-! ## Pieces -/

theorem later_eq (a b : ℚ) : later a b = max a b := by
  unfold later
  split
  · rename_i h
    exact (max_eq_right h.le).symm
  · rename_i h
    exact (max_eq_left (not_lt.mp h)).symm

theorem earlier_eq (a b : ℚ) : earlier a b = min a b := by
  unfold earlier
  split
  · rename_i h
    exact (min_eq_right h.le).symm
  · rename_i h
    exact (min_eq_left (not_lt.mp h)).symm

namespace Utterance

/-- The time at which something is said.  An utterance that ends before it starts spans what is between. -/
def span (u : Utterance ℚ) : Set ℚ := Set.Ico u.start u.stop ∪ Set.Icc u.stop u.start

/-- A piece in a window, put back on the clock of the call. -/
def placed (w : Window ℚ) (p : Utterance ℚ) : Window ℚ := ⟨w.start + p.start, w.start + p.stop⟩

/-- The pieces into which windows cut an utterance, on the clock of the call. -/
def pieces (ws : List (Window ℚ)) (u : Utterance ℚ) : List (Window ℚ) :=
  ws.filterMap fun w => (u.within w).map (placed w)

/-- **What a window holds of an utterance** is where the two overlap. -/
theorem map_placed_within (w : Window ℚ) (u : Utterance ℚ) :
    (u.within w).map (placed w) =
      if u.start < w.stop ∧ w.start < u.stop then some ⟨max u.start w.start, min u.stop w.stop⟩ else none := by
  rw [within_eq]
  by_cases h : u.start < w.stop ∧ w.start < u.stop
  · rw [if_pos (overlaps_iff.mpr h), if_pos h, Option.map_some, placed, Utterance.clip, later_eq, earlier_eq]
    simp
  · rw [if_neg (mt overlaps_iff.mp h), if_neg h, Option.map_none]

theorem pieces_cons (w : Window ℚ) (ws : List (Window ℚ)) (u : Utterance ℚ) :
    u.pieces (w :: ws) =
      (if u.start < w.stop ∧ w.start < u.stop then [⟨max u.start w.start, min u.stop w.stop⟩] else []) ++
        u.pieces ws := by
  rw [pieces, List.filterMap_cons, map_placed_within]
  by_cases h : u.start < w.stop ∧ w.start < u.stop
  · rw [if_pos h, if_pos h]
    rfl
  · rw [if_neg h, if_neg h]
    rfl

/-- **The pieces of an utterance tile the part of it that the windows cover**, and where they cover none of it there are no
pieces. -/
theorem pieces_tile {u : Utterance ℚ} (hu : u.start < u.stop) {hi : ℚ} : ∀ {lo : ℚ} {ws : List (Window ℚ)}, Tiles lo ws hi →
    (max lo u.start < min hi u.stop → Tiles (max lo u.start) (u.pieces ws) (min hi u.stop)) ∧
      (min hi u.stop ≤ max lo u.start → u.pieces ws = [])
  | lo, [], h => by
    cases h
    refine ⟨fun hlt => absurd hlt (not_lt.mpr ?_), fun _ => rfl⟩
    exact (min_le_left _ _).trans (le_max_left _ _)
  | lo, w :: ws, ⟨hlo, hw, h⟩ => by
    obtain ⟨hsome, hnone⟩ := pieces_tile hu h
    have hle := h.le
    subst hlo
    rw [pieces_cons]
    rcases le_or_gt w.stop u.start with hbefore | hstart
    · -- the window ends before the utterance starts: it is all in the later windows
      rw [if_neg fun hin => absurd hin.1 (not_lt.mpr hbefore), List.nil_append]
      rw [max_eq_right hbefore] at hsome hnone
      rw [max_eq_right (hw.le.trans hbefore)]
      exact ⟨hsome, hnone⟩
    rcases le_or_gt u.stop w.start with hafter | hstop
    · -- the utterance ends before the window starts: no window holds any of it
      have hnothing : min hi u.stop ≤ max w.stop u.start := by
        rw [min_eq_right (by linarith), max_eq_left hstart.le]
        linarith
      rw [if_neg fun hin => absurd hin.2 (not_lt.mpr hafter), List.nil_append]
      refine ⟨fun hlt => absurd hlt (not_lt.mpr ?_), fun _ => hnone hnothing⟩
      rw [min_eq_right (by linarith), max_eq_left (by linarith)]
      exact hafter
    have hpiece : max w.start u.start < min w.stop u.stop := max_lt (lt_min hw hstop) (lt_min hstart hu)
    rw [if_pos ⟨hstart, hstop⟩, List.singleton_append, max_comm u.start, min_comm u.stop]
    rw [max_eq_left hstart.le] at hsome hnone
    constructor
    · rintro -
      refine ⟨rfl, hpiece, ?_⟩
      rcases lt_or_ge w.stop (min hi u.stop) with hmore | hlast
      · -- the utterance goes on behind the window
        rw [min_eq_left (hmore.le.trans (min_le_right _ _))]
        exact hsome hmore
      · rw [hnone hlast]
        exact le_antisymm (min_le_min_right _ hle) (le_min hlast (min_le_right _ _))
    · intro hnothing
      exact absurd (hpiece.trans_le (min_le_min_right _ hle)) (not_lt.mpr hnothing)

/-- **A piece lies in its window**, both its ends. -/
theorem within_bounds {u p : Utterance ℚ} {w : Window ℚ} (hw : w.start < w.stop) (h : u.within w = some p) :
    0 ≤ p.start ∧ p.start < w.stop - w.start ∧ 0 < p.stop ∧ p.stop ≤ w.stop - w.start := by
  obtain ⟨hin, rfl⟩ := within_eq_some h
  obtain ⟨hstart, hstop⟩ := overlaps_iff.mp hin
  rw [clip, later_eq, earlier_eq]
  have hlow := le_max_right u.start w.start
  have hhigh := min_le_right u.stop w.stop
  have := max_lt hstart hw
  have := lt_min hstop hw
  exact ⟨by linarith, by linarith, by linarith, by linarith⟩

/-- A window holds something only of what is said in its time. -/
theorem span_inter_nonempty {u : Utterance ℚ} {w : Window ℚ} (hw : w.start < w.stop) (h : u.overlaps w = true) :
    (u.span ∩ w.span).Nonempty := by
  obtain ⟨hstart, hstop⟩ := overlaps_iff.mp h
  rcases lt_or_ge u.start u.stop with hu | hu
  · exact ⟨max u.start w.start, .inl ⟨le_max_left _ _, max_lt hu hstop⟩, le_max_right _ _, max_lt hstart hw⟩
  · exact ⟨u.stop, .inr ⟨le_rfl, hu⟩, hstop.le, hu.trans_lt hstart⟩

/-- What it means that windows cut an utterance along the time from one point to another. -/
structure CutAlong (lo : ℚ) (ws : List (Window ℚ)) (hi : ℚ) (u : Utterance ℚ) : Prop where
  /-- A piece keeps the words and who says them. -/
  kept : ∀ w ∈ ws, ∀ p ∈ u.within w, p.text = u.text ∧ p.speaker = u.speaker
  /-- It lies in its window. -/
  inside : ∀ w ∈ ws, ∀ p ∈ u.within w,
    0 ≤ p.start ∧ p.start < w.stop - w.start ∧ 0 < p.stop ∧ p.stop ≤ w.stop - w.start
  /-- There is none in a window that the utterance does not overlap. -/
  absent : ∀ w ∈ ws, Disjoint u.span w.span → u.within w = none
  /-- Pieces have a length and follow one another without a gap. -/
  consecutive : u.start < u.stop → ∃ first last, Tiles first (u.pieces ws) last
  /-- They do not overlap. -/
  disjoint : u.start < u.stop → (u.pieces ws).Pairwise fun v w => Disjoint v.span w.span
  /-- Together they are the part of the utterance between the two points. -/
  union : u.start < u.stop → covered (u.pieces ws) = Set.Ico u.start u.stop ∩ Set.Ico lo hi

theorem cutAlong {lo hi : ℚ} {ws : List (Window ℚ)} (tiled : Tiles lo ws hi) (u : Utterance ℚ) : u.CutAlong lo ws hi := by
  have hpieces (hu : u.start < u.stop) :
      ∃ first last, Tiles first (u.pieces ws) last ∧ Set.Ico first last = Set.Ico u.start u.stop ∩ Set.Ico lo hi := by
    obtain ⟨hsome, hnone⟩ := pieces_tile hu tiled
    rw [Set.Ico_inter_Ico, max_comm, min_comm]
    rcases lt_or_ge (max lo u.start) (min hi u.stop) with h | h
    · exact ⟨_, _, hsome h, rfl⟩
    · exact ⟨lo, lo, hnone h ▸ rfl, (Set.Ico_self lo).trans (Set.Ico_eq_empty (not_lt.mpr h)).symm⟩
  refine ⟨fun w _ p hp => ?_, fun w hw p hp => within_bounds (tiled.proper w hw) hp, fun w hw hno => ?_, fun hu => ?_,
    fun hu => ?_, fun hu => ?_⟩
  · obtain ⟨-, rfl⟩ := within_eq_some hp
    exact ⟨rfl, rfl⟩
  · rw [within_eq, if_neg]
    exact fun hin => absurd hno (Set.not_disjoint_iff_nonempty_inter.mpr (span_inter_nonempty (tiled.proper w hw) hin))
  · obtain ⟨first, last, h, -⟩ := hpieces hu
    exact ⟨first, last, h⟩
  · obtain ⟨first, last, h, -⟩ := hpieces hu
    exact h.disjoint
  · obtain ⟨first, last, h, hspan⟩ := hpieces hu
    exact h.covered_eq.trans hspan

end Utterance

/-- **A transcript is cut along windows that tile a stretch of time**: there is a part for each window, in the order of the
windows, it shows what its window holds of the utterances, in their order, and every utterance is cut along the windows.
Nothing but an utterance in one of the windows whose words are no text keeps a transcript from being cut. -/
theorem transcript_cut_along_windows {lo hi : ℚ} {ws : List (Window ℚ)} (tiled : Tiles lo ws hi) (t : Transcript ℚ) :
    ((t.split ws).isSome = true ↔ ∀ w ∈ ws, ∀ u ∈ t.utterances, u.overlaps w = true → ∃ s, u.text = .str s) ∧
      (∀ parts, t.split ws = some parts → List.Forall₂ t.Part ws parts) ∧
      ∀ u ∈ t.utterances, u.CutAlong lo ws hi :=
  ⟨Transcript.isSome_split, fun _ h => Transcript.forall₂_part h, fun u _ => Utterance.cutAlong tiled u⟩

/-- Two minutes of a call, in two windows. -/
def twoMinutes : List (Window ℚ) := [⟨0, 60⟩, ⟨60, 120⟩]

/-- What somebody says while the call is handed on. -/
def handover : Utterance ℚ := ⟨55, 65, .str "hello there", .str "Speaker 1"⟩

theorem handover_cut_along_two_minutes :
    Tiles 0 twoMinutes 120 ∧ (Transcript.split ⟨.str "hello there", 65, [handover]⟩ twoMinutes).isSome = true ∧
      handover.pieces twoMinutes = [⟨55, 60⟩, ⟨60, 65⟩] ∧ handover.CutAlong 0 twoMinutes 120 := by
  have tiled : Tiles 0 twoMinutes 120 := ⟨rfl, by norm_num, rfl, by norm_num, rfl⟩
  obtain ⟨hcut, -, halong⟩ := transcript_cut_along_windows tiled ⟨.str "hello there", 65, [handover]⟩
  refine ⟨tiled, hcut.mpr fun _ _ u hu _ => ⟨"hello there", ?_⟩, ?_, halong handover List.mem_cons_self⟩
  · rw [List.mem_singleton.mp hu]
    rfl
  · rw [twoMinutes, Utterance.pieces_cons, Utterance.pieces_cons]
    norm_num [handover, Utterance.pieces]

end Switchboard
