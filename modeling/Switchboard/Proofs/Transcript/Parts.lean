import Mathlib.Data.List.Forall2
import Switchboard.Transcript.Basic
/-!
# Parts of transcripts

A transcript is cut at one window after the other, and at each window one utterance after the other: what a window holds of
an utterance hangs on nothing else that is said.  Nothing keeps a transcript from being cut but an utterance in one of the
windows whose words are no text (`isSome_split`); otherwise there is a part for each window (`forall₂_part`).
-/
namespace Switchboard

variable {τ : Type} [Sub τ] [LT τ] [DecidableLT τ]

namespace Utterance

/-- What a window holds of an utterance. -/
def within (w : Window τ) (u : Utterance τ) : Option (Utterance τ) := (Transcript.clipped w [u]).head?

theorem within_eq (w : Window τ) (u : Utterance τ) : u.within w = if u.overlaps w then some (u.clip w) else none := by
  unfold within Transcript.clipped
  cases h : u.overlaps w <;> simp [h]

theorem within_eq_some {w : Window τ} {u p : Utterance τ} (h : u.within w = some p) :
    u.overlaps w = true ∧ p = u.clip w := by
  rw [within_eq] at h
  split at h
  · exact ⟨‹_›, (Option.some.inj h).symm⟩
  · cases h

/-- **Each utterance is cut on its own**, whatever else is said. -/
theorem clipped_eq (w : Window τ) (us : List (Utterance τ)) : Transcript.clipped w us = us.filterMap (within w) := by
  induction us with
  | nil => rfl
  | cons u us ih =>
    rw [List.filterMap_cons, within_eq, ← ih]
    cases h : u.overlaps w <;> simp [Transcript.clipped, h]

omit [Sub τ] in
theorem overlaps_iff {u : Utterance τ} {w : Window τ} : u.overlaps w = true ↔ u.start < w.stop ∧ w.start < u.stop := by
  simp [overlaps]

end Utterance

theorem isSome_joinTexts {texts : List Json} : (joinTexts texts).isSome = true ↔ ∀ v ∈ texts, ∃ s, v = .str s := by
  fun_induction joinTexts texts with
  | case1 => simp
  | case2 s => simp
  | case3 s rest hrest ih => simp [ih]
  | case4 texts h1 h2 h3 =>
    refine iff_of_false (by simp) fun h => ?_
    cases texts with
    | nil => exact h1 rfl
    | cons v rest =>
      obtain ⟨s, rfl⟩ := h v List.mem_cons_self
      exact h3 s rest rfl

namespace Transcript

variable [OfNat τ 0]

/-- What a part of a transcript shows of it: in their order, the pieces of the utterances that its window holds. -/
structure Part (t : Transcript τ) (w : Window τ) (part : Transcript τ) : Prop where
  utterances : part.utterances = t.utterances.filterMap (Utterance.within w)
  duration : part.duration = later 0 (w.stop - w.start)
  /-- Its text is that of its utterances. -/
  text : (joinTexts (part.utterances.map Utterance.text)).map Json.str = some part.text

theorem clip_eq_some {t part : Transcript τ} {w : Window τ} (h : t.clip w = some part) : t.Part w part := by
  rw [clip] at h
  obtain ⟨text, htext, rfl⟩ := Option.map_eq_some_iff.mp h
  exact ⟨Utterance.clipped_eq w t.utterances, rfl, congrArg (Option.map Json.str) htext⟩

theorem isSome_clip {t : Transcript τ} {w : Window τ} :
    (t.clip w).isSome = true ↔ ∀ u ∈ t.utterances, u.overlaps w = true → ∃ s, u.text = .str s := by
  rw [clip, Option.isSome_map, isSome_joinTexts, clipped, List.map_map, List.forall_mem_map]
  simp [Utterance.clip]

/-- A transcript is cut at one window after the other. -/
theorem split_cons (t : Transcript τ) (w : Window τ) (ws : List (Window τ)) :
    t.split (w :: ws) = (t.clip w).bind fun part => (t.split ws).map (part :: ·) := by
  rw [split, List.mapM_cons]
  cases t.clip w with
  | none => rfl
  | some part => cases h : t.split ws <;> simp [split] at h ⊢ <;> simp [h]

/-- **A transcript is cut**, unless the words of an utterance in one of the windows are no text. -/
theorem isSome_split {t : Transcript τ} {ws : List (Window τ)} :
    (t.split ws).isSome = true ↔ ∀ w ∈ ws, ∀ u ∈ t.utterances, u.overlaps w = true → ∃ s, u.text = .str s := by
  induction ws with
  | nil => simp [split]
  | cons w ws ih =>
    rw [split_cons, Option.isSome_bind, List.forall_mem_cons, ← ih, ← isSome_clip]
    cases t.clip w <;> simp

/-- **There is a part for each window.** -/
theorem forall₂_part {t : Transcript τ} {ws : List (Window τ)} {parts : List (Transcript τ)} (h : t.split ws = some parts) :
    List.Forall₂ t.Part ws parts := by
  induction ws generalizing parts with
  | nil =>
    cases h
    exact .nil
  | cons w ws ih =>
    rw [split_cons] at h
    obtain ⟨part, hpart, h⟩ := Option.bind_eq_some_iff.mp h
    obtain ⟨rest, hrest, rfl⟩ := Option.map_eq_some_iff.mp h
    exact .cons (clip_eq_some hpart) (ih hrest)

end Transcript

end Switchboard
