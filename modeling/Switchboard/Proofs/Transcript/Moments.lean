import Switchboard.Proofs.Decimal.Binary
import Switchboard.Proofs.Transcript.Tiling
/-!
# Moments

With floating times, too, windows that tile a stretch of time hold everything that has a length and starts in it.  What is
said in a moment, without a length, is in a window only behind its start: at the start of a window it is in none
(`overlaps_iff_lasts`), and so in no part of a transcript (`kept_iff_overlaps`).
-/
namespace Switchboard

/-! ## The order of times -/

namespace Binary

variable {x y z : Float}

theorem lt_of_le_of_lt (h : x ≤ y) (h' : y < z) : x < z := by
  obtain ⟨a, b, ha, hb, hab⟩ := le_iff.mp h
  obtain ⟨b', c, hb', hc, hbc⟩ := lt_iff.mp h'
  cases hb.symm.trans hb'
  exact lt_iff.mpr ⟨a, c, ha, hc, by omega⟩

theorem lt_of_lt_of_le (h : x < y) (h' : y ≤ z) : x < z := by
  obtain ⟨a, b, ha, hb, hab⟩ := lt_iff.mp h
  obtain ⟨b', c, hb', hc, hbc⟩ := le_iff.mp h'
  cases hb.symm.trans hb'
  exact lt_iff.mpr ⟨a, c, ha, hc, by omega⟩

theorem le_of_lt (h : x < y) : x ≤ y := by
  obtain ⟨a, b, ha, hb, hab⟩ := lt_iff.mp h
  exact le_iff.mpr ⟨a, b, ha, hb, Int.le_of_lt hab⟩

theorem not_lt_of_le (h : x ≤ y) : ¬ y < x := by
  intro h'
  obtain ⟨a, b, ha, hb, hab⟩ := le_iff.mp h
  obtain ⟨b', a', hb', ha', hba⟩ := lt_iff.mp h'
  cases hb.symm.trans hb'
  cases ha.symm.trans ha'
  omega

theorem not_lt_self : ¬ x < x := by
  intro h
  obtain ⟨a, b, ha, hb, hab⟩ := lt_iff.mp h
  cases ha.symm.trans hb
  omega

/-- Times that compare with others compare with each other. -/
theorem lt_or_le (hx : ∃ a, place x = some a) (hy : ∃ b, place y = some b) : x < y ∨ y ≤ x := by
  obtain ⟨a, ha⟩ := hx
  obtain ⟨b, hb⟩ := hy
  rcases Int.lt_or_le a b with h | h
  · exact .inl (lt_iff.mpr ⟨a, b, ha, hb, h⟩)
  · exact .inr (le_iff.mpr ⟨b, a, hb, ha, h⟩)

theorem lt_or_beq_of_le (h : x ≤ y) : x < y ∨ (x == y) = true := by
  obtain ⟨a, b, ha, hb, hab⟩ := le_iff.mp h
  rcases Int.lt_or_eq_of_le hab with h | rfl
  · exact .inl (lt_iff.mpr ⟨a, b, ha, hb, h⟩)
  · exact .inr (beq_iff.mpr ⟨a, ha, hb⟩)

theorem le_of_beq (h : (x == y) = true) : x ≤ y ∧ y ≤ x := by
  obtain ⟨a, ha, hb⟩ := beq_iff.mp h
  exact ⟨le_iff.mpr ⟨a, a, ha, hb, Int.le_refl a⟩, le_iff.mpr ⟨a, a, hb, ha, Int.le_refl a⟩⟩

end Binary

/-! ## Windows -/

namespace Tiles

open Binary

variable {lo hi : Float} {ws : List (Window Float)}

/-- **What starts in the stretch starts in a window.** -/
theorem exists_window : ∀ {lo : Float} {ws : List (Window Float)}, Tiles lo ws hi → ∀ {x : Float}, lo ≤ x → x < hi →
    ∃ w ∈ ws, w.start ≤ x ∧ x < w.stop
  | _, [], rfl, x, hlo, hhi => absurd hhi (not_lt_of_le hlo)
  | _, w :: ws, ⟨rfl, hw, h⟩, x, hlo, hhi => by
    obtain ⟨a, b, -, hb, -⟩ := lt_iff.mp hw
    obtain ⟨c, d, hc, -, -⟩ := lt_iff.mp hhi
    rcases lt_or_le ⟨c, hc⟩ ⟨b, hb⟩ with hin | hbehind
    · exact ⟨w, List.mem_cons_self, hlo, hin⟩
    · obtain ⟨v, hv, hin⟩ := exists_window h hbehind hhi
      exact ⟨v, List.mem_cons_of_mem _ hv, hin⟩

theorem le_start : ∀ {lo : Float} {ws : List (Window Float)}, Tiles lo ws hi → ∀ w ∈ ws, lo ≤ w.start
  | _, [], _, _, hw => nomatch hw
  | _, w :: ws, ⟨rfl, hw, h⟩, v, hv => by
    rcases List.mem_cons.mp hv with rfl | hv'
    · obtain ⟨a, b, ha, hb, hab⟩ := lt_iff.mp hw
      exact le_iff.mpr ⟨a, a, ha, ha, Int.le_refl a⟩
    · exact le_of_lt (lt_of_lt_of_le hw (le_start h v hv'))

/-- **No window starts inside another one.** -/
theorem not_inside : ∀ {lo : Float} {ws : List (Window Float)}, Tiles lo ws hi → ∀ v ∈ ws, ∀ w ∈ ws,
    w.start < v.start → ¬ v.start < w.stop
  | _, [], _, _, hv, _, _ => nomatch hv
  | _, u :: ws, ⟨rfl, hu, h⟩, v, hv, w, hw => by
    intro hafter hbefore
    rcases List.mem_cons.mp hv with rfl | hv' <;> rcases List.mem_cons.mp hw with rfl | hw'
    · exact not_lt_self hafter
    · exact not_lt_of_le (le_of_lt (lt_of_lt_of_le hu (le_start h w hw'))) hafter
    · exact not_lt_of_le (le_start h v hv') hbefore
    · exact not_inside h v hv' w hw' hafter hbefore

end Tiles

/-! ## Utterances -/

namespace Utterance

open Binary

/-- **What is said in a stretch of time is in one of the windows that tile it** if it has a length, or else if no window starts
when it is said. -/
theorem overlaps_iff_lasts {lo hi : Float} {ws : List (Window Float)} (tiled : Tiles lo ws hi) {u : Utterance Float}
    (hlow : lo ≤ u.start) (hhigh : u.start < hi) (hstop : ¬ u.stop < u.start) :
    (∃ w ∈ ws, u.overlaps w = true) ↔
      u.start < u.stop ∨ (u.start == u.stop) = true ∧ ∀ w ∈ ws, (w.start == u.start) = false := by
  obtain ⟨first, hfirst, hin, hbefore⟩ := tiled.exists_window hlow hhigh
  constructor
  · rintro ⟨w, hw, hoverlaps⟩
    obtain ⟨hstart, hend⟩ := overlaps_iff.mp hoverlaps
    obtain ⟨a, -, ha, -, -⟩ := lt_iff.mp hhigh
    obtain ⟨-, b, -, hb, -⟩ := lt_iff.mp hend
    have hle : u.start ≤ u.stop := (lt_or_le ⟨b, hb⟩ ⟨a, ha⟩).resolve_left hstop
    refine (lt_or_beq_of_le hle).imp_right fun heq => ⟨heq, fun v hv => ?_⟩
    -- a window that starts when it is said would start inside the one that holds it
    by_contra hv'
    obtain ⟨hle, hge⟩ := le_of_beq (Bool.not_eq_false _ ▸ hv')
    have hafter : w.start < v.start := lt_of_lt_of_le (lt_of_lt_of_le hend (le_of_beq heq).2) hge
    exact tiled.not_inside v hv w hw hafter (lt_of_le_of_lt hle hstart)
  · rintro (hlasts | ⟨heq, hnone⟩)
    · exact ⟨first, hfirst, overlaps_iff.mpr ⟨hbefore, lt_of_le_of_lt hin hlasts⟩⟩
    · have hstrict : first.start < u.start := (lt_or_beq_of_le hin).resolve_right (by simp [hnone first hfirst])
      exact ⟨first, hfirst, overlaps_iff.mpr ⟨hbefore, lt_of_lt_of_le hstrict (le_of_beq heq).1⟩⟩

/-- Whether something of an utterance is in one of the parts that belong to windows, with its words. -/
def Kept (u : Utterance Float) (ws : List (Window Float)) (parts : List (Transcript Float)) : Prop :=
  ∃ p ∈ ws.zip parts, ∃ piece ∈ p.2.utterances, u.within p.1 = some piece ∧ piece.text = u.text

/-- **An utterance is kept** where it is in a window. -/
theorem kept_iff_overlaps {t : Transcript Float} {ws : List (Window Float)} {parts : List (Transcript Float)}
    (hparts : List.Forall₂ t.Part ws parts) {u : Utterance Float} (hu : u ∈ t.utterances) :
    u.Kept ws parts ↔ ∃ w ∈ ws, u.overlaps w = true := by
  constructor
  · rintro ⟨p, hp, piece, -, hwithin, -⟩
    exact ⟨p.1, (List.of_mem_zip hp).1, (within_eq_some hwithin).1⟩
  · rintro ⟨w, hw, hoverlaps⟩
    obtain ⟨i, hi, rfl⟩ := List.getElem_of_mem hw
    have hi' : i < parts.length := hparts.length_eq ▸ hi
    have hwithin : u.within ws[i] = some (u.clip ws[i]) := by rw [within_eq, if_pos hoverlaps]
    have hpart : t.Part ws[i] parts[i] := hparts.get hi hi'
    have hpair : (ws[i], parts[i]) ∈ ws.zip parts := List.mem_iff_getElem.mpr ⟨i, by simp [hi, hi'], List.getElem_zip⟩
    refine ⟨_, hpair, u.clip ws[i], ?_, hwithin, rfl⟩
    exact hpart.utterances ▸ List.mem_filterMap.mpr ⟨u, hu, hwithin⟩

end Utterance

end Switchboard
