import Switchboard.Proofs.Breaker.Counting
/-!
# Probes

Calls that overlap share a breaker, and each takes its turn there when it starts and when it ends.  A call that comes to an
open breaker behind the recovery time is a probe: it makes the breaker half-open.  A half-open breaker holds nobody back, so
until a call fails everybody is carried out beside the probe; and once one has failed, calls are held back as they are at any
open breaker (`held_back_beside_a_probe_iff`).
-/
namespace Switchboard.Breaker

/-- A turn that a call takes. -/
inductive Turn (ι τ : Type) where
  | start (call : ι) (now : τ)
  | finish (call : ι) (succeeded : Bool) (now : τ)

/-- What comes of a turn.  A call that is not on its way does not end. -/
inductive Deed (τ : Type) where
  | passes
  | probes
  | heldBack
  | fails (now : τ)
  | succeeds
  | nothing

namespace Deed

variable {τ : Type}

def failure? : Deed τ → Option τ
  | fails now => some now
  | _ => none

def isSuccess : Deed τ → Bool
  | succeeds => true
  | _ => false

end Deed

/-- A breaker with the calls that are carried out and have not ended. -/
structure Shared (ι τ : Type) where
  breaker : Breaker τ
  out : List ι

variable {ι τ : Type}

/-! ## Histories -/

/-- The times of the failures since the last success, the latest first. -/
def failedInARow (ds : List (Deed τ)) : List τ := (ds.reverse.takeWhile fun d => !d.isSuccess).filterMap Deed.failure?

/-- A probe has started since the latest failure. -/
def Probing (ds : List (Deed τ)) : Prop := .probes ∈ ds.reverse.takeWhile fun d => d.failure?.isNone

@[simp] theorem failedInARow_concat (ds : List (Deed τ)) (d : Deed τ) :
    failedInARow (ds ++ [d]) = if d.isSuccess then [] else d.failure?.toList ++ failedInARow ds := by
  cases hs : d.isSuccess with
  | true => simp [failedInARow, hs]
  | false => cases hf : d.failure? <;> simp [failedInARow, hs, hf]

@[simp] theorem probing_concat (ds : List (Deed τ)) (d : Deed τ) :
    Probing (ds ++ [d]) ↔ d = .probes ∨ d.failure? = none ∧ Probing ds := by
  cases hf : d.failure? with
  | none => simp [Probing, hf, eq_comm]
  | some now =>
    have hd : d ≠ .probes := by
      rintro rfl
      cases hf
    simp [Probing, hf, hd]

theorem probing_append (ds : List (Deed τ)) {later : List (Deed τ)} (h : ∀ d ∈ later, d.failure? = none) :
    Probing (ds ++ .probes :: later) := by
  have hkept : ∀ d ∈ later.reverse, d.failure?.isNone = true := by
    intro d hd
    rw [h d (List.mem_reverse.1 hd)]
    rfl
  rw [Probing, List.reverse_append, List.reverse_cons, List.append_assoc, List.takeWhile_append_of_pos hkept]
  simp [Deed.failure?]

variable {l : BreakerLimits τ}

/-- A breaker behind a history: it counts the failures in a row, and it is half-open while it is probed. -/
structure Watches (l : BreakerLimits τ) (b : Breaker τ) (ds : List (Deed τ)) : Prop where
  tallies : Tallies l b (failedInARow ds)
  halfOpen : b.state = .halfOpen ↔ l.threshold ≤ (failedInARow ds).length ∧ Probing ds

/-- A turn at which nothing happens to the breaker. -/
theorem Watches.quiet {b : Breaker τ} {ds : List (Deed τ)} (h : Watches l b ds) {d : Deed τ}
    (hd : d = .passes ∨ d = .heldBack ∨ d = .nothing) : Watches l b (ds ++ [d]) := by
  have hkept : d.isSuccess = false ∧ d.failure? = none ∧ d ≠ .probes := by
    rcases hd with rfl | rfl | rfl <;> simp [Deed.isSuccess, Deed.failure?]
  obtain ⟨hsuccess, hfailure, hprobe⟩ := hkept
  constructor
  · simpa [hsuccess, hfailure] using h.tallies
  · simpa [hsuccess, hfailure, hprobe] using h.halfOpen

/-! ## Turns -/

variable [Sub τ] [LT τ] [DecidableLT τ] [DecidableEq ι]

namespace Shared

def idle [OfNat τ 0] : Shared ι τ := ⟨.fresh, []⟩

def take (l : BreakerLimits τ) (s : Shared ι τ) : Turn ι τ → Deed τ × Shared ι τ
  | .start call now =>
    let (allowed, b) := s.breaker.start l now
    if allowed then (if s.breaker.state = .opened then .probes else .passes, ⟨b, call :: s.out⟩) else (.heldBack, ⟨b, s.out⟩)
  | .finish call succeeded now =>
    if call ∈ s.out then
      (if succeeded then .succeeds else .fails now, ⟨s.breaker.finish l now succeeded, s.out.erase call⟩)
    else (.nothing, s)

/-- What comes of turns, one after another. -/
def deeds (l : BreakerLimits τ) : Shared ι τ → List (Turn ι τ) → List (Deed τ)
  | _, [] => []
  | s, t :: ts => (s.take l t).1 :: deeds l (s.take l t).2 ts

def after (l : BreakerLimits τ) (s : Shared ι τ) (ts : List (Turn ι τ)) : Shared ι τ := ts.foldl (fun s t => (s.take l t).2) s

theorem after_append (s : Shared ι τ) (ts us : List (Turn ι τ)) : s.after l (ts ++ us) = (s.after l ts).after l us :=
  List.foldl_append

theorem deeds_append : ∀ (ts us : List (Turn ι τ)) (s : Shared ι τ),
    s.deeds l (ts ++ us) = s.deeds l ts ++ (s.after l ts).deeds l us
  | [], _, _ => rfl
  | t :: ts, us, s => by
    rw [List.cons_append, deeds, deeds, deeds_append ts us]
    rfl

/-- **Each turn is watched.** -/
theorem watches_take (hl : 1 ≤ l.threshold) {s : Shared ι τ} {ds : List (Deed τ)} (h : Watches l s.breaker ds)
    (t : Turn ι τ) : Watches l (s.take l t).2.breaker (ds ++ [(s.take l t).1]) := by
  cases t with
  | start call now =>
    have hstarted := h.tallies.start now
    rcases start_cases l s.breaker now with ⟨hstate, hs⟩ | ⟨hstate, -, hs⟩ | ⟨-, -, hs⟩ <;>
      simp only [Shared.take, hs, Bool.false_eq_true, if_true, if_false]
    · rw [if_neg hstate]
      exact h.quiet (.inl rfl)
    · rw [if_pos hstate]
      rw [hs] at hstarted
      have hmany := (h.tallies.opened_iff.1 hstate).2
      constructor
      · simpa [Deed.isSuccess, Deed.failure?] using hstarted
      · simpa [Deed.isSuccess, Deed.failure?] using hmany
    · exact h.quiet (.inr (.inl rfl))
  | finish call succeeded now =>
    simp only [Shared.take]
    split
    · have hended := h.tallies.finish hl now succeeded
      have hsettled := finish_state_ne (l := l) (b := s.breaker) now succeeded
      cases succeeded with
      | true =>
        refine ⟨by simpa [Deed.isSuccess] using hended, ?_⟩
        simp [hsettled, Deed.isSuccess]
        omega
      | false =>
        refine ⟨by simpa [Deed.isSuccess, Deed.failure?] using hended, ?_⟩
        simp [hsettled, Deed.failure?]
    · exact h.quiet (.inr (.inr rfl))

theorem watches_after (hl : 1 ≤ l.threshold) : ∀ (ts : List (Turn ι τ)) {s : Shared ι τ} {ds : List (Deed τ)},
    Watches l s.breaker ds → Watches l (s.after l ts).breaker (ds ++ s.deeds l ts)
  | [], _, _, h => by simpa [deeds, Shared.after] using h
  | t :: ts, s, ds, h => by
    have hrest := watches_after hl ts (watches_take hl h t)
    rw [List.append_assoc] at hrest
    exact hrest

/-- **Which calls are held back** behind a history. -/
theorem heldBack_iff (hl : 1 ≤ l.threshold) {s : Shared ι τ} {ds : List (Deed τ)} (h : Watches l s.breaker ds)
    (call : ι) (now : τ) :
    (s.take l (.start call now)).1 = .heldBack ↔
      l.threshold ≤ (failedInARow ds).length ∧ ¬ Probing ds ∧ ∀ told ∈ (failedInARow ds).head?, ¬ l.recovery < now - told := by
  have hdeed : (s.take l (.start call now)).1 = .heldBack ↔ (s.breaker.start l now).1 = false := by
    rcases start_cases l s.breaker now with ⟨hstate, hs⟩ | ⟨hstate, -, hs⟩ | ⟨hstate, -, hs⟩ <;>
      simp [Shared.take, hs, hstate]
  rw [hdeed, h.tallies.heldBack_iff hl, ne_eq, h.halfOpen]
  constructor
  · rintro ⟨hstate, hmany, hearly⟩
    exact ⟨hmany, fun hprobing => hstate ⟨hmany, hprobing⟩, hearly⟩
  · rintro ⟨hmany, hprobing, hearly⟩
    exact ⟨fun hstate => hprobing hstate.2, hmany, hearly⟩

/-- A call that is carried out is on its way until it ends. -/
theorem mem_out_after {call : ι} : ∀ (ts : List (Turn ι τ)) {s : Shared ι τ},
    (∀ succeeded now, .finish call succeeded now ∉ ts) → call ∈ s.out → call ∈ (s.after l ts).out
  | [], _, _, h => h
  | t :: ts, s, hts, h => by
    refine mem_out_after ts (fun succeeded now hmem => hts succeeded now (List.mem_cons_of_mem t hmem)) ?_
    cases t with
    | start other now =>
      simp only [take]
      split
      · exact List.mem_cons_of_mem other h
      · exact h
    | finish other succeeded now =>
      simp only [take]
      split
      · have hother : call ≠ other := by
          rintro rfl
          exact hts succeeded now List.mem_cons_self
        exact (List.mem_erase_of_ne hother).2 h
      · exact h

end Shared

open Shared in
/-- **Beside a probe** a call is held back exactly where the failures in a row have reached the threshold, no probe has
started since the latest of them, and that one is no longer ago than the recovery time.  So as long as no call has failed
since the probe started, whoever comes before it ends is carried out. -/
theorem held_back_beside_a_probe_iff [OfNat τ 0] (hl : 1 ≤ l.threshold) {before during : List (Turn ι τ)} {probe : ι}
    {began : τ} (hprobe : ((idle.after l before).take l (.start probe began)).1 = .probes)
    (hout : ∀ succeeded now, .finish probe succeeded now ∉ during) (call : ι) (now : τ) :
    let turns := before ++ .start probe began :: during
    let behind := idle.after l turns
    let ds := idle.deeds l turns
    probe ∈ behind.out ∧
      ((behind.take l (.start call now)).1 = .heldBack ↔
        l.threshold ≤ (failedInARow ds).length ∧ ¬ Probing ds ∧
          ∀ told ∈ (failedInARow ds).head?, ¬ l.recovery < now - told) ∧
      ((∀ d ∈ ((idle.after l before).take l (.start probe began)).2.deeds l during, d.failure? = none) →
        (behind.take l (.start call now)).1 ≠ .heldBack) := by
  intro turns behind ds
  have hidle : Watches l (idle : Shared ι τ).breaker [] := ⟨tallies_fresh hl, by simp [idle, fresh, failedInARow]; omega⟩
  have hwatches := watches_after hl turns hidle
  have hheld := heldBack_iff hl hwatches call now
  refine ⟨?_, hheld, fun hnone hback => ?_⟩
  · have hstarted : probe ∈ ((idle.after l before).take l (.start probe began)).2.out := by
      simp only [take] at hprobe ⊢
      split at hprobe
      · rename_i hallowed
        rw [if_pos hallowed]
        exact List.mem_cons_self
      · cases hprobe
    have hafter : behind = ((idle.after l before).take l (.start probe began)).2.after l during := by
      rw [show behind = idle.after l turns from rfl, after_append]
      rfl
    rw [hafter]
    exact mem_out_after during hout hstarted
  · refine (hheld.1 hback).2.1 ?_
    rw [List.nil_append, deeds_append, deeds, hprobe]
    exact probing_append _ hnone

open Shared in
/-- Two calls start behind a probe that has not ended, and both are carried out. -/
theorem two_calls_pass_beside_a_probe :
    let l : BreakerLimits Int := ⟨1, 30⟩
    let before : List (Turn Nat Int) := [.start 0 0, .finish 0 false 0]
    let during : List (Turn Nat Int) := [.start 2 32]
    let probed := (idle.after l before).take l (.start 1 31)
    1 ≤ l.threshold ∧ probed.1 = .probes ∧ (∀ succeeded now, .finish 1 succeeded now ∉ during) ∧
      probed.2.deeds l during = [.passes] ∧ 1 ∈ (probed.2.after l during).out ∧
      ((probed.2.after l during).take l (.start 3 33)).1 ≠ .heldBack := by
  intro l before during probed
  have hl : 1 ≤ l.threshold := by decide
  have hprobe : probed.1 = .probes := rfl
  have hout : ∀ succeeded now, Turn.finish 1 succeeded now ∉ during := by simp [during]
  have hpasses : probed.2.deeds l during = [.passes] := rfl
  obtain ⟨hmem, -, hpass⟩ := held_back_beside_a_probe_iff hl hprobe hout 3 33
  refine ⟨hl, hprobe, hout, hpasses, hmem, hpass fun d hd => ?_⟩
  rw [hpasses, List.mem_singleton] at hd
  rw [hd]
  rfl

end Switchboard.Breaker
