import Switchboard.Proofs.Attempt.Failure
import Switchboard.Proofs.Attempt.LateJoin
import Switchboard.Proofs.Store.Lives
/-!
# Callbacks that come again

A provider that hears nothing back delivers a callback again, maybe when the call has long gone on.  No list is kept of what
was processed.  What keeps a callback from being taken twice is what the row says since the first time, whether it was taken
then or passed over: its attempt is past, somebody has answered, the segment is closed, the leg is known to have ended, or
the failure of the attempt was claimed (`Notice.Spent`).  Each of these lasts (`lasting_spent`), and behind each of them
the callback comes to nothing (`process_of_spent`).
-/
namespace Switchboard.Segment

open Time (Instant)

/-- A callback about an attempt that a provider may deliver more than once. -/
inductive Notice where
  | agentJoins (leg : String)
  | legEnds (leg : String) (status : Status)
  | dialEnds
  deriving DecidableEq

namespace Notice

/-- The act of a callback that carries the number of an attempt; the status of a leg that goes on is none. -/
def act? (seq : Int) (now : Instant) : Notice → Option Act
  | agentJoins leg => some (.agentJoins leg (some seq) now)
  | legEnds leg status => if status.isFinal then some (.legEnds leg (some seq) now) else none
  | dialEnds => some (.dialEnds (some seq) now)

/-- What keeps the current attempt from taking a callback. -/
def Settled (s : Segment) : Notice → Prop
  | agentJoins _ => s.scratch.answeredLeg.isSome = true ∨ s.isClosed = true
  | legEnds leg status => status.isFinal = true → leg ∈ s.scratch.endedLegs
  | dialEnds => s.scratch.answeredLeg.isSome = true ∨ s.scratch.failureHandled = true

/-- What keeps a segment from taking a callback that carries the number of an attempt. -/
def Spent (c : Notice) (seq : Int) (s : Segment) : Prop :=
  seq < s.scratch.attemptSeq ∨ seq = s.scratch.attemptSeq ∧ c.Settled s

theorem isStart_of_act? {c : Notice} {seq : Int} {now : Instant} {a : Act} (h : c.act? seq now = some a) :
    a.isStart = false := by
  cases c with
  | agentJoins | dialEnds =>
    cases h
    rfl
  | legEnds leg status =>
    rw [act?] at h
    split at h
    · cases h
      rfl
    · cases h

end Notice

/-- What a callback comes to. -/
def process (s : Segment) (c : Notice) (seq : Int) (now : Instant) : Segment × Effect :=
  match c.act? seq now with
  | some a => s.perform a
  | none => (s, {})

variable {s t : Segment} {c : Notice} {seq : Int}

theorem process_agentJoins (leg : String) (now : Instant) :
    s.process (.agentJoins leg) seq now = s.perform (.agentJoins leg (some seq) now) := rfl

theorem process_legEnds {leg : String} {status : Status} (hfinal : status.isFinal = true) (now : Instant) :
    s.process (.legEnds leg status) seq now = s.perform (.legEnds leg (some seq) now) := by
  rw [process, Notice.act?, if_pos hfinal]

theorem process_dialEnds (now : Instant) : s.process .dialEnds seq now = s.perform (.dialEnds (some seq) now) := rfl

/-! ## What processing leaves -/

theorem process_attemptSeq (s : Segment) (c : Notice) (seq : Int) (now : Instant) :
    (s.process c seq now).1.scratch.attemptSeq = s.scratch.attemptSeq := by
  unfold process
  split
  · rename_i a ha
    exact after_attemptSeq s a (Notice.isStart_of_act? ha)
  · rfl

/-- **What the current attempt has processed it takes no more**, whether it took it or passed it over. -/
theorem settled_process (s : Segment) (c : Notice) (now : Instant) :
    c.Settled (s.process c s.scratch.attemptSeq now).1 := by
  have hown := isOther_own s
  cases c with
  | agentJoins leg =>
    by_cases hskip : s.scratch.answeredLeg.isSome = true ∨ s.isClosed = true
    · rw [process_agentJoins, agentJoins_passed_over (.inr hskip)]
      exact hskip
    · simp only [not_or, Bool.not_eq_true, Option.isSome_eq_false_iff, Option.isNone_iff_eq_none] at hskip
      have hjoined := (agentJoins_counts leg now hown hskip.1 hskip.2).1
      exact .inl (Option.isSome_iff_exists.2 ⟨leg, hjoined⟩)
  | legEnds leg status =>
    intro hfinal
    rw [process_legEnds hfinal]
    show leg ∈ (s.legEnded leg (some s.scratch.attemptSeq) now).1.scratch.endedLegs
    by_cases hended : leg ∈ s.scratch.endedLegs
    · rw [legEnded_of_skipped now (.inr hended)]
      exact hended
    · rw [legEnded_of_counted now hown hended, claimFailure_scratch, claimed_endedLegs]
      exact List.mem_append_right _ (List.mem_singleton_self leg)
  | dialEnds =>
    show _ ∨ (s.claimAfterDial (some s.scratch.attemptSeq) now).1.scratch.failureHandled = true
    by_cases hskip : s.scratch.answeredLeg.isSome = true ∨ s.scratch.failureHandled = true
    · have hsame : s.claimAfterDial (some s.scratch.attemptSeq) now = _ := claimAfterDial_of_skipped now (.inr hskip)
      show (s.claimAfterDial (some s.scratch.attemptSeq) now).1.scratch.answeredLeg.isSome = true ∨ _
      rw [hsame]
      exact hskip
    · -- Where nobody answered, the end of the dial leaves nothing to wait for, so the failure is claimed.
      have hcounts : s.claimAfterDial (some s.scratch.attemptSeq) now = _ := claimAfterDial_of_counted now
        (not_or.2 ⟨Bool.eq_false_iff.1 hown, hskip⟩)
      rw [hcounts]
      dsimp only
      rw [claimFailure_scratch]
      refine .inr (claimed_settled ?_)
      simp only [not_or, Bool.not_eq_true, Option.isSome_eq_false_iff, Option.isNone_iff_eq_none] at hskip
      rw [claimed_isExhausted]
      exact (isExhausted_iff _).2 ⟨rfl, rfl, hskip.1⟩

theorem spent_process (c : Notice) (now : Instant) (h : seq ≤ s.scratch.attemptSeq) :
    c.Spent seq (s.process c seq now).1 := by
  have hseq := process_attemptSeq s c seq now
  rcases Int.lt_or_eq_of_le h with hlt | rfl
  · exact .inl (hseq ▸ hlt)
  · exact .inr ⟨hseq.symm, settled_process s c now⟩

/-- **A callback that is spent comes to nothing.** -/
theorem process_of_spent (h : c.Spent seq s) (now : Instant) : s.process c seq now = (s, {}) := by
  have hskip : s.scratch.isOther (some seq) = true ∨ c.Settled s :=
    h.imp (fun hlt => isOther_some (Int.ne_of_gt hlt)) And.right
  cases c with
  | agentJoins leg => exact agentJoins_passed_over hskip
  | legEnds leg status =>
    by_cases hfinal : status.isFinal = true
    · rw [process_legEnds hfinal, perform, legEnded_of_skipped now (hskip.imp_right fun hended => hended hfinal)]
    · rw [process, Notice.act?, if_neg hfinal]
  | dialEnds =>
    rw [process_dialEnds, perform, claimAfterDial_of_skipped now hskip]

theorem agentAnswered_of_spent {leg : String} (h : (Notice.agentJoins leg).Spent seq s) (now : Instant) :
    s.agentAnswered leg (some seq) now = (s, []) := by
  have hnone := process_of_spent h now
  exact Prod.ext (congrArg (fun p => p.1) hnone) (congrArg (fun p => p.2.hangUps) hnone)

theorem legEnded_of_spent {leg : String} {status : Status} (hfinal : status.isFinal = true)
    (h : (Notice.legEnds leg status).Spent seq s) (now : Instant) : s.legEnded leg (some seq) now = (s, none) := by
  have hnone := process_of_spent h now
  rw [process_legEnds hfinal] at hnone
  exact Prod.ext (congrArg (fun p => p.1) hnone) (congrArg (fun p => p.2.decision) hnone)

theorem claimAfterDial_of_spent (h : Notice.dialEnds.Spent seq s) (now : Instant) :
    s.claimAfterDial (some seq) now = (s, [], none) := by
  have hnone := process_of_spent h now
  exact Prod.ext (congrArg (fun p => p.1) hnone)
    (Prod.ext (congrArg (fun p => p.2.hangUps) hnone) (congrArg (fun p => p.2.decision) hnone))

/-! ## What was processed stays so -/

/-- What a segment does not take back while an attempt lasts. -/
structure Retains (s t : Segment) : Prop where
  answered : s.scratch.answeredLeg.isSome = true → t.scratch.answeredLeg.isSome = true
  ended : ∀ leg ∈ s.scratch.endedLegs, leg ∈ t.scratch.endedLegs
  handled : s.scratch.failureHandled = true → t.scratch.failureHandled = true
  closed : s.isClosed = true → t.isClosed = true

theorem Retains.of_scratch (h : t.scratch = s.scratch) (hclosed : s.isClosed = true → t.isClosed = true) : s.Retains t :=
  ⟨h ▸ fun ha => ha, h ▸ fun _ he => he, h ▸ fun hf => hf, hclosed⟩

theorem Retains.settled (h : s.Retains t) (hs : c.Settled s) : c.Settled t := by
  cases c with
  | agentJoins => exact hs.imp h.answered h.closed
  | legEnds leg => exact fun hfinal => h.ended leg (hs hfinal)
  | dialEnds => exact hs.imp h.answered h.handled

theorem isClosed_did (d : Deed) (hs : s.isClosed = true) : (s.did d).isClosed = true := by
  rcases record_did hs d with ⟨-, hrecord⟩ | ⟨-, hfailed⟩
  · exact (congrArg (fun e => e.status.isClosed) hrecord).trans hs
  · rw [isClosed, hfailed]
    rfl

/-- **No deed within an attempt takes back** what the attempt has come to. -/
theorem retains_did (d : Deed) (hseq : (s.did d).scratch.attemptSeq = s.scratch.attemptSeq) : s.Retains (s.did d) := by
  cases d with
  | act a =>
    cases ha : a.isStart with
    | true =>
      cases a with
      | start =>
        have hnext : (s.scratch.attemptSeq + 1 : Int) = s.scratch.attemptSeq := hseq
        omega
      | _ => cases ha
    | false =>
      refine ⟨fun hanswered => ?_, fun leg => after_endedLegs s a ha, after_failureHandled s a ha, isClosed_did (.act a)⟩
      obtain ⟨leg, hleg⟩ := Option.isSome_iff_exists.1 hanswered
      exact Option.isSome_iff_exists.2 ⟨leg, after_answeredLeg s a ha hleg⟩
  | callerGone status now =>
    refine .of_scratch ?_ (isClosed_did _)
    simp only [did, callerGone]
    split <;> rfl
  | callerRinging =>
    refine .of_scratch ?_ (isClosed_did _)
    simp only [did, callerRinging]
    split <;> rfl
  | outgoingFinished status duration now =>
    refine .of_scratch ?_ (isClosed_did _)
    simp only [did, outgoingFinished]
    split
    · rfl
    · split <;> rfl
  | addTag => exact .of_scratch rfl (isClosed_did (.addTag _ _))
  | setVariable => exact ⟨fun ha => ha, fun _ he => he, fun hf => hf, fun hc => hc⟩

theorem spent_did (s : Segment) (d : Deed) (h : c.Spent seq s) : c.Spent seq (s.did d) := by
  have hle := attemptSeq_did s d
  rcases h with hlt | ⟨rfl, hs⟩
  · exact .inl (Int.lt_of_lt_of_le hlt hle)
  · rcases Int.lt_or_eq_of_le hle with hlt | heq
    · exact .inl hlt
    · exact .inr ⟨heq, (retains_did d heq.symm).settled hs⟩

/-- **What is spent lasts** as long as the row lives. -/
theorem lasting_spent (c : Notice) (seq : Int) : CallRow.Lasting (c.Spent seq) :=
  CallRow.lasting_of_did (fun s d => spent_did s d) fun s t hscratch hclosed hs => by
    rw [Notice.Spent, hscratch]
    exact hs.imp_right (And.imp_right (Retains.of_scratch hscratch hclosed).settled)

/-- The row behind a callback: it is written where the callback changes the segment. -/
def processed (r : CallRow) (s : Segment) (c : Notice) (seq : Int) (now : Instant) : CallRow :=
  if (s.process c seq now).1 = s then r else Store.CallRow.overwrite (s.process c seq now).1 r

theorem overwriting_process (s : Segment) (c : Notice) (seq : Int) (now : Instant) :
    s.overwriting (s.process c seq now).1 = (s.process c seq now).1 := by
  unfold process
  split
  · exact overwriting_after s _
  · rfl

theorem spent_of_processed {r : CallRow} (hread : r.read = .ok s) (now : Instant) (h : seq ≤ s.scratch.attemptSeq) :
    ∃ t, (processed r s c seq now).read = .ok t ∧ c.Spent seq t := by
  have hspent := spent_process c now h
  unfold processed
  split
  · rename_i hsame
    exact ⟨s, hread, hsame ▸ hspent⟩
  · exact ⟨_, CallRow.read_overwrite hread (overwriting_process s c seq now), hspent⟩

end Switchboard.Segment
