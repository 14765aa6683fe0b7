import Switchboard.Call.Attempt
/-!
# Steps of an attempt

While a caller is bridged the service changes the segment in atomic steps, and the steps of one attempt come in any order.
`Act` is one of them with all that it brings along, `after` is the segment behind it and `effect` what the service does
because of it.  A run folds acts.  The frame lemmas say which acts touch which part of the scratch record; whatever holds
of every run is derived from them.
-/
namespace Switchboard.Segment

open Time (Instant)

/-- One atomic change of a segment while a caller is bridged. -/
inductive Act where
  | start (resume : Resume) (targets : List DialTarget) (callerId : Option String) (timeout : Int) (record : Bool)
  | callerJoins (seq : Option Int) (conferenceSid : Option String)
  | register (seq : Int) (leg : String) (target : DialTarget)
  | finish (seq : Int) (now : Instant)
  | agentJoins (leg : String) (seq : Option Int) (now : Instant)
  | callerLeaves (seq : Option Int)
  | legEnds (leg : String) (seq : Option Int) (now : Instant)
  | dialEnds (seq : Option Int) (now : Instant)
  deriving DecidableEq

/-- What the service does because of a change. -/
structure Effect where
  /-- Whether the agents of the attempt are dialed. -/
  dials : Bool := false
  /-- The legs that are hung up, in order. -/
  hangUps : List String := []
  decision : Option Decision := none
  deriving DecidableEq

/-- A change and what follows from it. -/
def perform (s : Segment) : Act → Segment × Effect
  | .start resume targets callerId timeout record => ((s.startAttempt resume targets callerId timeout record).1, {})
  | .callerJoins seq conferenceSid =>
    ((s.callerJoined seq conferenceSid).1, { dials := (s.callerJoined seq conferenceSid).2 })
  | .register seq leg target =>
    ((s.registerLeg seq leg target).1, { hangUps := if (s.registerLeg seq leg target).2 then [leg] else [] })
  | .finish seq now => ((s.finishDialing seq now).1, { decision := (s.finishDialing seq now).2 })
  | .agentJoins leg seq now => ((s.agentAnswered leg seq now).1, { hangUps := (s.agentAnswered leg seq now).2 })
  | .callerLeaves seq => ((s.terminatePending seq).1, { hangUps := (s.terminatePending seq).2 })
  | .legEnds leg seq now => ((s.legEnded leg seq now).1, { decision := (s.legEnded leg seq now).2 })
  | .dialEnds seq now =>
    ((s.claimAfterDial seq now).1,
      { hangUps := (s.claimAfterDial seq now).2.1, decision := (s.claimAfterDial seq now).2.2 })

/-- The segment behind a change. -/
def after (s : Segment) (a : Act) : Segment := (s.perform a).1

/-- What follows from a change. -/
def effect (s : Segment) (a : Act) : Effect := (s.perform a).2

/-- The segment behind a run. -/
def run (s : Segment) (acts : List Act) : Segment := acts.foldl after s

/-- What follows from the changes of a run, one after another. -/
def effects : Segment → List Act → List Effect
  | _, [] => []
  | s, a :: acts => s.effect a :: effects (s.after a) acts

/-- The decisions that a run takes. -/
def decisions (s : Segment) (acts : List Act) : List Decision := (s.effects acts).filterMap Effect.decision

/-- The legs that a run hangs up, as often as it does. -/
def hangUps (s : Segment) (acts : List Act) : List String := (s.effects acts).flatMap Effect.hangUps

/-- Whether an act opens the next attempt. -/
def Act.isStart : Act → Bool
  | start .. => true
  | _ => false

/-- A segment on which no attempt was made: as a call begins, or as a transfer opens it. -/
def IsFresh (s : Segment) : Prop :=
  s.scratch = { Scratch.fresh with agentDialedFromTransfer := s.scratch.agentDialedFromTransfer }

/-- An attempt was started, and nothing has happened to it yet. -/
structure Begins (s : Segment) : Prop where
  pending : s.scratch.pendingLegs = []
  placed : s.scratch.legTargets = []
  ended : s.scratch.endedLegs = []
  unanswered : s.scratch.answeredLeg = none

theorem begins_of_start (s : Segment) {a : Act} (ha : a.isStart = true) : (s.after a).Begins := by
  cases a with
  | start => exact ⟨rfl, rfl, rfl, rfl⟩
  | _ => cases ha

/-! ## Runs -/

@[simp] theorem run_nil (s : Segment) : s.run [] = s := rfl

@[simp] theorem run_cons (s : Segment) (a : Act) (acts : List Act) : s.run (a :: acts) = (s.after a).run acts := rfl

theorem run_append (s : Segment) (pre post : List Act) : s.run (pre ++ post) = (s.run pre).run post :=
  List.foldl_append

theorem effects_append (s : Segment) : ∀ (pre post : List Act),
    s.effects (pre ++ post) = s.effects pre ++ (s.run pre).effects post := by
  intro pre
  induction pre generalizing s with
  | nil => intro post; rfl
  | cons a pre ih => intro post; rw [List.cons_append, effects, effects, ih, run_cons]; rfl

theorem decisions_cons (s : Segment) (a : Act) (acts : List Act) :
    s.decisions (a :: acts) = (s.effect a).decision.toList ++ (s.after a).decisions acts := by
  unfold decisions
  rw [effects, List.filterMap_cons]
  cases (s.effect a).decision <;> rfl

theorem decisions_append (s : Segment) (pre post : List Act) :
    s.decisions (pre ++ post) = s.decisions pre ++ (s.run pre).decisions post := by
  unfold decisions
  rw [effects_append, List.filterMap_append]

theorem hangUps_append (s : Segment) (pre post : List Act) :
    s.hangUps (pre ++ post) = s.hangUps pre ++ (s.run pre).hangUps post := by
  unfold hangUps
  rw [effects_append, List.flatMap_append]

theorem hangUps_singleton (s : Segment) (a : Act) : s.hangUps [a] = (s.effect a).hangUps := by
  simp [hangUps, effects]

/-- **What each change of a run keeps, the run keeps.** -/
theorem run_induction {P : Segment → Prop} {Q : Act → Prop} (hstep : ∀ s a, Q a → P s → P (s.after a)) :
    ∀ (acts : List Act) (s : Segment), (∀ a ∈ acts, Q a) → P s → P (s.run acts)
  | [], _, _, hs => hs
  | a :: acts, s, hq, hs =>
    run_induction hstep acts (s.after a) (fun b hb => hq b (List.mem_cons_of_mem _ hb))
      (hstep s a (hq a List.mem_cons_self) hs)

/-! ## The decision of a failed attempt -/

theorem isExhausted_iff (sc : Scratch) :
    sc.isExhausted = true ↔ sc.dialComplete = true ∧ sc.pendingLegs = [] ∧ sc.answeredLeg = none := by
  simp only [Scratch.isExhausted, Bool.and_eq_true, List.isEmpty_iff, Option.isNone_iff_eq_none, and_assoc]

/-- The scratch record once the decision of a failed attempt was claimed, if there was one to claim. -/
def claimed (sc : Scratch) : Scratch :=
  if sc.failureHandled || !sc.isExhausted then sc else { sc with attemptFailed := true, failureHandled := true }

theorem claimFailure_of_settled (s : Segment) (now : Instant)
    (h : s.scratch.failureHandled = true ∨ s.scratch.isExhausted = false) : s.claimFailure now = (s, none) := by
  unfold claimFailure
  rcases h with h | h <;> simp [h]

/-- **A decision is claimed exactly of an exhausted attempt that is not settled.** -/
theorem claimFailure_decision (s : Segment) (now : Instant) :
    (s.claimFailure now).2 =
      if s.scratch.failureHandled || !s.scratch.isExhausted then none else some s.decisionAfterFailure := by
  have hd : (s.withScratch fun sc => { sc with attemptFailed := true, failureHandled := true }).decisionAfterFailure
      = s.decisionAfterFailure := rfl
  unfold claimFailure
  by_cases h : (s.scratch.failureHandled || !s.scratch.isExhausted) = true
  · rw [if_pos h, if_pos h]
  · rw [if_neg h, if_neg h]
    simp only [hd]
    by_cases ht : s.decisionAfterFailure.isTerminate = true
    · rw [if_pos ht]
    · rw [if_neg ht]

theorem claimFailure_scratch (s : Segment) (now : Instant) : (s.claimFailure now).1.scratch = claimed s.scratch := by
  unfold claimFailure claimed
  by_cases h : (s.scratch.failureHandled || !s.scratch.isExhausted) = true
  · rw [if_pos h, if_pos h]
  · rw [if_neg h, if_neg h]
    dsimp only
    split
    · rfl
    · rfl

theorem claimFailure_isClosed (s : Segment) (now : Instant) :
    (s.claimFailure now).1.isClosed = (s.isClosed || (s.claimFailure now).2.any Decision.isTerminate) := by
  unfold claimFailure
  by_cases h : (s.scratch.failureHandled || !s.scratch.isExhausted) = true
  · rw [if_pos h]
    simp
  · rw [if_neg h]
    dsimp only
    split
    · rename_i ht
      simp [ht, close, isClosed, Status.isClosed, Status.isFinal]
    · rename_i ht
      rw [Option.any_some, Bool.eq_false_iff.2 ht, Bool.or_false]
      rfl

@[simp] theorem claimed_answeredLeg (sc : Scratch) : (claimed sc).answeredLeg = sc.answeredLeg := by
  unfold claimed; split <;> rfl

@[simp] theorem claimed_pendingLegs (sc : Scratch) : (claimed sc).pendingLegs = sc.pendingLegs := by
  unfold claimed; split <;> rfl

@[simp] theorem claimed_endedLegs (sc : Scratch) : (claimed sc).endedLegs = sc.endedLegs := by
  unfold claimed; split <;> rfl

@[simp] theorem claimed_legTargets (sc : Scratch) : (claimed sc).legTargets = sc.legTargets := by
  unfold claimed; split <;> rfl

@[simp] theorem claimed_attemptSeq (sc : Scratch) : (claimed sc).attemptSeq = sc.attemptSeq := by
  unfold claimed; split <;> rfl

@[simp] theorem claimed_dialComplete (sc : Scratch) : (claimed sc).dialComplete = sc.dialComplete := by
  unfold claimed; split <;> rfl

@[simp] theorem claimed_isExhausted (sc : Scratch) : (claimed sc).isExhausted = sc.isExhausted := by
  unfold claimed; split <;> rfl

@[simp] theorem claimed_dialed (sc : Scratch) : (claimed sc).dialed = sc.dialed := by
  unfold claimed; split <;> rfl

@[simp] theorem claimed_agentDialedFromTransfer (sc : Scratch) :
    (claimed sc).agentDialedFromTransfer = sc.agentDialedFromTransfer := by
  unfold claimed; split <;> rfl

@[simp] theorem claimed_failureHandled (sc : Scratch) :
    (claimed sc).failureHandled = (sc.failureHandled || sc.isExhausted) := by
  unfold claimed
  cases hh : sc.failureHandled <;> cases he : sc.isExhausted <;> simp [hh]

/-! ## The scratch record behind each act -/

theorem scratch_after_start (s : Segment) (resume : Resume) (targets : List DialTarget) (callerId : Option String)
    (timeout : Int) (record : Bool) :
    (s.after (.start resume targets callerId timeout record)).scratch =
      s.scratch.startAttempt resume targets callerId timeout record := rfl

theorem scratch_after_callerJoins (s : Segment) (seq : Option Int) (conferenceSid : Option String) :
    (s.after (.callerJoins seq conferenceSid)).scratch =
      if s.scratch.isOther seq || s.scratch.dialed || s.scratch.agentDialedFromTransfer then s.scratch
      else { s.scratch with dialed := true } := by
  simp only [after, perform, callerJoined]
  cases hseq : s.scratch.isOther seq
  · cases hd : s.scratch.dialed <;> cases ha : s.scratch.agentDialedFromTransfer <;>
      cases Flow.given conferenceSid <;> simp [hd, ha, withScratch]
  · simp

theorem scratch_after_register (s : Segment) (seq : Int) (leg : String) (target : DialTarget) :
    (s.after (.register seq leg target)).scratch =
      if s.scratch.attemptSeq ≠ seq then s.scratch
      else { s.scratch with
        legTargets := putEntry leg (some target) s.scratch.legTargets
        pendingLegs :=
          if s.scratch.answeredLeg = none ∧ leg ∉ s.scratch.endedLegs then s.scratch.pendingLegs ++ [leg]
          else s.scratch.pendingLegs } := by
  simp only [after, perform, registerLeg]
  by_cases hseq : s.scratch.attemptSeq = seq
  · have hne : ¬ s.scratch.attemptSeq ≠ seq := fun h => h hseq
    rw [if_neg hne, if_neg hne]
    cases ha : s.scratch.answeredLeg with
    | none =>
      by_cases he : leg ∈ s.scratch.endedLegs <;> simp [ha, he, withScratch]
    | some l =>
      by_cases hl : l = leg
      · cases hb : s.answeredBy <;> cases target.identity <;> simp [ha, hl, hb, withScratch]
      · simp [ha, hl, withScratch]
  · rw [if_pos hseq, if_pos hseq]

theorem scratch_after_finish (s : Segment) (seq : Int) (now : Instant) :
    (s.after (.finish seq now)).scratch =
      if s.scratch.attemptSeq ≠ seq then s.scratch else claimed { s.scratch with dialComplete := true } := by
  simp only [after, perform, finishDialing]
  split
  · rfl
  · rw [claimFailure_scratch]; rfl

theorem scratch_after_agentJoins (s : Segment) (leg : String) (seq : Option Int) (now : Instant) :
    (s.after (.agentJoins leg seq now)).scratch =
      if s.scratch.isOther seq || s.scratch.answeredLeg.isSome || s.isClosed then s.scratch
      else { s.scratch with answeredLeg := some leg, pendingLegs := [] } := by
  simp only [after, perform, agentAnswered]
  cases s.scratch.isOther seq <;> cases s.scratch.answeredLeg.isSome <;> cases s.isClosed <;> rfl

theorem scratch_after_callerLeaves (s : Segment) (seq : Option Int) :
    (s.after (.callerLeaves seq)).scratch =
      if s.scratch.isOther seq then s.scratch else { s.scratch with pendingLegs := [], failureHandled := true } := by
  simp only [after, perform, terminatePending]
  split <;> rfl

theorem scratch_after_legEnds (s : Segment) (leg : String) (seq : Option Int) (now : Instant) :
    (s.after (.legEnds leg seq now)).scratch =
      if s.scratch.isOther seq || s.scratch.endedLegs.contains leg then s.scratch
      else claimed { s.scratch with
        endedLegs := s.scratch.endedLegs ++ [leg], pendingLegs := s.scratch.pendingLegs.erase leg } := by
  simp only [after, perform, legEnded]
  cases s.scratch.isOther seq
  · cases s.scratch.endedLegs.contains leg
    · exact claimFailure_scratch _ now
    · rfl
  · rfl

theorem scratch_after_dialEnds (s : Segment) (seq : Option Int) (now : Instant) :
    (s.after (.dialEnds seq now)).scratch =
      if s.scratch.isOther seq || s.scratch.answeredLeg.isSome || s.scratch.failureHandled then s.scratch
      else claimed { s.scratch with pendingLegs := [], dialComplete := true } := by
  simp only [after, perform, claimAfterDial]
  by_cases h : (s.scratch.isOther seq || s.scratch.answeredLeg.isSome || s.scratch.failureHandled) = true
  · rw [if_pos h]
    simp only [Bool.or_assoc, Bool.or_eq_true] at h
    split
    · rfl
    · rename_i hs
      rw [if_pos (by simpa [hs] using h)]
  · rw [if_neg h]
    simp only [Bool.or_eq_true, not_or] at h
    rw [if_neg h.1.1, if_neg (by simp [h.1.2, h.2])]
    exact claimFailure_scratch _ now

/-! ## What follows from each act -/

theorem hangUps_of_register (s : Segment) (seq : Int) (leg : String) (target : DialTarget) :
    (s.effect (.register seq leg target)).hangUps =
      if s.scratch.attemptSeq ≠ seq then [leg]
      else if s.scratch.answeredLeg.isSome ∧ s.scratch.answeredLeg ≠ some leg ∧ leg ∉ s.scratch.endedLegs then [leg]
      else [] := by
  simp only [effect, perform, registerLeg]
  by_cases hseq : s.scratch.attemptSeq = seq
  · have hne : ¬ s.scratch.attemptSeq ≠ seq := fun h => h hseq
    rw [if_neg hne, if_neg hne]
    cases ha : s.scratch.answeredLeg with
    | none => by_cases he : leg ∈ s.scratch.endedLegs <;> simp [ha, he, withScratch]
    | some l =>
      by_cases hl : l = leg
      · cases hb : s.answeredBy <;> cases target.identity <;> simp [ha, hl, hb, withScratch]
      · by_cases he : leg ∈ s.scratch.endedLegs <;> simp [ha, hl, he, withScratch]
  · rw [if_pos hseq, if_pos hseq]
    rfl

theorem hangUps_of_agentJoins (s : Segment) (leg : String) (seq : Option Int) (now : Instant) :
    (s.effect (.agentJoins leg seq now)).hangUps =
      if s.scratch.isOther seq || s.scratch.answeredLeg.isSome || s.isClosed then []
      else s.scratch.pendingLegs.filter (· ≠ leg) := by
  simp only [effect, perform, agentAnswered]
  cases s.scratch.isOther seq <;> cases s.scratch.answeredLeg.isSome <;> cases s.isClosed <;> rfl

theorem hangUps_of_callerLeaves (s : Segment) (seq : Option Int) :
    (s.effect (.callerLeaves seq)).hangUps = if s.scratch.isOther seq then [] else s.scratch.pendingLegs := by
  simp only [effect, perform, terminatePending]
  split <;> rfl

theorem hangUps_of_dialEnds (s : Segment) (seq : Option Int) (now : Instant) :
    (s.effect (.dialEnds seq now)).hangUps =
      if s.scratch.isOther seq || s.scratch.answeredLeg.isSome || s.scratch.failureHandled then []
      else s.scratch.pendingLegs := by
  simp only [effect, perform, claimAfterDial]
  cases s.scratch.isOther seq <;> cases s.scratch.answeredLeg.isSome <;> cases s.scratch.failureHandled <;> rfl

/-- **A claimed decision, unpacked**: the attempt was not settled and is now, every leg has ended and nobody answered. -/
theorem claimFailure_inv {t : Segment} {now : Instant} {d : Decision} (h : (t.claimFailure now).2 = some d) :
    t.scratch.failureHandled = false ∧ (t.claimFailure now).1.scratch.failureHandled = true ∧
      (t.claimFailure now).1.scratch.isExhausted = true ∧ d = t.decisionAfterFailure := by
  rw [claimFailure_decision] at h
  rw [claimFailure_scratch, claimed_failureHandled, claimed_isExhausted]
  cases hh : t.scratch.failureHandled <;> cases he : t.scratch.isExhausted <;> simp_all

/-- **A step that takes a decision, unpacked.** -/
theorem decision_inv {s : Segment} {a : Act} {d : Decision} (h : (s.effect a).decision = some d) :
    s.scratch.failureHandled = false ∧ (s.after a).scratch.failureHandled = true ∧
      (s.after a).scratch.isExhausted = true ∧ d = s.decisionAfterFailure := by
  cases a with
  | start | callerJoins | register | agentJoins | callerLeaves => cases h
  | finish seq now =>
    simp only [effect, after, perform, finishDialing] at h ⊢
    split at h
    · cases h
    · rename_i hseq
      rw [if_neg hseq]
      exact claimFailure_inv h
  | legEnds leg seq now =>
    simp only [effect, after, perform, legEnded] at h ⊢
    split at h
    · cases h
    · split at h
      · cases h
      · rename_i ho he
        rw [if_neg ho, if_neg he]
        exact claimFailure_inv h
  | dialEnds seq now =>
    simp only [effect, after, perform, claimAfterDial] at h ⊢
    split at h
    · cases h
    · split at h
      · cases h
      · rename_i ho he
        rw [if_neg ho, if_neg he]
        exact claimFailure_inv h

theorem decision_of_settled (s : Segment) (a : Act) (h : s.scratch.failureHandled = true) :
    (s.effect a).decision = none := by
  cases hd : (s.effect a).decision with
  | none => rfl
  | some d =>
    have := (decision_inv hd).1
    rw [h] at this
    cases this

/-! ## What the acts of one attempt keep -/

theorem isOther_some {s : Segment} {seq : Int} (h : s.scratch.attemptSeq ≠ seq) : s.scratch.isOther (some seq) = true := by
  rw [Scratch.isOther, Option.any_some, bne_iff_ne]
  exact h.symm

theorem isOther_own (s : Segment) : s.scratch.isOther (some s.scratch.attemptSeq) = false := by
  rw [Scratch.isOther, Option.any_some, bne_self_eq_false]

theorem after_attemptSeq (s : Segment) (a : Act) (ha : a.isStart = false) :
    (s.after a).scratch.attemptSeq = s.scratch.attemptSeq := by
  cases a with
  | start => cases ha
  | callerJoins => rw [scratch_after_callerJoins]; split <;> rfl
  | register => rw [scratch_after_register]; split <;> rfl
  | finish => rw [scratch_after_finish]; split <;> simp
  | agentJoins => rw [scratch_after_agentJoins]; split <;> rfl
  | callerLeaves => rw [scratch_after_callerLeaves]; split <;> rfl
  | legEnds => rw [scratch_after_legEnds]; split <;> simp
  | dialEnds => rw [scratch_after_dialEnds]; split <;> simp

/-- **The number of the attempt grows by one where an attempt starts**, and nowhere else. -/
theorem after_attemptSeq_eq (s : Segment) (a : Act) :
    (s.after a).scratch.attemptSeq = s.scratch.attemptSeq + if a.isStart then 1 else 0 := by
  cases ha : a.isStart with
  | true =>
    cases a with
    | start => rfl
    | _ => cases ha
  | false => rw [after_attemptSeq s a ha, if_neg Bool.false_ne_true, Int.add_zero]

theorem run_attemptSeq_of_no_start (s : Segment) (acts : List Act) (hacts : ∀ a ∈ acts, a.isStart = false) :
    (s.run acts).scratch.attemptSeq = s.scratch.attemptSeq :=
  run_induction (P := fun t => t.scratch.attemptSeq = s.scratch.attemptSeq)
    (fun t a ha ht => (after_attemptSeq t a ha).trans ht) acts s hacts rfl

/-- **An attempt that is settled stays settled.** -/
theorem after_failureHandled (s : Segment) (a : Act) (ha : a.isStart = false) (h : s.scratch.failureHandled = true) :
    (s.after a).scratch.failureHandled = true := by
  cases a with
  | start => cases ha
  | callerJoins => rw [scratch_after_callerJoins]; split <;> exact h
  | register => rw [scratch_after_register]; split <;> exact h
  | finish => rw [scratch_after_finish]; split <;> simp [h]
  | agentJoins => rw [scratch_after_agentJoins]; split <;> exact h
  | callerLeaves => rw [scratch_after_callerLeaves]; split <;> first | exact h | rfl
  | legEnds => rw [scratch_after_legEnds]; split <;> simp [h]
  | dialEnds => rw [scratch_after_dialEnds]; split <;> simp [h]

/-- **The leg that answered stays the one that answered.** -/
theorem after_answeredLeg (s : Segment) (a : Act) (ha : a.isStart = false) {leg : String}
    (h : s.scratch.answeredLeg = some leg) : (s.after a).scratch.answeredLeg = some leg := by
  cases a with
  | start => cases ha
  | callerJoins => rw [scratch_after_callerJoins]; split <;> exact h
  | register => rw [scratch_after_register]; split <;> exact h
  | finish => rw [scratch_after_finish]; split <;> simp [h]
  | agentJoins => rw [scratch_after_agentJoins, h]; simp [h]
  | callerLeaves => rw [scratch_after_callerLeaves]; split <;> exact h
  | legEnds => rw [scratch_after_legEnds]; split <;> simp [h]
  | dialEnds => rw [scratch_after_dialEnds, h]; simp [h]

/-- **The end of a leg stays recorded.** -/
theorem after_endedLegs (s : Segment) (a : Act) (ha : a.isStart = false) {leg : String}
    (h : leg ∈ s.scratch.endedLegs) : leg ∈ (s.after a).scratch.endedLegs := by
  cases a with
  | start => cases ha
  | callerJoins => rw [scratch_after_callerJoins]; split <;> exact h
  | register => rw [scratch_after_register]; split <;> exact h
  | finish => rw [scratch_after_finish]; split <;> simp [h]
  | agentJoins => rw [scratch_after_agentJoins]; split <;> exact h
  | callerLeaves => rw [scratch_after_callerLeaves]; split <;> exact h
  | legEnds => rw [scratch_after_legEnds]; split <;> simp [h]
  | dialEnds => rw [scratch_after_dialEnds]; split <;> simp [h]

theorem knowsLeg_putEntry (leg key : String) (v : Option DialTarget) :
    ∀ entries : List (String × Option DialTarget), (putEntry key v entries).any (fun e => e.1 = leg) =
      (entries.any (fun e => e.1 = leg) || decide (key = leg))
  | [] => by simp [putEntry]
  | (k, w) :: rest => by
    rw [putEntry]
    by_cases hk : k = key
    · rw [if_pos hk, hk]
      simp only [List.any_cons]
      cases decide (key = leg) <;> simp
    · rw [if_neg hk, List.any_cons, List.any_cons, knowsLeg_putEntry leg key v rest, Bool.or_assoc]

/-- **A leg becomes known by its registration**, and stays so. -/
theorem after_knowsLeg (s : Segment) (a : Act) (ha : a.isStart = false) (leg : String) :
    (s.after a).scratch.knowsLeg leg = true ↔ s.scratch.knowsLeg leg = true ∨
      ∃ target, a = .register s.scratch.attemptSeq leg target := by
  unfold Scratch.knowsLeg
  cases a with
  | start => cases ha
  | register seq l target =>
    rw [scratch_after_register]
    by_cases hseq : s.scratch.attemptSeq = seq
    · rw [if_neg (fun h => h hseq)]
      simp [knowsLeg_putEntry, hseq]
    · rw [if_pos hseq]
      simp [Ne.symm hseq]
  | callerJoins => rw [scratch_after_callerJoins]; split <;> simp
  | finish => rw [scratch_after_finish]; split <;> simp
  | agentJoins => rw [scratch_after_agentJoins]; split <;> simp
  | callerLeaves => rw [scratch_after_callerLeaves]; split <;> simp
  | legEnds => rw [scratch_after_legEnds]; split <;> simp
  | dialEnds => rw [scratch_after_dialEnds]; split <;> simp

/-- **Only an agent that joins an open segment answers it.** -/
theorem answeredLeg_of_after {s : Segment} {a : Act} (ha : a.isStart = false) {leg : String}
    (hs : s.scratch.answeredLeg = none) (h : (s.after a).scratch.answeredLeg = some leg) :
    ∃ seq now, a = .agentJoins leg seq now ∧ s.scratch.isOther seq = false ∧ s.isClosed = false := by
  cases a with
  | start => cases ha
  | callerJoins => rw [scratch_after_callerJoins] at h; split at h <;> simp_all
  | register => rw [scratch_after_register] at h; split at h <;> simp_all
  | finish => rw [scratch_after_finish] at h; split at h <;> simp_all
  | agentJoins l seq now =>
    rw [scratch_after_agentJoins] at h
    split at h
    · rw [hs] at h; cases h
    · rename_i hg
      simp only [Bool.or_eq_true, not_or, Bool.not_eq_true] at hg
      cases h
      exact ⟨seq, now, rfl, hg.1.1, hg.2⟩
  | callerLeaves => rw [scratch_after_callerLeaves] at h; split at h <;> simp_all
  | legEnds => rw [scratch_after_legEnds] at h; split at h <;> simp_all
  | dialEnds => rw [scratch_after_dialEnds] at h; split at h <;> simp_all

/-- **A segment closes where a decision ends the call, and no act opens it again.** -/
theorem after_isClosed (s : Segment) (a : Act) :
    (s.after a).isClosed = (s.isClosed || (s.effect a).decision.any Decision.isTerminate) := by
  cases a with
  | start => exact (Bool.or_false _).symm
  | callerJoins seq conferenceSid =>
    simp only [after, effect, perform, callerJoined, Option.any_none, Bool.or_false]
    cases Flow.given conferenceSid <;> repeat' split
    all_goals rfl
  | register seq leg target =>
    simp only [after, effect, perform, registerLeg, Option.any_none, Bool.or_false]
    repeat' split
    all_goals rfl
  | finish seq now =>
    simp only [after, effect, perform, finishDialing]
    split
    · simp
    · exact claimFailure_isClosed _ now
  | agentJoins leg seq now =>
    simp only [after, effect, perform, agentAnswered, Option.any_none, Bool.or_false]
    split
    · rfl
    · split
      · rfl
      · rename_i hg
        simp only [Bool.or_eq_true, not_or, Bool.not_eq_true] at hg
        rw [hg.2]
        rfl
  | callerLeaves seq =>
    simp only [after, effect, perform, terminatePending, Option.any_none, Bool.or_false]
    split <;> rfl
  | legEnds leg seq now =>
    simp only [after, effect, perform, legEnded]
    split
    · simp
    · split
      · simp
      · exact claimFailure_isClosed _ now
  | dialEnds seq now =>
    simp only [after, effect, perform, claimAfterDial]
    split
    · simp
    · split
      · simp
      · exact claimFailure_isClosed _ now

end Switchboard.Segment
