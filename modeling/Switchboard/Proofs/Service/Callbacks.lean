import Switchboard.Proofs.Attempt.Decision
import Switchboard.Proofs.Service.Acts
import Switchboard.Service.Conference
/-!
# Callbacks as runs of acts

Providers call back about a segment: its conference and the legs of its agents report what happens to them.  A handler is
made of changes of the segment, and each of them is an act of the attempt; so what a callback does to the stored segment is
a run of acts, and it asks to move the caller once for each decision of that run (`Served`).  A change that the store does
not take ends the run early.
-/
namespace Switchboard

open Provider (Request)
open Segment (Act IsChange)
open Time (Instant)

/-! ## What serving comes to -/

/-- The caller's call is none of the legs: neither one that rings nor one that the provider will place. -/
structure State.Apart (st : State) (s : Segment) : Prop where
  pending : s.rootSid ∉ s.scratch.pendingLegs
  coming : ∀ n, st.exchange.placed < n → "CAleg" ++ toString n ≠ s.rootSid

/-- The store holds `t` where it held `s`, and the call was asked to be moved `n` times. -/
structure Served (st st' : State) (s t : Segment) (n : Nat) : Prop where
  holds : ∃ k, st'.store.Holds (t.revised k)
  moves : st'.moves s.rootSid = st.moves s.rootSid + n
  apart : st'.Apart t

theorem State.moves_append (st : State) (rs : List Request) (sid : String) :
    State.moves { st with requests := st.requests ++ rs } sid = st.moves sid + rs.countP (Request.moves sid) := by
  unfold State.moves
  rw [List.countP_append]

/-- **The caller stays apart behind an act** that does not register the caller's call. -/
theorem State.Apart.after {st : State} {s : Segment} (h : st.Apart s) {a : Act} (ha : s.rootSid ∉ a.registers) :
    st.Apart (s.after a) := by
  have hroot := Segment.after_rootSid s a
  refine ⟨?_, ?_⟩
  · rw [hroot]
    exact (Segment.not_mem_of_after h.pending ha).2
  · intro n hn
    rw [hroot]
    exact h.coming n hn

theorem State.Apart.revised {st : State} {s : Segment} (h : st.Apart s) (k : Int) : st.Apart (s.revised k) :=
  ⟨h.pending, h.coming⟩

/-- **Serving goes on from the segment that was left**, at whatever revision. -/
theorem Served.trans {st st₁ st₂ : State} {s t u : Segment} {k : Int} {m n : Nat} (h : Served st st₁ s t m)
    (ht : t.rootSid = s.rootSid) (h' : Served st₁ st₂ (t.revised k) (u.revised k) n) : Served st st₂ s u (m + n) := by
  refine ⟨h'.holds, ?_, ⟨h'.apart.pending, h'.apart.coming⟩⟩
  have hmoves := h'.moves
  rw [show (t.revised k).rootSid = s.rootSid from ht, h.moves] at hmoves
  rw [hmoves, Nat.add_assoc]

/-- **One change and what follows from it.**  What is asked behind the change moves the call as often as the act decides. -/
theorem served_of_mutate {α β : Type} {f : Segment → Segment × α} {a : Act} {k : Option (Segment × α) → Work β}
    (hf : IsChange f) (hfa : ∀ s, (f s).1 = s.after a) {st : State} {s : Segment} (h : st.store.Holds s) {sid : String}
    (hsid : Naming.root sid = s.rootSid) (hapart : st.Apart s) (ha : s.rootSid ∉ a.registers)
    (hk : ∀ t st', ∃ rs, ((k (some (t, (f s).2))).run st').2 = { st' with requests := st'.requests ++ rs } ∧
      rs.countP (Request.moves s.rootSid) = (s.effect a).decision.toList.length) :
    (st.takes s (s.after a) → Served st ((Work.mutate sid s.number none f >>= k).run st).2 s (s.after a)
      (s.effect a).decision.toList.length) ∧
    (¬ st.takes s (s.after a) → Served st ((Work.mutate sid s.number none f >>= k).run st).2 s s 0) := by
  rw [← hfa s]
  rcases Work.mutate_cases hf h hsid with ⟨db, n, c, hrun, hdb, htakes, -⟩ | ⟨db, n, c, e, hrun, hdb, hno⟩
  · refine ⟨fun _ => ?_, fun hno => absurd htakes hno⟩
    obtain ⟨rs, hrs, hcount⟩ := hk ((f s).1.revised n) { st with store := db, conflicts := c }
    rw [Task.run_bind_ok hrun, hrs]
    refine ⟨⟨n, hdb⟩, ?_, ?_⟩
    · exact (State.moves_append { st with store := db, conflicts := c } rs s.rootSid).trans (by rw [hcount]; rfl)
    · have := hapart.after ha
      rw [← hfa s] at this
      exact ⟨this.pending, this.coming⟩
  · refine ⟨fun h => absurd h hno, fun _ => ?_⟩
    rw [Task.run_bind_error hrun]
    exact ⟨⟨n, hdb⟩, rfl, ⟨hapart.pending, hapart.coming⟩⟩

/-! ## What follows from a change -/

/-- The state behind asking for legs to be ended. -/
def State.hangUp (st : State) (legs : List String) : State :=
  { st with requests := st.requests ++ legs.map fun leg => .terminate leg (!st.exchange.refusesTerminate) }

@[simp] theorem State.hangUp_nil (st : State) : st.hangUp [] = st := by
  rw [hangUp, List.map_nil, List.append_nil]

namespace Work

theorem run_endLegs : ∀ (legs : List String) (st : State), (endLegs legs).run st = (.ok (), st.hangUp legs)
  | [], st => by
    rw [State.hangUp_nil]
    rfl
  | leg :: rest, st => by
    have hrun : (discard (terminateCall leg)).run st = (.ok (), st.hangUp [leg]) := rfl
    rw [endLegs, Task.run_bind_ok hrun, run_endLegs rest]
    simp only [State.hangUp, List.map_cons, List.map_nil, List.append_assoc, List.singleton_append]

theorem countP_moves_endLegs (legs : List String) (done : Bool) {root : String} (h : root ∉ legs) :
    (legs.map fun leg => Request.terminate leg done).countP (Request.moves root) = 0 := by
  rw [List.countP_eq_zero]
  intro r hr
  obtain ⟨leg, hleg, rfl⟩ := List.mem_map.1 hr
  simp only [Request.moves, decide_eq_true_eq]
  exact fun heq => h (heq ▸ hleg)

/-- **A decision is one request that moves the call.** -/
theorem run_applyDecision (d : Decision) (st : State) :
    ∃ r, (applyDecision d).run st = (.ok (), { st with requests := st.requests ++ [r] }) ∧
      r.moves d.callSid = true := by
  unfold applyDecision
  rw [Task.run_bind_ok (run_callbacks st)]
  cases decisionAddress (.ofBase st.settings.baseUrl) d with
  | none => exact ⟨_, rfl, decide_eq_true rfl⟩
  | some url => exact ⟨_, rfl, decide_eq_true rfl⟩

theorem run_applyDecision? (d : Option Decision) {root : String} (hd : ∀ d' ∈ d, d'.callSid = root) (st : State) :
    ∃ rs, (applyDecision? d).run st = (.ok (), { st with requests := st.requests ++ rs }) ∧
      rs.countP (Request.moves root) = d.toList.length := by
  cases d with
  | none => exact ⟨[], by rw [List.append_nil]; rfl, rfl⟩
  | some d =>
    obtain ⟨r, hrun, hr⟩ := run_applyDecision d st
    refine ⟨[r], hrun, ?_⟩
    rw [hd d rfl] at hr
    rw [List.countP_cons_of_pos hr]
    rfl

end Work

/-- **A decision is about the caller's call.** -/
theorem Segment.callSid_of_decision {s : Segment} {a : Act} : ∀ d ∈ (s.effect a).decision, d.callSid = s.rootSid := by
  intro d hd
  rw [(Segment.decision_inv hd).2.2.2]
  rfl

/-! ## Handlers of one act -/

namespace Work

variable {st : State} {s : Segment} {sid : String}

/-- What a handler whose only change is one act comes to. -/
def ServesAct (st st' : State) (s : Segment) (a : Act) : Prop :=
  (st.takes s (s.after a) → Served st st' s (s.after a) (s.effect a).decision.toList.length) ∧
    (¬ st.takes s (s.after a) → Served st st' s s 0)

theorem served_legEnded (h : st.store.Holds s) (hsid : Naming.root sid = s.rootSid) (hapart : st.Apart s) (leg : String)
    {status : Status} (hfinal : status.isFinal = true) (seq : Option Int) :
    ServesAct st ((legEnded sid s.number leg status seq).run st).2 s (.legEnds leg seq st.now) := by
  unfold legEnded
  rw [hfinal]
  refine served_of_mutate (a := .legEnds leg seq st.now) (Segment.isChange_legEnded leg seq st.now) (fun _ => rfl) h hsid
    hapart List.not_mem_nil fun t st' => ?_
  obtain ⟨rs, hrun, hrs⟩ :=
    run_applyDecision? _ (Segment.callSid_of_decision (s := s) (a := .legEnds leg seq st.now)) st'
  exact ⟨rs, congrArg Prod.snd (Task.run_bind_ok hrun), hrs⟩

theorem served_finishDialing (h : st.store.Holds s) (hsid : Naming.root sid = s.rootSid) (hapart : st.Apart s)
    (seq : Int) :
    ServesAct st ((finishDialing sid s.number seq).run st).2 s (.finish seq st.now) := by
  refine served_of_mutate (a := .finish seq st.now) (Segment.isChange_finishDialing seq st.now) (fun _ => rfl) h hsid
    hapart List.not_mem_nil fun t st' => ?_
  obtain ⟨rs, hrun, hrs⟩ := run_applyDecision? _ (Segment.callSid_of_decision (s := s) (a := .finish seq st.now)) st'
  exact ⟨rs, congrArg Prod.snd hrun, hrs⟩

theorem served_agentAnswered (h : st.store.Holds s) (hsid : Naming.root sid = s.rootSid) (hapart : st.Apart s)
    (leg : String) (seq : Option Int) :
    ServesAct st ((agentAnswered sid s.number leg seq).run st).2 s (.agentJoins leg seq st.now) := by
  refine served_of_mutate (a := .agentJoins leg seq st.now) (Segment.isChange_agentAnswered leg seq st.now)
    (fun _ => rfl) h hsid hapart List.not_mem_nil fun t st' => ⟨_, congrArg Prod.snd (run_endLegs _ st'), ?_⟩
  exact countP_moves_endLegs _ _
    (Segment.not_mem_of_after (a := .agentJoins leg seq st.now) hapart.pending List.not_mem_nil).1

theorem served_terminatePending (h : st.store.Holds s) (hsid : Naming.root sid = s.rootSid) (hapart : st.Apart s)
    (seq : Option Int) :
    ServesAct st ((terminatePending sid s.number seq).run st).2 s (.callerLeaves seq) := by
  refine served_of_mutate (a := .callerLeaves seq) (Segment.isChange_terminatePending seq) (fun _ => rfl) h hsid hapart
    List.not_mem_nil fun t st' => ⟨_, congrArg Prod.snd (Task.run_bind_ok (run_endLegs _ st')), ?_⟩
  exact countP_moves_endLegs _ _
    (Segment.not_mem_of_after (a := .callerLeaves seq) hapart.pending List.not_mem_nil).1

/-- **The agent who leaves a segment that was handed on** moves nobody. -/
theorem served_agentLeft (h : st.store.Holds s) (hsid : Naming.root sid = s.rootSid) (hapart : st.Apart s) (leg : String)
    (hs : s.scratch.answeredLeg = some leg → s.status = .transferred) :
    Served st ((agentLeft sid s.number leg).run st).2 s s 0 := by
  have hno : ¬ (s.status ≠ .transferred ∧ s.scratch.answeredLeg = some leg) := fun hc => hc.1 (hs hc.2)
  have hst : ((agentLeft sid s.number leg).run st).2 = st := by
    have hread := run_segment? h hsid
    unfold agentLeft
    by_cases hup : st.isUp = true
    · rw [if_pos hup] at hread
      rw [Task.run_bind_ok hread]
      dsimp only
      rw [if_neg hno]
      rfl
    · rw [if_neg hup] at hread
      rw [Task.run_bind_error hread]
  rw [hst]
  exact ⟨⟨s.revision, h⟩, rfl, hapart⟩

end Work

end Switchboard
