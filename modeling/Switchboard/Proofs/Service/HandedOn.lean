import Switchboard.Proofs.Service.Dialing
import Switchboard.Proofs.Store.Rows
/-!
# Segments that were handed on

A transfer closes a segment as handed on and leaves its attempt as it is: legs may still ring, and nobody may have answered.
Callbacks about the segment go on coming, and the attempt may still fail; then its decision moves the caller, who is in the
next segment by now.  `caller_moved_from_handed_on` says which callbacks do so.  It happens once at most, and never where
the attempt was answered or settled when the call was handed on.
-/
namespace Switchboard

open Segment (Act)
open Time (Instant)

/-! ## Handing a call on -/

/-- A segment as a transfer closes it. -/
def Segment.handedOver (s : Segment) (h : Store.Handover) (now : Instant) : Segment :=
  { s with
    status := .transferred, endedAt := some (.utc now), duration := some (s.elapsed (.utc now))
    transferredToUserId := some h.toUser, transferredFromUserId := h.fromUser, transferReason := h.reason
    transferredAt := some (.utc now), revision := s.revision + 1 }

namespace Store

theorem CallRow.read_handOn {r : CallRow} {s : Segment} (hr : r.read = .ok s) (h : Handover) (now : Instant) :
    (CallRow.handOn h now (s.elapsed (.utc now)) r).read = .ok (s.handedOver h now) := by
  rw [CallRow.handOn, Switchboard.CallRow.read_change hr]
  simp only [Segment.changed, Segment.revised, Segment.handedOver, List.foldl_cons, List.foldl_nil, Change.apply]

/-- **The segment that the store holds is found by its id.** -/
theorem Holds.rowOfId {db : Store} {s : Segment} (h : db.Holds s) :
    ∃ r, db.segmentRow s.rootSid s.number none = some r ∧ r.read = .ok s ∧ db.rowOfId s.id none = some r := by
  obtain ⟨r, hfind, hr⟩ := h.stored
  have hid : r.segment.id = s.id := by rw [CallRow.segment_of_read hr]
  exact ⟨r, hfind, hr, h.keyed.rowOfId (List.mem_of_find?_eq_some hfind) (hid ▸ sameId_self _)⟩

/-- **A row that is added leaves what the store holds**, if its id is new. -/
theorem Holds.insertCall {db db' : Store} {s : Segment} {r r' : CallRow} (h : db.Holds s)
    (hnew : ∀ q ∈ db.calls, sameId q.segment.id (idAfter db.counted) = false)
    (hok : db.insertCall r = .ok (r', db')) : db'.Holds s := by
  obtain ⟨q, hfind, hq⟩ := h.stored
  unfold Store.insertCall at hok
  split at hok
  · cases hok
  · cases hok
    refine ⟨?_, h.fits, h.inRange, h.rooted, q, ?_, hq⟩
    · refine List.pairwise_append.2 ⟨h.keyed, List.pairwise_singleton _ _, ?_⟩
      intro a ha b hb
      rw [List.mem_singleton.1 hb]
      exact hnew a ha
    · unfold Store.segmentRow at hfind ⊢
      exact (List.find?_append ..).trans (by rw [hfind]; rfl)

/-- **Behind a transfer the store holds the segment as it was closed**, with its attempt as it was. -/
theorem Holds.handOver {db db' : Store} {s active : Segment} {h : Handover} {scratch : Scratch} {now : Instant}
    {rows : CallRow × CallRow} (hs : db.Holds s) (hid : active.id = s.id)
    (hnew : ∀ q ∈ db.calls, sameId q.segment.id (idAfter db.counted) = false)
    (hok : db.handOver active h scratch now = .ok (rows, db')) :
    s.isClosed = false ∧ db'.Holds (s.handedOver h now) := by
  obtain ⟨r, hfind, hr, hrow⟩ := hs.rowOfId
  have hrid : r.segment.id = s.id := by rw [CallRow.segment_of_read hr]
  obtain ⟨a, t, ha, hopen, hread, hrange, -, hinsert⟩ := handOver_eq_ok hok
  rw [hid] at ha hinsert
  cases hrow.symm.trans ha
  cases hr.symm.trans hread
  have hupdated : (db.updateCalls (fun q => sameId q.segment.id s.id)
      (CallRow.handOn h now (s.elapsed (.utc now)))).Holds (s.handedOver h now) := by
    refine hs.updateCalls _ (fun q => Switchboard.CallRow.change_key q _) rfl rfl hrange fun q _ hq _ => ?_
    rw [hfind] at hq
    cases hq
    rw [if_pos (hrid ▸ sameId_self _)]
    exact CallRow.read_handOn hr h now
  refine ⟨?_, hupdated.insertCall (fun q hq => ?_) hinsert⟩
  · rw [← hopen, CallRow.segment_of_read hr]
    rfl
  · obtain ⟨p, hp, rfl⟩ := List.mem_map.1 hq
    have hpid : (if sameId p.segment.id s.id then CallRow.handOn h now (s.elapsed (.utc now)) p else p).segment.id =
        p.segment.id := by
      split
      · exact (Switchboard.CallRow.change_key p _).1
      · rfl
    rw [hpid]
    exact hnew p hp

end Store

/-! ## Callbacks about a segment -/

/-- What providers report about a segment of a call. -/
inductive Callback where
  /-- An event of the segment's conference. -/
  | conference (sid : String) (event : Work.ConferenceEvent) (participant : Option String) (seq : Option Int)
      (conferenceSid : Option String)
  /-- The status of a leg that was placed for the segment. -/
  | agentStatus (sid leg : String) (status : Status) (seq : Option Int)

namespace Callback

/-- The call that a callback is about. -/
def sid : Callback → String
  | conference sid .. => sid
  | agentStatus sid .. => sid

/-- Serves a callback about a segment. -/
def serve (number : Int) : Callback → Work Unit
  | conference sid event participant seq conferenceSid =>
    Work.conferenceEvent sid number event participant seq conferenceSid
  | agentStatus sid leg status seq => discard (Work.legEnded sid number leg status seq)

/-- Whether a callback leaves an open attempt with nobody to wait for: the end of the last leg that rings, once every leg is
placed, or the caller's first join where no leg is placed that goes on ringing. -/
def LeavesNobody (st : State) (s : Segment) : Callback → Prop
  | agentStatus _ leg status seq =>
    status.isFinal = true ∧ s.scratch.isOther seq = false ∧ s.scratch.dialComplete = true ∧
      leg ∉ s.scratch.endedLegs ∧ s.scratch.pendingLegs.erase leg = []
  | conference sid event participant seq _ =>
    event = .joined ∧ participant = some sid ∧ s.scratch.isOther seq = false ∧ s.scratch.dialed = false ∧
      s.scratch.agentDialedFromTransfer = false ∧ s.scratch.pendingLegs = [] ∧
      ∀ l ∈ Work.placing st.exchange.unreachable st.exchange.placed s.scratch.targets, l.1 ∈ s.scratch.endedLegs

/-- Whether a callback about a segment that was handed on moves the caller: the attempt is open and unanswered, the callback
leaves nobody to wait for, and the store takes what follows. -/
structure MovesCaller (st : State) (s : Segment) (c : Callback) : Prop where
  isOpen : s.scratch.failureHandled = false
  unanswered : s.scratch.answeredLeg = none
  leavesNobody : c.LeavesNobody st s
  isUp : st.isUp = true
  isCalm : st.conflicts < Work.mutateTries
  inRange : s.moveAfterFailure = .terminate → Store.fits (s.elapsed (.utc st.now)) = true

end Callback

/-- Serves callbacks about a segment one after another, each whether or not the ones before have failed. -/
def State.serveAll (st : State) (number : Int) (cs : List Callback) : State :=
  cs.foldl (fun st c => ((c.serve number).run st).2) st

/-- **The end of the last leg** moves the caller, where the store takes it. -/
theorem moves_of_agentStatus {st : State} {s : Segment} (h : st.store.Holds s) {sid leg : String} {status : Status}
    (hfinal : status.isFinal = true) (seq : Option Int) :
    let a := Act.legEnds leg seq st.now
    (st.takes s (s.after a) ∧ (s.effect a).decision.isSome = true ↔
      (Callback.agentStatus sid leg status seq).MovesCaller st s) := by
  intro a
  constructor
  · rintro ⟨htakes, hdec⟩
    obtain ⟨d, hd⟩ := Option.isSome_iff_exists.1 hdec
    obtain ⟨hopen, hsettled, -, hmove⟩ := Segment.decision_inv hd
    obtain ⟨ho, he, hf, hdc, hp, ha⟩ := (Segment.decision_legEnds_isSome s leg seq st.now).1 hdec
    rcases htakes.2 with heq | ⟨hcalm, hfits⟩
    · rw [heq, hopen] at hsettled
      cases hsettled
    · exact ⟨hf, ha, ⟨hfinal, ho, hdc, he, hp⟩, htakes.1, hcalm,
        (Segment.duration_fits_iff hd (by rw [hmove]; rfl) h.inRange
          (Segment.after_duration_of_legEnds s leg seq st.now)).1 hfits⟩
  · rintro ⟨hf, ha, ⟨-, ho, hdc, he, hp⟩, hup, hcalm, hrange⟩
    have hdec := (Segment.decision_legEnds_isSome s leg seq st.now).2 ⟨ho, he, hf, hdc, hp, ha⟩
    obtain ⟨d, hd⟩ := Option.isSome_iff_exists.1 hdec
    have hmove := (Segment.decision_inv hd).2.2.2
    exact ⟨⟨hup, .inr ⟨hcalm, (Segment.duration_fits_iff hd (by rw [hmove]; rfl) h.inRange
      (Segment.after_duration_of_legEnds s leg seq st.now)).2 hrange⟩⟩, hdec⟩

/-- **The caller's first join** moves the caller, where it leaves nobody to wait for and the store takes what follows. -/
theorem moves_of_callerJoin {st : State} {s : Segment} (h : st.store.Holds s) (sid : String) (seq : Option Int)
    (conferenceSid : Option String) :
    let a := Act.callerJoins seq conferenceSid
    let u := (s.after a).run (Work.registering s.scratch.attemptSeq
      (Work.placing st.exchange.unreachable st.exchange.placed s.scratch.targets))
    let b := Act.finish s.scratch.attemptSeq st.now
    (st.takes s (s.after a) ∧ (s.effect a).dials = true ∧ (u.after b).duration.all Store.fits = true ∧
        (u.effect b).decision.isSome = true ↔
      (Callback.conference sid .joined (some sid) seq conferenceSid).MovesCaller st s) := by
  intro a u b
  obtain ⟨c, dialed, hafter⟩ := Segment.after_callerJoins_eq s seq conferenceSid
  obtain ⟨answerer, targets, pending, hu⟩ := Segment.run_registering_eq s.scratch.attemptSeq
    (Work.placing st.exchange.unreachable st.exchange.placed s.scratch.targets) (s.after a)
  have hseq : (s.after a).scratch.attemptSeq = s.scratch.attemptSeq := by rw [hafter]
  have hpending := Segment.pendingLegs_run_registering
    (Work.placing st.exchange.unreachable st.exchange.placed s.scratch.targets) (s.after a)
  rw [hseq] at hpending
  change u = _ at hu
  change (s.after a).scratch.answeredLeg = none → u.scratch.pendingLegs = _ at hpending
  rw [hafter] at hu hpending
  dsimp only at hu hpending
  have huseq : u.scratch.attemptSeq = s.scratch.attemptSeq := by rw [hu]
  have hdecision := Segment.decision_finish_isSome u st.now
  have hduration := Segment.after_duration_of_finish u st.now
  rw [huseq] at hdecision hduration
  have hnobody : s.scratch.answeredLeg = none → (u.scratch.pendingLegs = [] ↔ s.scratch.pendingLegs = [] ∧
      ∀ l ∈ Work.placing st.exchange.unreachable st.exchange.placed s.scratch.targets,
        l.1 ∈ s.scratch.endedLegs) := fun ha => by
    rw [hpending ha, List.append_eq_nil_iff, List.filter_eq_nil_iff]
    simp
  have hfailure : u.scratch.failureHandled = s.scratch.failureHandled := by rw [hu]
  have hanswered : u.scratch.answeredLeg = s.scratch.answeredLeg := by rw [hu]
  have hrange : u.duration.all Store.fits = true := by rw [hu]; exact h.inRange
  have hmove : u.moveAfterFailure = s.moveAfterFailure := by rw [hu]; rfl
  have helapsed : u.elapsed (.utc st.now) = s.elapsed (.utc st.now) := by rw [hu]; rfl
  rw [hfailure, hanswered] at hdecision
  have hfits : (u.effect b).decision.isSome = true → ((u.after b).duration.all Store.fits = true ↔
      (s.moveAfterFailure = .terminate → Store.fits (s.elapsed (.utc st.now)) = true)) := fun hdec => by
    obtain ⟨d, hd⟩ := Option.isSome_iff_exists.1 hdec
    have hdmove : d.move = u.moveAfterFailure := by rw [(Segment.decision_inv hd).2.2.2]; rfl
    rw [Segment.duration_fits_iff hd hdmove hrange hduration, hmove, helapsed]
  constructor
  · rintro ⟨htakes, hdial, hend, hdec⟩
    obtain ⟨ho, hd, ht⟩ := (Work.dials_iff s seq conferenceSid).1 hdial
    obtain ⟨hf, hp, ha⟩ := hdecision.1 hdec
    obtain ⟨hp, hl⟩ := (hnobody ha).1 hp
    have hcalm : st.conflicts < Work.mutateTries := by
      rcases htakes.2 with heq | ⟨hcalm, -⟩
      · have hscratch := Work.scratch_of_dials hdial
        rw [heq] at hscratch
        have := congrArg Scratch.dialed hscratch
        rw [hd] at this
        cases this
      · exact hcalm
    exact ⟨hf, ha, ⟨rfl, rfl, ho, hd, ht, hp, hl⟩, htakes.1, hcalm, (hfits hdec).1 hend⟩
  · rintro ⟨hf, ha, ⟨-, -, ho, hd, ht, hp, hl⟩, hup, hcalm, hend⟩
    have hdec := hdecision.2 ⟨hf, (hnobody ha).2 ⟨hp, hl⟩, ha⟩
    have hjoin : (s.after a).duration.all Store.fits = true := by rw [hafter]; exact h.inRange
    exact ⟨⟨hup, .inr ⟨hcalm, hjoin⟩⟩, (Work.dials_iff s seq conferenceSid).2 ⟨ho, hd, ht⟩, (hfits hdec).2 hend, hdec⟩

/-- A callback is served as a run of acts of the attempt, and moves the caller once for each decision of the run. -/
def Callback.ServesRun (st st' : State) (s : Segment) (c : Callback) : Prop :=
  ∃ acts : List Act, (∀ a ∈ acts, a.isStart = false) ∧ Served st st' s (s.run acts) (s.decisions acts).length ∧
    (s.decisions acts ≠ [] ↔ c.MovesCaller st s)

/-- **A callback that leaves the attempt as it is** moves nobody. -/
theorem servesRun_of_idle {st st' : State} {s : Segment} {c : Callback} (h : Served st st' s s 0)
    (hc : ¬ c.MovesCaller st s) : c.ServesRun st st' s :=
  ⟨[], List.forall_mem_nil _, h, fun hne => absurd rfl hne, fun hm => absurd hm hc⟩

/-- **A callback that is one act** moves the caller where the store takes the act and the act decides. -/
theorem servesRun_of_act {st st' : State} {s : Segment} {a : Act} {c : Callback} (ha : a.isStart = false)
    (h : Work.ServesAct st st' s a)
    (hc : st.takes s (s.after a) ∧ (s.effect a).decision.isSome = true ↔ c.MovesCaller st s) : c.ServesRun st st' s := by
  have hdecisions : s.decisions [a] = (s.effect a).decision.toList := by
    rw [Segment.decisions_cons, show (s.after a).decisions [] = [] from rfl, List.append_nil]
  by_cases ht : st.takes s (s.after a)
  · refine ⟨[a], fun b hb => by rwa [List.mem_singleton.1 hb], ?_, ?_⟩
    · rw [hdecisions]
      exact h.1 ht
    · rw [hdecisions, ← hc]
      cases (s.effect a).decision <;> simp [ht]
  · exact servesRun_of_idle (h.2 ht) fun hm => ht (hc.2 hm).1

theorem servesRun_callerJoin {st : State} {s : Segment} (h : st.store.Holds s) (hapart : st.Apart s) {sid : String}
    (hsid : Naming.root sid = s.rootSid) (seq : Option Int) (conferenceSid : Option String) :
    (Callback.conference sid .joined (some sid) seq conferenceSid).ServesRun st
      ((Work.callerJoined sid s.number seq conferenceSid).run st).2 s := by
  obtain ⟨hrefused, hjoined, hdialed, hcut⟩ := Work.served_callerJoined h hsid hapart seq conferenceSid
  have hmoves := moves_of_callerJoin h sid seq conferenceSid
  let a := Act.callerJoins seq conferenceSid
  let dials := Work.registering s.scratch.attemptSeq
    (Work.placing st.exchange.unreachable st.exchange.placed s.scratch.targets)
  let b := Act.finish s.scratch.attemptSeq st.now
  have hstart : ∀ c ∈ a :: dials, c.isStart = false := fun c hc => by
    rcases List.mem_cons.1 hc with rfl | hc
    · rfl
    · exact Work.isStart_of_mem_registering hc
  have hnone : s.decisions (a :: dials) = [] := by
    rw [Segment.decisions_cons, Segment.decisions_registering]
    rfl
  by_cases htakes : st.takes s (s.after a)
  · cases hdial : (s.effect a).dials with
    | false =>
      refine ⟨[a], fun c hc => hstart c (List.mem_cons.2 (.inl (List.mem_singleton.1 hc))), hjoined htakes hdial,
        fun hne => absurd rfl hne, fun hm => ?_⟩
      exact absurd (hdial.symm.trans (hmoves.2 hm).2.1) Bool.false_ne_true
    | true =>
      cases hfits : (((s.after a).run dials).after b).duration.all Store.fits with
      | true =>
        have hdecisions : s.decisions (a :: dials ++ [b]) = (((s.after a).run dials).effect b).decision.toList := by
          rw [Segment.decisions_append, hnone, List.nil_append, Segment.decisions_cons]
          exact List.append_nil _
        refine ⟨a :: dials ++ [b], fun c hc => ?_, ?_, ?_⟩
        · rcases List.mem_append.1 hc with hc | hc
          · exact hstart c hc
          · rw [List.mem_singleton.1 hc]
            rfl
        · rw [hdecisions, Segment.run_append]
          exact hdialed htakes hdial hfits
        · rw [hdecisions]
          refine Iff.trans ?_ hmoves
          cases hd : (((s.after a).run dials).effect b).decision with
          | none => exact ⟨fun hne => absurd rfl hne, fun hm => nomatch hm.2.2.2⟩
          | some d => exact ⟨fun _ => ⟨htakes, hdial, hfits, rfl⟩, fun _ => List.cons_ne_nil d []⟩
      | false =>
        refine ⟨a :: dials, hstart, ?_, fun hne => absurd hnone hne, fun hm => ?_⟩
        · rw [hnone]
          exact hcut htakes hdial hfits
        · exact absurd (hfits.symm.trans (hmoves.2 hm).2.2.1) Bool.false_ne_true
  · exact servesRun_of_idle (hrefused htakes) fun hm => htakes (hmoves.2 hm).1

/-- **Every callback about a segment that was handed on serves a run of acts**, and moves the caller once for each decision
of the run. -/
theorem servesRun_callback {st : State} {s : Segment} (h : st.store.Holds s) (hs : s.HandedOn) (hapart : st.Apart s)
    (c : Callback) (hc : Naming.root c.sid = s.rootSid) : c.ServesRun st ((c.serve s.number).run st).2 s := by
  have hidle : Served st st s s 0 := ⟨⟨s.revision, h⟩, rfl, hapart⟩
  cases c with
  | agentStatus sid leg status seq =>
    rw [Callback.serve, Task.run_discard]
    cases hfinal : status.isFinal with
    | true =>
      exact servesRun_of_act (a := .legEnds leg seq st.now) rfl (Work.served_legEnded h hc hapart leg hfinal seq)
        (moves_of_agentStatus h hfinal seq)
    | false =>
      have hst : ((Work.legEnded sid s.number leg status seq).run st).2 = st := by
        rw [Work.legEnded, hfinal]
        rfl
      rw [hst]
      exact servesRun_of_idle hidle fun hm => Bool.false_ne_true (hfinal.symm.trans hm.leavesNobody.1)
  | conference sid event participant seq conferenceSid =>
    rw [Callback.serve, Work.conferenceEvent.eq_def]
    cases event with
    | joined =>
      by_cases hcaller : participant = some sid
      · subst hcaller
        dsimp only
        rw [if_pos rfl]
        exact servesRun_callerJoin h hapart hc seq conferenceSid
      · have hno : ¬ (Callback.conference sid .joined participant seq conferenceSid).MovesCaller st s :=
          fun hm => hcaller hm.leavesNobody.2.1
        dsimp only
        rw [if_neg hcaller]
        cases Flow.given participant with
        | none => exact servesRun_of_idle hidle hno
        | some leg =>
          exact servesRun_of_act (a := .agentJoins leg seq st.now) rfl (Work.served_agentAnswered h hc hapart leg seq)
            ⟨fun hm => (nomatch hm.2), fun hm => absurd hm hno⟩
    | left =>
      have hno : ¬ (Callback.conference sid .left participant seq conferenceSid).MovesCaller st s :=
        fun hm => nomatch hm.leavesNobody.1
      dsimp only
      by_cases hcaller : participant = some sid
      · rw [if_pos hcaller, Task.run_discard]
        exact servesRun_of_act (a := .callerLeaves seq) rfl (Work.served_terminatePending h hc hapart seq)
          ⟨fun hm => (nomatch hm.2), fun hm => absurd hm hno⟩
      · rw [if_neg hcaller]
        cases Flow.given participant with
        | none => exact servesRun_of_idle hidle hno
        | some leg =>
          refine servesRun_of_idle (Work.served_agentLeft h hc hapart leg fun hleg => ?_) hno
          exact hs.2 (by rw [hleg]; rfl)
    | ended =>
      have hno : ¬ (Callback.conference sid .ended participant seq conferenceSid).MovesCaller st s :=
        fun hm => nomatch hm.leavesNobody.1
      dsimp only
      rw [Task.run_discard]
      exact servesRun_of_act (a := .callerLeaves seq) rfl (Work.served_terminatePending h hc hapart seq)
        ⟨fun hm => (nomatch hm.2), fun hm => absurd hm hno⟩
    | other =>
      exact servesRun_of_idle hidle fun hm => nomatch hm.leavesNobody.1

/-- **Callbacks one after another serve one run of acts.** -/
theorem served_serveAll : ∀ (cs : List Callback) (st : State) (s : Segment), st.store.Holds s → s.HandedOn → st.Apart s →
    (∀ c ∈ cs, Naming.root c.sid = s.rootSid) →
    ∃ acts : List Act, (∀ a ∈ acts, a.isStart = false) ∧
      Served st (st.serveAll s.number cs) s (s.run acts) (s.decisions acts).length
  | [], st, s, h, _, hapart, _ => ⟨[], List.forall_mem_nil _, ⟨s.revision, h⟩, rfl, hapart⟩
  | c :: cs, st, s, h, hs, hapart, hcs => by
    obtain ⟨acts, hacts, hserved, -⟩ := servesRun_callback h hs hapart c (hcs c List.mem_cons_self)
    obtain ⟨k, hk⟩ := hserved.holds
    have hroot : (s.run acts).rootSid = s.rootSid := Segment.run_rootSid s acts
    have hnumber : ((s.run acts).revised k).number = s.number := Segment.run_number s acts
    obtain ⟨more, hmore, hlater⟩ := served_serveAll cs _ ((s.run acts).revised k) hk (Segment.run_handedOn acts hacts hs)
      (hserved.apart.revised k) fun d hd => (hcs d (List.mem_cons_of_mem _ hd)).trans hroot.symm
    rw [hnumber, Segment.run_revised, Segment.decisions_revised] at hlater
    refine ⟨acts ++ more, fun a ha => (List.mem_append.1 ha).elim (hacts a) (hmore a), ?_⟩
    rw [Segment.run_append, Segment.decisions_append, List.length_append]
    exact hserved.trans hroot hlater

/-- **Which callbacks move the caller from a segment that was handed on.**  In every state that holds such a segment: a
callback about it asks to move the caller once if the attempt is open and unanswered, the callback leaves nobody to wait for
and the store takes what follows, and else not at all; callbacks in any order and number ask for it once at most, and never
if the attempt was answered or settled when the call was handed on.  The same goes for every run of the atomic steps that
callbacks consist of, however they are interleaved, and an agent who answered always leaves a segment that is handed on. -/
theorem caller_moved_from_handed_on (st : State) (s : Segment) (h : st.store.Holds s) (ht : s.status = .transferred)
    (hapart : st.Apart s) :
    (∀ c : Callback, Naming.root c.sid = s.rootSid →
      (c.MovesCaller st s → ((c.serve s.number).run st).2.moves s.rootSid = st.moves s.rootSid + 1) ∧
      (¬ c.MovesCaller st s → ((c.serve s.number).run st).2.moves s.rootSid = st.moves s.rootSid)) ∧
    (∀ cs : List Callback, (∀ c ∈ cs, Naming.root c.sid = s.rootSid) →
      (st.serveAll s.number cs).moves s.rootSid ≤ st.moves s.rootSid + 1 ∧
      (s.scratch.failureHandled = true ∨ s.scratch.answeredLeg.isSome = true →
        (st.serveAll s.number cs).moves s.rootSid = st.moves s.rootSid)) ∧
    (∀ acts : List Act, (∀ a ∈ acts, a.isStart = false) →
      (s.decisions acts).length ≤ 1 ∧
      (s.scratch.failureHandled = true ∨ s.scratch.answeredLeg.isSome = true → s.decisions acts = []) ∧
      ((s.run acts).scratch.answeredLeg.isSome = true → (s.run acts).status = .transferred)) := by
  have hs := Segment.handedOn_of_transferred ht
  refine ⟨fun c hc => ?_, fun cs hcs => ?_, fun acts hacts => ?_⟩
  · obtain ⟨acts, hacts, hserved, hmoves⟩ := servesRun_callback h hs hapart c hc
    have hone := Segment.decisions_length_le_one acts s hacts
    refine ⟨fun hm => ?_, fun hm => ?_⟩
    · have hpos := List.length_pos_iff.2 (hmoves.2 hm)
      rw [hserved.moves]
      omega
    · have hnil : s.decisions acts = [] := by
        by_contra hne
        exact hm (hmoves.1 hne)
      rw [hserved.moves, hnil]
      rfl
  · obtain ⟨acts, hacts, hserved⟩ := served_serveAll cs st s h hs hapart hcs
    have hone := Segment.decisions_length_le_one acts s hacts
    refine ⟨?_, fun hclosed => ?_⟩
    · rw [hserved.moves]
      omega
    · rw [hserved.moves, Segment.decisions_of_closed_attempt hacts hclosed]
      rfl
  · exact ⟨Segment.decisions_length_le_one acts s hacts, Segment.decisions_of_closed_attempt hacts,
      (Segment.run_handedOn acts hacts hs).2⟩

theorem caller_moved_by_the_last_leg :
    let target : DialTarget := ⟨.phone, "+15550100", "+15550100", none⟩
    let ringing := (Segment.opened "T" "CA1" "CA1" 0 "inbound" .ringing).run
      [.start ⟨none, some "line", some 1, none, 0, some "dial", 1⟩ [target] none 30 false, .callerJoins (some 1) none,
        .register 1 "leg" target, .finish 1 0]
    let transfer : Store.Handover := ⟨"bob", none, none⟩
    let s := ringing.handedOver transfer 5
    let ends := Callback.agentStatus "CA1" "leg" .noAnswer (some 1)
    ∃ rows db, (State.holding [ringing]).store.handOver ringing transfer Scratch.fresh 5 = .ok (rows, db) ∧
      let st := { State.holding [] with store := db }
      st.store.Holds s ∧ s.status = .transferred ∧ st.Apart s ∧ ends.MovesCaller st s ∧
        ((ends.serve s.number).run st).2.moves s.rootSid = st.moves s.rootSid + 1 := by
  intro target ringing transfer s ends
  have hringing : (State.holding [ringing]).store.Holds ringing :=
    Store.holds_holding (by decide) (by decide) (by decide)
  have hnew : ∀ q ∈ (State.holding [ringing]).store.calls,
      Store.sameId q.segment.id (Store.idAfter (State.holding [ringing]).store.counted) = false := by decide
  cases hok : (State.holding [ringing]).store.handOver ringing transfer Scratch.fresh 5 with
  | error e =>
    have hopen : ((State.holding [ringing]).store.handOver ringing transfer Scratch.fresh 5).toOption.isSome = true := by
      decide
    rw [hok] at hopen
    cases hopen
  | ok r =>
    obtain ⟨rows, db⟩ := r
    refine ⟨rows, db, rfl, ?_⟩
    intro st
    have h : st.store.Holds s := (hringing.handOver rfl hnew hok).2
    have ht : s.status = .transferred := rfl
    have hcaller : s.rootSid = "CA1" := by decide
    have hapart : st.Apart s := by
      refine ⟨by decide, fun n _ heq => ?_⟩
      have hchars := congrArg String.toList (heq.trans hcaller)
      rw [String.toList_append] at hchars
      exact absurd (List.cons.inj (List.cons.inj (List.cons.inj hchars).2).2).1 (by decide)
    have hmoves : ends.MovesCaller st s := by
      refine ⟨by decide, by decide, ⟨rfl, by decide, by decide, by decide, by decide⟩, rfl, ?_, fun hm => ?_⟩
      · exact Nat.zero_lt_succ 4
      · exact absurd hm (by decide)
    exact ⟨h, ht, hapart, hmoves, ((caller_moved_from_handed_on st s h ht hapart).1 ends (by decide)).1 hmoves⟩

end Switchboard
