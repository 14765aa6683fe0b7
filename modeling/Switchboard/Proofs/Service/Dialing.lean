import Switchboard.Proofs.Attempt.Failure
import Switchboard.Proofs.Service.Callbacks
/-!
# Dialing

The first join of the caller dials the agents: a leg is placed for each target that the provider can reach, every leg is
registered by a change of its own, and then the dialing is noted as finished.  What the join does to the stored segment is
therefore one run of acts, and only its last act can take a decision.
-/
namespace Switchboard

open Provider (Request)
open Segment (Act)
open Time (Instant)

/-- The leg that is asked for to reach a target of a segment. -/
def State.legFor (st : State) (s : Segment) (t : DialTarget) : Provider.Leg :=
  Work.legFor (.ofBase st.settings.baseUrl) st.settings.phoneNumber s t

namespace Work

variable {st : State} {s : Segment} {sid : String}

/-! ## The legs that are placed -/

/-- The address under which a target is dialed. -/
def addressOf (t : DialTarget) : String :=
  match t.kind with
  | .client => clientAddress t.address []
  | _ => t.address

/-- The legs that the provider places for targets, with their targets: none for a target that it cannot reach. -/
def placing (unreachable : List String) : Nat → List DialTarget → List (String × DialTarget)
  | _, [] => []
  | placed, t :: rest =>
    if unreachable.contains (addressOf t) then placing unreachable placed rest
    else ("CAleg" ++ toString (placed + 1), t) :: placing unreachable (placed + 1) rest

/-- The registrations of legs for an attempt. -/
def registering (seq : Int) (legs : List (String × DialTarget)) : List Act := legs.map fun l => .register seq l.1 l.2

theorem legFor_destination (urls : Callbacks) (number : String) (s : Segment) (t : DialTarget) :
    (legFor urls number s t).destination = addressOf t := by
  unfold legFor dialing addressOf
  cases t.kind <;> rfl

theorem registering_cons (seq : Int) (leg : String) (t : DialTarget) (legs : List (String × DialTarget)) :
    registering seq ((leg, t) :: legs) = .register seq leg t :: registering seq legs := rfl

theorem isStart_of_mem_registering {seq : Int} {legs : List (String × DialTarget)} {a : Act}
    (ha : a ∈ registering seq legs) : a.isStart = false := by
  obtain ⟨l, -, rfl⟩ := List.mem_map.1 ha
  rfl

end Work

namespace Segment

/-! ## Runs of registrations -/

theorem after_register_eq (s : Segment) (seq : Int) (leg : String) (target : DialTarget) :
    ∃ answerer targets pending, s.after (.register seq leg target) = { s with
      answeredBy := answerer
      scratch := { s.scratch with legTargets := targets, pendingLegs := pending } } := by
  simp only [after, perform, registerLeg]
  repeat' split
  all_goals exact ⟨_, _, _, rfl⟩

theorem after_callerJoins_eq (s : Segment) (seq : Option Int) (conferenceSid : Option String) :
    ∃ sid dialed, s.after (.callerJoins seq conferenceSid) = { s with
      conferenceSid := sid
      scratch := { s.scratch with dialed } } := by
  simp only [after, perform, callerJoined]
  cases Flow.given conferenceSid <;> repeat' split
  all_goals exact ⟨_, _, rfl⟩

/-- **Registrations change nothing but the legs** and whom an answer is attributed to. -/
theorem run_registering_eq (seq : Int) : ∀ (legs : List (String × DialTarget)) (s : Segment),
    ∃ answerer targets pending, s.run (Work.registering seq legs) = { s with
      answeredBy := answerer
      scratch := { s.scratch with legTargets := targets, pendingLegs := pending } }
  | [], s => ⟨_, _, _, rfl⟩
  | (leg, target) :: legs, s => by
    obtain ⟨answerer₁, targets₁, pending₁, h₁⟩ := after_register_eq s seq leg target
    obtain ⟨answerer₂, targets₂, pending₂, h₂⟩ := run_registering_eq seq legs (s.after (.register seq leg target))
    refine ⟨answerer₂, targets₂, pending₂, ?_⟩
    rw [Work.registering_cons, run_cons, h₂, h₁]

/-- **Of the legs that are registered those ring** whose end was not recorded. -/
theorem pendingLegs_run_registering : ∀ (legs : List (String × DialTarget)) (s : Segment), s.scratch.answeredLeg = none →
    (s.run (Work.registering s.scratch.attemptSeq legs)).scratch.pendingLegs =
      s.scratch.pendingLegs ++ (legs.map Prod.fst).filter (· ∉ s.scratch.endedLegs)
  | [], s, _ => (List.append_nil _).symm
  | (leg, target) :: legs, s, ha => by
    have hscratch := scratch_after_register s s.scratch.attemptSeq leg target
    rw [if_neg (not_not_intro rfl)] at hscratch
    have ih := pendingLegs_run_registering legs (s.after (.register s.scratch.attemptSeq leg target))
      (by rw [hscratch]; exact ha)
    rw [hscratch] at ih
    rw [Work.registering_cons, run_cons, ih]
    dsimp only
    by_cases he : leg ∈ s.scratch.endedLegs
    · rw [if_neg (fun h => h.2 he), List.map_cons, List.filter_cons_of_neg (by simpa using he)]
    · rw [if_pos ⟨ha, he⟩, List.map_cons, List.filter_cons_of_pos (by simpa using he), List.append_assoc]
      rfl

theorem decisions_registering (seq : Int) : ∀ (legs : List (String × DialTarget)) (s : Segment),
    s.decisions (Work.registering seq legs) = []
  | [], _ => rfl
  | (leg, target) :: legs, s => by
    rw [Work.registering_cons, decisions_cons, decisions_registering seq legs]
    rfl

end Segment

namespace Work

/-! ## Placing the legs -/

/-- The state behind dialing: so many legs are placed, more was asked, and nobody else writes. -/
def dialed (st : State) (db : Store) (placed : Nat) (rs : List Request) : State :=
  { st with store := db, conflicts := 0, exchange := { st.exchange with placed }, requests := st.requests ++ rs }

theorem dialed_dialed (st : State) (db db' : Store) (n n' : Nat) (rs rs' : List Request) :
    dialed (dialed st db n rs) db' n' rs' = dialed st db' n' (rs ++ rs') := by
  unfold dialed
  simp only [List.append_assoc]

/-- **Dialing that asks nothing of the caller's call** serves without moving it. -/
theorem served_dialed {db : Store} {n : Nat} {rs : List Request} {t : Segment} {k : Int} (hdb : db.Holds (t.revised k))
    (hrs : ∀ r ∈ rs, r.moves s.rootSid = false) (ht : (dialed st db n rs).Apart t) :
    Served st (dialed st db n rs) s t 0 := by
  refine ⟨⟨k, hdb⟩, ?_, ht⟩
  have hcount : rs.countP (Request.moves s.rootSid) = 0 := by
    rw [List.countP_eq_zero]
    intro r hr hm
    rw [hrs r hr] at hm
    cases hm
  exact (State.moves_append st rs s.rootSid).trans (by rw [hcount])

/-- **A target that cannot be reached** leaves nothing but the request. -/
theorem run_placeLeg_unreachable (snapshot : Segment) (hc : st.conflicts = 0) {t : DialTarget}
    (hreach : st.exchange.unreachable.contains (addressOf t) = true) : (placeLeg snapshot t).run st =
      (.ok [], dialed st st.store st.exchange.placed [.place (st.legFor snapshot t) none]) := by
  have hplace := run_placeCall (st.legFor snapshot t) st
  rw [State.legFor, legFor_destination, if_pos hreach] at hplace
  unfold placeLeg
  rw [Task.run_bind_ok (run_callbacks st), Task.run_bind_ok (run_settings st), Task.run_bind_ok hplace, dialed, ← hc]
  rfl

/-- **A leg that is placed is registered**, where nothing keeps the store from taking it; one that lost before it was known
is hung up. -/
theorem run_placeLeg_registered {snapshot : Segment} (h : st.store.Holds s) (hroot : snapshot.rootSid = s.rootSid)
    (hnumber : snapshot.number = s.number) (hup : st.isUp = true) (hc : st.conflicts = 0) {t : DialTarget}
    (hreach : ¬ st.exchange.unreachable.contains (addressOf t) = true) :
    ∃ db k rs, (placeLeg snapshot t).run st = (.ok [st.exchange.nextLeg], dialed st db (st.exchange.placed + 1)
        (.place (st.legFor snapshot t) (some st.exchange.nextLeg) :: rs)) ∧
      db.Holds ((s.after (.register snapshot.scratch.attemptSeq st.exchange.nextLeg t)).revised k) ∧
      ∀ r ∈ rs, ∃ done, r = .terminate st.exchange.nextLeg done := by
  have hplace := run_placeCall (st.legFor snapshot t) st
  rw [State.legFor, legFor_destination, if_neg hreach] at hplace
  have hf := Segment.isChange_registerLeg snapshot.scratch.attemptSeq st.exchange.nextLeg t
  have hroot' : Naming.root snapshot.rootSid = s.rootSid := by rw [hroot, h.rooted]
  unfold placeLeg
  rw [Task.run_bind_ok (run_callbacks st), Task.run_bind_ok (run_settings st), Task.run_bind_ok hplace, hnumber]
  dsimp only
  rw [← State.legFor]
  generalize hleg : st.legFor snapshot t = leg at *
  have hstore : (st.withPlaced leg).store.Holds s := h
  rcases mutate_cases hf hstore hroot' with ⟨db, k, c, hrun, hdb, -, hc'⟩ | ⟨db, k, c, e, -, -, hno⟩
  · have hc0 : c = 0 := by
      rw [hc']
      split
      · exact hc
      · rfl
    subst hc0
    rw [Task.run_bind_ok hrun]
    cases hflag : (Segment.registerLeg snapshot.scratch.attemptSeq st.exchange.nextLeg t s).2 with
    | false => exact ⟨db, k, [], rfl, hdb, fun r hr => nomatch hr⟩
    | true =>
      refine ⟨db, k, [.terminate st.exchange.nextLeg (!st.exchange.refusesTerminate)], ?_, hdb, fun r hr =>
        ⟨_, List.mem_singleton.1 hr⟩⟩
      unfold dialed
      rw [List.append_cons]
      rfl
  · refine absurd ⟨hup, .inr ⟨?_, ?_⟩⟩ hno
    · show st.conflicts < mutateTries
      rw [hc]
      decide
    · show (s.after (.register snapshot.scratch.attemptSeq st.exchange.nextLeg t)).duration.all Store.fits = true
      obtain ⟨answerer, targets, pending, hafter⟩ :=
        Segment.after_register_eq s snapshot.scratch.attemptSeq st.exchange.nextLeg t
      rw [hafter]
      exact h.inRange

/-- **One target is dialed** without moving the caller: its leg is registered, if it can be reached. -/
theorem served_placeLeg_of_unreachable (snapshot : Segment) (h : st.store.Holds s) (hapart : st.Apart s)
    (hc : st.conflicts = 0) {t : DialTarget} (hreach : st.exchange.unreachable.contains (addressOf t) = true) :
    ∃ db rs, (placeLeg snapshot t).run st = (.ok [], dialed st db st.exchange.placed rs) ∧
      Served st (dialed st db st.exchange.placed rs) s s 0 := by
  refine ⟨_, _, run_placeLeg_unreachable snapshot hc hreach,
    served_dialed (k := s.revision) h (fun r hr => ?_) ⟨hapart.pending, hapart.coming⟩⟩
  rw [List.mem_singleton.1 hr]
  rfl

theorem served_placeLeg {snapshot : Segment} (h : st.store.Holds s) (hroot : snapshot.rootSid = s.rootSid)
    (hnumber : snapshot.number = s.number) (hapart : st.Apart s) (hup : st.isUp = true) (hc : st.conflicts = 0)
    {t : DialTarget} (hreach : ¬ st.exchange.unreachable.contains (addressOf t) = true) :
    ∃ db rs, (placeLeg snapshot t).run st = (.ok [st.exchange.nextLeg], dialed st db (st.exchange.placed + 1) rs) ∧
      Served st (dialed st db (st.exchange.placed + 1) rs) s
        (s.after (.register snapshot.scratch.attemptSeq st.exchange.nextLeg t)) 0 := by
  obtain ⟨db, k, rs, hrun, hdb, hrs⟩ := run_placeLeg_registered h hroot hnumber hup hc hreach
  have hnext : st.exchange.nextLeg ≠ s.rootSid := hapart.coming _ (Nat.lt_succ_self _)
  have hafter := hapart.after (a := .register snapshot.scratch.attemptSeq st.exchange.nextLeg t) (by
    simpa only [Act.registers, List.mem_singleton] using hnext.symm)
  have hcoming : ∀ n, st.exchange.placed + 1 < n → _ := fun n hn => hafter.coming n (Nat.lt_of_succ_lt hn)
  refine ⟨db, _, hrun, served_dialed hdb (fun r hr => ?_) ⟨hafter.pending, hcoming⟩⟩
  rcases List.mem_cons.1 hr with rfl | hr
  · rfl
  · obtain ⟨done, rfl⟩ := hrs r hr
    exact decide_eq_false hnext

/-- **Dialing registers the legs that are placed**, one after another, and does not move the caller. -/
theorem run_placeLegsFor {snapshot : Segment} : ∀ (targets : List DialTarget) (st : State) (s : Segment),
    st.store.Holds s → snapshot.rootSid = s.rootSid → snapshot.number = s.number → st.Apart s → st.isUp = true →
    st.conflicts = 0 →
    let t := s.run (registering snapshot.scratch.attemptSeq
      (placing st.exchange.unreachable st.exchange.placed targets))
    ∃ ids db n rs, (placeLegsFor snapshot targets).run st = (.ok ids, dialed st db n rs) ∧
      Served st (dialed st db n rs) s t 0
  | [], st, s, h, _, _, hapart, _, hc => by
    refine ⟨[], st.store, st.exchange.placed, [], ?_,
      served_dialed (k := s.revision) h (fun r hr => nomatch hr) ⟨hapart.pending, hapart.coming⟩⟩
    rw [dialed, List.append_nil, ← hc]
    rfl
  | t :: rest, st, s, h, hroot, hnumber, hapart, hup, hc => by
    intro u
    rw [placeLegsFor]
    by_cases hreach : st.exchange.unreachable.contains (addressOf t) = true
    · obtain ⟨db, rs, hrun, hserved⟩ := served_placeLeg_of_unreachable snapshot h hapart hc hreach
      obtain ⟨k, hdb⟩ := hserved.holds
      obtain ⟨ids, db', n', rs', hrun', hserved'⟩ := run_placeLegsFor rest (dialed st db st.exchange.placed rs)
        (s.revised k) hdb hroot hnumber (hserved.apart.revised k) hup rfl
      rw [Segment.run_revised] at hserved'
      have hu : u = s.run (registering snapshot.scratch.attemptSeq
          (placing st.exchange.unreachable st.exchange.placed rest)) := by
        show s.run (registering _ (placing _ _ (t :: rest))) = _
        rw [placing, if_pos hreach]
      rw [hu, Task.run_bind_ok hrun, Task.run_bind_ok hrun', dialed_dialed]
      rw [dialed_dialed] at hserved'
      exact ⟨_, db', n', _, rfl, hserved.trans rfl hserved'⟩
    · obtain ⟨db, rs, hrun, hserved⟩ := served_placeLeg h hroot hnumber hapart hup hc hreach
      obtain ⟨k, hdb⟩ := hserved.holds
      have hregistered := Segment.after_rootSid s (.register snapshot.scratch.attemptSeq st.exchange.nextLeg t)
      obtain ⟨ids, db', n', rs', hrun', hserved'⟩ := run_placeLegsFor rest (dialed st db (st.exchange.placed + 1) rs)
        _ hdb (hroot.trans hregistered.symm) (hnumber.trans (Segment.after_number s _).symm) (hserved.apart.revised k)
        hup rfl
      rw [Segment.run_revised] at hserved'
      have hu : u = (s.after (.register snapshot.scratch.attemptSeq st.exchange.nextLeg t)).run
          (registering snapshot.scratch.attemptSeq
            (placing st.exchange.unreachable (st.exchange.placed + 1) rest)) := by
        show s.run (registering _ (placing _ _ (t :: rest))) = _
        rw [placing, if_neg hreach]
        rfl
      rw [hu, Task.run_bind_ok hrun, Task.run_bind_ok hrun', dialed_dialed]
      rw [dialed_dialed] at hserved'
      exact ⟨_, db', n', _, rfl, hserved.trans hregistered hserved'⟩

/-- **What the agents' dialing comes to** on a segment that nobody else writes: the legs are registered and the dialing is
noted as finished, if the end that this may put to the segment fits its column. -/
theorem served_dialAgents (h : st.store.Holds s) (hapart : st.Apart s) (hup : st.isUp = true) (hc : st.conflicts = 0) :
    let u := s.run (registering s.scratch.attemptSeq
      (placing st.exchange.unreachable st.exchange.placed s.scratch.targets))
    let b := Act.finish s.scratch.attemptSeq st.now
    ((u.after b).duration.all Store.fits = true →
      Served st ((dialAgents s).run st).2 s (u.after b) (u.effect b).decision.toList.length) ∧
    ((u.after b).duration.all Store.fits = false → Served st ((dialAgents s).run st).2 s u 0) := by
  intro u b
  obtain ⟨ids, db, n, rs, hrun, hserved⟩ :=
    run_placeLegsFor s.scratch.targets st s h rfl rfl hapart hup hc
  obtain ⟨k, hdb⟩ := hserved.holds
  have hroot : u.rootSid = s.rootSid := Segment.run_rootSid s _
  have hrun' : ((dialAgents s).run st).2 =
      ((finishDialing s.rootSid s.number s.scratch.attemptSeq).run (dialed st db n rs)).2 := by
    have hdiscard : (discard (placeLegs s)).run st = (.ok (), dialed st db n rs) := Task.run_bind_ok hrun
    rw [dialAgents, Task.run_bind_ok hdiscard]
  have hnumber : (u.revised k).number = s.number := Segment.run_number s _
  have hfinish := served_finishDialing hdb (h.rooted.trans hroot.symm) (hserved.apart.revised k) s.scratch.attemptSeq
  rw [hnumber, ServesAct, Segment.after_revised, Segment.effect_revised] at hfinish
  rw [hrun']
  constructor
  · intro hfits
    have hend := hfinish.1 ⟨hup, .inr ⟨Nat.succ_pos 4, hfits⟩⟩
    have := hserved.trans hroot hend
    rwa [Nat.zero_add] at this
  · intro hfits
    refine hserved.trans hroot (hfinish.2 fun htakes => ?_)
    rcases htakes.2 with heq | ⟨-, hfits'⟩
    · have hsame : ((u.after b).revised k).duration = (u.revised k).duration := congrArg Segment.duration heq
      have hrange : u.duration.all Store.fits = true := hdb.inRange
      exact absurd (hfits.symm.trans ((congrArg (Option.all Store.fits) hsame).trans hrange)) Bool.false_ne_true
    · exact absurd (hfits.symm.trans hfits') Bool.false_ne_true

/-- **The agents are dialed exactly by the first join of an attempt** that no transfer has opened. -/
theorem dials_iff (s : Segment) (seq : Option Int) (conferenceSid : Option String) :
    (s.effect (.callerJoins seq conferenceSid)).dials = true ↔
      s.scratch.isOther seq = false ∧ s.scratch.dialed = false ∧ s.scratch.agentDialedFromTransfer = false := by
  simp only [Segment.effect, Segment.perform, Segment.callerJoined]
  cases s.scratch.isOther seq
  · cases hd : s.scratch.dialed <;> cases ha : s.scratch.agentDialedFromTransfer <;>
      cases Flow.given conferenceSid <;> simp [hd, ha]
  · simp

theorem scratch_of_dials {s : Segment} {seq : Option Int} {conferenceSid : Option String}
    (h : (s.effect (.callerJoins seq conferenceSid)).dials = true) :
    (s.after (.callerJoins seq conferenceSid)).scratch = { s.scratch with dialed := true } := by
  obtain ⟨h1, h2, h3⟩ := (dials_iff s seq conferenceSid).1 h
  rw [Segment.scratch_after_callerJoins, h1, h2, h3]
  rfl

/-- Behind its change the caller's join dials the agents or nothing. -/
theorem run_callerJoined {number : Int} {seq : Option Int} {conferenceSid : Option String} {t : Segment} {dials : Bool}
    {st₁ : State} (h : (mutate sid number none (Segment.callerJoined seq conferenceSid)).run st =
      (.ok (some (t, dials)), st₁)) :
    ((callerJoined sid number seq conferenceSid).run st).2 = if dials then ((dialAgents t).run st₁).2 else st₁ := by
  unfold callerJoined
  rw [Task.run_bind_ok h]
  cases dials <;> rfl

/-- **What the caller's join comes to.**  The agents are dialed where the join is the first of its attempt. -/
theorem served_callerJoined (h : st.store.Holds s) (hsid : Naming.root sid = s.rootSid) (hapart : st.Apart s)
    (seq : Option Int) (conferenceSid : Option String) :
    let st' := ((callerJoined sid s.number seq conferenceSid).run st).2
    let a := Act.callerJoins seq conferenceSid
    let u := (s.after a).run (registering s.scratch.attemptSeq
      (placing st.exchange.unreachable st.exchange.placed s.scratch.targets))
    let b := Act.finish s.scratch.attemptSeq st.now
    (¬ st.takes s (s.after a) → Served st st' s s 0) ∧
    (st.takes s (s.after a) → (s.effect a).dials = false → Served st st' s (s.after a) 0) ∧
    (st.takes s (s.after a) → (s.effect a).dials = true → (u.after b).duration.all Store.fits = true →
      Served st st' s (u.after b) (u.effect b).decision.toList.length) ∧
    (st.takes s (s.after a) → (s.effect a).dials = true → (u.after b).duration.all Store.fits = false →
      Served st st' s u 0) := by
  intro st' a u b
  have hf := Segment.isChange_callerJoined seq conferenceSid
  rcases mutate_cases hf h hsid with ⟨db, k, c, hrun, hdb, htakes, hc⟩ | ⟨db, k, c, e, hrun, hdb, hno⟩
  · have hapart' := hapart.after (a := a) List.not_mem_nil
    have hserved : Served st { st with store := db, conflicts := c } s (s.after a) 0 :=
      ⟨⟨k, hdb⟩, rfl, ⟨hapart'.pending, hapart'.coming⟩⟩
    have hdialed : (s.effect a).dials = true →
        ((u.after b).duration.all Store.fits = true →
          Served st st' s (u.after b) (u.effect b).decision.toList.length) ∧
        ((u.after b).duration.all Store.fits = false → Served st st' s u 0) := by
      intro hdial
      have hscratch := scratch_of_dials hdial
      have hc0 : c = 0 := by
        rw [hc]
        refine if_neg fun heq => ?_
        have hsame : (s.after a).scratch.dialed = s.scratch.dialed := congrArg (fun t => t.scratch.dialed) heq
        rw [hscratch, ((dials_iff s seq conferenceSid).1 hdial).2.1] at hsame
        cases hsame
      have hst : st' = ((dialAgents ((s.after a).revised k)).run { st with store := db, conflicts := c }).2 :=
        (run_callerJoined hrun).trans (if_pos hdial)
      obtain ⟨hok, hrefused⟩ := @served_dialAgents { st with store := db, conflicts := c } ((s.after a).revised k) hdb
        (hserved.apart.revised k) htakes.1 hc0
      have hseq : ((s.after a).revised k).scratch.attemptSeq = s.scratch.attemptSeq := by
        rw [Segment.revised_scratch, hscratch]
      have htargets : ((s.after a).revised k).scratch.targets = s.scratch.targets := by
        rw [Segment.revised_scratch, hscratch]
      rw [hseq, htargets, Segment.run_revised, Segment.after_revised] at hok hrefused
      rw [Segment.effect_revised] at hok
      rw [hst]
      refine ⟨fun hfits => ?_, fun hfits => ?_⟩
      · have := hserved.trans (Segment.after_rootSid s a) (hok hfits)
        rwa [Nat.zero_add] at this
      · exact hserved.trans (Segment.after_rootSid s a) (hrefused hfits)
    refine ⟨fun hno => absurd htakes hno, ?_, ?_, ?_⟩
    · intro _ hdial
      have hst : st' = { st with store := db, conflicts := c } :=
        (run_callerJoined hrun).trans (if_neg (Bool.eq_false_iff.1 hdial))
      rw [hst]
      exact hserved
    · intro _ hdial
      exact (hdialed hdial).1
    · intro _ hdial
      exact (hdialed hdial).2
  · refine ⟨fun _ => ?_, fun ht => absurd ht hno, fun ht => absurd ht hno, fun ht => absurd ht hno⟩
    have hst : st' = { st with store := db, conflicts := c } := congrArg Prod.snd (Task.run_bind_error hrun)
    rw [hst]
    exact ⟨⟨k, hdb⟩, rfl, ⟨hapart.pending, hapart.coming⟩⟩

end Work

end Switchboard
