import Switchboard.Proofs.Service.Dialing
import Switchboard.Proofs.Service.Manners
/-!
# The legs that are asked for

Legs are placed in two places only: the join of the caller dials the agents of an attempt, and a transfer dials the agent
of the segment that it opens.  Whatever else serves an event keeps to a manner that asks for no leg (`undialing`).  Where
nobody else writes, dialing asks for one leg for each target, in order, whether the provider can reach it or not
(`run_placeLegsFor_dials`).
-/
namespace Switchboard

open Provider (Request)
open Segment (Act)
open Manner (Makes)
open Relation (ReflTransGen)

namespace State

/-- The legs that the telephone provider was asked to place, in order. -/
def dials (st : State) : List Provider.Leg := st.requests.filterMap Request.leg?

theorem dials_eq (st : State) : st.dials = st.orders.filterMap Request.leg? := by
  have horder (r : Request) : (if r.isOrder = true then r.leg? else none) = r.leg? := by
    cases r <;> rfl
  unfold dials orders
  rw [List.filterMap_filter]
  simp only [horder]

theorem dials_append (st : State) (rs : List Request) :
    dials { st with requests := st.requests ++ rs } = st.dials ++ rs.filterMap Request.leg? :=
  List.filterMap_append

/-- A segment is stored, and nobody else writes. -/
structure Calm (st : State) (root : String) (number : Int) : Prop where
  held : ∃ s, st.store.Holds s ∧ s.rootSid = root ∧ s.number = number
  up : st.isUp = true
  alone : st.conflicts = 0

end State

/-! ## What asks for no leg -/

/-- The manner of work that asks for no leg. -/
def undialing : Manner where
  rely _ _ := True
  guar st st' := st'.dials = st.dials
  inv _ := True
  lasts _ _ := trivial
  aside {st st'} h := by rw [st.dials_eq, st'.dials_eq, h.orders]
  contends _ _ _ := rfl

theorem undialing_mutates : undialing.Mutates := Manner.mutates_of_writes fun _ _ _ => rfl

theorem undialing_updates : undialing.Updates := fun _ _ _ _ => rfl

theorem undialing_moves : undialing.Moves := by
  intro r hr st _
  show State.dials { st with requests := st.requests ++ [r] } = st.dials
  rw [State.dials_append, List.filterMap_cons_none hr, List.filterMap_nil, List.append_nil]

/-- **Work that asks for no leg** has asked for none when it is run. -/
theorem Task.Upholds.dials {α : Type} {t : Work α} {rely : State → State → Prop} {post : Except Fault α → State → Prop}
    {st : State} (h : t.Upholds (State.terms rely fun st st' => st'.dials = st.dials) post st)
    (hrefl : ∀ st, rely st st) : (t.run st).2.dials = st.dials := by
  obtain ⟨st', hst', hsteps, -⟩ := h.run hrefl
  have hsame {st' : State} (hsteps : ReflTransGen (fun a b : State => b.dials = a.dials) st st') :
      st'.dials = st.dials := by
    induction hsteps with
    | refl => rfl
    | tail _ hstep ih => exact hstep.trans ih
  exact hst' ▸ hsame hsteps

theorem Manner.Makes.dials {α : Type} {t : Work α} {P : α → Prop} (h : undialing.Makes t P) (st : State) :
    (t.run st).2.dials = st.dials :=
  (h.upholds st trivial).dials fun _ => trivial

namespace Work

variable {st : State} {s snapshot : Segment} {sid : String}

/-! ## Dialing -/

theorem run_placeLeg_dials (h : st.Calm snapshot.rootSid snapshot.number) (t : DialTarget) :
    ∃ ids st', (placeLeg snapshot t).run st = (.ok ids, st') ∧ st'.Calm snapshot.rootSid snapshot.number ∧
      st'.settings = st.settings ∧ st'.dials = st.dials ++ [st.legFor snapshot t] := by
  obtain ⟨s, hs, hroot, hnumber⟩ := h.held
  by_cases hreach : st.exchange.unreachable.contains (addressOf t) = true
  · exact ⟨_, _, run_placeLeg_unreachable snapshot h.alone hreach, ⟨h.held, h.up, rfl⟩, rfl, st.dials_append _⟩
  · obtain ⟨db, k, rs, hrun, hdb, hrs⟩ := run_placeLeg_registered hs hroot.symm hnumber.symm h.up h.alone hreach
    have hf := Segment.isChange_registerLeg snapshot.scratch.attemptSeq st.exchange.nextLeg t
    have hends : rs.filterMap Request.leg? = [] := by
      refine List.filterMap_eq_nil_iff.2 fun r hr => ?_
      obtain ⟨done, rfl⟩ := hrs r hr
      rfl
    refine ⟨_, _, hrun, ⟨⟨_, hdb, (hf.rootSid_eq s).trans hroot, (hf.number_eq s).trans hnumber⟩, h.up, rfl⟩, rfl, ?_⟩
    exact (st.dials_append _).trans (congrArg (fun legs => st.dials ++ st.legFor snapshot t :: legs) hends)

/-- **Each target is dialed by asking for its leg**, in order. -/
theorem run_placeLegsFor_dials : ∀ (targets : List DialTarget) (st : State),
    st.Calm snapshot.rootSid snapshot.number →
    ∃ ids st', (placeLegsFor snapshot targets).run st = (.ok ids, st') ∧ st'.Calm snapshot.rootSid snapshot.number ∧
      st'.dials = st.dials ++ targets.map (st.legFor snapshot)
  | [], st, h => ⟨[], st, rfl, h, (List.append_nil _).symm⟩
  | t :: rest, st, h => by
    obtain ⟨ids, st₁, hrun, h₁, hsettings, hdials⟩ := run_placeLeg_dials h t
    obtain ⟨ids', st₂, hrun', h₂, hdials'⟩ := run_placeLegsFor_dials rest st₁ h₁
    have hleg : st₁.legFor snapshot = st.legFor snapshot := by
      funext u
      rw [State.legFor, State.legFor, hsettings]
    refine ⟨ids ++ ids', st₂, ?_, h₂, ?_⟩
    · rw [placeLegsFor, Task.run_bind_ok hrun, Task.run_bind_ok hrun']
      rfl
    · rw [hdials', hdials, hleg, List.map_cons, List.append_assoc, List.singleton_append]

theorem dials_dialAgents (h : st.Calm s.rootSid s.number) :
    ((dialAgents s).run st).2.dials = st.dials ++ s.scratch.targets.map (st.legFor s) := by
  obtain ⟨ids, st', hrun, -, hdials⟩ := run_placeLegsFor_dials s.scratch.targets st h
  have hdiscard : (discard (placeLegs s)).run st = (.ok (), st') := Task.run_bind_ok hrun
  have hfinish : undialing.Makes (finishDialing s.rootSid s.number s.scratch.attemptSeq) fun _ => True :=
    .finishDialing undialing_mutates undialing_moves _ _ _
  rw [dialAgents, Task.run_bind_ok hdiscard, hfinish.dials, hdials]

/-- **The join of a caller asks for one leg for each target**, in order, if it is the first of an attempt that no transfer
opened, and for none otherwise: whether the segment is open or closed. -/
theorem dials_callerJoined (h : st.store.Holds s) (hsid : Naming.root sid = s.rootSid) (hup : st.isUp = true)
    (hc : st.conflicts < mutateTries) (seq : Option Int) (conferenceSid : Option String) :
    ((callerJoined sid s.number seq conferenceSid).run st).2.dials = st.dials ++
      if (s.effect (.callerJoins seq conferenceSid)).dials then s.scratch.targets.map (st.legFor s) else [] := by
  obtain ⟨room, dialed, hafter⟩ := Segment.after_callerJoins_eq s seq conferenceSid
  have hf := Segment.isChange_callerJoined seq conferenceSid
  rcases mutate_cases hf h hsid with ⟨db, k, c, hrun, hdb, -, hconflicts⟩ | ⟨db, k, c, e, -, -, hno⟩
  · rw [run_callerJoined hrun]
    show State.dials (if (s.effect (.callerJoins seq conferenceSid)).dials = true then _ else _) = _
    cases hdials : (s.effect (.callerJoins seq conferenceSid)).dials with
    | false =>
      rw [if_neg Bool.false_ne_true, if_neg Bool.false_ne_true, List.append_nil]
      rfl
    | true =>
      have hne : (Segment.callerJoined seq conferenceSid s).1 ≠ s := by
        intro hsame
        have hnote := congrArg Scratch.dialed (scratch_of_dials hdials)
        have hundialed := ((dials_iff s seq conferenceSid).1 hdials).2.1
        rw [show s.after (.callerJoins seq conferenceSid) = s from hsame, hundialed] at hnote
        cases hnote
      rw [if_neg hne] at hconflicts
      have hcalm : State.Calm { st with store := db, conflicts := c } s.rootSid s.number :=
        ⟨⟨_, hdb, hf.rootSid_eq s, hf.number_eq s⟩, hup, hconflicts⟩
      have hdialed : ((dialAgents ((s.after (.callerJoins seq conferenceSid)).revised k)).run
          { st with store := db, conflicts := c }).2.dials = _ := dials_dialAgents (by rw [hafter]; exact hcalm)
      rw [if_pos rfl, if_pos rfl]
      refine hdialed.trans ?_
      rw [hafter]
      rfl
  · refine absurd ⟨hup, .inr ⟨hc, ?_⟩⟩ hno
    show (s.after (.callerJoins seq conferenceSid)).duration.all Store.fits = true
    rw [hafter]
    exact h.inRange

/-- **A transfer asks for one leg for each target** of the segment that it opened, in order. -/
theorem dials_connect (h : st.Calm s.rootSid s.number) :
    ((connect s).run st).2.dials = st.dials ++ s.scratch.targets.map (st.legFor s) := by
  unfold connect
  rw [Task.run_bind_ok (run_callbacks st)]
  have hmoved : ∃ done, (discard (redirectCall s.rootSid (holdResponse (.ofBase st.settings.baseUrl) s).render)).run st =
      (.ok (), { st with requests := st.requests ++
        [.redirect s.rootSid (holdResponse (.ofBase st.settings.baseUrl) s).render done] }) := ⟨_, rfl⟩
  obtain ⟨done, hmoved⟩ := hmoved
  rw [Task.run_bind_ok hmoved]
  obtain ⟨ids, st', hrun, -, hdials⟩ := @run_placeLegsFor_dials s s.scratch.targets
    { st with requests := st.requests ++
      [.redirect s.rootSid (holdResponse (.ofBase st.settings.baseUrl) s).render done] } ⟨h.held, h.up, h.alone⟩
  rw [State.dials_append] at hdials
  rw [placeLegs, Task.run_bind_ok hrun]
  have hrest : undialing.Makes (if ids.isEmpty then do
      let now ← now
      discard (updateCall s.id [.status (some .failed), .endedAt (some (.utc now)), .duration (some 0)])
      discard (terminateCall s.rootSid)
      Task.fail (.transfer .noLeg)
    else finishDialing s.rootSid s.number s.scratch.attemptSeq : Work Unit) fun _ => True := by
    split
    · refine (Makes.tame tame_now).bind fun now _ => (Makes.updateCall undialing_updates _ rfl).discard.bind fun _ _ => ?_
      exact (Makes.terminateCall fun _ => undialing_moves _ rfl).discard.bind fun _ _ => .fail _
    · exact .finishDialing undialing_mutates undialing_moves _ _ _
  rw [hrest.dials, hdials, List.filterMap_cons_none rfl, List.filterMap_nil, List.append_nil]
  rfl

end Work

end Switchboard
