import Switchboard.Proofs.Service.Placing
import Switchboard.Proofs.Store.DialedOnce
import Switchboard.Proofs.Web.LateReports
/-!
# Dialing for calls that are over

Of all that providers call back about, only the join of the caller has agents dialed.  Whether it does is a matter of the
attempt and not of the segment's status: a join that comes late dials the agents of a segment that was closed before, if it
is the first join of the current attempt (`only_first_joins_dial`).
-/
namespace Switchboard

open Web (Event Hook)
open Segment (Deed)
open Manner (Makes)
open Relation (ReflTransGen)

/-! ## Hooks that ask for no leg -/

theorem attends_undialing : undialing.Attends fun _ => True where
  mutates := undialing_mutates
  updates := undialing_updates
  moves := undialing_moves
  opens _ _ _ _ _ _ _ _ := rfl

/-- **No hook asks for a leg**, but for the join of a caller. -/
theorem makes_undialing (h : Hook Int) {e : Event}
    (hno : ∀ tenant sid number, h = .conference tenant sid number → ¬ e.joins sid) :
    undialing.Makes (h.run e) fun _ => True :=
  attends_undialing.hook h trivial fun tenant sid number hh hjoins => absurd hjoins (hno tenant sid number hh)

namespace Work

theorem run_quietly {α : Type} (t : Work α) (st : State) : ((quietly t).run st).2 = (t.run st).2 := by
  have hdiscard := Task.run_discard t st
  unfold quietly
  rw [Task.run_recover]
  split <;> rename_i hrun <;> rw [hrun] at hdiscard <;> exact hdiscard

theorem run_followed (r : Response) (t : Work Unit) (st : State) :
    ((Hook.run.followed r t).run st).2 = (t.run st).2 := by
  have hquietly := run_quietly t st
  unfold Hook.run.followed
  rw [Task.run_bind]
  split <;> rename_i hrun <;> rw [hrun] at hquietly <;> exact hquietly

theorem run_forOwnCall {st : State} {tenant sid : String} {owns : Bool}
    (howns : ((Web.ownsCall tenant sid).run st).1 = .ok owns) (t : Work Unit) :
    ((Web.forOwnCall tenant sid t).run st).2 = if owns then (t.run st).2 else st := by
  have hkept : ((Web.ownsCall tenant sid).run st).2 = st := by
    refine Task.run_bind_kept (Task.run_bind_kept ?_ fun row => ?_) fun _ => rfl
    · rw [run_statement]
      split
      · split
        · rename_i hdb
          split at hdb
          · cases hdb; rfl
          · cases hdb
        · rfl
      · rfl
    · cases row with
      | none => rfl
      | some row => exact Task.run_bind_kept (congrArg Prod.snd (Task.run_ofExcept _ _)) fun _ => rfl
  have hrun : (Web.ownsCall tenant sid).run st = (.ok owns, st) := Prod.ext howns hkept
  rw [Web.forOwnCall, run_quietly, Task.run_bind_ok hrun]
  cases owns <;> rfl

end Work

theorem Segment.dials_status (s : Segment) (status : Status) (d : Deed) :
    d.dials { s with status } = d.dials s := by
  rw [Bool.eq_iff_iff, dials_iff_joins, dials_iff_joins]

/-- **Agents are dialed by the first join of an attempt and by nothing else**, on a closed segment as on an open one.  No
other event that is reported asks for a leg, whatever goes on beside it, and no step of a flow does.  The join of the caller,
where the call is one of the tenant, asks for one leg for each target of the current attempt, in order, if it is the first
that carries the attempt's number, or none, and no transfer opened the segment; otherwise it asks for none.  The status of the
segment does not count: where it is closed the agents are dialed just so, for a call that is over. -/
theorem only_first_joins_dial (h : Hook Int) (e : Event) (st : State) :
    ((∀ tenant sid number, h = .conference tenant sid number → ¬ e.joins sid) →
      (h.run e).Upholds (State.terms (fun _ _ => True) fun st st' => st'.dials = st.dials) (fun _ _ => True) st) ∧
    (∀ (tenant sid : String) (s : Segment) (owns : Bool), h = .conference tenant sid s.number → e.joins sid →
      st.store.Holds s → Naming.root sid = s.rootSid → st.isUp = true → st.conflicts < Work.mutateTries →
        ((Web.ownsCall tenant sid).run st).1 = .ok owns →
          ((h.run e).run st).2.dials = st.dials ++
            if owns && Deed.dials s (.act (.callerJoins e.seq (e.form.last? "ConferenceSid"))) then
              s.scratch.targets.map (st.legFor s)
            else []) ∧
    ∀ (s : Segment) (status : Status) (d : Deed), d.dials { s with status } = d.dials s := by
  refine ⟨fun hno => Task.Upholds.mono (fun _ _ _ => trivial) ((makes_undialing h hno).upholds st trivial),
    fun tenant sid s owns hhook hjoins hheld hsid hup hc howns => ?_, Segment.dials_status⟩
  subst hhook
  have hevent : Web.conferenceEvent sid s.number e =
      Work.callerJoined sid s.number e.seq (e.form.last? "ConferenceSid") := by
    rw [Web.conferenceEvent, hjoins.1, hjoins.2]
    exact if_pos rfl
  have hrun : (((Hook.conference tenant sid s.number).run e).run st).2 =
      ((Web.forOwnCall tenant sid (Web.conferenceEvent sid s.number e)).run st).2 := Work.run_followed _ _ st
  have hjoined := Work.dials_callerJoined hheld hsid hup hc e.seq (e.form.last? "ConferenceSid")
  rw [hrun, Work.run_forOwnCall howns, hevent]
  cases owns with
  | false => exact (List.append_nil _).symm
  | true => exact hjoined

/-- The caller hangs up before the conference reports the caller's join: the segment is closed, and the join has the agent
dialed. -/
theorem agent_dialed_for_a_caller_who_hung_up :
    let target : DialTarget := ⟨.phone, "+15557654321", "+15557654321", none⟩
    let dial : Json :=
      .arr [.obj [("id", .str "d"), ("type", .str "dial"), ("config", .obj [("destination", .str "+15557654321")])]]
    let st₀ := { State.holding [] with
      store := { Store.empty with
        flows := [⟨"F", "T", "Main", none, true, false, .ok dial, .utc 0, .utc 0⟩]
        lines := [⟨"L", "T", "+15550199", none, true, true, some "F"⟩] }
      settings := { (State.holding []).settings with authToken := "secret" } }
    let form : List (String × String) := [("host", "localhost"), ("content-type", "application/x-www-form-urlencoded")]
    let incoming : Web.Request := ⟨.post, "/voice/incoming/T/L", "", form, "CallSid=CA1"⟩
    let hangUp : Web.Request := ⟨.post, "/voice/incoming/T/L/status", "", form, "CallSid=CA1&CallStatus=completed"⟩
    let st := ((Web.serve hangUp).run ((Web.serve incoming).run st₀).2).2
    let again : Event := ⟨[], [("CallSid", "CA1"), ("CallStatus", "completed")]⟩
    let join : Event := ⟨[("seq", "1")], [("CallSid", "CA1"), ("StatusCallbackEvent", "participant-join")]⟩
    st₀.store.calls = [] ∧ ReflTransGen State.Proceeds st₀ st ∧ st.dials = [] ∧
      (((Hook.incomingStatus "T" "L").run again).run st).2.dials = [] ∧
      ∃ s, st.store.Holds s ∧ s.number = 0 ∧ s.status = .completed ∧ s.isClosed = true ∧
        (((Hook.conference "T" "CA1" 0).run join).run st).2.dials = [st.legFor s target] := by
  intro target dial st₀ form incoming hangUp st again join
  have hnone : st₀.store.calls = [] := rfl
  have hproceeds : ReflTransGen State.Proceeds st₀ st :=
    .tail (.single (.alone st₀ (.request incoming (by decide +kernel)))) (.alone _ (.request hangUp (by decide +kernel)))
  have hbehind : (st.isUp = true ∧ st.conflicts = 0 ∧ st.dials = []) ∧
      ((Web.ownsCall "T" "CA1").run st).1.toOption = some true ∧
      (Store.chainOf "CA1" st.store).any (fun row => decide (row.segment.number = 0) &&
        row.read.toOption.any fun s => decide (s.status = .completed ∧ s.duration = some 0 ∧
          s.scratch.targets = [target] ∧ Deed.dials s (.act (.callerJoins (some 1) none)) = true)) = true := by
    decide +kernel
  have hst := State.chained_of_proceeds hnone hproceeds
  clear_value st
  obtain ⟨⟨hup, hconflicts, hdials⟩, howner, hfound⟩ := hbehind
  obtain ⟨row, hrow, hany⟩ := List.any_eq_true.1 hfound
  obtain ⟨hzero, hread⟩ := Bool.and_eq_true_iff.1 hany
  obtain ⟨s, hs⟩ := (hst.2 "CA1").legible row hrow
  rw [hs] at hread
  obtain ⟨hstatus, hduration, htargets, hfirst⟩ := of_decide_eq_true hread
  have hkey := CallRow.key_of_read hs
  have hroot : s.rootSid = "CA1" :=
    (congrArg Segment.Key.rootSid hkey).symm.trans (Store.mem_chainOf.1 hrow).2
  have hnumber : s.number = 0 := (congrArg Segment.Key.number hkey).symm.trans (of_decide_eq_true hzero)
  have hheld : st.store.Holds s := by
    have hrecords : st.store.Records s.rootSid s.number s := ⟨row, hroot ▸ hrow, congrArg Segment.Key.number hkey, hs⟩
    exact hrecords.holds hst.1 hst.2 (by rw [hnumber]; decide) (by rw [hduration]; decide)
  have howns : ((Web.ownsCall "T" "CA1").run st).1 = .ok true := by
    cases hres : ((Web.ownsCall "T" "CA1").run st).1 with
    | error e => rw [hres] at howner; cases howner
    | ok owns => rw [hres] at howner; exact congrArg Except.ok (Option.some.inj howner)
  have hquiet := ((only_first_joins_dial (.incomingStatus "T" "L") again st).1 fun _ _ _ h => nomatch h).dials
    fun _ => trivial
  have hjoined := (only_first_joins_dial (.conference "T" "CA1" s.number) join st).2.1 "T" "CA1" s true rfl ⟨rfl, rfl⟩ hheld
    (by rw [hroot]; decide +kernel) hup (by rw [hconflicts]; decide) howns
  have hseq : join.seq = some 1 := by decide +kernel
  have hconference : join.form.last? "ConferenceSid" = none := by decide +kernel
  rw [hseq, hconference, hfirst, hdials, htargets, hnumber] at hjoined
  exact ⟨hnone, hproceeds, hdials, hquiet.trans hdials, s, hheld, hnumber, hstatus, by rw [Segment.isClosed, hstatus]; rfl,
    hjoined⟩

end Switchboard
