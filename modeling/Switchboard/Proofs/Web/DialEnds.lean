import Switchboard.Proofs.Web.LateReports
import Switchboard.Proofs.Web.Resuming
import Switchboard.Proofs.Web.Superseding
/-!
# The end of a dial

When the caller is put through, the provider is given an address at which it reports that the caller's dial is over.  The
address tells the number of the attempt and nothing of its segment; whoever serves it looks for the newest segment of the
call.  The segments of a call number their attempts each from one on, so the report goes to the attempt of that number,
whichever segment is the newest by then (`end_of_dial_goes_by_number`).  Within one segment this tells the attempts apart,
as an attempt that is past is past for good.  Behind a transfer it does not: the report about the first attempt of the
segment that was closed ends the attempt that the transfer has opened.
-/
namespace Switchboard

open Store (Chained)
open Web (Event Hook afterDial continueFlow lineOf)

/-! ## The address -/

namespace Work.Attempt

variable {c : CallContext} {a : Attempt} {step : Nat} {branch : Option String} {seq : Int}

/-- The path at which the end of an attempt's dial is reported. -/
def dialPath (a : Attempt) (c : CallContext) : String :=
  "/voice/flow/" ++ c.tenantId ++ "/" ++ c.lineId ++ if a.type = .roundRobin then "" else "/dial-status"

/-- What is served there. -/
def dialHook (a : Attempt) (c : CallContext) : Hook Int :=
  if a.type = .roundRobin then .flow c.tenantId c.lineId else .dialStatus c.tenantId c.lineId

def dialFields (a : Attempt) (step : Nat) (branch : Option String) (seq : Int) : List Callbacks.Field :=
  if a.type = .roundRobin then
    (⟨step, some "round_robin", branch, some a.index, none, some seq⟩ : Callbacks.Position).fields
  else [Callbacks.int "step" (some step), ("branch", branch), Callbacks.int "seq" (some seq)]

def dialQuery (a : Attempt) (step : Nat) (branch : Option String) (seq : Int) : String :=
  Text.Percent.query Text.Percent.form (Callbacks.present (a.dialFields step branch seq))

/-- **The address of a dial's end**, in its parts: of the call it tells the tenant and the line, and nothing of the
segment. -/
theorem dialAction_eq (urls : Callbacks) (c : CallContext) (a : Attempt) (step : Nat) (branch : Option String) (seq : Int) :
    dialAction urls c a step branch seq = urls.base ++ a.dialPath c ++ "?" ++ a.dialQuery step branch seq := by
  unfold dialAction dialPath dialQuery dialFields
  split
  · rw [Callbacks.flow_eq, String.append_empty]
    rfl
  · exact urls.address_of_number _ List.mem_cons_self

theorem dialFields_names : ((a.dialFields step branch seq).map Prod.fst).Nodup := by
  unfold dialFields
  split
  · exact Callbacks.names_nodup _
  · show ["step", "branch", "seq"].Nodup
    decide

/-- **The number of the attempt is read back** at the address. -/
theorem seq_of_dialQuery (hseq : Text.Readable seq) {e : Event}
    (he : e.address = Text.Percent.fields (a.dialQuery step branch seq)) : e.seq = some seq := by
  have hmem : ("seq", some (toString seq)) ∈ a.dialFields step branch seq := by
    unfold dialFields
    split <;> simp [Callbacks.Position.fields, Callbacks.int]
  rw [Event.seq, Event.parameter?, he, dialQuery, Text.Percent.fields_query, Callbacks.last?_present dialFields_names hmem,
    Text.given_toString, Option.bind_some, Text.int?_toString hseq]

theorem action_of_dialQuery (ha : a.type = .roundRobin) {e : Event}
    (he : e.address = Text.Percent.fields (a.dialQuery step branch seq)) : e.address.given "action" = some "round_robin" := by
  rw [dialQuery, dialFields, if_pos ha] at he
  exact Web.given_action (p := ⟨step, some "round_robin", branch, some a.index, none, some seq⟩) he

end Work.Attempt

/-! ## On the segment -/

namespace Segment

variable {s : Segment} {seq : Int}

/-- A segment that takes a report of the end of a dial: its attempt has the number and is open, and nobody has answered. -/
structure TakesEnd (s : Segment) (seq : Int) : Prop where
  current : s.scratch.attemptSeq = seq
  unanswered : s.scratch.answeredLeg = none
  unmarked : s.wasAnswered = false
  unsettled : s.scratch.failureHandled = false

instance (s : Segment) (seq : Int) : Decidable (s.TakesEnd seq) :=
  decidable_of_iff (s.scratch.attemptSeq = seq ∧ s.scratch.answeredLeg = none ∧ s.wasAnswered = false ∧
    s.scratch.failureHandled = false)
    ⟨fun h => ⟨h.1, h.2.1, h.2.2.1, h.2.2.2⟩, fun h => ⟨h.current, h.unanswered, h.unmarked, h.unsettled⟩⟩

/-- **Where the end of a dial is taken the attempt fails**: the legs that ring are hung up and the decision is claimed. -/
theorem TakesEnd.dialEnds (h : s.TakesEnd seq) (now : Time.Instant) :
    (s.after (.dialEnds (some seq) now)).scratch.failureHandled = true ∧
      (s.effect (.dialEnds (some seq) now)).hangUps = s.scratch.pendingLegs ∧
      (s.effect (.dialEnds (some seq) now)).decision = some s.decisionAfterFailure := by
  have hmine : s.scratch.isOther (some seq) = false := by
    rw [Scratch.isOther, Option.any_some, h.current, bne_self_eq_false]
  have hopen : (s.scratch.answeredLeg.isSome || s.scratch.failureHandled) = false := by
    rw [h.unanswered, h.unsettled]
    rfl
  have htaken : ¬ (s.scratch.isOther (some seq) || s.scratch.answeredLeg.isSome || s.scratch.failureHandled) = true := by
    rw [Bool.or_assoc, hmine, hopen]
    exact Bool.false_ne_true
  have hexhausted : { s.scratch with pendingLegs := [], dialComplete := true }.isExhausted = true :=
    (isExhausted_iff _).2 ⟨rfl, rfl, h.unanswered⟩
  refine ⟨?_, by rw [hangUps_of_dialEnds, if_neg htaken], ?_⟩
  · rw [scratch_after_dialEnds, if_neg htaken]
    exact claimed_settled (by rw [claimed_isExhausted, hexhausted])
  · show (s.claimAfterDial (some seq) now).2.2 = _
    unfold claimAfterDial
    rw [if_neg (Bool.eq_false_iff.1 hmine), if_neg (Bool.eq_false_iff.1 hopen)]
    refine (claimFailure_decision _ now).trans (if_neg ?_)
    show ¬ (s.scratch.failureHandled || !{ s.scratch with pendingLegs := [], dialComplete := true }.isExhausted) = true
    rw [h.unsettled, hexhausted]
    exact Bool.false_ne_true

/-- **Where it is not, nothing happens.** -/
theorem claimAfterDial_of_not_takesEnd (h : ¬ s.TakesEnd seq) (hleg : s.scratch.answeredLeg = none)
    (hanswered : s.wasAnswered = false) (now : Time.Instant) : s.claimAfterDial (some seq) now = (s, [], none) := by
  by_cases hother : s.scratch.attemptSeq = seq
  · have hsettled : s.scratch.failureHandled = true := by
      rw [← Bool.not_eq_false]
      exact fun hopen => h ⟨hother, hleg, hanswered, hopen⟩
    unfold claimAfterDial
    rw [hsettled, Bool.or_true, if_pos rfl, ite_self]
  · exact claimAfterDial_of_other hother now

end Segment

/-! ## Served alone -/

namespace Web

/-- **Looking up the flow of a line** changes nothing. -/
theorem run_lineOf_kept (tenant line : String) (st : State) : ((lineOf tenant line).run st).2 = st := by
  have hfound : ((Work.lineFlow? line).run st).2 = st := by
    refine Task.run_bind_kept (Work.run_query_kept _ st) fun found => ?_
    rcases found with - | ⟨l, - | f⟩
    · rfl
    · rfl
    · refine Task.run_bind_kept (congrArg Prod.snd (Task.run_ofExcept _ st)) fun steps => ?_
      exact Task.run_bind_kept (congrArg Prod.snd (Task.run_ofExcept _ st)) fun _ => rfl
  exact Task.run_bind_kept hfound fun _ => rfl

/-- What a caller is answered whose attempt has failed. -/
def answerOf (urls : Callbacks) (d : Decision) : Response :=
  match Work.decisionAddress urls d with
  | some url => .redirect url
  | none => .hangup

section AfterDial

variable {st : State} {tenant : String} {e : Event} {row : CallRow} {s : Segment} {seq : Int}
  (hup : st.isUp = true) (hrow : st.store.latestRow (Naming.root e.sid) (some tenant) = some row)
  (hread : row.read = .ok s) (hstored : st.store.Holds s) (hseq : e.seq = some seq)
include hup hrow hread hstored hseq

theorem run_afterDial_of_not_takesEnd (h : ¬ s.TakesEnd seq) : (afterDial tenant e).run st = (.ok .hangup, st) := by
  unfold afterDial
  rw [Task.run_bind_ok (Work.run_latest? hup hrow hread)]
  dsimp only
  split
  · rfl
  · rename_i hopen
    rw [Bool.or_eq_true, not_or, Option.not_isSome_iff_eq_none, Bool.not_eq_true] at hopen
    have hnothing := Segment.claimAfterDial_of_not_takesEnd h hopen.1 hopen.2 st.now
    have hmutate := Work.run_mutate_of_kept (f := Segment.claimAfterDial (some seq) st.now) hstored
      (Store.records_of_latest hrow hread).1 hup (congrArg Prod.fst hnothing)
    rw [hnothing] at hmutate
    have hclaim : (Work.claimAfterDial e.sid s.number e.seq).run st = (.ok none, st) := by
      rw [hseq]
      exact Task.run_bind_ok hmutate
    exact Task.run_bind_ok hclaim

/-- **Where the newest segment takes the end of a dial** its legs are hung up and its decision is carried out. -/
theorem run_afterDial_of_takesEnd (h : s.TakesEnd seq) (htakes : st.takes s (s.after (.dialEnds (some seq) st.now))) :
    ∃ db k c, db.Holds ((s.after (.dialEnds (some seq) st.now)).revised k) ∧
      (afterDial tenant e).run st = (.ok (answerOf (.ofBase st.settings.baseUrl) s.decisionAfterFailure),
        State.hangUp { st with store := db, conflicts := c } s.scratch.pendingLegs) := by
  obtain ⟨-, hhang, hdecision⟩ := h.dialEnds st.now
  rcases run_claimAfterDial hstored (Store.records_of_latest hrow hread).1 (some seq) with
    ⟨db, k, n, hdb, hclaim⟩ | ⟨-, hno⟩
  · rw [hhang, hdecision] at hclaim
    refine ⟨db, k, n, hdb, ?_⟩
    unfold afterDial answerOf
    rw [Task.run_bind_ok (Work.run_latest? hup hrow hread)]
    dsimp only
    rw [h.unanswered, h.unmarked, if_neg (by exact Bool.false_ne_true), hseq, Task.run_bind_ok hclaim]
    dsimp only
    rw [Task.run_bind_ok (Work.run_callbacks _)]
    show Task.run (match Work.decisionAddress (.ofBase st.settings.baseUrl) s.decisionAfterFailure with
      | some url => pure (.redirect url)
      | none => pure .hangup : Work Response) _ = _
    split <;> rfl
  · exact absurd htakes hno

end AfterDial

theorem run_answer {fallback r : Response} {t : Work Response} {st st' : State} (h : t.run st = (.ok r, st')) :
    (Hook.run.answer (orElse fallback t)).run st = (.ok (.ofVerbs r), st') := by
  have hrecover : (orElse fallback t).run st = (.ok r, st') := by
    rw [orElse, Task.run_recover, h]
  exact Task.run_bind_ok hrecover

end Web

section Hook

variable {c : CallContext} {a : Work.Attempt} {step : Nat} {branch : Option String} {seq : Int} {e : Event} {st st' : State}

/-- What the end of an attempt's dial is reported to is there: where it is the flow, the line has one. -/
def Work.Attempt.Served (a : Attempt) (c : CallContext) (st : State) : Prop :=
  a.type = .roundRobin → ∃ l, ((lineOf c.tenantId c.lineId).run st).1 = .ok (some l) ∧ (Flow.given l.flowId).isSome = true

variable (he : e.address = Text.Percent.fields (a.dialQuery step branch seq))
include he

theorem Web.run_dialHook {r : Response} (hserved : a.Served c st) (h : (afterDial c.tenantId e).run st = (.ok r, st')) :
    ((a.dialHook c).run e).run st = (.ok (.ofVerbs r), st') := by
  unfold Work.Attempt.dialHook
  split
  · rename_i ha
    obtain ⟨l, hl, hflow⟩ := hserved ha
    have hline : (lineOf c.tenantId c.lineId).run st = (.ok (some l), st) := Prod.ext hl (run_lineOf_kept _ _ st)
    refine run_answer (t := continueFlow c.tenantId c.lineId e) ?_
    rw [run_continueFlow_dialEnded hline hflow (Work.Attempt.action_of_dialQuery ha he), h]
  · exact run_answer h

/-- **Where the end of a dial changes nothing** the caller is led nowhere, also where the line has no flow any more. -/
theorem Web.run_dialHook_of_kept (h : (afterDial c.tenantId e).run st = (.ok .hangup, st)) :
    ∃ r, ((a.dialHook c).run e).run st = (.ok (.ofVerbs r), st) ∧ r.continuations = [] := by
  by_cases hserved : a.Served c st
  · exact ⟨.hangup, run_dialHook he hserved h, rfl⟩
  · obtain ⟨ha, hlost⟩ := Classical.not_imp.1 hserved
    refine ⟨.unavailable, ?_, rfl⟩
    rw [Work.Attempt.dialHook, if_pos ha]
    have hkept := run_lineOf_kept c.tenantId c.lineId st
    cases hrun : (lineOf c.tenantId c.lineId).run st with
    | mk found st' =>
      rw [hrun] at hkept hlost
      cases hkept
      rcases found with f | - | l
      · have hfails : (continueFlow c.tenantId c.lineId e).run st' = (.error f, st') := Task.run_bind_error hrun
        have hrecover : (orElse .unavailable (continueFlow c.tenantId c.lineId e)).run st' = (.ok .unavailable, st') := by
          rw [orElse, Task.run_recover, hfails]
          rfl
        exact Task.run_bind_ok hrecover
      · exact run_answer (Task.run_bind_ok hrun)
      · have hflow : (Flow.given l.flowId).isNone = true := by
          rw [Option.isNone_iff_eq_none, ← Option.not_isSome_iff_eq_none]
          exact fun hflow => hlost ⟨l, rfl, hflow⟩
        refine run_answer (t := continueFlow c.tenantId c.lineId e) ?_
        unfold continueFlow
        rw [Task.run_bind_ok hrun]
        dsimp only
        rw [if_pos hflow]
        rfl

end Hook

/-- **An attempt that a step makes** is started on the segment of the call. -/
theorem Work.run_bridge_starts {c : CallContext} {st : State} {s : Segment} (h : st.store.Holds s)
    (hsid : Naming.root c.callSid = s.rootSid) (hnumber : c.segmentNumber = s.number) (hup : st.isUp = true)
    (hconflicts : st.conflicts < mutateTries) (a : Attempt) (step : Nat) (branch : Option String) :
    ∃ callerId db k n b, db.Holds ((s.after (.start
        ⟨c.flowId, some c.lineId, some step, branch, a.index, some a.type.name, a.destinationCount⟩ a.targets callerId
        a.timeout a.record)).revised k) ∧
      (bridge c a step branch).run st = (.ok (.stop [.bridge b]), { st with store := db, conflicts := n }) ∧
      b.action = some (dialAction (.ofBase st.settings.baseUrl) c a step branch (s.scratch.attemptSeq + 1)) := by
  unfold bridge
  rw [hnumber]
  dsimp only
  obtain ⟨db, k, n, hrun, hdb⟩ := run_prepareAttempt h hsid
    ⟨c.flowId, some c.lineId, some step, branch, a.index, some a.type.name, a.destinationCount⟩ a.targets
    (match Flow.given a.callerId with
      | some n => some n
      | none => c.toNumber) a.timeout a.record ⟨hup, .inr ⟨hconflicts, h.inRange⟩⟩
  exact ⟨_, db, k, n, _, hdb, (Task.run_bind_ok hrun).trans rfl, rfl⟩

/-- **An attempt that a step makes** gets the next number of its segment, and the address of its dial's end tells it. -/
theorem Work.run_bridge {c : CallContext} {st : State} {s : Segment} (h : st.store.Holds s)
    (hsid : Naming.root c.callSid = s.rootSid) (hnumber : c.segmentNumber = s.number) (hup : st.isUp = true)
    (hconflicts : st.conflicts < mutateTries) (a : Attempt) (step : Nat) (branch : Option String) :
    ∃ st' t b, (bridge c a step branch).run st = (.ok (.stop [.bridge b]), st') ∧ st'.store.Holds t ∧
      t.number = s.number ∧ t.scratch.attemptSeq = s.scratch.attemptSeq + 1 ∧
      b.action = some (dialAction (.ofBase st.settings.baseUrl) c a step branch t.scratch.attemptSeq) := by
  obtain ⟨callerId, db, k, n, b, hdb, hrun, haction⟩ := run_bridge_starts h hsid hnumber hup hconflicts a step branch
  exact ⟨_, _, b, hrun, hdb, rfl, rfl, haction⟩

/-- **An attempt that is past** is not mistaken for a later one of its segment. -/
theorem State.Past.not_takesEnd {st : State} {sid : String} {number seq : Int} (h : st.Past sid number seq)
    (hst : Chained st.store) {tenant : Option String} {row : CallRow} {s : Segment}
    (hrow : st.store.latestRow (Naming.root sid) tenant = some row) (hread : row.read = .ok s) (hnumber : s.number = number) :
    ¬ s.TakesEnd seq := by
  obtain ⟨t, ht, hlt⟩ := h
  have hs := (Store.records_of_latest hrow hread).2
  rw [hnumber] at hs
  cases ht.eq hst hs
  exact fun htakes => absurd htakes.current (Int.ne_of_gt hlt)

/-- **Behind a transfer the newest segment takes the end of the first dial**: of its own, and of every other segment. -/
theorem Store.takesEnd_of_handOver {db db' : Store} {active : Segment} {h : Handover} {m : Member} {now : Time.Instant}
    {rows : CallRow × CallRow} (hok : db.handOver active h (Work.transferScratch active m) now = .ok (rows, db'))
    (hchained : Chained db') :
    ∃ t, rows.2.read = .ok t ∧ t.number = db.nextNumber active.rootSid ∧
      db'.latestRow active.rootSid (some active.tenantId) = some rows.2 ∧ t.TakesEnd 1 := by
  obtain ⟨closed, opened⟩ := rows
  obtain ⟨r, s, -, -, -, -, -, hinsert⟩ := handOver_eq_ok hok
  obtain ⟨-, rfl, rfl⟩ := insertCall_eq_ok hinsert
  refine ⟨_, rfl, rfl, ?_, ⟨rfl, rfl, rfl, rfl⟩⟩
  refine latestRow_of_open (hchained active.rootSid) (mem_chainOf.2 ⟨?_, rfl⟩) rfl ?_
  · exact List.mem_append_right _ List.mem_cons_self
  · exact decide_eq_true rfl

/-! ## Which attempt a report ends -/

/-- A report of the end of an attempt's dial about a call whose newest segment is `s`. -/
structure DialReport (c : CallContext) (a : Work.Attempt) (step : Nat) (branch : Option String) (seq : Int) (e : Event)
    (st : State) (s : Segment) : Prop where
  address : e.address = Text.Percent.fields (a.dialQuery step branch seq)
  up : st.isUp = true
  newest : ∃ row, st.store.latestRow (Naming.root e.sid) (some c.tenantId) = some row ∧ row.read = .ok s
  stored : st.store.Holds s

namespace DialReport

variable {c : CallContext} {a : Work.Attempt} {step : Nat} {branch : Option String} {seq : Int} {e : Event} {st : State}
  {s : Segment}

/-- **A report about a call that the service has** is one about the newest segment of its chain. -/
theorem of_proceeds {st₀ : State} {row : CallRow} (hnone : st₀.store.calls = [])
    (h : Relation.ReflTransGen State.Proceeds st₀ st)
    (he : e.address = Text.Percent.fields (a.dialQuery step branch seq)) (hup : st.isUp = true)
    (hrow : st.store.latestRow (Naming.root e.sid) (some c.tenantId) = some row) (hread : row.read = .ok s)
    (hfits : Store.fits s.number = true) (hrange : s.duration.all Store.fits = true) :
    DialReport c a step branch seq e st s := by
  obtain ⟨hidentified, hchained⟩ := State.chained_of_proceeds hnone h
  obtain ⟨hsid, hrecords⟩ := Store.records_of_latest hrow hread
  rw [hsid] at hrecords
  exact ⟨he, hup, ⟨row, hrow, hread⟩, hrecords.holds hidentified hchained hfits hrange⟩

variable (hseq : Text.Readable seq) (h : DialReport c a step branch seq e st s)
include hseq h

theorem run_of_not_takesEnd (hno : ¬ s.TakesEnd seq) :
    ∃ r, ((a.dialHook c).run e).run st = (.ok (.ofVerbs r), st) ∧ r.continuations = [] := by
  obtain ⟨he, hup, ⟨row, hrow, hread⟩, hstored⟩ := h
  exact Web.run_dialHook_of_kept he (Web.run_afterDial_of_not_takesEnd hup hrow hread hstored
    (Work.Attempt.seq_of_dialQuery hseq he) hno)

variable (hserved : a.Served c st) (hstores : st.takes s (s.after (.dialEnds (some seq) st.now)))
include hserved hstores

theorem run_of_takesEnd (htakes : s.TakesEnd seq) :
    ∃ db k n, db.Holds ((s.after (.dialEnds (some seq) st.now)).revised k) ∧
      ((a.dialHook c).run e).run st = (.ok (.ofVerbs (Web.answerOf (.ofBase st.settings.baseUrl) s.decisionAfterFailure)),
        State.hangUp { st with store := db, conflicts := n } s.scratch.pendingLegs) := by
  obtain ⟨he, hup, ⟨row, hrow, hread⟩, hstored⟩ := h
  obtain ⟨db, k, n, hdb, hrun⟩ := Web.run_afterDial_of_takesEnd hup hrow hread hstored
    (Work.Attempt.seq_of_dialQuery hseq he) htakes hstores
  exact ⟨db, k, n, hdb, Web.run_dialHook he hserved hrun⟩

/-- **A report changes something** exactly where the newest segment takes it. -/
theorem changes_iff : (((a.dialHook c).run e).run st).2 ≠ st ↔ s.TakesEnd seq := by
  by_cases htakes : s.TakesEnd seq
  · obtain ⟨db, k, n, hdb, hrun⟩ := h.run_of_takesEnd hseq hserved hstores htakes
    refine iff_of_true (fun hsame => ?_) htakes
    rw [hrun] at hsame
    -- the store would hold the segment as it was and as it is behind the report
    have hstore : db = st.store := congrArg State.store hsame
    rw [hstore] at hdb
    have hstill := Store.eq_of_stored h.stored.stored hdb.stored (Segment.after_rootSid s _) (Segment.after_number s _)
    have hunsettled : (s.after (.dialEnds (some seq) st.now)).scratch.failureHandled = false :=
      (congrArg (fun u => u.scratch.failureHandled) hstill).trans htakes.unsettled
    rw [(htakes.dialEnds st.now).1] at hunsettled
    cases hunsettled
  · obtain ⟨r, hrun, -⟩ := h.run_of_not_takesEnd hseq htakes
    rw [hrun]
    exact iff_of_false (fun hne => hne rfl) htakes

end DialReport

/-- What becomes of the end of a dial that is reported at the address which was given for an attempt of a segment. -/
structure DialEnd (c : CallContext) (a : Work.Attempt) (step : Nat) (branch : Option String) (seq : Int) : Prop where
  /-- The address tells the tenant and the line of the call and the number of the attempt. -/
  addressed : ∀ urls, Work.dialAction urls c a step branch seq =
    urls.base ++ a.dialPath c ++ "?" ++ a.dialQuery step branch seq
  /-- It was given for the attempt with that number, of the segment that the flow was at. -/
  given : ∀ (st : State) (s : Segment), st.store.Holds s → Naming.root c.callSid = s.rootSid → c.segmentNumber = s.number →
    st.isUp = true → st.conflicts < Work.mutateTries → s.scratch.attemptSeq + 1 = seq →
      ∃ st' t b, (Work.bridge c a step branch).run st = (.ok (.stop [.bridge b]), st') ∧ st'.store.Holds t ∧
        t.number = c.segmentNumber ∧ t.scratch.attemptSeq = seq ∧
        b.action = some (Work.dialAction (.ofBase st.settings.baseUrl) c a step branch seq)
  /-- Where the newest segment does not take the report nothing changes, and the caller is led nowhere. -/
  passedOver : ∀ e st s, DialReport c a step branch seq e st s → ¬ s.TakesEnd seq →
    ∃ r, ((a.dialHook c).run e).run st = (.ok (.ofVerbs r), st) ∧ r.continuations = []
  /-- Where it does, its attempt fails: the decision is claimed and carried out, and the legs that ring are hung up. -/
  taken : ∀ e st s, DialReport c a step branch seq e st s → a.Served c st → s.TakesEnd seq →
    let t := s.after (.dialEnds (some seq) st.now)
    st.takes s t → t.scratch.failureHandled = true ∧ ∃ db k n, db.Holds (t.revised k) ∧
      ((a.dialHook c).run e).run st = (.ok (.ofVerbs (Web.answerOf (.ofBase st.settings.baseUrl) s.decisionAfterFailure)),
        State.hangUp { st with store := db, conflicts := n } s.scratch.pendingLegs)
  /-- So a report ends another attempt than the one that it was given for where the newest segment is another one by then
  and its attempt has the same number, and nowhere else. -/
  mistaken : ∀ e st s, DialReport c a step branch seq e st s → a.Served c st →
    st.takes s (s.after (.dialEnds (some seq) st.now)) → s.number ≠ c.segmentNumber ∨ s.scratch.attemptSeq ≠ seq →
      ((((a.dialHook c).run e).run st).2 ≠ st ↔ s.number ≠ c.segmentNumber ∧ s.TakesEnd seq)
  /-- Once the attempt is past, its own segment never takes the report again, whatever goes on. -/
  past : ∀ (st₀ st st' : State), st₀.store.calls = [] → Relation.ReflTransGen State.Proceeds st₀ st →
    Relation.ReflTransGen State.Proceeds st st' → ∀ sid, st.Past sid c.segmentNumber seq →
      ∀ tenant row s, st'.store.latestRow (Naming.root sid) tenant = some row → row.read = .ok s →
        s.number = c.segmentNumber → ¬ s.TakesEnd seq
  /-- The segment that a transfer opens takes the reports that were meant for the first attempt of any other. -/
  handedOn : seq = 1 → ∀ (db db' : Store) (active : Segment) (h : Store.Handover) (m : Member) (now : Time.Instant) rows,
    db.handOver active h (Work.transferScratch active m) now = .ok (rows, db') → Chained db' →
      ∃ t, rows.2.read = .ok t ∧ t.number = db.nextNumber active.rootSid ∧
        db'.latestRow active.rootSid (some active.tenantId) = some rows.2 ∧ t.TakesEnd seq

/-- **The end of a dial goes by the number of the attempt**, and not by its segment. -/
theorem end_of_dial_goes_by_number (c : CallContext) (a : Work.Attempt) (step : Nat) (branch : Option String) {seq : Int}
    (hseq : Text.Readable seq) : DialEnd c a step branch seq where
  addressed urls := Work.Attempt.dialAction_eq urls c a step branch seq
  given st s hs hsid hnumber hup hconflicts hnext := by
    obtain ⟨st', t, b, hrun, ht, hnumber', hseq', haction⟩ :=
      Work.run_bridge hs hsid hnumber hup hconflicts a step branch
    rw [hnext] at hseq'
    exact ⟨st', t, b, hrun, ht, hnumber'.trans hnumber.symm, hseq', hseq' ▸ haction⟩
  passedOver _ _ _ h hno := h.run_of_not_takesEnd hseq hno
  taken _ st _ h hserved htakes hstores :=
    ⟨(htakes.dialEnds st.now).1, h.run_of_takesEnd hseq hserved hstores htakes⟩
  mistaken _ _ _ h hserved hstores hanother := by
    rw [h.changes_iff hseq hserved hstores]
    exact ⟨fun htakes => ⟨hanother.resolve_right fun hno => hno htakes.current, htakes⟩, And.right⟩
  past st₀ st st' hnone h h' sid hpast tenant row s hrow hread hnumber := by
    obtain ⟨hst', hpast'⟩ := State.past_of_proceeds h' (State.chained_of_proceeds hnone h) hpast
    exact hpast'.not_takesEnd hst'.2 hrow hread hnumber
  handedOn hone db db' active h m now rows hok hchained := by
    subst hone
    exact Store.takesEnd_of_handOver hok hchained

/-- The report of the end of the first dial comes when the call was transferred: the leg of the transfer is hung up, and
its segment fails. -/
theorem first_dial_ends_the_transfer :
    let target : DialTarget := ⟨.phone, "+15557654321", "+15557654321", none⟩
    let dial : Json :=
      .arr [.obj [("id", .str "d"), ("type", .str "dial"), ("config", .obj [("destination", .str "+15557654321")])]]
    let st₀ := { State.holding [] with
      store := { Store.empty with
        flows := [⟨"F", "T", "Main", none, true, false, .ok dial, .utc 0, .utc 0⟩]
        lines := [⟨"L", "T", "+15550199", none, true, true, some "F"⟩]
        users := [⟨"U", "u@example.org", none, none⟩]
        members := [⟨"M", "T", "U", true⟩] }
      settings := { (State.holding []).settings with authToken := "secret", apiKey := "key" } }
    let incoming : Web.Request := ⟨.post, "/voice/incoming/T/L", "",
      [("host", "localhost"), ("content-type", "application/x-www-form-urlencoded")], "CallSid=CA1"⟩
    let transfer : Web.Request := ⟨.post, "/api/tenants/T/calls/CA1/transfer", "",
      [("host", "localhost"), ("content-type", "application/json"), ("x-api-key", "key")],
      "\x7b\x22toUserId\x22: \x22M\x22\x7d"⟩
    let st := ((Web.serve transfer).run ((Web.serve incoming).run st₀).2).2
    let c : CallContext := ⟨"T", "L", "CA1", some "F", none, some "+15550199", 0, false⟩
    let a : Work.Attempt := ⟨.dial, [target], 0, 1, 30, none, false⟩
    let e : Event := ⟨Text.Percent.fields "step=0&seq=1", [("CallSid", "CA1")]⟩
    let st' := (((a.dialHook c).run e).run st).2
    st₀.store.calls = [] ∧ Relation.ReflTransGen State.Proceeds st₀ st ∧
      ((Web.incoming "T" "L" ⟨[], incoming.form⟩).run st₀).1.toOption.map Response.continuations =
        some [Work.dialAction (.ofBase "") c a 0 none 1] ∧
      Work.dialAction (.ofBase "") c a 0 none 1 = "/voice/flow/T/L/dial-status?step=0&seq=1" ∧
      st' ≠ st ∧ st'.requests = st.requests ++ [.terminate "CAleg1" true] ∧
      ∃ t, st'.store.Holds t ∧ t.number = 1 ∧ t.status = .failed := by
  intro target dial st₀ incoming transfer st c a e st'
  have hproceeds : Relation.ReflTransGen State.Proceeds st₀ st :=
    .tail (.single (.alone st₀ (.request incoming (by decide +kernel)))) (.alone _ (.request transfer (by decide +kernel)))
  have hnone : st₀.store.calls = [] := rfl
  have hends : DialEnd c a 0 none 1 := end_of_dial_goes_by_number c a 0 none (by decide)
  have hanswer : ((Web.incoming "T" "L" ⟨[], incoming.form⟩).run st₀).1.toOption.map Response.continuations =
        some [Work.dialAction (.ofBase "") c a 0 none 1] ∧
      Work.dialAction (.ofBase "") c a 0 none 1 = "/voice/flow/T/L/dial-status?step=0&seq=1" := by
    decide +kernel
  have hbehind : (st.isUp = true ∧ st.conflicts = 0 ∧ st.exchange.refusesTerminate = false) ∧
      (st.store.latestRow (Naming.root "CA1") (some "T")).any (fun row => row.read.toOption.any fun s =>
        s.TakesEnd 1 ∧ s.number = 1 ∧ s.duration = none ∧ s.scratch.pendingLegs = ["CAleg1"] ∧
          (s.after (.dialEnds (some 1) st.now)).status = .failed ∧
          (s.after (.dialEnds (some 1) st.now)).duration = some 0) = true := by
    decide +kernel
  -- what follows is about the state as far as it is told here
  clear_value st
  obtain ⟨⟨hup, hconflicts, hrefuses⟩, hfound⟩ := hbehind
  obtain ⟨row, hrow, hany⟩ := (Option.any_eq_true _ _).1 hfound
  obtain ⟨s, hread⟩ := ((State.chained_of_proceeds hnone hproceeds).2 _).legible row (Store.mem_chainOf_of_latest hrow)
  rw [hread] at hany
  obtain ⟨htakes, hnumber, hduration, hpending, hstatus, hlasted⟩ := of_decide_eq_true hany
  have hreport : DialReport c a 0 none 1 e st s := by
    refine .of_proceeds hnone hproceeds (by decide +kernel) hup hrow hread ?_ ?_
    · rw [hnumber]
      decide
    · rw [hduration]
      rfl
  have hserved : a.Served c st := fun h => nomatch h
  have htaken : st.takes s (s.after (.dialEnds (some 1) st.now)) := by
    refine ⟨hup, .inr ⟨?_, ?_⟩⟩
    · rw [hconflicts]
      decide
    · rw [hlasted]
      decide
  obtain ⟨-, db, k, n, hdb, hrun⟩ := hends.taken e st s hreport hserved htakes htaken
  have hchanged : st' ≠ st := (hends.mistaken e st s hreport hserved htaken (.inl (by rw [hnumber]; decide))).2
    ⟨by rw [hnumber]; decide, htakes⟩
  refine ⟨hnone, hproceeds, hanswer.1, hanswer.2, hchanged, ?_,
    (s.after (.dialEnds (some 1) st.now)).revised k, ?_, ?_, hstatus⟩
  · show (((a.dialHook c).run e).run st).2.requests = _
    rw [hrun, hpending]
    show st.requests ++ [.terminate "CAleg1" (!st.exchange.refusesTerminate)] = _
    rw [hrefuses]
    rfl
  · show (((a.dialHook c).run e).run st).2.store.Holds _
    rw [hrun]
    exact hdb
  · exact (congrArg Segment.number (Segment.overwriting_after s (.dialEnds (some 1) st.now))).symm.trans hnumber

end Switchboard
