import Switchboard.Proofs.Store.Onward
import Switchboard.Proofs.Web.Requests
/-!
# How calls went and ended

Whatever requests are served, every row of a call lives on, and a call only goes onward: a segment that is closed stays
closed, one in progress does not ring again, and when it was answered stays as it was noted (`calls_go_onward`).

Whatever requests are served, every row of a call lives on, and a row that is closed keeps the record of how it ended: its
status, when it ended and how long it took.  Two writes do not look at whether the row is closed: the claim of a failure that
ends the call, and the mark of a transfer that reached nobody.  Only these overturn the record
(`closed_record_kept_until_overturned`); the mark does so only where requests are served side by side, since a transfer that
is served alone marks the segment that it has just opened.
-/
namespace Switchboard

/-- The scope that leaves out nobody. -/
def Scope.everybody (crowded : Prop) : Scope := ⟨fun _ => true, fun _ => True, crowded, fun _ _ => rfl⟩

theorem Scope.everybody_sound {crowded : Prop} {st : State} (h : st.store.Identified) : (everybody crowded).Sound st where
  identified := h
  closed _ _ _ := ⟨fun _ _ _ => rfl, fun _ _ _ => rfl⟩
  legs _ _ _ _ _ _ _ := .inl trivial

/-- **Every request is within the scope of everybody.** -/
theorem Scope.everybody_keeps (crowded : Prop) (r : Web.Request) (st : State) :
    (everybody crowded).Keeps (Web.serve r) st fun _ _ => True :=
  Scope.Keeps.serve r (fun _ _ _ _ => rfl) fun _ _ _ => ⟨fun _ _ _ => rfl, fun _ _ _ => rfl, fun _ _ _ => rfl⟩

/-- How the service goes on: a request is served; in a crowd, requests are served side by side and take any turns; or
something changes that is no write of calls, such as the time. -/
inductive State.Goes (crowded : Prop) : State → State → Prop where
  | served (st : State) (r : Web.Request) : Goes crowded st ((Web.serve r).run st).2
  | sideBySide (st : State) {n : Nat} (rs : Fin n → Web.Request) (turns : List (Fin n)) (hcrowded : crowded) :
    Goes crowded st (Task.interleave turns (fun i => Web.serve (rs i)) st).2
  | meanwhile {st st' : State} (h : st.Aside st') : Goes crowded st st'

/-- **However the service goes on**, the rows of all calls live on. -/
theorem State.Goes.step {crowded : Prop} {st st' : State} (h : st.Goes crowded st') :
    (Scope.everybody crowded).Step st st' := by
  cases h with
  | served r => exact (Scope.everybody_keeps crowded r st).step_run
  | sideBySide rs turns hcrowded =>
    exact Scope.step_interleave hcrowded turns fun i st' _ _ => Scope.everybody_keeps crowded (rs i) st'
  | meanwhile h => exact Scope.Step.of_aside h

/-- **Every row lives on** behind any requests, and it is the only one with its id. -/
theorem State.row_lives_on {crowded : Prop} {st st' : State} (hst : st.store.Identified)
    (h : Relation.ReflTransGen (State.Goes crowded) st st') {r : CallRow} (hr : r ∈ st.store.calls) :
    ∃ r' ∈ st'.store.calls, (∀ a ∈ st'.store.calls, Store.sameId a.segment.id r.segment.id = true → a = r') ∧
      CallRow.Writes (fun _ => True) crowded r r' := by
  have hstep : (Scope.everybody crowded).Step st st' := by
    induction h with
    | refl => exact Scope.Step.refl st
    | tail _ hg ih => exact ih.trans hg.step
  obtain ⟨hsound, hev⟩ := hstep (Scope.everybody_sound hst)
  obtain ⟨r', hr', hlife, -⟩ := hev.persist r hr
  refine ⟨r', hr', fun a ha hid => ?_, hlife.mono fun _ _ => trivial⟩
  rw [← show r'.segment.id = r.segment.id from congrArg Segment.Key.id hlife.key] at hid
  exact hsound.identified.keyed.eq_of_sameId ha hr' hid

/-- **Calls go onward.**  Behind any requests a row is still there, and at no moment of its life since was it set back: once
closed it stayed closed, once in progress it did not ring again, when it was answered was neither changed nor taken back, and
whatever status closed it came with the time of the end. -/
theorem calls_go_onward {crowded : Prop} {st st' : State} (hst : st.store.Identified)
    (h : Relation.ReflTransGen (State.Goes crowded) st st') {r : CallRow} (hr : r ∈ st.store.calls) :
    ∃ r' ∈ st'.store.calls, (∀ a ∈ st'.store.calls, Store.sameId a.segment.id r.segment.id = true → a = r') ∧
      CallRow.Writes (fun _ => True) crowded r r' ∧
      ∀ a b, CallRow.Writes (fun _ => True) crowded r a → CallRow.Writes (fun _ => True) crowded a b →
        CallRow.Writes (fun _ => True) crowded b r' →
        (a.segment.isClosed = true → b.segment.isClosed = true) ∧
        (a.segment.status = .inProgress → b.segment.status ≠ .ringing) ∧
        (∀ m, a.segment.answeredAt = some m → b.segment.answeredAt = some m) ∧
        (b.segment.isClosed = true → b.segment.status ≠ a.segment.status → b.segment.endedAt.isSome = true) := by
  obtain ⟨r', hr', hone, hlife⟩ := State.row_lives_on hst h hr
  refine ⟨r', hr', hone, hlife, fun a b _ hab _ => ?_⟩
  have honward := hab.onward
  exact ⟨honward.closed, honward.not_ringing, honward.answered, honward.dated⟩

/-- An agent joins, a report that the call rings comes late, and the caller hangs up: the call is closed with the time of its
end, and answered when the agent joined. -/
theorem joined_call_does_not_ring_again :
    let target : DialTarget := ⟨.phone, "+15550100", "+15550100", none⟩
    let s := (Segment.opened "T" "CA1" "CA1" 0 "inbound" .ringing).run
      [.start Resume.none [target] none 30 true, .callerJoins (some 1) none, .register 1 "CAleg1" target,
        .agentJoins "CAleg1" (some 1) 20]
    let st := { State.holding [s] with settings := { (State.holding []).settings with authToken := "secret" } }
    let status (text : String) : Web.Request := ⟨.post, "/voice/incoming/T/L/status", "",
      [("host", "localhost"), ("content-type", "application/x-www-form-urlencoded")], "CallSid=CA1&CallStatus=" ++ text⟩
    let st₁ := ((Web.serve (status "ringing")).run st).2
    let st₂ := ((Web.serve (status "completed")).run st₁).2
    s.status = .inProgress ∧ (∃ r ∈ st₁.store.calls, r.segment.status ≠ .ringing) ∧
      ∃ r ∈ st₂.store.calls, r.segment.isClosed = true ∧ r.segment.answeredAt = some (.utc 20) ∧
        r.segment.endedAt.isSome = true := by
  intro target s st status st₁ st₂
  have hst : st.store.Identified := by
    refine ⟨List.pairwise_singleton _ _, fun n _ r hr => ?_⟩
    rw [List.mem_singleton.mp hr]
    exact Store.sameId_empty n
  have hgoes₁ : Relation.ReflTransGen (State.Goes False) st st₁ := .single (.served st _)
  have hgoes₂ : Relation.ReflTransGen (State.Goes False) st st₂ := hgoes₁.tail (.served st₁ _)
  have hmem : CallRow.own s ∈ st.store.calls := List.mem_singleton_self _
  have hclosed : ∀ r ∈ st₂.store.calls, r.segment.isClosed = true := by decide +kernel
  refine ⟨by decide, ?_, ?_⟩
  · obtain ⟨r, hr, -, hlife, hlater⟩ := calls_go_onward hst hgoes₁ hmem
    exact ⟨r, hr, (hlater _ _ .refl hlife .refl).2.1 (by decide)⟩
  · obtain ⟨r, hr, -, hlife, hlater⟩ := calls_go_onward hst hgoes₂ hmem
    obtain ⟨-, -, hanswered, hdated⟩ := hlater _ _ .refl hlife .refl
    refine ⟨r, hr, hclosed r hr, hanswered _ (by decide), hdated (hclosed r hr) fun hsame => ?_⟩
    have := hclosed r hr
    rw [Segment.isClosed, hsame] at this
    exact absurd this (by decide)

/-- **How a call ended stays recorded.**  Behind any requests a closed row is still there with the status, the time and the
duration that it ended with, unless a write overturned them: the claim of a failure that ends the call, of an attempt that
is still open and unanswered, or, in a crowd, the mark of a transfer that reached nobody.  The row then
failed. -/
theorem closed_record_kept_until_overturned {crowded : Prop} {st st' : State} (hst : st.store.Identified)
    (h : Relation.ReflTransGen (State.Goes crowded) st st') {r : CallRow} (hr : r ∈ st.store.calls)
    (hclosed : r.segment.isClosed = true) :
    ∃ r' ∈ st'.store.calls, r'.segment.key = r.segment.key ∧
      (r'.segment.record = r.segment.record ∨
        ∃ a b, CallRow.Writes (fun _ => True) crowded r a ∧ a.segment.record = r.segment.record ∧
          CallRow.Overturns crowded a b ∧ b.segment.status = .failed ∧ CallRow.Writes (fun _ => True) crowded b r') := by
  obtain ⟨r', hr', -, hlife⟩ := State.row_lives_on hst h hr
  exact ⟨r', hr', hlife.key, hlife.record hclosed⟩

/-- A call that was handed on fails when the last leg that rang for it ends. -/
theorem handed_on_record_overturned_by_the_last_leg :
    let target : DialTarget := ⟨.phone, "+15550100", "+15550100", none⟩
    let ringing := (Segment.opened "T" "CA1" "CA1" 0 "inbound" .ringing).run
      [.start { Resume.none with destinationCount := 1 } [target] none 30 true, .callerJoins (some 1) none,
        .register 1 "CAleg1" target, .finish 1 0]
    let s : Segment := { ringing with status := .transferred, endedAt := some (.utc 10), duration := some 10 }
    let st := { State.holding [s] with settings := { (State.holding []).settings with authToken := "secret" } }
    let ended : Web.Request := ⟨.post, "/voice/agent-status/T/CA1/0", "seq=1",
      [("host", "localhost"), ("content-type", "application/x-www-form-urlencoded")],
      "CallSid=CAleg1&CallStatus=no-answer"⟩
    ∃ r ∈ ((Web.serve ended).run st).2.store.calls, ∃ a b, a.segment.record = s.record ∧
      CallRow.Overturns False a b ∧ b.segment.status = .failed ∧ CallRow.Writes (fun _ => True) False b r := by
  intro target ringing s st ended
  have hst : st.store.Identified := by
    refine ⟨List.pairwise_singleton _ _, fun n _ r hr => ?_⟩
    rw [List.mem_singleton.mp hr]
    exact Store.sameId_empty n
  have hgoes : Relation.ReflTransGen (State.Goes False) st ((Web.serve ended).run st).2 := .single (.served st ended)
  have hfailed : ∀ r ∈ ((Web.serve ended).run st).2.store.calls, r.segment.record.status = .failed := by decide +kernel
  obtain ⟨r, hr, -, hkept | ⟨a, b, -, hrecord, hturn, hfails, hlife⟩⟩ :=
    closed_record_kept_until_overturned hst hgoes (List.mem_singleton_self (CallRow.own s)) rfl
  · have := hfailed r hr
    rw [hkept] at this
    cases this
  · exact ⟨r, hr, a, b, hrecord, hturn, hfails, hlife⟩

end Switchboard
