import Switchboard.Proofs.Store.Handovers
/-!
# What a transfer comes to

A transfer that is refused leaves everything as it was.  One that is not closes the segment and adds a row for the next one,
both in one step (`run_handOver_of_takes`); whatever is done behind that step is about the row that was added last.  That row
ends up ringing, with the leg that was placed, or failed (`run_connect_placed`, `run_connect_unplaced`).  So a call is moved
on as a whole or not at all (`transfer_all_or_nothing`).
-/
namespace Switchboard

open Provider (Request)
open Store (sameId isAt Change CallRow.overwrite CallRow.change CallRow.handOn)
open Time (Instant Moment)

/-- The state behind a write of the last row of a call. -/
def State.withLast (st : State) (rows : List CallRow) (u : Segment) : State :=
  { st with store := st.store.withCalls (rows ++ [.own u]) }

/-- The state behind the step that hands a call on. -/
def State.handingOver (st : State) (s : Segment) (h : Store.Handover) (scratch : Scratch) : State :=
  { st with store := st.store.handingOver s h scratch st.now }

namespace Work

variable {α : Type} {st : State} {rows : List CallRow} {u : Segment}

theorem run_segment?_last (h : st.store.EndsIn rows u) (hup : st.isUp = true) (hrange : u.duration.all Store.fits = true) :
    (segment? u.rootSid u.number none).run st = (.ok (some u), st) := by
  rw [run_segment? (h.holds hrange) h.rooted, if_pos hup]

/-- **A change of the segment that was added last**, where nobody else writes. -/
theorem run_mutate_last (h : st.store.EndsIn rows u) (hup : st.isUp = true) (hc : st.conflicts = 0)
    {f : Segment → Segment × α} (hf : Segment.IsChange f) (hne : (f u).1 ≠ u) (hrange : u.duration.all Store.fits = true)
    (hfits : (f u).1.duration.all Store.fits = true) :
    (mutate u.rootSid u.number none f).run st =
      (.ok (some ((f u).1.revised (u.revision + 1), (f u).2)), st.withLast rows ((f u).1.revised (u.revision + 1))) := by
  have hholds := h.holds hrange
  have hany : ¬ (none : Option String).any (fun t => t != u.tenantId) = true := Bool.false_ne_true
  have hcalm : (contend u.id).run st = (.ok (), st) := by
    rw [contend, Task.run_update, hc]
  obtain ⟨r, hfind, hr, hisAt, hwrite⟩ := writeAt_of_holds hholds (hf.id_eq u) u.revision
  rw [if_pos hfits, if_pos rfl, CallRow.overwrite_eq hr, hf.overwriting] at hwrite
  have hstored : st.store.updateCalls (isAt (f u).1.id u.revision) (CallRow.overwrite (f u).1) =
      st.store.withCalls (rows ++ [.own ((f u).1.revised (u.revision + 1))]) := by
    have hrows : ∀ q ∈ rows, isAt (f u).1.id u.revision q = false := fun q hq => by
      rw [isAt, hf.id_eq, h.apart q hq, Bool.false_and]
    have hlast : isAt (f u).1.id u.revision (.own u) = true := by
      rw [isAt, hf.id_eq, Bool.and_eq_true]
      exact ⟨Store.sameId_self u.id, decide_eq_true rfl⟩
    have hown : (CallRow.own u).read = .ok u := rfl
    rw [h.updateCalls _ hrows hlast, CallRow.overwrite_eq hown, hf.overwriting]
  rw [hstored] at hwrite
  unfold mutate mutateTries mutateWithin
  rw [Task.run_bind_ok (run_segment?_last h hup hrange), Task.run_bind_ok (Task.run_interrupt _ st)]
  dsimp only
  rw [if_neg hany, if_neg hne, Task.run_bind_ok hcalm, Task.run_bind_ok (run_statement_ok hup hwrite)]
  exact Task.run_bind_ok (run_readRow rfl _)

/-- **An update of the segment that was added last.** -/
theorem run_updateCall_last (h : st.store.EndsIn rows u) (hup : st.isUp = true) {changes : List Change}
    (hne : changes ≠ []) (hrange : changes.all Change.isInRange = true) (hneeded : changes.any Change.removesNeeded = false) :
    (updateCall u.id changes).run st = (.ok (some (u.changed changes)), st.withLast rows (u.changed changes)) := by
  have hown : CallRow.change changes (.own u) = .own (u.changed changes) := by
    have hkey := (Segment.foldl_apply_key changes u).2.2.2.2.2
    show CallRow.mk { (changes.foldl Change.apply u) with revision := (changes.foldl Change.apply u).revision + 1 } none = _
    rw [hkey]
    rfl
  have hrow : st.store.rowOfId u.id none = some (.own u) :=
    h.find? (fun r hr => by rw [h.apart r hr]; rfl) (by rw [Bool.and_eq_true]; exact ⟨Store.sameId_self u.id, rfl⟩)
  have hchange : Store.changeCall u.id changes st.store =
      .ok (some (.own (u.changed changes)), st.store.withCalls (rows ++ [.own (u.changed changes)])) := by
    unfold Store.changeCall
    rw [hrange, hrow, ← hown, ← h.updateCalls _ h.apart (Store.sameId_self u.id)]
    dsimp only
    rw [hneeded]
    rfl
  unfold updateCall
  rw [if_neg (by simpa using hne), Task.run_bind_ok (run_statement_ok hup hchange)]
  exact Task.run_bind_ok (run_readRow rfl _)

end Work

/-! ## The agent of the next segment -/

namespace Segment

/-- A segment for which a leg rings that was registered. -/
def ringingOn (s : Segment) (leg : String) (t : DialTarget) : Segment :=
  s.withScratch fun sc =>
    { sc with legTargets := putEntry leg (some t) sc.legTargets, pendingLegs := sc.pendingLegs ++ [leg] }

theorem registerLeg_of_unanswered {s : Segment} {leg : String} (hunanswered : s.scratch.answeredLeg = none)
    (hended : leg ∉ s.scratch.endedLegs) (t : DialTarget) :
    s.registerLeg s.scratch.attemptSeq leg t = (s.ringingOn leg t, false) := by
  simp [registerLeg, withScratch, ringingOn, hunanswered, hended]

theorem finishDialing_of_pending {s : Segment} (hpending : s.scratch.pendingLegs ≠ []) (now : Instant) :
    s.finishDialing s.scratch.attemptSeq now = (s.withScratch fun sc => { sc with dialComplete := true }, none) := by
  have hrings : (s.withScratch fun sc => { sc with dialComplete := true }).scratch.isExhausted = false := by
    have : s.scratch.pendingLegs.isEmpty = false := by simpa using hpending
    simp [withScratch, Scratch.isExhausted, this]
  rw [finishDialing, if_neg (not_not_intro rfl), claimFailure, if_pos]
  rw [hrings, Bool.not_false, Bool.or_true]

end Segment

namespace Work

variable {st : State} {rows : List CallRow} {u : Segment} {t : DialTarget}

/-- The state behind a request that was only noted. -/
def noted (st : State) (r : Request) : State := { st with requests := st.requests ++ [r] }

/-- **The leg of the segment that was added last** is placed and rings. -/
theorem run_placeLeg_last (h : st.store.EndsIn rows u) (hup : st.isUp = true) (hc : st.conflicts = 0)
    (hdur : u.duration = none) (hunanswered : u.scratch.answeredLeg = none) (hended : u.scratch.endedLegs = [])
    (hreach : ¬ st.exchange.unreachable.contains (addressOf t) = true) :
    (placeLeg u t).run st = (.ok [st.exchange.nextLeg], (st.withPlaced (st.legFor u t)).withLast rows
      ((u.ringingOn st.exchange.nextLeg t).revised (u.revision + 1))) := by
  have hplace := run_placeCall (st.legFor u t) st
  rw [State.legFor, legFor_destination, if_neg hreach] at hplace
  have hregister : u.registerLeg u.scratch.attemptSeq st.exchange.nextLeg t = (u.ringingOn st.exchange.nextLeg t, false) :=
    Segment.registerLeg_of_unanswered hunanswered (by rw [hended]; exact List.not_mem_nil) t
  have hne : u.ringingOn st.exchange.nextLeg t ≠ u := by
    intro heq
    have hlegs : u.scratch.pendingLegs ++ [st.exchange.nextLeg] = u.scratch.pendingLegs :=
      congrArg (fun s : Segment => s.scratch.pendingLegs) heq
    simp at hlegs
  have hmutate := @run_mutate_last _ (st.withPlaced (st.legFor u t)) rows u h hup hc
    (Segment.registerLeg u.scratch.attemptSeq st.exchange.nextLeg t) (Segment.isChange_registerLeg _ _ _)
    (by rw [hregister]; exact hne) (by rw [hdur]; rfl) (by rw [hregister]; show u.duration.all _ = true; rw [hdur]; rfl)
  rw [hregister] at hmutate
  unfold placeLeg
  rw [Task.run_bind_ok (run_callbacks st), Task.run_bind_ok (run_settings st), Task.run_bind_ok hplace]
  dsimp only
  rw [← State.legFor, Task.run_bind_ok hmutate]
  rfl

/-- **The dialing of the segment that was added last** is noted as finished, while a leg rings. -/
theorem run_finishDialing_last (h : st.store.EndsIn rows u) (hup : st.isUp = true) (hc : st.conflicts = 0)
    (hdur : u.duration = none) (hpending : u.scratch.pendingLegs ≠ []) (hincomplete : u.scratch.dialComplete = false) :
    (finishDialing u.rootSid u.number u.scratch.attemptSeq).run st = (.ok (), st.withLast rows
      ((u.withScratch fun sc => { sc with dialComplete := true }).revised (u.revision + 1))) := by
  have hfinish := Segment.finishDialing_of_pending hpending st.now
  have hne : (u.withScratch fun sc => { sc with dialComplete := true }) ≠ u := by
    intro heq
    have hcomplete : true = u.scratch.dialComplete := congrArg (fun s : Segment => s.scratch.dialComplete) heq
    rw [hincomplete] at hcomplete
    cases hcomplete
  have hmutate := @run_mutate_last _ st rows u h hup hc (Segment.finishDialing u.scratch.attemptSeq st.now)
    (Segment.isChange_finishDialing _ _) (by rw [hfinish]; exact hne) (by rw [hdur]; rfl)
    (by rw [hfinish]; show u.duration.all _ = true; rw [hdur]; rfl)
  rw [hfinish] at hmutate
  have hnow : now.run st = (.ok st.now, st) := rfl
  unfold finishDialing
  rw [Task.run_bind_ok hnow, Task.run_bind_ok hmutate]
  rfl

/-- The order that sends the caller to wait for the agent of a segment. -/
def onHold (st : State) (s : Segment) : Request :=
  .redirect s.rootSid (holdResponse (.ofBase st.settings.baseUrl) s).render (!st.exchange.refusesRedirect)

theorem run_onHold (st : State) (s : Segment) :
    (discard (redirectCall s.rootSid (holdResponse (.ofBase st.settings.baseUrl) s).render)).run st =
      (.ok (), noted st (onHold st s)) := rfl

/-- A segment for which a leg rings and no more are dialed. -/
def waitingFor (s : Segment) (leg : String) (t : DialTarget) : Segment :=
  ((s.ringingOn leg t).withScratch fun sc => { sc with dialComplete := true }).revised (s.revision + 2)

/-- **The agent of the next segment is dialed**: the caller is sent to wait, and the leg rings. -/
theorem run_connect_placed (h : st.store.EndsIn rows u) (hup : st.isUp = true) (hc : st.conflicts = 0)
    (hdur : u.duration = none) (hincomplete : u.scratch.dialComplete = false) (hunanswered : u.scratch.answeredLeg = none)
    (hended : u.scratch.endedLegs = []) (htargets : u.scratch.targets = [t])
    (hreach : ¬ st.exchange.unreachable.contains (addressOf t) = true) :
    (connect u).run st = (.ok (), ((noted st (onHold st u)).withPlaced (st.legFor u t)).withLast rows
      (waitingFor u st.exchange.nextLeg t)) := by
  have hplace := @run_placeLeg_last (noted st (onHold st u)) rows u t h hup hc hdur hunanswered hended hreach
  have hlegs : (placeLegs u).run (noted st (onHold st u)) = (.ok [st.exchange.nextLeg],
      ((noted st (onHold st u)).withPlaced (st.legFor u t)).withLast rows
        ((u.ringingOn st.exchange.nextLeg t).revised (u.revision + 1))) := by
    rw [placeLegs, htargets, placeLegsFor, Task.run_bind_ok hplace]
    rfl
  have hnext : (((noted st (onHold st u)).withPlaced (st.legFor u t)).withLast rows
      ((u.ringingOn st.exchange.nextLeg t).revised (u.revision + 1))).store.EndsIn rows
      ((u.ringingOn st.exchange.nextLeg t).revised (u.revision + 1)) := h.next rfl rfl rfl
  have hfinish := run_finishDialing_last hnext hup hc hdur (by simp [Segment.ringingOn, Segment.withScratch, Segment.revised])
    hincomplete
  have hrevision : u.revision + 1 + 1 = u.revision + 2 := by omega
  unfold connect waitingFor
  rw [Task.run_bind_ok (run_callbacks st), Task.run_bind_ok (run_onHold st u), Task.run_bind_ok hlegs, if_neg (by simp),
    ← hrevision]
  exact hfinish

/-- **Where the agent cannot be dialed** the next segment has failed and the call is to end. -/
theorem run_connect_unplaced (h : st.store.EndsIn rows u) (hup : st.isUp = true) (hc : st.conflicts = 0)
    (htargets : u.scratch.targets = [t]) (hreach : st.exchange.unreachable.contains (addressOf t) = true) :
    (connect u).run st = (.error (.transfer .noLeg),
      noted ((noted (noted st (onHold st u)) (.place (st.legFor u t) none)).withLast rows
        (u.changed (Change.unreached st.now))) (.terminate u.rootSid (!st.exchange.refusesTerminate))) := by
  have hplace : (placeLeg u t).run (noted st (onHold st u)) =
      (.ok [], noted (noted st (onHold st u)) (.place (st.legFor u t) none)) := by
    refine (@run_placeLeg_unreachable (noted st (onHold st u)) u hc t hreach).trans ?_
    rw [dialed, show (0 : Nat) = (noted st (onHold st u)).conflicts from hc.symm]
    rfl
  have hlegs : (placeLegs u).run (noted st (onHold st u)) =
      (.ok [], noted (noted st (onHold st u)) (.place (st.legFor u t) none)) := by
    rw [placeLegs, htargets, placeLegsFor, Task.run_bind_ok hplace]
    rfl
  have hupdate := @run_updateCall_last (noted (noted st (onHold st u)) (.place (st.legFor u t) none)) rows u h hup
    (Change.unreached st.now) (List.cons_ne_nil _ _) rfl rfl
  have hmarked : (discard (updateCall u.id (Change.unreached st.now))).run
      (noted (noted st (onHold st u)) (.place (st.legFor u t) none)) =
      (.ok (), (noted (noted st (onHold st u)) (.place (st.legFor u t) none)).withLast rows
        (u.changed (Change.unreached st.now))) := Task.run_bind_ok hupdate
  have hnow : now.run (noted (noted st (onHold st u)) (.place (st.legFor u t) none)) =
      (.ok st.now, noted (noted st (onHold st u)) (.place (st.legFor u t) none)) := rfl
  unfold connect
  rw [Task.run_bind_ok (run_callbacks st), Task.run_bind_ok (run_onHold st u), Task.run_bind_ok hlegs,
    if_pos (show List.isEmpty ([] : List String) = true from rfl), Task.run_bind_ok hnow]
  exact Task.run_bind_ok hmarked

end Work

/-! ## Looking up what is transferred -/

namespace Work

variable {st st' : State} {s : Segment}

theorem run_readRow?_kept (row : Option CallRow) (st : State) : ((readRow? row).run st).2 = st := by
  cases row with
  | none => rfl
  | some r =>
    refine Task.run_bind_kept ?_ fun _ => rfl
    unfold readRow
    rw [Task.run_ofExcept]

theorem run_latest?_kept (sid : String) (tenant : Option String) (st : State) : ((latest? sid tenant).run st).2 = st :=
  Task.run_bind_kept (run_query_kept _ st) fun row => Task.run_bind_kept (run_readRow?_kept row st) fun _ => rfl

/-- **Looking up the active segment** changes nothing. -/
theorem run_activeSegment?_kept (sid : String) (st : State) : ((activeSegment? sid).run st).2 = st := by
  refine Task.run_bind_kept (run_latest?_kept sid none st) fun found => ?_
  cases found with
  | some s => rfl
  | none =>
    refine Task.run_bind_kept (Task.run_bind_kept (run_query_kept _ st) fun row => run_readRow?_kept row st) fun byLeg => ?_
    cases byLeg with
    | none => rfl
    | some s => exact run_latest?_kept s.rootSid none st

/-- A segment as it is found: the database is up, a row reads as it, and its call is known by its own id. -/
structure Found (st : State) (s : Segment) : Prop where
  isUp : st.isUp = true
  stored : ∃ r ∈ st.store.calls, r.read = .ok s
  rooted : Naming.root s.rootSid = s.rootSid

theorem found_of_latest? {sid : String} {tenant : Option String}
    (hrun : (latest? sid tenant).run st = (.ok (some s), st')) : Found st s := by
  obtain ⟨row, st₁, hquery, hbehind⟩ := Task.run_bind_eq_ok hrun
  obtain ⟨found, st₂, hread, hdone⟩ := Task.run_bind_eq_ok hbehind
  have hup : st.isUp = true := by
    by_contra hdown
    rw [query, run_statement, if_neg hdown] at hquery
    cases hquery
  obtain ⟨rfl, rfl⟩ := run_query_eq_ok hquery
  obtain ⟨rfl, hfound⟩ := run_readRow?_eq_ok hread
  cases hdone
  rcases hfound with ⟨-, hnone⟩ | ⟨r, s', hrow, hsome, hread⟩
  · cases hnone
  · cases hsome
    obtain ⟨hr, hmine⟩ := List.mem_filter.1 (Store.mem_of_newest hrow)
    simp only [Bool.and_eq_true, decide_eq_true_eq] at hmine
    refine ⟨hup, ⟨r, hr, hread⟩, ?_⟩
    rw [show s.rootSid = r.segment.rootSid by rw [CallRow.segment_of_read hread], hmine.1.1, Naming.root_root]

theorem found_of_activeSegment? {sid : String} (hrun : (activeSegment? sid).run st = (.ok (some s), st')) :
    Found st s := by
  obtain ⟨found, hlatest, hrest⟩ := Task.run_bind_eq_ok_of_kept (run_latest?_kept sid none st) hrun
  cases found with
  | some t =>
    cases hrest
    exact found_of_latest? hlatest
  | none =>
    obtain ⟨byLeg, -, hroot⟩ := Task.run_bind_eq_ok_of_kept
      (Task.run_bind_kept (run_query_kept _ st) fun row => run_readRow?_kept row st) hrest
    cases byLeg with
    | none => cases hroot
    | some t => exact found_of_latest? hroot

/-! ## The step that hands a call on -/

/-- What the step fails with where the call is not handed on. -/
def faultOf : Store.HandoverFault → Fault
  | .closed status => .closed status
  | .unreadable e => .document e
  | .refused e => .refused e

theorem run_handOver_of_error {h : Store.Handover} {scratch : Scratch} {e : Store.HandoverFault} (hup : st.isUp = true)
    (herror : st.store.handOver s h scratch st.now = .error e) :
    (handOver s h scratch).run st = (.error (faultOf e), st) := by
  have hnow : now.run st = (.ok st.now, st) := rfl
  unfold handOver
  rw [Task.run_bind_ok hnow, Task.run_bind, Task.run_atomically, hup, herror]
  cases e <;> rfl

section Found

variable (hs : Found st s) (hdb : st.store.Identified) (hopen : s.isClosed = false)
include hs hdb hopen

theorem run_handOver_of_takes (htakes : st.store.TakesHandover s st.now) (h : Store.Handover) (scratch : Scratch) :
    (handOver s h scratch).run st = (.ok (s.handedOver h st.now, st.store.opening s h scratch st.now),
      st.handingOver s h scratch) := by
  obtain ⟨r, hr, hread⟩ := hs.stored
  obtain ⟨closed, hok, hclosed⟩ := hdb.handOver_of_takes hr hread hopen htakes h scratch
  have hnow : now.run st = (.ok st.now, st) := rfl
  unfold handOver
  rw [Task.run_bind_ok hnow, Task.run_bind, Task.run_atomically, if_neg (by rw [hs.isUp]; exact Bool.false_ne_true), hok]
  dsimp only
  rw [Task.run_bind_ok (Task.run_interrupt _ _), Task.run_bind_ok (run_readRow hclosed _)]
  exact Task.run_bind_ok (run_readRow rfl _)

theorem run_handOver_of_not_takes (htakes : ¬ st.store.TakesHandover s st.now) (h : Store.Handover) (scratch : Scratch) :
    ∃ e, (handOver s h scratch).run st = (.error (.refused e), st) := by
  obtain ⟨r, hr, hread⟩ := hs.stored
  obtain ⟨e, herror⟩ := hdb.handOver_of_not_takes hr hread hopen htakes h scratch
  exact ⟨e, run_handOver_of_error hs.isUp herror⟩

end Found

theorem run_handOver_of_closed (hup : st.isUp = true)
    (hclosed : ∀ r ∈ st.store.calls, sameId r.segment.id s.id = true → r.segment.isClosed = true) (h : Store.Handover)
    (scratch : Scratch) : ∃ status, (handOver s h scratch).run st = (.error (.closed status), st) := by
  obtain ⟨status, herror⟩ := Store.handOver_of_closed hclosed h scratch st.now
  exact ⟨status, run_handOver_of_error hup herror⟩

end Work

/-! ## What is done behind the lookups -/

/-- **A task that goes on behind another** may be stopped behind it. -/
theorem Task.exists_runTo_bind {σ ε α β : Type} (p : Point) (f : α → Task σ ε β) :
    ∀ (t : Task σ ε α) {s s' : σ} {a : α}, t.run s = (.ok a, s') → ∃ k, ∀ n, runTo p (k + n) (t >>= f) s = runTo p n (f a) s'
  | done a, s, s', b, h => by
    cases h
    exact ⟨0, fun n => by rw [Nat.zero_add]; rfl⟩
  | look k, s, s', b, h => exists_runTo_bind p f (k s) h
  | put s₁ k, s, s', b, h => exists_runTo_bind p f k h
  | pause q k, s, s', b, h => by
    obtain ⟨j, hj⟩ := exists_runTo_bind p f k h
    by_cases hq : q = p
    · refine ⟨j + 1, fun n => ?_⟩
      rw [← hj n, Nat.add_right_comm]
      exact if_pos hq
    · exact ⟨j, fun n => (if_neg hq).trans (hj n)⟩

namespace Work

variable {st : State} {active : Segment} {m : Member}

/-- How a transfer fails where the segment was closed meanwhile. -/
def failClosed : Fault → Work (Segment × Segment)
  | .closed status => Task.fail (.transfer (.closedMeanwhile status))
  | e => Task.fail e

/-- What is left of a transfer when everybody was found. -/
def handingTo (active : Segment) (m : Member) (fromUser reason : Option String) : Work (Segment × Segment) := do
  let (old, new) ← Task.recover failClosed
    (handOver active ⟨m.tenantUserId, fromUser, reason⟩ (transferScratch active m))
  connect new
  return (old, (← segment? new.rootSid new.number none).getD new)

/-- What is left of a transfer when the active segment was found, and perhaps the member. -/
def handingToFound (active : Segment) (fromUser reason : Option String) : Option Member → Work (Segment × Segment)
  | none => Task.fail (.transfer .targetNotFound)
  | some m =>
    if m.tenantId ≠ active.tenantId then Task.fail (.transfer .targetNotFound) else handingTo active m fromUser reason

theorem run_handingTo_of_closed (hup : st.isUp = true)
    (hclosed : ∀ r ∈ st.store.calls, sameId r.segment.id active.id = true → r.segment.isClosed = true)
    (fromUser reason : Option String) : ∃ status,
      (handingTo active m fromUser reason).run st = (.error (.transfer (.closedMeanwhile status)), st) := by
  obtain ⟨status, herror⟩ := run_handOver_of_closed hup hclosed ⟨m.tenantUserId, fromUser, reason⟩ (transferScratch active m)
  refine ⟨status, Task.run_bind_error ?_⟩
  rw [Task.run_recover, herror]
  rfl

theorem run_handingTo_of_not_takes (hs : Found st active) (hdb : st.store.Identified) (hopen : active.isClosed = false)
    (htakes : ¬ st.store.TakesHandover active st.now) (fromUser reason : Option String) :
    ∃ e, (handingTo active m fromUser reason).run st = (.error (.refused e), st) := by
  obtain ⟨e, herror⟩ := run_handOver_of_not_takes hs hdb hopen htakes ⟨m.tenantUserId, fromUser, reason⟩
    (transferScratch active m)
  refine ⟨e, Task.run_bind_error ?_⟩
  rw [Task.run_recover, herror]
  rfl

theorem endsIn_handingOver (hs : Found st active) (hdb : st.store.Identified)
    (htakes : st.store.TakesHandover active st.now) (h : Store.Handover) (scratch : Scratch) :
    (st.handingOver active h scratch).store.EndsIn (st.store.closing active h st.now)
      (st.store.opening active h scratch st.now) := by
  obtain ⟨r, hr, hread⟩ := hs.stored
  exact hdb.endsIn_handingOver hr hread htakes hs.rooted h scratch

section Takes

variable (hs : Found st active) (hdb : st.store.Identified) (hopen : active.isClosed = false)
  (htakes : st.store.TakesHandover active st.now)
include hs hdb hopen htakes

/-- **Behind the step that hands a call on** the member is dialed. -/
theorem run_handingTo_of_takes (fromUser reason : Option String) :
    let h : Store.Handover := ⟨m.tenantUserId, fromUser, reason⟩
    let u := st.store.opening active h (transferScratch active m) st.now
    (handingTo active m fromUser reason).run st =
      (connect u >>= fun _ => segment? u.rootSid u.number none >>= fun new =>
        pure (active.handedOver h st.now, new.getD u)).run (st.handingOver active h (transferScratch active m)) := by
  intro h u
  have hhanded := run_handOver_of_takes hs hdb hopen htakes h (transferScratch active m)
  have hrecovered : (Task.recover failClosed (handOver active h (transferScratch active m))).run st =
      (.ok (active.handedOver h st.now, u), st.handingOver active h (transferScratch active m)) := by
    rw [Task.run_recover, hhanded]
  unfold handingTo
  rw [Task.run_bind_ok hrecovered]

/-- **A transfer to a member who can be dialed**: the caller is sent to wait, and the member's leg rings. -/
theorem run_handingTo_placed (hc : st.conflicts = 0)
    (hreach : ¬ st.exchange.unreachable.contains (addressOf (m.target m.userId)) = true) (fromUser reason : Option String) :
    let h : Store.Handover := ⟨m.tenantUserId, fromUser, reason⟩
    let st₁ := st.handingOver active h (transferScratch active m)
    let u := st.store.opening active h (transferScratch active m) st.now
    let new := waitingFor u st.exchange.nextLeg (m.target m.userId)
    (handingTo active m fromUser reason).run st = (.ok (active.handedOver h st.now, new),
      ((noted st₁ (onHold st₁ u)).withPlaced (st₁.legFor u (m.target m.userId))).withLast
        (st.store.closing active h st.now) new) := by
  intro h st₁ u new
  have hends := endsIn_handingOver hs hdb htakes h (transferScratch active m)
  have hconnect := @run_connect_placed st₁ _ u (m.target m.userId) hends hs.isUp hc rfl rfl rfl rfl rfl hreach
  have hlast := hends.next (t := new) rfl rfl rfl
  have hread := @run_segment?_last (((noted st₁ (onHold st₁ u)).withPlaced
    (st₁.legFor u (m.target m.userId))).withLast (st.store.closing active h st.now) new) _ _ hlast hs.isUp rfl
  rw [run_handingTo_of_takes hs hdb hopen htakes, Task.run_bind_ok hconnect]
  exact Task.run_bind_ok hread

/-- **A transfer to a member who cannot be dialed**: the call is to end, and the segment stays handed on. -/
theorem run_handingTo_unplaced (hc : st.conflicts = 0)
    (hreach : st.exchange.unreachable.contains (addressOf (m.target m.userId)) = true) (fromUser reason : Option String) :
    let h : Store.Handover := ⟨m.tenantUserId, fromUser, reason⟩
    let st₁ := st.handingOver active h (transferScratch active m)
    let u := st.store.opening active h (transferScratch active m) st.now
    (handingTo active m fromUser reason).run st = (.error (.transfer .noLeg),
      noted ((noted (noted st₁ (onHold st₁ u)) (.place (st₁.legFor u (m.target m.userId)) none)).withLast
        (st.store.closing active h st.now) (u.changed (Change.unreached st.now)))
        (.terminate active.rootSid (!st.exchange.refusesTerminate))) := by
  intro h st₁ u
  have hends := endsIn_handingOver hs hdb htakes h (transferScratch active m)
  have hconnect := @run_connect_unplaced st₁ _ u (m.target m.userId) hends hs.isUp hc rfl hreach
  rw [run_handingTo_of_takes hs hdb hopen htakes]
  exact Task.run_bind_error hconnect

end Takes

end Work

/-- Who is transferred to whom: the active segment is found and open, whoever asks belongs to its tenant, and so does the
member who is to take the call. -/
structure State.Transfers (st : State) (sid toUser : String) (tenant : Option String) (active : Segment) (m : Member) :
    Prop where
  found : (Work.activeSegment? sid).run st = (.ok (some active), st)
  mine : ∀ t, Flow.given tenant = some t → t = active.tenantId
  isOpen : active.isClosed = false
  known : st.store.memberOfId toUser = some m
  alike : m.tenantId = active.tenantId

/-- Why a transfer is refused before anything is done. -/
inductive State.RefusesTransfer (st : State) (toUser : String) (tenant : Option String) :
    Option Segment → TransferFault → Prop
  | unknown : RefusesTransfer st toUser tenant none .callNotFound
  | foreign {active : Segment} {t : String} (hgiven : Flow.given tenant = some t) (hforeign : t ≠ active.tenantId) :
    RefusesTransfer st toUser tenant (some active) .callNotFound
  | closed {active : Segment} (hmine : ∀ t, Flow.given tenant = some t → t = active.tenantId)
    (hclosed : active.isClosed = true) : RefusesTransfer st toUser tenant (some active) (.notOpen active.status)
  | nobody {active : Segment} (hmine : ∀ t, Flow.given tenant = some t → t = active.tenantId)
    (hopen : active.isClosed = false)
    (hnobody : ∀ m, st.store.memberOfId toUser = some m → m.tenantId ≠ active.tenantId) :
    RefusesTransfer st toUser tenant (some active) .targetNotFound

namespace Work

variable {st : State} {active : Segment} {m : Member} {sid toUser : String} {tenant : Option String}

/-- **A task may be stopped behind a query.** -/
theorem runTo_query {α β : Type} (hup : st.isUp = true) (f : Store → α) (g : α → Work β) :
    Task.runTo .statement 0 (query f >>= g) st = (.ok (g (f st.store)), st) := by
  cases st
  cases hup
  rfl

theorem any_given_eq_false (hmine : ∀ t, Flow.given tenant = some t → t = active.tenantId) :
    ¬ (Flow.given tenant).any (fun t => t != active.tenantId) = true := by
  intro hany
  obtain ⟨t, ht, hne⟩ := (Option.any_eq_true _ _).1 hany
  exact absurd (hmine t ht) (by simpa using hne)

theorem run_memberById? (hup : st.isUp = true) (id : String) :
    (memberById? id).run st = (.ok (st.store.memberOfId id), st) :=
  run_statement_ok (f := fun db => .ok (db.memberOfId id, db)) hup rfl

/-- **A transfer that is refused** leaves everything as it was. -/
theorem run_transfer_of_refused {found : Option Segment} {e : TransferFault}
    (hfound : (activeSegment? sid).run st = (.ok found, st)) (hrefused : st.RefusesTransfer toUser tenant found e)
    (fromUser reason : Option String) :
    (transfer sid toUser fromUser reason tenant).run st = (.error (.transfer e), st) := by
  unfold transfer
  rw [Task.run_bind_ok hfound]
  cases hrefused with
  | unknown => rfl
  | foreign hgiven hforeign =>
    dsimp only
    rw [if_pos (by rw [hgiven]; simpa using hforeign)]
    rfl
  | closed hmine hclosed =>
    dsimp only
    rw [if_neg (any_given_eq_false hmine), if_pos hclosed]
    rfl
  | nobody hmine hopen hnobody =>
    have hup := (found_of_activeSegment? hfound).isUp
    dsimp only
    rw [if_neg (any_given_eq_false hmine), if_neg (by rw [hopen]; exact Bool.false_ne_true),
      Task.run_bind_ok (run_memberById? hup toUser)]
    cases hm : st.store.memberOfId toUser with
    | none => rfl
    | some m =>
      dsimp only
      rw [if_pos (hnobody m hm)]
      rfl

/-- **A lookup that fails** leaves everything as it was. -/
theorem run_transfer_of_error {e : Fault} (hfound : (activeSegment? sid).run st = (.error e, st))
    (fromUser reason : Option String) : (transfer sid toUser fromUser reason tenant).run st = (.error e, st) :=
  Task.run_bind_error hfound

section Transfers

variable (h : st.Transfers sid toUser tenant active m)
include h

/-- **A transfer goes on behind its two lookups.** -/
theorem transfer_behind_lookups (fromUser reason : Option String) :
    ∃ f, transfer sid toUser fromUser reason tenant = activeSegment? sid >>= f ∧
      f (some active) = memberById? toUser >>= handingToFound active fromUser reason := by
  refine ⟨_, rfl, ?_⟩
  dsimp only
  rw [if_neg (any_given_eq_false h.mine), if_neg (by rw [h.isOpen]; exact Bool.false_ne_true)]
  rfl

theorem handingToFound_of_transfers (fromUser reason : Option String) :
    handingToFound active fromUser reason (st.store.memberOfId toUser) = handingTo active m fromUser reason := by
  rw [h.known]
  exact if_neg (not_not_intro h.alike)

theorem run_transfer_of_transfers (fromUser reason : Option String) :
    (transfer sid toUser fromUser reason tenant).run st = (handingTo active m fromUser reason).run st := by
  obtain ⟨f, htransfer, hf⟩ := transfer_behind_lookups h fromUser reason
  rw [htransfer, Task.run_bind_ok h.found, hf, Task.run_bind_ok (run_memberById? (found_of_activeSegment? h.found).isUp _),
    handingToFound_of_transfers h]

/-- **A transfer may be stopped behind its lookups**, and others may change everything then. -/
theorem exists_runTo_transfer (fromUser reason : Option String) :
    ∃ skip, Task.runTo .statement skip (transfer sid toUser fromUser reason tenant) st =
      (.ok (handingTo active m fromUser reason), st) := by
  obtain ⟨f, htransfer, hf⟩ := transfer_behind_lookups h fromUser reason
  obtain ⟨k, hk⟩ := Task.exists_runTo_bind .statement f (activeSegment? sid) h.found
  refine ⟨k, ?_⟩
  rw [htransfer, ← Nat.add_zero k, hk 0, hf, memberById?, runTo_query (found_of_activeSegment? h.found).isUp,
    handingToFound_of_transfers h]

end Transfers

end Work

/-! ## What a transfer comes to -/

theorem Segment.elapsed_nonneg (s : Segment) (now : Moment) : 0 ≤ s.elapsed now := by
  unfold elapsed
  split
  · exact Int.le_max_left _ _
  · exact Int.le_refl 0

namespace State

/-- How a transfer moves a call on: the active segment's row is closed and a row for the next segment is added, and the
store is as it was but for these. -/
structure MovesOn (st st' : State) (active old new : Segment) : Prop where
  rows : ∃ front r r' back, st.store.calls = front ++ r :: back ∧ r.read = .ok active ∧ r'.read = .ok old ∧
    st'.store.calls = front ++ r' :: back ++ [.own new]
  others : st'.store = { st.store with calls := st'.store.calls, counted := st.store.counted + 1 }
  closed : old.status = .transferred ∧ old.endedAt = some (.utc st.now)
  /-- Only its end and who handed it on to whom are noted with the closed segment. -/
  kept : { active with
    status := old.status, endedAt := old.endedAt, duration := old.duration
    transferredToUserId := old.transferredToUserId, transferredFromUserId := old.transferredFromUserId
    transferReason := old.transferReason, transferredAt := old.transferredAt, revision := active.revision + 1 } = old
  /-- The seconds since the answer, or since the start where nobody answered. -/
  duration : ∃ d, old.duration = some d ∧ 0 ≤ d ∧
    (∀ t, active.answeredAt = some t → d = max 0 ((Moment.utc st.now).secondsSince t)) ∧
    (active.answeredAt = none → ∀ t, active.startedAt = some t → d = max 0 ((Moment.utc st.now).secondsSince t))
  /-- One more than the greatest number of the call. -/
  number : ∃ q ∈ st.store.calls, q.segment.rootSid = active.rootSid ∧ new.number = q.segment.number + 1 ∧
    ∀ a ∈ st.store.calls, a.segment.rootSid = active.rootSid → a.segment.number ≤ q.segment.number
  callSid : new.callSid = Naming.transfer active.rootSid new.number
  conference : new.conferenceName = some (Naming.conference active.rootSid new.number)
  alike : new.rootSid = active.rootSid ∧ new.tenantId = active.tenantId ∧ new.direction = active.direction ∧
    new.fromNumber = active.fromNumber ∧ new.toNumber = active.toNumber
  started : new.startedAt = old.endedAt

/-- How a transfer ends where the member's leg was placed. -/
structure Rings (st st' : State) (m : Member) (new : Segment) : Prop where
  status : new.status = .ringing
  pending : new.scratch.pendingLegs = [st.exchange.nextLeg]
  requests : ∃ document leg, leg.destination = Work.addressOf (m.target m.userId) ∧ st'.requests = st.requests ++
    [.redirect new.rootSid document (!st.exchange.refusesRedirect), .place leg (some st.exchange.nextLeg)]

/-- How a transfer ends where the member's leg could not be placed: the caller's call is asked to end. -/
structure RingsNobody (st st' : State) (m : Member) (new : Segment) : Prop where
  status : new.status = .failed
  ended : new.endedAt = some (.utc st.now) ∧ new.duration = some 0
  requests : ∃ document leg, leg.destination = Work.addressOf (m.target m.userId) ∧ st'.requests = st.requests ++
    [.redirect new.rootSid document (!st.exchange.refusesRedirect), .place leg none,
      .terminate new.rootSid (!st.exchange.refusesTerminate)]

variable {st st' : State} {active new : Segment} {scratch : Scratch}

/-- **The step that hands a call on moves it on**, whatever becomes of the attempt of the next segment behind it. -/
theorem movesOn_of_handingOver (hs : Work.Found st active) (hdb : st.store.Identified) (h : Store.Handover)
    (hstore : st'.store = (st.handingOver active h scratch).store.withCalls
      (st.store.closing active h st.now ++ [.own new]))
    (hsame : { st.store.opening active h scratch st.now with
      status := new.status, endedAt := new.endedAt, duration := new.duration, scratch := new.scratch
      revision := new.revision } = new) :
    st.MovesOn st' active (active.handedOver h st.now) new := by
  obtain ⟨r, hr, hread⟩ := hs.stored
  obtain ⟨front, back, r', hcalls, hclosing, hread'⟩ := hdb.closing_eq hr hread h st.now
  have hroot : r.segment.rootSid = active.rootSid := by rw [CallRow.segment_of_read hread]
  have hnumber := Store.nextNumber_eq_greatest hr
  rw [hroot] at hnumber
  rw [← hsame]
  exact {
    rows := ⟨front, r, r', back, hcalls, hread, hread', by rw [hstore, hsame, ← hclosing]; rfl⟩
    others := by rw [hstore]; rfl
    closed := ⟨rfl, rfl⟩
    kept := rfl
    duration := by
      refine ⟨active.elapsed (.utc st.now), rfl, ?_, fun t ht => ?_, fun hnone t ht => ?_⟩
      · exact active.elapsed_nonneg _
      · rw [Segment.elapsed, ht]
      · rw [Segment.elapsed, hnone, ht]
    number := hnumber
    callSid := rfl
    conference := rfl
    alike := ⟨rfl, rfl, rfl, rfl, rfl⟩
    started := rfl }

variable {sid toUser : String} {tenant : Option String} {m : Member}

/-- **Who asks for a transfer** fails to look the call up, is refused, or is served. -/
theorem transfers_cases (st : State) (sid toUser : String) (tenant : Option String) :
    (∃ e, (Work.activeSegment? sid).run st = (.error e, st)) ∨
      (∃ found e, (Work.activeSegment? sid).run st = (.ok found, st) ∧ st.RefusesTransfer toUser tenant found e) ∨
      ∃ active m, st.Transfers sid toUser tenant active m := by
  obtain ⟨result, hrun⟩ : ∃ result, (Work.activeSegment? sid).run st = (result, st) :=
    ⟨_, Prod.ext rfl (Work.run_activeSegment?_kept sid st)⟩
  cases result with
  | error e => exact .inl ⟨e, hrun⟩
  | ok found =>
    refine .inr ?_
    cases found with
    | none => exact .inl ⟨none, _, hrun, .unknown⟩
    | some active =>
      by_cases hmine : ∀ t, Flow.given tenant = some t → t = active.tenantId
      · cases hopen : active.isClosed with
        | true => exact .inl ⟨_, _, hrun, .closed hmine hopen⟩
        | false =>
          by_cases hknown : ∃ m, st.store.memberOfId toUser = some m ∧ m.tenantId = active.tenantId
          · obtain ⟨m, hm, halike⟩ := hknown
            exact .inr ⟨active, m, hrun, hmine, hopen, hm, halike⟩
          · exact .inl ⟨_, _, hrun, .nobody hmine hopen fun m hm halike => hknown ⟨m, hm, halike⟩⟩
      · simp only [not_forall] at hmine
        obtain ⟨t, ht, hforeign⟩ := hmine
        exact .inl ⟨_, _, hrun, .foreign ht hforeign⟩

/-- **A transfer that the database takes** moves the call on, and rings the member or ends the call. -/
theorem Transfers.movesOn (h : st.Transfers sid toUser tenant active m) (hst : st.store.Identified) (hcalm : st.conflicts = 0)
    (htakes : st.store.TakesHandover active st.now) (fromUser reason : Option String) :
    let out := (Work.transfer sid toUser fromUser reason tenant).run st
    ∃ old new, st.MovesOn out.2 active old new ∧
      if st.exchange.unreachable.contains (Work.addressOf (m.target m.userId)) then
        out.1 = .error (.transfer .noLeg) ∧ st.RingsNobody out.2 m new
      else out.1 = .ok (old, new) ∧ st.Rings out.2 m new := by
  intro out
  have hfound := Work.found_of_activeSegment? h.found
  have hdestination (u : Segment) : (st.legFor u (m.target m.userId)).destination = Work.addressOf (m.target m.userId) :=
    Work.legFor_destination _ _ u _
  have hout : out = (Work.handingTo active m fromUser reason).run st := Work.run_transfer_of_transfers h fromUser reason
  let u := st.store.opening active ⟨m.tenantUserId, fromUser, reason⟩ (Work.transferScratch active m) st.now
  let document := (Work.holdResponse (.ofBase st.settings.baseUrl) u).render
  by_cases hreach : st.exchange.unreachable.contains (Work.addressOf (m.target m.userId)) = true
  · rw [hout, Work.run_handingTo_unplaced hfound hst h.isOpen htakes hcalm hreach]
    refine ⟨_, _, movesOn_of_handingOver hfound hst _ rfl rfl, ?_⟩
    rw [if_pos hreach]
    refine ⟨rfl, rfl, ⟨rfl, rfl⟩, document, st.legFor u (m.target m.userId), hdestination u, ?_⟩
    show st.requests ++ [Work.onHold st u] ++ [_] ++ [_] = _
    rw [List.append_assoc, List.append_assoc]
    rfl
  · rw [hout, Work.run_handingTo_placed hfound hst h.isOpen htakes hcalm hreach]
    refine ⟨_, _, movesOn_of_handingOver hfound hst _ rfl rfl, ?_⟩
    rw [if_neg hreach]
    refine ⟨rfl, rfl, rfl, document, st.legFor u (m.target m.userId), hdestination u, ?_⟩
    show st.requests ++ [Work.onHold st u] ++ [_] = _
    rw [List.append_assoc]
    rfl

end State

/-- **A transfer moves the call on as a whole, or leaves everything as it was**, where nothing else happens meanwhile.
A lookup that fails, a call that is not known or belongs to another tenant, a closed segment and a member who is not known
or belongs to another tenant keep it from starting, and so does a segment that was closed behind the lookup; a database that
does not take the write undoes it.  Else the call moves on, and what is left open is only whether the member's leg is
placed.  Where calls are chains, only numbers that do not fit their columns are not taken. -/
theorem transfer_all_or_nothing (st : State) (hst : st.store.Identified) (hcalm : st.conflicts = 0) (sid toUser : String)
    (fromUser reason tenant : Option String) :
    let transfer := Work.transfer sid toUser fromUser reason tenant
    let out := transfer.run st
    (∀ e, out.1 = .error e → e ≠ .transfer .noLeg → out.2 = st) ∧
    (∀ found e, (Work.activeSegment? sid).run st = (.ok found, st) → st.RefusesTransfer toUser tenant found e →
      out = (.error (.transfer e), st)) ∧
    (∀ active m, st.Transfers sid toUser tenant active m →
      (∃ skip rest, Task.runTo .statement skip transfer st = (.ok rest, st) ∧
        ∀ st' : State, st'.isUp = true →
          (∀ r ∈ st'.store.calls, sameId r.segment.id active.id = true → r.segment.isClosed = true) →
          ∃ status, rest.run st' = (.error (.transfer (.closedMeanwhile status)), st')) ∧
      (¬ st.store.TakesHandover active st.now → ∃ e, out = (.error (.refused e), st)) ∧
      (st.store.TakesHandover active st.now → ∃ old new, st.MovesOn out.2 active old new ∧
        if st.exchange.unreachable.contains (Work.addressOf (m.target m.userId)) then
          out.1 = .error (.transfer .noLeg) ∧ st.RingsNobody out.2 m new
        else out.1 = .ok (old, new) ∧ st.Rings out.2 m new) ∧
      (st.store.Chained → (st.store.TakesHandover active st.now ↔
        Store.fits (st.store.nextNumber active.rootSid) = true ∧
          Store.fits (active.elapsed (.utc st.now)) = true))) ∧
    ((∃ e, (Work.activeSegment? sid).run st = (.error e, st) ∧ out = (.error e, st)) ∨
      (∃ found e, (Work.activeSegment? sid).run st = (.ok found, st) ∧ st.RefusesTransfer toUser tenant found e) ∨
      ∃ active m, st.Transfers sid toUser tenant active m) := by
  intro transfer out
  have herror {e : Fault} (hrun : (Work.activeSegment? sid).run st = (.error e, st)) : out = (.error e, st) :=
    Work.run_transfer_of_error hrun fromUser reason
  have hrefused {found : Option Segment} {e : TransferFault} (hrun : (Work.activeSegment? sid).run st = (.ok found, st))
      (hrefused : st.RefusesTransfer toUser tenant found e) : out = (.error (.transfer e), st) :=
    Work.run_transfer_of_refused hrun hrefused fromUser reason
  have huntaken {active : Segment} {m : Member} (h : st.Transfers sid toUser tenant active m)
      (htakes : ¬ st.store.TakesHandover active st.now) : ∃ e, out = (.error (.refused e), st) := by
    obtain ⟨e, hrun⟩ := Work.run_handingTo_of_not_takes (m := m) (Work.found_of_activeSegment? h.found) hst h.isOpen htakes
      fromUser reason
    exact ⟨e, (Work.run_transfer_of_transfers h fromUser reason).trans hrun⟩
  have hmoves {active : Segment} {m : Member} (h : st.Transfers sid toUser tenant active m)
      (htakes : st.store.TakesHandover active st.now) := h.movesOn hst hcalm htakes fromUser reason
  refine ⟨fun e he hne => ?_, fun found e hrun h => hrefused hrun h, fun active m h => ⟨?_, huntaken h, hmoves h, ?_⟩, ?_⟩
  · rcases st.transfers_cases sid toUser tenant with ⟨e', hrun⟩ | ⟨found, e', hrun, h⟩ | ⟨active, m, h⟩
    · rw [herror hrun]
    · rw [hrefused hrun h]
    · by_cases htakes : st.store.TakesHandover active st.now
      · obtain ⟨old, new, -, hend⟩ := hmoves h htakes
        split at hend
        · exact absurd (Except.error.inj (he.symm.trans hend.1)) hne
        · cases he.symm.trans hend.1
      · obtain ⟨e', hrun⟩ := huntaken h htakes
        rw [hrun]
  · obtain ⟨skip, hstop⟩ := Work.exists_runTo_transfer h fromUser reason
    exact ⟨skip, _, hstop, fun st' hup hclosed => Work.run_handingTo_of_closed hup hclosed fromUser reason⟩
  · intro hchained
    obtain ⟨r, hr, hread⟩ := (Work.found_of_activeSegment? h.found).stored
    exact hchained.takesHandover_iff hr hread
  · rcases st.transfers_cases sid toUser tenant with ⟨e, hrun⟩ | hrefuses | htransfers
    · exact .inl ⟨e, hrun, herror hrun⟩
    · exact .inr (.inl hrefuses)
    · exact .inr (.inr htransfers)

theorem answered_call_moves_on :
    let s : Segment := { Segment.opened "T" "CA1" "CA1" 0 "inbound" .inProgress with answeredAt := some (.utc 0) }
    let held := State.holding [s]
    let st : State := { held with
      now := 5 * Time.second
      store := { held.store with members := [⟨"M2", "T", "U2", true⟩], users := [⟨"U2", "bob@example.com", none, none⟩] } }
    let out := (Work.transfer "CA1" "M2" (some "M1") none (some "T")).run st
    st.store.Identified ∧ st.conflicts = 0 ∧
      ∃ old new, out.1 = .ok (old, new) ∧ st.MovesOn out.2 s old new ∧ old.duration = some 5 ∧
        new.callSid = "CA1_transfer_1" ∧ new.status = .ringing := by
  intro s held st out
  have hst : st.store.Identified := by
    refine ⟨List.pairwise_singleton _ _, fun n _ r hr => ?_⟩
    rw [List.mem_singleton.1 hr]
    exact Store.sameId_empty n
  have htransfers : st.Transfers "CA1" "M2" (some "T") s ⟨"M2", "T", "U2", "bob@example.com", none, none⟩ := by
    refine ⟨?_, ?_, by decide, by decide, rfl⟩
    · rfl
    · intro t ht
      cases ht
      rfl
  have htakes : st.store.TakesHandover s st.now := ⟨by decide, by decide, by decide⟩
  obtain ⟨-, -, hserved, -⟩ := transfer_all_or_nothing st hst rfl "CA1" "M2" (some "M1") none (some "T")
  obtain ⟨old, new, hmoves, hend⟩ := (hserved _ _ htransfers).2.2.1 htakes
  rw [if_neg (by decide)] at hend
  refine ⟨hst, rfl, old, new, hend.1, hmoves, ?_, ?_, hend.2.status⟩
  · obtain ⟨d, hd, -, hanswered, -⟩ := hmoves.duration
    rw [hd, hanswered _ rfl]
    rfl
  · obtain ⟨q, hq, -, hnumber, -⟩ := hmoves.number
    rw [hmoves.callSid, hnumber, List.mem_singleton.1 hq]
    rfl

end Switchboard
