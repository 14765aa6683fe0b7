import Switchboard.Proofs.Attempt.LateJoin
import Switchboard.Proofs.Service.Asides
import Switchboard.Proofs.Service.Callbacks
import Switchboard.Service.Conference
/-!
# Reports about other attempts

What is reported about an attempt carries its number: the events of its conference, the ends of its legs, that a leg was
placed for it, that all were, and that the caller's dial is over.  The handlers look at the number inside the change that
they make, each on its own, so a report about another attempt is seen to be one only when the segment is read; until then
others may have changed it.  `Report.upholds` says what such a report comes to, whatever others do at its pauses: it changes
nothing and gives no decision, and the one thing it may ask for is that the leg which was placed for the other attempt be
ended.

The leave of an agent is looked at without its number; it is passed over as far as the leg is not the one that has answered.
-/
namespace Switchboard

/-! ## Reports -/

namespace Work

/-- Registers a leg that was placed, and ends it where it comes late. -/
def registerPlaced (sid : String) (number seq : Int) (leg : String) (target : DialTarget) : Work Unit := do
  match ← mutate sid number none (Segment.registerLeg seq leg target) with
  | some (_, true) => discard (terminateCall leg)
  | _ => return ()

/-- **A leg is placed and then registered.** -/
theorem placeLeg_eq (s : Segment) (target : DialTarget) : placeLeg s target = (do
    let leg := legFor (← callbacks) (← settings).phoneNumber s target
    match ← placeCall leg with
    | none => return []
    | some sid =>
      registerPlaced s.rootSid s.number s.scratch.attemptSeq sid target
      return [sid]) := by
  unfold placeLeg registerPlaced
  refine bind_congr fun urls => bind_congr fun settings => bind_congr fun placed => ?_
  cases placed with
  | none => rfl
  | some sid =>
    dsimp only
    rw [bind_assoc]
    refine bind_congr fun registered => ?_
    rcases registered with - | ⟨s, - | -⟩ <;> rfl

end Work

/-- **A leg is asked to be ended** at once. -/
theorem Work.upholds_terminateCall {rely guar : State → State → Prop} {st : State} {leg : String}
    (hguar : guar st (st.hangUp [leg])) :
    (discard (terminateCall leg)).Upholds (State.terms rely guar) (fun r st' => r = .ok () ∧ st' = st.hangUp [leg]) st := by
  have hended : (terminateCall leg).Upholds (State.terms rely guar)
      (fun r st' => (∃ done, r = .ok done) ∧ st' = st.hangUp [leg]) st :=
    Task.upholds_look.2 (Task.Upholds.bind (P := fun r st' => r = .ok () ∧ st' = st.hangUp [leg])
      (fun _ _ h => Task.upholds_pure.2 ⟨⟨_, rfl⟩, h.2⟩) (fun _ _ h => nomatch h.1)
      (Task.upholds_update.2 ⟨st.hangUp [leg], rfl, hguar, rfl, rfl⟩))
  refine Task.Upholds.bind (fun _ _ h => Task.upholds_pure.2 ⟨rfl, h.2⟩) (fun e _ h => ?_) hended
  obtain ⟨_, h⟩ := h.1
  cases h

/-- What is reported about an attempt of a segment. -/
inductive Report where
  /-- An event of the conference. -/
  | conference (event : Work.ConferenceEvent) (participant conferenceSid : Option String)
  /-- The status of a leg. -/
  | agentStatus (leg : String) (status : Status)
  /-- A leg was placed for a target. -/
  | placed (leg : String) (target : DialTarget)
  /-- Every leg was placed. -/
  | dialed
  /-- The caller's dial ended. -/
  | dialOver

namespace Report

/-- Serves a report about a segment that carries the number of an attempt. -/
def serve (sid : String) (number seq : Int) : Report → Work (Option Decision)
  | conference event participant conferenceSid => do
    Work.conferenceEvent sid number event participant (some seq) conferenceSid
    return none
  | agentStatus leg status => Work.legEnded sid number leg status (some seq)
  | placed leg target => do
    Work.registerPlaced sid number seq leg target
    return none
  | dialed => do
    Work.finishDialing sid number seq
    return none
  | dialOver => Work.claimAfterDial sid number (some seq)

/-- The leg that a report about another attempt has ended: one that is placed late. -/
def late : Report → List String
  | placed leg _ => [leg]
  | _ => []

/-- The agent's leg that a report says to have left. -/
def leaver? (sid : String) : Report → Option String
  | conference .left participant _ => if participant = some sid then none else Flow.given participant
  | _ => none

end Report

/-- A segment whose attempt is another one than that of a report; an agent who is reported to have left has not answered. -/
structure Segment.PassesOver (s : Segment) (sid : String) (seq : Int) (r : Report) : Prop where
  other : s.scratch.attemptSeq ≠ seq
  unanswered : ∀ leg, r.leaver? sid = some leg → s.scratch.answeredLeg ≠ some leg

namespace Segment

variable {s : Segment} {seq : Int}

theorem registerLeg_of_other (h : s.scratch.attemptSeq ≠ seq) (leg : String) (target : DialTarget) :
    s.registerLeg seq leg target = (s, true) := if_pos h

theorem finishDialing_of_other (h : s.scratch.attemptSeq ≠ seq) (now : Time.Instant) :
    s.finishDialing seq now = (s, none) := if_pos h

theorem callerJoined_of_other (h : s.scratch.attemptSeq ≠ seq) (conferenceSid : Option String) :
    s.callerJoined (some seq) conferenceSid = (s, false) := if_pos (isOther_some h)

theorem agentAnswered_of_other (h : s.scratch.attemptSeq ≠ seq) (leg : String) (now : Time.Instant) :
    s.agentAnswered leg (some seq) now = (s, []) := if_pos (isOther_some h)

theorem terminatePending_of_other (h : s.scratch.attemptSeq ≠ seq) :
    s.terminatePending (some seq) = (s, []) := if_pos (isOther_some h)

theorem legEnded_of_other (h : s.scratch.attemptSeq ≠ seq) (leg : String) (now : Time.Instant) :
    s.legEnded leg (some seq) now = (s, none) := if_pos (isOther_some h)

theorem claimAfterDial_of_other (h : s.scratch.attemptSeq ≠ seq) (now : Time.Instant) :
    s.claimAfterDial (some seq) now = (s, [], none) := if_pos (isOther_some h)

end Segment

/-! ## Work that changes nothing -/

/-- What is known of the state while work goes on that changes nothing, and what others may do meanwhile. -/
structure Watch where
  rely : State → State → Prop
  inv : State → Prop
  lasts : ∀ {st st'}, inv st → rely st st' → inv st'

namespace Watch

variable {W : Watch} {α β : Type} {t : Work α} {P : α → Prop} {R : β → Prop} {sid : String} {number : Int}

/-- The database may not be to be reached, or the number of the segment is out of its range. -/
def Fails (W : Watch) (number : Int) : Prop := (∃ st, W.inv st ∧ st.isUp = false) ∨ Store.fits number = false

/-- Work on a segment that changes nothing, whatever others do; what it gives is as `P` says. -/
structure Idles (W : Watch) (number : Int) (t : Work α) (P : α → Prop) : Prop where
  upholds : ∀ st, W.inv st → t.Upholds (State.terms W.rely fun st st' => st' = st)
    (fun r st' => W.inv st' ∧ ((∃ a, r = .ok a ∧ P a) ∨ (∃ e, r = .error e) ∧ W.Fails number)) st

/-- At every pause the row of a segment can be read, and the segment is of a kind. -/
def Reads (W : Watch) (sid : String) (number : Int) (good : Segment → Prop) : Prop :=
  ∀ st, W.inv st → ∃ r s, st.store.segmentRow (Naming.root sid) number none = some r ∧ r.read = .ok s ∧ good s

/-- Nobody else works while a task goes on that changes nothing. -/
def alone (st : State) : Watch where
  rely a b := b = a
  inv st' := st' = st
  lasts h h' := h'.trans h

theorem alone_reads {st : State} {row : CallRow} {s : Segment} {good : Segment → Prop}
    (hrow : st.store.segmentRow (Naming.root sid) number none = some row) (hread : row.read = .ok s) (hgood : good s) :
    (alone st).Reads sid number good := by
  intro st' hsame
  rw [show st' = st from hsame]
  exact ⟨row, s, hrow, hread, hgood⟩

theorem down_of_alone {st : State} (h : (alone st).Fails number) : st.isUp = false ∨ Store.fits number = false := by
  refine h.imp_left ?_
  rintro ⟨w, hw, hdown⟩
  cases hw
  exact hdown

namespace Idles

theorem pure {a : α} (h : P a) : W.Idles number (Pure.pure a) P :=
  ⟨fun _ hi => Task.upholds_pure.2 ⟨hi, .inl ⟨a, rfl, h⟩⟩⟩

theorem bind {f : α → Work β} (ht : W.Idles number t P) (hf : ∀ a, P a → W.Idles number (f a) R) :
    W.Idles number (t >>= f) R := by
  refine ⟨fun st hi => Task.Upholds.bind (fun a st' h => ?_) (fun e st' h => ?_) (ht.upholds st hi)⟩
  · obtain ⟨b, hb, hP⟩ | ⟨⟨e, he⟩, -⟩ := h.2
    · cases hb
      exact (hf a hP).upholds st' h.1
    · cases he
  · obtain ⟨b, hb, -⟩ | ⟨-, hfails⟩ := h.2
    · cases hb
    · exact ⟨h.1, .inr ⟨⟨e, rfl⟩, hfails⟩⟩

theorem discard (ht : W.Idles number t P) : W.Idles number (Functor.discard t) fun _ => True :=
  ht.bind fun _ _ => pure trivial

theorem asks (f : State → α) : W.Idles number (Task.asks f) fun _ => True :=
  ⟨fun _ hi => Task.upholds_asks.2 ⟨hi, .inl ⟨_, rfl, trivial⟩⟩⟩

theorem interrupt (p : Point) : W.Idles number (Task.interrupt p : Work Unit) fun _ => True :=
  ⟨fun _ hi => Task.upholds_interrupt.2 fun _ hr => ⟨W.lasts hi hr, .inl ⟨(), rfl, trivial⟩⟩⟩

section Reads

variable {good : Segment → Prop} (hreads : W.Reads sid number good)
include hreads

/-- **The segment is found and read**, or the database does not answer. -/
theorem segment? : W.Idles number (Work.segment? sid number none) fun s => ∃ t, s = some t ∧ good t := by
  refine ⟨fun st hi => ?_⟩
  obtain ⟨r, s, hrow, hread, hgood⟩ := hreads st hi
  have hfound : (Work.readRow? (some r)) = Task.done (some s) := by
    show (Task.ofExcept (r.read.mapError Fault.document) >>= fun s => Task.done (some s)) = _
    rw [hread]
    rfl
  refine Task.Upholds.bind (P := fun row st' => W.inv st' ∧
    (row = .ok (some r) ∨ (∃ e, row = .error e) ∧ W.Fails number)) (fun row st' h => ?_) (fun e st' h => ?_) ?_
  · obtain hrow | ⟨⟨e, he⟩, -⟩ := h.2
    · cases hrow
      rw [hfound]
      exact Task.upholds_pure.2 ⟨h.1, .inl ⟨_, rfl, s, rfl, hgood⟩⟩
    · cases he
  · obtain hrow | ⟨-, hfails⟩ := h.2
    · cases hrow
    · exact ⟨h.1, .inr ⟨⟨e, rfl⟩, hfails⟩⟩
  · refine Work.upholds_statement_of_fault (fun row db hok => ?_) (fun hdown => ?_) fun e herr => ?_
    · split at hok
      · cases hok
        exact ⟨st, rfl, rfl, fun st' hr => ⟨W.lasts hi hr, .inl (congrArg Except.ok hrow)⟩⟩
      · cases hok
    · exact ⟨hi, .inr ⟨⟨_, rfl⟩, .inl ⟨st, hi, hdown⟩⟩⟩
    · split at herr
      · cases herr
      · exact ⟨hi, .inr ⟨⟨_, rfl⟩, .inr (Bool.eq_false_iff.2 ‹_›)⟩⟩

/-- **A change that leaves the segment as it is** gives what it gives, and writes nothing. -/
theorem mutate {f : Segment → Segment × α} {a : α} (hf : ∀ s, good s → f s = (s, a)) :
    W.Idles number (Work.mutate sid number none f) fun r => ∃ s, r = some (s, a) := by
  unfold Work.mutate Work.mutateTries Work.mutateWithin
  refine (segment? hreads).bind fun found hfound => (interrupt _).bind fun _ _ => ?_
  obtain ⟨s, rfl, hgood⟩ := hfound
  dsimp only
  rw [Option.any_none, if_neg Bool.false_ne_true, hf s hgood]
  dsimp only
  rw [if_pos rfl]
  exact pure ⟨s, rfl⟩

end Reads

/-- **Work that changes nothing, run alone**, ends well where the database answers. -/
theorem run_alone {good : Segment → Prop} {st : State} {row : CallRow} {s : Segment}
    (ht : ∀ W : Watch, W.Reads sid number good → W.Idles number t P)
    (hrow : st.store.segmentRow (Naming.root sid) number none = some row) (hread : row.read = .ok s) (hgood : good s)
    (hup : st.isUp = true) (hfits : Store.fits number = true) : ∃ a, t.run st = (.ok a, st) ∧ P a := by
  have hst : (alone st).inv st := rfl
  obtain ⟨hsame, hends⟩ := ((ht _ (alone_reads hrow hread hgood)).upholds st hst).ends fun _ => rfl
  rcases hends with ⟨a, ha, hPa⟩ | ⟨-, hfails⟩
  · exact ⟨a, Prod.ext ha hsame, hPa⟩
  · rcases down_of_alone hfails with hdown | hrange
    · rw [hup] at hdown
      cases hdown
    · rw [hfits] at hrange
      cases hrange

/-! ## The handlers -/

section Handlers

variable {seq : Int} {r : Report} (hreads : W.Reads sid number fun s => s.PassesOver sid seq r)
include hreads

theorem callerJoined (conferenceSid : Option String) :
    W.Idles number (Work.callerJoined sid number (some seq) conferenceSid) fun _ => True := by
  refine (mutate hreads fun s hs => Segment.callerJoined_of_other hs.other _).bind fun found hfound => ?_
  obtain ⟨s, rfl⟩ := hfound
  exact pure trivial

theorem agentAnswered (leg : String) :
    W.Idles number (Work.agentAnswered sid number leg (some seq)) fun _ => True := by
  refine (asks _).bind fun now _ => ?_
  refine (mutate hreads fun s hs => Segment.agentAnswered_of_other hs.other leg now).bind fun found hfound => ?_
  obtain ⟨s, rfl⟩ := hfound
  exact pure trivial

theorem terminatePending : W.Idles number (Work.terminatePending sid number (some seq)) fun _ => True := by
  refine (mutate hreads fun s hs => Segment.terminatePending_of_other hs.other).bind fun found hfound => ?_
  obtain ⟨s, rfl⟩ := hfound
  exact (pure trivial : W.Idles number (Pure.pure ()) fun _ => True).bind fun _ _ => pure trivial

theorem agentLeft {leg : String} (hleft : r.leaver? sid = some leg) :
    W.Idles number (Work.agentLeft sid number leg) fun _ => True := by
  refine (segment? hreads).bind fun found hfound => ?_
  obtain ⟨s, rfl, hs⟩ := hfound
  dsimp only
  rw [if_neg fun h => hs.unanswered leg hleft h.2]
  exact pure trivial

theorem finishDialing : W.Idles number (Work.finishDialing sid number seq) fun _ => True := by
  refine (asks _).bind fun now _ => ?_
  refine (mutate hreads fun s hs => Segment.finishDialing_of_other hs.other now).bind fun found hfound => ?_
  obtain ⟨s, rfl⟩ := hfound
  exact pure trivial

theorem legEnded (leg : String) (status : Status) :
    W.Idles number (Work.legEnded sid number leg status (some seq)) (· = none) := by
  unfold Work.legEnded
  split
  · exact pure rfl
  · refine (asks _).bind fun now _ => ?_
    refine (mutate hreads fun s hs => Segment.legEnded_of_other hs.other leg now).bind fun found hfound => ?_
    obtain ⟨s, rfl⟩ := hfound
    exact (pure trivial : W.Idles number (Pure.pure ()) fun _ => True).bind fun _ _ => pure rfl

theorem claimAfterDial : W.Idles number (Work.claimAfterDial sid number (some seq)) (· = none) := by
  refine (asks _).bind fun now _ => ?_
  refine (mutate hreads fun s hs => Segment.claimAfterDial_of_other hs.other now).bind fun found hfound => ?_
  obtain ⟨s, rfl⟩ := hfound
  exact (pure trivial : W.Idles number (Pure.pure ()) fun _ => True).bind fun _ _ => pure rfl

end Handlers

theorem conferenceEvent {seq : Int} (event : Work.ConferenceEvent) (participant conferenceSid : Option String)
    (hreads : W.Reads sid number fun s => s.PassesOver sid seq (.conference event participant conferenceSid)) :
    W.Idles number (Work.conferenceEvent sid number event participant (some seq) conferenceSid) fun _ => True := by
  cases event with
  | joined =>
    dsimp only [Work.conferenceEvent]
    split
    · exact callerJoined hreads conferenceSid
    · split
      · exact agentAnswered hreads _
      · exact pure trivial
  | left =>
    dsimp only [Work.conferenceEvent]
    split
    · exact (terminatePending hreads).discard
    · rename_i hcaller
      split
      · rename_i leg hleg
        exact agentLeft hreads ((if_neg hcaller).trans hleg)
      · exact pure trivial
  | ended => exact (terminatePending hreads).discard
  | other => exact pure trivial

end Idles

end Watch

/-! ## What a late report comes to -/

/-- A report that was passed over: no decision, and no change but that the leg which came late was asked to be ended; or the
database failed, and there is no change at all. -/
def Watch.Over (W : Watch) (number : Int) (legs : List String) (r : Except Fault (Option Decision)) (st : State) : Prop :=
  (r = .ok none ∧ ∃ w, W.inv w ∧ st = w.hangUp legs) ∨ (∃ e, r = .error e) ∧ W.inv st ∧ W.Fails number

/-- **A report about another attempt is passed over**, whatever others do at its pauses. -/
theorem Report.upholds {W : Watch} {sid : String} {number seq : Int} (r : Report)
    (hreads : W.Reads sid number fun s => s.PassesOver sid seq r) {st : State} (hst : W.inv st) :
    (r.serve sid number seq).Upholds (State.terms W.rely fun st st' => st' = st ∨ st' = st.hangUp r.late)
      (W.Over number r.late) st := by
  have hidle {t : Work (Option Decision)} (ht : W.Idles number t (· = none)) (hlate : r.late = []) :
      t.Upholds (State.terms W.rely fun st st' => st' = st ∨ st' = st.hangUp r.late) (W.Over number r.late) st := by
    refine Task.Upholds.mono (fun res st' h => ?_)
      ((ht.upholds st hst).of_terms (fun _ _ h => h) fun _ _ => .inl)
    rw [hlate]
    obtain ⟨a, rfl, rfl⟩ | ⟨he, hfails⟩ := h.2
    · exact .inl ⟨rfl, st', h.1, (State.hangUp_nil st').symm⟩
    · exact .inr ⟨he, h.1, hfails⟩
  cases r with
  | conference event participant conferenceSid =>
    exact hidle ((Watch.Idles.conferenceEvent event participant conferenceSid hreads).bind fun _ _ => .pure rfl) rfl
  | agentStatus leg status => exact hidle (.legEnded hreads leg status) rfl
  | dialed => exact hidle ((Watch.Idles.finishDialing hreads).bind fun _ _ => .pure rfl) rfl
  | dialOver => exact hidle (.claimAfterDial hreads) rfl
  | placed leg target =>
    have hmutate := Watch.Idles.mutate hreads fun s hs => Segment.registerLeg_of_other hs.other leg target
    have hregister : (Work.registerPlaced sid number seq leg target).Upholds
        (State.terms W.rely fun st st' => st' = st ∨ st' = st.hangUp [leg])
        (fun res st' => (res = .ok () ∧ ∃ w, W.inv w ∧ st' = w.hangUp [leg]) ∨
          (∃ e, res = .error e) ∧ W.inv st' ∧ W.Fails number) st := by
      refine Task.Upholds.bind (fun found st' h => ?_) (fun e st' h => ?_)
        ((hmutate.upholds st hst).of_terms (fun _ _ h => h) fun _ _ => .inl)
      · obtain ⟨a, ha, s, rfl⟩ | ⟨⟨e, he⟩, -⟩ := h.2
        · cases ha
          exact Task.Upholds.mono (fun _ _ h' => .inl ⟨h'.1, st', h.1, h'.2⟩) (Work.upholds_terminateCall (.inr rfl))
        · cases he
      · obtain ⟨a, ha, -⟩ | ⟨-, hfails⟩ := h.2
        · cases ha
        · exact .inr ⟨⟨e, rfl⟩, h.1, hfails⟩
    refine Task.Upholds.bind (fun _ st' h => Task.upholds_pure.2 ?_) (fun e st' h => ?_) hregister
    · obtain ⟨-, hended⟩ | ⟨⟨e, he⟩, -⟩ := h
      · exact .inl ⟨rfl, hended⟩
      · cases he
    · obtain ⟨he, -⟩ | ⟨-, hrest⟩ := h
      · cases he
      · exact .inr ⟨⟨e, rfl⟩, hrest⟩

/-- **A report about another attempt that is served alone** is passed over: the segment, its revision and everything else
stays as it is, and a leg that came late is asked to be ended.  Where the database fails nothing happens at all. -/
theorem Report.run_of_other {st : State} {row : CallRow} {s : Segment} {sid : String} {number seq : Int} (r : Report)
    (hrow : st.store.segmentRow (Naming.root sid) number none = some row) (hread : row.read = .ok s)
    (hpasses : s.PassesOver sid seq r) :
    (st.isUp = true → Store.fits number = true → (r.serve sid number seq).run st = (.ok none, st.hangUp r.late)) ∧
      ((r.serve sid number seq).run st = (.ok none, st.hangUp r.late) ∨
        ∃ e, (r.serve sid number seq).run st = (.error e, st)) := by
  have hst : (Watch.alone st).inv st := rfl
  have hover := (r.upholds (Watch.alone_reads hrow hread hpasses) hst).ends fun _ => rfl
  have hboth : (r.serve sid number seq).run st = (.ok none, st.hangUp r.late) ∨
      (∃ e, (r.serve sid number seq).run st = (.error e, st)) ∧ (st.isUp = false ∨ Store.fits number = false) := by
    rcases hover with ⟨hnone, w, hw, hended⟩ | ⟨⟨e, herror⟩, hsame, hfails⟩
    · cases hw
      exact .inl (Prod.ext hnone hended)
    · exact .inr ⟨⟨e, Prod.ext herror hsame⟩, Watch.down_of_alone hfails⟩
  refine ⟨fun hup hfits => hboth.resolve_right fun h => ?_, hboth.imp id And.left⟩
  rcases h.2 with hdown | hrange
  · rw [hup] at hdown
    cases hdown
  · rw [hfits] at hrange
    cases hrange

/-- **A leg that is placed for another attempt** is asked to be ended at once. -/
theorem Work.run_placeLeg_of_other {st : State} {row : CallRow} {s old : Segment} (target : DialTarget)
    (hrow : st.store.segmentRow (Naming.root old.rootSid) old.number none = some row) (hread : row.read = .ok s)
    (hother : s.scratch.attemptSeq ≠ old.scratch.attemptSeq) (hup : st.isUp = true)
    (hfits : Store.fits old.number = true) :
    let leg := legFor (.ofBase st.settings.baseUrl) st.settings.phoneNumber old target
    (placeLeg old target).run st =
      if st.exchange.unreachable.contains leg.destination then
        (.ok [], { st with requests := st.requests ++ [.place leg none] })
      else (.ok [st.exchange.nextLeg], (st.withPlaced leg).hangUp [st.exchange.nextLeg]) := by
  intro leg
  rw [placeLeg_eq, Task.run_bind_ok (run_callbacks st), Task.run_bind_ok (run_settings st)]
  by_cases hrefused : st.exchange.unreachable.contains leg.destination = true
  · have hplace := run_placeCall leg st
    rw [if_pos hrefused] at hplace ⊢
    rw [Task.run_bind_ok hplace]
    rfl
  · have hplace := run_placeCall leg st
    rw [if_neg hrefused] at hplace ⊢
    rw [Task.run_bind_ok hplace]
    have hfound : (st.withPlaced leg).store.segmentRow (Naming.root old.rootSid) old.number none = some row := hrow
    have hserved := ((Report.placed st.exchange.nextLeg target).run_of_other hfound hread
      ⟨hother, fun _ h => nomatch h⟩).1 hup hfits
    have hregister : (registerPlaced old.rootSid old.number old.scratch.attemptSeq st.exchange.nextLeg target).run
        (st.withPlaced leg) = (.ok (), (st.withPlaced leg).hangUp [st.exchange.nextLeg]) := by
      cases hrun : (registerPlaced old.rootSid old.number old.scratch.attemptSeq st.exchange.nextLeg target).run
          (st.withPlaced leg) with
      | mk res st' =>
        cases res with
        | ok a =>
          rw [Report.serve, Task.run_bind_ok hrun] at hserved
          have hst' : st' = (st.withPlaced leg).hangUp [st.exchange.nextLeg] := congrArg Prod.snd hserved
          rw [hst']
        | error e =>
          rw [Report.serve, Task.run_bind_error hrun] at hserved
          cases hserved
    exact Task.run_bind_ok hregister

end Switchboard
