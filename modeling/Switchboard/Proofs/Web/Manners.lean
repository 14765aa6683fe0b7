import Switchboard.Proofs.Service.Continuations
import Switchboard.Proofs.Web.Requests
/-!
# Requests in a manner

Serving a request is made of few kinds of changes: deeds on segments, changes of columns, writes of flows and lines, the
opening of a call and orders to the telephone provider; and of transfers.  A manner that allows these is one in which every
request is served (`Serves.makes_serve`).
-/
namespace Switchboard

open Web (Event Hook Command Party)

/-- An event tells that the caller of a call joined its conference. -/
def Web.Event.joins (e : Event) (sid : String) : Prop :=
  Work.ConferenceEvent.ofName (e.text "StatusCallbackEvent") = .joined ∧ e.form.last? "CallSid" = some sid

namespace Manner

variable {M : Manner} {α : Type}

/-! ## Flows -/

namespace Makes

section Flows

variable (hmutates : M.Mutates)
include hmutates

theorem permits (c : CallContext) : Work.Permits (fun _ _ => True) c M where
  tags name value _ _ := hmutates (Segment.addTag name value) (.addTag name value) (fun _ => rfl) _ _ _
  entries name value _ _ := hmutates (Segment.setVariable name value) (.setVariable name value) (fun _ => rfl) _ _ _
  attempts p _ attempt type destinations targets callerId timeout record _ _ :=
    hmutates (Segment.startAttempt (p.token c.flowId c.lineId attempt type destinations) targets callerId timeout record)
      (.act (.start _ targets callerId timeout record)) (fun _ => rfl) _ _ _
  nested _ _ _ _ := trivial

theorem execute (steps : Flow.Steps) (c : CallContext) (mode : Mode) (branch : Option String) (index : Int)
    (attempt : Option Int) : M.Makes (Work.execute steps c mode branch index attempt) fun _ => True := by
  rw [← Work.fst_traceExecute]
  exact ((permits hmutates c).makes_traceExecute (fun _ _ => trivial) mode index attempt).map fun _ _ => trivial

theorem handleAction (steps : Flow.Steps) (c : CallContext) (branch : Option String) (index : Int) (r : Work.Reply) :
    M.Makes (Work.handleAction steps c branch index r) fun _ => True := by
  rw [← Work.fst_traceAction]
  exact ((permits hmutates c).makes_traceAction (fun _ _ => trivial) index r).map fun _ _ => trivial

theorem incoming {tenant line : String} {e : Event} (hopens : M.Opens (Web.incomingCall tenant e)) :
    M.Makes (Web.incoming tenant line e) fun _ => True := by
  refine (tame (Scope.Keeps.tame_lineOf tenant line)).bind fun l _ => ?_
  cases l with
  | none => exact pure trivial
  | some l =>
    refine (createCall hopens).bind fun s _ => ?_
    split
    · exact pure trivial
    · exact (execute hmutates _ _ _ _ _ _).bind fun _ _ => pure trivial

theorem continueFlow {tenant line : String} {e : Event}
    (hdial : e.address.given "action" = some "round_robin" → M.Makes (Web.afterDial tenant e) fun _ => True) :
    M.Makes (Web.continueFlow tenant line e) fun _ => True := by
  refine (tame (Scope.Keeps.tame_lineOf tenant line)).bind fun l _ => ?_
  cases l with
  | none => exact pure trivial
  | some l =>
    dsimp only
    split
    · exact pure trivial
    · split
      · exact hdial ‹_›
      · refine (latest? e.sid (some tenant)).bind fun s _ => ?_
        cases s with
        | none => exact pure trivial
        | some s => exact (handleAction hmutates _ _ _ _ _).bind fun _ _ => pure trivial

end Flows

/-! ## Answers -/

theorem orElse {fallback : Response} {t : Work Response} (h : M.Makes t fun _ => True) :
    M.Makes (Web.orElse fallback t) fun _ => True :=
  h.recover (fun _ _ => trivial) fun _ => pure trivial

theorem passing {e : Except Web.Reply α} {k : α → Work Web.Reply} (h : ∀ a, M.Makes (k a) fun _ => True) :
    M.Makes (Web.passing e k) fun _ => True := by
  unfold Web.passing
  split
  · exact h _
  · exact pure trivial

theorem passed {c : Input.Checked α} {k : α → Work Web.Reply} (h : ∀ a, M.Makes (k a) fun _ => True) :
    M.Makes (Web.passed c k) fun _ => True := passing h

theorem limited {t : Traffic} {r : Web.Request} {work : Work Web.Reply} (h : M.Makes work fun _ => True) :
    M.Makes (Web.limited t r work) fun _ => True := by
  have hadmit : M.Makes ( Work.admit t r.path) fun _ => True := by
    refine atomically fun st a st' _ hok => ⟨M.aside ?_, trivial⟩
    cases hok
    exact ⟨rfl, rfl, rfl, rfl, rfl⟩
  refine hadmit.bind fun admitted _ => ?_
  split
  · exact h
  · exact pure trivial

end Makes

/-- A manner in which hooks are served, where they place no leg. -/
structure Attends (M : Manner) (opens : String → Prop) : Prop where
  mutates : M.Mutates
  updates : M.Updates
  moves : M.Moves
  opens : ∀ c : Work.NewCall, opens c.sid → M.Opens c

/-- A manner in which requests are served: whatever they do is allowed, and calls are opened under ids of a kind. -/
structure Serves (M : Manner) (opens : String → Prop) : Prop where
  mutates : M.Mutates
  updates : M.Updates
  orders : ∀ r, M.Orders r
  tables : M.WritesTables
  opens : ∀ c : Work.NewCall, opens c.sid → M.Opens c
  transfers : ∀ sid toUser fromUser reason tenant, M.Makes (Work.transfer sid toUser fromUser reason tenant) fun _ => True

namespace Attends

open Makes

variable {opens : String → Prop} (hM : M.Attends opens)
include hM

set_option linter.unusedSectionVars false

/-! ## Transcripts and recordings -/

theorem update (id : String) {changes : List Store.Change} (hspares : changes.all Store.Change.sparesRoom = true) :
    M.Makes (Work.updateCall id changes) fun _ => True :=
  updateCall hM.updates id hspares

theorem putTranscript (status : String) (s : Segment) (text : String) :
    M.Makes (Work.putTranscript status s text) fun _ => True := (hM.update _ rfl).discard

theorem setTranscriptStatus (status : String) (s : Segment) : M.Makes (Work.setTranscriptStatus status s) fun _ => True :=
  (hM.update _ rfl).discard

theorem putParts (status : String) : ∀ parts : List (Segment × Transcript Float),
    M.Makes (Work.putParts status parts) fun _ => True
  | [] => pure trivial
  | (s, part) :: rest => (hM.putTranscript status s part.toText).bind fun _ _ => putParts status rest

theorem applyTranscript (sid raw status : String) (asOf : Option Time.Instant) :
    M.Makes (Work.applyTranscript sid raw status asOf) fun _ => True := by
  refine (tame (Work.tame_chain sid none)).bind fun ss _ => ?_
  cases ss with
  | nil => exact pure trivial
  | cons first rest =>
    refine (hM.update _ rfl).discard.bind fun _ _ => ?_
    dsimp only
    split
    · exact (hM.putTranscript status first raw).bind fun _ _ => pure trivial
    · refine (tame (Work.tame_timed raw)).bind fun t _ => ?_
      cases t with
      | none => exact (forM (fun s => hM.putTranscript status s raw) (first :: rest)).bind fun _ _ => pure trivial
      | some t =>
        refine (tame Work.tame_now).bind fun now _ => ?_
        split
        · exact (fail _).bind (P := fun _ => True) fun _ _ => pure trivial
        · exact (hM.putParts status _).bind fun _ _ => pure trivial

theorem resegment (sid : String) : M.Makes (Work.resegment sid) fun _ => True := by
  refine (tame (Work.tame_chain sid none)).bind fun ss _ => ?_
  split
  · exact pure trivial
  · exact hM.applyTranscript _ _ _ _

theorem resegmentEach : ∀ sids : List String, M.Makes (Work.resegmentEach sids) fun _ => True
  | [] => pure trivial
  | sid :: rest => by
    refine (tame (Work.tame_chain sid none)).bind fun ss _ => ?_
    split
    · exact (resegmentEach rest).bind fun _ _ => pure trivial
    · refine (hM.resegment sid).attempt.bind fun r _ => ?_
      cases r with
      | ok n => exact (resegmentEach rest).bind fun _ _ => pure trivial
      | error e => exact (resegmentEach rest).bind fun _ _ => pure trivial

theorem attachToSegment (sid : String) (number : Int) (r : Work.Recording) :
    M.Makes (Work.attachToSegment sid number r) fun _ => True := by
  refine (tame (Work.tame_segment? sid number none)).bind fun s _ => ?_
  cases s with
  | none => exact pure trivial
  | some s =>
    refine (tame (Work.tame_keepRecording _ _ _)).bind fun kept _ => ?_
    cases kept with
    | none => exact (hM.update _ rfl).bind fun _ _ => pure trivial
    | some kept => exact (hM.update _ rfl).bind fun _ _ => pure trivial

theorem attachPart (r : Work.Recording) (url : Option String) (s : Segment) :
    M.Makes (Work.attachPart r url s) fun _ => True := by
  refine (hM.update _ ?_).bind fun _ _ => pure trivial
  cases url with
  | none => rfl
  | some u =>
    dsimp only
    split <;> rfl

theorem attachToChain (sid : String) (r : Work.Recording) : M.Makes (Work.attachToChain sid r) fun _ => True := by
  refine (tame (Work.tame_chain sid none)).bind fun ss _ => ?_
  cases ss with
  | nil => exact pure trivial
  | cons first rest =>
    refine (tame (Work.tame_keepRecording _ _ _)).bind fun kept _ => ?_
    exact (mapM (hM.attachPart r _) (first :: rest)).bind fun _ _ => pure trivial

theorem transcribeSegment (s : Segment) (audio : String) : M.Makes (Work.transcribeSegment s audio) fun _ => True := by
  refine (hM.setTranscriptStatus "processing" s).bind fun _ _ => (tame (Work.tame_transcribe audio)).bind fun t _ => ?_
  cases t with
  | none => exact hM.setTranscriptStatus "failed" s
  | some t => exact hM.putTranscript "completed" s t.toText

theorem transcribeChain (sid audio : String) : M.Makes (Work.transcribeChain sid audio) fun _ => True := by
  refine (tame (Work.tame_chain sid none)).bind fun ss _ => ?_
  refine (forM (hM.setTranscriptStatus "processing") ss).bind fun _ _ => ?_
  refine (tame (Work.tame_transcribe audio)).bind fun t _ => ?_
  cases t with
  | none => exact forM (hM.setTranscriptStatus "failed") ss
  | some t => exact (hM.applyTranscript _ _ _ _).discard

theorem storeTranscription (sid : String) (text : Option String) (status : String) :
    M.Makes (Work.storeTranscription sid text status) fun _ => True := by
  refine (latest? sid none).bind fun s _ => ?_
  cases s with
  | none => exact pure trivial
  | some s => exact hM.update _ rfl

/-! ## Hooks -/

theorem forOwnCall (tenant sid : String) {t : Work Unit} (ht : M.Makes t fun _ => True) :
    M.Makes (Web.forOwnCall tenant sid t) fun _ => True := by
  have howns : M.Makes (Web.ownsCall tenant sid) fun _ => True :=
    (tame (Work.tame_segment? sid 0 (some tenant))).bind fun _ _ => pure trivial
  refine quietly (P := fun _ => True) (howns.bind fun owns _ => ?_)
  split
  · exact ht
  · exact pure trivial

theorem callerStatus (tenant : String) (e : Event) : M.Makes (Web.callerStatus tenant e) fun _ => True := by
  refine (latest? e.sid (some tenant)).bind fun s _ => ?_
  cases s with
  | none => exact pure trivial
  | some s =>
    dsimp only
    split
    · refine (tame Work.tame_now).bind fun now _ => ?_
      refine (hM.mutates (Segment.callerGone _ now) (.callerGone _ now ‹_›) (fun _ => rfl) _ _ _).discard.bind fun _ _ => ?_
      exact (terminatePending hM.mutates hM.moves _ _ _).discard
    · split
      · exact (hM.mutates Segment.callerRinging .callerRinging (fun _ => rfl) _ _ _).discard
      · exact pure trivial

theorem afterDial (tenant : String) (e : Event) : M.Makes (Web.afterDial tenant e) fun _ => True := by
  refine (latest? e.sid (some tenant)).bind fun s _ => ?_
  cases s with
  | none => exact pure trivial
  | some s =>
    dsimp only
    split
    · exact pure trivial
    · refine (claimAfterDial hM.mutates hM.moves _ _ _).bind fun d _ => ?_
      cases d with
      | none => exact pure trivial
      | some d =>
        refine (tame Work.tame_callbacks).bind fun _ _ => ?_
        split <;> exact pure trivial

theorem agentStatus (tenant sid : String) (number : Int) (e : Event) :
    M.Makes (Web.agentStatus tenant sid number e) fun _ => True := by
  unfold Web.agentStatus
  dsimp only
  split
  · exact hM.forOwnCall _ _ (legEnded hM.mutates hM.moves _ _ _ _ _).discard
  · exact pure trivial

theorem segmentRecording (tenant sid : String) (number : Int) (e : Event) :
    M.Makes (Web.segmentRecording tenant sid number e) fun _ => True := by
  unfold Web.segmentRecording
  split
  · refine hM.forOwnCall _ _ ((hM.attachToSegment sid number e.recording).bind fun p _ => ?_)
    split
    · split
      · exact pure trivial
      · exact hM.transcribeSegment _ _
    · exact pure trivial
  · exact pure trivial

theorem chainRecording (tenant sid : String) (e : Event) : M.Makes (Web.chainRecording tenant sid e) fun _ => True := by
  unfold Web.chainRecording
  split
  · refine hM.forOwnCall _ _ ((hM.attachToChain sid e.recording).bind fun p _ => ?_)
    split
    · split
      · exact pure trivial
      · exact hM.transcribeChain _ _
    · exact pure trivial
  · exact pure trivial

theorem voicemail (tenant sid : String) (e : Event) : M.Makes (Web.voicemail tenant sid e) fun _ => True := by
  refine quietly (P := fun _ => True) ((latest? sid (some tenant)).bind fun s _ => ?_)
  split
  · exact (hM.update _ rfl).discard
  · exact pure trivial

theorem outgoing {e : Event} (hsid : opens e.sid) : M.Makes (Web.outgoing e) fun _ => True := by
  have hcall (tenant user number callerId : String) : M.Makes (do
      let member ← Work.member? tenant user
      Functor.discard (Work.createCall
        { tenant, sid := e.sid, direction := "outbound", fromNumber := some callerId, toNumber := some number
          status := .ringing, callerId := member.map Member.tenantUserId })
      let urls ← Work.callbacks
      return [.callOut ⟨number, callerId, urls.outgoingStatus tenant, urls.recording tenant e.sid none⟩] : Work Response)
      fun _ => True := by
    refine (tame (Work.tame_query _)).bind fun member _ => (createCall (hM.opens _ hsid)).discard.bind fun _ _ => ?_
    exact (tame Work.tame_callbacks).bind fun _ _ => pure trivial
  unfold Web.outgoing
  split
  · exact pure trivial
  · split
    · exact pure trivial
    · unfold Web.callOut
      dsimp only
      split
      · exact hcall _ _ _ _
      · refine (tame (Work.tame_query _)).bind fun line _ => ?_
        split
        · exact hcall _ _ _ _
        · exact (tame Work.tame_settings).bind fun _ _ => hcall _ _ _ _

theorem outgoingStatus (e : Event) : M.Makes (Web.outgoingStatus e) fun _ => True := by
  unfold Web.outgoingStatus
  dsimp only
  refine (latest? e.sid _).bind fun s _ => ?_
  cases s with
  | none => exact pure trivial
  | some s =>
    refine (tame Work.tame_now).bind fun now _ => ?_
    exact (hM.mutates (Segment.outgoingFinished _ _ now) (.outgoingFinished _ _ now) (fun _ => rfl) _ _ _).discard

/-- **A hook is served in a manner that places no leg**, but for the join of a caller. -/
theorem hook (h : Hook Int) {e : Event} (hsid : opens e.sid)
    (hjoins : ∀ tenant sid number, h = .conference tenant sid number → e.joins sid →
      M.Makes (Work.callerJoined sid number e.seq (e.form.last? "ConferenceSid")) fun _ => True) :
    M.Makes (h.run e) fun _ => True := by
  have hanswer {t : Work Response} (ht : M.Makes t fun _ => True) : M.Makes (Hook.run.answer t) fun _ => True :=
    ht.bind fun _ _ => pure trivial
  have hfollowed {r : Response} {t : Work Unit} (ht : M.Makes t fun _ => True) :
      M.Makes (Hook.run.followed r t) fun _ => True := (quietly ht).bind fun _ _ => pure trivial
  have hevent {t : Work Unit} (ht : M.Makes t fun _ => True) : M.Makes (Hook.run.event t) fun _ => True :=
    (quietly ht).bind fun _ _ => pure trivial
  cases h with
  | incoming tenant line => exact hanswer (orElse (incoming hM.mutates (hM.opens _ hsid)))
  | incomingStatus tenant line => exact hevent (hM.callerStatus tenant e)
  | flow tenant line => exact hanswer (orElse (continueFlow hM.mutates fun _ => hM.afterDial tenant e))
  | dialStatus tenant line => exact hanswer (orElse (hM.afterDial tenant e))
  | conference tenant sid number =>
    refine hfollowed (hM.forOwnCall tenant sid (conferenceEvent hM.mutates hM.moves _ _ _ _ _ _ fun hevent hcaller => ?_))
    exact hjoins tenant sid number rfl ⟨hevent, hcaller⟩
  | agentStatus tenant sid number => exact hfollowed (hM.agentStatus tenant sid number e)
  | ring => exact hanswer (pure trivial)
  | segmentRecording tenant sid number => exact hevent (hM.segmentRecording tenant sid number e)
  | chainRecording tenant sid => exact hevent (hM.chainRecording tenant sid e)
  | voicemail tenant sid => exact hfollowed (hM.voicemail tenant sid e)
  | transcription tenant sid => exact hevent (hM.forOwnCall tenant sid (hM.storeTranscription _ _ _).discard)
  | outgoing => exact hanswer (orElse (hM.outgoing hsid))
  | outgoingStatus => exact hfollowed (hM.outgoingStatus e)

end Attends

namespace Serves

open Makes

variable {opens : String → Prop} (hM : M.Serves opens)
include hM

set_option linter.unusedSectionVars false

theorem attends : M.Attends opens := ⟨hM.mutates, hM.updates, fun r _ => hM.orders r, hM.opens⟩

/-! ## Flows -/

/-- A statement that leaves calls alone. -/
theorem table {f : Store → Except StoreFault (α × Store)}
    (h : ∀ db a db', f db = .ok (a, db') → db'.calls = db.calls ∧ db.counted ≤ db'.counted) :
    M.Makes (Work.statement f) fun _ => True :=
  statement fun st a db _ hok => ⟨hM.tables st db (h _ a db hok).1 (h _ a db hok).2, trivial⟩

theorem createFlow (tenant : String) (d : FlowDraft) : M.Makes (Work.createFlow tenant d) fun _ => True := by
  refine (tame (Work.tame_prepareSteps _)).bind fun steps _ => (tame Work.tame_now).bind fun now _ => ?_
  split
  · exact fail _
  · refine (hM.table fun db row db' hok => ?_).bind fun row _ => tame (Work.tame_showFlow row)
    split at hok
    · cases hok
      exact ⟨rfl, Nat.le_succ _⟩
    · cases hok

theorem changeFlow (tenant id : String) (c : Store.FlowChange) (now : Time.Instant) :
    M.Makes (Work.statement (Store.changeFlow tenant id c now)) fun _ => True := by
  refine hM.table fun db row db' hok => ?_
  unfold Store.changeFlow at hok
  split at hok
  · cases hok
    exact ⟨rfl, le_refl _⟩
  · split at hok
    · cases hok
    · cases hok
      exact ⟨rfl, le_refl _⟩

theorem updateFlow (tenant id : String) (d : FlowDraft) : M.Makes (Work.updateFlow tenant id d) fun _ => True := by
  have hwrite (existing : Json) (steps : Option Json) :
      M.Makes (if (⟨d.name, d.description, d.isActive, d.records, steps⟩ : Store.FlowChange).isEmpty then
          Pure.pure (some existing)
        else do
          let now ← Work.now
          Work.showFlow? (← Work.statement
            (Store.changeFlow tenant id ⟨d.name, d.description, d.isActive, d.records, steps⟩ now)) :
        Work (Option Json)) fun _ => True := by
    split
    · exact pure trivial
    · refine (tame Work.tame_now).bind fun now _ => ?_
      exact (hM.changeFlow tenant id _ now).bind fun row _ => tame (Work.tame_showFlow? row)
  refine (tame (Work.tame_flow? tenant id)).bind fun existing _ => ?_
  cases existing with
  | none => exact pure trivial
  | some existing =>
    dsimp only
    split
    · exact hwrite existing none
    · exact (tame (Work.tame_prepareSteps _)).bind fun steps _ => hwrite existing _

theorem deleteFlow (tenant id : String) : M.Makes (Work.deleteFlow tenant id) fun _ => True := by
  refine (tame (Work.tame_hasFlow tenant id)).bind fun known _ => ?_
  split
  · exact fail _
  · refine (tame (Work.tame_query _)).bind fun lines _ => ?_
    split
    · exact fail _
    · refine hM.table fun db _ db' hok => ?_
      cases hok
      unfold Store.deleteFlow
      split
      · exact ⟨rfl, le_refl _⟩
      · exact ⟨rfl, le_refl _⟩

theorem duplicateFlow (tenant id : String) : M.Makes (Work.duplicateFlow tenant id) fun _ => True := by
  refine (tame (Work.tame_query _)).bind fun row _ => ?_
  cases row with
  | none => exact fail _
  | some f =>
    refine (tame (Work.tame_storedSteps f)).bind fun steps _ => (tame Work.tame_now).bind fun now _ => ?_
    refine (hM.table fun db row db' hok => ?_).bind fun row _ => tame (Work.tame_showFlow row)
    cases hok
    exact ⟨rfl, Nat.le_succ _⟩

theorem assignFlow (tenant line : String) (flow : Option String) :
    M.Makes (Work.assignFlow tenant line flow) fun _ => True := by
  have hwrite : M.Makes (Work.statement (Store.assignFlow tenant line flow)) fun _ => True := by
    refine hM.table fun db row db' hok => ?_
    unfold Store.assignFlow at hok
    split at hok
    · cases hok
      exact ⟨rfl, le_refl _⟩
    · split at hok
      · cases hok
        exact ⟨rfl, le_refl _⟩
      · cases hok
  unfold Work.assignFlow
  extract_lets rest
  have hrest (known : Bool) : M.Makes (rest known) fun _ => True := by
    dsimp only [rest]
    split
    · exact fail _
    · refine hwrite.bind fun row _ => ?_
      cases row with
      | none => exact fail _
      | some l => exact pure trivial
  split
  · exact hrest true
  · exact (tame (Work.tame_hasFlow tenant _)).bind fun known _ => hrest known

/-! ## Commands -/

theorem command (tenant : String) (party : Party) (c : Command) : M.Makes (c.run tenant party) fun _ => True := by
  have hchain (sid : String) : M.Makes (Web.ownChain tenant sid) fun _ => True := by
    refine (tame (Work.tame_chain sid none)).bind fun ss _ => ?_
    split
    · split
      · exact pure trivial
      · exact fail _
    · exact fail _
  have hcreated {t : Work Json} (ht : M.Makes t fun _ => True) : M.Makes (Web.created t) fun _ => True :=
    ht.bind fun _ _ => pure trivial
  have hfound {thing : Thing} {t : Work (Option Json)} (ht : M.Makes t fun _ => True) :
      M.Makes (Web.found thing t) fun _ => True := by
    refine ht.bind fun v _ => ?_
    cases v with
    | some v => exact pure trivial
    | none => exact fail _
  cases c with
  | calls limit offset => exact (tame (Work.tame_calls _ _ _)).bind fun _ _ => pure trivial
  | chain sid => exact (hchain sid).bind fun _ _ => pure trivial
  | transfer sid toUser reason => exact (hM.transfers _ _ _ _ _).bind fun _ _ => pure trivial
  | endCall sid =>
    refine (hchain sid).bind fun _ _ => (terminateCall fun _ => hM.orders _).bind fun ended _ => ?_
    split
    · exact pure trivial
    · exact fail _
  | resegment sid => exact (hchain sid).discard.bind fun _ _ => (hM.attends.resegment sid).bind fun _ _ => pure trivial
  | resegmentAll =>
    refine bind (P := fun _ => True) ?_ fun _ _ => pure trivial
    exact (tame (Work.tame_query _)).bind fun sids _ => hM.attends.resegmentEach sids
  | flows => exact (tame (Work.tame_flows tenant)).bind fun _ _ => pure trivial
  | flow id => exact hfound (tame (Work.tame_flow? tenant id))
  | createFlow draft => exact hcreated (hM.createFlow tenant draft)
  | updateFlow id draft => exact hfound (hM.updateFlow tenant id draft)
  | deleteFlow id => exact (hM.deleteFlow tenant id).bind fun _ _ => pure trivial
  | duplicateFlow id => exact hcreated (hM.duplicateFlow tenant id)
  | validateFlow steps => exact (tame (Task.Tame.ofExcept _)).discard.bind fun _ _ => pure trivial
  | assignFlow line id => exact (hM.assignFlow tenant line id).bind fun _ _ => pure trivial

/-! ## Requests -/

/-- **Every request is served in the manner**, if the call that it may open is of the kind. -/
theorem makes_serve (r : Web.Request) (hsid : opens (Event.sid ⟨r.parameters, r.form⟩)) :
    M.Makes (Web.serve r) fun _ => True := by
  refine passing fun route => ?_
  cases route with
  | health => exact look fun _ => pure trivial
  | media place =>
    refine look fun _ => ?_
    split <;> exact pure trivial
  | hook h =>
    refine (tame Work.tame_settings).bind fun settings _ => passing fun _ => passed fun h' => ?_
    exact limited (hM.attends.hook h' hsid fun _ _ _ _ _ => callerJoined hM.mutates hM.orders _ _ _ _)
  | managed tenant m =>
    refine passing fun p => look fun _ => passing fun party => passed fun c => ?_
    exact limited ((hM.command tenant party c).recover (fun _ _ => trivial) fun _ => pure trivial)

end Serves

end Manner

end Switchboard
