import Switchboard.Proofs.Service.Keeping
import Switchboard.Web.Serving
/-!
# Requests within a scope

A hook finds out whether the call that it is about is one of its tenant, and a command does the same or asks for the tenant's
rows only; so serving a request stays within any scope that its tenant is of (`Keeps.serve`).  One hook does not ask: a call
that comes in is taken for one of the tenant in the address, so there the calls that share its id or its root have to be of
the scope.
-/
namespace Switchboard

open Web (Event Hook Command Party Managed Route)

namespace Web

/-- The tenant that a hook names in its address. -/
def Hook.tenant? {ν : Type} : Hook ν → Option String
  | incoming t _ | incomingStatus t _ | flow t _ | dialStatus t _ | conference t _ _ | agentStatus t _ _
  | segmentRecording t _ _ | chainRecording t _ | voicemail t _ | transcription t _ => some t
  | ring | outgoing | outgoingStatus => none

def Route.tenant? : Route → Option String
  | hook h => h.tenant?
  | managed t _ => some t
  | health | media _ => none

/-- Whether a hook takes a call for one of its tenant. -/
def Hook.takesCall {ν : Type} : Hook ν → Bool
  | incoming _ _ => true
  | _ => false

theorem Hook.check_eq_ok {read : String → Input.Checked Int} {h : Hook String} {h' : Hook Int}
    (hc : (h.check read).toExcept = .ok h') : h'.tenant? = h.tenant? ∧ h'.takesCall = h.takesCall := by
  have hread {n : String} {build : Int → Hook Int} (hb : ((read n).map build).toExcept = .ok h') :
      ∃ k, h' = build k := by
    cases hn : read n with
    | ok k => rw [hn] at hb; cases hb; exact ⟨k, rfl⟩
    | bad is => rw [hn] at hb; cases hb
  cases h with
  | conference t c n | agentStatus t c n | segmentRecording t c n =>
    obtain ⟨k, rfl⟩ := hread hc
    exact ⟨rfl, rfl⟩
  | incoming | incomingStatus | flow | dialStatus | ring | chainRecording | voicemail | transcription | outgoing
  | outgoingStatus =>
    cases hc
    exact ⟨rfl, rfl⟩

/-- **No tenant whose calls and flows are managed has an empty name.** -/
theorem Route.managed_ne_empty {method : Method} {path tenant : String} {m : Managed}
    (h : Route.find method path = .ok (.managed tenant m)) : tenant ≠ "" := by
  have hmem : ∃ p ∈ Route.atPath (Route.partsOf path), p.2 = .managed tenant m := by
    unfold Route.find at h
    split at h
    · cases h
    · split at h
      · rename_i p hp
        exact ⟨p, List.mem_of_find?_eq_some hp, Except.ok.inj h⟩
      · cases h
  obtain ⟨p, hp, hroute⟩ := hmem
  unfold Route.atPath at hp
  split at hp
  · rw [List.mem_singleton.mp hp] at hroute
    cases hroute
  · split at hp
    · cases hp
    · rename_i hfull
      split at hp
      · rw [List.mem_singleton.mp hp] at hroute
        cases hroute
      · obtain ⟨q, -, rfl⟩ := List.mem_map.mp hp
        cases hroute
      · rename_i hparts
        obtain ⟨q, -, rfl⟩ := List.mem_map.mp hp
        cases hroute
        rintro rfl
        exact hfull (by rw [hparts]; simp)
      · cases hp

end Web

namespace Scope

variable {S : Scope} {st : State} {α : Type}

namespace Keeps

/-! ## Hooks -/

section Tenant

variable {tenant : String} (hmine : S.mine tenant = true)
include hmine

theorem latestOwn (sid : String) : S.Keeps (Work.latest? sid (some tenant)) st fun a st' => ∀ s, a = some s →
    S.Saw st' s ∧ S.mine s.tenantId = true ∧ S.Roots st' (Naming.root sid) ∧ S.Roots st' (Naming.root s.rootSid) := by
  refine (latest? sid (some tenant)).mono fun a st' hs _ ha s hsome => ?_
  obtain ⟨hsaw, hroot, howned⟩ := ha s hsome
  have hown := hsaw.own hs (mine_of_ownedBy hmine howned)
  have hroots := hs.roots hown.chain
  refine ⟨hsaw, hown.mine, ?_, hroots⟩
  rw [hroot, Naming.root_root] at hroots
  exact hroots

/-- **Work on a call of the tenant**, and none on others. -/
theorem forOwnCall {sid : String} {t : Work Unit}
    (ht : ∀ st, S.Roots st (Naming.root sid) → S.Keeps t st fun _ _ => True) :
    S.Keeps (Web.forOwnCall tenant sid t) st fun _ _ => True := by
  have howns : S.Keeps (Web.ownsCall tenant sid) st fun owns st' => owns = true → S.Roots st' (Naming.root sid) := by
    refine (segment? sid 0 (some tenant)).bind fun a st' hs _ ha => pure fun howns => ?_
    obtain ⟨s, rfl⟩ := Option.isSome_iff_exists.mp howns
    obtain ⟨hsaw, hroot, howned⟩ := ha s rfl
    have hroots := hs.roots (hsaw.own hs (mine_of_ownedBy hmine howned)).chain
    rw [hroot, Naming.root_root] at hroots
    exact hroots
  refine quietly (P := fun _ _ => True) (howns.bind fun owns st' _ _ hroots => ?_)
  cases owns with
  | true => exact ht st' (hroots rfl)
  | false => exact pure trivial

omit hmine in
theorem tame_lineOf (tenant line : String) : (Web.lineOf tenant line).Tame :=
  (Work.tame_lineFlow? line).bind fun _ => Task.Tame.pure _

theorem incoming (line : String) {e : Event} (hfree : S.Free st e.sid) :
    S.Keeps (Web.incoming tenant line e) st fun _ _ => True := by
  refine (tame (tame_lineOf tenant line)).bind fun l st₁ _ hev₁ _ => ?_
  cases l with
  | none => exact pure trivial
  | some l =>
    have hfree := hev₁.free hfree
    refine (createCall (c := Web.incomingCall tenant e) hmine hfree).bind fun s st₂ hs₂ hev₂ hown => ?_
    split
    · exact pure trivial
    · refine (execute ?_ _ _ _ _ _).bind fun _ _ _ _ _ => pure trivial
      cases s with
      | none => exact hev₂.roots hfree.roots
      | some s => exact hs₂.roots (hown s rfl).chain

theorem callerStatus (e : Event) : S.Keeps (Web.callerStatus tenant e) st fun _ _ => True := by
  refine (latestOwn hmine e.sid).bind fun a st₁ _ _ ha => ?_
  cases a with
  | none => exact pure trivial
  | some s =>
    obtain ⟨-, -, hroots, -⟩ := ha s rfl
    dsimp only
    split
    · refine (tame Work.tame_now).bind fun now st₂ _ hev₂ _ => ?_
      have hroots := hev₂.roots hroots
      refine (mutate (f := Segment.callerGone _ now) s.number (some tenant) (.callerGone _ now ‹_›) (fun _ => rfl) hroots
        fun _ h => nomatch h).discard.bind fun _ st₃ _ hev₃ _ => ?_
      exact (terminatePending s.number (hev₃.roots hroots) none).discard
    · split
      · exact (mutate (f := Segment.callerRinging) s.number (some tenant) .callerRinging (fun _ => rfl) hroots
          fun _ h => nomatch h).discard
      · exact pure trivial

theorem afterDial (e : Event) : S.Keeps (Web.afterDial tenant e) st fun _ _ => True := by
  refine (latestOwn hmine e.sid).bind fun a st₁ _ _ ha => ?_
  cases a with
  | none => exact pure trivial
  | some s =>
    obtain ⟨-, -, hroots, -⟩ := ha s rfl
    dsimp only
    split
    · exact pure trivial
    · refine (claimAfterDial s.number hroots e.seq).bind fun d st₂ _ _ _ => ?_
      cases d with
      | none => exact pure trivial
      | some d =>
        refine (tame Work.tame_callbacks).bind fun _ _ _ _ _ => ?_
        split <;> exact pure trivial

theorem continueFlow (line : String) (e : Event) : S.Keeps (Web.continueFlow tenant line e) st fun _ _ => True := by
  refine (tame (tame_lineOf tenant line)).bind fun l st₁ _ hev₁ _ => ?_
  cases l with
  | none => exact pure trivial
  | some l =>
    dsimp only
    split
    · exact pure trivial
    · split
      · exact afterDial hmine e
      · refine (latestOwn hmine e.sid).bind fun a st₂ _ _ ha => ?_
        cases a with
        | none => exact pure trivial
        | some s =>
          exact (handleAction (c := Web.contextFor l e (some s)) (ha s rfl).2.2.2 _ _ _ _).bind fun _ _ _ _ _ => pure trivial

theorem agentStatus (sid : String) (number : Int) (e : Event) :
    S.Keeps (Web.agentStatus tenant sid number e) st fun _ _ => True := by
  unfold Web.agentStatus
  dsimp only
  split
  · exact forOwnCall hmine fun _ hroots => (legEnded number hroots _ _ _).discard
  · exact pure trivial

theorem segmentRecording (sid : String) (number : Int) (e : Event) :
    S.Keeps (Web.segmentRecording tenant sid number e) st fun _ _ => True := by
  unfold Web.segmentRecording
  split
  · refine forOwnCall hmine fun st' hroots => (attachToSegment number e.recording hroots).bind fun p st₁ _ _ hp => ?_
    split
    · split
      · exact pure trivial
      · exact transcribeSegment _ (hp _ rfl).1 (hp _ rfl).2
    · exact pure trivial
  · exact pure trivial

theorem chainRecording (sid : String) (e : Event) : S.Keeps (Web.chainRecording tenant sid e) st fun _ _ => True := by
  unfold Web.chainRecording
  split
  · refine forOwnCall hmine fun st' hroots => (attachToChain e.recording hroots).bind fun p st₁ _ hev₁ _ => ?_
    split
    · split
      · exact pure trivial
      · exact transcribeChain _ (hev₁.roots hroots)
    · exact pure trivial
  · exact pure trivial

theorem voicemail (sid : String) (e : Event) : S.Keeps (Web.voicemail tenant sid e) st fun _ _ => True := by
  refine quietly (P := fun _ _ => True) ((latestOwn hmine sid).bind fun a st₁ _ _ ha => ?_)
  split
  · exact (updateCall (ha _ rfl).1 (ha _ rfl).2.1 (.inl rfl)).discard
  · exact pure trivial

end Tenant

section Everybody

variable (hall : ∀ id, S.mine id = true)
include hall

theorem outgoing (e : Event) : S.Keeps (Web.outgoing e) st fun _ _ => True := by
  have hcall (tenant user number callerId : String) (st : State) : S.Keeps (do
      let member ← Work.member? tenant user
      Functor.discard (Work.createCall
        { tenant, sid := e.sid, direction := "outbound", fromNumber := some callerId, toNumber := some number
          status := .ringing, callerId := member.map Member.tenantUserId })
      let urls ← Work.callbacks
      return [.callOut ⟨number, callerId, urls.outgoingStatus tenant, urls.recording tenant e.sid none⟩] : Work Response)
      st fun _ _ => True := by
    refine (tame (Work.tame_query _)).bind fun member st₁ _ _ _ => ?_
    refine (createCall (hall _) ⟨fun _ _ _ => hall _, fun _ _ _ => hall _, fun _ _ _ => hall _⟩).discard.bind
      fun _ st₂ _ _ _ => ?_
    exact (tame Work.tame_callbacks).bind fun _ _ _ _ _ => pure trivial
  unfold Web.outgoing
  split
  · exact pure trivial
  · split
    · exact pure trivial
    · unfold Web.callOut
      dsimp only
      split
      · exact hcall _ _ _ _ st
      · refine (tame (Work.tame_query _)).bind fun line st₁ _ _ _ => ?_
        split
        · exact hcall _ _ _ _ st₁
        · exact (tame Work.tame_settings).bind fun _ st₂ _ _ _ => hcall _ _ _ _ st₂

theorem outgoingStatus (e : Event) : S.Keeps (Web.outgoingStatus e) st fun _ _ => True := by
  unfold Web.outgoingStatus
  dsimp only
  refine (latest? e.sid _).bind fun a st₁ _ _ _ => ?_
  cases a with
  | none => exact pure trivial
  | some s =>
    refine (tame Work.tame_now).bind fun now st₂ _ _ _ => ?_
    exact (mutate (f := Segment.outgoingFinished _ _ now) s.number _ (.outgoingFinished _ _ now) (fun _ => rfl)
      (fun _ _ _ => hall _) fun _ h => nomatch h).discard

end Everybody

theorem orElse {fallback : Response} {t : Work Response} (h : S.Keeps t st fun _ _ => True) :
    S.Keeps (Web.orElse fallback t) st fun _ _ => True :=
  h.recover (fun _ _ _ _ => trivial) fun _ _ _ => pure trivial

/-- **A hook stays within the scope of its tenant.**  A hook that names none is within the scope of everybody. -/
theorem hook {h : Hook Int} {e : Event} (hmine : ∀ tenant, h.tenant? = some tenant ∨ h.tenant? = none → S.mine tenant = true)
    (hfree : h.takesCall = true → S.Free st e.sid) : S.Keeps (h.run e) st fun _ _ => True := by
  have hanswer {t : Work Response} (ht : S.Keeps t st fun _ _ => True) : S.Keeps (Hook.run.answer t) st fun _ _ => True :=
    ht.bind fun _ _ _ _ _ => pure trivial
  have hfollowed {r : Response} {t : Work Unit} (ht : S.Keeps t st fun _ _ => True) :
      S.Keeps (Hook.run.followed r t) st fun _ _ => True := (quietly ht).bind fun _ _ _ _ _ => pure trivial
  have hevent {t : Work Unit} (ht : S.Keeps t st fun _ _ => True) : S.Keeps (Hook.run.event t) st fun _ _ => True :=
    (quietly ht).bind fun _ _ _ _ _ => pure trivial
  cases h with
  | incoming tenant line => exact hanswer (orElse (incoming (hmine _ (.inl rfl)) line (hfree rfl)))
  | incomingStatus tenant line => exact hevent (callerStatus (hmine _ (.inl rfl)) e)
  | flow tenant line => exact hanswer (orElse (continueFlow (hmine _ (.inl rfl)) line e))
  | dialStatus tenant line => exact hanswer (orElse (afterDial (hmine _ (.inl rfl)) e))
  | conference tenant sid number =>
    exact hfollowed (forOwnCall (hmine _ (.inl rfl)) fun _ hroots =>
      conferenceEvent number hroots _ _ _ _)
  | agentStatus tenant sid number =>
    exact hfollowed (agentStatus (hmine _ (.inl rfl)) sid number e)
  | ring => exact hanswer (pure trivial)
  | segmentRecording tenant sid number =>
    exact hevent (segmentRecording (hmine _ (.inl rfl)) sid number e)
  | chainRecording tenant sid => exact hevent (chainRecording (hmine _ (.inl rfl)) sid e)
  | voicemail tenant sid => exact hfollowed (voicemail (hmine _ (.inl rfl)) sid e)
  | transcription tenant sid =>
    exact hevent (forOwnCall (hmine _ (.inl rfl)) fun _ hroots =>
      (storeTranscription _ _ hroots).discard)
  | outgoing => exact hanswer (orElse (outgoing (fun _ => hmine _ (.inr rfl)) e))
  | outgoingStatus => exact hfollowed (outgoingStatus (fun _ => hmine _ (.inr rfl)) e)

/-! ## Commands -/

theorem command {tenant : String} (hmine : S.mine tenant = true) (hnamed : tenant ≠ "") (party : Party) (c : Command) :
    S.Keeps (c.run tenant party) st fun _ _ => True := by
  have hchain (sid : String) {st : State} : S.Keeps (Web.ownChain tenant sid) st fun p st' =>
      S.Chain st' p.1.rootSid ∧ S.Roots st' (Naming.root sid) := by
    refine (chain sid none).bind fun ss st' hs _ hss => ?_
    split
    · split
      · rename_i first rest htenant
        obtain ⟨hsaw, hroot⟩ := hss first List.mem_cons_self
        have hown := hsaw.own hs (htenant ▸ hmine)
        have hroots := hs.roots hown.chain
        rw [hroot, Naming.root_root] at hroots
        exact pure ⟨hown.chain, hroots⟩
      · exact fail _
    · exact fail _
  have hcreated {t : Work Json} (ht : S.Keeps t st fun _ _ => True) : S.Keeps (Web.created t) st fun _ _ => True :=
    ht.bind fun _ _ _ _ _ => pure trivial
  have hfound {thing : Thing} {t : Work (Option Json)} (ht : S.Keeps t st fun _ _ => True) :
      S.Keeps (Web.found thing t) st fun _ _ => True := by
    refine ht.bind fun v _ _ _ _ => ?_
    cases v with
    | some v => exact pure trivial
    | none => exact fail _
  cases c with
  | calls limit offset => exact (tame (Work.tame_calls _ _ _)).bind fun _ _ _ _ _ => pure trivial
  | chain sid => exact (hchain sid).bind fun _ _ _ _ _ => pure trivial
  | transfer sid toUser reason =>
    refine (transfer sid toUser party.member? reason (some tenant) fun id hid => ?_).bind fun _ _ _ _ _ => pure trivial
    have hgiven : Flow.given (some tenant) = some tenant := if_neg hnamed
    rw [hgiven, Option.any_some, bne_eq_false_iff_eq] at hid
    exact hid ▸ hmine
  | endCall sid =>
    refine (hchain sid).bind fun p st' _ _ hp => (terminateCall (.inl hp.1)).bind fun ended _ _ _ _ => ?_
    split
    · exact pure trivial
    · exact fail _
  | resegment sid =>
    refine bind (P := fun _ st' => S.Roots st' (Naming.root sid)) ((hchain sid).bind fun _ _ _ _ hp => pure hp.2)
      fun _ st' _ _ hroots => (resegment hroots).bind fun _ _ _ _ _ => pure trivial
  | resegmentAll => exact (resegmentTenant hmine).bind fun _ _ _ _ _ => pure trivial
  | flows => exact (tame (Work.tame_flows tenant)).bind fun _ _ _ _ _ => pure trivial
  | flow id => exact hfound (tame (Work.tame_flow? tenant id))
  | createFlow draft => exact hcreated (createFlow hmine draft)
  | updateFlow id draft => exact hfound (updateFlow hmine id draft)
  | deleteFlow id => exact (deleteFlow hmine id).bind fun _ _ _ _ _ => pure trivial
  | duplicateFlow id => exact hcreated (duplicateFlow hmine id)
  | validateFlow steps => exact (tame (Task.Tame.ofExcept _)).discard.bind fun _ _ _ _ _ => pure trivial
  | assignFlow line id => exact (assignFlow hmine line id).bind fun _ _ _ _ _ => pure trivial

/-! ## Requests -/

theorem passing {e : Except Web.Reply α} {k : α → Work Web.Reply}
    (h : ∀ a, e = .ok a → S.Keeps (k a) st fun _ _ => True) : S.Keeps (Web.passing e k) st fun _ _ => True := by
  unfold Web.passing
  split
  · exact h _ rfl
  · exact pure trivial

theorem passed {c : Input.Checked α} {k : α → Work Web.Reply}
    (h : ∀ a, c.toExcept = .ok a → S.Keeps (k a) st fun _ _ => True) : S.Keeps (Web.passed c k) st fun _ _ => True :=
  passing fun a ha => h a (Work.eq_ok_of_mapError ha)

theorem limited {t : Traffic} {r : Web.Request} {work : Work Web.Reply}
    (h : ∀ st', S.Evolves st st' → S.Keeps work st' fun _ _ => True) :
    S.Keeps (Web.limited t r work) st fun _ _ => True := by
  have hadmit : S.Keeps ( Work.admit t r.path) st fun _ _ => True := by
    refine atomically fun a st' hok => ⟨Step.of_aside ?_, trivial⟩
    cases hok
    exact ⟨rfl, rfl, rfl, rfl, rfl⟩
  refine hadmit.bind fun admitted st' _ hev _ => ?_
  split
  · exact h st' hev
  · exact pure trivial

/-- **Every request stays within the scope of the tenant that it names**, if the call that it takes for one of the tenant
is free; one that names none is within the scope of everybody. -/
theorem serve (r : Web.Request)
    (hmine : ∀ route, Route.find r.method r.path = .ok route →
      ∀ tenant, route.tenant? = some tenant ∨ route.tenant? = none → S.mine tenant = true)
    (hfree : ∀ h, Route.find r.method r.path = .ok (.hook h) → h.takesCall = true →
      S.Free st (Event.sid ⟨r.parameters, r.form⟩)) : S.Keeps (Web.serve r) st fun _ _ => True := by
  refine passing fun route hroute => ?_
  cases route with
  | health => exact look (pure trivial)
  | media place =>
    refine look ?_
    split <;> exact pure trivial
  | hook h =>
    refine (tame Work.tame_settings).bind fun settings st₁ _ hev₁ _ => passing fun _ _ => passed fun h' hh' => ?_
    obtain ⟨htenant, htakes⟩ := Hook.check_eq_ok hh'
    refine limited fun st₂ hev₂ => hook (fun tenant ht => hmine _ hroute tenant ?_) fun htaken => ?_
    · rw [htenant] at ht
      exact ht
    · exact (hev₁.trans hev₂).free (hfree h hroute (htakes ▸ htaken))
  | managed tenant m =>
    refine passing fun p _ => look (passing fun party _ => passed fun c _ => limited fun st₁ _ => ?_)
    refine (command ?_ (Route.managed_ne_empty hroute) party c).recover (fun _ _ _ _ => trivial) fun _ _ _ => pure trivial
    exact hmine _ hroute tenant (.inl rfl)

end Keeps

end Scope

end Switchboard
