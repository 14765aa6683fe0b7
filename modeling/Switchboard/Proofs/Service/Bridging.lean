import Switchboard.Proofs.Attempt.Decision
import Switchboard.Proofs.Service.Callbacks
import Switchboard.Proofs.Service.Scoped
import Switchboard.Service.Interpreter
/-!
# Bridging, transfers and flows within a scope

Every handler that bridges a caller, hands a call on or runs a flow stays within a scope as soon as the call that it is
about is one of the scope.  What it orders is about that call, about legs that it has placed, or about legs that ring for it.
-/
namespace Switchboard.Scope.Keeps

open Segment (Act Deed)

variable {S : Scope} {st : State} {s : Segment} {α : Type}

/-! ## What follows from an act -/

/-- The legs that an act hangs up rang, where it registers none. -/
theorem known_of_hangUps {a : Act} (ha : a.registers = []) (hsaw : S.Saw st s) (hmine : S.mine s.tenantId = true) :
    ∀ leg ∈ (s.effect a).hangUps, S.Known st leg := by
  intro leg hleg
  refine hsaw.legs hmine leg ?_
  by_contra hno
  exact (Segment.not_mem_of_after hno (by rw [ha]; exact List.not_mem_nil)).1 hleg

theorem chain_of_decision {a : Act} (hown : S.Own st s) : ∀ d ∈ (s.effect a).decision, S.Chain st d.callSid := by
  intro d hd
  rw [Segment.callSid_of_decision d hd]
  exact hown.chain

theorem afterwards {r : Option (Segment × α)} {f : Segment → α → Work Unit}
    (h : ∀ s a, r = some (s, a) → S.Keeps (f s a) st fun _ _ => True) :
    S.Keeps (Work.afterwards r f) st fun _ _ => True := by
  cases r with
  | none => exact pure trivial
  | some p => exact h p.1 p.2 rfl

theorem endLegs : ∀ (legs : List String) {st : State}, (∀ leg ∈ legs, S.Known st leg) →
    S.Keeps (Work.endLegs legs) st fun _ _ => True
  | [], _, _ => pure trivial
  | leg :: rest, _, h =>
    (terminateCall (.inr (h leg List.mem_cons_self))).discard.bind fun _ _ _ hev _ =>
      endLegs rest fun l hl => hev.known (h l (List.mem_cons_of_mem _ hl))

theorem applyDecision {d : Decision} (h : S.Chain st d.callSid) : S.Keeps (Work.applyDecision d) st fun _ _ => True := by
  refine (tame Work.tame_callbacks).bind fun urls st' _ hev _ => ?_
  split
  · exact (redirectCall (hev.chain h)).discard
  · exact (terminateCall (.inl (hev.chain h))).discard

theorem applyDecision? : ∀ {d : Option Decision}, (∀ d' ∈ d, S.Chain st d'.callSid) →
    S.Keeps (Work.applyDecision? d) st fun _ _ => True
  | none, _ => pure trivial
  | some d, h => applyDecision (h d rfl)

/-! ## Dialing -/

theorem prepareAttempt {sid : String} (number : Int) (resume : Resume) (targets : List DialTarget)
    (callerId : Option String) (timeout : Int) (record : Bool) (hroots : S.Roots st (Naming.root sid)) :
    S.Keeps (Work.prepareAttempt sid number resume targets callerId timeout record) st fun _ _ => True :=
  (mutate (f := Segment.startAttempt resume targets callerId timeout record) number none
    (.act (.start resume targets callerId timeout record)) (fun _ => rfl) hroots fun _ h => nomatch h).bind
    fun _ _ _ _ _ => pure (P := fun _ _ => True) trivial

/-- **A leg for a segment of the scope** is placed and registered, or hung up.  Where it is not placed nothing is stored. -/
theorem placeLeg (hown : S.Own st s) (t : DialTarget) :
    S.Keeps (Work.placeLeg s t) st fun placed st' => placed = [] → st'.store = st.store := by
  refine bind (P := fun _ st' => st' = st) (asks rfl) fun urls st₀ _ _ hsame => ?_
  subst st₀
  refine bind (P := fun _ st' => st' = st) (asks rfl) fun settings st₀ _ _ hsame => ?_
  subst st₀
  refine (placeCall ⟨urls, settings.phoneNumber, s, t, rfl, hown.mine, hown.chain⟩).bind fun placed st₁ hs₁ hev₁ hplaced => ?_
  cases placed with
  | none => exact pure fun _ => hplaced.1
  | some sid =>
    have hknown : S.Known st₁ sid := hplaced.2 sid rfl
    refine (mutate (f := Segment.registerLeg s.scratch.attemptSeq sid t) s.number none
      (.act (.register s.scratch.attemptSeq sid t)) (fun _ => rfl) (hs₁.roots (hev₁.own hown).chain) fun leg hleg => ?_).bind
      fun r st₂ _ hev₂ _ => ?_
    · rw [List.mem_singleton.mp hleg]
      exact hknown
    · dsimp only
      split
      · exact (terminateCall (.inr (hev₂.known hknown))).discard.bind fun _ _ _ _ _ => pure fun h => nomatch h
      · exact pure fun h => nomatch h

theorem placeLegsFor : ∀ (ts : List DialTarget) {st : State}, S.Own st s →
    S.Keeps (Work.placeLegsFor s ts) st fun placed st' => placed = [] → st'.store = st.store
  | [], _, _ => pure fun _ => rfl
  | t :: rest, _, hown =>
    (placeLeg hown t).bind fun _ _ _ hev hfirst => (placeLegsFor rest (hev.own hown)).bind fun _ _ _ _ hrest =>
      pure fun hnone => (hrest (List.append_eq_nil_iff.mp hnone).2).trans (hfirst (List.append_eq_nil_iff.mp hnone).1)

theorem finishDialing {sid : String} (number seq : Int) (hroots : S.Roots st (Naming.root sid)) :
    S.Keeps (Work.finishDialing sid number seq) st fun _ _ => True := by
  refine (tame Work.tame_now).bind fun now st₁ _ hev₁ _ => ?_
  refine (mutate (f := Segment.finishDialing seq now) number none (.act (.finish seq now)) (fun _ => rfl)
    (hev₁.roots hroots) fun _ h => nomatch h).bind fun r st₂ _ _ hr => afterwards fun t d hrd => ?_
  obtain ⟨s, k, -, hown, -, heq⟩ := hr _ hrd
  cases heq
  exact applyDecision? (chain_of_decision (a := .finish seq now) hown)

theorem dialAgents (hown : S.Own st s) : S.Keeps (Work.dialAgents s) st fun _ _ => True :=
  (placeLegsFor s.scratch.targets hown).discard.bind fun _ _ hs hev _ =>
    finishDialing s.number s.scratch.attemptSeq (hs.roots (hev.own hown).chain)

/-! ## Events of the conference -/

section Call

variable {sid : String} (number : Int) (hroots : S.Roots st (Naming.root sid))
include hroots

theorem callerJoined (seq : Option Int) (conferenceSid : Option String) :
    S.Keeps (Work.callerJoined sid number seq conferenceSid) st fun _ _ => True := by
  refine (mutate (f := Segment.callerJoined seq conferenceSid) number none (.act (.callerJoins seq conferenceSid))
    (fun _ => rfl) hroots fun _ h => nomatch h).bind fun r st' _ _ hr => afterwards fun t dial hrd => ?_
  obtain ⟨s, k, -, hown, -, heq⟩ := hr _ hrd
  cases heq
  split
  · refine dialAgents ⟨?_, ?_⟩
    · have htenant : (s.after (.callerJoins seq conferenceSid)).tenantId = s.tenantId := by
        rw [← Segment.overwriting_after]
        rfl
      exact htenant ▸ hown.mine
    · exact (Segment.after_rootSid s _).symm ▸ hown.chain
  · exact pure trivial

theorem agentAnswered (leg : String) (seq : Option Int) :
    S.Keeps (Work.agentAnswered sid number leg seq) st fun _ _ => True := by
  refine (tame Work.tame_now).bind fun now st₁ _ hev₁ _ => ?_
  refine (mutate (f := Segment.agentAnswered leg seq now) number none (.act (.agentJoins leg seq now)) (fun _ => rfl)
    (hev₁.roots hroots) fun _ h => nomatch h).bind fun r st₂ _ _ hr => afterwards fun t losers hrd => ?_
  obtain ⟨s, k, hsaw, hown, -, heq⟩ := hr _ hrd
  cases heq
  exact endLegs _ (known_of_hangUps (a := .agentJoins leg seq now) rfl hsaw hown.mine)

theorem agentLeft (leg : String) : S.Keeps (Work.agentLeft sid number leg) st fun _ _ => True := by
  refine (segment? sid number none).bind fun a st' _ hev ha => ?_
  cases a with
  | none => exact pure trivial
  | some s =>
    obtain ⟨hsaw, hroot, -⟩ := ha s rfl
    dsimp only
    split
    · exact (terminateCall (.inl (hsaw.own_of_roots (hroot ▸ hev.roots hroots)).chain)).discard
    · exact pure trivial

theorem terminatePending (seq : Option Int) : S.Keeps (Work.terminatePending sid number seq) st fun _ _ => True := by
  refine (mutate (f := Segment.terminatePending seq) number none (.act (.callerLeaves seq)) (fun _ => rfl) hroots
    fun _ h => nomatch h).bind fun r st' _ _ hr => ?_
  cases r with
  | none => exact pure trivial
  | some p =>
    obtain ⟨s, k, hsaw, hown, -, rfl⟩ := hr p rfl
    exact (endLegs _ (known_of_hangUps (a := .callerLeaves seq) rfl hsaw hown.mine)).bind fun _ _ _ _ _ => pure trivial

theorem conferenceEvent (event : Work.ConferenceEvent) (participant : Option String) (seq : Option Int)
    (conferenceSid : Option String) :
    S.Keeps (Work.conferenceEvent sid number event participant seq conferenceSid) st fun _ _ => True := by
  cases event with
  | joined =>
    unfold Work.conferenceEvent
    dsimp only
    split
    · exact callerJoined number hroots seq conferenceSid
    · split
      · exact agentAnswered number hroots _ seq
      · exact pure trivial
  | left =>
    unfold Work.conferenceEvent
    dsimp only
    split
    · exact (terminatePending number hroots seq).discard
    · split
      · exact agentLeft number hroots _
      · exact pure trivial
  | ended => exact (terminatePending number hroots seq).discard
  | other => exact pure trivial

theorem legEnded (leg : String) (status : Status) (seq : Option Int) :
    S.Keeps (Work.legEnded sid number leg status seq) st fun _ _ => True := by
  unfold Work.legEnded
  split
  · exact pure trivial
  · refine (tame Work.tame_now).bind fun now st₁ _ hev₁ _ => ?_
    refine (mutate (f := Segment.legEnded leg seq now) number none (.act (.legEnds leg seq now)) (fun _ => rfl)
      (hev₁.roots hroots) fun _ h => nomatch h).bind fun r st₂ _ _ hr => ?_
    cases r with
    | none => exact pure trivial
    | some p =>
      obtain ⟨s, k, -, hown, -, rfl⟩ := hr p rfl
      exact (applyDecision? (chain_of_decision (a := .legEnds leg seq now) hown)).bind fun _ _ _ _ _ => pure trivial

theorem claimAfterDial (seq : Option Int) : S.Keeps (Work.claimAfterDial sid number seq) st fun _ _ => True := by
  refine (tame Work.tame_now).bind fun now st₁ _ hev₁ _ => ?_
  refine (mutate (f := Segment.claimAfterDial seq now) number none (.act (.dialEnds seq now)) (fun _ => rfl)
    (hev₁.roots hroots) fun _ h => nomatch h).bind fun r st₂ _ _ hr => ?_
  cases r with
  | none => exact pure trivial
  | some p =>
    obtain ⟨s, k, hsaw, hown, -, rfl⟩ := hr p rfl
    exact (endLegs _ (known_of_hangUps (a := .dialEnds seq now) rfl hsaw hown.mine)).bind fun _ _ _ _ _ => pure trivial

end Call

/-! ## Transfers -/

theorem activeSegment? (sid : String) : S.Keeps (Work.activeSegment? sid) st fun a st' => ∀ s, a = some s →
    S.Saw st' s := by
  refine (latest? sid none).bind fun a st₁ _ _ ha => ?_
  cases a with
  | some s => exact pure fun t ht => Option.some.inj ht ▸ (ha s rfl).1
  | none =>
    refine (segmentOfLeg? sid).bind fun a st₂ _ _ _ => ?_
    cases a with
    | none => exact pure fun t ht => nomatch ht
    | some s => exact (latest? s.rootSid none).mono fun _ _ _ _ h t ht => (h t ht).1

/-- **Connecting the caller** of a segment of the scope that stands with its agent. -/
theorem connect (hsaw : S.Saw st s) (hown : S.Own st s) (hstands : S.Stands st s) :
    S.Keeps (Work.connect s) st fun _ _ => True := by
  refine bind (P := fun _ st' => st' = st) (asks rfl) fun urls st₀ _ _ hsame => ?_
  subst st₀
  refine bind (P := fun _ st₁ => st₁.store = st.store) ((redirectCall hown.chain).bind fun _ _ _ _ hkept => pure hkept)
    fun _ st₁ _ hev₁ hredirected => ?_
  refine (placeLegsFor s.scratch.targets (hev₁.own hown)).bind fun placed st₂ hs₂ hev₂ hplaced => ?_
  have hev := hev₁.trans hev₂
  split
  · rename_i hnone
    -- No leg was placed, so nothing was registered either and the segment still stands.
    have hkept : st₂.store = st.store := (hplaced (List.isEmpty_iff.mp hnone)).trans hredirected
    refine bind (P := fun _ st₃ => st₃ = st₂) (asks rfl) fun now st₀ _ _ hsame => ?_
    subst st₀
    have hstands := hstands.of_calls (.inr (congrArg Store.calls hkept))
    refine (updateCall (hev.saw hsaw) hown.mine (.inr ⟨hstands, now, rfl⟩)).discard.bind fun _ st₃ _ hev₃ _ => ?_
    exact (terminateCall (.inl ((hev.trans hev₃).own hown).chain)).discard.bind fun _ _ _ _ _ => fail _
  · exact finishDialing s.number s.scratch.attemptSeq (hs₂.roots (hev.own hown).chain)

/-- **A transfer** by somebody who may only transfer calls of the scope. -/
theorem transfer (sid toUser : String) (fromUser reason tenant : Option String)
    (htenant : ∀ id, (Flow.given tenant).any (fun t => t != id) = false → S.mine id = true) :
    S.Keeps (Work.transfer sid toUser fromUser reason tenant) st fun _ _ => True := by
  refine (activeSegment? sid).bind fun a st₁ _ _ ha => ?_
  cases a with
  | none => exact fail _
  | some active =>
    dsimp only
    split
    · exact fail _
    · rename_i hnamed
      have hmine : S.mine active.tenantId = true := htenant _ (Bool.eq_false_iff.mpr hnamed)
      split
      · exact fail _
      · refine (tame (Work.tame_query _)).bind fun m st₂ _ hev₂ _ => ?_
        cases m with
        | none => exact fail _
        | some m =>
          dsimp only
          split
          · exact fail _
          · have hhand : S.Keeps (Work.handOver active ⟨m.tenantUserId, fromUser, reason⟩
                (Work.transferScratch active m)) st₂ _ :=
              handOver (hev₂.saw (ha active rfl)) hmine rfl
            refine bind (hhand.recover (fun _ _ _ h => h) fun e _ _ => ?_) fun p st₃ _ _ hp => ?_
            · split <;> exact fail _
            · obtain ⟨hsaw, hown, hstands⟩ := hp
              refine (connect hsaw hown hstands).bind fun _ st₄ _ _ _ => ?_
              exact (tame (Work.tame_segment? _ _ _)).bind fun _ _ _ _ _ => pure trivial

/-! ## Flows -/

theorem quietly {t : Work α} {P : α → State → Prop} (h : S.Keeps t st P) : S.Keeps (Work.quietly t) st fun _ _ => True :=
  h.discard.recover (fun _ _ _ _ => trivial) fun _ _ _ => pure trivial

theorem skipFailed {t : Work Outcome} {P : Outcome → State → Prop} (h : S.Keeps t st P) :
    S.Keeps (Work.skipFailed t) st fun _ _ => True :=
  h.recover (fun _ _ _ _ => trivial) fun _ _ _ => pure trivial

section Call

variable {c : CallContext} (hroots : S.Roots st (Naming.root c.callSid))
include hroots

theorem bridge (a : Work.Attempt) (step : Nat) (branch : Option String) :
    S.Keeps (Work.bridge c a step branch) st fun _ _ => True := by
  refine (prepareAttempt _ _ _ _ _ _ hroots).bind fun prepared st' _ _ _ => ?_
  cases prepared with
  | none => exact pure trivial
  | some s => exact (tame Work.tame_callbacks).bind fun _ _ _ _ _ => pure trivial

theorem runDial (d : Flow.Dial) (step : Nat) (branch : Option String) :
    S.Keeps (Work.runDial c d step branch) st fun _ _ => True := by
  refine (tame (Work.tame_resolve? _ _)).bind fun t st' _ hev _ => ?_
  cases t with
  | none => exact pure trivial
  | some t => exact bridge (hev.roots hroots) _ _ _

theorem runSimulcall (d : Flow.Simulcall) (step : Nat) (branch : Option String) :
    S.Keeps (Work.runSimulcall c d step branch) st fun _ _ => True := by
  refine (tame (Work.tame_resolveAll _ _)).bind fun ts st' _ hev _ => ?_
  split
  · exact pure trivial
  · exact bridge (hev.roots hroots) _ _ _

omit hroots in
theorem tame_firstResolved (tenant : String) : ∀ (i : Int) (ds : List String), (Work.firstResolved tenant i ds).Tame
  | _, [] => Task.Tame.pure _
  | i, d :: rest => by
    refine (Work.tame_resolve? tenant d).bind fun t => ?_
    cases t with
    | some t => exact Task.Tame.pure _
    | none => exact tame_firstResolved tenant (i + 1) rest

theorem runRoundRobin (d : Flow.RoundRobin) (step : Nat) (branch : Option String) (attempt : Int) :
    S.Keeps (Work.runRoundRobin c d step branch attempt) st fun _ _ => True := by
  unfold Work.runRoundRobin
  split
  · exact fail _
  · refine (tame (tame_firstResolved _ _ _)).bind fun t st' _ hev _ => ?_
    cases t with
    | none => exact pure trivial
    | some t => exact bridge (hev.roots hroots) _ _ _

theorem runTag (t : Flow.Tag) : S.Keeps (Work.runTag c t) st fun _ _ => True :=
  (quietly (mutate (f := Segment.addTag t.tagName t.tagValue) c.segmentNumber none (.addTag t.tagName t.tagValue)
    (fun _ => rfl) hroots fun _ h => nomatch h)).bind fun _ _ _ _ _ => pure trivial

end Call

mutual

theorem runFrom {c : CallContext} (mode : Mode) (branch : Option String) (index : Nat) (attempt : Option Int) :
    ∀ (steps : List Flow.Step) {st : State}, S.Roots st (Naming.root c.callSid) →
      S.Keeps (Work.runFrom c mode branch index attempt steps) st fun _ _ => True
  | [], _, _ => by
    rw [Work.runFrom]
    exact pure trivial
  | ⟨_, _, body⟩ :: rest, _, hroots => by
    rw [Work.runFrom]
    refine (skipFailed (runBody branch index attempt body hroots)).bind fun o st₁ _ hev₁ _ => ?_
    split
    · exact pure trivial
    · exact (tame Work.tame_callbacks).bind fun _ _ _ _ _ => pure trivial
    · exact (runFrom _ branch (index + 1) (some 0) rest (hev₁.roots hroots)).bind fun _ _ _ _ _ => pure trivial

theorem runBody {c : CallContext} (branch : Option String) (index : Nat) (attempt : Option Int) :
    ∀ (body : Flow.Body) {st : State}, S.Roots st (Naming.root c.callSid) →
      S.Keeps (Work.runBody c branch index attempt body) st fun _ _ => True
  | .greeting _, _, _ => by
    rw [Work.runBody]
    exact pure trivial
  | .dial d, _, hroots => by
    rw [Work.runBody]
    exact runDial hroots d index branch
  | .simulcall d, _, hroots => by
    rw [Work.runBody]
    exact runSimulcall hroots d index branch
  | .roundRobin d, _, hroots => by
    cases attempt with
    | some n =>
      rw [Work.runBody]
      exact runRoundRobin hroots d index branch n
    | none =>
      rw [Work.runBody]
      exact fail _
  | .menu _ _ _, _, _ => by
    rw [Work.runBody]
    refine (tame Work.tame_callbacks).bind fun _ _ _ _ _ => ?_
    split
    · exact pure trivial
    · exact fail _
  | .schedule timezone branches fallback, _, hroots => by
    rw [Work.runBody]
    refine (tame (Task.Tame.asks _)).bind fun clock st₁ _ hev₁ _ => ?_
    refine (runBranches branch index clock.1 clock.2 0 branches (hev₁.roots hroots)).bind fun o st₂ _ hev₂ _ => ?_
    cases o with
    | some o => exact pure trivial
    | none =>
      dsimp only
      split
      · exact pure trivial
      · exact (runFrom _ _ _ _ fallback ((hev₁.trans hev₂).roots hroots)).bind fun _ _ _ _ _ => pure trivial
  | .keypadEntry _, _, _ => by
    rw [Work.runBody]
    exact (tame Work.tame_callbacks).bind fun _ _ _ _ _ => pure trivial
  | .tag t, _, hroots => by
    rw [Work.runBody]
    exact runTag hroots t
  | .voicemail _, _, _ => by
    rw [Work.runBody]
    exact (tame Work.tame_callbacks).bind fun _ _ _ _ _ => pure trivial
  | .hangup _, _, _ => by
    rw [Work.runBody]
    exact pure trivial
  | .bare _, _, _ => by
    rw [Work.runBody]
    exact fail _
  | .unknown _ _, _, _ => by
    rw [Work.runBody]
    exact pure trivial

theorem runBranches {c : CallContext} (branch : Option String) (index : Nat) (weekday minute : Int) (i : Nat) :
    ∀ (branches : List Flow.Branch) {st : State}, S.Roots st (Naming.root c.callSid) →
      S.Keeps (Work.runBranches c branch index weekday minute i branches) st fun _ _ => True
  | [], _, _ => by
    rw [Work.runBranches]
    exact pure trivial
  | ⟨_, _, _, steps⟩ :: rest, _, hroots => by
    rw [Work.runBranches]
    split
    · split
      · exact pure trivial
      · exact (runFrom _ _ _ _ steps hroots).bind fun _ _ _ _ _ => pure trivial
    · exact runBranches branch index weekday minute (i + 1) rest hroots

end

section Call

variable {c : CallContext} (hroots : S.Roots st (Naming.root c.callSid))
include hroots

theorem runAt (mode : Mode) (branch : Option String) (index : Int) (attempt : Option Int) (steps : List Flow.Step) :
    S.Keeps (Work.runAt c mode branch index attempt steps) st fun _ _ => True := by
  unfold Work.runAt
  split
  · exact runFrom mode branch _ attempt _ hroots
  · exact pure trivial

theorem execute (steps : Flow.Steps) (mode : Mode) (branch : Option String) (index : Int) (attempt : Option Int) :
    S.Keeps (Work.execute steps c mode branch index attempt) st fun _ _ => True := by
  unfold Work.execute
  split
  · exact pure trivial
  · exact runAt hroots mode branch index attempt _

theorem runChoice (branch : Option String) (index : Int) (digits : Option String) (steps : List Flow.Step) :
    S.Keeps (Work.runChoice c branch index digits steps) st fun _ _ => True := by
  unfold Work.runChoice
  dsimp only
  split
  · split
    · split
      · exact runAt hroots _ _ _ _ _
      · exact runFrom _ _ _ _ _ hroots
    · split
      · exact pure trivial
      · exact runFrom _ _ _ _ _ hroots
  · exact pure trivial

theorem keepEntered (kept : List (String × String)) (branch : Option String) (index : Int) (steps : List Flow.Step) :
    S.Keeps (do
      kept.forM fun v => Work.quietly (Work.mutate c.callSid c.segmentNumber none (Segment.setVariable v.1 v.2))
      return (← Work.runAt c .redirect branch index (some 0) steps, kept)) st fun _ _ => True := by
  refine sound fun hs => ?_
  refine (forM (I := fun st => S.Roots st (Naming.root c.callSid)) (fun _ _ hev h => hev.roots h) kept
    (fun v _ st' _ hroots => quietly (mutate (f := Segment.setVariable v.1 v.2) c.segmentNumber none
      (.setVariable v.1 v.2) (fun _ => rfl) hroots fun _ h => nomatch h)) hs hroots).bind fun _ st' _ hev _ => ?_
  exact (runAt (hev.roots hroots) _ _ _ _ _).bind fun _ _ _ _ _ => pure trivial

theorem runKeypad (branch : Option String) (index : Int) (digits var : Option String) (steps : List Flow.Step) :
    S.Keeps (Work.runKeypad c branch index digits var steps) st fun _ _ => True :=
  keepEntered hroots _ branch (index + 1) steps

theorem handleAction (steps : Flow.Steps) (branch : Option String) (index : Int) (r : Work.Reply) :
    S.Keeps (Work.handleAction steps c branch index r) st fun _ _ => True := by
  unfold Work.handleAction
  split
  · exact pure trivial
  · dsimp only
    split
    · exact (runChoice hroots _ _ _ _).bind fun _ _ _ _ _ => pure trivial
    · exact (runChoice hroots _ _ _ _).bind fun _ _ _ _ _ => pure trivial
    · exact runKeypad hroots _ _ _ _ _
    · exact (runAt hroots _ _ _ _ _).bind fun _ _ _ _ _ => pure trivial
    · exact (runAt hroots _ _ _ _ _).bind fun _ _ _ _ _ => pure trivial
    · exact (runAt hroots _ _ _ _ _).bind fun _ _ _ _ _ => pure trivial

end Call

end Switchboard.Scope.Keeps
