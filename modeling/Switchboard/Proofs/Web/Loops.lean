import Switchboard.Proofs.Web.Callers
/-!
# No call loops

A call comes in, and from then on each request of it is one at an address that the answer before has given out, or that was
decided on for the attempt which that answer has opened.  What is left of the flow at such an address is less than at the
request that has led to it (`Turn.At.next`), so sooner or later a request leads to no other (`no_call_loops`), whatever the
caller enters, whoever answers, and whatever else goes on between two requests.

Where an answer gives the address itself, this is the descent of the run that has made it.  The end of a dial and a decision
that others claim come later, and are about the token that the store has by then: it is that of the attempt, or else a later
attempt was started and the report is passed over (`Segment.Bears`).
-/
namespace Switchboard

open Segment (Deed)
open Web (Event Hook Route Request afterDial continueFlow flowReply lineOf orElse)
open Work (Rank Given Opened Descends Spot Place)
open Relation (ReflTransGen)

/-! ## Tokens that are kept -/

namespace Segment

/-- The token of an attempt is that of the segment, unless a later attempt was started. -/
def Bears (r : Resume) (seq : Int) (s : Segment) : Prop :=
  seq ≤ s.scratch.attemptSeq ∧ (s.scratch.attemptSeq = seq → s.scratch.resume = r)

theorem bears_did {r : Resume} {seq : Int} {s : Segment} (d : Deed) (h : s.Bears r seq) : (s.did d).Bears r seq := by
  have hle := attemptSeq_did s d
  refine ⟨h.1.trans hle, fun hsame => ?_⟩
  have hkept : s.scratch.attemptSeq = seq := Int.le_antisymm (hsame ▸ hle) h.1
  have hstart : d.isStart = false := by
    cases d with
    | act a =>
      cases a with
      | start resume targets callerId timeout record =>
        have hnext : (s.did (.act (.start resume targets callerId timeout record))).scratch.attemptSeq =
          s.scratch.attemptSeq + 1 := rfl
        omega
      | _ => rfl
    | _ => rfl
  rw [did_resume s d hstart]
  exact h.2 hkept

theorem lasting_bears (r : Resume) (seq : Int) : CallRow.Lasting (Bears r seq) :=
  CallRow.lasting_of_did (fun _ d h => bears_did d h) fun s t hscratch _ h => by
    unfold Bears at h ⊢
    rwa [hscratch]

end Segment

/-! ## What a request comes to -/

namespace Web

variable {st st' : State} {verbs : Response}

/-- What a request tells a hook. -/
def Request.event (r : Request) : Event := ⟨r.parameters, r.form⟩

theorem checkSignature_ne (settings : Settings) (r : Request) (verbs : Response) :
    checkSignature settings r ≠ .error (.ofVerbs verbs) := by
  unfold checkSignature
  intro h
  split at h
  · cases h
  · generalize (if r.method = .post then r.form else []) = fields at h
    dsimp only at h
    split at h
    · cases h
    · split at h <;> cases h

/-- **A hook that answers with instructions** was let in, which changes neither the store nor the settings. -/
theorem run_serve_eq_ok {r : Request} {h : Hook String} (h' : Hook Int)
    (hroute : Route.find r.method r.path = .ok (.hook h)) (hcheck : h.check segmentNumber = .ok h')
    (hrun : (serve r).run st = (.ok (.ofVerbs verbs), st')) :
    ∃ st₁, (st₁.store = st.store ∧ st₁.settings = st.settings) ∧
      (h'.run r.event).run st₁ = (.ok (.ofVerbs verbs), st') := by
  unfold serve at hrun
  rw [hroute] at hrun
  obtain ⟨settings, st₁, hsettings, hsigned⟩ := Task.run_bind_eq_ok hrun
  cases hsettings
  unfold passing at hsigned
  split at hsigned
  · rw [hcheck] at hsigned
    obtain ⟨admitted, st₂, hadmit, hserved⟩ := Task.run_bind_eq_ok hsigned
    have hkept : st₂.store = st.store ∧ st₂.settings = st.settings := by
      cases hadmit
      exact ⟨rfl, rfl⟩
    split at hserved
    · exact ⟨st₂, hkept, hserved⟩
    · cases hserved
  · rename_i reply hturned
    cases hsigned
    exact absurd hturned (checkSignature_ne _ _ _)

/-- **A caller is answered** what serving the hook gives, or what is said where it fails. -/
theorem run_answer_eq_ok {fallback : Response} {t : Work Response}
    (h : (Hook.run.answer (orElse fallback t)).run st = (.ok (.ofVerbs verbs), st')) :
    t.run st = (.ok verbs, st') ∨ verbs = fallback := by
  obtain ⟨given, st₁, hgiven, hdone⟩ := Task.run_bind_eq_ok h
  cases hdone
  rw [orElse, Task.run_recover] at hgiven
  split at hgiven
  · rename_i hrun
    cases hgiven
    exact .inl hrun
  · cases hgiven
    exact .inr rfl

/-- **Where a flow goes on** the line is there, with its flow. -/
theorem run_continueFlow_eq_ok {tenant line : String} {e : Event}
    (h : (continueFlow tenant line e).run st = (.ok verbs, st')) :
    verbs = .unavailable ∨
      ∃ l, (lineOf tenant line).run st = (.ok (some l), st) ∧ (Flow.given l.flowId).isNone = false := by
  obtain ⟨found, hline, hfound⟩ := Task.run_bind_eq_ok_of_kept (run_lineOf_kept tenant line st) h
  cases found with
  | none =>
    cases hfound
    exact .inl rfl
  | some l =>
    dsimp only at hfound
    by_cases hflow : (Flow.given l.flowId).isNone = true
    · rw [if_pos hflow] at hfound
      cases hfound
      exact .inl rfl
    · exact .inr ⟨l, hline, Bool.eq_false_iff.2 hflow⟩

end Web

namespace Caller

variable {who : Caller} {st st' : State} {s : Segment} {e : Event} {verbs : Response}

theorem Has.about (hs : who.Has st s) {l : LineFlow} (htenant : l.tenantId = who.tenant) (hline : l.lineId = who.line)
    (e : Event) : who.About (Web.contextFor l e (some s)) where
  tenant := htenant
  line := hline
  sid := (congrArg Naming.root hs.sid).trans (Naming.root_of_unmarked who.unmarked)
  segment := hs.number

theorem descends_unavailable (stored : Resume → Int → Prop) (rank : Rank) : Descends who stored rank .unavailable :=
  .of_none rfl fun b hb => by simp [Response.unavailable, Verb.say] at hb

theorem descends_hangup (stored : Resume → Int → Prop) (rank : Rank) : Descends who stored rank .hangup :=
  .of_none rfl fun b hb => by simp [Response.hangup] at hb

namespace Setting

variable (h : who.Setting st) (hst : st.store.Identified ∧ Store.Chained st.store) (hsid : e.sid = who.sid)
include h hst hsid

/-- **A call that comes in** leads down from the start of the flow. -/
theorem descends_incoming (hroot : Flow.Addressable who.flow) {name : String} (hname : Store.sameId name who.line = true)
    (hrun : (Web.incoming who.tenant name e).run st = (.ok verbs, st')) :
    Descends who (who.Token st') (Spot.start who.flow).rank verbs := by
  obtain ⟨found, hline, hfound⟩ := Task.run_bind_eq_ok_of_kept (Web.run_lineOf_kept _ _ st) hrun
  cases found with
  | none =>
    cases hfound
    exact descends_unavailable _ _
  | some l =>
    obtain ⟨opened, st₂, hcreate, hopened⟩ := Task.run_bind_eq_ok hfound
    split at hopened
    · cases hopened
      exact descends_unavailable _ _
    · rename_i hopen
      simp only [Bool.or_eq_true, not_or, Bool.not_eq_true] at hopen
      obtain ⟨htenant, hid, hsteps, -⟩ := h.line_of_run hname hline hopen.1.1
      obtain ⟨hsettings, s, rfl, hs⟩ := h.has_of_createCall hst hsid rfl hcreate
      obtain ⟨r, st₃, hexecute, hdone⟩ := Task.run_bind_eq_ok hopened
      cases hdone
      have hc := hs.about htenant hid e
      have hlasts : who.Lasts st₂ := ⟨by rw [hsettings]; exact h.urls, s, hs⟩
      rw [hsteps] at hexecute
      have hreplies := (Work.Ground.replies_start (G := Work.alone hc) who.flow hlasts).of_run (fun _ => rfl) hexecute
      refine hreplies.descends hc (fun _ hu => hu) hroot.steps ?_
      rintro _ rfl
      exact ⟨Spot.sound_start _, le_rfl⟩

/-- **What is asked for at a place** leads down from there. -/
theorem descends_goesOn (hroot : Flow.Addressable who.flow) {p : Place} {k : Continuation}
    (hp : p.Stands (Flow.Leading who.flow)) (hk : k.Fits p.step.body)
    (he : e.address = Text.Percent.fields (p.position k).query) (hsent : e.form.given "attempt" = none)
    (hrun : (continueFlow who.tenant who.line e).run st = (.ok verbs, st')) :
    Descends who (who.Token st') (p.rank k) verbs := by
  rcases Web.run_continueFlow_eq_ok hrun with rfl | ⟨l, hline, hflow⟩
  · exact descends_unavailable _ _
  have haction : e.address.given "action" ≠ some "round_robin" := by
    rw [Web.given_action he]
    cases k <;> simp [Place.position, Callbacks.Position.at, Flow.given]
  obtain ⟨htenant, hid, hsteps, hfits⟩ := h.line_of_run (decide_eq_true rfl) hline hflow
  unfold continueFlow at hrun
  rw [Task.run_bind_ok hline] at hrun
  dsimp only at hrun
  rw [if_neg (Bool.eq_false_iff.1 hflow), if_neg haction] at hrun
  obtain ⟨newest, st₁, hlatest, hnewest⟩ := Task.run_bind_eq_ok hrun
  cases newest with
  | none =>
    cases hnewest
    exact descends_unavailable _ _
  | some s =>
    have hsame : Naming.root e.sid = who.sid := (congrArg Naming.root hsid).trans (Naming.root_of_unmarked who.unmarked)
    obtain ⟨rfl, hs⟩ := h.has_of_latest hst hsame hlatest
    obtain ⟨r, st₂, hact, hdone⟩ := Task.run_bind_eq_ok hnewest
    cases hdone
    have hc := hs.about htenant hid e
    rw [hsteps, Work.handleAction_position hroot.steps hp _ k he] at hact
    have hreplies := (Place.replies_carriedOut (G := Work.alone hc) hfits hroot hp hk hsent ⟨h.urls, s, hs⟩).of_run
      (fun _ => rfl) hact
    exact hreplies.descends hc (fun _ hu => hu) hroot.steps fun _ hs => hs

/-- **The end of a dial** leads down from the attempt, where it is the current one, and nowhere else. -/
theorem descends_dialEnded {r : Resume} {rank : Rank} (hr : Opened who r rank) {seq : Int} (hseq : e.seq = some seq)
    (hbears : st.Shows who.sid 0 (Segment.Bears r seq)) (hrun : (afterDial who.tenant e).run st = (.ok verbs, st')) :
    Descends who (who.Token st') rank verbs := by
  obtain ⟨newest, st₁, hlatest, hnewest⟩ := Task.run_bind_eq_ok hrun
  cases newest with
  | none =>
    cases hnewest
    exact descends_hangup _ _
  | some s =>
    have hroot : Naming.root e.sid = who.sid := (congrArg Naming.root hsid).trans (Naming.root_of_unmarked who.unmarked)
    obtain ⟨rfl, hs⟩ := h.has_of_latest hst hroot hlatest
    rcases Web.afterDial_answers hlatest hs.stored (hroot.trans hs.sid.symm) (congrArg Prod.fst hrun) with
      rfl | ⟨d, url, hd, hurl, rfl⟩
    · exact descends_hangup _ _
    · rw [h.urls] at hurl
      rw [hseq] at hd
      obtain ⟨s', hs', -, hresume⟩ := hbears
      obtain rfl : s = s' := hs'.eq hst.2 hs.records
      have hcurrent : s.scratch.attemptSeq = seq := by
        by_contra hother
        have hnothing := Segment.claimAfterDial_of_other hother st₁.now
        have hnone : (s.claimAfterDial (some seq) st₁.now).2.2 = some d := hd
        rw [hnothing] at hnone
        cases hnone
      obtain ⟨-, -, -, rfl⟩ := Segment.decision_inv hd
      obtain ⟨rank', hlt, hgiven⟩ := hr.decided (hresume hcurrent) hs.tenant hurl (who.Token st')
      refine ⟨fun url' hurl' => ?_, fun b hb => by simp [Response.redirect] at hb⟩
      rw [List.mem_singleton.1 hurl']
      exact ⟨rank', hlt, hgiven⟩

end Setting

end Caller

/-! ## Addresses of the service -/

namespace Caller

variable (who : Caller)

/-- The path at which a caller's flow goes on, or at which the end of a dial is reported. -/
def path (dialed : Bool) : String :=
  "/voice/flow/" ++ who.tenant ++ "/" ++ who.line ++ if dialed then "/dial-status" else ""

/-- What is served there. -/
def hook (dialed : Bool) : Hook String :=
  if dialed then .dialStatus who.tenant who.line else .flow who.tenant who.line

theorem path_eq (dialed : Bool) :
    who.path dialed = "/voice/flow/" ++ who.tenant ++ "/" ++ who.line ++ if dialed then "/dial-status" else "" := rfl

/-- **An address tells its path and its query.** -/
theorem path_inj {base query query' : String} {dialed dialed' : Bool}
    (h : base ++ who.path dialed ++ "?" ++ query = base ++ who.path dialed' ++ "?" ++ query') :
    dialed = dialed' ∧ query = query' := by
  have hlist := congrArg String.toList h
  rw [path_eq, path_eq] at hlist
  cases dialed <;> cases dialed' <;> simp at hlist ⊢ <;> exact String.toList_injective hlist

end Caller

/-! ## Turns of a call -/

/-- A request of a caller that is answered with instructions.  No number of an attempt is so long that it is not read
back. -/
structure Turn (who : Caller) where
  request : Request
  before : State
  verbs : Response
  after : State
  about : request.sid = who.sid
  setting : who.Setting before
  served : (Web.serve request).run before = (.ok (.ofVerbs verbs), after)
  /-- The provider reports no number of an attempt in its form. -/
  unsent : request.event.form.given "attempt" = none
  counted : ∀ s, who.Has after s → Text.Readable s.scratch.attemptSeq

namespace Turn

variable {who : Caller}

/-- The call comes in. -/
def Starts (t : Turn who) : Prop :=
  ∃ name, Store.sameId name who.line = true ∧
    Route.find t.request.method t.request.path = .ok (.hook (.incoming who.tenant name))

/-- A request is one at an address of the service. -/
def Asks (t : Turn who) (url : String) : Prop :=
  ∃ dialed, Route.find t.request.method t.request.path = .ok (.hook (who.hook dialed)) ∧
    url = who.urls.base ++ who.path dialed ++ "?" ++ t.request.query

/-- Where a turn leads: to an address that its answer gives, or to one that is decided on for the attempt that it has
opened, whatever has become of the attempt by then. -/
inductive Leads (t : Turn who) : String → Prop
  | answered {url : String} (h : url ∈ t.verbs.continuations) : Leads t url
  | decided {b : Bridge} {s : Segment} {ds : List Deed} {a : Segment.Act} {d : Decision} {url : String}
    (hdials : .bridge b ∈ t.verbs) (hs : who.Has t.after s) (hds : ∀ d ∈ ds, d.isStart = false)
    (hd : ((ds.foldl Segment.did s).effect a).decision = some d) (hurl : Work.decisionAddress who.urls d = some url) :
    Leads t url

/-- A turn follows another one: it is at an address that the other leads to, whatever goes on in between. -/
structure Follows (t t' : Turn who) : Prop where
  leads : ∃ url, t.Leads url ∧ t'.Asks url
  meanwhile : ReflTransGen State.Proceeds t.after t'.before

/-- What is left of the flow at a turn. -/
inductive At (t : Turn who) : Rank → Prop
  | start (h : t.Starts) : At t (Spot.start who.flow).rank
  | given {url : String} {rank : Rank}
    (hgiven : Given who (fun r seq => Text.Readable seq ∧ t.before.Shows who.sid 0 (Segment.Bears r seq)) url rank)
    (h : t.Asks url) : At t rank

theorem proceeds (t : Turn who) : t.before.Proceeds t.after := by
  have h := State.Proceeds.alone t.before (.request t.request (t.about ▸ who.unmarked))
  rwa [t.served] at h

section Descends

variable {t : Turn who} (hst : t.before.store.Identified ∧ Store.Chained t.before.store)
include hst

theorem descends_start (hroot : Flow.Addressable who.flow) (h : t.Starts) :
    Descends who (who.Token t.after) (Spot.start who.flow).rank t.verbs := by
  obtain ⟨name, hname, hroute⟩ := h
  obtain ⟨st, ⟨hstore, hsettings⟩, hrun⟩ := Web.run_serve_eq_ok _ hroute rfl t.served
  rcases Web.run_answer_eq_ok hrun with hrun | hverbs
  · exact (t.setting.of_store hstore hsettings).descends_incoming (hstore ▸ hst) t.about hroot hname hrun
  · exact hverbs ▸ Caller.descends_unavailable _ _

theorem descends_goesOn (hroot : Flow.Addressable who.flow) {p : Place} {k : Continuation}
    (hp : p.Stands (Flow.Leading who.flow)) (hk : k.Fits p.step.body)
    (h : t.Asks (who.urls.flow who.tenant who.line (p.position k))) :
    Descends who (who.Token t.after) (p.rank k) t.verbs := by
  obtain ⟨dialed, hroute, hurl⟩ := h
  have hpath : who.urls.base ++ who.path dialed ++ "?" ++ t.request.query =
      who.urls.base ++ who.path false ++ "?" ++ (p.position k).query := by
    rw [← hurl, Callbacks.flow_eq, who.path_eq, if_neg Bool.false_ne_true, String.append_empty]
  obtain ⟨rfl, hquery⟩ := who.path_inj hpath
  obtain ⟨st, ⟨hstore, hsettings⟩, hrun⟩ := Web.run_serve_eq_ok (.flow who.tenant who.line) hroute rfl t.served
  rcases Web.run_answer_eq_ok hrun with hrun | hverbs
  · exact (t.setting.of_store hstore hsettings).descends_goesOn (hstore ▸ hst) t.about hroot hp hk
      (congrArg Text.Percent.fields hquery) t.unsent hrun
  · exact hverbs ▸ Caller.descends_unavailable _ _

theorem descends_dialEnded {c : CallContext} {a : Work.Attempt} {step : Nat} {branch : Option String} {seq : Int}
    {r : Resume} {rank : Rank} (hc : who.About c) (hr : Opened who r rank) (hseq : Text.Readable seq)
    (hbears : t.before.Shows who.sid 0 (Segment.Bears r seq))
    (h : t.Asks (Work.dialAction who.urls c a step branch seq)) : Descends who (who.Token t.after) rank t.verbs := by
  obtain ⟨dialed, hroute, hurl⟩ := h
  have hpath : who.urls.base ++ who.path dialed ++ "?" ++ t.request.query =
      who.urls.base ++ who.path (decide (a.type ≠ .roundRobin)) ++ "?" ++ a.dialQuery step branch seq := by
    rw [← hurl, Work.Attempt.dialAction_eq, Work.Attempt.dialPath, hc.tenant, hc.line, who.path_eq]
    by_cases ha : a.type = .roundRobin <;> simp [ha]
  obtain ⟨rfl, hquery⟩ := who.path_inj hpath
  have he : t.request.event.address = Text.Percent.fields (a.dialQuery step branch seq) := congrArg Text.Percent.fields hquery
  have hdown {st : State} (hkept : st.store = t.before.store ∧ st.settings = t.before.settings) {verbs : Response}
      (hrun : (afterDial who.tenant t.request.event).run st = (.ok verbs, t.after)) :
      Descends who (who.Token t.after) rank verbs := by
    refine (t.setting.of_store hkept.1 hkept.2).descends_dialEnded (hkept.1 ▸ hst) t.about hr
      (Work.Attempt.seq_of_dialQuery hseq he) ?_ hrun
    exact hbears.imp fun s h => ⟨hkept.1 ▸ h.1, h.2⟩
  by_cases ha : a.type = .roundRobin
  · rw [decide_eq_false (not_not_intro ha)] at hroute
    obtain ⟨st, hkept, hrun⟩ := Web.run_serve_eq_ok (.flow who.tenant who.line) hroute rfl t.served
    rcases Web.run_answer_eq_ok hrun with hrun | hverbs
    · rcases Web.run_continueFlow_eq_ok hrun with hverbs | ⟨l, hline, hflow⟩
      · exact hverbs ▸ Caller.descends_unavailable _ _
      · have haction := Work.Attempt.action_of_dialQuery ha he
        rw [Web.run_continueFlow_dialEnded hline (Option.isNone_eq_false_iff.1 hflow) haction] at hrun
        exact hdown hkept hrun
    · exact hverbs ▸ Caller.descends_unavailable _ _
  · rw [decide_eq_true ha] at hroute
    obtain ⟨st, hkept, hrun⟩ := Web.run_serve_eq_ok (.dialStatus who.tenant who.line) hroute rfl t.served
    rcases Web.run_answer_eq_ok hrun with hrun | hverbs
    · exact hdown hkept hrun
    · exact hverbs ▸ Caller.descends_hangup _ _

/-- **A turn leads down.** -/
theorem At.descends {rank : Rank} (h : t.At rank) (hroot : Flow.Addressable who.flow) :
    Descends who (who.Token t.after) rank t.verbs := by
  cases h with
  | start h => exact descends_start hst hroot h
  | given hgiven h =>
    cases hgiven with
    | goesOn hp hk => exact descends_goesOn hst hroot hp hk h
    | dialEnded hc hr hstored => exact descends_dialEnded hst hc hr hstored.1 hstored.2 h

/-- **The turn that follows** has less of the flow left. -/
theorem At.next {rank : Rank} (h : t.At rank) (hroot : Flow.Addressable who.flow) {t' : Turn who} (hfollows : t.Follows t') :
    ∃ rank' < rank, t'.At rank' := by
  obtain ⟨⟨url, hleads, hasks⟩, hmeanwhile⟩ := hfollows
  have hdown := h.descends hst hroot
  have hafter := t.proceeds.chained hst
  have hlinks := State.links_of_proceeds hmeanwhile hafter
  have hkept (r : Resume) (seq : Int) (htoken : who.Token t.after r seq) :
      Text.Readable seq ∧ t'.before.Shows who.sid 0 (Segment.Bears r seq) := by
    obtain ⟨s, hs, hresume, hseq⟩ := htoken
    exact ⟨hseq ▸ t.counted s hs, State.shows_of_links hlinks hafter (Segment.lasting_bears r seq)
      ⟨s, hs.records, hseq.ge, fun _ => hresume⟩⟩
  cases hleads with
  | answered hurl =>
    obtain ⟨rank', hlt, hgiven⟩ := hdown.given url hurl
    exact ⟨rank', hlt, .given (hgiven.mono hkept) hasks⟩
  | decided hdials hs hds hd hurl =>
    obtain ⟨r, seq, ⟨s, hs', hresume, -⟩, rank', hlt, hopened⟩ := hdown.dials _ hdials
    cases hs.eq hs'
    obtain ⟨hkeeps, htenant⟩ := Segment.token_run _ _ hds
    obtain ⟨-, -, -, rfl⟩ := Segment.decision_inv hd
    obtain ⟨rank'', hlt', hgiven⟩ :=
      hopened.decided (hkeeps.trans hresume) (htenant.trans hs.tenant) hurl (who.Token t.after)
    exact ⟨rank'', hlt'.trans hlt, .given (hgiven.mono hkept) hasks⟩

end Descends

/-- **From every turn on** a request comes sooner or later that leads to no other. -/
theorem At.ends (hroot : Flow.Addressable who.flow) (turns : Nat → Turn who) (rank : Rank) :
    ∀ n, (turns n).At rank → (turns n).before.store.Identified ∧ Store.Chained (turns n).before.store →
      ∃ m, ¬ (turns m).Follows (turns (m + 1)) := by
  -- By induction on what is left of the flow.
  induction rank using WellFoundedLT.induction with
  | ind rank ih =>
    intro n hn hst
    by_cases hfollows : (turns n).Follows (turns (n + 1))
    · obtain ⟨rank', hlt, hnext⟩ := hn.next hst hroot hfollows
      refine ih rank' hlt (n + 1) hnext ?_
      have hafter := (turns n).proceeds.chained hst
      exact State.chained_of_links (State.links_of_proceeds hfollows.meanwhile hafter) hafter
    · exact ⟨n, hfollows⟩

end Turn

/-- **No call loops.**  A call comes in for a line with a fixed flow, and request follows request, each at an address that the
answer before gives or that is decided on for the attempt which that answer has opened; then sooner or later a request is not
followed by another one.  Nothing is assumed of what the caller enters, of the clock, of where destinations lead, of who
answers, or of what goes on in the service between two requests, but that the line keeps its flow and that the call is not
handed on. -/
theorem no_call_loops (who : Caller) (hroot : Flow.Addressable who.flow) {st : State} (hnone : st.store.calls = [])
    (turns : Nat → Turn who) (hbefore : ReflTransGen State.Proceeds st (turns 0).before) (hstart : (turns 0).Starts) :
    ∃ n, ¬ (turns n).Follows (turns (n + 1)) :=
  Turn.At.ends hroot turns _ 0 (.start hstart) (State.chained_of_proceeds hnone hbefore)

/-- Nobody answers a dial: its end leads behind the step, where the flow is over. -/
theorem unanswered_dial_leads_on :
    let dial : Json :=
      .arr [.obj [("id", .str "d"), ("type", .str "dial"), ("config", .obj [("destination", .str "+15557654321")])]]
    let who : Caller := ⟨(Flow.Steps.read dial).toOption.getD [], .ofBase "", "T", "L", "CA1", by decide +kernel⟩
    let st := { State.holding [] with
      store := { Store.empty with
        flows := [⟨"F", "T", "Main", none, true, false, .ok dial, .utc 0, .utc 0⟩]
        lines := [⟨"L", "T", "+15550199", none, true, true, some "F"⟩] }
      settings := { (State.holding []).settings with authToken := "secret" } }
    let asks (path query : String) : Request := ⟨.post, path, query,
      [("host", "localhost"), ("content-type", "application/x-www-form-urlencoded")], "CallSid=CA1"⟩
    Flow.Addressable who.flow ∧ st.store.calls = [] ∧ ∃ turns : Nat → Turn who,
      (turns 0).request = asks "/voice/incoming/T/L" "" ∧ (turns 0).before = st ∧ (turns 0).Starts ∧
      (turns 1).request = asks "/voice/flow/T/L/dial-status" "step=0&seq=1" ∧ (turns 0).Follows (turns 1) ∧
      (turns 2).request = asks "/voice/flow/T/L" "step=1" ∧ (turns 1).Follows (turns 2) ∧
      ∃ n, ¬ (turns n).Follows (turns (n + 1)) := by
  intro dial who st asks
  have hroot : Flow.Addressable who.flow := by decide +kernel
  have hread : Flow.Steps.read dial = .ok who.flow := by
    have hlegible : (Flow.Steps.read dial).toOption.isSome = true := by decide +kernel
    obtain ⟨steps, hsteps⟩ := Option.isSome_iff_exists.1 hlegible
    rw [show who.flow = (Flow.Steps.read dial).toOption.getD [] from rfl, hsteps]
    exact Flow.toOption_eq_some.1 hsteps
  -- what is to be known of a state, so that a request may be served there
  let fixed (st : State) : Bool := st.settings.baseUrl = "" ∧ st.store.lines.map LineRow.id = ["L"] ∧
    (st.store.flows.map fun f => f.steps.toOption) = [some dial] ∧ ∀ r ∈ st.store.calls, r.segment.number = 0 ∧
      r.segment.tenantId = "T" ∧ r.segment.duration = none ∧
      r.read.toOption.all fun s => decide (Text.Readable s.scratch.attemptSeq)
  let given (r : Request) (st : State) : Option (List String) := ((Web.serve r).run st).1.toOption.bind fun a => match a with
    | ⟨200, .verbs v⟩ => some v.continuations
    | _ => none
  have hserved {r : Request} {before after : State} {urls : List String}
      (hr : r.sid = "CA1" ∧ r.event.form.given "attempt" = none) (hrun : ((Web.serve r).run before).2 = after)
      (hbefore : fixed before = true) (hafter : fixed after = true) (h : given r before = some urls) :
      ∃ t : Turn who, t.request = r ∧ t.before = before ∧ t.after = after ∧ t.verbs.continuations = urls := by
    obtain ⟨hbase, hlines, hflows, hcalls⟩ := of_decide_eq_true hbefore
    obtain ⟨reply, hreply, hverbs⟩ := Option.bind_eq_some_iff.1 h
    obtain ⟨verbs, rfl, hurls⟩ : ∃ verbs : Response, reply = .ofVerbs verbs ∧ verbs.continuations = urls := by
      split at hverbs
      · exact ⟨_, rfl, Option.some.inj hverbs⟩
      · cases hverbs
    have hsetting : who.Setting before := .of_one_line (congrArg Callbacks.ofBase hbase) hlines hflows hread fun row hrow =>
      ⟨(hcalls row hrow).1, (hcalls row hrow).2.1, (hcalls row hrow).2.2.1⟩
    refine ⟨⟨r, before, verbs, after, hr.1, hsetting, Prod.ext (Flow.toOption_eq_some.1 hreply) hrun, hr.2, fun s hs => ?_⟩,
      rfl, rfl, rfl, hurls⟩
    obtain ⟨row, hrow, -, hrecord⟩ := hs.records
    obtain ⟨-, -, -, hcounted⟩ := (of_decide_eq_true hafter).2.2.2 row (Store.mem_chainOf.1 hrow).1
    exact of_decide_eq_true ((Option.all_eq_true _ _).1 hcounted s (Flow.toOption_eq_some.2 hrecord))
  let r₀ := asks "/voice/incoming/T/L" ""
  let r₁ := asks "/voice/flow/T/L/dial-status" "step=0&seq=1"
  let r₂ := asks "/voice/flow/T/L" "step=1"
  let st₁ := ((Web.serve r₀).run st).2
  let st₂ := ((Web.serve r₁).run st₁).2
  let st₃ := ((Web.serve r₂).run st₂).2
  have hchecks : (fixed st = true ∧ fixed st₁ = true ∧ fixed st₂ = true ∧ fixed st₃ = true) ∧
      given r₀ st = some ["/voice/flow/T/L/dial-status?step=0&seq=1"] ∧ given r₁ st₁ = some ["/voice/flow/T/L?step=1"] ∧
      given r₂ st₂ = some [] := by
    decide +kernel
  have hrun : ((Web.serve r₀).run st).2 = st₁ ∧ ((Web.serve r₁).run st₁).2 = st₂ ∧ ((Web.serve r₂).run st₂).2 = st₃ :=
    ⟨rfl, rfl, rfl⟩
  -- what follows is about the states as far as they are told here
  clear_value st₁ st₂ st₃
  obtain ⟨⟨hfixed, hfixed₁, hfixed₂, hfixed₃⟩, hgiven₀, hgiven₁, hgiven₂⟩ := hchecks
  obtain ⟨first, hfirst, hbefore, hafter, hurls⟩ := hserved (by decide +kernel) hrun.1 hfixed hfixed₁ hgiven₀
  obtain ⟨second, hsecond, hbefore₁, hafter₁, hurls₁⟩ := hserved (by decide +kernel) hrun.2.1 hfixed₁ hfixed₂ hgiven₁
  obtain ⟨third, hthird, hbefore₂, -, -⟩ := hserved (by decide +kernel) hrun.2.2 hfixed₂ hfixed₃ hgiven₂
  let turns : Nat → Turn who
    | 0 => first
    | 1 => second
    | _ => third
  have hincoming : Route.find .post "/voice/incoming/T/L" = .ok (.hook (.incoming "T" "L")) := rfl
  have hreported : Route.find .post "/voice/flow/T/L/dial-status" = .ok (.hook (.dialStatus "T" "L")) := rfl
  have hflow : Route.find .post "/voice/flow/T/L" = .ok (.hook (.flow "T" "L")) := rfl
  have hnone : st.store.calls = [] := rfl
  have hstart : first.Starts := ⟨"L", by decide, hfirst ▸ hincoming⟩
  have hends := no_call_loops who hroot hnone turns (hbefore ▸ .refl) hstart
  refine ⟨hroot, hnone, turns, hfirst, hbefore, hstart, hsecond, ⟨⟨_, .answered (hurls ▸ List.mem_cons_self), true, ?_⟩, ?_⟩,
    hthird, ⟨⟨_, .answered (hurls₁ ▸ List.mem_cons_self), false, ?_⟩, ?_⟩, hends⟩
  · exact hsecond ▸ ⟨hreported, by decide +kernel⟩
  · exact (hafter.trans hbefore₁.symm) ▸ ReflTransGen.refl
  · exact hthird ▸ ⟨hflow, by decide +kernel⟩
  · exact (hafter₁.trans hbefore₂.symm) ▸ ReflTransGen.refl

end Switchboard
