import Switchboard.Proofs.Service.Alike
import Switchboard.Proofs.Service.Disposing
import Switchboard.Proofs.Web.Resuming
/-!
# Redirects from step to step

A list can be run in one response, or by a redirect behind each step that is done, where every request knows of the last
one only what the address tells.  `Relayed` follows these redirects one by one and puts together what they give.  It comes
to what one run of the list gives, at every place of every flow (`modes_agree`).
-/
namespace Switchboard

open Switchboard.Flow (Step Body Branch Steps)
open Web (Event flowReply)

/-! ## Responses that send the caller on -/

namespace Response

/-- What is said before the caller is sent on, and where to.  A redirect behind a prompt for digits is none of a step that is
done: it is followed only where nothing is entered. -/
def onward? (verbs : Response) : Option (Response × String) :=
  match verbs.reverse with
  | .redirect _ :: .gather _ :: _ => none
  | .redirect url :: front => some (front.reverse, url)
  | _ => none

/-- **What is said first** is said before the caller is sent on. -/
theorem onward?_said_append (said : List Prompt) (verbs : Response) :
    onward? (said.map .prompt ++ verbs) = verbs.onward?.map fun p => (said.map .prompt ++ p.1, p.2) := by
  unfold onward?
  rw [List.reverse_append, ← List.map_reverse]
  have hsaid : said.map Verb.prompt = (said.reverse.map Verb.prompt).reverse := by rw [← List.map_reverse, List.reverse_reverse]
  rw [hsaid]
  generalize said.reverse = back
  rcases verbs.reverse with - | ⟨v, - | ⟨w, front⟩⟩
  · cases back <;> rfl
  · cases v <;> cases back <;> simp
  · cases v <;> cases w <;> simp

end Response

namespace Work

open Response (onward?_said_append)

variable {c : CallContext} {s t : Spot}

theorem Spot.Reaches.inline (h : s.Reaches t) (hs : s.mode = .inline) : t.mode = .inline := by
  induction h with
  | here => exact hs
  | later _ _ ih => exact ih hs
  | inside _ _ _ ih => exact ih rfl

theorem Spot.Within.inline (h : s.Within t) : t.mode = .inline := by
  rcases h with rfl | ⟨x, child, -, -, h⟩
  · rfl
  · exact h.inline rfl

/-- **Where a list is run in one response** no end of it sends the caller on. -/
theorem Spot.Ends.onward?_eq_none {urls : Callbacks} {verbs : Response} {token : Option (Resume × Int)}
    (h : s.Ends urls c verbs token) (hs : s.mode = .inline) : verbs.onward? = none := by
  cases h with
  | next _ hmode =>
    rw [hs] at hmode
    cases hmode
  | past | menu | keypad | dialed => rfl
  | voicemail =>
    obtain ⟨r, hverbs⟩ := voicemailVerbs_eq urls c _
    rw [hverbs, onward?_said_append]
    rfl
  | hangup => exact onward?_said_append _ _

theorem Ground.Steps.onward?_of_stop {G : Ground c} {o : Outcome} {st : State} (h : G.Steps s o st) (hnext : o.next = .stop) :
    o.rendering.verbs.onward? = none := by
  cases h with
  | goesOn h => exact absurd hnext h
  | stops _ said t tail token urls hverbs ht _ htail =>
    rw [hverbs, onward?_said_append, htail.onward?_eq_none ht.inline]
    rfl

theorem Ground.Steps.said_of_goesOn {G : Ground c} {o : Outcome} {st : State} (h : G.Steps s o st) (hnext : o.next ≠ .stop) :
    ∃ said : List Prompt, o.rendering.verbs = said.map .prompt := by
  cases h with
  | goesOn _ said hverbs => exact ⟨said, hverbs⟩
  | stops h => exact absurd h hnext

/-! ## Following redirects -/

/-- What a run gives, where it comes and what it leaves behind. -/
structure Stretch where
  rendering : Rendering
  places : List Place
  state : State

/-- A stretch behind something else. -/
def Stretch.behind (r : Rendering) (places : List Place) (x : Stretch) : Stretch :=
  ⟨r ++ x.rendering, places ++ x.places, x.state⟩

theorem Stretch.behind_behind (r₁ r₂ : Rendering) (places₁ places₂ : List Place) (x : Stretch) :
    (x.behind r₂ places₂).behind r₁ places₁ = x.behind ⟨r₁.verbs ++ r₂.verbs, r₁.tags ++ r₂.tags⟩ (places₁ ++ places₂) := by
  show Stretch.mk ⟨r₁.verbs ++ (r₂.verbs ++ x.rendering.verbs), r₁.tags ++ (r₂.tags ++ x.rendering.tags)⟩
    (places₁ ++ (places₂ ++ x.places)) x.state = _
  rw [← List.append_assoc, ← List.append_assoc, ← List.append_assoc]
  rfl

/-- A run from a state is a stretch. -/
def Stretch.Of (t : Work (Rendering × List Place)) (st : State) (x : Stretch) : Prop :=
  t.run st = (.ok (x.rendering, x.places), x.state)

/-- What a stretch comes to where each redirect of a step that is done is followed, without the redirects themselves: the
provider asks at the address that it was given, and sends nothing of an attempt along. -/
inductive Relayed (root : Steps) (c : CallContext) : Stretch → Stretch → Prop
  | rests {x : Stretch} (h : x.rendering.verbs.onward? = none) : Relayed root c x x
  | goesOn {x y z : Stretch} {said : Response} {query : String} {e : Event} {kept : List (String × String)}
    (h : x.rendering.verbs.onward? = some (said, (Callbacks.ofBase x.state.settings.baseUrl).base ++
      ("/voice/flow/" ++ c.tenantId ++ "/" ++ c.lineId) ++ "?" ++ query))
    (haddress : e.address = Text.Percent.fields query) (hform : e.form.given "attempt" = none)
    (hrun : (traceAction root c (e.address.given "branch") ((e.parameter? "step").getD 0) (flowReply e)).run x.state =
      (.ok ((y.rendering, kept), y.places), y.state))
    (hmore : Relayed root c y z) : Relayed root c x (z.behind ⟨said, x.rendering.tags⟩ x.places)

/-- A stretch comes to something where its redirects are followed, and to nothing else but what is so. -/
def Relays (root : Steps) (c : CallContext) (x : Stretch) (Q : Stretch → Prop) : Prop :=
  (∃ z, Relayed root c x z) ∧ ∀ z, Relayed root c x z → Q z

namespace Relays

variable {root : Steps} {x y : Stretch} {Q : Stretch → Prop}

theorem mono {P : Stretch → Prop} (h : Relays root c x P) (hPQ : ∀ z, P z → Q z) : Relays root c x Q :=
  ⟨h.1, fun z hz => hPQ z (h.2 z hz)⟩

theorem rests (h : x.rendering.verbs.onward? = none) (hQ : Q x) : Relays root c x Q := by
  refine ⟨⟨x, .rests h⟩, fun z hz => ?_⟩
  cases hz with
  | rests => exact hQ
  | goesOn h' =>
    rw [h] at h'
    cases h'

/-- **A redirect is followed** to what every request at its address comes to. -/
theorem goesOn {said : Response} {query : String}
    (h : x.rendering.verbs.onward? = some (said, (Callbacks.ofBase x.state.settings.baseUrl).base ++
      ("/voice/flow/" ++ c.tenantId ++ "/" ++ c.lineId) ++ "?" ++ query))
    (hrun : ∀ e : Event, e.address = Text.Percent.fields query → e.form.given "attempt" = none →
      (traceAction root c (e.address.given "branch") ((e.parameter? "step").getD 0) (flowReply e)).run x.state =
        (.ok ((y.rendering, []), y.places), y.state))
    (hy : Relays root c y fun z => Q (z.behind ⟨said, x.rendering.tags⟩ x.places)) : Relays root c x Q := by
  obtain ⟨⟨z, hz⟩, hQ⟩ := hy
  refine ⟨⟨_, .goesOn h rfl rfl (hrun ⟨Text.Percent.fields query, []⟩ rfl rfl) hz⟩, fun z' hz' => ?_⟩
  cases hz' with
  | rests h' =>
    rw [h] at h'
    cases h'
  | @goesOn _ y' z _ _ e kept h' haddress hform hrun' hmore =>
    rw [h] at h'
    obtain ⟨rfl, hurl⟩ := Prod.mk.inj (Option.some.inj h')
    obtain rfl := (String.append_right_inj _).1 hurl
    have hsame : y = y' := by
      obtain ⟨hout, hstate⟩ := Prod.mk.inj ((hrun e haddress hform).symm.trans hrun')
      obtain ⟨hkept, hplaces⟩ := Prod.mk.inj (Except.ok.inj hout)
      cases y
      cases y'
      obtain rfl := (Prod.mk.inj hkept).1
      obtain rfl := hplaces
      obtain rfl := hstate
      rfl
    exact hQ z (hsame ▸ hmore)

/-- **What is given before a stretch** is given before what it comes to. -/
theorem behind {said : List Prompt} {tags : List Json} {places : List Place}
    (h : Relays root c x fun z => Q (z.behind ⟨said.map .prompt, tags⟩ places)) :
    Relays root c (x.behind ⟨said.map .prompt, tags⟩ places) Q := by
  have honward : (x.behind ⟨said.map .prompt, tags⟩ places).rendering.verbs.onward? =
      x.rendering.verbs.onward?.map fun p => (said.map .prompt ++ p.1, p.2) := onward?_said_append said _
  obtain ⟨⟨z, hz⟩, hQ⟩ := h
  constructor
  · refine ⟨z.behind ⟨said.map .prompt, tags⟩ places, ?_⟩
    cases hz with
    | rests h => exact .rests (by rw [honward, h]; rfl)
    | goesOn h haddress hform hrun hmore =>
      rw [Stretch.behind_behind]
      exact .goesOn (honward.trans (by rw [h]; rfl)) haddress hform hrun hmore
  · intro z' hz'
    cases hz' with
    | rests h =>
      rw [honward, Option.map_eq_none_iff] at h
      exact hQ x (.rests h)
    | goesOn h haddress hform hrun hmore =>
      rw [honward, Option.map_eq_some_iff] at h
      obtain ⟨⟨said', url⟩, h, hsaid⟩ := h
      obtain ⟨rfl, rfl⟩ := Prod.mk.inj hsaid
      have hz' : Q (Stretch.behind _ places (Stretch.behind _ x.places _)) := hQ _ (.goesOn h haddress hform hrun hmore)
      rwa [Stretch.behind_behind] at hz'

end Relays

/-! ## One step -/

/-- **The request at the address behind a step** runs the list from there on. -/
theorem traceAction_next {root : Steps} {p : Place} (hroot : Text.Readable (Flow.flat root).length)
    (hp : p.Stands (Flow.Leading root)) (c : CallContext) {e : Event}
    (he : e.address = Text.Percent.fields (p.position .next).query) (hform : e.form.given "attempt" = none) :
    traceAction root c (e.address.given "branch") ((e.parameter? "step").getD 0) (flowReply e) = (do
      let (r, places) ← traceFrom c .redirect (Flow.given p.branch) p.list (p.index + 1) (some 0) (p.list.drop (p.index + 1))
      return ((r, []), places)) := by
  have hlist : Flow.resolveBranch root (Flow.given p.branch) = .ok p.list := (Flow.resolveBranch_given root _).trans hp.1
  have haction : (flowReply e).action = .other := congrArg Action.ofName? (Web.given_action he)
  unfold traceAction
  rw [Web.given_branch he, show (p.position .next).branch = p.branch from rfl, hlist,
    Web.parameter?_step he (p.readable hroot hp).2]
  dsimp only
  rw [haction, Web.sentAttempt_of_unsent hform]
  dsimp only
  unfold traceAt
  rw [show (some (p.position .next).step).getD 0 = ((p.index + 1 : Nat) : Int) from rfl, if_pos (Int.natCast_nonneg _),
    Int.toNat_natCast]

/-- **A step under either name of its list** gives the same, says something where it is gone on behind it, and sends nobody on
where it is not. -/
theorem run_traceStep {b₁ b₂ : Option String} (hb : Flow.given b₁ = Flow.given b₂) (c : CallContext) {list : List Step}
    {index : Nat} {x : Step} (hx : list[index]? = some x) (st : State) :
    let step (b : Option String) : Work (Outcome × List Place) :=
      Task.recover (fun _ => return (.advance [], [])) (traceBody c b index (some 0) x.body)
    ∃ o inside st₁ st₂, (step b₁).run st = (.ok (o, inside), st₁) ∧ (step b₂).run st = (.ok (o, inside), st₂) ∧
      (o.next ≠ .stop ∨ b₁ = b₂ → st₁ = st₂) ∧ (o.next = .stop → o.rendering.verbs.onward? = none) ∧
      (o.next ≠ .stop → ∃ said : List Prompt, o.rendering.verbs = said.map .prompt) := by
  intro step
  have hsteps : (anyhow c).Does (skipFailed (runBody c b₁ index (some 0) x.body))
      ((anyhow c).Steps ⟨.redirect, b₁, list, index, some 0⟩) st :=
    Ground.Does.recover (Ground.steps_of_runBody x.body ⟨.redirect, b₁, list, index, some 0⟩ hx rfl trivial)
      fun _ _ _ => .pure trivial .nothing
  have hfst : Prod.fst <$> step b₁ = skipFailed (runBody c b₁ index (some 0) x.body) := by
    rw [← fst_traceBody]
    exact map_recover _ _ _
  obtain ⟨⟨o, inside⟩, hout⟩ := ((Answers.recover (traceBody c b₁ index (some 0) x.body) fun _ =>
    .pure ((.advance [], []) : Outcome × List Place)).upholds st).ends fun _ => trivial
  have hrun₁ : (step b₁).run st = (.ok (o, inside), ((step b₁).run st).2) := Prod.ext hout rfl
  have ho : (anyhow c).Steps ⟨.redirect, b₁, list, index, some 0⟩ o ((step b₁).run st).2 := by
    have hskip : (skipFailed (runBody c b₁ index (some 0) x.body)).run st = (.ok o, ((step b₁).run st).2) := by
      rw [← hfst]
      exact Task.run_bind_ok hrun₁
    exact hsteps.of_run (fun _ => trivial) hskip
  have hends := And.intro ho.onward?_of_stop ho.said_of_goesOn
  rcases (alike_traceBody hb c index (some 0) x.body st).recover fun _ => return (.advance [], []) with
    hsame | ⟨⟨o', inside'⟩, st₁, st₂, hrun, hrun₂, hlast⟩
  · exact ⟨o, inside, _, _, hrun₁, hsame.symm.trans hrun₁, fun _ => rfl, hends⟩
  · obtain ⟨hout, hst⟩ := Prod.mk.inj (hrun₁.symm.trans hrun)
    cases Except.ok.inj hout
    refine ⟨o, inside, _, st₂, hrun₁, hrun₂, fun h => h.elim (fun h => absurd hlast h) fun h => ?_, hends⟩
    subst h
    exact hst.trans (Prod.mk.inj (hrun.symm.trans hrun₂)).2

/-! ## A whole list -/

/-- A place with a branch that names its list: none for the root. -/
def Place.named (p : Place) : Place := { p with branch := Flow.given p.branch }

/-- A stretch gives what another one gives and comes to the same steps; where `exact` holds it is the same throughout. -/
structure Stretch.Agrees (exact : Prop) (x y : Stretch) : Prop where
  rendering : x.rendering = y.rendering
  places : x.places.map Place.named = y.places.map Place.named
  same : exact → x = y

theorem Stretch.Agrees.behind {exact exact' : Prop} {x y : Stretch} {r r' : Rendering} {places places' : List Place}
    (h : x.Agrees exact' y) (hr : r = r') (hplaces : places.map Place.named = places'.map Place.named)
    (hexact : exact → exact' ∧ places = places') : (x.behind r places).Agrees exact (y.behind r' places') where
  rendering := by rw [Stretch.behind, Stretch.behind, h.rendering, hr]
  places := by
    show (places ++ x.places).map Place.named = (places' ++ y.places).map Place.named
    rw [List.map_append, List.map_append, h.places, hplaces]
  same he := by rw [h.same (hexact he).1, hr, (hexact he).2]

/-- **A list that is run by redirects** comes to what one run of it gives, from every index on.  Behind the first step the
branch is the one that the address carries. -/
theorem relays_traceFrom {root : Steps} (hroot : Text.Readable (Flow.flat root).length) (c : CallContext)
    {list : List Step} : ∀ (steps : List Step) (index : Nat) (b₁ b₂ : Option String) (st : State),
    Flow.resolveBranch root b₁ = .ok list → Flow.given b₁ = Flow.given b₂ → list.drop index = steps →
    ∃ inl first, Stretch.Of (traceFrom c .inline b₂ list index (some 0) steps) st inl ∧
      Stretch.Of (traceFrom c .redirect b₁ list index (some 0) steps) st first ∧
      Relays root c first fun total => total.Agrees (b₁ = b₂ ∧ Flow.given b₁ = b₁) inl
  | [], index, b₁, b₂, st, _, _, _ => by
    rw [traceFrom, traceFrom]
    exact ⟨⟨.ofVerbs Response.goodbye, [], st⟩, ⟨.ofVerbs Response.goodbye, [], st⟩, rfl, rfl,
      .rests rfl ⟨rfl, rfl, fun _ => rfl⟩⟩
  | ⟨id, label, body⟩ :: rest, index, b₁, b₂, st, hlist, hb, hdrop => by
    have hx : list[index]? = some ⟨id, label, body⟩ := by
      rw [← List.head?_drop, hdrop]
      rfl
    have hrest : list.drop (index + 1) = rest := by
      rw [← List.drop_drop, hdrop]
      rfl
    obtain ⟨o, inside, st₁, st₂, hrun₁, hrun₂, hst, hstop, hsaid⟩ := run_traceStep hb c hx st
    let place (b : Option String) : Place := ⟨b, list, index, ⟨id, label, body⟩⟩
    have hplaces : (place b₁ :: inside).map Place.named = (place b₂ :: inside).map Place.named := by
      rw [List.map_cons, List.map_cons, show (place b₁).named = (place b₂).named from
        congrArg (Place.mk · list index ⟨id, label, body⟩) hb]
    have hexact : b₁ = b₂ → place b₁ :: inside = place b₂ :: inside := fun h => by rw [h]
    rw [traceFrom, traceFrom]
    unfold Stretch.Of
    rw [Task.run_bind_ok hrun₁, Task.run_bind_ok hrun₂]
    obtain ⟨⟨verbs, tags⟩, next⟩ := o
    cases next with
    | stop =>
      refine ⟨⟨⟨verbs, tags⟩, place b₂ :: inside, st₂⟩, ⟨⟨verbs, tags⟩, place b₁ :: inside, st₁⟩, rfl, rfl,
        .rests (hstop rfl) ⟨rfl, hplaces, ?_⟩⟩
      rintro ⟨h, -⟩
      rw [hst (.inr h), hexact h]
    | advance =>
      obtain ⟨said, rfl⟩ := hsaid nofun
      obtain rfl := hst (.inl nofun)
      -- the request behind the redirect knows the branch as the address carries it
      obtain ⟨inl, first, hinl, hfirst, hrelays⟩ := relays_traceFrom hroot c rest (index + 1) (Flow.given b₁) b₂ st₁
        ((Flow.resolveBranch_given root b₁).trans hlist) ((Flow.given_given b₁).trans hb) hrest
      let urls : Callbacks := .ofBase st₁.settings.baseUrl
      have honward : Response.onward? (said.map .prompt ++ [goTo urls c (index + 1) b₁]) = some (said.map .prompt,
          urls.base ++ ("/voice/flow/" ++ c.tenantId ++ "/" ++ c.lineId) ++ "?" ++ ((place b₁).position .next).query) := by
        refine (onward?_said_append said _).trans ?_
        show some (said.map Verb.prompt ++ [], urls.flow c.tenantId c.lineId ((place b₁).position .next)) = _
        rw [List.append_nil, Callbacks.flow_eq]
      refine ⟨inl.behind ⟨said.map .prompt, tags⟩ (place b₂ :: inside),
        ⟨⟨said.map .prompt ++ [goTo urls c (index + 1) b₁], tags ++ []⟩, place b₁ :: inside, st₁⟩,
        Task.run_bind_ok hinl, rfl, Relays.goesOn honward (fun e he hform => ?_) (hrelays.mono fun total h => ?_)⟩
      · rw [traceAction_next hroot (p := place b₁) ⟨hlist, hx⟩ c he hform]
        exact Task.run_bind_ok (hrest ▸ hfirst)
      · refine h.behind (congrArg _ (List.append_nil tags)) hplaces fun ⟨h, hgiven⟩ => ⟨⟨hgiven.trans h, ?_⟩, hexact h⟩
        rw [hgiven, hgiven]
    | chain =>
      obtain ⟨said, rfl⟩ := hsaid nofun
      obtain rfl := hst (.inl nofun)
      obtain ⟨inl, first, hinl, hfirst, hrelays⟩ := relays_traceFrom hroot c rest (index + 1) b₁ b₂ st₁ hlist hb hrest
      exact ⟨inl.behind ⟨said.map .prompt, tags⟩ (place b₂ :: inside),
        first.behind ⟨said.map .prompt, tags⟩ (place b₁ :: inside),
        Task.run_bind_ok hinl, Task.run_bind_ok hfirst,
        .behind (hrelays.mono fun total h => h.behind rfl hplaces fun he => ⟨he, hexact he.1⟩)⟩

/-! ## Tags -/

/-- The tag that a step puts on the call. -/
def Place.tag? (p : Place) : Option Json :=
  match p.step.body with
  | .tag t => some (Segment.tagJson t.tagName t.tagValue)
  | _ => none

theorem tagless_bridge (a : Attempt) (index : Nat) (branch : Option String) (st : State) :
    (anyhow c).Does (bridge c a index branch) (fun o _ => o.rendering.tags = []) st :=
  (Ground.Does.prepareAttempt trivial _ a.targets _ a.timeout a.record).bind fun prepared _ _ _ => by
    cases prepared with
    | none => exact .pure trivial rfl
    | some segment => exact (Ground.Does.callbacks trivial).bind fun _ _ _ _ => .pure trivial rfl

/-- **A step that is no tag** puts none on the call by itself. -/
theorem tagless_runBody (branch : Option String) (index : Nat) (attempt : Option Int) (st : State) : ∀ body : Body,
    (∀ t, body ≠ .tag t) → (∀ z bs fallback, body ≠ .schedule z bs fallback) →
      (anyhow c).Does (runBody c branch index attempt body) (fun o _ => o.rendering.tags = []) st := by
  intro body htag hschedule
  cases body with
  | tag t => exact absurd rfl (htag t)
  | schedule z bs fallback => exact absurd rfl (hschedule z bs fallback)
  | dial d =>
    rw [runBody]
    refine (Ground.Does.resolve? trivial _ _).bind fun target st' _ _ => ?_
    cases target with
    | none => exact .pure trivial rfl
    | some target => exact tagless_bridge _ index branch st'
  | simulcall d =>
    rw [runBody]
    refine (Ground.does_resolveAll _ _ trivial).bind fun targets st' _ _ => ?_
    split
    · exact .pure trivial rfl
    · exact tagless_bridge _ index branch st'
  | roundRobin d =>
    cases attempt with
    | none =>
      rw [runBody]
      exact .fail trivial _
    | some n =>
      rw [runBody]
      unfold runRoundRobin
      split
      · exact .fail trivial _
      · refine (Ground.does_firstResolved _ _ n trivial).bind fun found st' _ _ => ?_
        cases found with
        | none => exact .pure trivial rfl
        | some p => exact tagless_bridge _ index branch st'
  | menu p options invalid =>
    rw [runBody]
    refine (Ground.Does.callbacks trivial).bind fun urls st' _ _ => ?_
    cases attempt with
    | none => exact .fail trivial _
    | some n => exact .pure trivial rfl
  | keypadEntry k =>
    rw [runBody]
    exact (Ground.Does.callbacks trivial).bind fun _ _ _ _ => .pure trivial rfl
  | voicemail v =>
    rw [runBody]
    exact (Ground.Does.callbacks trivial).bind fun _ _ _ _ => .pure trivial rfl
  | greeting | hangup | unknown =>
    rw [runBody]
    exact .pure trivial rfl
  | bare t =>
    rw [runBody]
    exact .fail trivial _

/-- **A tag is put on the call whatever happens**: where it cannot be stored, that is passed over. -/
theorem tags_traceTag (branch : Option String) (index : Nat) (attempt : Option Int) (t : Flow.Tag) (st : State) :
    (anyhow c).Does (Task.recover (fun _ => return (.advance [], [])) (traceBody c branch index attempt (.tag t)))
      (fun r _ => r.1.rendering.tags = [Segment.tagJson t.tagName t.tagValue] ∧ r.2 = []) st := by
  have hbody : traceBody c branch index attempt (.tag t) = (do return (← runTag c t, [])) := by
    rw [traceBody, runBody]
    exact fun _ _ _ h => by cases h
  have hanswers : Answers (runTag c t) := (Answers.recover _ fun _ => .pure _).bind fun _ => .pure _
  rw [hbody]
  have hdoes : (anyhow c).Does (do return (← runTag c t, ([] : List Place)))
      (fun r _ => r.1.rendering.tags = [Segment.tagJson t.tagName t.tagValue] ∧ r.2 = []) st :=
    Ground.Does.bind ((Ground.Does.quietly ((anyhow c).tags _ _ trivial)).bind
      (Q := fun o _ => o.rendering.tags = [Segment.tagJson t.tagName t.tagValue]) fun _ _ _ _ => .pure trivial rfl)
      fun o _ _ ho => .pure trivial ⟨ho, rfl⟩
  refine Task.Upholds.recover ?_ ?_ (upholds_answer hdoes (hanswers.bind fun _ => .pure _))
  · rintro r _ ⟨_, hr, htags⟩
    exact ⟨trivial, fun a ha => Except.ok.inj ha ▸ Except.ok.inj hr ▸ htags⟩
  · rintro e _ ⟨_, hr, -⟩
    cases hr

mutual

/-- **The tags that a run puts on the call** are those of the steps that it comes to, each once and in order. -/
theorem tags_traceFrom (mode : Mode) (branch : Option String) (list : List Step) : ∀ (steps : List Step) (index : Nat)
    (attempt : Option Int) (st : State), (anyhow c).Does (traceFrom c mode branch list index attempt steps)
      (fun r _ => r.1.tags = r.2.filterMap Place.tag?) st
  | [], _, _, _ => by
    rw [traceFrom]
    exact .pure trivial rfl
  | ⟨id, label, body⟩ :: rest, index, attempt, st => by
    have hstep : (anyhow c).Does (Task.recover (fun _ => return (.advance [], [])) (traceBody c branch index attempt body))
        (fun r _ => r.1.rendering.tags = (⟨branch, list, index, ⟨id, label, body⟩⟩ :: r.2).filterMap Place.tag?) st := by
      by_cases htag : ∃ t, body = .tag t
      · obtain ⟨t, rfl⟩ := htag
        refine (tags_traceTag branch index attempt t st).mono fun r _ hr => ?_
        rw [hr.1, hr.2]
        rfl
      · have hnone : Place.tag? ⟨branch, list, index, ⟨id, label, body⟩⟩ = none := by
          unfold Place.tag?
          cases body with
          | tag t => exact absurd ⟨t, rfl⟩ htag
          | _ => rfl
        simp only [List.filterMap_cons_none hnone]
        exact .recover (tags_traceBody branch body index attempt st fun t ht => htag ⟨t, ht⟩) fun _ _ _ => .pure trivial rfl
    rw [traceFrom]
    refine hstep.bind fun r st' _ hr => ?_
    obtain ⟨⟨rendering, next⟩, inside⟩ := r
    dsimp only
    split
    · exact .pure trivial hr
    · exact (Ground.Does.callbacks trivial).bind fun _ _ _ _ => .pure trivial ((List.append_nil _).trans hr)
    · refine (tags_traceFrom mode branch list rest (index + 1) (some 0) st').bind fun more _ _ hmore => .pure trivial ?_
      show rendering.tags ++ more.1.tags = _
      rw [hr, hmore, List.filterMap_append]

theorem tags_traceBody (branch : Option String) : ∀ (body : Body) (index : Nat) (attempt : Option Int) (st : State),
    (∀ t, body ≠ .tag t) → (anyhow c).Does (traceBody c branch index attempt body)
      (fun r _ => r.1.rendering.tags = r.2.filterMap Place.tag?) st
  | .schedule timezone branches fallback, index, _, st, _ => by
    rw [traceBody]
    refine (Ground.Does.asks trivial trivial : (anyhow c).Does _ (fun _ _ => True) st).bind fun clock st' _ _ => ?_
    refine (tags_traceBranches branch branches index clock.1 clock.2 0 st').bind fun found st'' _ hfound => ?_
    cases found with
    | some r => exact .pure trivial (hfound r rfl)
    | none =>
      dsimp only
      split
      · exact .pure trivial rfl
      · exact (tags_traceFrom .inline _ fallback fallback 0 (some 0) st'').bind fun r _ _ hr => .pure trivial hr
  | .tag t, _, _, _, htag => absurd rfl (htag t)
  | .greeting _, index, attempt, st, htag | .dial _, index, attempt, st, htag | .simulcall _, index, attempt, st, htag
  | .roundRobin _, index, attempt, st, htag | .menu _ _ _, index, attempt, st, htag
  | .keypadEntry _, index, attempt, st, htag | .voicemail _, index, attempt, st, htag
  | .hangup _, index, attempt, st, htag | .bare _, index, attempt, st, htag | .unknown _ _, index, attempt, st, htag => by
    rw [traceBody]
    · exact (tagless_runBody branch index attempt st _ htag nofun).bind fun _ _ _ ho => .pure trivial ho
    · exact nofun

theorem tags_traceBranches (branch : Option String) : ∀ (branches : List Branch) (index : Nat) (weekday minute : Int)
    (i : Nat) (st : State), (anyhow c).Does (traceBranches c branch index weekday minute i branches)
      (fun found _ => ∀ r, found = some r → r.1.rendering.tags = r.2.filterMap Place.tag?) st
  | [], _, _, _, _, _ => by
    rw [traceBranches]
    exact .pure trivial nofun
  | ⟨_, _, slots, steps⟩ :: rest, index, weekday, minute, i, st => by
    rw [traceBranches]
    split
    · split
      · exact .pure trivial fun r hr => Option.some.inj hr ▸ rfl
      · refine (tags_traceFrom .inline _ steps steps 0 (some 0) st).bind fun r _ _ hr => .pure trivial fun found hfound => ?_
        exact Option.some.inj hfound ▸ hr
    · exact tags_traceBranches branch rest index weekday minute (i + 1) st

end

/-! ## The modes agree -/

/-- **The two modes agree.**  From every index of every list of a flow, told of no attempt: a run by redirects comes to what
one run of the list gives when each redirect of a step that is done is followed.  It says the same, comes to the same steps
in the same order and puts each of their tags on the call once.  Each run and each request starts from the state that the
last one left, and so the same is stored; only under the empty branch, which no address carries, is the token of an attempt
another one. -/
theorem modes_agree {root : Steps} (hroot : Text.Readable (Flow.flat root).length) (c : CallContext)
    {branch : Option String} {list : List Step} (hlist : Flow.resolveBranch root branch = .ok list) (index : Int) (st : State) :
    ((∀ mode, Prod.fst <$> traceExecute root c mode branch index (some 0) = execute root c mode branch index (some 0)) ∧
      ∀ b i r, Prod.fst <$> traceAction root c b i r = handleAction root c b i r) ∧
    ∃ inl first, Stretch.Of (traceExecute root c .inline branch index (some 0)) st inl ∧
      Stretch.Of (traceExecute root c .redirect branch index (some 0)) st first ∧
      inl.rendering.tags = inl.places.filterMap Place.tag? ∧
      (∃ total, Relayed root c first total) ∧ ∀ total, Relayed root c first total → total.Agrees (branch ≠ some "") inl := by
  have hwalk (mode : Mode) : traceExecute root c mode branch index (some 0) = traceAt c mode branch index (some 0) list := by
    unfold traceExecute
    rw [hlist]
  refine ⟨⟨fun mode => fst_traceExecute root c mode branch index (some 0), fst_traceAction root c⟩, ?_⟩
  rw [hwalk, hwalk]
  unfold traceAt
  split
  · obtain ⟨inl, first, hinl, hfirst, htotal, hagrees⟩ :=
      relays_traceFrom hroot c (list.drop index.toNat) index.toNat branch branch st hlist rfl rfl
    have htags := (tags_traceFrom .inline branch list _ _ _ st).of_run (fun _ => trivial) hinl
    refine ⟨inl, first, hinl, hfirst, htags, htotal, fun total h => ?_⟩
    refine ⟨(hagrees total h).rendering, (hagrees total h).places, fun hbranch => (hagrees total h).same ⟨rfl, ?_⟩⟩
    cases branch with
    | none => rfl
    | some b => exact if_neg fun hb => hbranch (congrArg some hb)
  · have hrests : Relays root c ⟨.ofVerbs Response.goodbye, [], st⟩
        fun total => total.Agrees (branch ≠ some "") ⟨.ofVerbs Response.goodbye, [], st⟩ :=
      .rests rfl ⟨rfl, rfl, fun _ => rfl⟩
    exact ⟨⟨.ofVerbs Response.goodbye, [], st⟩, ⟨.ofVerbs Response.goodbye, [], st⟩, rfl, rfl, rfl, hrests⟩

/-- A tag and somebody who cannot be reached on the way from a greeting to the end. -/
theorem modes_agree_past_a_tag :
    let message : Flow.Message := ⟨.tts, some "Welcome", none, .alloy, .enUS, none⟩
    let root : Steps := [⟨"g", none, .greeting message⟩, ⟨"t", none, .tag ⟨"vip", none⟩⟩,
      ⟨"d", none, .dial ⟨"nobody", 30, none, false⟩⟩, ⟨"h", none, .hangup none⟩]
    let c : CallContext := ⟨"T", "L", "CA1", some "F", none, none, 0, false⟩
    Text.Readable (Flow.flat root).length ∧ Flow.resolveBranch root none = .ok root ∧
      ∃ first total, Stretch.Of (traceExecute root c .redirect none 0 (some 0)) (.holding []) first ∧
        first.rendering.verbs = [.prompt (.say "Welcome" (some .enUS)), .redirect "/voice/flow/T/L?step=1"] ∧
        Relayed root c first total ∧
        total.rendering.verbs = [.prompt (.say "Welcome" (some .enUS)), .say Wording.notAvailable, .hangup] ∧
        total.rendering.tags = [Segment.tagJson "vip" none] := by
  intro message root c
  have hroot : Text.Readable (Flow.flat root).length := by decide
  have hlist : Flow.resolveBranch root none = .ok root := rfl
  obtain ⟨-, inl, first, hinl, hfirst, -, ⟨total, htotal⟩, hagrees⟩ := modes_agree hroot c hlist 0 (.holding [])
  have hverbs : ((traceExecute root c .redirect none 0 (some 0)).run (.holding [])).1.toOption.map (fun r => r.1.verbs) =
    some [.prompt (.say "Welcome" (some .enUS)), .redirect "/voice/flow/T/L?step=1"] := by decide +kernel
  have hgiven : ((traceExecute root c .inline none 0 (some 0)).run (.holding [])).1.toOption.map (fun r => r.1.verbs) =
    some [.prompt (.say "Welcome" (some .enUS)), .say Wording.notAvailable, .hangup] := by decide +kernel
  have htags : ((traceExecute root c .inline none 0 (some 0)).run (.holding [])).1.toOption.map (fun r => r.1.tags) =
    some [Segment.tagJson "vip" none] := rfl
  rw [show _ = _ from hfirst] at hverbs
  rw [show _ = _ from hinl, ← (hagrees total htotal).rendering] at hgiven htags
  exact ⟨hroot, hlist, first, total, hfirst, Option.some.inj hverbs, htotal, Option.some.inj hgiven, Option.some.inj htags⟩

end Work

end Switchboard
