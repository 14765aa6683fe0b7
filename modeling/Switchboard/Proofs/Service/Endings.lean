import Switchboard.Proofs.Service.Continuations
/-!
# How a run ends its response

A run of a list says what its steps have to say and then ends the response in one of a few ways: the list is at its end, a
step sends the caller on to the next one, or a step asks for digits, takes a message, hangs up or dials.  `Spot.Ends` lists
these ways with the attempt that is opened, and `Spot.Reaches` where a run may come to.  One walk through the interpreter
shows that every run ends so (`Ground.gives_runFrom`), on any ground: whatever others do at the pauses of the run, or
nobody, and whatever is known of the state meanwhile.
-/
namespace Switchboard.Work

open Switchboard.Flow (Step Body Branch Steps MenuOption)

/-- Where a run stands: at an index of a list under a branch, told which attempt it makes there. -/
structure Spot where
  mode : Mode
  branch : Option String
  list : List Step
  index : Nat
  attempt : Option Int

/-- The attempts that a step makes where it is told of one. -/
inductive Attempt.MadeBy (a : Attempt) : Body → Option Int → Prop
  | dial (d : Flow.Dial) (told : Option Int) (htype : a.type = .dial) : a.MadeBy (.dial d) told
  | simulcall (d : Flow.Simulcall) (told : Option Int) (htype : a.type = .simulcall) : a.MadeBy (.simulcall d) told
  | roundRobin (d : Flow.RoundRobin) (n : Int) (htype : a.type = .roundRobin) (hindex : n ≤ a.index)
    (hcount : a.destinationCount = d.destinations.length) : a.MadeBy (.roundRobin d) (some n)

namespace Spot

variable {s t : Spot} {c : CallContext} {urls : Callbacks}

/-- The step at a spot; none behind the end of the list. -/
def step? (s : Spot) : Option Step := s.list[s.index]?

/-- Behind the step. -/
def behind (s : Spot) : Spot := { s with index := s.index + 1, attempt := some 0 }

/-- The beginning of a list that the step owns. -/
def under (s : Spot) (child : Flow.Child) : Spot :=
  ⟨.inline, some (Flow.branchPath s.branch s.index child.selector.text), child.steps, 0, some 0⟩

/-- A run of a list from a spot may come to a spot. -/
inductive Reaches : Spot → Spot → Prop
  | here (s : Spot) : Reaches s s
  | later {s t : Spot} {x : Step} (hx : s.step? = some x) (h : Reaches s.behind t) : Reaches s t
  | inside {s t : Spot} {x : Step} {child : Flow.Child} (hx : s.step? = some x) (hchild : child ∈ x.children)
    (h : Reaches (s.under child) t) : Reaches s t

/-- How a response ends at a spot, and the token of the attempt that is opened there, with its number. -/
inductive Ends (urls : Callbacks) (c : CallContext) (s : Spot) : Response → Option (Resume × Int) → Prop
  | past (hx : s.step? = none) : Ends urls c s Response.goodbye none
  | next {x : Step} (hx : s.step? = some x) (hmode : s.mode = .redirect) :
    Ends urls c s [goTo urls c (s.index + 1) s.branch] none
  | menu {id : String} {label : Option String} {p : Flow.MenuPrompt} {options : List MenuOption} {invalid : List Step}
    {replays : Int} (hx : s.step? = some ⟨id, label, .menu p options invalid⟩) (htold : s.attempt = some replays) :
    Ends urls c s (menuVerbs urls c p s.index s.branch replays) none
  | keypad {id : String} {label : Option String} {k : Flow.KeypadEntry}
    (hx : s.step? = some ⟨id, label, .keypadEntry k⟩) : Ends urls c s (keypadVerbs urls c k s.index s.branch) none
  | voicemail {id : String} {label : Option String} {v : Flow.Voicemail}
    (hx : s.step? = some ⟨id, label, .voicemail v⟩) : Ends urls c s (voicemailVerbs urls c v) none
  | hangup {id : String} {label : Option String} {m : Option Flow.Message}
    (hx : s.step? = some ⟨id, label, .hangup m⟩) : Ends urls c s (promptVerbs m ++ [.hangup]) none
  | dialed {x : Step} {a : Attempt} {b : Bridge} {seq : Int} (hx : s.step? = some x) (ha : a.MadeBy x.body s.attempt)
    (hb : b.action = some (dialAction urls c a s.index s.branch seq)) :
    Ends urls c s [.bridge b]
      (some (⟨c.flowId, some c.lineId, some s.index, s.branch, a.index, some a.type.name, a.destinationCount⟩, seq))

/-- A run of the step itself may come to a spot; it sends nobody on to the next step. -/
def Within (s t : Spot) : Prop :=
  t = { s with mode := .inline } ∨ ∃ x child, s.step? = some x ∧ child ∈ x.children ∧ (s.under child).Reaches t

/-- **What ends a response within a step** ends that of a run from it, in either mode. -/
theorem Ends.of_within {verbs : Response} {token : Option (Resume × Int)} (h : t.Ends urls c verbs token) (ht : s.Within t) :
    ∃ t', s.Reaches t' ∧ t'.Ends urls c verbs token := by
  rcases ht with rfl | ⟨x, child, hx, hchild, ht⟩
  · refine ⟨s, .here s, ?_⟩
    cases h with
    | past hx => exact .past hx
    | next hx hmode => cases hmode
    | menu hx htold => exact .menu hx htold
    | keypad hx => exact .keypad hx
    | voicemail hx => exact .voicemail hx
    | hangup hx => exact .hangup hx
    | dialed hx ha hb => exact .dialed hx ha hb
  · exact ⟨t, .inside hx hchild ht, h⟩

end Spot

/-! ## Grounds -/

/-- What a run is judged on: what others may do at its pauses, what is known of the state throughout, which addresses are
called back on, and what is known behind an attempt that is opened with a token and a number. -/
structure Ground (c : CallContext) where
  rely : State → State → Prop
  holds : State → Prop
  urls : Callbacks → Prop
  opened : Resume → Int → State → Prop
  based : ∀ {st}, holds st → urls (.ofBase st.settings.baseUrl)
  resolves : ∀ {st} tenant destination, holds st →
    (resolve? tenant destination).Upholds (State.terms rely fun _ _ => True) (fun _ st' => holds st') st
  tags : ∀ {st} name value, holds st → (mutate c.callSid c.segmentNumber none (Segment.addTag name value)).Upholds
    (State.terms rely fun _ _ => True) (fun _ st' => holds st') st
  entries : ∀ {st} name value, holds st → (mutate c.callSid c.segmentNumber none (Segment.setVariable name value)).Upholds
    (State.terms rely fun _ _ => True) (fun _ st' => holds st') st
  attempts : ∀ {st} resume targets callerId timeout record, holds st →
    (prepareAttempt c.callSid c.segmentNumber resume targets callerId timeout record).Upholds
      (State.terms rely fun _ _ => True)
      (fun r st' => holds st' ∧ ∀ s, r = .ok (some s) → opened resume s.scratch.attemptSeq st') st

namespace Ground

variable {c : CallContext} {G : Ground c} {α β : Type} {st : State}

/-- Work from a state on that is done on a ground; what it gives, and the state behind it, are as `P` says. -/
def Does (G : Ground c) (t : Work α) (P : α → State → Prop) (st : State) : Prop :=
  t.Upholds (State.terms G.rely fun _ _ => True) (fun r st' => G.holds st' ∧ ∀ a, r = .ok a → P a st') st

theorem Does.mono {t : Work α} {P Q : α → State → Prop} (h : G.Does t P st) (hPQ : ∀ a st', P a st' → Q a st') :
    G.Does t Q st :=
  Task.Upholds.mono (fun _ _ h => ⟨h.1, fun a ha => hPQ a _ (h.2 a ha)⟩) h

/-- **Run alone** the work gives what is known of it. -/
theorem Does.of_run {t : Work α} {P : α → State → Prop} (h : G.Does t P st) (hrefl : ∀ st, G.rely st st) {a : α}
    {st' : State} (hrun : t.run st = (.ok a, st')) : P a st' := by
  have hpost := (Task.Upholds.ends h hrefl).2
  rw [hrun] at hpost
  exact hpost a rfl

theorem Does.pure {a : α} {P : α → State → Prop} (hst : G.holds st) (h : P a st) : G.Does (Pure.pure a) P st :=
  Task.upholds_pure.2 ⟨hst, fun _ hb => Except.ok.inj hb ▸ h⟩

theorem Does.fail {P : α → State → Prop} (hst : G.holds st) (e : Fault) : G.Does (Task.fail e) P st :=
  Task.upholds_fail.2 ⟨hst, nofun⟩

theorem Does.asks {f : State → α} {P : α → State → Prop} (hst : G.holds st) (h : P (f st) st) :
    G.Does (Task.asks f) P st :=
  Task.upholds_asks.2 ⟨hst, fun _ hb => Except.ok.inj hb ▸ h⟩

/-- **One part after another**, each from the state that it finds. -/
theorem Does.bind {t : Work α} {f : α → Work β} {P : α → State → Prop} {Q : β → State → Prop} (ht : G.Does t P st)
    (hf : ∀ a st', G.holds st' → P a st' → G.Does (f a) Q st') : G.Does (t >>= f) Q st :=
  Task.Upholds.bind (fun a st' h => hf a st' h.1 (h.2 a rfl)) (fun _ _ h => ⟨h.1, nofun⟩) ht

theorem Does.recover {t : Work α} {handle : Fault → Work α} {P : α → State → Prop} (ht : G.Does t P st)
    (hf : ∀ e st', G.holds st' → G.Does (handle e) P st') : G.Does (Task.recover handle t) P st :=
  Task.Upholds.recover (fun _ _ h => ⟨h.1, fun _ hb => Except.ok.inj hb ▸ h.2 _ rfl⟩) (fun e st' h => hf e st' h.1) ht

theorem Does.quietly {t : Work α}
    (ht : t.Upholds (State.terms G.rely fun _ _ => True) (fun _ st' => G.holds st') st) :
    G.Does (Work.quietly t) (fun _ _ => True) st :=
  Does.recover (Does.bind (P := fun _ _ => True) (Task.Upholds.mono (fun _ _ h => ⟨h, fun _ _ => trivial⟩) ht)
    fun _ _ hst _ => .pure hst trivial) fun _ _ hst => .pure hst trivial

theorem Does.callbacks (hst : G.holds st) : G.Does Work.callbacks (fun urls st' => G.urls urls ∧ st' = st) st :=
  .asks hst ⟨G.based hst, rfl⟩

theorem Does.resolve? (hst : G.holds st) (tenant destination : String) :
    G.Does (Work.resolve? tenant destination) (fun _ _ => True) st :=
  Task.Upholds.mono (fun _ _ h => ⟨h, fun _ _ => trivial⟩) (G.resolves tenant destination hst)

theorem Does.prepareAttempt (hst : G.holds st) (resume : Resume) (targets : List DialTarget) (callerId : Option String)
    (timeout : Int) (record : Bool) :
    G.Does (Work.prepareAttempt c.callSid c.segmentNumber resume targets callerId timeout record)
      (fun prepared st' => ∀ s, prepared = some s → G.opened resume s.scratch.attemptSeq st') st :=
  Task.Upholds.mono (fun _ _ h => ⟨h.1, fun _ hr s hs => h.2 s (hr.trans (congrArg Except.ok hs))⟩)
    (G.attempts resume targets callerId timeout record hst)

theorem Does.forM {f : α → Work PUnit} (hf : ∀ a st, G.holds st → G.Does (f a) (fun _ _ => True) st) :
    ∀ (as : List α) {st : State}, G.holds st → G.Does (as.forM f) (fun _ _ => True) st
  | [], _, hst => .pure hst trivial
  | a :: rest, st, hst => Does.bind (hf a st hst) fun _ _ hst' _ => Does.forM hf rest hst'

/-! ## What a run gives -/

/-- What a run from a spot gives in a state: what is said on the way, and an end of the response. -/
inductive Gives (G : Ground c) (s : Spot) (verbs : Response) (st : State) : Prop
  | ends (said : List Prompt) (t : Spot) (tail : Response) (token : Option (Resume × Int)) (urls : Callbacks)
    (hverbs : verbs = said.map .prompt ++ tail) (ht : s.Reaches t) (hurls : G.urls urls) (htail : t.Ends urls c tail token)
    (hopened : ∀ r ∈ token, G.opened r.1 r.2 st)

/-- What a step gives at a spot: something to say where the run goes on, and an end of the response where it stops. -/
inductive Steps (G : Ground c) (s : Spot) (o : Outcome) (st : State) : Prop
  | goesOn (hnext : o.next ≠ .stop) (said : List Prompt) (hverbs : o.rendering.verbs = said.map .prompt)
  | stops (hnext : o.next = .stop) (said : List Prompt) (t : Spot) (tail : Response) (token : Option (Resume × Int))
    (urls : Callbacks) (hverbs : o.rendering.verbs = said.map .prompt ++ tail) (ht : s.Within t) (hurls : G.urls urls)
    (htail : t.Ends urls c tail token) (hopened : ∀ r ∈ token, G.opened r.1 r.2 st)

variable {s : Spot}

/-- A step says something before the run goes on behind it. -/
theorem Gives.later {x : Step} {more : Response} (h : G.Gives s.behind more st) (hx : s.step? = some x)
    (said : List Prompt) : G.Gives s (said.map .prompt ++ more) st := by
  obtain ⟨said', t, tail, token, urls, rfl, ht, hurls, htail, hopened⟩ := h
  exact .ends (said ++ said') t tail token urls (by rw [List.map_append, List.append_assoc]) (.later hx ht) hurls htail hopened

/-- A step ends the response where a list that it owns does. -/
theorem Steps.of_inside {x : Step} {child : Flow.Child} {r : Rendering} (h : G.Gives (s.under child) r.verbs st)
    (hx : s.step? = some x) (hchild : child ∈ x.children) : G.Steps s ⟨r, .stop⟩ st := by
  obtain ⟨said, t, tail, token, urls, hverbs, ht, hurls, htail, hopened⟩ := h
  exact .stops rfl said t tail token urls hverbs (.inr ⟨x, child, hx, hchild, ht⟩) hurls htail hopened

/-- A step ends the response by itself. -/
theorem Steps.of_end {verbs : Response} {token : Option (Resume × Int)} {urls : Callbacks} (hurls : G.urls urls)
    (h : Spot.Ends urls c { s with mode := .inline } verbs token) (hopened : ∀ r ∈ token, G.opened r.1 r.2 st) :
    G.Steps s (.stop verbs) st :=
  .stops rfl [] _ verbs token urls rfl (.inl rfl) hurls h hopened

theorem Steps.says {o : Outcome} (hnext : o.next ≠ .stop) (said : List Prompt)
    (hverbs : o.rendering.verbs = said.map .prompt) : G.Steps s o st := .goesOn hnext said hverbs

theorem Steps.notAvailable : G.Steps s .notAvailable st := .goesOn nofun [.say Wording.notAvailable none] rfl

theorem Steps.nothing : G.Steps s (.advance []) st := .goesOn nofun [] rfl

/-! ## The walk -/

theorem steps_bridge {x : Step} (hx : s.step? = some x) {a : Attempt} (ha : a.MadeBy x.body s.attempt)
    (hst : G.holds st) : G.Does (Work.bridge c a s.index s.branch) (G.Steps s) st := by
  refine (Does.prepareAttempt hst _ a.targets _ a.timeout a.record).bind fun prepared st' hst' hopened => ?_
  cases prepared with
  | none => exact .pure hst' .notAvailable
  | some segment =>
    refine (Does.callbacks hst').bind fun urls st'' hst'' hurls => ?_
    obtain ⟨hurls, rfl⟩ := hurls
    exact .pure hst'' (.of_end hurls (.dialed hx ha rfl) fun r hr => Option.some.inj hr ▸ hopened segment rfl)

theorem does_resolveAll (tenant : String) : ∀ (destinations : List String) {st : State}, G.holds st →
    G.Does (Work.resolveAll tenant destinations) (fun _ _ => True) st
  | [], _, hst => .pure hst trivial
  | d :: rest, _, hst => (Does.resolve? hst tenant d).bind fun _ _ hst' _ =>
    (does_resolveAll tenant rest hst').bind fun _ _ hst'' _ => .pure hst'' trivial

/-- **The first destination that leads somewhere** is none before the index that the search starts from. -/
theorem does_firstResolved (tenant : String) : ∀ (destinations : List String) (i : Int) {st : State}, G.holds st →
    G.Does (Work.firstResolved tenant i destinations) (fun found _ => ∀ p, found = some p → i ≤ p.1) st
  | [], _, _, hst => .pure hst fun _ h => nomatch h
  | d :: rest, i, st, hst => by
    refine (Does.resolve? hst tenant d).bind fun target st' hst' _ => ?_
    cases target with
    | some target => exact .pure hst' fun p hp => Option.some.inj hp ▸ Int.le_refl i
    | none => exact (does_firstResolved tenant rest (i + 1) hst').mono fun found _ h p hp => by have := h p hp; omega

/-- A step that owns no lists. -/
theorem steps_runBody {x : Step} (hx : s.step? = some x) (hst : G.holds st) :
    (∀ z bs fallback, x.body ≠ .schedule z bs fallback) →
      G.Does (Work.runBody c s.branch s.index s.attempt x.body) (G.Steps s) st := by
  obtain ⟨id, label, body⟩ := x
  intro hbody
  cases body with
  | schedule z bs fallback => exact absurd rfl (hbody z bs fallback)
  | greeting m =>
    rw [runBody]
    exact .pure hst (.goesOn nofun (Prompt.ofMessage? (some m)).toList rfl)
  | dial d =>
    rw [runBody]
    refine (Does.resolve? hst _ _).bind fun target st' hst' _ => ?_
    cases target with
    | none => exact .pure hst' .notAvailable
    | some target => exact steps_bridge hx (.dial d _ rfl) hst'
  | simulcall d =>
    rw [runBody]
    refine (does_resolveAll _ _ hst).bind fun targets st' hst' _ => ?_
    split
    · exact .pure hst' .notAvailable
    · exact steps_bridge hx (.simulcall d _ rfl) hst'
  | roundRobin d =>
    cases htold : s.attempt with
    | none =>
      rw [runBody]
      exact .fail hst _
    | some n =>
      rw [runBody]
      unfold runRoundRobin
      split
      · exact .fail hst _
      · refine (does_firstResolved _ _ n hst).bind fun found st' hst' hfound => ?_
        cases found with
        | none => exact .pure hst' .notAvailable
        | some p => exact steps_bridge hx (htold ▸ .roundRobin d n rfl (hfound p rfl) rfl) hst'
  | menu p options invalid =>
    rw [runBody]
    refine (Does.callbacks hst).bind fun urls st' hst' hurls => ?_
    cases htold : s.attempt with
    | none => exact .fail hst' _
    | some n => exact .pure hst' (.of_end hurls.1 (.menu hx htold) nofun)
  | keypadEntry k =>
    rw [runBody]
    exact (Does.callbacks hst).bind fun urls st' hst' hurls => .pure hst' (.of_end hurls.1 (.keypad hx) nofun)
  | tag t =>
    rw [runBody]
    exact (Does.quietly (G.tags _ _ hst)).bind fun _ _ hst' _ => .pure hst' (.goesOn nofun [] rfl)
  | voicemail v =>
    rw [runBody]
    exact (Does.callbacks hst).bind fun urls st' hst' hurls => .pure hst' (.of_end hurls.1 (.voicemail hx) nofun)
  | hangup m =>
    rw [runBody]
    exact .pure hst (.of_end (G.based hst) (.hangup hx) nofun)
  | bare t =>
    rw [runBody]
    exact .fail hst _
  | unknown t config =>
    rw [runBody]
    exact .pure hst .nothing

mutual

/-- **A run of a list** ends its response at a spot that it reaches. -/
theorem gives_runFrom : ∀ (steps : List Step) (s : Spot) {st : State}, s.list.drop s.index = steps → G.holds st →
    G.Does (runFrom c s.mode s.branch s.index s.attempt steps) (fun r => G.Gives s r.verbs) st
  | [], s, st, hdrop, hst => by
    rw [runFrom]
    have hpast : s.step? = none := List.getElem?_eq_none (List.drop_eq_nil_iff.1 hdrop)
    exact .pure hst (.ends [] s _ none _ rfl (.here s) (G.based hst) (.past hpast) nofun)
  | ⟨id, label, body⟩ :: rest, s, st, hdrop, hst => by
    have hx : s.step? = some ⟨id, label, body⟩ := by
      rw [Spot.step?, ← List.head?_drop, hdrop]
      rfl
    have hrest : s.behind.list.drop s.behind.index = rest := by
      show s.list.drop (s.index + 1) = rest
      rw [← List.drop_drop, hdrop]
      rfl
    rw [runFrom]
    refine Does.bind (Does.recover (steps_of_runBody body s hx rfl hst) fun _ _ hst' => .pure hst' .nothing)
      fun o st' hst' ho => ?_
    cases ho with
    | stops hnext said t tail token urls hverbs ht hurls htail hopened =>
      rw [hnext]
      obtain ⟨t', ht', htail'⟩ := htail.of_within ht
      exact .pure hst' (.ends said t' tail token urls hverbs ht' hurls htail' hopened)
    | goesOn hnext said hverbs =>
      split
      · rename_i h
        exact absurd h hnext
      · rename_i hadvance hredirect
        refine (Does.callbacks hst').bind fun urls st'' hst'' hurls => .pure hst'' ?_
        exact .ends said s _ none urls (congrArg (· ++ _) hverbs) (.here s) hurls.1 (.next hx hredirect) nofun
      · refine Does.bind (gives_runFrom rest s.behind hrest hst') fun more st'' hst'' hmore => .pure hst'' ?_
        have := hmore.later hx said
        rw [← hverbs] at this
        exact this

/-- **A step** says something, or ends the response within itself. -/
theorem steps_of_runBody : ∀ (body : Body) (s : Spot) {x : Step} {st : State}, s.step? = some x → x.body = body →
    G.holds st → G.Does (runBody c s.branch s.index s.attempt body) (G.Steps s) st
  | .schedule timezone branches fallback, s, x, st, hx, hbody, hst => by
    have hchildren : x.children = Flow.branchChildren 0 branches ++ [⟨.fallback, "fallback", fallback⟩] := by
      rw [Step.children, hbody]
      rfl
    rw [runBody]
    refine (Does.asks hst trivial : G.Does _ (fun _ _ => True) st).bind fun clock st' hst' _ => ?_
    refine Does.bind (steps_of_runBranches branches 0 clock.1 clock.2 s hx (fun child hchild => ?_) hst')
      fun found st'' hst'' hfound => ?_
    · rw [hchildren]
      exact List.mem_append_left _ hchild
    · cases found with
      | some o => exact .pure hst'' (hfound o rfl)
      | none =>
        dsimp only
        split
        · exact .pure hst'' .nothing
        · have hchild : (⟨.fallback, "fallback", fallback⟩ : Flow.Child) ∈ x.children := by rw [hchildren]; simp
          refine Does.bind (gives_runFrom fallback (s.under ⟨.fallback, "fallback", fallback⟩) rfl hst'')
            fun r st₃ hst₃ hr => ?_
          exact .pure hst₃ (.of_inside hr hx hchild)
  | .greeting _, s, _, _, hx, hbody, hst | .dial _, s, _, _, hx, hbody, hst | .simulcall _, s, _, _, hx, hbody, hst
  | .roundRobin _, s, _, _, hx, hbody, hst | .menu _ _ _, s, _, _, hx, hbody, hst
  | .keypadEntry _, s, _, _, hx, hbody, hst | .tag _, s, _, _, hx, hbody, hst | .voicemail _, s, _, _, hx, hbody, hst
  | .hangup _, s, _, _, hx, hbody, hst | .bare _, s, _, _, hx, hbody, hst | .unknown _ _, s, _, _, hx, hbody, hst => by
    rw [← hbody]
    exact steps_runBody hx hst fun _ _ _ h => by rw [hbody] at h; cases h

theorem steps_of_runBranches : ∀ (branches : List Branch) (i : Nat) (weekday minute : Int) (s : Spot) {x : Step}
    {st : State}, s.step? = some x → (∀ child ∈ Flow.branchChildren i branches, child ∈ x.children) → G.holds st →
      G.Does (runBranches c s.branch s.index weekday minute i branches) (fun found st' => ∀ o, found = some o →
        G.Steps s o st') st
  | [], _, _, _, _, _, _, _, _, hst => by
    rw [runBranches]
    exact .pure hst fun _ h => nomatch h
  | ⟨_, name, slots, steps⟩ :: rest, i, weekday, minute, s, x, st, hx, hmem, hst => by
    rw [Flow.branchChildren, List.forall_mem_cons] at hmem
    rw [runBranches]
    split
    · split
      · exact .pure hst fun o ho => Option.some.inj ho ▸ .nothing
      · refine Does.bind (gives_runFrom steps (s.under ⟨.branch i, "branch[" ++ name ++ "]", steps⟩) rfl hst)
          fun r st' hst' hr => .pure hst' fun o ho => ?_
        exact Option.some.inj ho ▸ .of_inside hr hx hmem.1
    · exact steps_of_runBranches rest (i + 1) weekday minute s hx hmem.2 hst

end

/-! ## Requests -/

/-- What a request is answered: the call ends, or a list is run from a spot of a kind. -/
inductive Replies (G : Ground c) (P : Spot → Prop) (verbs : Response) (st : State) : Prop
  | hangup (hverbs : verbs = Response.hangup)
  | goodbye (hverbs : verbs = Response.goodbye)
  | gives (s : Spot) (hs : P s) (h : G.Gives s verbs st)

theorem Replies.mono {P Q : Spot → Prop} {verbs : Response} (h : G.Replies P verbs st) (hPQ : ∀ s, P s → Q s) :
    G.Replies Q verbs st := by
  cases h with
  | hangup hverbs => exact .hangup hverbs
  | goodbye hverbs => exact .goodbye hverbs
  | gives s hs h => exact .gives s (hPQ s hs) h

theorem replies_runAt (mode : Mode) (branch : Option String) (index : Int) (attempt : Option Int) (list : List Step)
    (hst : G.holds st) : G.Does (runAt c mode branch index attempt list)
      (fun r => G.Replies (· = ⟨mode, branch, list, index.toNat, attempt⟩) r.verbs) st := by
  unfold runAt
  split
  · exact (gives_runFrom _ ⟨mode, branch, list, index.toNat, attempt⟩ rfl hst).mono fun _ _ h => .gives _ rfl h
  · exact .pure hst (.goodbye rfl)

theorem replies_execute (root : List Step) (mode : Mode) (branch : Option String) (index : Int) (attempt : Option Int)
    (hst : G.holds st) : G.Does (execute root c mode branch index attempt)
      (fun r => G.Replies (fun s => Flow.resolveBranch root branch = .ok s.list ∧
        s = ⟨mode, branch, s.list, index.toNat, attempt⟩) r.verbs) st := by
  unfold execute
  cases hlist : Flow.resolveBranch root branch with
  | error e => exact .pure hst (.hangup rfl)
  | ok list =>
    refine (replies_runAt mode branch index attempt list hst).mono fun _ _ h => h.mono ?_
    rintro _ rfl
    exact ⟨rfl, rfl⟩

/-- **A choice** goes on in a list of the menu, or behind it. -/
theorem replies_runChoice (branch : Option String) (index : Int) (digits : Option String) (list : List Step)
    (hst : G.holds st) :
    let s : Spot := ⟨.redirect, branch, list, index.toNat, some 0⟩
    G.Does (runChoice c branch index digits list) (fun r => G.Replies
      (fun t => t = s.behind ∨ ∃ x child, s.step? = some x ∧ child ∈ x.children ∧ t = s.under child) r.verbs) st := by
  intro s
  by_cases hpos : 0 ≤ index
  swap
  · unfold runChoice stepOf
    rw [if_neg hpos]
    exact .pure hst (.hangup rfl)
  have hindex : (index.toNat : Int) = index := Int.toNat_of_nonneg hpos
  have hstep : stepOf list index = s.step? := if_pos hpos
  have hnested {x : Step} (hx : s.step? = some x) (child : Flow.Child) (hchild : child ∈ x.children) :
      G.Does (runFrom c .inline (some (Flow.branchPath branch index child.selector.text)) 0 (some 0) child.steps)
        (fun r => G.Replies
          (fun t => t = s.behind ∨ ∃ x child, s.step? = some x ∧ child ∈ x.children ∧ t = s.under child) r.verbs) st :=
    hindex ▸ (gives_runFrom child.steps (s.under child) rfl hst).mono fun _ _ h =>
      .gives _ (.inr ⟨x, child, hx, hchild, rfl⟩) h
  unfold runChoice
  rw [hstep]
  cases hx : s.step? with
  | none => exact .pure hst (.hangup rfl)
  | some x =>
    obtain ⟨id, label, body⟩ := x
    cases body with
    | menu p options invalid =>
      dsimp only [Option.map_some]
      cases hfound : digits.bind fun d => optionOf d 0 options with
      | none =>
        dsimp only
        split
        · exact .pure hst (.hangup rfl)
        · exact hx ▸ hnested hx ⟨.invalidInput, "invalidInput", invalid⟩
            (List.mem_append_right _ (List.mem_singleton_self _))
      | some found =>
        dsimp only
        split
        · refine (replies_runAt .redirect branch _ (some 0) list hst).mono fun _ _ h => h.mono ?_
          rintro _ rfl
          exact .inl (congrArg (Spot.mk .redirect branch list · (some 0)) (Int.toNat_add hpos Int.one_nonneg))
        · obtain ⟨d, -, hoption⟩ := Option.bind_eq_some_iff.1 hfound
          obtain ⟨name, hchild⟩ := Permits.mem_optionChildren hoption
          exact hx ▸ hnested hx _ (List.mem_append_left _ hchild)
    | _ => exact .pure hst (.hangup rfl)

theorem replies_runKeypad (branch : Option String) (index : Int) (digits var : Option String) (list : List Step)
    (hst : G.holds st) : G.Does (runKeypad c branch index digits var list)
      (fun r => G.Replies (· = ⟨.redirect, branch, list, (index + 1).toNat, some 0⟩) r.1.verbs) st := by
  unfold runKeypad
  dsimp only
  refine (Does.forM (fun _ _ hst' => Does.quietly (G.entries _ _ hst')) _ hst).bind fun _ _ hst' _ => ?_
  exact (replies_runAt .redirect branch (index + 1) (some 0) list hst').bind fun r _ hst'' hr => .pure hst'' hr

/-- **Every callback of a flow** ends the call, or runs a list: the one that its branch leads to, or one that a step of it
owns. -/
theorem replies_handleAction (root : List Step) (branch : Option String) (index : Int) (r : Reply) (hst : G.holds st) :
    G.Does (handleAction root c branch index r) (fun r => G.Replies
      (fun s => ∃ list, Flow.resolveBranch root branch = .ok list ∧
        (s.list = list ∨ ∃ x ∈ list, ∃ child ∈ x.children, s.list = child.steps)) r.1.verbs) st := by
  unfold handleAction
  cases hlist : Flow.resolveBranch root branch with
  | error e => exact .pure hst (.hangup rfl)
  | ok list =>
    have hplain {t : Work Rendering} {P : Spot → Prop} (h : G.Does t (fun r => G.Replies P r.verbs) st)
        (hP : ∀ s, P s → s.list = list ∨ ∃ x ∈ list, ∃ child ∈ x.children, s.list = child.steps) :
        G.Does (do return (← t, [])) (fun r : Rendering × List (String × String) => G.Replies
          (fun s => ∃ l, (Except.ok list : Except Flow.BranchFault (List Step)) = .ok l ∧
            (s.list = l ∨ ∃ x ∈ l, ∃ child ∈ x.children, s.list = child.steps)) r.1.verbs) st :=
      h.bind fun _ _ hst' hr => .pure hst' (hr.mono fun s hs => ⟨list, rfl, hP s hs⟩)
    have hchoice (digits : Option String) := hplain (replies_runChoice branch index digits list hst) (by
      rintro _ (rfl | ⟨x, child, hx, hchild, rfl⟩)
      · exact .inl rfl
      · exact .inr ⟨x, List.mem_of_getElem? hx, child, hchild, rfl⟩)
    have hat (attempt : Option Int) := hplain (replies_runAt .redirect branch index attempt list hst) (by
      rintro _ rfl
      exact .inl rfl)
    dsimp only
    cases r.action with
    | menu => exact hchoice _
    | menuInvalid => exact hchoice _
    | keypad =>
      refine (replies_runKeypad branch index _ _ list hst).mono fun _ _ h => h.mono ?_
      rintro _ rfl
      exact ⟨list, rfl, .inl rfl⟩
    | menuRetry => exact hat _
    | roundRobinRedirect => exact hat _
    | other => exact hat _

end Ground

end Switchboard.Work
