import Switchboard.Proofs.Flow.Tree
import Switchboard.Proofs.Service.Bridging
import Switchboard.Proofs.Service.Places
/-!
# How a flow goes on

A run of a flow tells the provider where to ask how it goes on: when the caller has chosen or entered something, or has
not, when a step is done, and when a dial is over.  Each such address is one of a place that the run has come to
(`Leads`), and so is what an attempt keeps for the flow to go on with.  Both are shown by one walk through the interpreter
(`makes_traceAction`), for any property of branches and lists that passes from a list to those of its steps.
-/
namespace Switchboard

open Switchboard.Flow (Step Body Branch Steps MenuOption)

/-- The addresses at which the provider is to ask how a flow goes on. -/
def Verb.continuations : Verb → List String
  | .redirect url => [url]
  | .gather g => [g.action]
  | .bridge b => b.action.toList
  | _ => []

def Response.continuations (verbs : Response) : List String := verbs.flatMap Verb.continuations

/-- How a flow goes on from a step. -/
inductive Continuation where
  /-- The step is done. -/
  | next
  /-- Digits were entered in a menu. -/
  | menu
  /-- Nothing was entered: the menu is played again, so many times by now. -/
  | menuRetry (replays : Int)
  | menuInvalid
  /-- Digits were entered for a variable. -/
  | keypad (var : String)
  /-- The next destination is dialed. -/
  | retry (attempt : Int)
  deriving DecidableEq, Repr

namespace Work

/-- What a flow is asked to continue with. -/
def Place.position (p : Place) : Continuation → Callbacks.Position
  | .next => .at (p.index + 1) p.branch
  | .menu => ⟨p.index, some "menu", p.branch, none, none, none⟩
  | .menuRetry n => ⟨p.index, some "menu_retry", p.branch, some n, none, none⟩
  | .menuInvalid => ⟨p.index, some "menu_invalid", p.branch, none, none, none⟩
  | .keypad var => ⟨p.index, some "keypad", p.branch, none, some var, none⟩
  | .retry n => ⟨p.index, some "round_robin_redirect", p.branch, some n, none, none⟩

/-- An address that a place gives to the provider: where the flow goes on, or where the end of a dial is reported. -/
inductive Place.Asks (p : Place) (urls : Callbacks) (c : CallContext) : String → Prop where
  | goesOn (k : Continuation) : p.Asks urls c (urls.flow c.tenantId c.lineId (p.position k))
  | dialEnded (a : Attempt) (seq : Int) : p.Asks urls c (dialAction urls c a p.index p.branch seq)

/-- What an attempt keeps for the flow to go on with. -/
def Place.token (p : Place) (flow : Option String) (line : String) (attempt : Int) (type : Flow.StepType)
    (destinations : Nat) : Resume :=
  ⟨flow, some line, some p.index, p.branch, attempt, some type.name, destinations⟩

/-- A place in a list that has a property together with its branch. -/
def Place.Stands (Q : Option String → List Step → Prop) (p : Place) : Prop :=
  Q p.branch p.list ∧ p.list[p.index]? = some p.step

/-- What a run gives leads to places that it has come to. -/
structure Leads (Q : Option String → List Step → Prop) (c : CallContext) (verbs : Response) (places : List Place) :
    Prop where
  stands : ∀ p ∈ places, p.Stands Q
  addressed : ∀ a ∈ verbs.continuations, ∃ p ∈ places, ∃ urls, p.Asks urls c a

/-- A manner that lets a flow take notes of a call and store attempts with tokens of places in lists with a property, which
passes to the lists of steps. -/
structure Permits (Q : Option String → List Step → Prop) (c : CallContext) (M : Manner) : Prop where
  tags : ∀ name value sid number, M.Makes (mutate sid number none (Segment.addTag name value)) fun _ => True
  entries : ∀ name value sid number, M.Makes (mutate sid number none (Segment.setVariable name value)) fun _ => True
  attempts : ∀ p : Place, p.Stands Q → ∀ attempt type destinations targets callerId timeout record sid number,
    M.Makes (mutate sid number none
      (Segment.startAttempt (p.token c.flowId c.lineId attempt type destinations) targets callerId timeout record)) fun _ => True
  nested : ∀ p : Place, p.Stands Q → ∀ child ∈ p.step.children,
    Q (some (Flow.branchPath p.branch p.index child.selector.text)) child.steps

variable {Q : Option String → List Step → Prop} {c : CallContext} {M : Manner}

theorem continuations_append (a b : Response) : (a ++ b).continuations = a.continuations ++ b.continuations :=
  List.flatMap_append

theorem Leads.nil {verbs : Response} (h : verbs.continuations = []) : Leads Q c verbs [] :=
  ⟨nofun, fun _ ha => by rw [h] at ha; cases ha⟩

theorem Leads.append {verbs more : Response} {places behind : List Place} (h : Leads Q c verbs places)
    (h' : Leads Q c more behind) : Leads Q c (verbs ++ more) (places ++ behind) := by
  refine ⟨fun p hp => (List.mem_append.1 hp).elim (h.stands p) (h'.stands p), fun a ha => ?_⟩
  rw [continuations_append] at ha
  rcases List.mem_append.1 ha with ha | ha
  · obtain ⟨p, hp, hk⟩ := h.addressed a ha
    exact ⟨p, List.mem_append_left _ hp, hk⟩
  · obtain ⟨p, hp, hk⟩ := h'.addressed a ha
    exact ⟨p, List.mem_append_right _ hp, hk⟩

/-- **What a step leads to by itself**: only to itself. -/
theorem Leads.here {verbs : Response} {p : Place} (hp : p.Stands Q)
    (h : ∀ a ∈ verbs.continuations, ∃ urls, p.Asks urls c a) : Leads Q c verbs [p] :=
  ⟨fun _ hq => List.mem_singleton.1 hq ▸ hp, fun a ha => ⟨p, List.mem_singleton_self p, h a ha⟩⟩

theorem Leads.here_of_none {verbs : Response} {p : Place} (hp : p.Stands Q) (h : verbs.continuations = []) :
    Leads Q c verbs [p] := .here hp fun a ha => by rw [h] at ha; cases ha

theorem Leads.more {verbs more : Response} {places : List Place} {p : Place} (h : Leads Q c verbs places)
    (hp : p ∈ places) (hmore : ∀ a ∈ more.continuations, ∃ urls, p.Asks urls c a) :
    Leads Q c (verbs ++ more) places := by
  refine ⟨h.stands, fun a ha => ?_⟩
  rw [continuations_append] at ha
  exact (List.mem_append.1 ha).elim (h.addressed a) fun ha => ⟨p, hp, hmore a ha⟩

/-- Where the list that is inside of a step leads. -/
theorem Leads.cons {verbs : Response} {p : Place} {inside : List Place} (hp : p.Stands Q) (h : Leads Q c verbs inside) :
    Leads Q c verbs (p :: inside) :=
  ⟨List.forall_mem_cons.2 ⟨hp, h.stands⟩, fun a ha => by
    obtain ⟨q, hq, hk⟩ := h.addressed a ha
    exact ⟨q, List.mem_cons_of_mem _ hq, hk⟩⟩

theorem continuations_promptVerbs (m : Option Flow.Message) : (promptVerbs m : Response).continuations = [] := by
  unfold promptVerbs
  cases Prompt.ofMessage? m <;> rfl

theorem continuations_voicemailVerbs (urls : Callbacks) (c : CallContext) (v : Flow.Voicemail) :
    (voicemailVerbs urls c v).continuations = [] := by
  have hgreeting : ∀ g : Response, g = promptVerbs v.greeting ∨ g = [.say Wording.voicemailGreeting] → g.continuations = [] := by
    rintro g (rfl | rfl)
    · exact continuations_promptVerbs _
    · rfl
  unfold voicemailVerbs
  rw [continuations_append, hgreeting]
  · rfl
  · cases v.greeting with
    | none => exact .inr rfl
    | some m =>
      dsimp only
      split
      · exact .inl rfl
      · exact .inr rfl

/-! ## The walk -/

open Manner (Makes)

namespace Permits

theorem skipFailed {t : Work (Outcome × List Place)} {p : Place} (hp : p.Stands Q)
    (ht : M.Makes t fun r => Leads Q c r.1.rendering.verbs (p :: r.2)) :
    M.Makes (Task.recover (fun _ => return (Outcome.advance [], [])) t) fun r => Leads Q c r.1.rendering.verbs (p :: r.2) :=
  ht.recover (fun _ h => h) fun _ => Makes.pure (.here_of_none hp rfl)

variable (hM : Permits Q c M)
include hM

set_option linter.unusedSectionVars false

/-- **A step that dials** stores its token, and asks to be told when the dial is over. -/
theorem bridge {p : Place} (hp : p.Stands Q) (a : Attempt) :
    M.Makes (Work.bridge c a p.index p.branch) fun o => Leads Q c o.rendering.verbs [p] := by
  refine (Makes.prepareAttempt (hM.attempts p hp a.index a.type a.destinationCount a.targets _ a.timeout a.record _ _)).bind
    fun prepared _ => ?_
  cases prepared with
  | none => exact Makes.pure (.here_of_none hp rfl)
  | some s =>
    refine (Makes.tame Work.tame_callbacks).bind fun urls _ => Makes.pure (.here hp fun address haddress => ?_)
    rw [List.mem_singleton.1 haddress]
    exact ⟨urls, .dialEnded a s.scratch.attemptSeq⟩

theorem runDial {p : Place} (hp : p.Stands Q) (d : Flow.Dial) :
    M.Makes (Work.runDial c d p.index p.branch) fun o => Leads Q c o.rendering.verbs [p] := by
  refine (Makes.tame (tame_resolve? _ _)).bind fun target _ => ?_
  cases target with
  | none => exact Makes.pure (.here_of_none hp rfl)
  | some target => exact hM.bridge hp _

theorem runSimulcall {p : Place} (hp : p.Stands Q) (d : Flow.Simulcall) :
    M.Makes (Work.runSimulcall c d p.index p.branch) fun o => Leads Q c o.rendering.verbs [p] := by
  refine (Makes.tame (tame_resolveAll _ _)).bind fun targets _ => ?_
  split
  · exact Makes.pure (.here_of_none hp rfl)
  · exact hM.bridge hp _

theorem runRoundRobin {p : Place} (hp : p.Stands Q) (d : Flow.RoundRobin) (attempt : Int) :
    M.Makes (Work.runRoundRobin c d p.index p.branch attempt) fun o => Leads Q c o.rendering.verbs [p] := by
  unfold Work.runRoundRobin
  split
  · exact Makes.fail _
  · refine (Makes.tame (Scope.Keeps.tame_firstResolved _ _ _)).bind fun target _ => ?_
    cases target with
    | none => exact Makes.pure (.here_of_none hp rfl)
    | some target => exact hM.bridge hp _

theorem runTag {p : Place} (hp : p.Stands Q) (t : Flow.Tag) :
    M.Makes (Work.runTag c t) fun o => Leads Q c o.rendering.verbs [p] :=
  (Makes.quietly (hM.tags t.tagName t.tagValue _ _)).bind fun _ _ =>
    Makes.pure (.here_of_none hp rfl)

/-- A step that owns no lists. -/
theorem runBody {p : Place} (hp : p.Stands Q) (attempt : Option Int) :
    ∀ {body : Body}, (∀ z bs fallback, body ≠ .schedule z bs fallback) →
      M.Makes (Work.runBody c p.branch p.index attempt body) fun o => Leads Q c o.rendering.verbs [p] := by
  intro body hbody
  cases body with
  | schedule z bs fallback => exact absurd rfl (hbody z bs fallback)
  | greeting m =>
    rw [Work.runBody]
    exact Makes.pure (.here_of_none hp (continuations_promptVerbs _))
  | dial d =>
    rw [Work.runBody]
    exact hM.runDial hp d
  | simulcall d =>
    rw [Work.runBody]
    exact hM.runSimulcall hp d
  | roundRobin d =>
    cases attempt with
    | some n =>
      rw [Work.runBody]
      exact hM.runRoundRobin hp d n
    | none =>
      rw [Work.runBody]
      exact Makes.fail _
  | menu prompt options invalid =>
    rw [Work.runBody]
    refine (Makes.tame Work.tame_callbacks).bind fun urls _ => ?_
    cases attempt with
    | none => exact Makes.fail _
    | some n =>
      refine Makes.pure (.here hp fun address haddress => ?_)
      rcases List.mem_cons.1 haddress with rfl | haddress
      · exact ⟨urls, .goesOn .menu⟩
      · rw [List.mem_singleton.1 haddress]
        split
        · exact ⟨urls, .goesOn (.menuRetry (n + 1))⟩
        · exact ⟨urls, .goesOn .menuInvalid⟩
  | keypadEntry k =>
    rw [Work.runBody]
    refine (Makes.tame Work.tame_callbacks).bind fun urls _ => Makes.pure (.here hp fun address haddress => ?_)
    rcases List.mem_cons.1 haddress with rfl | haddress
    · exact ⟨urls, .goesOn (.keypad k.variableName)⟩
    · rw [List.mem_singleton.1 haddress]
      exact ⟨urls, .goesOn .next⟩
  | tag t =>
    rw [Work.runBody]
    exact hM.runTag hp t
  | voicemail v =>
    rw [Work.runBody]
    exact (Makes.tame Work.tame_callbacks).bind fun urls _ => Makes.pure (.here_of_none hp (continuations_voicemailVerbs urls c v))
  | hangup m =>
    rw [Work.runBody]
    refine Makes.pure (.here_of_none hp ?_)
    show Response.continuations (promptVerbs m ++ [.hangup]) = []
    rw [continuations_append, continuations_promptVerbs]
    rfl
  | bare t =>
    rw [Work.runBody]
    exact Makes.fail _
  | unknown t config =>
    rw [Work.runBody]
    exact Makes.pure (.here_of_none hp rfl)

mutual

/-- **A run of a list** comes to places in lists with the property, and gives what leads to these. -/
theorem makes_traceFrom (mode : Mode) {branch : Option String} {list : List Step} (hlist : Q branch list) :
    ∀ (steps : List Step) (index : Nat) (attempt : Option Int), list.drop index = steps →
      M.Makes (traceFrom c mode branch list index attempt steps) fun r => Leads Q c r.1.verbs r.2
  | [], _, _, _ => by
    rw [traceFrom]
    exact Makes.pure (.nil rfl)
  | ⟨id, label, body⟩ :: rest, index, attempt, hdrop => by
    have hitem : list[index]? = some ⟨id, label, body⟩ := by
      rw [← List.head?_drop, hdrop]
      rfl
    have hp : Place.Stands Q ⟨branch, list, index, ⟨id, label, body⟩⟩ := ⟨hlist, hitem⟩
    have hrest : list.drop (index + 1) = rest := by
      rw [← List.drop_drop, hdrop]
      rfl
    rw [traceFrom]
    refine (skipFailed hp (makes_traceBody attempt body hp rfl)).bind fun r hr => ?_
    obtain ⟨⟨rendering, next⟩, inside⟩ := r
    dsimp only
    split
    · exact Makes.pure hr
    · refine (Makes.tame Work.tame_callbacks).bind fun urls _ => Makes.pure ?_
      refine hr.more List.mem_cons_self fun a ha => ?_
      rw [List.mem_singleton.1 ha]
      exact ⟨urls, .goesOn .next⟩
    · refine (makes_traceFrom mode hlist rest (index + 1) (some 0) hrest).bind fun more hmore => Makes.pure ?_
      exact hr.append hmore

/-- **A step** leads to itself and to places in the lists that it owns. -/
theorem makes_traceBody {p : Place} (attempt : Option Int) : ∀ body : Body, p.Stands Q → p.step.body = body →
    M.Makes (traceBody c p.branch p.index attempt body) fun r => Leads Q c r.1.rendering.verbs (p :: r.2)
  | .schedule timezone branches fallback, hp, hbody => by
    have hchildren : p.step.children = Flow.branchChildren 0 branches ++ [⟨.fallback, "fallback", fallback⟩] := by
      rw [Step.children, hbody]
      rfl
    rw [traceBody]
    refine (Makes.tame (Task.Tame.asks _)).bind fun clock _ => ?_
    refine (makes_traceBranches clock.1 clock.2 0 branches hp ?_).bind fun found hfound => ?_
    · rw [hchildren]
      exact fun child hchild => List.mem_append_left _ hchild
    · cases found with
      | some r => exact Makes.pure (hfound r rfl)
      | none =>
        dsimp only
        split
        · exact Makes.pure (.here_of_none hp rfl)
        · have hnested := hM.nested p hp ⟨.fallback, "fallback", fallback⟩ (by rw [hchildren]; simp)
          refine (makes_traceFrom .inline hnested fallback 0 (some 0) rfl).bind fun r hr => Makes.pure ?_
          exact hr.cons hp
  | .greeting _, hp, _ | .dial _, hp, _ | .simulcall _, hp, _ | .roundRobin _, hp, _ | .menu _ _ _, hp, _
  | .keypadEntry _, hp, _ | .tag _, hp, _ | .voicemail _, hp, _ | .hangup _, hp, _ | .bare _, hp, _ | .unknown _ _, hp, _ => by
    rw [traceBody]
    · exact (runBody hM hp attempt fun _ _ _ h => by cases h).bind fun o ho => Makes.pure ho
    · exact nofun

theorem makes_traceBranches {p : Place} (weekday minute : Int) : ∀ (i : Nat) (branches : List Branch), p.Stands Q →
    (∀ child ∈ Flow.branchChildren i branches, child ∈ p.step.children) →
      M.Makes (traceBranches c p.branch p.index weekday minute i branches) fun found =>
        ∀ r, found = some r → Leads Q c r.1.rendering.verbs (p :: r.2)
  | _, [], _, _ => by
    rw [traceBranches]
    exact Makes.pure nofun
  | i, ⟨name, _, slots, steps⟩ :: rest, hp, hmem => by
    rw [Flow.branchChildren, List.forall_mem_cons] at hmem
    rw [traceBranches]
    split
    · split
      · refine Makes.pure fun r hr => ?_
        cases hr
        exact .here_of_none hp rfl
      · have hnested := hM.nested p hp _ hmem.1
        refine (makes_traceFrom .inline hnested steps 0 (some 0) rfl).bind fun r hr => Makes.pure fun found hfound => ?_
        cases hfound
        exact hr.cons hp
    · exact makes_traceBranches weekday minute (i + 1) rest hp hmem.2

end

/-! ## Callbacks -/

omit hM in
theorem mem_optionChildren {d : String} : ∀ {options : List MenuOption} {n i : Nat} {o : MenuOption},
    optionOf d n options = some (i, o) → ∃ name, ⟨.option i, name, o.steps⟩ ∈ Flow.optionChildren n options
  | first :: rest, n, i, o, h => by
    rw [optionOf] at h
    split at h
    · cases h
      exact ⟨_, List.mem_cons_self⟩
    · obtain ⟨name, hmem⟩ := mem_optionChildren h
      exact ⟨name, List.mem_cons_of_mem _ hmem⟩

theorem makes_traceAt (mode : Mode) {branch : Option String} {list : List Step} (hlist : Q branch list) (index : Int)
    (attempt : Option Int) :
    M.Makes (traceAt c mode branch index attempt list) fun r => Leads Q c r.1.verbs r.2 := by
  unfold traceAt
  split
  · exact makes_traceFrom hM mode hlist _ _ _ rfl
  · exact Makes.pure (.nil rfl)

theorem makes_traceChoice {branch : Option String} {list : List Step} (hlist : Q branch list) (index : Int)
    (digits : Option String) :
    M.Makes (traceChoice c branch index digits list) fun r => Leads Q c r.1.verbs r.2 := by
  have hnested {s : Step} {child : Flow.Child} (hs : stepOf list index = some s) (hchild : child ∈ s.children) :
      Q (some (Flow.branchPath branch index child.selector.text)) child.steps := by
    unfold stepOf at hs
    split at hs
    · rename_i hpos
      have := hM.nested ⟨branch, list, index.toNat, s⟩ ⟨hlist, hs⟩ child hchild
      rwa [Int.toNat_of_nonneg hpos] at this
    · cases hs
  unfold traceChoice
  cases hs : stepOf list index with
  | none => exact Makes.pure (.nil rfl)
  | some s =>
    obtain ⟨id, label, body⟩ := s
    cases body with
    | menu prompt options invalid =>
      dsimp only [Option.map_some]
      cases hfound : digits.bind fun d => optionOf d 0 options with
      | none =>
        dsimp only
        split
        · exact Makes.pure (.nil rfl)
        · have hinvalid := hnested hs (List.mem_append_right _ (List.mem_singleton_self _))
          exact makes_traceFrom hM .inline hinvalid _ _ _ rfl
      | some found =>
        dsimp only
        split
        · exact makes_traceAt hM .redirect hlist _ _
        · obtain ⟨d, -, hoption⟩ := Option.bind_eq_some_iff.1 hfound
          obtain ⟨name, hchild⟩ := mem_optionChildren hoption
          exact makes_traceFrom hM .inline (hnested hs (List.mem_append_left _ hchild)) _ _ _ rfl
    | _ => exact Makes.pure (.nil rfl)

theorem makes_traceKeypad {branch : Option String} {list : List Step} (hlist : Q branch list) (index : Int)
    (digits var : Option String) :
    M.Makes (traceKeypad c branch index digits var list) fun r => Leads Q c r.1.1.verbs r.2 := by
  have hentry (v : String × String) :
      M.Makes (Work.quietly (mutate c.callSid c.segmentNumber none (Segment.setVariable v.1 v.2))) fun _ => True :=
    (hM.entries v.1 v.2 c.callSid c.segmentNumber).quietly
  unfold traceKeypad
  dsimp only
  exact (Makes.forM hentry _).bind fun _ _ => (makes_traceAt hM .redirect hlist _ _).bind fun r hr => Makes.pure hr

/-- **A callback** comes to places in lists with the property, and gives what leads to these. -/
theorem makes_traceAction {root : Steps} {branch : Option String}
    (hbranch : ∀ list, Flow.resolveBranch root branch = .ok list → Q branch list) (index : Int) (r : Reply) :
    M.Makes (traceAction root c branch index r) fun r => Leads Q c r.1.1.verbs r.2 := by
  unfold traceAction
  cases hlist : Flow.resolveBranch root branch with
  | error e => exact Makes.pure (.nil rfl)
  | ok list =>
    have hlist := hbranch list hlist
    dsimp only
    cases r.action with
    | menu => exact (makes_traceChoice hM hlist _ _).bind fun r hr => Makes.pure hr
    | menuInvalid => exact (makes_traceChoice hM hlist _ _).bind fun r hr => Makes.pure hr
    | keypad => exact makes_traceKeypad hM hlist _ _ _
    | menuRetry => exact (makes_traceAt hM _ hlist _ _).bind fun r hr => Makes.pure hr
    | roundRobinRedirect => exact (makes_traceAt hM _ hlist _ _).bind fun r hr => Makes.pure hr
    | other => exact (makes_traceAt hM _ hlist _ _).bind fun r hr => Makes.pure hr

theorem makes_traceExecute {root : Steps} {branch : Option String}
    (hbranch : ∀ list, Flow.resolveBranch root branch = .ok list → Q branch list) (mode : Mode) (index : Int)
    (attempt : Option Int) :
    M.Makes (traceExecute root c mode branch index attempt) fun r => Leads Q c r.1.verbs r.2 := by
  unfold traceExecute
  cases hlist : Flow.resolveBranch root branch with
  | error e => exact Makes.pure (.nil rfl)
  | ok list => exact makes_traceAt hM mode (hbranch list hlist) _ _

end Permits

end Work

end Switchboard
