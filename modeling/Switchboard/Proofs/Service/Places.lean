import Switchboard.Proofs.Service.Manners
/-!
# Where a run comes

A run of a flow comes to steps: items of lists that stand under branches.  Here each part of the interpreter is given
together with the places that it comes to, in order; what it gives besides is what the interpreter gives
(`fst_traceAction`, `fst_traceExecute`).
-/
namespace Switchboard.Work

open Switchboard.Flow (Step Body Branch Steps MenuOption)

/-- A step that a run comes to: an item of the list under a branch. -/
structure Place where
  branch : Option String
  list : List Step
  index : Nat
  step : Step

mutual

def traceFrom (c : CallContext) (mode : Mode) (branch : Option String) (list : List Step) (index : Nat)
    (attempt : Option Int) : List Step → Work (Rendering × List Place)
  | [] => return (.ofVerbs Response.goodbye, [])
  | ⟨id, label, body⟩ :: rest => do
    let (o, inside) ← Task.recover (fun _ => return (.advance [], [])) (traceBody c branch index attempt body)
    let places := ⟨branch, list, index, ⟨id, label, body⟩⟩ :: inside
    match o.next, mode with
    | .stop, _ => return (o.rendering, places)
    | .advance, .redirect => return (o.rendering ++ .ofVerbs [goTo (← callbacks) c (index + 1) branch], places)
    | _, _ => do
      let (more, behind) ← traceFrom c mode branch list (index + 1) (some 0) rest
      return (o.rendering ++ more, places ++ behind)

def traceBody (c : CallContext) (branch : Option String) (index : Nat) (attempt : Option Int) :
    Body → Work (Outcome × List Place)
  | .schedule timezone branches fallback => do
    let (weekday, minute) ← Task.asks fun s => Flow.localTime s.zones timezone s.now
    match ← traceBranches c branch index weekday minute 0 branches with
    | some o => return o
    | none =>
      if fallback.isEmpty then return (.advance [], [])
      else do
        let (r, inside) ← traceFrom c .inline (some (Flow.branchPath branch index Flow.Selector.fallback.text)) fallback 0
          (some 0) fallback
        return (⟨r, .stop⟩, inside)
  | body => return (← runBody c branch index attempt body, [])

def traceBranches (c : CallContext) (branch : Option String) (index : Nat) (weekday minute : Int) (i : Nat) :
    List Branch → Work (Option (Outcome × List Place))
  | [] => return none
  | ⟨_, _, slots, steps⟩ :: rest =>
    if slots.any (fun s => s.covers weekday minute) then
      if steps.isEmpty then return some (.advance [], [])
      else do
        let (r, inside) ← traceFrom c .inline (some (Flow.branchPath branch index (Flow.Selector.branch i).text)) steps 0
          (some 0) steps
        return some (⟨r, .stop⟩, inside)
    else traceBranches c branch index weekday minute (i + 1) rest

end

def traceAt (c : CallContext) (mode : Mode) (branch : Option String) (index : Int) (attempt : Option Int)
    (steps : List Step) : Work (Rendering × List Place) :=
  if 0 ≤ index then traceFrom c mode branch steps index.toNat attempt (steps.drop index.toNat)
  else return (.ofVerbs Response.goodbye, [])

def traceExecute (steps : Steps) (c : CallContext) (mode : Mode) (branch : Option String) (index : Int)
    (attempt : Option Int) : Work (Rendering × List Place) :=
  match Flow.resolveBranch steps branch with
  | .error _ => return (.ofVerbs Response.hangup, [])
  | .ok current => traceAt c mode branch index attempt current

def traceChoice (c : CallContext) (branch : Option String) (index : Int) (digits : Option String) (steps : List Step) :
    Work (Rendering × List Place) :=
  let nested (selector : Flow.Selector) (list : List Step) : Work (Rendering × List Place) :=
    traceFrom c .inline (some (Flow.branchPath branch index selector.text)) list 0 (some 0) list
  match (stepOf steps index).map Step.body with
  | some (.menu _ options invalid) =>
    match digits.bind fun d => optionOf d 0 options with
    | some (i, o) =>
      if o.steps.isEmpty then traceAt c .redirect branch (index + 1) (some 0) steps else nested (.option i) o.steps
    | none => if invalid.isEmpty then return (.ofVerbs Response.hangup, []) else nested .invalidInput invalid
  | _ => return (.ofVerbs Response.hangup, [])

def traceKeypad (c : CallContext) (branch : Option String) (index : Int) (digits var : Option String) (steps : List Step) :
    Work ((Rendering × List (String × String)) × List Place) := do
  let (name, least) := keypadOf (stepOf steps index) var
  let kept := match Flow.given digits with
    | some d => if least ≤ d.length then [(name, d)] else []
    | none => []
  kept.forM fun v => quietly (mutate c.callSid c.segmentNumber none (Segment.setVariable v.1 v.2))
  let (r, places) ← traceAt c .redirect branch (index + 1) (some 0) steps
  return ((r, kept), places)

def traceAction (steps : Steps) (c : CallContext) (branch : Option String) (index : Int) (r : Reply) :
    Work ((Rendering × List (String × String)) × List Place) :=
  match Flow.resolveBranch steps branch with
  | .error _ => return ((.ofVerbs Response.hangup, []), [])
  | .ok current =>
    let plain (t : Work (Rendering × List Place)) : Work ((Rendering × List (String × String)) × List Place) := do
      let (rendering, places) ← t
      return ((rendering, []), places)
    match r.action with
    | .menu => plain (traceChoice c branch index (Flow.given r.digits) current)
    | .menuInvalid => plain (traceChoice c branch index none current)
    | .keypad => traceKeypad c branch index r.digits r.var current
    | .menuRetry | .roundRobinRedirect => plain (traceAt c .redirect branch index (some r.attempt) current)
    | .other => plain (traceAt c .redirect branch index r.sentAttempt current)

/-! ## What a run gives -/

theorem map_recover {α β : Type} (f : α → β) (h : Fault → Work α) : ∀ t : Work α,
    f <$> Task.recover h t = Task.recover (fun e => f <$> h e) (f <$> t)
  | .done _ => rfl
  | .fail _ => rfl
  | .look k => congrArg Task.look (funext fun s => map_recover f h (k s))
  | .put s k => congrArg (Task.put s) (map_recover f h k)
  | .pause p k => congrArg (Task.pause p) (map_recover f h k)

mutual

theorem fst_traceFrom (c : CallContext) (mode : Mode) (branch : Option String) (list : List Step) (index : Nat)
    (attempt : Option Int) : ∀ steps : List Step,
    Prod.fst <$> traceFrom c mode branch list index attempt steps = runFrom c mode branch index attempt steps
  | [] => by
    rw [traceFrom, runFrom]
    rfl
  | ⟨id, label, body⟩ :: rest => by
    have hskip : skipFailed (Prod.fst <$> traceBody c branch index attempt body) =
        Prod.fst <$> Task.recover (fun _ => return (.advance [], [])) (traceBody c branch index attempt body) :=
      (map_recover Prod.fst (fun _ => return (Outcome.advance [], [])) _).symm
    rw [traceFrom, runFrom, ← fst_traceBody c branch index attempt body, hskip, map_bind, bind_map_left]
    refine bind_congr fun p => ?_
    obtain ⟨⟨r, next⟩, inside⟩ := p
    have hrest := fst_traceFrom c mode branch list (index + 1) (some 0) rest
    cases next <;> cases mode <;> dsimp only <;> first
      | rfl
      | rw [map_bind, ← hrest, bind_map_left]; rfl

theorem fst_traceBody (c : CallContext) (branch : Option String) (index : Nat) (attempt : Option Int) : ∀ body : Body,
    Prod.fst <$> traceBody c branch index attempt body = runBody c branch index attempt body
  | .schedule timezone branches fallback => by
    rw [traceBody, runBody, map_bind]
    refine bind_congr fun clock => ?_
    dsimp only
    rw [← fst_traceBranches c branch index clock.1 clock.2 0 branches, map_bind, bind_map_left]
    refine bind_congr fun found => ?_
    cases found with
    | some o => rfl
    | none =>
      dsimp only [Option.map_none]
      split
      · rfl
      · rw [map_bind, ← fst_traceFrom c .inline _ fallback 0 (some 0) fallback, bind_map_left]
        rfl
  | .greeting _ | .dial _ | .simulcall _ | .roundRobin _ | .menu _ _ _ | .keypadEntry _ | .tag _ | .voicemail _ | .hangup _
  | .bare _ | .unknown _ _ => by
    rw [traceBody, map_bind]
    · exact bind_pure _
    · exact nofun

theorem fst_traceBranches (c : CallContext) (branch : Option String) (index : Nat) (weekday minute : Int) (i : Nat) :
    ∀ branches : List Branch, (Option.map Prod.fst) <$> traceBranches c branch index weekday minute i branches =
      runBranches c branch index weekday minute i branches
  | [] => by
    rw [traceBranches, runBranches]
    rfl
  | ⟨_, _, slots, steps⟩ :: rest => by
    rw [traceBranches, runBranches]
    split
    · split
      · rfl
      · dsimp only
        rw [map_bind, ← fst_traceFrom c .inline _ steps 0 (some 0) steps, bind_map_left]
        rfl
    · exact fst_traceBranches c branch index weekday minute (i + 1) rest

end

theorem fst_traceAt (c : CallContext) (mode : Mode) (branch : Option String) (index : Int) (attempt : Option Int)
    (steps : List Step) : Prod.fst <$> traceAt c mode branch index attempt steps = runAt c mode branch index attempt steps := by
  unfold traceAt runAt
  split
  · exact fst_traceFrom c mode branch steps _ attempt _
  · rfl

theorem fst_traceExecute (steps : Steps) (c : CallContext) (mode : Mode) (branch : Option String) (index : Int)
    (attempt : Option Int) :
    Prod.fst <$> traceExecute steps c mode branch index attempt = execute steps c mode branch index attempt := by
  unfold traceExecute execute
  cases Flow.resolveBranch steps branch with
  | error e => rfl
  | ok current => exact fst_traceAt c mode branch index attempt current

theorem fst_traceChoice (c : CallContext) (branch : Option String) (index : Int) (digits : Option String)
    (steps : List Step) : Prod.fst <$> traceChoice c branch index digits steps = runChoice c branch index digits steps := by
  unfold traceChoice runChoice
  cases (stepOf steps index).map Step.body with
  | none => rfl
  | some body =>
    cases body with
    | menu _ options invalid =>
      dsimp only
      cases digits.bind fun d => optionOf d 0 options with
      | none =>
        dsimp only
        split
        · rfl
        · exact fst_traceFrom c .inline _ _ 0 _ _
      | some found =>
        dsimp only
        split
        · exact fst_traceAt c .redirect branch _ _ steps
        · exact fst_traceFrom c .inline _ _ 0 _ _
    | _ => rfl

theorem fst_traceKeypad (c : CallContext) (branch : Option String) (index : Int) (digits var : Option String)
    (steps : List Step) :
    Prod.fst <$> traceKeypad c branch index digits var steps = runKeypad c branch index digits var steps := by
  unfold traceKeypad runKeypad
  dsimp only
  rw [map_bind]
  refine bind_congr fun _ => ?_
  rw [map_bind, ← fst_traceAt, bind_map_left]
  rfl

/-- **The places that a callback comes to** are traced along with what it gives. -/
theorem fst_traceAction (steps : Steps) (c : CallContext) (branch : Option String) (index : Int) (r : Reply) :
    Prod.fst <$> traceAction steps c branch index r = handleAction steps c branch index r := by
  have hplain {t : Work (Rendering × List Place)} {u : Work Rendering} (h : Prod.fst <$> t = u) :
      Prod.fst <$> (t >>= fun p => (return ((p.1, []), p.2) : Work ((Rendering × List (String × String)) × List Place))) =
        (u >>= fun a => return (a, [])) := by
    rw [map_bind, ← h, bind_map_left]
    rfl
  unfold traceAction handleAction
  cases Flow.resolveBranch steps branch with
  | error e => rfl
  | ok current =>
    cases r.action with
    | menu => exact hplain (fst_traceChoice c branch index _ current)
    | menuInvalid => exact hplain (fst_traceChoice c branch index _ current)
    | keypad => exact fst_traceKeypad c branch index _ _ current
    | menuRetry => exact hplain (fst_traceAt c .redirect branch index _ current)
    | roundRobinRedirect => exact hplain (fst_traceAt c .redirect branch index _ current)
    | other => exact hplain (fst_traceAt c .redirect branch index _ current)

/-! ## A run always answers -/

/-- Work that does not fail, whatever others do meanwhile. -/
structure Answers {α : Type} (t : Work α) : Prop where
  upholds : ∀ st, t.Upholds (State.terms (fun _ _ => True) fun _ _ => True) (fun r _ => ∃ a, r = .ok a) st

namespace Answers

variable {α β : Type} {t : Work α}

theorem pure (a : α) : Answers (Pure.pure a : Work α) := ⟨fun _ => Task.upholds_pure.2 ⟨a, rfl⟩⟩

theorem bind {f : α → Work β} (ht : Answers t) (hf : ∀ a, Answers (f a)) : Answers (t >>= f) :=
  ⟨fun st => Task.Upholds.bind (fun a st' _ => (hf a).upholds st') (fun _ _ h => nomatch h) (ht.upholds st)⟩

theorem asks (f : State → α) : Answers (Task.asks f : Work α) := ⟨fun _ => Task.upholds_asks.2 ⟨_, rfl⟩⟩

/-- **Where a fault is passed over** the work answers. -/
theorem recover (t : Work α) {handle : Fault → Work α} (hf : ∀ e, Answers (handle e)) : Answers (Task.recover handle t) :=
  ⟨fun st => Task.Upholds.recover (fun a _ _ => ⟨a, rfl⟩) (fun e st' _ => (hf e).upholds st') (Task.upholds_anything t st)⟩

theorem forM {f : α → Work PUnit} (hf : ∀ a, Answers (f a)) : ∀ as : List α, Answers (as.forM f)
  | [] => pure _
  | a :: rest => (hf a).bind fun _ => forM hf rest

end Answers

theorem answers_traceFrom (c : CallContext) (mode : Mode) (branch : Option String) (list : List Step) :
    ∀ (steps : List Step) (index : Nat) (attempt : Option Int), Answers (traceFrom c mode branch list index attempt steps)
  | [], _, _ => by
    rw [traceFrom]
    exact .pure _
  | ⟨id, label, body⟩ :: rest, index, attempt => by
    rw [traceFrom]
    refine (Answers.recover _ fun _ => .pure _).bind fun r => ?_
    obtain ⟨⟨rendering, next⟩, inside⟩ := r
    dsimp only
    split
    · exact .pure _
    · exact (Answers.asks _).bind fun _ => .pure _
    · exact (answers_traceFrom c mode branch list rest (index + 1) (some 0)).bind fun _ => .pure _

theorem answers_traceAt (c : CallContext) (mode : Mode) (branch : Option String) (index : Int) (attempt : Option Int)
    (steps : List Step) : Answers (traceAt c mode branch index attempt steps) := by
  unfold traceAt
  split
  · exact answers_traceFrom c mode branch steps _ _ _
  · exact .pure _

theorem answers_traceExecute (steps : Steps) (c : CallContext) (mode : Mode) (branch : Option String) (index : Int)
    (attempt : Option Int) : Answers (traceExecute steps c mode branch index attempt) := by
  unfold traceExecute
  split
  · exact .pure _
  · exact answers_traceAt c mode branch index attempt _

theorem answers_traceChoice (c : CallContext) (branch : Option String) (index : Int) (digits : Option String)
    (steps : List Step) : Answers (traceChoice c branch index digits steps) := by
  unfold traceChoice
  dsimp only
  split
  · split
    · split
      · exact answers_traceAt c .redirect branch _ _ steps
      · exact answers_traceFrom c .inline _ _ _ _ _
    · split
      · exact .pure _
      · exact answers_traceFrom c .inline _ _ _ _ _
  · exact .pure _

theorem answers_traceKeypad (c : CallContext) (branch : Option String) (index : Int) (digits var : Option String)
    (steps : List Step) : Answers (traceKeypad c branch index digits var steps) := by
  have hkept (kept : List (String × String)) :
      Answers (kept.forM fun v => quietly (mutate c.callSid c.segmentNumber none (Segment.setVariable v.1 v.2))) :=
    Answers.forM (fun _ => Answers.recover _ fun _ => .pure _) kept
  unfold traceKeypad
  dsimp only
  exact (hkept _).bind fun _ => (answers_traceAt c .redirect branch _ _ steps).bind fun _ => .pure _

/-- **A callback of a flow is always answered.** -/
theorem answers_traceAction (steps : Steps) (c : CallContext) (branch : Option String) (index : Int) (r : Reply) :
    Answers (traceAction steps c branch index r) := by
  unfold traceAction
  split
  · exact .pure _
  · dsimp only
    cases r.action with
    | menu => exact (answers_traceChoice c branch index _ _).bind fun _ => .pure _
    | menuInvalid => exact (answers_traceChoice c branch index _ _).bind fun _ => .pure _
    | keypad => exact answers_traceKeypad c branch index _ _ _
    | menuRetry => exact (answers_traceAt c .redirect branch index _ _).bind fun _ => .pure _
    | roundRobinRedirect => exact (answers_traceAt c .redirect branch index _ _).bind fun _ => .pure _
    | other => exact (answers_traceAt c .redirect branch index _ _).bind fun _ => .pure _

end Switchboard.Work
