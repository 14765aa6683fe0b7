import Switchboard.Proofs.Flow.Paths
import Switchboard.Proofs.Service.Places
/-!
# Two names of one list

A branch that is absent and one that is empty both name the root of a flow.  No address and no path tells the two apart, so
a step gives the same under either name (`alike_traceBody`); only the token of an attempt keeps the name as it was given.
-/
namespace Switchboard

open Switchboard.Flow (Step Body Branch)

/-! ## Addresses and paths -/

section Named

variable {b₁ b₂ : Option String} (h : Flow.given b₁ = Flow.given b₂)
include h

theorem Flow.branchPath_congr (i : Int) (s : String) : branchPath b₁ i s = branchPath b₂ i s := by
  cases hb : given b₂ with
  | none => rw [branchPath_of_root (h.trans hb), branchPath_of_root hb]
  | some p => rw [branchPath_of_given (h.trans hb), branchPath_of_given hb]

namespace Callbacks

omit h in
theorem present_eq (fs : List Field) : present fs = fs.filterMap fun f => (Flow.given f.2).map fun v => (f.1, v) := by
  refine List.filterMap_congr fun f _ => ?_
  obtain ⟨name, - | v⟩ := f
  · rfl
  · dsimp only
    rw [Flow.given]
    split <;> rfl

/-- **No address tells the names apart.** -/
theorem flow_congr (urls : Callbacks) (tenant line : String) (step : Int) (action : Option String) (attempt : Option Int)
    (var : Option String) (seq : Option Int) :
    urls.flow tenant line ⟨step, action, b₁, attempt, var, seq⟩ =
      urls.flow tenant line ⟨step, action, b₂, attempt, var, seq⟩ := by
  simp only [flow, address, Position.fields, present_eq, List.filterMap_cons, h]

theorem dialStatus_congr (urls : Callbacks) (tenant line : String) (step : Int) (seq : Option Int) :
    urls.dialStatus tenant line step b₁ seq = urls.dialStatus tenant line step b₂ seq := by
  simp only [dialStatus, address, present_eq, List.filterMap_cons, h]

end Callbacks

namespace Work

theorem menuVerbs_congr (urls : Callbacks) (c : CallContext) (p : Flow.MenuPrompt) (step : Nat) (replays : Int) :
    menuVerbs urls c p step b₁ replays = menuVerbs urls c p step b₂ replays := by
  simp only [menuVerbs, Callbacks.flow_congr h]

theorem keypadVerbs_congr (urls : Callbacks) (c : CallContext) (k : Flow.KeypadEntry) (step : Nat) :
    keypadVerbs urls c k step b₁ = keypadVerbs urls c k step b₂ := by
  simp only [keypadVerbs, Callbacks.Position.at, Callbacks.flow_congr h]

theorem dialAction_congr (urls : Callbacks) (c : CallContext) (a : Attempt) (step : Nat) (seq : Int) :
    dialAction urls c a step b₁ seq = dialAction urls c a step b₂ seq := by
  simp only [dialAction, Callbacks.flow_congr h, Callbacks.dialStatus_congr h]

end Work

end Named

/-! ## Work that is alike -/

namespace Work

variable {α β : Type} {final : α → Prop} {st : State}

/-- Pieces of work that give the same from a state on.  They may leave different states behind only where what they give is
final. -/
def Alike (final : α → Prop) (t u : Work α) (st : State) : Prop :=
  t.run st = u.run st ∨ ∃ a st₁ st₂, t.run st = (.ok a, st₁) ∧ u.run st = (.ok a, st₂) ∧ final a

namespace Alike

theorem of_eq {t u : Work α} (h : t = u) : Alike final t u st := .inl (congrArg (Task.run · st) h)

theorem bind {f g : β → Work α} (hfg : ∀ a st, Alike final (f a) (g a) st) (t : Work β) :
    Alike final (t >>= f) (t >>= g) st := by
  unfold Alike
  rw [Task.run_bind, Task.run_bind]
  split
  · exact hfg _ _
  · exact .inl rfl

theorem recover {t u : Work α} (h : Alike final t u st) (handle : Fault → Work α) :
    Alike final (Task.recover handle t) (Task.recover handle u) st := by
  unfold Alike
  rw [Task.run_recover, Task.run_recover]
  rcases h with h | ⟨a, st₁, st₂, ht, hu, ha⟩
  · exact .inl (by rw [h])
  · exact .inr ⟨a, st₁, st₂, by rw [ht], by rw [hu], ha⟩

theorem map {final' : β → Prop} {t u : Work α} (h : Alike final t u st) (f : α → β) (hf : ∀ a, final a → final' (f a)) :
    Alike final' (t >>= fun a => return f a) (u >>= fun a => return f a) st := by
  rcases h with h | ⟨a, st₁, st₂, ht, hu, ha⟩
  · refine .inl ?_
    rw [Task.run_bind, Task.run_bind, h]
  · exact .inr ⟨f a, st₁, st₂, Task.run_bind_ok ht, Task.run_bind_ok hu, hf a ha⟩

end Alike

/-! ## Attempts -/

/-- Segments that agree in what the bridge of an attempt is made of. -/
def SameRoom (s t : Segment) : Prop := s.conferenceName = t.conferenceName ∧ s.scratch.attemptSeq = t.scratch.attemptSeq

theorem startAttempt_ne (resume : Resume) (targets : List DialTarget) (callerId : Option String) (timeout : Int)
    (record : Bool) (s : Segment) : (s.startAttempt resume targets callerId timeout record).1 ≠ s := by
  intro h
  have hseq : s.scratch.attemptSeq + 1 = s.scratch.attemptSeq := congrArg (fun t => t.scratch.attemptSeq) h
  omega

/-- **A write that finds no row** changes nothing. -/
theorem updateCalls_of_none {db : Store} {p : CallRow → Bool} (h : db.calls.find? p = none) (g : CallRow → CallRow) :
    db.updateCalls p g = db := by
  have hsame : db.calls.map (fun r => if p r then g r else r) = db.calls := by
    refine (List.map_congr_left fun r hr => ?_).trans (List.map_id _)
    exact if_neg (List.find?_eq_none.1 h r hr)
  show { db with calls := _ } = db
  rw [hsame]

section Attempt

variable (r₁ r₂ : Resume) (targets : List DialTarget) (callerId : Option String) (timeout : Int) (record : Bool)

/-- **Writes of attempts that differ in the token** find the same row, or both find none. -/
theorem writeAt_startAttempt (s : Segment) (k : Int) (db : Store) :
    Store.writeAt (s.startAttempt r₁ targets callerId timeout record).1 k db =
        Store.writeAt (s.startAttempt r₂ targets callerId timeout record).1 k db ∨
      ∃ s₁ s₂ db₁ db₂, SameRoom s₁ s₂ ∧
        Store.writeAt (s.startAttempt r₁ targets callerId timeout record).1 k db = .ok (some (.own s₁), db₁) ∧
        Store.writeAt (s.startAttempt r₂ targets callerId timeout record).1 k db = .ok (some (.own s₂), db₂) := by
  have hwrite (r : Resume) : Store.writeAt (s.startAttempt r targets callerId timeout record).1 k db =
      if !s.duration.all Store.fits then .error .range
      else .ok
        ((db.calls.find? (Store.isAt s.id k)).map
          (Store.CallRow.overwrite (s.startAttempt r targets callerId timeout record).1),
        db.updateCalls (Store.isAt s.id k)
          (Store.CallRow.overwrite (s.startAttempt r targets callerId timeout record).1)) := rfl
  rw [hwrite, hwrite]
  split
  · exact .inl rfl
  · cases hfind : db.calls.find? (Store.isAt s.id k) with
    | none =>
      rw [updateCalls_of_none hfind, updateCalls_of_none hfind]
      exact .inl rfl
    | some row =>
      exact .inr ⟨(Store.CallRow.overwrite (s.startAttempt r₁ targets callerId timeout record).1 row).segment,
        (Store.CallRow.overwrite (s.startAttempt r₂ targets callerId timeout record).1 row).segment, _, _, ⟨rfl, rfl⟩, rfl, rfl⟩

/-- **Attempts that differ in the token** are stored both for one room, or come to the same. -/
theorem run_mutateWithin_startAttempt (sid : String) (number : Int) : ∀ (tries : Nat) (st : State),
    (mutateWithin sid number none (Segment.startAttempt r₁ targets callerId timeout record) tries).run st =
        (mutateWithin sid number none (Segment.startAttempt r₂ targets callerId timeout record) tries).run st ∨
      ∃ s₁ s₂ st₁ st₂, SameRoom s₁ s₂ ∧ st₁.settings = st₂.settings ∧
        (mutateWithin sid number none (Segment.startAttempt r₁ targets callerId timeout record) tries).run st =
          (.ok (some (s₁, ())), st₁) ∧
        (mutateWithin sid number none (Segment.startAttempt r₂ targets callerId timeout record) tries).run st =
          (.ok (some (s₂, ())), st₂)
  | 0, _ => .inl rfl
  | tries + 1, st => by
    have hany (s : Segment) : ¬ (none : Option String).any (fun t => t != s.tenantId) = true := Bool.false_ne_true
    rw [mutateWithin, mutateWithin, Task.run_bind, Task.run_bind]
    rcases (segment? sid number none).run st with ⟨e | found, st'⟩
    · exact .inl rfl
    dsimp only
    rw [Task.run_bind_ok (Task.run_interrupt _ st'), Task.run_bind_ok (Task.run_interrupt _ st')]
    cases found with
    | none => exact .inl rfl
    | some s =>
      dsimp only
      rw [if_neg (hany s), if_neg (hany s), if_neg (startAttempt_ne _ _ _ _ _ s),
        if_neg (startAttempt_ne _ _ _ _ _ s), Task.run_bind, Task.run_bind]
      rcases (contend s.id).run st' with ⟨e | -, st''⟩
      · exact .inl rfl
      dsimp only
      rw [Task.run_bind, Task.run_bind, run_statement, run_statement]
      by_cases hup : st''.isUp = true
      swap
      · rw [if_neg hup, if_neg hup]
        exact .inl rfl
      rw [if_pos hup, if_pos hup]
      rcases writeAt_startAttempt r₁ r₂ targets callerId timeout record s s.revision st''.store with
        hsame | ⟨s₁, s₂, db₁, db₂, hroom, hwrite₁, hwrite₂⟩
      · rw [hsame]
        rcases Store.writeAt (s.startAttempt r₂ targets callerId timeout record).1 s.revision st''.store with e | ⟨row, db⟩
        · exact .inl rfl
        cases row with
        | some row => exact .inl rfl
        | none => exact run_mutateWithin_startAttempt sid number tries _
      · rw [hwrite₁, hwrite₂]
        exact .inr ⟨s₁, s₂, { st'' with store := db₁ }, { st'' with store := db₂ }, hroom, rfl, rfl, rfl⟩

/-- **What is made of a stored attempt** is alike where it is made of its room and the settings. -/
theorem alike_prepareAttempt {k : Option Segment → Work α}
    (hk : ∀ s₁ s₂ st₁ st₂, SameRoom s₁ s₂ → st₁.settings = st₂.settings →
      ∃ a, (k (some s₁)).run st₁ = (.ok a, st₁) ∧ (k (some s₂)).run st₂ = (.ok a, st₂) ∧ final a) (sid : String)
    (number : Int) (st : State) :
    Alike final (prepareAttempt sid number r₁ targets callerId timeout record >>= k)
      (prepareAttempt sid number r₂ targets callerId timeout record >>= k) st := by
  rcases run_mutateWithin_startAttempt r₁ r₂ targets callerId timeout record sid number mutateTries st with
    hsame | ⟨s₁, s₂, st₁, st₂, hroom, hsettings, hrun₁, hrun₂⟩
  · refine .inl ?_
    unfold prepareAttempt mutate
    rw [Task.run_bind, Task.run_bind, hsame, ← Task.run_bind, ← Task.run_bind]
  · have hprepared {r : Resume} {s : Segment} {st' : State}
        (hrun : (mutateWithin sid number none (Segment.startAttempt r targets callerId timeout record) mutateTries).run st =
          (.ok (some (s, ())), st')) :
        (prepareAttempt sid number r targets callerId timeout record).run st = (.ok (some s), st') := Task.run_bind_ok hrun
    obtain ⟨a, hk₁, hk₂, ha⟩ := hk s₁ s₂ st₁ st₂ hroom hsettings
    exact .inr ⟨a, st₁, st₂, (Task.run_bind_ok (hprepared hrun₁)).trans hk₁, (Task.run_bind_ok (hprepared hrun₂)).trans hk₂, ha⟩

end Attempt

/-! ## Steps -/

section Steps

variable {b₁ b₂ : Option String} (h : Flow.given b₁ = Flow.given b₂) (c : CallContext) (step : Nat)
include h

theorem alike_bridge (a : Attempt) (st : State) :
    Alike (·.next = .stop) (bridge c a step b₁) (bridge c a step b₂) st := by
  unfold bridge
  simp only [dialAction_congr h]
  refine alike_prepareAttempt _ _ _ _ _ _ (fun s₁ s₂ st₁ st₂ hroom hsettings => ?_) _ _ st
  refine ⟨_, rfl, ?_, rfl⟩
  simp only [hroom.1, hroom.2, hsettings]
  rfl

/-- **A step that owns no lists** gives the same under either name. -/
theorem alike_runBody (attempt : Option Int) : ∀ body : Body, (∀ z bs fallback, body ≠ .schedule z bs fallback) → ∀ st,
    Alike (·.next = .stop) (runBody c b₁ step attempt body) (runBody c b₂ step attempt body) st := by
  intro body hbody st
  cases body with
  | schedule z bs fallback => exact absurd rfl (hbody z bs fallback)
  | dial d =>
    rw [runBody, runBody]
    refine Alike.bind (fun target st => ?_) _
    cases target with
    | none => exact .of_eq rfl
    | some target => exact alike_bridge h c step _ st
  | simulcall d =>
    rw [runBody, runBody]
    refine Alike.bind (fun targets st => ?_) _
    cases targets with
    | nil => exact .of_eq rfl
    | cons => exact alike_bridge h c step _ st
  | roundRobin d =>
    cases attempt with
    | none =>
      rw [runBody, runBody]
      exact .of_eq rfl
    | some n =>
      rw [runBody, runBody]
      unfold runRoundRobin
      split
      · exact .of_eq rfl
      · refine Alike.bind (fun found st => ?_) _
        cases found with
        | none => exact .of_eq rfl
        | some found => exact alike_bridge h c step _ st
  | menu p options invalid =>
    rw [runBody, runBody]
    simp only [menuVerbs_congr h]
    exact .of_eq rfl
  | keypadEntry k =>
    rw [runBody, runBody]
    simp only [keypadVerbs_congr h]
    exact .of_eq rfl
  | greeting | tag | voicemail | hangup | bare | unknown =>
    rw [runBody, runBody]
    exact .of_eq rfl

theorem traceBranches_congr (weekday minute : Int) : ∀ (i : Nat) (branches : List Branch),
    traceBranches c b₁ step weekday minute i branches = traceBranches c b₂ step weekday minute i branches
  | _, [] => by rw [traceBranches, traceBranches]
  | i, ⟨_, _, slots, steps⟩ :: rest => by
    rw [traceBranches, traceBranches, traceBranches_congr weekday minute (i + 1) rest]
    simp only [Flow.branchPath_congr h]

/-- **A step gives the same under either name**, and comes to the same places inside of it. -/
theorem alike_traceBody (attempt : Option Int) (body : Body) (st : State) :
    Alike (·.1.next = .stop) (traceBody c b₁ step attempt body) (traceBody c b₂ step attempt body) st := by
  have hplain (hbody : ∀ z bs fallback, body ≠ .schedule z bs fallback) :
      Alike (·.1.next = .stop) (traceBody c b₁ step attempt body) (traceBody c b₂ step attempt body) st := by
    rw [traceBody, traceBody]
    · exact (alike_runBody h c step attempt body hbody st).map _ fun _ ho => ho
    · exact hbody
    · exact hbody
  cases body with
  | schedule timezone branches fallback =>
    rw [traceBody, traceBody]
    simp only [traceBranches_congr h, Flow.branchPath_congr h]
    exact .of_eq rfl
  | _ => exact hplain fun _ _ _ h => by cases h

end Steps

end Work

end Switchboard
