import Switchboard.Service.Calls
/-!
# Runs of tasks

What a task that is run alone does to the state.  A task runs step by step: behind a step that ends well it goes on with
the value of that step, and a fault ends it.  The laws here are those of each kind of step; a handler is then run by
rewriting with them, and none of its proofs opens a task.
-/
namespace Switchboard.Task

variable {σ ε α β : Type}

theorem run_bind (f : α → Task σ ε β) : ∀ (t : Task σ ε α) (s : σ),
    (t >>= f).run s = match t.run s with
      | (.ok a, s') => (f a).run s'
      | (.error e, s') => (.error e, s')
  | done _, _ => rfl
  | fail _, _ => rfl
  | look k, s => run_bind f (k s) s
  | put s k, _ => run_bind f k s
  | pause _ k, s => run_bind f k s

/-- **Behind a step that ends well a task goes on.** -/
theorem run_bind_ok {t : Task σ ε α} {f : α → Task σ ε β} {s s' : σ} {a : α} (h : t.run s = (.ok a, s')) :
    (t >>= f).run s = (f a).run s' := by
  rw [run_bind, h]

/-- **A fault ends a task.** -/
theorem run_bind_error {t : Task σ ε α} {f : α → Task σ ε β} {s s' : σ} {e : ε} (h : t.run s = (.error e, s')) :
    (t >>= f).run s = (.error e, s') := by
  rw [run_bind, h]

/-- **A task that ends well** has steps that did. -/
theorem run_bind_eq_ok {t : Task σ ε α} {f : α → Task σ ε β} {s s' : σ} {b : β} (h : (t >>= f).run s = (.ok b, s')) :
    ∃ a s₁, t.run s = (.ok a, s₁) ∧ (f a).run s₁ = (.ok b, s') := by
  rw [run_bind] at h
  split at h
  · rename_i a s₁ ht
    exact ⟨a, s₁, ht, h⟩
  · cases h

theorem run_bind_eq_ok_of_kept {t : Task σ ε α} {f : α → Task σ ε β} {s s' : σ} {b : β} (ht : (t.run s).2 = s)
    (h : (t >>= f).run s = (.ok b, s')) : ∃ a, t.run s = (.ok a, s) ∧ (f a).run s = (.ok b, s') := by
  obtain ⟨a, s₁, hrun, hrest⟩ := run_bind_eq_ok h
  rw [hrun] at ht
  cases ht
  exact ⟨a, hrun, hrest⟩

/-- **A task whose steps leave the state alone** leaves it alone. -/
theorem run_bind_kept {t : Task σ ε α} {f : α → Task σ ε β} {s : σ} (ht : (t.run s).2 = s)
    (hf : ∀ a, ((f a).run s).2 = s) : ((t >>= f).run s).2 = s := by
  rw [run_bind]
  split
  · rename_i a s' h
    rw [h] at ht
    rw [show s' = s from ht]
    exact hf a
  · rename_i h
    rw [h] at ht
    exact ht

theorem run_update (f : σ → σ) (s : σ) : (update f : Task σ ε Unit).run s = (.ok (), f s) := rfl

theorem run_interrupt (p : Point) (s : σ) : (interrupt p : Task σ ε Unit).run s = (.ok (), s) := rfl

theorem run_ofExcept (r : Except ε α) (s : σ) : (ofExcept r).run s = (r, s) := by
  cases r <;> rfl

theorem run_ofExcept_eq_ok {r : Except ε α} {s s' : σ} {a : α} (h : (ofExcept r).run s = (.ok a, s')) :
    r = .ok a ∧ s' = s := by
  rw [run_ofExcept] at h
  cases h
  exact ⟨rfl, rfl⟩

theorem run_atomically (f : σ → Except ε (α × σ)) (s : σ) :
    (atomically f).run s = match f s with
      | .ok (a, s') => (.ok a, s')
      | .error e => (.error e, s) := by
  simp only [atomically, run]
  cases f s <;> rfl

/-- **A task whose value is not asked for** leaves the state that it leaves. -/
theorem run_discard (t : Task σ ε α) (s : σ) : ((discard t).run s).2 = (t.run s).2 := by
  show ((t >>= fun _ => done ()).run s).2 = _
  rw [run_bind]
  split <;> rename_i h <;> rw [h]
  rfl

theorem run_recover (handle : ε → Task σ ε α) : ∀ (t : Task σ ε α) (s : σ),
    (recover handle t).run s = match t.run s with
      | (.ok a, s') => (.ok a, s')
      | (.error e, s') => (handle e).run s'
  | done _, _ => rfl
  | fail _, _ => rfl
  | look k, s => run_recover handle (k s) s
  | put s k, _ => run_recover handle k s
  | pause _ k, s => run_recover handle k s

end Switchboard.Task

namespace Switchboard.Work

/-- **A statement changes the store or nothing**, and fails where the database is not to be reached. -/
theorem run_statement {α : Type} (f : Store → Except StoreFault (α × Store)) (st : State) :
    (statement f).run st =
      if st.isUp then
        match f st.store with
        | .ok (a, store) => (.ok a, { st with store })
        | .error e => (.error (.refused e), st)
      else (.error .unreachable, st) := by
  unfold statement
  rw [Task.run_bind, Task.run_atomically]
  by_cases hup : st.isUp = true
  · rw [if_pos hup, if_pos hup]
    cases f st.store with
    | ok r => rfl
    | error e => rfl
  · rw [if_neg hup, if_neg hup]

theorem run_statement_ok {α : Type} {f : Store → Except StoreFault (α × Store)} {st : State} {a : α} {db : Store}
    (hup : st.isUp = true) (h : f st.store = .ok (a, db)) :
    (statement f).run st = (.ok a, { st with store := db }) := by
  rw [run_statement, if_pos hup, h]

theorem run_statement_error {α : Type} {f : Store → Except StoreFault (α × Store)} {st : State} {e : StoreFault}
    (hup : st.isUp = true) (h : f st.store = .error e) : (statement f).run st = (.error (.refused e), st) := by
  rw [run_statement, if_pos hup, h]

/-- **A statement that ends well** has found the database. -/
theorem run_statement_eq_ok {α : Type} {f : Store → Except StoreFault (α × Store)} {st st' : State} {a : α}
    (h : (statement f).run st = (.ok a, st')) : ∃ db, f st.store = .ok (a, db) ∧ st' = { st with store := db } := by
  rw [run_statement] at h
  split at h
  · split at h
    · rename_i b db hf
      cases h
      exact ⟨db, hf, rfl⟩
    · cases h
  · cases h

/-- **A query changes nothing.** -/
theorem run_query_kept {α : Type} (f : Store → α) (st : State) : ((query f).run st).2 = st := by
  rw [query, run_statement]
  split <;> rfl

theorem run_query_eq_ok {α : Type} {f : Store → α} {st st' : State} {a : α} (h : (query f).run st = (.ok a, st')) :
    a = f st.store ∧ st' = st := by
  obtain ⟨db, hdb, rfl⟩ := run_statement_eq_ok h
  cases hdb
  exact ⟨rfl, rfl⟩

theorem run_readRow_eq_ok {r : CallRow} {st st' : State} {s : Segment} (h : (readRow r).run st = (.ok s, st')) :
    r.read = .ok s ∧ st' = st := by
  obtain ⟨hread, rfl⟩ := Task.run_ofExcept_eq_ok h
  cases hr : r.read with
  | error e =>
    rw [hr] at hread
    cases hread
  | ok t =>
    rw [hr] at hread
    cases hread
    exact ⟨rfl, rfl⟩

theorem run_readRow?_eq_ok {row : Option CallRow} {st st' : State} {found : Option Segment}
    (h : (readRow? row).run st = (.ok found, st')) :
    st' = st ∧ (row = none ∧ found = none ∨ ∃ r s, row = some r ∧ found = some s ∧ r.read = .ok s) := by
  cases row with
  | none =>
    cases h
    exact ⟨rfl, .inl ⟨rfl, rfl⟩⟩
  | some r =>
    obtain ⟨s, st₁, hread, hdone⟩ := Task.run_bind_eq_ok h
    obtain ⟨hr, rfl⟩ := run_readRow_eq_ok hread
    cases hdone
    exact ⟨rfl, .inr ⟨r, s, rfl, rfl, hr⟩⟩

theorem run_callbacks (st : State) : callbacks.run st = (.ok (.ofBase st.settings.baseUrl), st) := rfl

theorem run_settings (st : State) : settings.run st = (.ok st.settings, st) := rfl

end Switchboard.Work

namespace Switchboard

/-- The id of the leg that the provider places next. -/
def Exchange.nextLeg (e : Exchange) : String := "CAleg" ++ toString (e.placed + 1)

/-- The state behind a leg that was placed. -/
def State.withPlaced (st : State) (leg : Provider.Leg) : State :=
  { st with
    exchange := { st.exchange with placed := st.exchange.placed + 1 }
    requests := st.requests ++ [.place leg (some st.exchange.nextLeg)] }

theorem Work.run_placeCall (leg : Provider.Leg) (st : State) :
    (Work.placeCall leg).run st =
      if st.exchange.unreachable.contains leg.destination then
        (.ok none, { st with requests := st.requests ++ [.place leg none] })
      else (.ok (some st.exchange.nextLeg), st.withPlaced leg) := by
  unfold Work.placeCall
  rw [Task.run]
  split <;> rfl

/-! ## Moving a call -/

/-- Whether a request gives a call something else to do, or ends it. -/
def Provider.Request.moves (sid : String) : Provider.Request → Bool
  | .terminate s _ => s = sid
  | .redirect s _ _ => s = sid
  | _ => false

/-- How often the service has asked to move a call. -/
def State.moves (st : State) (sid : String) : Nat := st.requests.countP (Provider.Request.moves sid)

/-! ## A service to run tasks on -/

/-- A service that holds some segments and has asked for nothing. -/
def State.holding (segments : List Segment) : State where
  now := 0
  zones := Time.standardZones
  settings := ⟨8080, "", "", "", "", "", "", "", "", "", "", "", "", "", "", "", ""⟩
  isUp := true
  store := { Store.empty with calls := segments.map CallRow.own }
  conflicts := 0
  exchange := ⟨0, [], false, false, false, ""⟩
  studio := ⟨none, .fresh, none, .fresh⟩
  media := []
  requests := []
  served := []

end Switchboard
