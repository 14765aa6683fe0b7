import Switchboard.Proofs.Service.Interleaving
import Switchboard.Proofs.Service.Run
import Switchboard.Service.Flows
import Switchboard.Service.Recordings
/-!
# Work on the side

Much of what serves a request only looks things up, or has a prompt read aloud or a recording written down.  Such work is
tame: whatever others do meanwhile, it leaves the stored calls, flows and lines as they are and gives no order to the
telephone provider.
-/
namespace Switchboard

/-- Whether a request places a leg or ends or redirects a call. -/
def Provider.Request.isOrder : Provider.Request → Bool
  | .place _ _ | .terminate _ _ | .redirect _ _ _ => true
  | _ => false

/-- The leg that a request asks to place. -/
def Provider.Request.leg? : Provider.Request → Option Provider.Leg
  | .place leg _ => some leg
  | _ => none

/-- What the telephone provider was asked to do with calls. -/
def State.orders (st : State) : List Provider.Request := st.requests.filter Provider.Request.isOrder

/-- A change on the side: calls, flows and lines are as they were, ids are counted as they were, and no order was given. -/
structure State.Aside (st st' : State) : Prop where
  calls : st'.store.calls = st.store.calls
  flows : st'.store.flows = st.store.flows
  lines : st'.store.lines = st.store.lines
  counted : st'.store.counted = st.store.counted
  orders : st'.orders = st.orders

theorem State.Aside.refl (st : State) : st.Aside st := ⟨rfl, rfl, rfl, rfl, rfl⟩

/-- Terms on the state alone. -/
abbrev State.terms (rely guar : State → State → Prop) : Terms State State := ⟨id, rely, guar⟩

/-- **Work that is run alone** ends as it should, in the state that it leaves. -/
theorem Task.Upholds.ends {α : Type} {t : Work α} {rely guar : State → State → Prop}
    {post : Except Fault α → State → Prop} {st : State} (h : t.Upholds (State.terms rely guar) post st)
    (hrefl : ∀ st, rely st st) : post (t.run st).1 (t.run st).2 := by
  obtain ⟨st', hst', -, hpost⟩ := h.run hrefl
  change st' = (t.run st).2 at hst'
  exact hst' ▸ hpost

/-- Work that makes changes on the side only. -/
structure Task.Tame {α : Type} (t : Work α) : Prop where
  keeps : ∀ st, t.Upholds (State.terms (fun _ _ => True) State.Aside) (fun _ _ => True) st

namespace Task.Tame

variable {α β : Type}

/-- **Tame work keeps to terms that allow changes on the side.** -/
theorem upholds {t : Work α} (h : t.Tame) {rely guar : State → State → Prop}
    (hguar : ∀ st st', st.Aside st' → guar st st') (st : State) :
    t.Upholds (State.terms rely guar) (fun _ _ => True) st :=
  (h.keeps st).of_terms (fun _ _ _ => trivial) hguar

theorem pure (a : α) : (Pure.pure a : Work α).Tame := ⟨fun _ => upholds_pure.mpr trivial⟩

theorem fail (e : Fault) : (Task.fail e : Work α).Tame := ⟨fun _ => upholds_fail.mpr trivial⟩

theorem bind {t : Work α} {f : α → Work β} (ht : t.Tame) (hf : ∀ a, (f a).Tame) : (t >>= f).Tame :=
  ⟨fun st => Upholds.bind (fun a st' _ => (hf a).keeps st') (fun _ _ _ => trivial) (ht.keeps st)⟩

theorem discard {t : Work α} (ht : t.Tame) : (Functor.discard t).Tame := ht.bind fun _ => pure ()

theorem recover {t : Work α} {handle : Fault → Work α} (ht : t.Tame) (hf : ∀ e, (handle e).Tame) :
    (Task.recover handle t).Tame :=
  ⟨fun st => Upholds.recover (fun _ _ _ => trivial) (fun e st' _ => (hf e).keeps st') (ht.keeps st)⟩

theorem look {k : State → Work α} (hk : ∀ st, (k st).Tame) : (Task.look k).Tame :=
  ⟨fun st => upholds_look.mpr ((hk st).keeps st)⟩

theorem asks (f : State → α) : (Task.asks f : Work α).Tame := look fun st => pure (f st)

theorem ofExcept (r : Except Fault α) : (Task.ofExcept r).Tame := ⟨fun _ => upholds_ofExcept.mpr trivial⟩

theorem interrupt (p : Point) : (Task.interrupt p : Work Unit).Tame :=
  ⟨fun _ => upholds_interrupt.mpr fun _ _ => trivial⟩

theorem update {f : State → State} (hf : ∀ st : State, st.Aside (f st)) : (Task.update f : Work Unit).Tame :=
  ⟨fun st => upholds_update.mpr ⟨f st, rfl, hf st, trivial⟩⟩

theorem mapM {f : α → Work β} (hf : ∀ a, (f a).Tame) : ∀ as : List α, (as.mapM f).Tame
  | [] => by rw [List.mapM_nil]; exact pure _
  | a :: rest => by
    rw [List.mapM_cons]
    exact (hf a).bind fun b => (mapM hf rest).bind fun bs => pure _

end Task.Tame

namespace Work

open Switchboard.Task (Tame)

variable {α : Type}

/-- **A statement** is one change, and a pause behind it; or the database is not to be reached, or refuses it. -/
theorem upholds_statement_of_fault {ω : Type} {c : Terms State ω} {P : Except Fault α → ω → Prop} {w : ω}
    {f : Store → Except StoreFault (α × Store)}
    (hok : ∀ a db, f (c.see w).store = .ok (a, db) →
      ∃ w', c.see w' = { c.see w with store := db } ∧ c.guar w w' ∧ ∀ w'', c.rely w' w'' → P (.ok a) w'')
    (hdown : (c.see w).isUp = false → P (.error .unreachable) w)
    (hrefused : ∀ e, f (c.see w).store = .error e → P (.error (.refused e)) w) : (statement f).Upholds c P w := by
  unfold statement
  refine Task.Upholds.bind (P := fun r w' => match r with
    | .ok a => ∀ w'', c.rely w' w'' → P (.ok a) w''
    | .error e => P (.error e) w') ?_ (fun e w' h => h) ?_
  · exact fun a w' h => Task.upholds_interrupt_bind.mpr fun w'' hr => Task.upholds_pure.mpr (h w'' hr)
  refine Task.upholds_atomically (fun a st' h => ?_) fun e he => ?_
  · split at h
    · split at h
      · rename_i hdb
        cases h
        exact hok _ _ hdb
      · cases h
    · cases h
  · split at he
    · split at he
      · cases he
      · rename_i hdb
        cases he
        exact hrefused _ hdb
    · rename_i hup
      cases he
      exact hdown (Bool.eq_false_iff.mpr hup)

theorem upholds_statement {ω : Type} {c : Terms State ω} {P : Except Fault α → ω → Prop} {w : ω}
    {f : Store → Except StoreFault (α × Store)}
    (hok : ∀ a db, f (c.see w).store = .ok (a, db) →
      ∃ w', c.see w' = { c.see w with store := db } ∧ c.guar w w' ∧ ∀ w'', c.rely w' w'' → P (.ok a) w'')
    (hdown : P (.error .unreachable) w) (hrefused : ∀ e, P (.error (.refused e)) w) : (statement f).Upholds c P w :=
  upholds_statement_of_fault hok (fun _ => hdown) fun e _ => hrefused e

/-- A statement that leaves calls, flows and lines alone. -/
theorem tame_statement {f : Store → Except StoreFault (α × Store)}
    (hf : ∀ db a db', f db = .ok (a, db') →
      db'.calls = db.calls ∧ db'.flows = db.flows ∧ db'.lines = db.lines ∧ db'.counted = db.counted) :
    (statement f).Tame := by
  refine ⟨fun st => upholds_statement (fun a db h => ?_) trivial fun _ => trivial⟩
  obtain ⟨hc, hf, hl, hn⟩ := hf _ _ _ h
  exact ⟨_, rfl, ⟨hc, hf, hl, hn, rfl⟩, fun _ _ => trivial⟩

theorem tame_query (f : Store → α) : (query f).Tame := by
  refine tame_statement fun db a db' h => ?_
  cases h
  exact ⟨rfl, rfl, rfl, rfl⟩

theorem tame_note {r : Provider.Request} (hr : r.isOrder = false) : (note r).Tame := by
  refine Tame.update fun st => ⟨rfl, rfl, rfl, rfl, ?_⟩
  rw [State.orders, State.orders, List.filter_append, List.filter_cons_of_neg (by rw [hr]; exact Bool.false_ne_true),
    List.filter_nil, List.append_nil]

theorem tame_now : now.Tame := Tame.asks _

theorem tame_settings : settings.Tame := Tame.asks _

theorem tame_callbacks : callbacks.Tame := Tame.asks _

/-! ## Looking things up -/

theorem tame_readRow (r : CallRow) : (readRow r).Tame := Tame.ofExcept _

theorem tame_readRow? : ∀ r : Option CallRow, (readRow? r).Tame
  | some r => (tame_readRow r).bind fun _ => Tame.pure _
  | none => Tame.pure _

theorem tame_segment? (sid : String) (number : Int) (tenant : Option String) : (segment? sid number tenant).Tame := by
  refine Tame.bind (tame_statement fun db a db' h => ?_) tame_readRow?
  split at h
  · cases h; exact ⟨rfl, rfl, rfl, rfl⟩
  · cases h

theorem tame_chain (sid : String) (tenant : Option String) : (chain sid tenant).Tame :=
  (tame_query _).bind (Tame.mapM tame_readRow)

theorem tame_calls (tenant : String) (limit offset : Int) : (calls tenant limit offset).Tame := by
  refine Tame.bind (tame_statement fun db a db' h => ?_) (Tame.mapM tame_readRow)
  cases hrows : db.callRows tenant limit offset with
  | error e => rw [hrows] at h; cases h
  | ok rows => rw [hrows] at h; cases h; exact ⟨rfl, rfl, rfl, rfl⟩

theorem tame_buyer? (tenant : String) (phone : Option String) : (buyer? tenant phone).Tame := by
  unfold buyer?
  split
  · exact Tame.pure _
  · exact (tame_query _).recover fun _ => Tame.pure _

theorem tame_userTarget (raw : String) : ∀ m : Option Member, (userTarget raw m).Tame
  | some _ => Tame.pure _
  | none => Tame.fail _

theorem tame_resolve (tenant destination : String) : (resolve tenant destination).Tame := by
  unfold resolve
  dsimp only
  split
  · split
    · exact Tame.pure _
    · exact Tame.fail _
  · exact (tame_query _).bind (tame_userTarget _)
  · exact (tame_query _).bind (tame_userTarget _)

theorem tame_resolve? (tenant destination : String) : (resolve? tenant destination).Tame := by
  refine ((tame_resolve tenant destination).bind fun _ => Tame.pure _).recover fun e => ?_
  split
  · exact Tame.pure _
  · exact Tame.fail _

theorem tame_resolveAll (tenant : String) : ∀ ds : List String, (resolveAll tenant ds).Tame
  | [] => Tame.pure _
  | d :: rest => (tame_resolve? tenant d).bind fun _ => (tame_resolveAll tenant rest).bind fun _ => Tame.pure _

/-! ## Prompts and recordings -/

theorem tame_storeMedia (content folder name : String) : (storeMedia content folder name).Tame := by
  refine Tame.bind (Tame.update fun st => ?_) fun _ => tame_settings.bind fun _ => Tame.pure _
  exact ⟨rfl, rfl, rfl, rfl, rfl⟩

theorem tame_endReading (succeeded : Bool) (rest : List (Option String)) : (endReading succeeded rest).Tame :=
  Tame.update fun _ => ⟨rfl, rfl, rfl, rfl, rfl⟩

theorem tame_readAloud (text : String) (voice : Flow.Voice) : (readAloud text voice).Tame := by
  refine Tame.look fun st => ?_
  cases st.studio.readings with
  | none => exact Tame.pure _
  | some script =>
    dsimp only
    obtain ⟨allowed, breaker⟩ := st.studio.readingBreaker.start readingLimits st.now
    refine Tame.bind (Tame.update fun _ => ⟨rfl, rfl, rfl, rfl, rfl⟩) fun _ => ?_
    cases allowed with
    | false => exact Tame.pure _
    | true =>
      refine Tame.bind (tame_note rfl) fun _ => ?_
      split
      all_goals exact (tame_endReading _ _).bind fun _ => Tame.pure _

theorem putSpeech_aside (r : SpeechRow) (db : Store) :
    (db.putSpeech r).calls = db.calls ∧ (db.putSpeech r).flows = db.flows ∧ (db.putSpeech r).lines = db.lines ∧
      (db.putSpeech r).counted = db.counted := by
  unfold Store.putSpeech
  split <;> exact ⟨rfl, rfl, rfl, rfl⟩

theorem tame_synthesize (text : String) (voice : Flow.Voice) : (synthesize text voice).Tame := by
  unfold synthesize
  split
  · exact Tame.pure _
  · refine (tame_query _).bind fun known => ?_
    split
    · exact Tame.pure _
    · refine (tame_readAloud text voice).bind fun audio => ?_
      split
      · exact Tame.pure _
      · refine (tame_storeMedia _ _ _).bind fun _ => tame_now.bind fun _ => Tame.bind (tame_statement ?_) fun _ => Tame.pure _
        intro db a db' h
        cases h
        exact putSpeech_aside _ db

theorem tame_synthesizePrompt (text : String) (voice : Flow.Voice) : (synthesizePrompt text voice).Tame :=
  (tame_synthesize text voice).recover fun _ => Tame.pure _

end Work

end Switchboard
