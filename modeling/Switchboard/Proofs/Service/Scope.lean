import Switchboard.Proofs.Service.Asides
import Switchboard.Proofs.Store.Lives
import Switchboard.Service.Conference
/-!
# Work within a scope

A scope says whose rows a piece of work may write and which legs it may hang up.  A state evolves within a scope if each row
lives on (`CallRow.Writes`), rows of others stay as they are, and every order to the telephone provider is about a call of
the scope (`Scope.Evolves`).  What work has seen of a row stays true of it while the state evolves (`Scope.Saw`), so it may
be used at the next write.

`Scope.Keeps` says that a piece of work stays within a scope, whatever others do within it at the pauses; it is proved part
by part.
-/
namespace Switchboard

open Provider (Request)
open Store (sameId)

/-- Whose rows work may write, and the legs that it may hang up besides those that were placed for these rows. -/
structure Scope where
  mine : String → Bool
  legs : String → Prop
  /-- Whether others work at the pauses. -/
  crowded : Prop
  mine_of_same : ∀ {a b : String}, sameId a b = true → mine b = true → mine a = true

namespace Scope

/-! ## What a scope allows -/

section Allowed

variable (S : Scope) (st : State)

/-- Every row with a root call id is one of the scope. -/
def Roots (root : String) : Prop := ∀ r ∈ st.store.calls, r.segment.rootSid = root → S.mine r.segment.tenantId = true

/-- A call of the scope: there are rows with its root call id, and all of them are of the scope. -/
structure Chain (root : String) : Prop where
  row : ∃ r ∈ st.store.calls, S.mine r.segment.tenantId = true ∧ r.segment.rootSid = root
  roots : S.Roots st root

/-- A leg is one for a segment of a chain of the scope. -/
def LegFor (leg : Provider.Leg) : Prop :=
  ∃ urls caller s t, leg = Work.legFor urls caller s t ∧ S.mine s.tenantId = true ∧ S.Chain st s.rootSid

/-- A leg may be hung up: the scope says so, or it was placed for a chain of the scope. -/
def Known (leg : String) : Prop := S.legs leg ∨ ∃ l, Request.place l (some leg) ∈ st.orders ∧ S.LegFor st l

/-- What the telephone provider may be asked: legs are placed for chains of the scope, and only calls of the scope and legs
that may be hung up are ended or redirected. -/
def Allows : Request → Prop
  | .place leg _ => S.LegFor st leg
  | .redirect sid _ _ => S.Chain st sid
  | .terminate sid _ => S.Chain st sid ∨ S.Known st sid
  | _ => True

/-- A state in which a scope can be kept to: ids name one row, the calls that rows of the scope belong to and lead to are
of the scope, and the legs that ring for them may be hung up. -/
structure Sound : Prop where
  identified : st.store.Identified
  closed : ∀ r ∈ st.store.calls, S.mine r.segment.tenantId = true →
    S.Roots st r.segment.rootSid ∧ S.Roots st (Naming.root r.segment.rootSid)
  legs : ∀ r ∈ st.store.calls, S.mine r.segment.tenantId = true → ∀ s, r.read = .ok s →
    ∀ leg ∈ s.scratch.pendingLegs, S.Known st leg

/-- A row lived on; one of others is as it was. -/
def Follows (r r' : CallRow) : Prop :=
  CallRow.Writes (S.Known st) S.crowded r r' ∧ (S.mine r.segment.tenantId = false → r' = r)

/-- How a state goes on within a scope. -/
structure Evolves (st' : State) : Prop where
  persist : ∀ r ∈ st.store.calls, ∃ r' ∈ st'.store.calls, S.Follows st' r r'
  origin : ∀ r' ∈ st'.store.calls,
    (∃ r ∈ st.store.calls, S.Follows st' r r') ∨ S.mine r'.segment.tenantId = true
  calls : (st'.store.calls.filter fun r => !S.mine r.segment.tenantId) =
    st.store.calls.filter fun r => !S.mine r.segment.tenantId
  flows : (st'.store.flows.filter fun f => !S.mine f.tenantId) = st.store.flows.filter fun f => !S.mine f.tenantId
  lines : (st'.store.lines.filter fun l => !S.mine l.tenantId) = st.store.lines.filter fun l => !S.mine l.tenantId
  orders : ∃ given, st'.orders = st.orders ++ given ∧ ∀ o ∈ given, S.Allows st' o

/-- What work has seen of a segment: its row is there, and unless it was written since it reads as the segment. -/
structure Saw (s : Segment) : Prop where
  row : ∃ r ∈ st.store.calls, r.segment.key = s.key ∧ s.revision ≤ r.segment.revision ∧
    (r.segment.revision = s.revision → r.read = .ok s)
  legs : S.mine s.tenantId = true → ∀ leg ∈ s.scratch.pendingLegs, S.Known st leg

end Allowed

/-! ## What stays true -/

variable {S : Scope} {st st' st'' : State}

/-- A state in which every row of an earlier one is there under its key, rows that were added are of the scope, and no order
was taken back: what was a call of the scope still is one. -/
structure Carries (S : Scope) (st st' : State) : Prop where
  persist : ∀ r ∈ st.store.calls, ∃ r' ∈ st'.store.calls, r'.segment.key = r.segment.key
  origin : ∀ r' ∈ st'.store.calls,
    (∃ r ∈ st.store.calls, r'.segment.key = r.segment.key) ∨ S.mine r'.segment.tenantId = true
  orders : ∀ o ∈ st.orders, o ∈ st'.orders

namespace Carries

theorem roots (h : S.Carries st st') {root : String} (hroot : S.Roots st root) : S.Roots st' root := by
  intro r' hr' heq
  rcases h.origin r' hr' with ⟨r, hr, hkey⟩ | hmine
  · rw [show r'.segment.tenantId = r.segment.tenantId from congrArg Segment.Key.tenantId hkey]
    exact hroot r hr ((congrArg Segment.Key.rootSid hkey).symm.trans heq)
  · exact hmine

theorem chain (h : S.Carries st st') {root : String} (hroot : S.Chain st root) : S.Chain st' root := by
  obtain ⟨r, hr, hmine, rfl⟩ := hroot.row
  obtain ⟨r', hr', hkey⟩ := h.persist r hr
  refine ⟨⟨r', hr', ?_, congrArg Segment.Key.rootSid hkey⟩, h.roots hroot.roots⟩
  rw [show r'.segment.tenantId = r.segment.tenantId from congrArg Segment.Key.tenantId hkey]
  exact hmine

theorem legFor (h : S.Carries st st') {leg : Provider.Leg} (hleg : S.LegFor st leg) : S.LegFor st' leg := by
  obtain ⟨urls, caller, s, t, heq, hmine, hroot⟩ := hleg
  exact ⟨urls, caller, s, t, heq, hmine, h.chain hroot⟩

theorem known (h : S.Carries st st') {leg : String} (hleg : S.Known st leg) : S.Known st' leg := by
  rcases hleg with hbase | ⟨l, hplaced, hl⟩
  · exact .inl hbase
  · exact .inr ⟨l, h.orders _ hplaced, h.legFor hl⟩

theorem allows (h : S.Carries st st') : ∀ {o : Request}, S.Allows st o → S.Allows st' o
  | .place _ _, ho => h.legFor ho
  | .redirect _ _ _, ho => h.chain ho
  | .terminate _ _, ho => ho.imp h.chain h.known
  | .fetch _ _, _ | .speak _, _ | .transcribe _ _, _ | .openPool _ _, _ => trivial

/-- Where a row of the scope has a counterpart in the earlier state, its call is of the scope as before. -/
theorem closed (h : S.Carries st st') (hs : S.Sound st) {r r' : CallRow} (hr : r ∈ st.store.calls)
    (hkey : r'.segment.key = r.segment.key) (hmine : S.mine r'.segment.tenantId = true) :
    S.Roots st' r'.segment.rootSid ∧ S.Roots st' (Naming.root r'.segment.rootSid) := by
  rw [show r'.segment.tenantId = r.segment.tenantId from congrArg Segment.Key.tenantId hkey] at hmine
  rw [show r'.segment.rootSid = r.segment.rootSid from congrArg Segment.Key.rootSid hkey]
  exact ⟨h.roots (hs.closed r hr hmine).1, h.roots (hs.closed r hr hmine).2⟩

end Carries

theorem Follows.refl (r : CallRow) : S.Follows st r r := ⟨.refl, fun _ => rfl⟩

theorem Follows.tenant {r r' : CallRow} (h : S.Follows st r r') : r'.segment.tenantId = r.segment.tenantId :=
  congrArg Segment.Key.tenantId h.1.key

theorem Follows.trans {r r' r'' : CallRow} (h : S.Follows st r r') (h' : S.Follows st r' r'') : S.Follows st r r'' := by
  refine ⟨h.1.trans h'.1, fun hother => ?_⟩
  rw [h'.2 (h.tenant ▸ hother), h.2 hother]

theorem Follows.mono {r r' : CallRow} (hknown : ∀ leg, S.Known st leg → S.Known st' leg) (h : S.Follows st r r') :
    S.Follows st' r r' :=
  ⟨h.1.mono hknown, h.2⟩

namespace Evolves

theorem carries (h : S.Evolves st st') : S.Carries st st' where
  persist r hr := by
    obtain ⟨r', hr', hfollows⟩ := h.persist r hr
    exact ⟨r', hr', hfollows.1.key⟩
  origin r' hr' := (h.origin r' hr').imp_left fun ⟨r, hr, hfollows⟩ => ⟨r, hr, hfollows.1.key⟩
  orders := by
    obtain ⟨given, heq, -⟩ := h.orders
    rw [heq]
    exact fun o ho => List.mem_append_left _ ho

theorem roots (h : S.Evolves st st') {root : String} : S.Roots st root → S.Roots st' root := h.carries.roots

theorem chain (h : S.Evolves st st') {root : String} : S.Chain st root → S.Chain st' root := h.carries.chain

theorem known (h : S.Evolves st st') {leg : String} : S.Known st leg → S.Known st' leg := h.carries.known

theorem refl (st : State) : S.Evolves st st where
  persist r hr := ⟨r, hr, .refl r⟩
  origin r hr := .inl ⟨r, hr, .refl r⟩
  calls := rfl
  flows := rfl
  lines := rfl
  orders := ⟨[], (List.append_nil _).symm, fun _ h => nomatch h⟩

theorem trans (h : S.Evolves st st') (h' : S.Evolves st' st'') : S.Evolves st st'' where
  persist r hr := by
    obtain ⟨r', hr', hf⟩ := h.persist r hr
    obtain ⟨r'', hr'', hf'⟩ := h'.persist r' hr'
    exact ⟨r'', hr'', (hf.mono fun _ => h'.known).trans hf'⟩
  origin r'' hr'' := by
    rcases h'.origin r'' hr'' with ⟨r', hr', hf'⟩ | hmine
    · rcases h.origin r' hr' with ⟨r, hr, hf⟩ | hmine
      · exact .inl ⟨r, hr, (hf.mono fun _ => h'.known).trans hf'⟩
      · exact .inr (hf'.tenant ▸ hmine)
    · exact .inr hmine
  calls := h'.calls.trans h.calls
  flows := h'.flows.trans h.flows
  lines := h'.lines.trans h.lines
  orders := by
    obtain ⟨given, heq, hall⟩ := h.orders
    obtain ⟨given', heq', hall'⟩ := h'.orders
    refine ⟨given ++ given', by rw [heq', heq, List.append_assoc], fun o ho => ?_⟩
    rcases List.mem_append.mp ho with ho | ho
    · exact h'.carries.allows (hall o ho)
    · exact hall' o ho

/-- **What was seen stays true.** -/
theorem saw (h : S.Evolves st st') {s : Segment} (hs : S.Saw st s) : S.Saw st' s := by
  obtain ⟨r, hr, hkey, hle, hread⟩ := hs.row
  obtain ⟨r', hr', hf⟩ := h.persist r hr
  refine ⟨⟨r', hr', hf.1.key.trans hkey, le_trans hle hf.1.revision_le, fun heq => ?_⟩,
    fun hmine leg hleg => h.known (hs.legs hmine leg hleg)⟩
  -- Every write is counted, so a row at the revision that was seen was not written since.
  have hsame : r' = r := hf.1.eq_of_revision (heq ▸ hle)
  rw [hsame] at heq ⊢
  exact hread heq

end Evolves

/-! ## Steps -/

theorem filter_map_of_kept {α : Type} {l : List α} {f : α → α} {p : α → Bool} (hp : ∀ a ∈ l, p (f a) = p a)
    (hkept : ∀ a ∈ l, p a = true → f a = a) : (l.map f).filter p = l.filter p := by
  induction l with
  | nil => rfl
  | cons a rest ih =>
    have ih := ih (fun b hb => hp b (List.mem_cons_of_mem _ hb)) fun b hb => hkept b (List.mem_cons_of_mem _ hb)
    rw [List.map_cons, List.filter_cons, List.filter_cons, hp a List.mem_cons_self, ih]
    split
    · rename_i ha
      rw [hkept a List.mem_cons_self ha]
    · rfl

def Step (S : Scope) (st st' : State) : Prop := S.Sound st → S.Sound st' ∧ S.Evolves st st'

theorem Step.refl (st : State) : S.Step st st := fun h => ⟨h, .refl st⟩

theorem Step.trans (h : S.Step st st') (h' : S.Step st' st'') : S.Step st st'' := fun hs =>
  ⟨(h' (h hs).1).1, (h hs).2.trans (h' (h hs).1).2⟩

/-- **A step that leaves the rows of calls alone** writes no flow or line of others and gives orders that are allowed. -/
theorem Step.of_calls (hcalls : st'.store.calls = st.store.calls) (hcounted : st.store.counted ≤ st'.store.counted)
    (hflows : (st'.store.flows.filter fun f => !S.mine f.tenantId) = st.store.flows.filter fun f => !S.mine f.tenantId)
    (hlines : (st'.store.lines.filter fun l => !S.mine l.tenantId) = st.store.lines.filter fun l => !S.mine l.tenantId)
    (horders : ∃ given, st'.orders = st.orders ++ given ∧ ∀ o ∈ given, S.Allows st o) : S.Step st st' := by
  intro hsound
  obtain ⟨given, heq, hall⟩ := horders
  have hcarries : S.Carries st st' := by
    refine ⟨?_, ?_, fun o ho => heq ▸ List.mem_append_left _ ho⟩
    all_goals rw [hcalls]
    · exact fun r hr => ⟨r, hr, rfl⟩
    · exact fun r hr => .inl ⟨r, hr, rfl⟩
  refine ⟨⟨hsound.identified.of_calls hcalls hcounted, ?_, ?_⟩,
    ⟨?_, ?_, by rw [hcalls], hflows, hlines, given, heq, fun o ho => hcarries.allows (hall o ho)⟩⟩
  · exact fun r hr => hcarries.closed hsound (hcalls ▸ hr) rfl
  · rw [hcalls]
    exact fun r hr hmine s hs leg hleg => hcarries.known (hsound.legs r hr hmine s hs leg hleg)
  · rw [hcalls]
    exact fun r hr => ⟨r, hr, .refl r⟩
  · rw [hcalls]
    exact fun r hr => .inl ⟨r, hr, .refl r⟩

theorem Step.of_aside (h : st.Aside st') : S.Step st st' :=
  .of_calls h.calls (le_of_eq h.counted.symm) (by rw [h.flows]) (by rw [h.lines])
    ⟨[], by rw [h.orders, List.append_nil], fun _ h => nomatch h⟩

theorem Step.of_updateCalls {p : CallRow → Bool} {g : CallRow → CallRow} (hid : ∀ r, (g r).segment.id = r.segment.id)
    (hrows : ∀ r ∈ st.store.calls, p r = true →
      S.mine r.segment.tenantId = true ∧ CallRow.Write (S.Known st) S.crowded r (g r)) :
    S.Step st { st with store := st.store.updateCalls p g } := by
  intro hsound
  have hkey (r : CallRow) (hr : r ∈ st.store.calls) : (if p r then g r else r).segment.key = r.segment.key := by
    split
    · rename_i hp
      exact (hrows r hr hp).2.key.1
    · rfl
  have hmem (r : CallRow) (hr : r ∈ st.store.calls) :
      (if p r then g r else r) ∈ (st.store.updateCalls p g).calls := List.mem_map.mpr ⟨r, hr, rfl⟩
  have hcarries : S.Carries st { st with store := st.store.updateCalls p g } := by
    refine ⟨fun r hr => ⟨_, hmem r hr, hkey r hr⟩, fun x hx => ?_, fun o ho => ho⟩
    obtain ⟨r, hr, rfl⟩ := List.mem_map.mp hx
    exact .inl ⟨r, hr, hkey r hr⟩
  have hfollows (r : CallRow) (hr : r ∈ st.store.calls) :
      S.Follows { st with store := st.store.updateCalls p g } r (if p r then g r else r) := by
    split
    · rename_i hp
      obtain ⟨hmine, hw⟩ := hrows r hr hp
      exact ⟨.single (hw.mono fun _ => hcarries.known), fun hother => by rw [hother] at hmine; cases hmine⟩
    · exact .refl r
  refine ⟨⟨hsound.identified.updateCalls p hid, ?_, ?_⟩, ⟨?_, ?_, ?_, rfl, rfl, [], (List.append_nil _).symm,
    fun _ h => nomatch h⟩⟩
  · intro x hx hmine
    obtain ⟨r, hr, rfl⟩ := List.mem_map.mp hx
    exact hcarries.closed hsound hr (hkey r hr) hmine
  · intro x hx hmine s hs leg hleg
    obtain ⟨r, hr, rfl⟩ := List.mem_map.mp hx
    rw [(hfollows r hr).tenant] at hmine
    exact (hfollows r hr).1.pending (fun t ht l hl => hcarries.known (hsound.legs r hr hmine t ht l hl)) s hs leg hleg
  · exact fun r hr => ⟨_, hmem r hr, hfollows r hr⟩
  · intro x hx
    obtain ⟨r, hr, rfl⟩ := List.mem_map.mp hx
    exact .inl ⟨r, hr, hfollows r hr⟩
  · exact filter_map_of_kept (fun r hr => congrArg (fun t => !S.mine t) (hfollows r hr).tenant) fun r hr hother =>
      (hfollows r hr).2 (by simpa using hother)

/-- **A row of the scope that is added**, for which no leg rings yet. -/
theorem Step.of_insertCall {r r' : CallRow} {db : Store} (h : st.store.insertCall r = .ok (r', db))
    (hmine : S.mine r.segment.tenantId = true)
    (hroots : S.Sound st → S.Roots st r.segment.rootSid ∧ S.Roots st (Naming.root r.segment.rootSid))
    (hquiet : ∀ s, r'.read = .ok s → s.scratch.pendingLegs = []) : S.Step st { st with store := db } := by
  intro hsound
  have hidentified := hsound.identified.insertCall h
  obtain ⟨-, hr', rfl⟩ := Store.insertCall_eq_ok h
  have hmine' : S.mine r'.segment.tenantId = true := by rw [hr']; exact hmine
  have hroot' : r'.segment.rootSid = r.segment.rootSid := by rw [hr']
  have hcarries : S.Carries st
      { st with store := { st.store with calls := st.store.calls ++ [r'], counted := st.store.counted + 1 } } := by
    refine ⟨fun a ha => ⟨a, List.mem_append_left _ ha, rfl⟩, fun x hx => ?_, fun o ho => ho⟩
    rcases List.mem_append.mp hx with hx | hx
    · exact .inl ⟨x, hx, rfl⟩
    · exact .inr (List.mem_singleton.mp hx ▸ hmine')
  refine ⟨⟨hidentified, ?_, ?_⟩, ⟨?_, ?_, ?_, rfl, rfl, [], (List.append_nil _).symm, fun _ h => nomatch h⟩⟩
  · intro x hx hxmine
    rcases List.mem_append.mp hx with hx | hx
    · exact hcarries.closed hsound hx rfl hxmine
    · rw [List.mem_singleton.mp hx, hroot']
      exact ⟨hcarries.roots (hroots hsound).1, hcarries.roots (hroots hsound).2⟩
  · intro x hx hxmine s hs leg hleg
    rcases List.mem_append.mp hx with hx | hx
    · exact hcarries.known (hsound.legs x hx hxmine s hs leg hleg)
    · rw [List.mem_singleton.mp hx] at hs
      rw [hquiet s hs] at hleg
      cases hleg
  · exact fun a ha => ⟨a, List.mem_append_left _ ha, .refl a⟩
  · intro x hx
    rcases List.mem_append.mp hx with hx | hx
    · exact .inl ⟨x, hx, .refl x⟩
    · exact .inr (List.mem_singleton.mp hx ▸ hmine')
  · show List.filter _ (st.store.calls ++ [r']) = _
    rw [List.filter_append, List.filter_cons_of_neg (by rw [hmine']; exact Bool.false_ne_true), List.filter_nil,
      List.append_nil]

/-! ## Keeping to a scope -/

/-- What others may do at a pause: they stay within the scope too, and out of a crowd there are none. -/
def Others (S : Scope) (st st' : State) : Prop := S.Step st st' ∧ (S.crowded ∨ st' = st)

theorem Others.refl (st : State) : S.Others st st := ⟨Step.refl st, .inr rfl⟩

abbrev terms (S : Scope) : Terms State State := State.terms S.Others S.Step

variable {α β : Type}

/-- Work that stays within a scope from a state on, whatever others do within it meanwhile; what it gives is as `post`
says. -/
structure Keeps (S : Scope) (t : Work α) (st : State) (post : α → State → Prop) : Prop where
  upholds : S.Sound st → t.Upholds S.terms (fun r st' => ∀ a, r = .ok a → post a st') st

namespace Keeps

variable {t : Work α} {P Q : α → State → Prop} {R : β → State → Prop}

/-- **What is kept shows behind the work**: the state is sound and has evolved within the scope. -/
theorem evolved (h : S.Keeps t st P) (hs : S.Sound st) :
    t.Upholds S.terms (fun r st' => (∀ a, r = .ok a → P a st') ∧ S.Sound st' ∧ S.Evolves st st') st := by
  -- Others at the pauses and the work between them make the same steps, so one invariant serves both.
  refine Task.Upholds.and_stable (fun w w' hw hstep => ?_) ⟨hs, Evolves.refl st⟩ (h.upholds hs)
  have hstep : S.Step w w' := hstep.elim And.left id
  exact ⟨(hstep hw.1).1, hw.2.trans (hstep hw.1).2⟩

theorem pure {a : α} (h : P a st) : S.Keeps (Pure.pure a) st P :=
  ⟨fun _ => Task.upholds_pure.mpr fun _ hb => Except.ok.inj hb ▸ h⟩

theorem fail (e : Fault) : S.Keeps (Task.fail e : Work α) st P := ⟨fun _ => Task.upholds_fail.mpr fun _ h => nomatch h⟩

theorem bind {f : α → Work β} (ht : S.Keeps t st P)
    (hf : ∀ a st', S.Sound st' → S.Evolves st st' → P a st' → S.Keeps (f a) st' R) : S.Keeps (t >>= f) st R := by
  refine ⟨fun hs => Task.Upholds.bind (P := fun r st' => (∀ a, r = .ok a → P a st') ∧ S.Sound st' ∧ S.Evolves st st')
    (fun a st' h => (hf a st' h.2.1 h.2.2 (h.1 a rfl)).upholds h.2.1) (fun e st' h b hb => ?_) (ht.evolved hs)⟩
  cases hb

theorem mono (h : S.Keeps t st P) (hPQ : ∀ a st', S.Sound st' → S.Evolves st st' → P a st' → Q a st') : S.Keeps t st Q :=
  ⟨fun hs => Task.Upholds.mono (fun _ st' h a ha => hPQ a st' h.2.1 h.2.2 (h.1 a ha)) (h.evolved hs)⟩

theorem done (h : S.Keeps t st P) : S.Keeps t st fun _ _ => True := h.mono fun _ _ _ _ _ => trivial

theorem discard (h : S.Keeps t st P) : S.Keeps (Functor.discard t) st fun _ _ => True :=
  h.bind fun _ _ _ _ _ => pure trivial

theorem recover {handle : Fault → Work α} (h : S.Keeps t st P) (hok : ∀ a st', S.Evolves st st' → P a st' → Q a st')
    (herr : ∀ e st', S.Evolves st st' → S.Keeps (handle e) st' Q) : S.Keeps (Task.recover handle t) st Q := by
  refine ⟨fun hs => Task.Upholds.recover (P := fun r st' => (∀ a, r = .ok a → P a st') ∧ S.Sound st' ∧ S.Evolves st st')
    (fun a st' h b hb => ?_) (fun e st' h => (herr e st' h.2.2).upholds h.2.1) (h.evolved hs)⟩
  cases hb
  exact hok a st' h.2.2 (h.1 a rfl)

theorem attempt (h : S.Keeps t st P) : S.Keeps (Task.attempt t) st fun _ _ => True :=
  ⟨fun hs => Task.Upholds.attempt (fun _ _ _ _ _ => trivial) (h.upholds hs)⟩

theorem look {k : State → Work α} (h : S.Keeps (k st) st P) : S.Keeps (Task.look k) st P :=
  ⟨fun hs => Task.upholds_look.mpr (h.upholds hs)⟩

theorem tame (h : t.Tame) : S.Keeps t st fun _ _ => True :=
  ⟨fun _ => Task.Upholds.mono (fun _ _ _ _ _ => trivial) (h.upholds (fun _ _ => Step.of_aside) st)⟩

theorem interrupt (p : Point) : S.Keeps (Task.interrupt p : Work Unit) st fun _ st' => S.crowded ∨ st' = st :=
  ⟨fun _ => Task.upholds_interrupt.mpr fun _ h _ _ => h.2⟩

theorem asks {f : State → α} (h : P (f st) st) : S.Keeps (Task.asks f) st P :=
  ⟨fun _ => Task.upholds_asks.mpr fun _ ha => Except.ok.inj ha ▸ h⟩

theorem ofExcept {r : Except Fault α} (h : ∀ a, r = .ok a → P a st) : S.Keeps (Task.ofExcept r) st P :=
  ⟨fun _ => Task.upholds_ofExcept.mpr h⟩

theorem update {P : Unit → State → Prop} {f : State → State} (h : S.Step st (f st)) (hP : P () (f st)) :
    S.Keeps (Task.update f : Work Unit) st P :=
  ⟨fun _ => Task.upholds_update.mpr ⟨f st, rfl, h, fun _ _ => hP⟩⟩

theorem atomically {f : State → Except Fault (α × State)} (h : ∀ a st', f st = .ok (a, st') → S.Step st st' ∧ P a st') :
    S.Keeps (Task.atomically f) st P := by
  refine ⟨fun _ => Task.upholds_atomically (fun a st' hok => ?_) fun _ _ _ h => nomatch h⟩
  refine ⟨st', rfl, (h a st' hok).1, fun b hb => ?_⟩
  cases hb
  exact (h a st' hok).2

/-- **A statement** that stays within the scope; what it gives is to hold whatever others do at the pause behind it. -/
theorem statement {f : Store → Except StoreFault (α × Store)}
    (h : ∀ a db, f st.store = .ok (a, db) → S.Step st { st with store := db } ∧
      ∀ st', S.Sound st' → S.Evolves { st with store := db } st' → P a st') : S.Keeps (Work.statement f) st P := by
  refine ⟨fun hs => Work.upholds_statement (fun a db hok => ?_) (fun _ h => nomatch h) fun _ _ h => nomatch h⟩
  obtain ⟨hstep, hpost⟩ := h a db hok
  refine ⟨_, rfl, hstep, fun st' hrely b hb => ?_⟩
  cases hb
  exact hpost st' (hrely.1 (hstep hs).1).1 (hrely.1 (hstep hs).1).2

theorem query {f : Store → α} (h : ∀ st', S.Evolves st st' → P (f st.store) st') : S.Keeps (Work.query f) st P := by
  refine statement fun a db hok => ?_
  cases hok
  exact ⟨Step.refl st, fun st' _ hev => h st' hev⟩

/-- **One part for each of a list**, each given what holds throughout. -/
theorem mapM {f : α → Work β} {I : State → Prop} (hI : ∀ st st', S.Evolves st st' → I st → I st') :
    ∀ (as : List α) {st : State}, (∀ a ∈ as, ∀ st, S.Sound st → I st → S.Keeps (f a) st fun _ _ => True) → S.Sound st →
      I st → S.Keeps (as.mapM f) st fun _ _ => True
  | [], _, _, _, _ => by rw [List.mapM_nil]; exact pure trivial
  | a :: rest, st, hf, hs, hi => by
    rw [List.mapM_cons]
    refine (hf a List.mem_cons_self st hs hi).bind fun b st' hs' hev _ => ?_
    refine (mapM hI rest (fun a ha => hf a (List.mem_cons_of_mem _ ha)) hs' (hI _ _ hev hi)).bind fun bs _ _ _ _ => ?_
    exact pure trivial

theorem forM {f : α → Work PUnit} {I : State → Prop} (hI : ∀ st st', S.Evolves st st' → I st → I st') :
    ∀ (as : List α) {st : State}, (∀ a ∈ as, ∀ st, S.Sound st → I st → S.Keeps (f a) st fun _ _ => True) → S.Sound st →
      I st → S.Keeps (as.forM f) st fun _ _ => True
  | [], _, _, _, _ => pure trivial
  | a :: rest, st, hf, hs, hi => by
    show S.Keeps (f a >>= fun _ => rest.forM f) st _
    refine (hf a List.mem_cons_self st hs hi).bind fun _ st' hs' hev _ => ?_
    exact forM hI rest (fun a ha => hf a (List.mem_cons_of_mem _ ha)) hs' (hI _ _ hev hi)

/-! ## Runs -/

/-- **Work that is run alone** takes a sound state to a sound one, within its scope. -/
theorem step_run (h : S.Keeps t st P) : S.Step st (t.run st).2 := by
  intro hs
  obtain ⟨st', hst', -, -, hsound, hev⟩ := (h.evolved hs).run (c := S.terms) Others.refl
  change st' = (t.run st).2 at hst'
  rw [← hst']
  exact ⟨hsound, hev⟩

end Keeps

/-- **Work side by side**, each part within the scope of a crowd, stays within it. -/
theorem step_interleave {ι : Type} [DecidableEq ι] (hcrowded : S.crowded) {ts : ι → Work α} (turns : List ι)
    (h : ∀ i st', S.Sound st' → S.Evolves st st' → S.Keeps (ts i) st' fun _ _ => True) :
    S.Step st (Task.interleave turns ts st).2 := by
  intro hs
  have hwaits (i : ι) : (ts i).Waits (Task.termsOf id (fun _ => S.Others) (fun _ => S.Step) i)
      ((fun _ _ _ => True : ι → Except Fault α → State → Prop) i) st := fun st' hothers =>
    Task.Upholds.mono (fun _ _ _ => trivial) ((h i st' (hothers.1 hs).1 (hothers.1 hs).2).upholds (hothers.1 hs).1)
  obtain ⟨st', hst', hpath, -⟩ := Task.interleave_upholds
    (fun _ _ _ _ hr hr' => ⟨hr.1.trans hr'.1, .inl hcrowded⟩) (fun _ => Others.refl)
    (fun _ _ _ _ _ hg => ⟨hg, .inl hcrowded⟩) (fun _ _ _ _ hpost _ => hpost) turns hwaits
  change st' = (Task.interleave turns ts st).2 at hst'
  rw [← hst']
  have hstep : S.Step st st' := by
    clear hst'
    induction hpath with
    | refl => exact Step.refl st
    | tail _ hg ih => exact ih.trans hg.choose_spec.2
  exact hstep hs

end Scope

end Switchboard
