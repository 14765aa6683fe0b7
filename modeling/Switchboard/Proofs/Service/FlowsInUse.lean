import Mathlib.Data.List.Induction
import Switchboard.Proofs.Service.Asides
/-!
# Flows in use

A flow that lines run is not deleted: its lines are counted first.  Counting and deleting are two statements, and requests
that point lines at the flow may have their turns between them.  Whether the flow is deleted is decided by the count; the
lines that lose it are those that were pointed at it behind the count and at nothing else since
(`FlowInUse.lost_by_lines_pointed_since_the_count`).
-/
namespace Switchboard

open Store (sameId LineRow.runs)

/-! ## A deleted flow -/

namespace Store

variable {tenant id : String} {db : Store}

theorem flowRow_deleteFlow (tenant id : String) (db : Store) : (db.deleteFlow tenant id).flowRow tenant id = none := by
  unfold deleteFlow
  split
  · assumption
  · rw [flowRow, List.find?_eq_none]
    intro g hg hsame
    have hkept := (List.mem_filter.mp hg).2
    rw [hsame] at hkept
    cases hkept

theorem lines_deleteFlow {f : FlowRow} (h : db.flowRow tenant id = some f) : (db.deleteFlow tenant id).lines =
    db.lines.map fun l => if LineRow.runs id l then { l with flowId := none } else l := by
  rw [deleteFlow, h]

end Store

/-! ## Statements turn by turn -/

namespace Work

variable {α β : Type} {st : State}

/-- **A turn takes a statement**, and the task waits behind it. -/
theorem advance_statement_bind {f : Store → Except StoreFault (α × Store)} {k : α → Work β} {a : α} {db : Store}
    (hup : st.isUp = true) (h : f st.store = .ok (a, db)) :
    (statement f >>= k).advance st = (k a, { st with store := db }) := by
  unfold statement
  rw [bind_assoc]
  exact Task.advance_atomically_bind (by rw [if_pos hup, h])

theorem advance_query_bind (f : Store → α) (k : α → Work β) (hup : st.isUp = true) :
    (query f >>= k).advance st = (k (f st.store), st) := advance_statement_bind hup rfl

/-! ## Deleting a flow -/

variable {tenant id : String}

/-- What is left of deleting a flow once its lines are counted. -/
def deleteCounted (tenant id : String) (lines : Nat) : Work Unit :=
  if lines ≠ 0 then Task.fail (.flowInUse lines) else statement fun db => .ok ((), db.deleteFlow tenant id)

/-- What is left of deleting a flow that was found. -/
def deleteFound (tenant id : String) : Work Unit := query (Store.lineCount id) >>= deleteCounted tenant id

theorem showFlow_of_steps {f : FlowRow} {doc : Json} (h : f.steps = .ok doc) : ∃ shown, showFlow f = pure shown := by
  unfold showFlow flowFields storedSteps
  rw [h]
  exact ⟨_, rfl⟩

/-- **First the flow is looked up.** -/
theorem advance_deleteFlow {f : FlowRow} {doc : Json} (hup : st.isUp = true) (hfound : st.store.flowRow tenant id = some f)
    (hdoc : f.steps = .ok doc) : (deleteFlow tenant id).advance st = (deleteFound tenant id, st) := by
  unfold deleteFlow hasFlow flow?
  rw [bind_assoc, bind_assoc, advance_query_bind _ _ hup, hfound]
  obtain ⟨shown, hshown⟩ := showFlow_of_steps hdoc
  unfold showFlow?
  dsimp only
  rw [hshown]
  rfl

/-- **Then its lines are counted.** -/
theorem advance_deleteFound (hup : st.isUp = true) :
    (deleteFound tenant id).advance st = (deleteCounted tenant id (st.store.lineCount id), st) :=
  advance_query_bind _ _ hup

/-- **Then it is deleted**, if no line was counted. -/
theorem advance_deleteCounted (hup : st.isUp = true) (lines : Nat) :
    (deleteCounted tenant id lines).advance st =
      if lines = 0 then (.done (), { st with store := st.store.deleteFlow tenant id })
      else (.fail (.flowInUse lines), st) := by
  unfold deleteCounted
  by_cases h : lines = 0
  · rw [if_neg (not_not.mpr h), if_pos h, ← bind_pure (statement _), advance_statement_bind hup rfl]
    rfl
  · rw [if_pos h, if_neg h]
    rfl

end Work

/-! ## Pointing lines at flows -/

/-- A request that points a line at a flow, or at none. -/
structure Pointing where
  tenant : String
  line : String
  flow : Option String

namespace Pointing

def task (p : Pointing) : Work Unit := discard (Work.assignFlow p.tenant p.line p.flow)

/-- Whether a request is about a line. -/
def isAbout (p : Pointing) (l : LineRow) : Bool := sameId l.id p.line && sameId l.tenantId p.tenant

/-- What a request makes of a line. -/
def point (p : Pointing) (l : LineRow) : LineRow := if p.isAbout l then { l with flowId := p.flow } else l

/-- What some requests make of a line, one after another. -/
def pointAll (ps : List Pointing) (l : LineRow) : LineRow := ps.foldl (fun l p => p.point l) l

theorem isAbout_point (p q : Pointing) (l : LineRow) : p.isAbout (q.point l) = p.isAbout l := by
  unfold point
  split <;> rfl

theorem isAbout_pointAll (p : Pointing) : ∀ (ps : List Pointing) (l : LineRow), p.isAbout (pointAll ps l) = p.isAbout l
  | [], _ => rfl
  | q :: ps, l => (isAbout_pointAll p ps (q.point l)).trans (isAbout_point p q l)

theorem pointAll_append (ps qs : List Pointing) (l : LineRow) : pointAll (ps ++ qs) l = pointAll qs (pointAll ps l) :=
  List.foldl_append

theorem pointAll_of_others {ps : List Pointing} {l : LineRow} (h : ∀ p ∈ ps, p.isAbout l = false) : pointAll ps l = l := by
  induction ps with
  | nil => rfl
  | cons p ps ih =>
    obtain ⟨hp, hps⟩ := List.forall_mem_cons.mp h
    rw [pointAll, List.foldl_cons, point, if_neg (Bool.eq_false_iff.mp hp)]
    exact ih hps

/-- **The last request about a line decides what it runs.** -/
theorem runs_pointAll {id : String} {l : LineRow} (hl : LineRow.runs id l = false) (ps : List Pointing) :
    LineRow.runs id (pointAll ps l) = true ↔ ∃ earlier p later, ps = earlier ++ p :: later ∧ p.isAbout l = true ∧
      p.flow.any (sameId id) = true ∧ ∀ q ∈ later, q.isAbout l = false := by
  constructor
  · intro h
    -- From the last request backwards: it decides, or it is about another line and the ones before it do.
    induction ps using List.reverseRecOn with
    | nil => exact absurd (hl.symm.trans h) Bool.false_ne_true
    | append_singleton ps p ih =>
      rw [pointAll_append] at h
      change LineRow.runs id (p.point (pointAll ps l)) = true at h
      rw [point, isAbout_pointAll] at h
      split at h
      · rename_i hp
        exact ⟨ps, p, [], rfl, hp, h, fun _ h => nomatch h⟩
      · rename_i hp
        obtain ⟨earlier, q, later, rfl, hq, hflow, hlater⟩ := ih h
        refine ⟨earlier, q, later ++ [p], by simp, hq, hflow, fun r hr => ?_⟩
        rcases List.mem_append.mp hr with hr | hr
        · exact hlater r hr
        · rw [List.mem_singleton.mp hr]
          exact Bool.eq_false_iff.mpr hp
  · rintro ⟨earlier, p, later, rfl, hp, hflow, hlater⟩
    rw [pointAll_append]
    change LineRow.runs id (pointAll later (p.point (pointAll earlier l))) = true
    rw [pointAll_of_others fun q hq => by rw [isAbout_point, isAbout_pointAll]; exact hlater q hq, point, isAbout_pointAll,
      if_pos hp]
    exact hflow

end Pointing

/-- A state whose lines some requests have pointed. -/
def State.pointed (ps : List Pointing) (st : State) : State :=
  { st with store := { st.store with lines := st.store.lines.map (Pointing.pointAll ps) } }

theorem State.pointed_nil (st : State) : st.pointed [] = st := by
  unfold State.pointed
  rw [show Pointing.pointAll [] = id from rfl, List.map_id]

theorem State.pointed_pointed (ps qs : List Pointing) (st : State) : (st.pointed ps).pointed qs = st.pointed (ps ++ qs) := by
  have h : (st.store.lines.map (Pointing.pointAll ps)).map (Pointing.pointAll qs) =
      st.store.lines.map (Pointing.pointAll (ps ++ qs)) :=
    List.map_map.trans (List.map_congr_left fun l _ => (Pointing.pointAll_append ps qs l).symm)
  unfold State.pointed
  dsimp only
  rw [h]

namespace Pointing

/-- Work that points a line as a request asks, or changes nothing, whatever others do meanwhile. -/
def Does {α : Type} (p : Pointing) (t : Work α) : Prop :=
  ∀ st, t.Upholds (State.terms (fun _ _ => True) fun st st' => st' = st ∨ st' = st.pointed [p]) (fun _ _ => True) st

namespace Does

variable {α β : Type} {p : Pointing}

theorem pure (a : α) : p.Does (Pure.pure a) := fun _ => Task.upholds_pure.mpr trivial

theorem fail (e : Fault) : p.Does (Task.fail e : Work α) := fun _ => Task.upholds_fail.mpr trivial

theorem ofExcept (r : Except Fault α) : p.Does (Task.ofExcept r) := fun _ => Task.upholds_ofExcept.mpr trivial

theorem bind {t : Work α} {f : α → Work β} (ht : p.Does t) (hf : ∀ a, p.Does (f a)) : p.Does (t >>= f) :=
  fun st => (ht st).bind (fun a st' _ => hf a st') fun _ _ _ => trivial

theorem statement {f : Store → Except StoreFault (α × Store)}
    (hf : ∀ (st : State) a db, f st.store = .ok (a, db) →
      { st with store := db } = st ∨ { st with store := db } = st.pointed [p]) : p.Does (Work.statement f) :=
  fun st => Work.upholds_statement (fun a db h => ⟨_, rfl, hf st a db h, fun _ _ => trivial⟩) trivial fun _ => trivial

theorem hasFlow (tenant id : String) : p.Does (Work.hasFlow tenant id) := by
  have hquery : p.Does (Work.query (Store.flowRow tenant id)) := statement fun st a db h => by
    cases h
    exact .inl rfl
  refine (hquery.bind fun row => ?_).bind fun shown => pure _
  cases row with
  | none => exact pure _
  | some f => exact (((ofExcept _).bind fun _ => pure _).bind fun _ => pure _).bind fun _ => pure _

end Does

/-- **A request points its line, or does nothing.** -/
theorem does_task (p : Pointing) : p.Does p.task := by
  have hwrite : p.Does (Work.statement (Store.assignFlow p.tenant p.line p.flow)) := Does.statement fun st a db h => by
    unfold Store.assignFlow at h
    split at h
    · cases h
      exact .inl rfl
    · split at h
      · cases h
        exact .inr rfl
      · cases h
  refine Does.bind ?_ fun _ => Does.pure ()
  unfold Work.assignFlow
  extract_lets rest
  have hrest (known : Bool) : p.Does (rest known) := by
    dsimp only [rest]
    split
    · exact Does.fail _
    · refine hwrite.bind fun row => ?_
      cases row with
      | none => exact Does.fail _
      | some l => exact Does.pure _
  split
  · exact hrest true
  · exact (Does.hasFlow p.tenant _).bind hrest

end Pointing

/-! ## Deleting a flow among requests that point lines -/

namespace FlowInUse

variable {ι : Type} {tenant id : String} {pointings : ι → Pointing} {ts : Option ι → Work Unit} {st : State}

/-- One request deletes a flow; the others point lines. -/
def contenders (tenant id : String) (pointings : ι → Pointing) : Option ι → Work Unit
  | none => Work.deleteFlow tenant id
  | some i => (pointings i).task

/-- What is left of requests that point lines: they still do that and nothing else. -/
def Remain (pointings : ι → Pointing) (ts : Option ι → Work Unit) : Prop := ∀ i, (pointings i).Does (ts (some i))

theorem remain_contenders (tenant id : String) (pointings : ι → Pointing) :
    Remain pointings (contenders tenant id pointings) :=
  fun i => (pointings i).does_task

variable [DecidableEq ι]

/-- **While only lines are pointed**, the lines are all that changes. -/
theorem Remain.interleave (h : Remain pointings ts) (turns : List ι) (st : State) :
    (∃ written ⊆ turns.map pointings, (Task.interleave (turns.map some) ts st).2 = st.pointed written) ∧
      Remain pointings (Task.interleave (turns.map some) ts st).1 := by
  obtain ⟨hts, hst⟩ := Task.interleave_map (f := some) (fun _ _ => Option.some.inj) turns ts st
  have hwaits (i : ι) : (ts (some i)).Waits (Task.termsOf id (fun _ _ _ => True)
      (fun i st st' => st' = st ∨ st' = st.pointed [pointings i]) i) (fun _ _ => True) st := fun st' _ => h i st'
  obtain ⟨st', hst', hpath, hwaits⟩ := Task.interleave_upholds (fun _ _ _ _ _ _ => trivial) (fun _ _ => trivial)
    (fun _ _ _ _ _ _ => trivial) (fun _ _ _ _ _ _ => trivial) turns hwaits
  refine ⟨?_, fun i st => ?_⟩
  · rw [hst]
    change ∃ written ⊆ turns.map pointings, (Task.interleave turns (fun i => ts (some i)) (id st)).2 = st.pointed written
    rw [← hst']
    clear hst' hwaits
    -- Along the changes of the requests, those that have been written so far account for the lines.
    induction hpath with
    | refl => exact ⟨[], List.nil_subset _, st.pointed_nil.symm⟩
    | tail _ hg ih =>
      obtain ⟨written, hsub, rfl⟩ := ih
      obtain ⟨i, hi, rfl | rfl⟩ := hg
      · exact ⟨written, hsub, rfl⟩
      · refine ⟨written ++ [pointings i], List.append_subset.mpr ⟨hsub, ?_⟩, st.pointed_pointed written [pointings i]⟩
        exact List.cons_subset.mpr ⟨List.mem_map_of_mem hi, List.nil_subset _⟩
  · have hi : (Task.interleave (turns.map some) ts _).1 (some i) = _ := congrFun hts i
    rw [hi]
    exact hwaits i st trivial

theorem Remain.update_none (h : Remain pointings ts) (t : Work Unit) : Remain pointings (Function.update ts none t) := by
  intro i
  rw [Function.update_of_ne (Option.some_ne_none i)]
  exact h i

theorem interleave_none (turns : List ι) (ts : Option ι → Work Unit) (st : State) :
    (Task.interleave (turns.map some) ts st).1 none = ts none :=
  Task.interleave_of_not_mem (by simp) ts st

/-- The turns until the lines of the flow are counted: the flow is looked up once. -/
def untilCount (before first : List ι) : List (Option ι) := before.map some ++ none :: first.map some

/-- The turns until the flow is deleted: its lines are counted once. -/
def untilDelete (before first last : List ι) : List (Option ι) := untilCount before first ++ none :: last.map some

/-- **When its lines are counted**, the flow has been found, and at most lines have changed. -/
theorem untilCount_eq {f : FlowRow} {doc : Json} (pointings : ι → Pointing) (hup : st.isUp = true)
    (hfound : st.store.flowRow tenant id = some f) (hdoc : f.steps = .ok doc) (before first : List ι) :
    (∃ written, (Task.interleave (untilCount before first) (contenders tenant id pointings) st).2 = st.pointed written) ∧
      (Task.interleave (untilCount before first) (contenders tenant id pointings) st).1 none = Work.deleteFound tenant id ∧
      Remain pointings (Task.interleave (untilCount before first) (contenders tenant id pointings) st).1 := by
  obtain ⟨⟨early, -, hearly⟩, hremain⟩ := (remain_contenders tenant id pointings).interleave before st
  have hnone := interleave_none before (contenders tenant id pointings) st
  rw [untilCount, Task.interleave_append, Task.interleave, hnone, hearly]
  have hlookup : (Work.deleteFlow tenant id).advance (st.pointed early) = (Work.deleteFound tenant id, st.pointed early) :=
    Work.advance_deleteFlow hup hfound hdoc
  rw [contenders, hlookup]
  obtain ⟨⟨written, -, hwritten⟩, hremain⟩ := (hremain.update_none (Work.deleteFound tenant id)).interleave first
    (st.pointed early)
  refine ⟨⟨early ++ written, hwritten.trans (State.pointed_pointed _ _ _)⟩, ?_, hremain⟩
  rw [interleave_none, Function.update_self]

/-- **When it is deleted**, its lines have been counted, and some lines have been pointed since. -/
theorem untilDelete_eq {f : FlowRow} {doc : Json} (pointings : ι → Pointing) (hup : st.isUp = true)
    (hfound : st.store.flowRow tenant id = some f) (hdoc : f.steps = .ok doc) (before first last : List ι) :
    let counted := (Task.interleave (untilCount before first) (contenders tenant id pointings) st).2
    let deleting := Task.interleave (untilDelete before first last) (contenders tenant id pointings) st
    (∃ written ⊆ last.map pointings, deleting.2 = counted.pointed written) ∧
      deleting.1 none = Work.deleteCounted tenant id (counted.store.lineCount id) ∧ deleting.2.isUp = true ∧
      deleting.2.store.flowRow tenant id = some f := by
  obtain ⟨⟨early, hearly⟩, hnone, hremain⟩ := untilCount_eq pointings hup hfound hdoc before first
  rw [untilDelete, Task.interleave_append, Task.interleave]
  -- Only what is left of the requests when the lines are counted matters from here on.
  generalize Task.interleave (untilCount before first) (contenders tenant id pointings) st = r at hearly hnone hremain ⊢
  obtain ⟨ts, counted⟩ := r
  dsimp only at hearly hnone hremain ⊢
  subst hearly
  have hcounted : (st.pointed early).isUp = true := hup
  rw [hnone, Work.advance_deleteFound hcounted]
  generalize (st.pointed early).store.lineCount id = lines
  obtain ⟨⟨written, hsub, hwritten⟩, -⟩ :=
    (hremain.update_none (Work.deleteCounted tenant id lines)).interleave last (st.pointed early)
  refine ⟨⟨written, hsub, hwritten⟩, ?_, ?_, ?_⟩
  · rw [interleave_none, Function.update_self]
  · rw [hwritten]
    exact hup
  · rw [hwritten]
    exact hfound

/-- **A flow is lost by the lines that were pointed at it since its lines were counted.**  Among any requests that point
lines, in every order of their statements, a flow that is found is deleted exactly if no line ran it when its lines were
counted; otherwise it is refused as in use and nothing is deleted.  A line that runs the flow when it is deleted is one that
a request pointed at it behind the count and no later request pointed elsewhere; it runs no flow from then on. -/
theorem lost_by_lines_pointed_since_the_count {f : FlowRow} {doc : Json} (pointings : ι → Pointing)
    (hup : st.isUp = true) (hfound : st.store.flowRow tenant id = some f) (hdoc : f.steps = .ok doc)
    (before first last : List ι) (after : List (Option ι)) :
    let play (turns : List (Option ι)) := Task.interleave turns (contenders tenant id pointings) st
    let counted := (play (untilCount before first)).2.store
    let deleting := (play (untilDelete before first last)).2.store
    let gone := (play (untilDelete before first last ++ [none])).2.store
    let ended := ((play (untilDelete before first last ++ none :: after)).1 none).outcome?
    ∃ written ⊆ last.map pointings, deleting.lines = counted.lines.map (Pointing.pointAll written) ∧
      if counted.lineCount id = 0 then
        ended = some (.ok ()) ∧ gone.flowRow tenant id = none ∧
        gone.lines = deleting.lines.map (fun l => if LineRow.runs id l then { l with flowId := none } else l) ∧
        ∀ l ∈ counted.lines, LineRow.runs id (Pointing.pointAll written l) = true ↔
          ∃ earlier p later, written = earlier ++ p :: later ∧ p.isAbout l = true ∧ p.flow.any (sameId id) = true ∧
            ∀ q ∈ later, q.isAbout l = false
      else ended = some (.error (.flowInUse (counted.lineCount id))) ∧ gone = deleting := by
  obtain ⟨⟨written, hsub, hwritten⟩, hnone, hup', hfound'⟩ :=
    untilDelete_eq pointings hup hfound hdoc before first last
  intro play counted deleting gone ended
  have hlines : deleting.lines = counted.lines.map (Pointing.pointAll written) :=
    congrArg (fun st => st.store.lines) hwritten
  have hturn : ((play (untilDelete before first last)).1 none).advance (play (untilDelete before first last)).2 = _ :=
    (congrArg (Task.advance · _) hnone).trans (Work.advance_deleteCounted hup' _)
  have hgone : gone = _ := congrArg State.store ((Task.interleave_concat _ _ _ _).trans (congrArg Prod.snd hturn))
  have hended {r : Except Fault Unit} (h : _ = some r) : ended = some r :=
    Task.outcome?_of_advance ((congrArg (fun r => r.1.outcome?) hturn).trans h) after
  refine ⟨written, hsub, hlines, ?_⟩
  split
  · rename_i hcount
    rw [if_pos hcount] at hgone hended
    have hdeleted : gone = deleting.deleteFlow tenant id := hgone
    refine ⟨hended rfl, ?_, ?_, fun l hl => ?_⟩
    · rw [hdeleted, Store.flowRow_deleteFlow]
    · rw [hdeleted, Store.lines_deleteFlow hfound']
    · exact Pointing.runs_pointAll (Bool.eq_false_iff.mpr (List.countP_eq_zero.mp hcount l hl)) written
  · rename_i hcount
    rw [if_neg hcount] at hgone hended
    exact ⟨hended rfl, hgone⟩

/-- A tenant with a flow, and a line that runs none. -/
def spareLine : State := { State.holding [] with
  store := { Store.empty with
    flows := [⟨"F", "T", "Main", none, true, false, .ok (.arr []), .utc 0, .utc 0⟩]
    lines := [⟨"L", "T", "+15550199", none, true, true, none⟩] } }

/-- A line is pointed at the flow behind the count: it runs the flow when the flow is deleted, and then no flow. -/
theorem line_pointed_behind_the_count :
    let play (turns : List (Option Unit)) := Task.interleave turns (contenders "T" "F" fun _ => ⟨"T", "L", some "F"⟩) spareLine
    let gone := play (untilDelete [()] [] [()] ++ [none])
    (play (untilCount [()] [])).2.store.lineCount "F" = 0 ∧ (play (untilDelete [()] [] [()])).2.store.lineCount "F" = 1 ∧
      (gone.1 none).outcome? = some (.ok ()) ∧ gone.2.store.flowRow "T" "F" = none ∧
      gone.2.store.lines.map LineRow.flowId = [none] := by
  intro play gone
  have hfound : spareLine.store.flowRow "T" "F" = some ⟨"F", "T", "Main", none, true, false, .ok (.arr []), .utc 0, .utc 0⟩ :=
    List.find?_cons_of_pos (by decide +kernel)
  have hcount : (play (untilCount [()] [])).2.store.lineCount "F" = 0 ∧
      (play (untilDelete [()] [] [()])).2.store.lineCount "F" = 1 := by
    decide +kernel
  have hcleared : ((play (untilDelete [()] [] [()])).2.store.lines.map fun l =>
      if LineRow.runs "F" l then { l with flowId := none } else l).map LineRow.flowId = [none] := by
    decide +kernel
  obtain ⟨_, -, -, h⟩ := lost_by_lines_pointed_since_the_count
    (fun _ : Unit => ⟨"T", "L", some "F"⟩) rfl hfound rfl [()] [] [()] []
  rw [if_pos hcount.1] at h
  obtain ⟨hended, hgone, hlines, -⟩ := h
  exact ⟨hcount.1, hcount.2, hended, hgone, (congrArg (List.map LineRow.flowId) hlines).trans hcleared⟩

end FlowInUse

end Switchboard
