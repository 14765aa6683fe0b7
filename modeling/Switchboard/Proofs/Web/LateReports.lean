import Switchboard.Proofs.Service.LateReports
import Switchboard.Proofs.Web.Chains
/-!
# Attempts that are past

The attempts of a segment are numbered upwards, and no write of its row takes a number back: so an attempt that is past is
past for good, whatever requests are served meanwhile.  A report about it may wait at its pauses as long as it likes and is
passed over all the same (`late_reports_passed_over`).
-/
namespace Switchboard

open Segment (Act Deed)
open Store (Chained chainOf)

/-! ## The numbers of attempts -/

namespace Segment

/-- **Who answers is one of the attempt's legs.**  Where every join is that of a leg of the attempt whose number it carries,
or of the current one, the leg that has answered is one of the current attempt. -/
theorem attemptOf_answered (attemptOf : String → Int) : ∀ (acts : List Act) (s : Segment),
    (∀ leg, s.scratch.answeredLeg = some leg → attemptOf leg = s.scratch.attemptSeq) →
    (∀ pre leg seq now post, acts = pre ++ .agentJoins leg seq now :: post →
      attemptOf leg = seq.getD (s.run pre).scratch.attemptSeq) →
      ∀ leg, (s.run acts).scratch.answeredLeg = some leg → attemptOf leg = (s.run acts).scratch.attemptSeq
  | [], _, hs, _ => hs
  | a :: acts, s, hs, hjoins => by
    refine attemptOf_answered attemptOf acts (s.after a) (fun leg hleg => ?_) fun pre leg seq now post hacts =>
      hjoins (a :: pre) leg seq now post (by rw [hacts]; rfl)
    cases ha : a.isStart with
    | true =>
      cases a with
      | start => cases hleg
      | _ => cases ha
    | false =>
      rw [after_attemptSeq s a ha]
      cases hanswered : s.scratch.answeredLeg with
      | some l =>
        rw [after_answeredLeg s a ha hanswered] at hleg
        exact hs leg (hanswered.trans hleg)
      | none =>
        obtain ⟨seq, now, rfl, ho, -⟩ := answeredLeg_of_after ha hanswered hleg
        have hown := hjoins [] leg seq now acts rfl
        cases seq with
        | none => exact hown
        | some n =>
          rw [Scratch.isOther, Option.any_some, bne_eq_false_iff_eq] at ho
          exact hown.trans ho

end Segment

/-! ## The row of a segment -/

namespace Store

variable {db : Store} {root : String} {number : Int} {s t : Segment}

/-- A row of a call holds a segment. -/
def Records (db : Store) (root : String) (number : Int) (s : Segment) : Prop :=
  ∃ r ∈ chainOf root db, r.segment.number = number ∧ r.read = .ok s

/-- **A number of a chain is that of one row.** -/
theorem Chain.eq_of_number {rows : List CallRow} {a r : CallRow} (h : Chain root rows) (hr : r ∈ rows) (ha : a ∈ rows)
    (hsame : a.segment.number = r.segment.number) : a = r := by
  obtain ⟨i, hi⟩ := List.getElem?_of_mem hr
  obtain ⟨j, hj⟩ := List.getElem?_of_mem ha
  have hij : j = i := by
    have := h.number_of_getElem? hi
    have := h.number_of_getElem? hj
    omega
  rw [hij, hi] at hj
  exact (Option.some.inj hj).symm

/-- **A row is the one that is found** by its call and number. -/
theorem Chained.segmentRow (hchained : Chained db) {r : CallRow} (hr : r ∈ chainOf root db) :
    db.segmentRow root r.segment.number none = some r := by
  obtain ⟨hmem, hroot⟩ := mem_chainOf.1 hr
  cases hfind : db.segmentRow root r.segment.number none with
  | none =>
    have := List.find?_eq_none.1 hfind r hmem
    simp [hroot, ownedBy] at this
  | some a =>
    have ha := List.find?_some hfind
    simp only [Bool.and_eq_true, decide_eq_true_eq] at ha
    rw [(hchained root).eq_of_number hr (mem_chainOf.2 ⟨List.mem_of_find?_eq_some hfind, ha.1.1⟩) ha.1.2]

theorem Records.segmentRow (hchained : Chained db) (h : db.Records root number s) :
    ∃ r, db.segmentRow root number none = some r ∧ r.read = .ok s := by
  obtain ⟨r, hr, rfl, hread⟩ := h
  exact ⟨r, hchained.segmentRow hr, hread⟩

theorem Records.eq (hchained : Chained db) (h : db.Records root number s) (h' : db.Records root number t) : t = s := by
  obtain ⟨r, hr, hnumber, hread⟩ := h
  obtain ⟨a, ha, hnumber', hread'⟩ := h'
  rw [(hchained root).eq_of_number hr ha (hnumber'.trans hnumber.symm), hread] at hread'
  exact (Except.ok.inj hread').symm

/-- **A segment on record is held**, as far as its number and its duration are in the range of their columns. -/
theorem Records.holds (hidentified : db.Identified) (hchained : Chained db) (h : db.Records s.rootSid s.number s)
    (hfits : fits s.number = true) (hrange : s.duration.all fits = true) : db.Holds s := by
  have hstored := h.segmentRow hchained
  obtain ⟨r, hr, -, -⟩ := h
  exact ⟨hidentified.keyed, hfits, hrange, Naming.root_of_unmarked ((hchained s.rootSid).named r hr).2, hstored⟩

theorem mem_chainOf_of_latest {tenant : Option String} {row : CallRow} (h : db.latestRow root tenant = some row) :
    row ∈ chainOf root db := by
  obtain ⟨hmem, hkey⟩ := List.mem_filter.1 (mem_of_newest h)
  simp only [Bool.and_eq_true, decide_eq_true_eq] at hkey
  exact mem_chainOf.2 ⟨hmem, hkey.1.1⟩

/-- **The newest row of a call** holds a segment of the call. -/
theorem records_of_latest {tenant : Option String} {row : CallRow} (h : db.latestRow root tenant = some row)
    (hread : row.read = .ok s) : root = s.rootSid ∧ db.Records root s.number s := by
  have hmem := mem_chainOf_of_latest h
  have hkey := CallRow.key_of_read hread
  exact ⟨(mem_chainOf.1 hmem).2.symm.trans (congrArg Segment.Key.rootSid hkey),
    row, hmem, congrArg Segment.Key.number hkey, hread⟩

end Store

namespace State

variable {st st' : State} {sid : String} {number : Int} {P : Segment → Prop}

/-- The segment on record is of a kind. -/
def Shows (st : State) (sid : String) (number : Int) (P : Segment → Prop) : Prop :=
  ∃ s, st.store.Records (Naming.root sid) number s ∧ P s

/-- **Whatever goes on, a segment stays on record**, and keeps what no write takes back. -/
theorem Links.shows (h : st.Links st') (hst : st.store.Identified) (hP : CallRow.Lasting P) (hs : st.Shows sid number P) :
    st'.Shows sid number P := by
  obtain ⟨s, ⟨r, hr, hnumber, hread⟩, hs⟩ := hs
  obtain ⟨hmem, hroot⟩ := Store.mem_chainOf.1 hr
  obtain ⟨-, hev⟩ := h.1 (Scope.everybody_sound hst)
  obtain ⟨a, ha, hlife, -⟩ := hev.persist r hmem
  obtain ⟨t, hat, ht⟩ := hP.writes hlife hread hs
  have hkey := hlife.key
  exact ⟨t, ⟨a, Store.mem_chainOf.2 ⟨ha, (congrArg Segment.Key.rootSid hkey).trans hroot⟩,
    (congrArg Segment.Key.number hkey).trans hnumber, hat⟩, ht⟩

theorem shows_of_links (h : Relation.ReflTransGen State.Links st st') (hst : st.store.Identified ∧ Chained st.store)
    (hP : CallRow.Lasting P) (hs : st.Shows sid number P) : st'.Shows sid number P := by
  induction h with
  | refl => exact hs
  | tail hrun hstep ih => exact hstep.shows (chained_of_links hrun hst).1 hP ih

end State

/-! ## Attempts that are past -/

namespace State

/-- A later attempt of a segment was started than that of a number. -/
def Past (st : State) (sid : String) (number seq : Int) : Prop :=
  ∃ s, st.store.Records (Naming.root sid) number s ∧ seq < s.scratch.attemptSeq

/-- The agent whom a report says to have left has not answered the segment. -/
def Unanswered (st : State) (sid : String) (number : Int) (r : Report) : Prop :=
  ∀ s, st.store.Records (Naming.root sid) number s → ∀ leg, r.leaver? sid = some leg → s.scratch.answeredLeg ≠ some leg

/-- What goes on beside a report: anything that the service does, as far as the agent who left does not answer anew. -/
def Besides (sid : String) (number : Int) (r : Report) (st st' : State) : Prop :=
  Relation.ReflTransGen State.Links st st' ∧ (st.Unanswered sid number r → st'.Unanswered sid number r)

variable {st st' : State} {sid : String} {number seq : Int}

/-- **What is past stays past**, whatever goes on. -/
theorem past_of_links (h : Relation.ReflTransGen State.Links st st') (hst : st.store.Identified ∧ Chained st.store)
    (hpast : st.Past sid number seq) : st'.Past sid number seq :=
  shows_of_links h hst (CallRow.lasting_of_attemptSeq_le Int.lt_of_lt_of_le) hpast

theorem past_of_proceeds (h : Relation.ReflTransGen State.Proceeds st st')
    (hst : st.store.Identified ∧ Chained st.store) (hpast : st.Past sid number seq) :
    (st'.store.Identified ∧ Chained st'.store) ∧ st'.Past sid number seq :=
  have h := links_of_proceeds h hst
  ⟨chained_of_links h hst, past_of_links h hst hpast⟩

/-- What is known of a segment while a report about an attempt that is past is served. -/
def watch (sid : String) (number seq : Int) (r : Report) : Watch where
  rely := Besides sid number r
  inv st := (st.store.Identified ∧ Chained st.store) ∧ st.Past sid number seq ∧ st.Unanswered sid number r
  lasts h hrely := ⟨chained_of_links hrely.1 h.1, past_of_links hrely.1 h.1 h.2.1, hrely.2 h.2.2⟩

theorem watch_reads (r : Report) :
    (watch sid number seq r).Reads sid number fun s => s.PassesOver sid seq r := by
  rintro st ⟨hst, ⟨s, hs, hlt⟩, hunanswered⟩
  obtain ⟨row, hrow, hread⟩ := hs.segmentRow hst.2
  exact ⟨row, s, hrow, hread, (Int.ne_of_lt hlt).symm, hunanswered s hs⟩

end State

/-- **Reports about other attempts are passed over.**  Of whatever is reported about an attempt other than the one that a
segment is at: the row stays as it is with its revision, no decision is given, no leg is placed, nobody is redirected, and
the one request there may be ends the leg that was placed late for the other attempt.  This is so for every state that holds
the segment and a report that is served alone.  An attempt of a call that is past is past for good, and a report about one
that is past is passed over at whatever pace it is served beside other requests.  The leave of an agent is looked at without
its number: a leg of another attempt than the current one has not answered, in whatever run of acts, where legs join the
attempts that they belong to. -/
theorem late_reports_passed_over (r : Report) (sid : String) (number seq : Int) :
    (∀ (st : State) (row : CallRow) (s : Segment), st.store.segmentRow (Naming.root sid) number none = some row →
      row.read = .ok s → s.PassesOver sid seq r →
        (st.isUp = true → Store.fits number = true → (r.serve sid number seq).run st = (.ok none, st.hangUp r.late)) ∧
        ((r.serve sid number seq).run st = (.ok none, st.hangUp r.late) ∨
          ∃ e, (r.serve sid number seq).run st = (.error e, st))) ∧
    (∀ st₀ st : State, st₀.store.calls = [] → Relation.ReflTransGen State.Proceeds st₀ st → st.Past sid number seq →
      (∀ st', Relation.ReflTransGen State.Proceeds st st' → st'.Past sid number seq) ∧
      (st.Unanswered sid number r →
        (r.serve sid number seq).Upholds
          (State.terms (State.Besides sid number r) fun st st' => st' = st ∨ st' = st.hangUp r.late)
          (fun res _ => res = .ok none ∨ ∃ e, res = .error e) st)) ∧
    (∀ (s : Segment) (acts : List Act) (attemptOf : String → Int), s.scratch.answeredLeg = none →
      (∀ pre leg seq now post, acts = pre ++ .agentJoins leg seq now :: post →
        attemptOf leg = seq.getD (s.run pre).scratch.attemptSeq) →
        ∀ leg, attemptOf leg ≠ (s.run acts).scratch.attemptSeq → (s.run acts).scratch.answeredLeg ≠ some leg) := by
  refine ⟨fun st row s hrow hread hpasses => r.run_of_other hrow hread hpasses, fun st₀ st hnone h hpast => ?_,
    fun s acts attemptOf hs hjoins leg hother hleg => ?_⟩
  · have hst := State.chained_of_proceeds hnone h
    refine ⟨fun st' h' => (State.past_of_proceeds h' hst hpast).2, fun hunanswered => ?_⟩
    have hinv : (State.watch sid number seq r).inv st := ⟨hst, hpast, hunanswered⟩
    exact Task.Upholds.mono (fun _ _ hover => hover.imp And.left And.left) (r.upholds (State.watch_reads r) hinv)
  · exact hother (Segment.attemptOf_answered attemptOf acts s (fun l hl => by rw [hs] at hl; cases hl) hjoins leg hleg)

/-- The flow of a call is asked for once more while a leg is placed: the leg comes late, and is asked to be ended. -/
theorem late_leg_ended_behind_a_replay :
    let target : DialTarget := ⟨.phone, "+15557654321", "+15557654321", none⟩
    let dial : Json :=
      .arr [.obj [("id", .str "d"), ("type", .str "dial"), ("config", .obj [("destination", .str "+15557654321")])]]
    let st₀ := { State.holding [] with
      store := { Store.empty with
        flows := [⟨"F", "T", "Main", none, true, false, .ok dial, .utc 0, .utc 0⟩]
        lines := [⟨"L", "T", "+15550199", none, true, true, some "F"⟩] }
      settings := { (State.holding []).settings with authToken := "secret" } }
    let incoming : Web.Request := ⟨.post, "/voice/incoming/T/L", "",
      [("host", "localhost"), ("content-type", "application/x-www-form-urlencoded")], "CallSid=CA1"⟩
    let replay : Web.Request := { incoming with path := "/voice/flow/T/L", query := "step=0" }
    let st := ((Web.serve replay).run ((Web.serve incoming).run st₀).2).2
    let r : Report := .placed "CAleg1" target
    let acts : List Act := [.start .none [target] none 30 false, .start .none [target] none 30 false,
      .agentJoins "CAleg2" (some 2) 0]
    st₀.store.calls = [] ∧ Relation.ReflTransGen State.Proceeds st₀ st ∧ st.Past "CA1" 0 1 ∧
      (r.serve "CA1" 0 1).run st = (.ok none, st.hangUp ["CAleg1"]) ∧
      (∀ st', Relation.ReflTransGen State.Proceeds st st' → st'.Past "CA1" 0 1) ∧
      (r.serve "CA1" 0 1).Upholds
        (State.terms (State.Besides "CA1" 0 r) fun st st' => st' = st ∨ st' = st.hangUp ["CAleg1"])
        (fun res _ => res = .ok none ∨ ∃ e, res = .error e) st ∧
      ((Segment.opened "T" "CA1" "CA1" 0 "inbound" .ringing).run acts).scratch.answeredLeg ≠ some "CAleg1" := by
  intro target dial st₀ incoming replay st r acts
  have hproceeds : Relation.ReflTransGen State.Proceeds st₀ st :=
    .tail (.single (.alone st₀ (.request incoming (by decide +kernel)))) (.alone _ (.request replay (by decide +kernel)))
  have hnone : st₀.store.calls = [] := rfl
  obtain ⟨halone, hbeside, hlegs⟩ := late_reports_passed_over r "CA1" 0 1
  have hup : st.isUp = true := by decide +kernel
  have hfound : ((Store.chainOf "CA1" st.store).map fun row =>
      (row.segment.number, row.read.toOption.map fun s => s.scratch.attemptSeq)) = [(0, some 2)] := by
    decide +kernel
  obtain ⟨row, hrows, hrow⟩ := List.map_eq_singleton_iff.1 hfound
  obtain ⟨hnumber, hseq⟩ := Prod.mk.inj hrow
  have hst := State.chained_of_proceeds hnone hproceeds
  have hmem : row ∈ Store.chainOf "CA1" st.store := hrows ▸ List.mem_singleton_self row
  obtain ⟨s, hread⟩ := (hst.2 "CA1").legible row hmem
  rw [hread] at hseq
  have htwo : s.scratch.attemptSeq = 2 := Option.some.inj hseq
  have hrecords : st.store.Records (Naming.root "CA1") 0 s := ⟨row, hmem, hnumber, hread⟩
  have hpast : st.Past "CA1" 0 1 := ⟨s, hrecords, by omega⟩
  have hpasses : s.PassesOver "CA1" 1 r := ⟨by omega, fun _ h => nomatch h⟩
  obtain ⟨row', hrow', hread'⟩ := hrecords.segmentRow hst.2
  obtain ⟨hlast, hover⟩ := hbeside st₀ st hnone hproceeds hpast
  refine ⟨hnone, hproceeds, hpast, (halone st row' s hrow' hread' hpasses).1 hup rfl, hlast,
    hover (fun _ _ _ h => nomatch h), ?_⟩
  refine hlegs _ acts (fun leg => if leg = "CAleg2" then 2 else 1) rfl (fun pre leg seq now post hacts => ?_) "CAleg1"
    (by decide)
  rcases pre with - | ⟨a, - | ⟨b, - | ⟨d, pre⟩⟩⟩ <;>
    simp only [acts, List.nil_append, List.cons_append, List.cons.injEq, reduceCtorEq, false_and, and_false] at hacts
  · obtain ⟨-, -, hjoin, -⟩ := hacts
    cases hjoin
    rfl
  · exact absurd hacts.2.2.2 (by simp)

end Switchboard
