import Switchboard.Proofs.Service.Alike
import Switchboard.Proofs.Web.Resuming
/-!
# Positions are read back

A position goes out in the query of an address and comes back with the request for it.  Whoever serves the request reads
each part of the position for itself, with a default of its own.  It comes to the position that was written, where a text
that is empty counts as absent and an attempt that is absent as the first (`positions_are_read_back`).
-/
namespace Switchboard

open Web (Event Fields afterDial continueFlow flowReply)

namespace Callbacks

/-! ## The query of an address -/

/-- A text that can stand in front of a query. -/
def Plain (text : String) : Prop := '?' ∉ text.toList ∧ '#' ∉ text.toList

instance (text : String) : Decidable (Plain text) := inferInstanceAs (Decidable (_ ∧ _))

theorem Plain.append {s t : String} (hs : Plain s) (ht : Plain t) : Plain (s ++ t) := by
  simp only [Plain, String.toList_append, List.mem_append, not_or]
  exact ⟨⟨hs.1, ht.1⟩, hs.2, ht.2⟩

/-- What stands behind the first question mark of an address, up to a number sign. -/
def queryOf (address : String) : String :=
  String.ofList ((Text.splitFirst '?' (Text.splitFirst '#' address.toList).1).2.getD [])

theorem queryOf_append {front query : String} (hfront : Plain front) (hquery : '#' ∉ query.toList) :
    queryOf (front ++ "?" ++ query) = query := by
  have hlist : (front ++ "?" ++ query).toList = front.toList ++ '?' :: query.toList := by simp
  have hhash : '#' ∉ front.toList ++ '?' :: query.toList := by simp [hfront.2, hquery]
  unfold queryOf
  rw [hlist, Text.splitFirst_of_not_mem hhash, Text.splitFirst_append _ hfront.1, Option.getD_some, String.ofList_toList]

/-! ## Positions -/

namespace Position

/-- The numbers of a position are such as a reader converts. -/
structure Readable (p : Position) : Prop where
  step : Text.Readable p.step
  attempt : ∀ n ∈ p.attempt, Text.Readable n
  seq : ∀ n ∈ p.seq, Text.Readable n

/-- A position with its empty texts left out. -/
def kept (p : Position) : Position := ⟨p.step, Flow.given p.action, Flow.given p.branch, p.attempt, Flow.given p.var, p.seq⟩

/-- What is told of a position. -/
def told (p : Position) : Position := { p.kept with attempt := some (p.attempt.getD 0) }

/-- What the end of a dial tells of a position. -/
def dialed (p : Position) : Position := ⟨p.step, none, p.branch, none, none, p.seq⟩

theorem Readable.dialed {p : Position} (h : p.Readable) : p.dialed.Readable :=
  ⟨h.step, fun _ hn => (nomatch hn), h.seq⟩

theorem present_fields (p : Position) : present p.kept.fields = present p.fields := by
  simp only [present_eq, fields, kept, List.filterMap_cons, Flow.given_given]

theorem query_kept (p : Position) : p.kept.query = p.query := by rw [query, query, present_fields]

end Position

theorem dialStatus_eq (urls : Callbacks) (tenant line : String) (p : Position) :
    urls.dialStatus tenant line p.step p.branch p.seq =
      urls.base ++ ("/voice/flow/" ++ tenant ++ "/" ++ line ++ "/dial-status") ++ "?" ++ p.dialed.query :=
  urls.address_of_number _ List.mem_cons_self

section Plain

variable {urls : Callbacks} {tenant line : String} (hbase : Plain urls.base) (htenant : Plain tenant) (hline : Plain line)
include hbase htenant hline

theorem queryOf_flow (p : Position) : queryOf (urls.flow tenant line p) = p.query := by
  have hpath : Plain ("/voice/flow/" ++ tenant ++ "/" ++ line) :=
    (((show Plain "/voice/flow/" by decide).append htenant).append (by decide)).append hline
  rw [flow_eq]
  exact queryOf_append (hbase.append hpath) (Text.Percent.not_mem_query _)

theorem queryOf_dialStatus (p : Position) :
    queryOf (urls.dialStatus tenant line p.step p.branch p.seq) = p.dialed.query := by
  have hpath : Plain ("/voice/flow/" ++ tenant ++ "/" ++ line ++ "/dial-status") :=
    ((((show Plain "/voice/flow/" by decide).append htenant).append (by decide)).append hline).append (by decide)
  rw [dialStatus_eq]
  exact queryOf_append (hbase.append hpath) (Text.Percent.not_mem_query _)

end Plain

end Callbacks

open Callbacks (Position Plain queryOf)

/-! ## Reading -/

namespace Web

/-- The position that is asked for, as whoever serves a flow reads it. -/
def Event.position (e : Event) : Position where
  step := (e.parameter? "step").getD 0
  action := e.address.given "action"
  branch := e.address.given "branch"
  attempt := some ((e.parameter? "attempt").getD 0)
  var := e.address.last? "var"
  seq := e.seq

/-- **Of an address nothing is read but its position.** -/
theorem continueFlow_congr {e₁ e₂ : Event} (hposition : e₁.position = e₂.position) (hform : e₁.form = e₂.form)
    (tenant line : String) : continueFlow tenant line e₁ = continueFlow tenant line e₂ := by
  obtain ⟨hstep, haction, hbranch, hattempt, hvar, hseq⟩ := Position.mk.inj hposition
  have hattempt : (e₁.parameter? "attempt").getD 0 = (e₂.parameter? "attempt").getD 0 := Option.some.inj hattempt
  have hreply : flowReply e₁ = flowReply e₂ := by
    unfold flowReply
    rw [haction, hattempt, hvar, hform]
  have hcontext (l : LineFlow) (s : Option Segment) : contextFor l e₁ s = contextFor l e₂ s := by
    simp only [contextFor, Event.sid, Event.text, hform]
  have hdial : afterDial tenant e₁ = afterDial tenant e₂ := by
    simp only [afterDial, Event.sid, Event.text, hform, hseq]
  simp only [continueFlow, hstep, haction, hbranch, hreply, hcontext, hdial, Event.sid, Event.text, hform]

/-- **A position is read back as it is told.** -/
theorem Event.position_eq {p : Position} (hp : p.Readable) {e : Event} (he : e.address = Text.Percent.fields p.query) :
    e.position = p.told := by
  have hread {n : Option Int} (hn : ∀ m ∈ n, Text.Readable m) : (n.bind fun m => Text.int? (toString m)) = n := by
    cases n with
    | none => rfl
    | some m => exact Text.int?_toString (hn m rfl)
  unfold Event.position Event.seq
  rw [parameter?_step he hp.step, given_action he, given_branch he, parameter?_attempt he, last?_var he, parameter?_seq he,
    hread hp.attempt, hread hp.seq]
  rfl

end Web

/-- What becomes of a position that goes out in an address. -/
structure Callbacks.ReadBack (p : Position) : Prop where
  /-- An address ends in the query of the position, and the one of a dial's end in the query of the part that it tells. -/
  written : ∀ (urls : Callbacks) tenant line,
    urls.flow tenant line p = urls.base ++ ("/voice/flow/" ++ tenant ++ "/" ++ line) ++ "?" ++ p.query ∧
      urls.dialStatus tenant line p.step p.branch p.seq =
        urls.base ++ ("/voice/flow/" ++ tenant ++ "/" ++ line ++ "/dial-status") ++ "?" ++ p.dialed.query
  /-- The query is found in the address, as no other part of it holds what would end one. -/
  found : ∀ (urls : Callbacks) tenant line, Plain urls.base → Plain tenant → Plain line →
    queryOf (urls.flow tenant line p) = p.query ∧
      queryOf (urls.dialStatus tenant line p.step p.branch p.seq) = p.dialed.query
  /-- What is read of the query is the position that was told, whatever comes with it. -/
  read : ∀ form, (⟨Text.Percent.fields p.query, form⟩ : Event).position = p.told
  readDialed : ∀ form, (⟨Text.Percent.fields p.dialed.query, form⟩ : Event).position = p.dialed.told
  /-- A text that is empty leaves no more behind than one that is absent. -/
  dropped : ∀ p' : Position, p'.kept = p.kept → ∀ (urls : Callbacks) tenant line,
    urls.flow tenant line p' = urls.flow tenant line p ∧
      urls.dialStatus tenant line p'.step p'.branch p'.seq = urls.dialStatus tenant line p.step p.branch p.seq
  /-- Positions with one address are told alike. -/
  distinct : ∀ p' : Position, p'.Readable → ∀ (urls : Callbacks) tenant line,
    urls.flow tenant line p' = urls.flow tenant line p → p'.told = p.told
  /-- Positions that are told alike are served alike. -/
  served : ∀ p' : Position, p'.Readable → p'.told = p.told → ∀ tenant line form,
    continueFlow tenant line ⟨Text.Percent.fields p'.query, form⟩ = continueFlow tenant line ⟨Text.Percent.fields p.query, form⟩

/-- **Positions are read back** as they are told. -/
theorem Callbacks.positions_are_read_back {p : Position} (hp : p.Readable) : ReadBack p where
  written urls tenant line := ⟨urls.flow_eq tenant line p, urls.dialStatus_eq tenant line p⟩
  found urls tenant line hbase htenant hline :=
    ⟨queryOf_flow hbase htenant hline p, queryOf_dialStatus hbase htenant hline p⟩
  read form := Event.position_eq hp rfl
  readDialed form := Event.position_eq hp.dialed rfl
  dropped p' hkept urls tenant line := by
    constructor
    · rw [flow_eq, flow_eq, ← p'.query_kept, hkept, p.query_kept]
    · have hdialed : p'.dialed.kept = p.dialed.kept := by
        obtain ⟨hstep, -, hbranch, -, -, hseq⟩ := Position.mk.inj hkept
        simp only [Position.kept, Position.dialed, hstep, hbranch, hseq]
      rw [dialStatus_eq, dialStatus_eq, ← p'.dialed.query_kept, hdialed, p.dialed.query_kept]
  distinct p' hp' urls tenant line haddress := by
    rw [flow_eq, flow_eq, String.append_right_inj] at haddress
    have hposition := Event.position_eq hp' (e := ⟨Text.Percent.fields p'.query, []⟩) rfl
    rw [haddress] at hposition
    exact hposition.symm.trans (Event.position_eq hp rfl)
  served p' hp' htold tenant line form := by
    have hposition : (⟨Text.Percent.fields p'.query, form⟩ : Event).position =
        (⟨Text.Percent.fields p.query, form⟩ : Event).position := by
      rw [Event.position_eq hp' rfl, Event.position_eq hp rfl, htold]
    exact Web.continueFlow_congr hposition rfl tenant line

/-- Texts that hold what separates fields, names and values are read back, and so is one of many bytes. -/
theorem Callbacks.separators_are_read_back :
    let p : Position := ⟨12, some "menu", some "0.a&b=c%2B.1.d+e f", none, some "naïve\n#42?", some (-3)⟩
    p.Readable ∧
      (Callbacks.ofBase "https://example.org/").flow "T" "L" p =
        "https://example.org/voice/flow/T/L?step=12&action=menu&branch=0.a%26b%3Dc%252B.1.d%2Be+f" ++
          "&var=na%C3%AFve%0A%2342%3F&seq=-3" ∧
      queryOf ((Callbacks.ofBase "https://example.org/").flow "T" "L" p) = p.query ∧
      (⟨Text.Percent.fields p.query, []⟩ : Event).position = { p with attempt := some 0 } := by
  intro p
  have hp : p.Readable := ⟨by decide, fun _ hn => (nomatch hn), by decide⟩
  have hread : ReadBack p := positions_are_read_back hp
  have htold : p.told = { p with attempt := some 0 } := by decide +kernel
  refine ⟨hp, by decide +kernel, ?_, (hread.read []).trans htold⟩
  exact (hread.found _ _ _ (by decide +kernel) (by decide) (by decide)).1

end Switchboard
