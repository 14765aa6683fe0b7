import Switchboard.Proofs.Service.Dialing
import Switchboard.Proofs.Store.Lives
/-!
# Attempts are dialed once

A deed has the agents of an attempt dialed only if it is a join of the caller, and it notes in the same write that they are.
Within an attempt the note is never taken back, so of all joins that are the attempt's the first one dials and no other does
(`dials_lived_iff`).  The note of a transfer that it dialed the agent is never taken back at all: on a segment that a
transfer opened no join dials, in whatever attempt.
-/
namespace Switchboard

namespace Segment

variable {s : Segment} {n : Int}

/-- The segment behind deeds. -/
def lived (s : Segment) (ds : List Deed) : Segment := ds.foldl did s

/-- A deed is a join of the caller that is one of an attempt: it carries the attempt's number, or none. -/
def Deed.joins (n : Int) : Deed → Bool
  | act (.callerJoins seq _) => seq.all (· = n)
  | _ => false

/-- Whether a deed has the agents dialed. -/
def Deed.dials (s : Segment) : Deed → Bool
  | act a => (s.effect a).dials
  | _ => false

/-! ## One deed -/

theorem isOther_eq_false_iff (s : Segment) (seq : Option Int) :
    s.scratch.isOther seq = false ↔ seq.all (· = s.scratch.attemptSeq) = true := by
  cases seq <;> simp [Scratch.isOther]

/-- **A deed dials exactly as a join** of the current attempt, where nobody has dialed it and no transfer opened the
segment. -/
theorem dials_iff_joins (s : Segment) (d : Deed) : d.dials s = true ↔
    d.joins s.scratch.attemptSeq = true ∧ s.scratch.dialed = false ∧ s.scratch.agentDialedFromTransfer = false := by
  cases d with
  | act a =>
    cases a with
    | callerJoins seq conferenceSid =>
      exact (Work.dials_iff s seq conferenceSid).trans (and_congr_left' (isOther_eq_false_iff s seq))
    | _ => exact iff_of_false Bool.false_ne_true fun h => Bool.false_ne_true h.1
  | _ => exact iff_of_false Bool.false_ne_true fun h => Bool.false_ne_true h.1

/-- What is noted of the dialing: whether the attempt was dialed, and whether a transfer dialed its agent. -/
def dialing (s : Segment) : Bool × Bool := (s.scratch.dialed, s.scratch.agentDialedFromTransfer)

theorem dialing_after {a : Act} (hstart : a.isStart = false)
    (hjoin : ∀ seq conferenceSid, a ≠ .callerJoins seq conferenceSid) : (s.after a).dialing = s.dialing := by
  unfold dialing
  cases a with
  | start => cases hstart
  | callerJoins seq conferenceSid => exact absurd rfl (hjoin seq conferenceSid)
  | register seq leg target => rw [scratch_after_register]; split <;> rfl
  | finish seq now => rw [scratch_after_finish]; split <;> simp
  | agentJoins leg seq now => rw [scratch_after_agentJoins]; split <;> rfl
  | callerLeaves seq => rw [scratch_after_callerLeaves]; split <;> rfl
  | legEnds leg seq now => rw [scratch_after_legEnds]; split <;> simp
  | dialEnds seq now => rw [scratch_after_dialEnds]; split <;> simp

/-- **A join notes that it has the agents dialed.** -/
theorem dialing_after_callerJoins (s : Segment) (seq : Option Int) (conferenceSid : Option String) :
    (s.after (.callerJoins seq conferenceSid)).dialing =
      (s.scratch.dialed || (s.effect (.callerJoins seq conferenceSid)).dials, s.scratch.agentDialedFromTransfer) := by
  unfold dialing
  cases hdials : (s.effect (.callerJoins seq conferenceSid)).dials with
  | true => rw [Work.scratch_of_dials hdials, Bool.or_true]
  | false =>
    rw [scratch_after_callerJoins, Bool.or_false]
    split
    · rfl
    · rename_i hno
      rw [Bool.or_assoc, Bool.or_eq_true, not_or, Bool.not_eq_true, Bool.or_eq_true, not_or, Bool.not_eq_true,
        Bool.not_eq_true] at hno
      rw [(Work.dials_iff s seq conferenceSid).2 hno] at hdials
      cases hdials

/-- The deeds that are no acts of an attempt leave its record alone. -/
theorem scratch_did {d : Deed} (hact : ∀ a, d ≠ .act a) : ∃ entered, (s.did d).scratch = { s.scratch with entered } := by
  cases d with
  | act a => exact absurd rfl (hact a)
  | callerGone => simp only [did, callerGone]; split <;> exact ⟨_, rfl⟩
  | callerRinging => simp only [did, callerRinging]; split <;> exact ⟨_, rfl⟩
  | outgoingFinished =>
    simp only [did, outgoingFinished]
    split
    · exact ⟨_, rfl⟩
    · split <;> exact ⟨_, rfl⟩
  | addTag | setVariable => exact ⟨_, rfl⟩

/-- **What a deed does to the notes of the dialing**, as far as it starts no attempt. -/
theorem dialing_did {d : Deed} (hsame : (s.did d).scratch.attemptSeq = s.scratch.attemptSeq) :
    (s.did d).dialing = (s.scratch.dialed || d.dials s, s.scratch.agentDialedFromTransfer) := by
  by_cases hact : ∃ a, d = .act a
  · obtain ⟨a, rfl⟩ := hact
    by_cases hjoin : ∃ seq conferenceSid, a = .callerJoins seq conferenceSid
    · obtain ⟨seq, conferenceSid, rfl⟩ := hjoin
      exact dialing_after_callerJoins s seq conferenceSid
    · have hstart : a.isStart = false := by
        cases a with
        | start => exact absurd hsame (by show s.scratch.attemptSeq + 1 ≠ _; omega)
        | _ => rfl
      have hno : Deed.dials s (.act a) = false := by
        cases a with
        | callerJoins seq conferenceSid => exact absurd ⟨seq, conferenceSid, rfl⟩ hjoin
        | _ => rfl
      rw [hno, Bool.or_false]
      exact dialing_after hstart fun seq conferenceSid h => hjoin ⟨seq, conferenceSid, h⟩
  · have hno : d.dials s = false := by
      cases d with
      | act a => exact absurd ⟨a, rfl⟩ hact
      | _ => rfl
    obtain ⟨entered, hscratch⟩ := scratch_did (s := s) fun a h => hact ⟨a, h⟩
    rw [dialing, hscratch, hno, Bool.or_false]

/-- **No deed takes back that a transfer dialed the agent**, and none notes it. -/
theorem agentDialedFromTransfer_did (s : Segment) (d : Deed) :
    (s.did d).scratch.agentDialedFromTransfer = s.scratch.agentDialedFromTransfer := by
  by_cases hact : ∃ a, d = .act a
  · obtain ⟨a, rfl⟩ := hact
    cases ha : a.isStart with
    | false => exact congrArg Prod.snd (dialing_did (d := .act a) (after_attemptSeq s a ha))
    | true =>
      cases a with
      | start => rfl
      | _ => cases ha
  · obtain ⟨entered, hscratch⟩ := scratch_did (s := s) fun a h => hact ⟨a, h⟩
    rw [hscratch]

/-! ## Runs of deeds -/

theorem agentDialedFromTransfer_lived : ∀ (ds : List Deed) (s : Segment),
    (s.lived ds).scratch.agentDialedFromTransfer = s.scratch.agentDialedFromTransfer
  | [], _ => rfl
  | d :: ds, s => (agentDialedFromTransfer_lived ds (s.did d)).trans (agentDialedFromTransfer_did s d)

theorem attemptSeq_lived : ∀ (ds : List Deed) (s : Segment), s.scratch.attemptSeq ≤ (s.lived ds).scratch.attemptSeq
  | [], _ => Int.le_refl _
  | d :: ds, s => Int.le_trans (attemptSeq_did s d) (attemptSeq_lived ds (s.did d))

/-- **An attempt is dialed once one of its joins was there**, where no transfer opened the segment. -/
theorem dialed_lived : ∀ (ds : List Deed) (s : Segment), (s.lived ds).scratch.attemptSeq = s.scratch.attemptSeq →
    (s.lived ds).scratch.dialed =
      (s.scratch.dialed || !s.scratch.agentDialedFromTransfer && ds.any (Deed.joins s.scratch.attemptSeq))
  | [], s, _ => by rw [List.any_nil, Bool.and_false, Bool.or_false]; rfl
  | d :: ds, s, hsame => by
    have hstep : (s.did d).scratch.attemptSeq = s.scratch.attemptSeq :=
      Int.le_antisymm (hsame ▸ attemptSeq_lived ds (s.did d)) (attemptSeq_did s d)
    have hnotes := dialing_did hstep
    have hdialed : (s.did d).scratch.dialed = (s.scratch.dialed || d.dials s) := congrArg Prod.fst hnotes
    have ih := dialed_lived ds (s.did d) (hsame.trans hstep.symm)
    have hdials : d.dials s =
        (d.joins s.scratch.attemptSeq && (!s.scratch.dialed && !s.scratch.agentDialedFromTransfer)) := by
      rw [Bool.eq_iff_iff, dials_iff_joins, Bool.and_eq_true, Bool.and_eq_true, Bool.not_eq_true', Bool.not_eq_true']
    rw [agentDialedFromTransfer_did, hdialed, hstep, hdials] at ih
    rw [List.any_cons]
    refine ih.trans ?_
    cases s.scratch.dialed <;> cases s.scratch.agentDialedFromTransfer <;> simp

/-- **An attempt is dialed by its first join**: while it is the current one, a deed has its agents dialed exactly if it is
the first join that is the attempt's, and no transfer opened the segment. -/
theorem dials_lived_iff {a : Act} (ha : a.isStart = true) (ds : List Deed) (d : Deed)
    (hcurrent : ((s.after a).lived ds).scratch.attemptSeq = s.scratch.attemptSeq + 1) :
    d.dials ((s.after a).lived ds) = true ↔ s.scratch.agentDialedFromTransfer = false ∧
      d.joins (s.scratch.attemptSeq + 1) = true ∧ ∀ b ∈ ds, b.joins (s.scratch.attemptSeq + 1) = false := by
  have hstart : (s.after a).scratch.attemptSeq = s.scratch.attemptSeq + 1 ∧
      (s.after a).dialing = (false, s.scratch.agentDialedFromTransfer) := by
    cases a with
    | start => exact ⟨rfl, rfl⟩
    | _ => cases ha
  obtain ⟨hseq, hnotes⟩ := hstart
  have hflag : (s.after a).scratch.agentDialedFromTransfer = s.scratch.agentDialedFromTransfer := congrArg Prod.snd hnotes
  have hdialed := dialed_lived ds (s.after a) (hcurrent.trans hseq.symm)
  rw [hseq, hflag, show (s.after a).scratch.dialed = false from congrArg Prod.fst hnotes, Bool.false_or] at hdialed
  have hany : ds.any (Deed.joins (s.scratch.attemptSeq + 1)) = false ↔
      ∀ b ∈ ds, b.joins (s.scratch.attemptSeq + 1) = false := by
    simp only [List.any_eq_false, Bool.not_eq_true]
  rw [dials_iff_joins, hcurrent, hdialed, agentDialedFromTransfer_lived, hflag, ← hany]
  constructor
  · rintro ⟨hjoins, hfirst, hopened⟩
    rw [hopened, Bool.not_false, Bool.true_and] at hfirst
    exact ⟨hopened, hjoins, hfirst⟩
  · rintro ⟨hopened, hjoins, hfirst⟩
    exact ⟨hjoins, by rw [hfirst, Bool.and_false], hopened⟩

/-! ## What lasts -/

/-- No join that carries the number of an attempt has its agents dialed any more: a transfer opened the segment, the attempt
is past, or it was dialed. -/
def WasDialed (n : Int) (s : Segment) : Prop :=
  s.scratch.agentDialedFromTransfer = true ∨ n < s.scratch.attemptSeq ∨ n = s.scratch.attemptSeq ∧ s.scratch.dialed = true

theorem wasDialed_did (d : Deed) (h : s.WasDialed n) : (s.did d).WasDialed n := by
  rcases h with hflag | hpast | ⟨hcurrent, hdialed⟩
  · exact .inl ((agentDialedFromTransfer_did s d).trans hflag)
  · exact .inr (.inl (Int.lt_of_lt_of_le hpast (attemptSeq_did s d)))
  · rcases Int.lt_or_eq_of_le (attemptSeq_did s d) with hlt | heq
    · exact .inr (.inl (hcurrent ▸ hlt))
    · refine .inr (.inr ⟨hcurrent.trans heq, ?_⟩)
      have hnotes := congrArg Prod.fst (dialing_did heq.symm)
      rw [hdialed, Bool.true_or] at hnotes
      exact hnotes

theorem lasting_wasDialed (n : Int) : CallRow.Lasting (WasDialed n) :=
  CallRow.lasting_of_did (fun _ d h => wasDialed_did d h) fun s t hscratch _ h => by
    unfold WasDialed at h ⊢
    rwa [hscratch]

theorem callerJoined_of_wasDialed (h : s.WasDialed n) (conferenceSid : Option String) :
    (s.callerJoined (some n) conferenceSid).2 = false := by
  have hno : ¬ (s.effect (.callerJoins (some n) conferenceSid)).dials = true := by
    rw [Work.dials_iff]
    rintro ⟨hcurrent, hdialed, hflag⟩
    rw [isOther_eq_false_iff, Option.all_some, decide_eq_true_eq] at hcurrent
    rcases h with htransfer | hpast | ⟨-, hdone⟩
    · exact Bool.false_ne_true (hflag.symm.trans htransfer)
    · exact absurd hcurrent (Int.ne_of_lt hpast)
    · exact Bool.false_ne_true (hdialed.symm.trans hdone)
  exact Bool.eq_false_iff.2 hno

/-- **Behind a join the attempt whose number it carries was dialed**, if it was started. -/
theorem wasDialed_of_join (h : n ≤ s.scratch.attemptSeq) (conferenceSid : Option String) :
    (s.after (.callerJoins (some n) conferenceSid)).WasDialed n := by
  have hseq : (s.after (.callerJoins (some n) conferenceSid)).scratch.attemptSeq = s.scratch.attemptSeq :=
    after_attemptSeq s _ rfl
  rcases Int.lt_or_eq_of_le h with hpast | hcurrent
  · exact .inr (.inl (hseq.symm ▸ hpast))
  · have hdialed := dialed_lived [.act (.callerJoins (some n) conferenceSid)] s hseq
    have hjoins : Deed.joins s.scratch.attemptSeq (.act (.callerJoins (some n) conferenceSid)) = true :=
      decide_eq_true hcurrent
    rw [List.any_cons, hjoins, Bool.true_or, Bool.and_true] at hdialed
    cases hflag : s.scratch.agentDialedFromTransfer with
    | true => exact .inl ((agentDialedFromTransfer_did s (.act (.callerJoins (some n) conferenceSid))).trans hflag)
    | false =>
      rw [hflag, Bool.not_false, Bool.or_true] at hdialed
      exact .inr (.inr ⟨hcurrent.trans hseq.symm, hdialed⟩)

end Segment

end Switchboard
