import Switchboard.Proofs.Attempt.Attribution
import Switchboard.Proofs.Attempt.EndedLegs
/-!
# The order in which legs are listed

A segment lists the legs that ring, and the target that each leg was placed for.  Nothing hangs on the order of either list:
segments that are alike but for it stay so under every act, and the same follows from the act (`Alike.perform`).
-/
namespace Switchboard.Segment

open Time (Instant)

variable {s t : Segment} {a : Act} {leg : String} {target : DialTarget}

/-! ## Acts as changes of the whole segment -/

/-- A segment that a leg was registered with, for a target. -/
def registered (s : Segment) (leg : String) (target : DialTarget) : Segment :=
  { s with
    answeredBy := if s.scratch.answeredLeg = some leg then s.answeredBy.or target.member? else s.answeredBy
    scratch := { s.scratch with
      legTargets := putEntry leg (some target) s.scratch.legTargets
      pendingLegs :=
        if s.scratch.answeredLeg = none ∧ leg ∉ s.scratch.endedLegs then s.scratch.pendingLegs ++ [leg]
        else s.scratch.pendingLegs } }

theorem after_register (s : Segment) (leg : String) (target : DialTarget) :
    s.after (.register s.scratch.attemptSeq leg target) = s.registered leg target := by
  simp only [after, perform, registerLeg]
  rw [if_neg (not_not_intro rfl)]
  cases hans : s.scratch.answeredLeg with
  | none => by_cases he : leg ∈ s.scratch.endedLegs <;> simp [registered, he, hans, withScratch]
  | some winner =>
    by_cases hw : winner = leg
    · cases hby : s.answeredBy <;> cases hid : target.identity <;> simp [registered, DialTarget.member?, hid, hw, hby, hans, withScratch]
    · simp [registered, hw, hans, withScratch]

theorem after_agentJoins (leg : String) {seq : Option Int} (now : Instant) (ho : s.scratch.isOther seq = false)
    (hs : s.scratch.answeredLeg = none) (hc : s.isClosed = false) :
    s.after (.agentJoins leg seq now) =
      { s with
        status := .inProgress
        answeredAt := some (s.answeredAt.getD (.utc now))
        answeredBy := ((s.scratch.identityOf leg).map Identity.tenantUserId).or s.answeredBy
        scratch := { s.scratch with answeredLeg := some leg, pendingLegs := [] } } := by
  simp only [after, perform, agentAnswered, withScratch]
  rw [ho, hs, hc, Option.isSome_none, Bool.or_false, if_neg Bool.false_ne_true, if_neg Bool.false_ne_true]
  have hid : Scratch.identityOf { s.scratch with answeredLeg := some leg, pendingLegs := [] } leg =
      s.scratch.identityOf leg := rfl
  rw [hid]
  cases s.answeredAt <;> cases s.scratch.identityOf leg <;> rfl

/-- While dialing goes on the end of a leg decides nothing. -/
theorem after_legEnds {seq : Option Int} (now : Instant) (ho : s.scratch.isOther seq = false)
    (he : leg ∉ s.scratch.endedLegs) (hd : s.scratch.dialComplete = false) :
    s.after (.legEnds leg seq now) =
      s.withScratch fun sc => { sc with endedLegs := sc.endedLegs ++ [leg], pendingLegs := sc.pendingLegs.erase leg } := by
  show (s.legEnded leg seq now).1 = _
  rw [legEnded_of_counted now ho he, claimFailure_of_settled]
  exact .inr (by simp [withScratch, Scratch.isExhausted, hd])

/-! ## Maps of legs in another order -/

section Entries

variable {β : Type} {entries entries' : List (String × β)}

theorem find?_entry_perm (h : entries.Perm entries') (hd : (entries.map Prod.fst).Nodup) (key : String) :
    entries.find? (fun e => e.1 = key) = entries'.find? (fun e => e.1 = key) := by
  induction h with
  | nil => rfl
  | cons e _ ih =>
    rw [List.map_cons, List.nodup_cons] at hd
    rw [List.find?_cons, List.find?_cons, ih hd.2]
  | swap e e' rest =>
    simp only [List.map_cons, List.nodup_cons, List.mem_cons, not_or] at hd
    rw [List.find?_cons, List.find?_cons, List.find?_cons, List.find?_cons]
    by_cases he : e.1 = key
    · have he' : e'.1 ≠ key := fun h => hd.1.1 (h.trans he.symm)
      simp [he, he']
    · simp [he]
  | trans h _ ih ih' => exact (ih hd).trans (ih' ((h.map Prod.fst).nodup_iff.1 hd))

/-- **Where no key stands twice an entry is written** as if it were put in front of the others. -/
theorem putEntry_perm (key : String) (v : β) : ∀ entries : List (String × β), (entries.map Prod.fst).Nodup →
    (putEntry key v entries).Perm ((key, v) :: entries.filter (fun e => e.1 ≠ key))
  | [], _ => .rfl
  | (k, w) :: rest, hd => by
    rw [List.map_cons, List.nodup_cons] at hd
    rw [putEntry]
    by_cases hk : k = key
    · have hrest : rest.filter (fun e => e.1 ≠ key) = rest :=
        List.filter_eq_self.2 fun e he => decide_eq_true fun h =>
          hd.1 (List.mem_map.2 ⟨e, he, h.trans hk.symm⟩)
      rw [if_pos hk, List.filter_cons_of_neg (by simpa using hk), hrest, hk]
    · rw [if_neg hk, List.filter_cons_of_pos (by simpa using hk)]
      exact ((putEntry_perm key v rest hd.2).cons _).trans (.swap ..)

theorem putEntry_distinct (key : String) (v : β) (hd : (entries.map Prod.fst).Nodup) :
    ((putEntry key v entries).map Prod.fst).Nodup := by
  refine (((putEntry_perm key v entries hd).map Prod.fst).nodup_iff).2 ?_
  rw [List.map_cons, List.nodup_cons]
  refine ⟨fun hm => ?_, hd.sublist (List.filter_sublist.map Prod.fst)⟩
  obtain ⟨e, he, hkey⟩ := List.mem_map.1 hm
  exact of_decide_eq_true (List.mem_filter.1 he).2 hkey

theorem putEntry_congr (h : entries.Perm entries') (hd : (entries.map Prod.fst).Nodup) (key : String) (v : β) :
    (putEntry key v entries).Perm (putEntry key v entries') :=
  (putEntry_perm key v entries hd).trans <| ((h.filter _).cons _).trans
    (putEntry_perm key v entries' ((h.map Prod.fst).nodup_iff.1 hd)).symm

theorem putEntry_comm {key key' : String} (v v' : β) (hne : key ≠ key') (hd : (entries.map Prod.fst).Nodup) :
    (putEntry key' v' (putEntry key v entries)).Perm (putEntry key v (putEntry key' v' entries)) := by
  have hboth {k k' : String} (w w' : β) (hne : k ≠ k') : (putEntry k' w' (putEntry k w entries)).Perm
      ((k', w') :: (k, w) :: entries.filter (fun e => e.1 ≠ k ∧ e.1 ≠ k')) := by
    refine (putEntry_perm k' w' _ (putEntry_distinct k w hd)).trans (.cons _ ?_)
    refine ((putEntry_perm k w entries hd).filter _).trans ?_
    rw [List.filter_cons_of_pos (by simpa using hne), List.filter_filter]
    exact .of_eq (congrArg _ (List.filter_congr fun e _ => by simp [Bool.and_comm]))
  refine (hboth v v' hne).trans (.trans ?_ (hboth v' v hne.symm).symm)
  refine .trans (.swap ..) (.of_eq ?_)
  exact congrArg _ (congrArg _ (List.filter_congr fun e _ => decide_eq_decide.2 and_comm))

end Entries

/-! ## Segments that list their legs in another order -/

/-- A segment with other lists of the legs that ring and of the targets that legs were placed for. -/
def relisted (s : Segment) (ringing : List String) (placed : List (String × Option DialTarget)) : Segment :=
  s.withScratch fun sc => { sc with pendingLegs := ringing, legTargets := placed }

/-- Two segments that are the same but for the order in which they list their legs. -/
structure Alike (s t : Segment) : Prop where
  ringing : s.scratch.pendingLegs.Perm t.scratch.pendingLegs
  placed : s.scratch.legTargets.Perm t.scratch.legTargets
  /-- Each leg is listed for one target. -/
  distinct : (s.scratch.legTargets.map Prod.fst).Nodup
  rest : t = s.relisted t.scratch.pendingLegs t.scratch.legTargets

/-- What follows from two acts is the same but for the order in which legs are hung up. -/
structure Effect.Alike (e e' : Effect) : Prop where
  dials : e.dials = e'.dials
  hangUps : e.hangUps.Perm e'.hangUps
  decision : e.decision = e'.decision

namespace Alike

theorem refl (h : (s.scratch.legTargets.map Prod.fst).Nodup) : s.Alike s := ⟨.rfl, .rfl, h, rfl⟩

theorem trans {u : Segment} (h : s.Alike t) (h' : t.Alike u) : s.Alike u :=
  ⟨h.ringing.trans h'.ringing, h.placed.trans h'.placed, h.distinct, by
    rw [h'.rest, h.rest]
    rfl⟩

section Fields

variable (h : s.Alike t)
include h

theorem scratch_eq : t.scratch =
    { s.scratch with pendingLegs := t.scratch.pendingLegs, legTargets := t.scratch.legTargets } :=
  congrArg Segment.scratch h.rest

theorem attemptSeq : t.scratch.attemptSeq = s.scratch.attemptSeq := by rw [h.scratch_eq]

theorem isOther (seq : Option Int) : t.scratch.isOther seq = s.scratch.isOther seq := by rw [h.scratch_eq]; rfl

theorem answeredLeg : t.scratch.answeredLeg = s.scratch.answeredLeg := by rw [h.scratch_eq]

theorem endedLegs : t.scratch.endedLegs = s.scratch.endedLegs := by rw [h.scratch_eq]

theorem failureHandled : t.scratch.failureHandled = s.scratch.failureHandled := by rw [h.scratch_eq]

theorem isClosed : t.isClosed = s.isClosed := by rw [h.rest]; rfl

theorem isExhausted : t.scratch.isExhausted = s.scratch.isExhausted := by
  rw [Scratch.isExhausted, Scratch.isExhausted, h.ringing.isEmpty_eq, h.scratch_eq]

theorem identityOf (leg : String) : t.scratch.identityOf leg = s.scratch.identityOf leg := by
  have htarget : t.scratch.targetOf leg = s.scratch.targetOf leg := by
    rw [Scratch.targetOf, Scratch.targetOf, find?_entry_perm h.placed h.distinct leg]
  have hknows : t.scratch.knowsLeg leg = s.scratch.knowsLeg leg := h.placed.symm.any_eq
  rw [Scratch.identityOf, Scratch.identityOf, htarget, hknows, h.scratch_eq]

end Fields

/-! ### Under acts -/

theorem of_kept (h : s.Alike t) {e : Effect} (hs : s.perform a = (s, e)) (ht : t.perform a = (t, e)) :
    (s.after a).Alike (t.after a) ∧ (s.effect a).Alike (t.effect a) := by
  rw [Segment.after, Segment.after, Segment.effect, Segment.effect, hs, ht]
  exact ⟨h, rfl, .rfl, rfl⟩

theorem claimFailure (h : s.Alike t) (now : Instant) :
    (s.claimFailure now).1.Alike (t.claimFailure now).1 ∧ (s.claimFailure now).2 = (t.claimFailure now).2 := by
  have hs := claimFailure_scratch s now
  have ht := claimFailure_scratch t now
  have hd : (s.withScratch fun sc => { sc with attemptFailed := true, failureHandled := true }).decisionAfterFailure =
      (t.withScratch fun sc => { sc with attemptFailed := true, failureHandled := true }).decisionAfterFailure := by
    rw [h.rest]
    rfl
  refine ⟨⟨?_, ?_, ?_, ?_⟩, ?_⟩
  · rw [hs, ht, claimed_pendingLegs, claimed_pendingLegs]
    exact h.ringing
  · rw [hs, ht, claimed_legTargets, claimed_legTargets]
    exact h.placed
  · rw [hs, claimed_legTargets]
    exact h.distinct
  · rw [ht, claimed_pendingLegs, claimed_legTargets]
    unfold Segment.claimFailure
    rw [h.failureHandled, h.isExhausted]
    by_cases hc : (s.scratch.failureHandled || !s.scratch.isExhausted) = true
    · rw [if_pos hc, if_pos hc]
      exact h.rest
    · rw [if_neg hc, if_neg hc]
      simp only [← hd]
      rw [h.rest]
      split <;> rfl
  · rw [claimFailure_decision, claimFailure_decision, h.failureHandled, h.isExhausted]
    rw [h.rest]
    rfl

theorem callerJoined_relisted (ringing : List String) (placed : List (String × Option DialTarget)) (seq : Option Int)
    (conferenceSid : Option String) : (s.relisted ringing placed).callerJoined seq conferenceSid =
      ((s.callerJoined seq conferenceSid).1.relisted ringing placed, (s.callerJoined seq conferenceSid).2) := by
  have ho : (s.relisted ringing placed).scratch.isOther seq = s.scratch.isOther seq := rfl
  unfold callerJoined
  rw [ho]
  cases s.scratch.isOther seq
  · cases Flow.given conferenceSid <;> cases hdial : s.scratch.dialed || s.scratch.agentDialedFromTransfer <;>
      simp [relisted, withScratch, hdial]
  · rfl

theorem of_claim {s' t' : Segment} {legs legs' : List String} (now : Instant) (h : s'.Alike t') (hl : legs.Perm legs')
    (hs : s.perform a = ((s'.claimFailure now).1, { hangUps := legs, decision := (s'.claimFailure now).2 }))
    (ht : t.perform a = ((t'.claimFailure now).1, { hangUps := legs', decision := (t'.claimFailure now).2 })) :
    (s.after a).Alike (t.after a) ∧ (s.effect a).Alike (t.effect a) := by
  rw [Segment.after, Segment.after, Segment.effect, Segment.effect, hs, ht]
  exact ⟨(h.claimFailure now).1, rfl, hl, (h.claimFailure now).2⟩

end Alike

/-- **Nothing hangs on the order in which legs are listed**: an act leaves segments that are alike alike, and the same
follows from it. -/
theorem Alike.perform (h : s.Alike t) (a : Act) :
    (s.after a).Alike (t.after a) ∧ (s.effect a).Alike (t.effect a) := by
  cases a with
  | start =>
    refine ⟨?_, rfl, .rfl, rfl⟩
    rw [h.rest]
    exact .refl List.nodup_nil
  | callerJoins seq conferenceSid =>
    have hs := scratch_after_callerJoins s seq conferenceSid
    have ht := scratch_after_callerJoins t seq conferenceSid
    have hlists {u : Segment} {x : Bool} : (if x then u.scratch else { u.scratch with dialed := true }).pendingLegs =
        u.scratch.pendingLegs ∧ (if x then u.scratch else { u.scratch with dialed := true }).legTargets =
          u.scratch.legTargets := by
      cases x <;> exact ⟨rfl, rfl⟩
    have hboth := callerJoined_relisted (s := s) t.scratch.pendingLegs t.scratch.legTargets seq conferenceSid
    rw [← h.rest] at hboth
    refine ⟨⟨?_, ?_, ?_, ?_⟩, ?_, .rfl, rfl⟩
    · rw [hs, ht, hlists.1, hlists.1]
      exact h.ringing
    · rw [hs, ht, hlists.2, hlists.2]
      exact h.placed
    · rw [hs, hlists.2]
      exact h.distinct
    · rw [ht, hlists.1, hlists.2]
      exact congrArg Prod.fst hboth
    · exact (congrArg Prod.snd hboth).symm
  | register seq l u =>
    by_cases hseq : s.scratch.attemptSeq = seq
    · subst hseq
      have hs := after_register s l u
      have ht := after_register t l u
      rw [h.attemptSeq] at ht
      refine ⟨⟨?_, ?_, ?_, ?_⟩, rfl, ?_, rfl⟩
      · rw [hs, ht, registered, registered]
        dsimp only
        rw [h.answeredLeg, h.endedLegs]
        split
        · exact h.ringing.append_right [l]
        · exact h.ringing
      · rw [hs, ht]
        exact putEntry_congr h.placed h.distinct l _
      · rw [hs]
        exact putEntry_distinct l _ h.distinct
      · rw [hs, ht, h.rest]
        rfl
      · rw [hangUps_of_register, hangUps_of_register, h.attemptSeq, h.answeredLeg, h.endedLegs]
    · refine h.of_kept (e := { hangUps := [l] }) ?_ ?_ <;>
        simp [Segment.perform, registerLeg, hseq, h.attemptSeq]
  | finish seq now =>
    by_cases hseq : s.scratch.attemptSeq = seq
    · have hcomplete : (s.withScratch fun sc => { sc with dialComplete := true }).Alike
          (t.withScratch fun sc => { sc with dialComplete := true }) :=
        ⟨h.ringing, h.placed, h.distinct, by rw [h.rest]; rfl⟩
      refine hcomplete.of_claim now (.refl []) ?_ ?_ <;>
        simp [Segment.perform, finishDialing, hseq, h.attemptSeq]
    · refine h.of_kept (e := {}) ?_ ?_ <;> simp [Segment.perform, finishDialing, hseq, h.attemptSeq]
  | agentJoins l seq now =>
    by_cases hpass : s.scratch.isOther seq = true ∨ s.scratch.answeredLeg.isSome = true ∨ s.isClosed = true
    · have hpass' : t.scratch.isOther seq = true ∨ t.scratch.answeredLeg.isSome = true ∨ t.isClosed = true := by
        rwa [h.isOther, h.answeredLeg, h.isClosed]
      exact h.of_kept (agentJoins_passed_over hpass) (agentJoins_passed_over hpass')
    · simp only [not_or, Bool.not_eq_true, Option.isSome_eq_false_iff, Option.isNone_iff_eq_none] at hpass
      obtain ⟨ho, hans, hc⟩ := hpass
      have hs := after_agentJoins l now ho hans hc
      have ht := after_agentJoins (s := t) l now (by rwa [h.isOther]) (by rwa [h.answeredLeg]) (by rwa [h.isClosed])
      refine ⟨⟨?_, ?_, ?_, ?_⟩, rfl, ?_, rfl⟩
      · rw [hs, ht]
      · rw [hs, ht]
        exact h.placed
      · rw [hs]
        exact h.distinct
      · rw [hs, ht, h.identityOf, h.rest]
        rfl
      · rw [hangUps_of_agentJoins, hangUps_of_agentJoins, h.isOther, h.answeredLeg, h.isClosed]
        split
        · exact .rfl
        · exact h.ringing.filter _
  | callerLeaves seq =>
    by_cases ho : s.scratch.isOther seq = true
    · refine h.of_kept (e := {}) ?_ ?_ <;> simp [Segment.perform, terminatePending, ho, h.isOther]
    · rw [Bool.not_eq_true] at ho
      simp only [Segment.after, Segment.effect, Segment.perform, terminatePending, h.isOther, ho]
      exact ⟨⟨.rfl, h.placed, h.distinct, by rw [h.rest]; rfl⟩, rfl, h.ringing, rfl⟩
  | legEnds l seq now =>
    by_cases hskip : s.scratch.isOther seq = true ∨ l ∈ s.scratch.endedLegs
    · have hskip' : t.scratch.isOther seq = true ∨ l ∈ t.scratch.endedLegs := by rwa [h.isOther, h.endedLegs]
      refine h.of_kept (e := {}) ?_ ?_
      · rw [Segment.perform, legEnded_of_skipped now hskip]
      · rw [Segment.perform, legEnded_of_skipped now hskip']
    · rw [not_or, Bool.not_eq_true] at hskip
      have hended : (s.withScratch fun sc =>
            { sc with endedLegs := sc.endedLegs ++ [l], pendingLegs := sc.pendingLegs.erase l }).Alike
          (t.withScratch fun sc =>
            { sc with endedLegs := sc.endedLegs ++ [l], pendingLegs := sc.pendingLegs.erase l }) :=
        ⟨h.ringing.erase l, h.placed, h.distinct, by rw [h.rest]; rfl⟩
      refine hended.of_claim now (.refl []) ?_ ?_
      · rw [Segment.perform, legEnded_of_counted now hskip.1 hskip.2]
      · rw [Segment.perform, legEnded_of_counted now (by rw [h.isOther, hskip.1]) (by rw [h.endedLegs]; exact hskip.2)]
  | dialEnds seq now =>
    by_cases hskip : s.scratch.isOther seq = true ∨ s.scratch.answeredLeg.isSome = true ∨ s.scratch.failureHandled = true
    · have hskip' : t.scratch.isOther seq = true ∨ t.scratch.answeredLeg.isSome = true ∨
          t.scratch.failureHandled = true := by
        rwa [h.isOther, h.answeredLeg, h.failureHandled]
      refine h.of_kept (e := {}) ?_ ?_
      · rw [Segment.perform, claimAfterDial_of_skipped now hskip]
      · rw [Segment.perform, claimAfterDial_of_skipped now hskip']
    · have hskip' : ¬ (t.scratch.isOther seq = true ∨ t.scratch.answeredLeg.isSome = true ∨
          t.scratch.failureHandled = true) := by
        rwa [h.isOther, h.answeredLeg, h.failureHandled]
      have hquiet : (s.withScratch fun sc => { sc with pendingLegs := [], dialComplete := true }).Alike
          (t.withScratch fun sc => { sc with pendingLegs := [], dialComplete := true }) :=
        ⟨.refl [], h.placed, h.distinct, by rw [h.rest]; rfl⟩
      refine hquiet.of_claim now h.ringing ?_ ?_
      · rw [Segment.perform, claimAfterDial_of_counted now hskip]
      · rw [Segment.perform, claimAfterDial_of_counted now hskip']

/-- **The same follows from whatever is done to segments that are alike.** -/
theorem Alike.run (h : s.Alike t) (acts : List Act) : (s.run acts).Alike (t.run acts) ∧
    s.decisions acts = t.decisions acts ∧ (s.hangUps acts).Perm (t.hangUps acts) := by
  induction acts generalizing s t with
  | nil => exact ⟨h, rfl, .rfl⟩
  | cons a acts ih =>
    obtain ⟨hafter, heffect⟩ := h.perform a
    obtain ⟨hrun, hdecisions, hhangUps⟩ := ih hafter
    refine ⟨hrun, ?_, ?_⟩
    · rw [decisions_cons, decisions_cons, heffect.decision, hdecisions]
    · rw [← List.singleton_append, hangUps_append, hangUps_append, hangUps_singleton, hangUps_singleton]
      exact heffect.hangUps.append hhangUps

end Switchboard.Segment
