import Switchboard.Proofs.Store.Lives
/-!
# Segments go onward

The callbacks of a call come in any order, and each kind of write looks at something else before it is made: whether the
segment is closed, whether it was answered, or at nothing.  None of them goes back on what the segment has come to
(`Segment.Onward`): one that is closed stays closed, one in progress is in progress until it is closed, and when it was
answered and that it has ended stay on record.  Whatever closes a segment notes when.
-/
namespace Switchboard

open Time (Instant)
open Store (Change CallRow.overwrite CallRow.change CallRow.handOn)

namespace Segment

/-- What a segment does not go back on. -/
structure Onward (s t : Segment) : Prop where
  closed : s.isClosed = true → t.isClosed = true
  joined : s.status = .inProgress → t.status = .inProgress ∨ t.isClosed = true
  answered : ∀ m, s.answeredAt = some m → t.answeredAt = some m
  ended : s.endedAt.isSome = true → t.endedAt.isSome = true
  /-- A status that closes the segment comes with the time of the end. -/
  dated : t.isClosed = true → t.status ≠ s.status → t.endedAt.isSome = true

namespace Onward

variable {s t u : Segment}

/-- A change that leaves the columns of the lifecycle alone. -/
theorem of_same (hstatus : t.status = s.status) (hanswered : t.answeredAt = s.answeredAt) (hended : t.endedAt = s.endedAt) :
    s.Onward t where
  closed h := by rwa [isClosed, hstatus]
  joined h := .inl (hstatus.trans h)
  answered _ h := hanswered.trans h
  ended h := by rwa [hended]
  dated _ hne := absurd hstatus hne

/-- A change that closes the segment and notes when. -/
theorem of_closed (hclosed : t.isClosed = true) (hended : t.endedAt.isSome = true)
    (hanswered : ∀ m, s.answeredAt = some m → t.answeredAt = some m) : s.Onward t where
  closed _ := hclosed
  joined _ := .inr hclosed
  answered := hanswered
  ended _ := hended
  dated _ _ := hended

/-- A change of an open segment that leaves it open. -/
theorem of_open (hopen : s.isClosed = false) (hopen' : t.isClosed = false)
    (hjoined : s.status = .inProgress → t.status = .inProgress)
    (hanswered : ∀ m, s.answeredAt = some m → t.answeredAt = some m) (hended : t.endedAt = s.endedAt) : s.Onward t where
  closed h := absurd (hopen.symm.trans h) Bool.false_ne_true
  joined h := .inl (hjoined h)
  answered := hanswered
  ended h := by rwa [hended]
  dated h := absurd (hopen'.symm.trans h) Bool.false_ne_true

theorem refl (s : Segment) : s.Onward s := .of_same rfl rfl rfl

theorem trans (h : s.Onward t) (h' : t.Onward u) : s.Onward u where
  closed hs := h'.closed (h.closed hs)
  joined hs := (h.joined hs).elim h'.joined fun ht => .inr (h'.closed ht)
  answered m hs := h'.answered m (h.answered m hs)
  ended hs := h'.ended (h.ended hs)
  dated hu hne := by
    by_cases hsame : u.status = t.status
    · -- The status was closing before the second change, and the first one dated it.
      exact h'.ended (h.dated (by rwa [isClosed, ← hsame]) (hsame ▸ hne))
    · exact h'.dated hu hsame

/-- **A segment in progress does not ring again.** -/
theorem not_ringing (h : s.Onward t) (hs : s.status = .inProgress) : t.status ≠ .ringing := by
  intro ht
  rcases h.joined hs with hjoined | hclosed
  · rw [ht] at hjoined
    cases hjoined
  · rw [isClosed, ht] at hclosed
    cases hclosed

end Onward

/-! ## Deeds -/

variable (s : Segment)

theorem onward_claimFailure (g : Scratch → Scratch) (now : Instant) : s.Onward ((s.withScratch g).claimFailure now).1 := by
  unfold claimFailure
  split
  · exact .of_same rfl rfl rfl
  · dsimp only
    split
    · exact .of_closed rfl rfl fun _ h => h
    · exact .of_same rfl rfl rfl

/-- **No act of an attempt goes back** on what the segment has come to. -/
theorem onward_after (a : Act) : s.Onward (s.after a) := by
  cases a with
  | start => exact .of_same rfl rfl rfl
  | callerJoins seq conferenceSid =>
    simp only [after, perform, callerJoined]
    cases Flow.given conferenceSid <;> repeat' split
    all_goals exact .of_same rfl rfl rfl
  | register seq leg target =>
    simp only [after, perform, registerLeg]
    repeat' split
    all_goals exact .of_same rfl rfl rfl
  | finish seq now =>
    simp only [after, perform, finishDialing]
    split
    · exact .refl s
    · exact onward_claimFailure s _ now
  | agentJoins leg seq now =>
    simp only [after, perform, agentAnswered]
    split
    · exact .refl s
    · split
      · exact .refl s
      · rename_i hfree
        rw [Bool.or_eq_true, not_or, Bool.not_eq_true, Bool.not_eq_true] at hfree
        refine .of_open hfree.2 rfl (fun _ => rfl) (fun m hm => ?_) rfl
        dsimp only [withScratch]
        rw [hm]
  | callerLeaves seq =>
    simp only [after, perform, terminatePending]
    split
    · exact .refl s
    · exact .of_same rfl rfl rfl
  | legEnds leg seq now =>
    simp only [after, perform, legEnded]
    split
    · exact .refl s
    · split
      · exact .refl s
      · exact onward_claimFailure s _ now
  | dialEnds seq now =>
    simp only [after, perform, claimAfterDial]
    split
    · exact .refl s
    · split
      · exact .refl s
      · exact onward_claimFailure s _ now

theorem onward_callerRinging : s.Onward s.callerRinging.1 := by
  unfold callerRinging
  split
  · rename_i hfree
    rw [Bool.and_eq_true, Bool.not_eq_true', Bool.not_eq_true'] at hfree
    refine .of_open hfree.2 rfl (fun hjoined => ?_) (fun _ h => h) rfl
    rw [wasAnswered, hjoined] at hfree
    cases hfree.1
  · exact .refl s

theorem onward_outgoingFinished (status : Status) (duration : Int) (now : Instant) :
    s.Onward (s.outgoingFinished status duration now).1 := by
  have hclosed : (if status.isFinal then status else .completed : Status).isClosed = true := by
    split
    · cases status <;> first | rfl | contradiction
    · rfl
  unfold outgoingFinished
  split
  · exact .refl s
  · dsimp only
    split
    · rename_i hunanswered
      refine .of_closed hclosed rfl fun m hm => ?_
      rw [hunanswered.2.2] at hm
      cases hm
    · exact .of_closed hclosed rfl fun _ h => h

/-- **No deed goes back** on what the segment has come to. -/
theorem onward_did (d : Deed) : s.Onward (s.did d) := by
  cases d with
  | act a => exact onward_after s a
  | callerGone status now final =>
    simp only [did, callerGone]
    split
    · exact .refl s
    · refine .of_closed ?_ rfl fun _ h => h
      show status.isClosed = true
      cases status <;> first | rfl | cases final
  | callerRinging => exact onward_callerRinging s
  | outgoingFinished status duration now => exact onward_outgoingFinished s status duration now
  | addTag | setVariable => exact .of_same rfl rfl rfl

end Segment

/-! ## Rows -/

namespace CallRow

variable {known : String → Prop} {crowded : Prop} {r r' : CallRow}

theorem onward_foldl_apply {changes : List Change} (h : changes.all Change.spares = true) (s : Segment) :
    s.Onward (changes.foldl Change.apply s) := by
  induction changes generalizing s with
  | nil => exact .refl s
  | cons c rest ih =>
    rw [List.all_cons, Bool.and_eq_true] at h
    refine .trans ?_ (ih h.2 (c.apply s))
    cases c with
    | status | answeredAt | endedAt | duration => cases h.1
    | _ => exact .of_same rfl rfl rfl

/-- **No write of a row goes back** on what its segment has come to. -/
theorem Write.onward (h : Write known crowded r r') : r.segment.Onward r'.segment := by
  cases h with
  | @deed s d hread hlegs =>
    -- The row has the columns of the segment that it reads as, before the write and behind it.
    have hrow : r.segment.Onward s := by
      rw [segment_of_read hread]
      exact .of_same rfl rfl rfl
    have hwritten : (s.did d).Onward (CallRow.overwrite (s.did d) r).segment := .of_same rfl rfl rfl
    exact hrow.trans ((Segment.onward_did s d).trans hwritten)
  | columns changes hspares =>
    have hcounted : (changes.foldl Change.apply r.segment).Onward (CallRow.change changes r).segment :=
      .of_same rfl rfl rfl
    exact (onward_foldl_apply hspares r.segment).trans hcounted
  | handOn h now duration hopen =>
    simp only [CallRow.handOn, CallRow.change, CallRow.written, List.foldl_cons, List.foldl_nil, Change.apply]
    exact .of_closed rfl rfl fun _ h => h
  | unreached now =>
    simp only [Change.unreached, CallRow.change, CallRow.written, List.foldl_cons, List.foldl_nil, Change.apply]
    exact .of_closed rfl rfl fun _ h => h

/-- **In its life a row only goes onward.** -/
theorem Writes.onward (h : Writes known crowded r r') : r.segment.Onward r'.segment := by
  induction h with
  | refl => exact .refl _
  | tail _ hw ih => exact ih.trans hw.onward

end CallRow

end Switchboard
