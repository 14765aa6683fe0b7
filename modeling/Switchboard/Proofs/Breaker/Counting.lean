import Switchboard.Breaker
/-!
# Failures in a row

A breaker keeps the number of the failures since the last success and the time of the latest of them, and it is closed
exactly while they are fewer than its threshold (`Breaker.Tallies`).  A call that starts or ends keeps it so, whatever other
calls are on their way.  Where no calls overlap nothing is ever left half-open, so a call is carried out exactly where the
failures before it are too few to open the breaker, or where the latest of them is longer ago than the recovery time
(`counts_failures_in_a_row`).
-/
namespace Switchboard.Breaker

variable {τ α : Type} {l : BreakerLimits τ} {b : Breaker τ} {failed : List τ}

/-! ## What a breaker keeps -/

/-- A breaker behind failures in a row, given with their times, the latest first. -/
structure Tallies (l : BreakerLimits τ) (b : Breaker τ) (failed : List τ) : Prop where
  count : b.failures = failed.length
  closed : b.state = .closed ↔ (failed.length : Int) < l.threshold
  last : ∀ t ∈ failed.head?, b.lastFailure = t

theorem tallies_fresh [OfNat τ 0] (hl : 1 ≤ l.threshold) : Tallies l fresh [] where
  count := rfl
  closed := by simp [fresh]; omega
  last := by simp

namespace Tallies

theorem fail (h : Tallies l b failed) (now : τ) : Tallies l (b.fail l now) (now :: failed) where
  count := by simp [Breaker.fail, h.count]
  closed := by
    have hcount := h.count
    have hclosed := h.closed
    -- what is not closed has reached the threshold before
    cases hs : b.state <;> simp [Breaker.fail, hs, hcount] at hclosed ⊢ <;> omega
  last := by simp [Breaker.fail]

theorem succeed (hl : 1 ≤ l.threshold) : Tallies l b.succeed [] where
  count := rfl
  closed := by simp [Breaker.succeed]; omega
  last := by simp

/-- **A call that ends** adds its failure or ends the row. -/
theorem finish (hl : 1 ≤ l.threshold) (h : Tallies l b failed) (now : τ) (succeeded : Bool) :
    Tallies l (b.finish l now succeeded) (if succeeded then [] else now :: failed) := by
  cases succeeded with
  | true => exact succeed hl
  | false => exact h.fail now

theorem opened_iff (h : Tallies l b failed) :
    b.state = .opened ↔ b.state ≠ .halfOpen ∧ l.threshold ≤ failed.length := by
  rw [← Int.not_lt, ← h.closed]
  cases b.state <;> simp

end Tallies

@[simp] theorem finish_state_ne (now : τ) (succeeded : Bool) : (b.finish l now succeeded).state ≠ .halfOpen := by
  cases succeeded <;> cases hs : b.state <;> simp [finish, succeed, fail, hs]
  split <;> simp

/-! ## Starts -/

variable [Sub τ] [LT τ] [DecidableLT τ]

/-- **What a start does**: it goes through where the breaker is not open, it probes an open breaker behind the recovery time,
and otherwise it is held back. -/
theorem start_cases (l : BreakerLimits τ) (b : Breaker τ) (now : τ) :
    (b.state ≠ .opened ∧ b.start l now = (true, b)) ∨
      (b.state = .opened ∧ l.recovery < now - b.lastFailure ∧ b.start l now = (true, { b with state := .halfOpen })) ∨
      (b.state = .opened ∧ ¬ l.recovery < now - b.lastFailure ∧ b.start l now = (false, b)) := by
  by_cases hopened : b.state = .opened
  · by_cases hrecovered : l.recovery < now - b.lastFailure <;> simp [start, hopened, hrecovered]
  · left
    unfold start
    split
    · contradiction
    · exact ⟨hopened, rfl⟩

/-- **A call that is held back** leaves the breaker as it is. -/
theorem start_of_heldBack {now : τ} (h : (b.start l now).1 = false) : (b.start l now).2 = b := by
  rcases start_cases l b now with ⟨-, hs⟩ | ⟨-, -, hs⟩ | ⟨-, -, hs⟩ <;> simp_all

namespace Tallies

/-- **A call that starts** leaves the row as it is. -/
theorem start (h : Tallies l b failed) (now : τ) : Tallies l (b.start l now).2 failed := by
  rcases start_cases l b now with ⟨-, hs⟩ | ⟨hopened, -, hs⟩ | ⟨-, -, hs⟩ <;> rw [hs]
  · exact h
  · refine ⟨h.count, ?_, h.last⟩
    rw [← h.closed, hopened]
    simp
  · exact h

/-- **Which calls are held back**: those at an open breaker that come too soon behind the latest failure. -/
theorem heldBack_iff (hl : 1 ≤ l.threshold) (h : Tallies l b failed) {now : τ} :
    (b.start l now).1 = false ↔
      b.state ≠ .halfOpen ∧ l.threshold ≤ failed.length ∧ ∀ t ∈ failed.head?, ¬ l.recovery < now - t := by
  have hheld : (b.start l now).1 = false ↔ b.state = .opened ∧ ¬ l.recovery < now - b.lastFailure := by
    rcases start_cases l b now with ⟨_, hs⟩ | ⟨_, _, hs⟩ | ⟨_, _, hs⟩ <;> simp_all
  rw [hheld, h.opened_iff, and_assoc]
  refine and_congr_right fun _ => and_congr_right fun hmany => ?_
  -- a breaker that is open has failed at least once
  cases failed with
  | nil =>
    simp at hmany
    omega
  | cons t rest =>
    rw [h.last t rfl]
    simp

end Tallies

/-! ## Calls one after another -/

/-- The calls of a history that failed since the last success, the latest first. -/
def failuresInARow (done : List (Served τ α)) : List (Served τ α) :=
  (done.reverse.filter Served.carriedOut).takeWhile fun s => !s.call.ending.succeeded

/-- The breaker behind a history. -/
def behind (b : Breaker τ) (done : List (Served τ α)) : Breaker τ := (done.getLast?.map Served.breaker).getD b

omit [Sub τ] [LT τ] [DecidableLT τ] in
theorem failuresInARow_concat (done : List (Served τ α)) (s : Served τ α) :
    failuresInARow (done ++ [s]) =
      if s.carriedOut then (if s.call.ending.succeeded then [] else s :: failuresInARow done) else failuresInARow done := by
  cases hc : s.carriedOut <;> cases hs : s.call.ending.succeeded <;> simp [failuresInARow, hc, hs]

/-- The times at which the failures in a row were told. -/
abbrev failureTimes (done : List (Served τ α)) : List τ := (failuresInARow done).map fun s => s.call.ended

/-- What a breaker is behind a history of calls that do not overlap. -/
structure Counts (l : BreakerLimits τ) (b : Breaker τ) (done : List (Served τ α)) : Prop where
  tallies : Tallies l b (failureTimes done)
  settled : b.state ≠ .halfOpen

theorem serve_call (c : Asked τ α) : (serve l b c).call = c := by
  simp only [serve]
  split <;> rfl

theorem serve_carriedOut (c : Asked τ α) : (serve l b c).carriedOut = (b.start l c.began).1 := by
  simp only [serve]
  split <;> simp_all

theorem serve_of_carriedOut {c : Asked τ α} (h : (serve l b c).carriedOut = true) :
    (serve l b c).answer = c.ending.answer c.fallback ∧
      (serve l b c).breaker = (b.start l c.began).2.finish l c.ended c.ending.succeeded := by
  rw [serve_carriedOut] at h
  simp [serve, h]

/-- **A call that is held back** is given its fallback, and nothing changes. -/
theorem serve_of_heldBack {c : Asked τ α} (h : (serve l b c).carriedOut = false) :
    (serve l b c).answer = c.fallback ∧ (serve l b c).breaker = b := by
  rw [serve_carriedOut] at h
  simp [serve, h, start_of_heldBack h]

namespace Counts

variable {done : List (Served τ α)}

theorem serve (hl : 1 ≤ l.threshold) (h : Counts l b done) (c : Asked τ α) :
    Counts l (serve l b c).breaker (done ++ [Breaker.serve l b c]) := by
  have hcall := serve_call (l := l) (b := b) c
  cases hc : (Breaker.serve l b c).carriedOut with
  | false =>
    rw [(serve_of_heldBack hc).2]
    constructor
    · rw [failureTimes, failuresInARow_concat, hc]
      exact h.tallies
    · exact h.settled
  | true =>
    rw [(serve_of_carriedOut hc).2]
    constructor
    · have hended := (h.tallies.start c.began).finish hl c.ended c.ending.succeeded
      rw [failureTimes, failuresInARow_concat, hc, hcall]
      cases hs : c.ending.succeeded <;> simp [hs] at hended ⊢
      · simpa [hcall] using hended
      · exact hended
    · exact finish_state_ne _ _

theorem carriedOut_iff (hl : 1 ≤ l.threshold) (h : Counts l b done) (c : Asked τ α) :
    (Breaker.serve l b c).carriedOut = true ↔
      ((failuresInARow done).length : Int) < l.threshold ∨
        ∃ f ∈ (failuresInARow done).head?, l.recovery < c.began - f.call.ended := by
  rw [serve_carriedOut, ← Bool.not_eq_false, h.tallies.heldBack_iff hl]
  cases hrow : failuresInARow done <;> simp [h.settled, failureTimes, hrow, Decidable.imp_iff_not_or]

omit [Sub τ] [LT τ] [DecidableLT τ] in
theorem state_eq (h : Counts l b done) :
    b.state = if l.threshold ≤ (failuresInARow done).length then .opened else .closed := by
  have hopened := h.tallies.opened_iff
  have hclosed := h.tallies.closed
  have hsettled := h.settled
  rw [List.length_map] at hopened hclosed
  split
  · rename_i hmany
    exact hopened.2 ⟨hsettled, hmany⟩
  · rename_i hfew
    exact hclosed.2 (Int.not_le.1 hfew)

/-- **Each call of a sequence** is served by a breaker that counts the calls before it. -/
theorem at_call (hl : 1 ≤ l.threshold) : ∀ (cs : List (Asked τ α)) {b : Breaker τ} {done : List (Served τ α)},
    Counts l b done → ∀ {before s after}, serveAll l b cs = before ++ s :: after →
      Counts l (behind b before) (done ++ before) ∧ s = Breaker.serve l (behind b before) s.call
  | [], _, _, _, before, _, _, hs => by cases before <;> cases hs
  | c :: cs, b, done, h, before, s, after, hs => by
    rw [serveAll] at hs
    cases before with
    | nil =>
      simp only [List.nil_append, List.cons.injEq] at hs
      obtain ⟨rfl, -⟩ := hs
      rw [serve_call]
      simpa [behind] using h
    | cons first before =>
      simp only [List.cons_append, List.cons.injEq] at hs
      obtain ⟨rfl, hrest⟩ := hs
      obtain ⟨hcounts, hserved⟩ := at_call hl cs (h.serve hl c) hrest
      have hbehind : behind (Breaker.serve l b c).breaker before = behind b (Breaker.serve l b c :: before) := by
        cases hlast : before.getLast? <;> simp [behind, List.getLast?_cons, hlast]
      rw [List.append_assoc, List.singleton_append, hbehind] at hcounts
      rw [hbehind] at hserved
      exact ⟨hcounts, hserved⟩

end Counts

theorem map_call_serveAll : ∀ (cs : List (Asked τ α)) (b : Breaker τ), (serveAll l b cs).map Served.call = cs
  | [], _ => rfl
  | c :: cs, b => by rw [serveAll, List.map_cons, serve_call, map_call_serveAll cs]

/-- **Calls that take no time** go as those that are told by their time and their success alone. -/
theorem calls_eq_serveAll : ∀ (cs : List (Asked τ α)) (b : Breaker τ), (∀ c ∈ cs, c.ended = c.began) →
    calls l b (cs.map fun c => (c.began, c.ending.succeeded)) =
      (serveAll l b cs).map fun s => (s.carriedOut && s.call.ending.succeeded, s.breaker)
  | [], _, _ => rfl
  | c :: cs, b, h => by
    have hc : c.ended = c.began := h c List.mem_cons_self
    have hcall : b.call l c.began c.ending.succeeded = ((serve l b c).carriedOut, (serve l b c).breaker) := by
      simp only [call, serve, hc]
      split <;> rfl
    simp only [List.map_cons, calls, serveAll, hcall, serve_call]
    rw [calls_eq_serveAll cs _ fun d hd => h d (List.mem_cons_of_mem c hd)]

/-- **A breaker counts failures in a row.**  Of calls that come one after another each is served once and in order.  It is
carried out exactly where fewer calls than the threshold have failed in a row before it, or where the latest of these ended
longer ago than the recovery time.  A call that is held back is given its fallback and changes nothing, one that is carried
out and fails is given its fallback, and one that succeeds its answer.  Behind each call the breaker has counted the failures
in a row, and it is open where they have reached the threshold and closed otherwise. -/
theorem counts_failures_in_a_row [OfNat τ 0] (hl : 1 ≤ l.threshold) (cs : List (Asked τ α)) :
    (serveAll l fresh cs).map Served.call = cs ∧
      ∀ before s after, serveAll l fresh cs = before ++ s :: after →
        (s.carriedOut = true ↔
          ((failuresInARow before).length : Int) < l.threshold ∨
            ∃ f ∈ (failuresInARow before).head?, l.recovery < s.call.began - f.call.ended) ∧
        (s.carriedOut = false → s.answer = s.call.fallback ∧ s.breaker = behind fresh before) ∧
        (s.carriedOut = true → s.call.ending.succeeded = false → s.answer = s.call.fallback) ∧
        (∀ a, s.carriedOut = true → s.call.ending = .answered a → s.answer = a) ∧
        s.breaker.failures = ((failuresInARow (before ++ [s])).length : Int) ∧
        s.breaker.state = if l.threshold ≤ (failuresInARow (before ++ [s])).length then .opened else .closed := by
  refine ⟨map_call_serveAll cs fresh, fun before s after hs => ?_⟩
  have hfresh : Counts l fresh ([] : List (Served τ α)) := ⟨tallies_fresh hl, by simp [fresh]⟩
  obtain ⟨hbefore, hserved⟩ := Counts.at_call hl cs hfresh hs
  rw [List.nil_append] at hbefore
  have hbehind := hbefore.serve hl s.call
  rw [← hserved] at hbehind
  have hcarried := hbefore.carriedOut_iff hl s.call
  rw [← hserved] at hcarried
  have hanswer (h : s.carriedOut = true) : s.answer = s.call.ending.answer s.call.fallback := by
    rw [hserved] at h ⊢
    rw [(serve_of_carriedOut h).1, serve_call]
  refine ⟨hcarried, fun h => ?_, fun h hfails => ?_, fun a h ha => ?_, ?_, hbehind.state_eq⟩
  · rw [hserved] at h ⊢
    rw [serve_call]
    exact serve_of_heldBack h
  · rw [hanswer h]
    cases hending : s.call.ending with
    | answered a => rw [hending] at hfails; cases hfails
    | failed | timedOut => rfl
  · rw [hanswer h, ha]
    rfl
  · rw [hbehind.tallies.count, List.length_map]

/-- Two calls fail, so the next is held back; when the time to recover is over one is carried out again. -/
theorem held_back_until_recovered :
    let l : BreakerLimits Int := ⟨2, 30⟩
    let cs : List (Asked Int String) :=
      [⟨0, 1, .failed, "-"⟩, ⟨2, 12, .timedOut, "-"⟩, ⟨42, 43, .answered "a", "-"⟩, ⟨43, 44, .answered "b", "-"⟩]
    let served := serveAll l fresh cs
    1 ≤ l.threshold ∧ served.map Served.answer = ["-", "-", "-", "b"] ∧
      ∀ before s after, served = before ++ s :: after →
        (s.carriedOut = true ↔ ((failuresInARow before).length : Int) < 2 ∨
          ∃ f ∈ (failuresInARow before).head?, 30 < s.call.began - f.call.ended) := by
  intro l cs served
  have hl : 1 ≤ l.threshold := by decide
  exact ⟨hl, rfl, fun before s after hs => ((counts_failures_in_a_row hl cs).2 before s after hs).1⟩

end Switchboard.Breaker
