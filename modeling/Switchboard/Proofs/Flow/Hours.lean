import Switchboard.Flow.Schedule
import Switchboard.Proofs.Flow.Reading
import Switchboard.Proofs.Text.Digits
import Switchboard.Proofs.Text.Numeral
import Switchboard.Proofs.Text.Split
/-!
# Opening hours

A schedule says in words when a branch of it is open: on some weekdays, all day or between two times of day, by the clocks
of a zone.  Of the branches that were read the first open one is taken, and none if none is open
(`matchBranch_eq_some_iff`, `matchBranch_eq_none_iff`).  Times of day are compared as numbers, whatever the script of their
digits.
-/
namespace Switchboard.Time

/-- What a clock shows: the weekday, Sunday being 0, and the minute of the day.  The clock counts microseconds from the
start of a Thursday on, so a week begins three days behind it. -/
def Shows (clock weekday minute : Int) : Prop :=
  ∃ week rest, clock = ((7 * week + weekday + 3) * 1440 + minute) * (60 * second) + rest ∧
    (0 ≤ weekday ∧ weekday < 7) ∧ (0 ≤ minute ∧ minute < 1440) ∧ (0 ≤ rest ∧ rest < 60 * second)

/-- **A clock shows one weekday and one minute.** -/
theorem shows_iff {clock day minute : Int} : Shows clock day minute ↔
    day = weekday (clock / (86400 * second)) ∧ minute = clock % (86400 * second) / (60 * second) := by
  unfold Shows weekday second
  constructor
  · rintro ⟨week, rest, rfl, hday, hminute, hrest⟩
    omega
  · rintro ⟨rfl, rfl⟩
    refine ⟨(clock / (86400 * 1000000) + 4) / 7 - 1, clock % (60 * 1000000), ?_, ?_, ?_, ?_⟩ <;> omega

/-- How far the clocks of a zone are ahead; those of a zone that is not known are not. -/
def offsetOf (db : ZoneDatabase) (timezone : String) (now : Instant) : Int :=
  match db timezone with
  | some zone => zone now
  | none => 0

end Switchboard.Time

namespace Switchboard.Flow

open Time (Instant ZoneDatabase Shows)

/-! ## The rule -/

/-- The weekdays of a preset, Sunday being 0. -/
def DayPreset.On : DayPreset → Int → Prop
  | .weekdays, d => 1 ≤ d ∧ d ≤ 5
  | .weekends, d => d = 0 ∨ d = 6
  | .everyday, d => 0 ≤ d ∧ d ≤ 6

def Days.On : Days → Int → Prop
  | .preset p, d => p.On d
  | .list ds, d => d ∈ ds

/-- What minute of the day a time of day is: two digits for the hour and two for the minute, of any script. -/
def IsMinute (time : String) (minute : Int) : Prop :=
  ∃ (a b c d : Char) (h₁ h₀ m₁ m₀ : Nat), time.toList = [a, b, ':', c, d] ∧
    (Text.digitValue? a = some h₁ ∧ Text.digitValue? b = some h₀) ∧
    (Text.digitValue? c = some m₁ ∧ Text.digitValue? d = some m₀) ∧
    minute = (10 * h₁ + h₀) * 60 + (10 * m₁ + m₀)

/-- Whether a slot is open: on one of its days, all day or from its start on and before its end. -/
def TimeSlot.Open (s : TimeSlot) (weekday minute : Int) : Prop :=
  s.days.On weekday ∧ (s.allDay = true ∨ ∃ start stop from' until',
    s.startTime = some start ∧ s.endTime = some stop ∧ IsMinute start from' ∧ IsMinute stop until' ∧
      from' ≤ minute ∧ minute < until')

/-- Whether a branch is open at an instant, by the clocks of a zone. -/
def Branch.OpenAt (db : ZoneDatabase) (timezone : String) (now : Instant) (b : Branch) : Prop :=
  ∃ weekday minute, Shows (now + Time.offsetOf db timezone now * Time.second) weekday minute ∧
    ∃ s ∈ b.slots, s.Open weekday minute

/-! ## Slots -/

theorem Days.on_iff {days : Days} {d : Int} : days.weekdays.contains d = true ↔ days.On d := by
  cases days with
  | list ds => exact List.contains_iff_mem
  | preset p =>
    cases p <;> simp only [Days.weekdays, DayPreset.days, Days.On, DayPreset.On, List.contains_iff_mem, List.mem_cons,
      List.not_mem_nil, or_false]
    all_goals omega

theorem isDigit_of_range {c last : Char} (hfirst : '0' ≤ c) (hlast : c ≤ last) (h : last ≤ '9') : c.isDigit = true := by
  have hle := Char.le_trans hlast h
  simp only [Char.isDigit, Bool.and_eq_true, decide_eq_true_eq]
  exact ⟨hfirst, hle⟩

/-- **A time of day has its minute.** -/
theorem isMinute_iff {time : String} (h : isTimeOfDay time = true) {minute : Int} :
    IsMinute time minute ↔ minute = minutesOf time := by
  have hascii {c : Char} (hc : c.isDigit = true) : ∃ n, Text.digitValue? c = some n := ⟨_, Text.digitValue?_of_isDigit hc⟩
  unfold isTimeOfDay at h
  split at h
  swap
  · cases h
  rename_i a b colon c d hlist
  simp only [Bool.and_eq_true, Bool.or_eq_true, decide_eq_true_eq] at h
  obtain ⟨⟨⟨hhour, rfl⟩, hc₁, hc₂⟩, hd⟩ := h
  obtain ⟨h₁, ha⟩ : ∃ n, Text.digitValue? a = some n := by
    rcases hhour with ⟨rfl | rfl, -⟩ | ⟨⟨rfl, -⟩, -⟩
    all_goals exact ⟨_, rfl⟩
  obtain ⟨h₀, hb⟩ : ∃ n, Text.digitValue? b = some n := by
    rcases hhour with ⟨-, hb⟩ | ⟨⟨-, hb₁⟩, hb₂⟩
    · exact Text.isDigit_iff.mp hb
    · exact hascii (isDigit_of_range hb₁ hb₂ (by decide))
  obtain ⟨m₁, hc⟩ := hascii (isDigit_of_range hc₁ hc₂ (by decide))
  obtain ⟨m₀, hd⟩ := Text.isDigit_iff.mp hd
  have hcolon : ':' ∉ [a, b] := by
    have hno {e : Char} {n : Nat} (he : Text.digitValue? e = some n) : ':' ≠ e := by
      rintro rfl
      rw [show Text.digitValue? ':' = none by decide] at he
      cases he
    simp [hno ha, hno hb]
  have hminutes : minutesOf time = (10 * h₁ + h₀) * 60 + (10 * m₁ + m₀) := by
    unfold minutesOf
    rw [hlist, show [a, b, ':', c, d] = [a, b] ++ ':' :: [c, d] from rfl, Text.splitFirst_append _ hcolon]
    simp only [digitsNumber, List.filterMap_cons, ha, hb, hc, hd, List.filterMap_nil, List.foldl_cons, List.foldl_nil]
    omega
  constructor
  · rintro ⟨a', b', c', d', _, _, _, _, hlist', ⟨ha', hb'⟩, ⟨hc', hd'⟩, rfl⟩
    rw [hlist] at hlist'
    cases hlist'
    rw [ha] at ha'; rw [hb] at hb'; rw [hc] at hc'; rw [hd] at hd'
    cases ha'; cases hb'; cases hc'; cases hd'
    exact hminutes.symm
  · rintro rfl
    exact ⟨a, b, c, d, h₁, h₀, m₁, m₀, hlist, ⟨ha, hb⟩, ⟨hc, hd⟩, hminutes⟩

theorem given_of_isTimeOfDay {time : String} (h : isTimeOfDay time = true) : given (some time) = some time :=
  given_eq_some.mpr ⟨rfl, by rintro rfl; cases h⟩

/-- **A slot covers the weekdays and minutes at which it is open.** -/
theorem TimeSlot.covers_iff {s : TimeSlot} (hs : s.Fits) {weekday minute : Int} :
    s.covers weekday minute = true ↔ s.Open weekday minute := by
  obtain ⟨-, hstart, hend⟩ := hs
  rw [TimeSlot.covers, Bool.and_eq_true, Days.on_iff, Bool.or_eq_true, TimeSlot.Open]
  refine and_congr_right fun _ => or_congr_right ?_
  cases hs : s.startTime with
  | none => exact iff_of_false (fun h => nomatch h) fun ⟨_, _, _, _, h, _⟩ => nomatch h
  | some start =>
    cases he : s.endTime with
    | none =>
      refine iff_of_false (fun h => ?_) fun ⟨_, _, _, _, _, h, _⟩ => nomatch h
      cases hgiven : given (some start) <;> rw [hgiven] at h <;> cases h
    | some stop =>
      have hstart := hstart start hs
      have hend := hend stop he
      rw [given_of_isTimeOfDay hstart, given_of_isTimeOfDay hend]
      dsimp only
      rw [Bool.and_eq_true, decide_eq_true_eq, decide_eq_true_eq]
      constructor
      · exact fun h => ⟨start, stop, _, _, rfl, rfl, (isMinute_iff hstart).mpr rfl, (isMinute_iff hend).mpr rfl, h.1, h.2⟩
      · rintro ⟨_, _, _, _, ⟨⟩, ⟨⟩, ha, hb, hfrom, huntil⟩
        rw [(isMinute_iff hstart).mp ha] at hfrom
        rw [(isMinute_iff hend).mp hb] at huntil
        exact ⟨hfrom, huntil⟩

/-! ## Branches -/

def Branch.covers (weekday minute : Int) (b : Branch) : Bool := b.slots.any fun s => s.covers weekday minute

/-- **The first open branch**, counted from an index on. -/
theorem openBranch?_eq_some_iff {weekday minute : Int} {i : Nat} {b : Branch} : ∀ {first : Nat} {branches : List Branch},
    openBranch? weekday minute first branches = some (i, b) ↔ ∃ k, i = first + k ∧ branches[k]? = some b ∧
      b.covers weekday minute = true ∧ ∀ j c, j < k → branches[j]? = some c → c.covers weekday minute = false
  | first, [] => iff_of_false (fun h => nomatch h) fun ⟨_, _, h, _⟩ => nomatch h
  | first, d :: rest => by
    rw [openBranch?]
    split
    · rename_i hd
      constructor
      · rintro ⟨⟩
        exact ⟨0, rfl, rfl, hd, fun _ _ hj => nomatch hj⟩
      · rintro ⟨k, rfl, hk, hb, hbefore⟩
        cases k with
        | zero => cases hk; rfl
        | succ k => exact absurd (hbefore 0 d (Nat.succ_pos k) rfl) (by rw [Branch.covers, hd]; decide)
    · rename_i hd
      rw [Bool.not_eq_true] at hd
      rw [openBranch?_eq_some_iff]
      constructor
      · rintro ⟨k, rfl, hk, hb, hbefore⟩
        refine ⟨k + 1, by omega, hk, hb, fun j c hj hc => ?_⟩
        cases j with
        | zero => cases hc; exact hd
        | succ j => exact hbefore j c (Nat.lt_of_succ_lt_succ hj) hc
      · rintro ⟨k, rfl, hk, hb, hbefore⟩
        cases k with
        | zero => cases hk; exact absurd hb (by rw [Branch.covers, hd]; decide)
        | succ k => exact ⟨k, by omega, hk, hb, fun j c hj hc => hbefore (j + 1) c (Nat.succ_lt_succ hj) hc⟩

theorem openBranch?_eq_none_iff {weekday minute : Int} : ∀ {first : Nat} {branches : List Branch},
    openBranch? weekday minute first branches = none ↔ ∀ b ∈ branches, b.covers weekday minute = false
  | first, [] => iff_of_true rfl fun _ h => nomatch h
  | first, d :: rest => by
    rw [openBranch?, List.forall_mem_cons, ← @openBranch?_eq_none_iff _ _ (first + 1), Branch.covers]
    split
    · rename_i hd
      exact iff_of_false (fun h => nomatch h) fun h => absurd (hd.symm.trans h.1) (by decide)
    · rename_i hd
      exact ⟨fun h => ⟨Bool.not_eq_true _ ▸ hd, h⟩, And.right⟩

section Rule

variable {db : ZoneDatabase} {timezone : String} {now : Instant} {branches : List Branch}

theorem shows_localTime (db : ZoneDatabase) (timezone : String) (now : Instant) :
    Shows (now + Time.offsetOf db timezone now * Time.second) (localTime db timezone now).1 (localTime db timezone now).2 := by
  rw [Time.shows_iff]
  unfold localTime Time.localMoment Time.Moment.wall Time.offsetOf
  cases db timezone <;> exact ⟨rfl, rfl⟩

/-- **A branch is open** exactly if a slot of it covers what the clock shows. -/
theorem Branch.openAt_iff {b : Branch} (hb : ∀ s ∈ b.slots, s.Fits) :
    b.OpenAt db timezone now ↔ b.covers (localTime db timezone now).1 (localTime db timezone now).2 = true := by
  have hshows := shows_localTime db timezone now
  rw [Branch.covers, List.any_eq_true]
  constructor
  · rintro ⟨weekday, minute, hshown, s, hs, hopen⟩
    obtain ⟨hday, hminute⟩ := Time.shows_iff.mp hshown
    obtain ⟨hday', hminute'⟩ := Time.shows_iff.mp hshows
    refine ⟨s, hs, (TimeSlot.covers_iff (hb s hs)).mpr ?_⟩
    rw [hday', hminute', ← hday, ← hminute]
    exact hopen
  · rintro ⟨s, hs, hcovers⟩
    exact ⟨_, _, hshows, s, hs, (TimeSlot.covers_iff (hb s hs)).mp hcovers⟩

variable (hfit : ∀ b ∈ branches, ∀ s ∈ b.slots, s.Fits)

include hfit

theorem matchBranch_eq_some_iff {i : Nat} {b : Branch} : matchBranch db timezone branches now = some (i, b) ↔
    branches[i]? = some b ∧ b.OpenAt db timezone now ∧
      ∀ j c, j < i → branches[j]? = some c → ¬ c.OpenAt db timezone now := by
  have hopen {j : Nat} {c : Branch} (hc : branches[j]? = some c) : c.OpenAt db timezone now ↔
      c.covers (localTime db timezone now).1 (localTime db timezone now).2 = true :=
    Branch.openAt_iff (hfit c (List.mem_of_getElem? hc))
  rw [matchBranch]
  dsimp only
  rw [openBranch?_eq_some_iff]
  constructor
  · rintro ⟨k, rfl, hk, hb, hbefore⟩
    rw [Nat.zero_add]
    exact ⟨hk, (hopen hk).mpr hb, fun j c hj hc h => Bool.false_ne_true ((hbefore j c hj hc).symm.trans ((hopen hc).mp h))⟩
  · rintro ⟨hk, hb, hbefore⟩
    exact ⟨i, (Nat.zero_add i).symm, hk, (hopen hk).mp hb, fun j c hj hc =>
      Bool.eq_false_iff.mpr (mt (hopen hc).mpr (hbefore j c hj hc))⟩

theorem matchBranch_eq_none_iff : matchBranch db timezone branches now = none ↔
    ∀ b ∈ branches, ¬ b.OpenAt db timezone now := by
  rw [matchBranch]
  dsimp only
  rw [openBranch?_eq_none_iff]
  exact forall₂_congr fun b hb => by rw [Branch.openAt_iff (hfit b hb), Bool.not_eq_true]

end Rule

end Switchboard.Flow
