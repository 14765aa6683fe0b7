import Switchboard.Proofs.Flow.Hours
import Switchboard.Proofs.Flow.Paths
import Switchboard.Proofs.Service.Interleaving
import Switchboard.Service.Interpreter
/-!
# Schedules that run

A schedule runs the steps of the first branch that is open, under the address of that branch, or those of its fallback if
none is (`schedule_runs_first_open`).  A branch that is taken for its slots is the first with these slots, so whoever looks
for a branch like it finds it, also among equal ones.
-/
namespace Switchboard

open Switchboard.Flow (Step Body Branch Child Selector)
open Time (Instant ZoneDatabase)

namespace Work

/-- Runs a list below a step in the same response.  From an empty list the caller goes on behind the step. -/
def runNested (c : CallContext) (branch : Option String) (index : Nat) (selector : Selector) (steps : List Step) :
    Work Outcome :=
  if steps.isEmpty then return .advance []
  else return ⟨← runFrom c .inline (some (Flow.branchPath branch index selector.text)) 0 (some 0) steps, .stop⟩

theorem runBranches_eq (c : CallContext) (branch : Option String) (index : Nat) (weekday minute : Int) :
    ∀ (i : Nat) (branches : List Branch), runBranches c branch index weekday minute i branches =
      match Flow.openBranch? weekday minute i branches with
      | some (j, b) => some <$> runNested c branch index (.branch j) b.steps
      | none => pure none
  | i, [] => by rw [runBranches, Flow.openBranch?]
  | i, ⟨id, name, slots, steps⟩ :: rest => by
    rw [runBranches, Flow.openBranch?]
    split
    · dsimp only
      rw [runNested]
      split
      · rfl
      · simp only [map_bind, map_pure]
    · exact runBranches_eq c branch index weekday minute (i + 1) rest

/-- Runs the list that a schedule has chosen: that of a branch, or the fallback. -/
def runChosen (c : CallContext) (branch : Option String) (index : Nat) (fallback : List Step) :
    Option (Nat × Branch) → Work Outcome
  | some (i, b) => runNested c branch index (.branch i) b.steps
  | none => runNested c branch index .fallback fallback

/-- **A schedule runs the list that it chooses.** -/
theorem runBody_schedule (c : CallContext) (branch : Option String) (index : Nat) (attempt : Option Int) (timezone : String)
    (branches : List Branch) (fallback : List Step) :
    runBody c branch index attempt (.schedule timezone branches fallback) =
      Task.asks (fun st => Flow.matchBranch st.zones timezone branches st.now) >>= runChosen c branch index fallback := by
  rw [runBody]
  refine congrArg Task.look (funext fun st => ?_)
  show (runBranches c branch index (Flow.localTime st.zones timezone st.now).1
    (Flow.localTime st.zones timezone st.now).2 0 branches >>= _) =
      runChosen c branch index fallback (Flow.openBranch? (Flow.localTime st.zones timezone st.now).1
        (Flow.localTime st.zones timezone st.now).2 0 branches)
  rw [runBranches_eq]
  cases Flow.openBranch? (Flow.localTime st.zones timezone st.now).1 (Flow.localTime st.zones timezone st.now).2 0 branches with
  | none => rfl
  | some p =>
    dsimp only
    rw [bind_map_left, bind_pure]
    rfl

end Work

namespace Flow

theorem mem_branchChildren {b : Branch} : ∀ {branches : List Branch} {first k : Nat}, branches[k]? = some b →
    ⟨.branch (first + k), "branch[" ++ b.name ++ "]", b.steps⟩ ∈ branchChildren first branches
  | d :: rest, first, 0, h => by
    cases h
    exact List.mem_cons_self
  | d :: rest, first, k + 1, h => by
    rw [show first + (k + 1) = first + 1 + k by omega]
    exact List.mem_cons_of_mem _ (mem_branchChildren h)

/-- **A zone that is not known** keeps universal time. -/
theorem matchBranch_of_unknown {db : ZoneDatabase} {timezone : String} (h : db timezone = none) (branches : List Branch)
    (now : Instant) :
    matchBranch db timezone branches now = matchBranch (fun _ => some (Time.fixed 0)) timezone branches now := by
  unfold matchBranch localTime Time.localMoment
  rw [h]
  rfl

/-- **A schedule runs its first open branch.**  Of a schedule that was read, at any instant and by any zones: the branch
that is taken is the first one that is open, and none is taken exactly if none is open; where the zone is not known clocks
show universal time.  A run of the schedule runs the steps of the branch that is taken, or the fallback, and goes on behind
the schedule where these are none.  The steps run under the address of that branch, which leads to them, and no branch
before it has the same slots. -/
theorem schedule_runs_first_open {depth : Nat} {v : Json} {timezone : String} {branches : List Branch}
    {fallback : List Step} (h : (Body.read (readSteps depth) .schedule v).value? = some (.schedule timezone branches fallback)) :
    (∀ db now i b, matchBranch db timezone branches now = some (i, b) ↔
      branches[i]? = some b ∧ b.OpenAt db timezone now ∧
        ∀ j c, j < i → branches[j]? = some c → ¬ c.OpenAt db timezone now) ∧
    (∀ db now, matchBranch db timezone branches now = none ↔ ∀ b ∈ branches, ¬ b.OpenAt db timezone now) ∧
    (∀ db now, db timezone = none →
      matchBranch db timezone branches now = matchBranch (fun _ => some (Time.fixed 0)) timezone branches now) ∧
    (∀ c path index attempt, Work.runBody c path index attempt (.schedule timezone branches fallback) =
      Task.asks (fun st => matchBranch st.zones timezone branches st.now) >>= Work.runChosen c path index fallback) ∧
    ∀ db now i b, matchBranch db timezone branches now = some (i, b) →
      (∀ id label, childOf? ⟨id, label, .schedule timezone branches fallback⟩ (Selector.branch i).text = some b.steps) ∧
        ∀ j c, j < i → branches[j]? = some c → c.slots ≠ b.slots := by
  have hread : Input.Gives (Body.read (readSteps depth) .schedule) Body.Fits := fun v =>
    Input.Gives.object (fun _ _ hb => (Body.fits_of_fields (fits_of_readSteps depth) hb).1) _
  have hfit : ∀ b ∈ branches, ∀ s ∈ b.slots, s.Fits := hread v _ h
  refine ⟨fun db now i b => matchBranch_eq_some_iff hfit, fun db now => matchBranch_eq_none_iff hfit,
    fun db now hdb => matchBranch_of_unknown hdb branches now,
    fun c path index attempt => Work.runBody_schedule c path index attempt timezone branches fallback,
    fun db now i b hchosen => ?_⟩
  obtain ⟨hi, hopen, hbefore⟩ := (matchBranch_eq_some_iff hfit).mp hchosen
  refine ⟨fun id label => ?_, fun j c hj hc hslots => hbefore j c hj hc ?_⟩
  · have hmem : ⟨.branch (0 + i), "branch[" ++ b.name ++ "]", b.steps⟩ ∈ branchChildren 0 branches := mem_branchChildren hi
    have hchild := List.mem_append_left [(⟨.fallback, "fallback", fallback⟩ : Child)] hmem
    rw [Nat.zero_add] at hchild
    exact childOf?_of_mem (s := ⟨id, label, .schedule timezone branches fallback⟩) hchild
  · -- Whether a branch is open is said of its slots alone.
    obtain ⟨weekday, minute, hshows, s, hs, hs'⟩ := hopen
    exact ⟨weekday, minute, hshows, s, hslots ▸ hs, hs'⟩

/-- Opened at night by the clocks of Tokyo, in two branches that are equal. -/
def nights : List Branch :=
  let night : Branch := ⟨"night", "Night", [⟨.list [4], some "00:00", some "06:00", false⟩], [⟨"h", none, .hangup none⟩]⟩
  [⟨"day", "Day", [⟨.preset .weekdays, some "09:00", some "17:00", false⟩], []⟩, night, night]

/-- It is Wednesday afternoon by universal time, and midnight in Tokyo, where Thursday begins. -/
theorem night_begins_in_tokyo :
    let slot (days : Json) (start stop : String) : Json :=
      .obj [("days", days), ("startTime", .str start), ("endTime", .str stop)]
    let night : Json := .obj [("id", .str "night"), ("name", .str "Night"),
      ("timeSlots", .arr [slot (.arr [.int 4]) "00:00" "06:00"]),
      ("steps", .arr [.obj [("id", .str "h"), ("type", .str "hangup"), ("config", .obj [])]])]
    let day : Json := .obj [("id", .str "day"), ("name", .str "Day"),
      ("timeSlots", .arr [slot (.str "weekdays") "09:00" "17:00"])]
    let v : Json := .obj [("timezone", .str "Asia/Tokyo"), ("branches", .arr [day, night, night])]
    (Body.read (readSteps 3) .schedule v).value? = some (.schedule "Asia/Tokyo" nights []) ∧
      matchBranch Time.standardZones "Asia/Tokyo" nights (1792594800 * Time.second) = nights[1]?.map (1, ·) ∧
      ∀ b, nights[1]? = some b → b.OpenAt Time.standardZones "Asia/Tokyo" (1792594800 * Time.second) := by
  intro slot night day v
  have hread : (Body.read (readSteps 3) .schedule v).value? = some (.schedule "Asia/Tokyo" nights []) := rfl
  have hchosen : matchBranch Time.standardZones "Asia/Tokyo" nights (1792594800 * Time.second) = nights[1]?.map (1, ·) := rfl
  refine ⟨hread, hchosen, fun b hb => ?_⟩
  rw [hb] at hchosen
  exact ((schedule_runs_first_open hread).1 _ _ 1 b |>.mp hchosen).2.1

end Flow

end Switchboard
