import Mathlib.Data.Prod.Lex
import Switchboard.Proofs.Service.Disposing
import Switchboard.Proofs.Web.DialEnds
/-!
# What is left of a flow

An answer of a flow tells the provider where to ask next.  The rank of such an address is what is left of the flow there:
first how many steps stand behind the place or below it, then how often the step itself may be come to again, as a menu is
replayed and a round robin dials its destinations one after another.  Whatever is answered at an address, every address in
the answer has a smaller rank, and so has each that is decided on for an attempt that is opened there.
-/
namespace Switchboard

open Switchboard.Flow (Step Body Steps)
open Web (Event flowReply)

/-- A flow whose steps and destinations are so few that their numbers are read back as they are written. -/
structure Flow.Addressable (root : Steps) : Prop where
  steps : Text.Readable (flat root).length
  destinations : ∀ x ∈ flat root, ∀ d, x.body = .roundRobin d → Text.Readable d.destinations.length

/-- How many destinations a step dials one after another. -/
def Flow.Body.tried : Body → Nat
  | .roundRobin d => d.destinations.length
  | _ => 0

instance (root : Steps) : Decidable (Flow.Addressable root) :=
  decidable_of_iff (Text.Readable (Flow.flat root).length ∧ ∀ x ∈ Flow.flat root, Text.Readable x.body.tried)
    ⟨fun h => ⟨h.1, fun x hx d hd => by simpa [hd, Flow.Body.tried] using h.2 x hx⟩, fun h => ⟨h.steps, fun x hx => by
      unfold Flow.Body.tried
      split
      · exact h.destinations x hx _ ‹_›
      · decide⟩⟩

namespace Work

/-! ## Ranks -/

/-- Steps that are left, and then addresses that may still be given for the step at hand. -/
abbrev Rank : Type := Nat ×ₗ Nat

theorem Rank.lt_of_steps {m n : Nat} (h : m < n) (j k : Nat) : (toLex (m, j) : Rank) < toLex (n, k) :=
  Prod.Lex.toLex_lt_toLex.2 (.inl h)

theorem Rank.lt_of_turns (m : Nat) {j k : Nat} (h : j < k) : (toLex (m, j) : Rank) < toLex (m, k) :=
  Prod.Lex.toLex_lt_toLex.2 (.inr ⟨rfl, h⟩)

/-- A bound on how often a step gives its own address, told of an attempt. -/
def turnsLeft (body : Body) (told : Option Int) : Nat :=
  match body, told with
  | .menu p _ _, some n => (p.retries - n).toNat + 2
  | .roundRobin d, some n => 2 * (d.destinations.length - n).toNat + 2
  | _, _ => 2

theorem two_le_turnsLeft (body : Body) (told : Option Int) : 2 ≤ turnsLeft body told := by
  unfold turnsLeft
  split <;> omega

namespace Spot

variable {s t : Spot} {x : Step}

/-- How many steps stand in the rest of the list, at any depth. -/
def weight (s : Spot) : Nat := (Flow.flat (s.list.drop s.index)).length

def rank (s : Spot) : Rank := toLex (s.weight, (s.step?.map fun x => turnsLeft x.body s.attempt).getD 0)

/-- **A step weighs** one more than what is below it and behind it. -/
theorem weight_eq (hx : s.step? = some x) :
    s.weight = (x.children.flatMap fun c => Flow.flat c.steps).length + s.behind.weight + 1 := by
  obtain ⟨hindex, hget⟩ := List.getElem?_eq_some_iff.1 hx
  have hdrop : s.list.drop s.index = x :: s.list.drop (s.index + 1) := by rw [List.drop_eq_getElem_cons hindex, hget]
  show (Flow.flat (s.list.drop s.index)).length = _ + (Flow.flat (s.list.drop (s.index + 1))).length + 1
  rw [hdrop, Flow.flat_cons, List.length_cons, List.length_append]

theorem weight_behind (hx : s.step? = some x) : s.behind.weight < s.weight := by
  rw [weight_eq hx]
  omega

theorem weight_under (hx : s.step? = some x) {child : Flow.Child} (hchild : child ∈ x.children) :
    (s.under child).weight < s.weight := by
  have hle : (Flow.flat child.steps).length ≤ (x.children.flatMap fun c => Flow.flat c.steps).length := by
    rw [List.flatMap_def]
    exact (List.sublist_flatten_of_mem (List.mem_map_of_mem (f := fun c : Flow.Child => Flow.flat c.steps) hchild)).length_le
  have hweight : (s.under child).weight = (Flow.flat child.steps).length := by
    rw [weight, under, List.drop_zero]
  rw [hweight, weight_eq hx]
  omega

/-- **A run goes down.** -/
theorem Reaches.weight (h : s.Reaches t) : t = s ∨ t.weight < s.weight := by
  induction h with
  | here => exact .inl rfl
  | later hx _ ih =>
    refine .inr ?_
    rcases ih with rfl | ih
    · exact weight_behind hx
    · exact ih.trans (weight_behind hx)
  | inside hx hchild _ ih =>
    refine .inr ?_
    rcases ih with rfl | ih
    · exact weight_under hx hchild
    · exact ih.trans (weight_under hx hchild)

theorem Reaches.rank_le (h : s.Reaches t) : t.rank ≤ s.rank := by
  rcases h.weight with rfl | h
  · exact le_rfl
  · exact (Rank.lt_of_steps h _ _).le

/-- A spot of a list that its branch leads to, told of no attempt or of one from zero on. -/
structure Sound (root : Steps) (s : Spot) : Prop where
  leads : Flow.Leading root s.branch s.list
  told : ∀ n, s.attempt = some n → 0 ≤ n

/-- A step of a spot as a place. -/
def place (s : Spot) (x : Step) : Place := ⟨s.branch, s.list, s.index, x⟩

theorem Sound.stands {root : Steps} (h : s.Sound root) (hx : s.step? = some x) :
    (s.place x).Stands (Flow.Leading root) := ⟨h.leads, hx⟩

/-- **Wherever a run comes** the branch leads. -/
theorem Sound.reaches {root : Steps} (hroot : Text.Readable (Flow.flat root).length) (hs : s.Sound root) (h : s.Reaches t) :
    t.Sound root := by
  have hzero : ∀ n, (some (0 : Int)) = some n → 0 ≤ n := fun n hn => Option.some.inj hn ▸ Int.le_refl 0
  induction h with
  | here => exact hs
  | later _ _ ih => exact ih ⟨hs.leads, hzero⟩
  | inside hx hchild _ ih =>
    exact ih ⟨Flow.resolveBranch_child hs.leads hx ((Place.readable hroot (hs.stands hx)).1) hchild, hzero⟩

end Spot

/-- A place as a spot that a request about it runs from: its branch as an address carries it. -/
def Place.spot (p : Place) (told : Option Int) : Spot := ⟨.redirect, Flow.given p.branch, p.list, p.index, told⟩

/-- What is left of a flow that goes on from a place. -/
def Place.rank (p : Place) : Continuation → Rank
  | .next => toLex ((p.spot none).behind.weight + 1, 0)
  | .menu | .menuInvalid | .keypad _ => toLex ((p.spot none).weight, 1)
  | .menuRetry n | .retry n => toLex ((p.spot none).weight, turnsLeft p.step.body (some n))

/-- What is left of a flow while an attempt is open at a place. -/
def Place.dialRank (p : Place) (a : Attempt) : Rank :=
  toLex ((p.spot none).weight, if a.type = .roundRobin then 2 * (a.destinationCount - a.index).toNat + 1 else 1)

end Work

/-! ## Addresses that are given out -/

/-- The ways in which a flow may be asked to go on from a step. -/
def Continuation.Fits (k : Continuation) (body : Body) : Prop :=
  match k with
  | .menuRetry n => ∃ p options invalid, body = .menu p options invalid ∧ 0 ≤ n ∧ n ≤ p.retries
  | .retry n => ∃ d, body = .roundRobin d ∧ 0 ≤ n ∧ n < d.destinations.length
  | _ => True

namespace Work

/-- What an attempt counts: a round robin the destinations of its step. -/
def Attempt.Fits (a : Attempt) (body : Body) : Prop :=
  a.type = .roundRobin → ∃ d, body = .roundRobin d ∧ a.destinationCount = d.destinations.length ∧ 0 ≤ a.index

end Work

/-- A caller: the flow that is run for the call, the addresses of the service, the tenant and the line that were called, and
the id of the call, which is none that a transfer gives. -/
structure Caller where
  flow : Steps
  urls : Callbacks
  tenant : String
  line : String
  sid : String
  unmarked : Naming.Unmarked sid

/-- A run is about the first segment of a caller's call. -/
structure Caller.About (who : Caller) (c : CallContext) : Prop where
  tenant : c.tenantId = who.tenant
  line : c.lineId = who.line
  sid : Naming.root c.callSid = who.sid
  segment : c.segmentNumber = 0

namespace Work

/-- A token of an attempt that a caller's flow has opened, with what is left of the flow. -/
inductive Opened (who : Caller) : Resume → Rank → Prop
  | at {p : Place} {a : Attempt} {flow : Option String} (hp : p.Stands (Flow.Leading who.flow)) (ha : a.Fits p.step.body) :
    Opened who (p.token flow who.line a.index a.type a.destinationCount) (p.dialRank a)

/-- An address that a caller's flow has given out, with what is left of the flow there.  One where the end of a dial is
reported goes with the number and the token of the attempt, which are stored. -/
inductive Given (who : Caller) (stored : Resume → Int → Prop) : String → Rank → Prop
  | goesOn {p : Place} {k : Continuation} (hp : p.Stands (Flow.Leading who.flow)) (hk : k.Fits p.step.body) :
    Given who stored (who.urls.flow who.tenant who.line (p.position k)) (p.rank k)
  | dialEnded {c : CallContext} {a : Attempt} {step : Nat} {branch : Option String} {seq : Int} {r : Resume} {rank : Rank}
    (hc : who.About c) (hr : Opened who r rank) (hstored : stored r seq) :
    Given who stored (dialAction who.urls c a step branch seq) rank

theorem Given.mono {who : Caller} {stored stored' : Resume → Int → Prop} {url : String} {rank : Rank}
    (h : Given who stored url rank) (hstored : ∀ r seq, stored r seq → stored' r seq) : Given who stored' url rank := by
  cases h with
  | goesOn hp hk => exact .goesOn hp hk
  | dialEnded hc hr h => exact .dialEnded hc hr (hstored _ _ h)

/-- A response that leads further down only: each address that it gives has a smaller rank, and so has the attempt whose
token is stored where it dials. -/
structure Descends (who : Caller) (stored : Resume → Int → Prop) (rank : Rank) (verbs : Response) : Prop where
  given : ∀ url ∈ verbs.continuations, ∃ rank' < rank, Given who stored url rank'
  dials : ∀ b, .bridge b ∈ verbs → ∃ r seq, stored r seq ∧ ∃ rank' < rank, Opened who r rank'

variable {who : Caller} {c : CallContext} {s : Spot}

theorem Attempt.MadeBy.fits {a : Attempt} {body : Body} {told : Option Int} (h : a.MadeBy body told)
    (htold : ∀ n, told = some n → 0 ≤ n) : a.Fits body := by
  intro htype
  cases h with
  | dial d _ hdial => rw [hdial] at htype; cases htype
  | simulcall d _ hsimulcall => rw [hsimulcall] at htype; cases htype
  | roundRobin d n _ hindex hcount => exact ⟨d, rfl, hcount, (htold n rfl).trans hindex⟩

namespace Spot

variable {x : Step} (hx : s.step? = some x)
include hx

theorem rank_eq : s.rank = toLex (s.weight, turnsLeft x.body s.attempt) := by
  rw [rank, hx]
  rfl

/-- **Less is left behind a step** than at it, also for the request that sends on. -/
theorem rank_next_lt {n : Nat} (hn : 0 < n) : (toLex (s.behind.weight + 1, 0) : Rank) < toLex (s.weight, n) := by
  rcases Nat.lt_or_eq_of_le (show s.behind.weight + 1 ≤ s.weight from weight_behind hx) with h | h
  · exact Rank.lt_of_steps h _ _
  · rw [h]
    exact Rank.lt_of_turns _ hn

/-- **What a dial may still ask for** is less than what its step may. -/
theorem dialRank_lt {a : Attempt} (ha : a.MadeBy x.body s.attempt) : (s.place x).dialRank a < s.rank := by
  rw [rank_eq hx]
  refine Rank.lt_of_turns _ ?_
  have htwo := two_le_turnsLeft x.body s.attempt
  split
  · rename_i htype
    generalize x.body = body at ha htwo ⊢
    generalize s.attempt = told at ha htwo ⊢
    cases ha with
    | dial d _ hdial => rw [hdial] at htype; cases htype
    | simulcall d _ hsimulcall => rw [hsimulcall] at htype; cases htype
    | roundRobin d n _ hindex hcount =>
      show 2 * (a.destinationCount - a.index).toNat + 1 < 2 * (d.destinations.length - n).toNat + 2
      rw [hcount]
      omega
  · omega

end Spot

namespace Descends

variable {stored : Resume → Int → Prop} {rank rank' : Rank} {verbs : Response}

/-- **What leads nowhere** leads down. -/
theorem of_none (h : verbs.continuations = []) (hb : ∀ b, .bridge b ∉ verbs) : Descends who stored rank verbs :=
  ⟨fun _ hurl => absurd (h ▸ hurl) List.not_mem_nil, fun b hmem => absurd hmem (hb b)⟩

theorem mono (h : Descends who stored rank verbs) (hle : rank ≤ rank') : Descends who stored rank' verbs :=
  ⟨fun url hurl => (h.given url hurl).imp fun _ h => ⟨h.1.trans_le hle, h.2⟩,
    fun b hb => (h.dials b hb).imp fun _ h => h.imp fun _ h => ⟨h.1, h.2.imp fun _ h => ⟨h.1.trans_le hle, h.2⟩⟩⟩

/-- **What is said before** leads nowhere. -/
theorem said (h : Descends who stored rank verbs) (said : List Prompt) :
    Descends who stored rank (said.map .prompt ++ verbs) := by
  have hsaid : Response.continuations (said.map .prompt) = [] := by
    induction said with
    | nil => rfl
    | cons p rest ih => exact ih
  refine ⟨fun url hurl => h.given url ?_, fun b hb => h.dials b ?_⟩
  · rwa [continuations_append, hsaid] at hurl
  · refine (List.mem_append.1 hb).resolve_left fun hmem => ?_
    obtain ⟨p, -, hp⟩ := List.mem_map.1 hmem
    cases hp

end Descends

/-- **However a response ends at a spot**, it leads down from there. -/
theorem Spot.Ends.descends {stored : Resume → Int → Prop} {verbs : Response} {token : Option (Resume × Int)} (hc : who.About c)
    (h : s.Ends who.urls c verbs token) (hs : s.Sound who.flow) (hstored : ∀ r ∈ token, stored r.1 r.2) :
    Descends who stored s.rank verbs := by
  have hgiven {x : Step} {k : Continuation} (hx : s.step? = some x) (hk : k.Fits x.body) :
      Given who stored (who.urls.flow c.tenantId c.lineId ((s.place x).position k)) ((s.place x).rank k) := by
    rw [hc.tenant, hc.line]
    exact .goesOn (hs.stands hx) hk
  have hnext {x : Step} (hx : s.step? = some x) :
      ∃ rank < s.rank, Given who stored (who.urls.flow c.tenantId c.lineId (.at (s.index + 1) s.branch)) rank := by
    refine ⟨_, ?_, hgiven (k := .next) hx trivial⟩
    rw [rank_eq hx]
    exact rank_next_lt hx (Nat.lt_of_lt_of_le Nat.two_pos (two_le_turnsLeft _ _))
  cases h with
  | past => exact .of_none rfl fun b hb => by simp [Response.goodbye, Verb.say] at hb
  | next hx => exact ⟨fun url hurl => List.mem_singleton.1 hurl ▸ hnext hx, fun b hb => by simp [goTo] at hb⟩
  | @menu id label p options invalid n hx htold =>
    refine ⟨fun url hurl => ?_, fun b hb => by simp [menuVerbs] at hb⟩
    have hrank : s.rank = toLex (s.weight, (p.retries - n).toNat + 2) := by rw [rank_eq hx, htold]; rfl
    have hn : 0 ≤ n := hs.told n htold
    rw [hrank]
    rcases List.mem_cons.1 hurl with rfl | hurl
    · exact ⟨_, Rank.lt_of_turns _ (by omega), hgiven (k := .menu) hx trivial⟩
    · rw [List.mem_singleton.1 hurl]
      split
      · rename_i hlt
        refine ⟨_, ?_, hgiven (k := .menuRetry (n + 1)) hx ⟨p, options, invalid, rfl, by omega, by omega⟩⟩
        refine Rank.lt_of_turns _ ?_
        show (p.retries - (n + 1)).toNat + 2 < (p.retries - n).toNat + 2
        omega
      · exact ⟨_, Rank.lt_of_turns _ (by omega), hgiven (k := .menuInvalid) hx trivial⟩
  | @keypad id label k hx =>
    refine ⟨fun url hurl => ?_, fun b hb => by simp [keypadVerbs] at hb⟩
    rcases List.mem_cons.1 hurl with rfl | hurl
    · refine ⟨_, ?_, hgiven (k := .keypad k.variableName) hx trivial⟩
      rw [rank_eq hx]
      exact Rank.lt_of_turns _ (two_le_turnsLeft _ _)
    · exact List.mem_singleton.1 hurl ▸ hnext hx
  | @voicemail id label v hx =>
    refine .of_none (continuations_voicemailVerbs who.urls c v) fun b hb => ?_
    obtain ⟨r, hverbs⟩ := voicemailVerbs_eq who.urls c v
    simp [hverbs] at hb
  | @hangup id label m hx =>
    refine .of_none ?_ fun b hb => by simp [promptVerbs] at hb
    rw [continuations_append, continuations_promptVerbs]
    rfl
  | @dialed x a b seq hx ha hb =>
    have hopened : Opened who ((s.place x).token c.flowId c.lineId a.index a.type a.destinationCount)
        ((s.place x).dialRank a) := by
      rw [hc.line]
      exact .at (hs.stands hx) (ha.fits hs.told)
    have htoken := hstored _ rfl
    refine ⟨fun url hurl => ⟨_, dialRank_lt hx ha, ?_⟩, fun b' _ => ⟨_, seq, htoken, _, dialRank_lt hx ha, hopened⟩⟩
    have haction : url ∈ b.action.toList := by
      rcases List.mem_append.1 hurl with hurl | hurl
      · exact hurl
      · cases hurl
    rw [hb] at haction
    rw [List.mem_singleton.1 haction]
    exact .dialEnded hc hopened htoken

/-- **What is decided for an attempt** that a flow has opened leads to an address of a smaller rank. -/
theorem Opened.decided {r : Resume} {rank : Rank} (h : Opened who r rank) {t : Segment} (ht : t.scratch.resume = r)
    (htenant : t.tenantId = who.tenant) {url : String} (hurl : decisionAddress who.urls t.decisionAfterFailure = some url)
    (stored : Resume → Int → Prop) : ∃ rank' < rank, Given who stored url rank' := by
  obtain @⟨p, a, flow, hp, ha⟩ := h
  obtain ⟨k, hk, rfl⟩ := Segment.decisionAddress_of_token ht who.urls hurl
  rw [htenant]
  rcases hk with rfl | ⟨rfl, htype, hnext⟩
  · refine ⟨_, Spot.rank_next_lt (s := p.spot none) hp.2 ?_, .goesOn (k := .next) hp trivial⟩
    split <;> omega
  · obtain ⟨d, hbody, hcount, hindex⟩ := ha htype
    rw [hcount] at hnext
    refine ⟨_, Rank.lt_of_turns _ ?_, .goesOn (k := .retry (a.index + 1)) hp ⟨d, hbody, by omega, hnext⟩⟩
    rw [if_pos htype, hbody, hcount]
    show 2 * (d.destinations.length - (a.index + 1)).toNat + 2 < 2 * (d.destinations.length - a.index).toNat + 1
    omega

/-! ## Responses -/

section Responses

variable {G : Ground c} {st : State} (hc : who.About c) (hurls : ∀ u, G.urls u → u = who.urls)
  (hroot : Text.Readable (Flow.flat who.flow).length)
include hc hurls hroot

/-- **What a run gives** leads down from the spot that it starts at. -/
theorem Ground.Gives.descends {verbs : Response} (h : G.Gives s verbs st) (hs : s.Sound who.flow) :
    Descends who (G.opened · · st) s.rank verbs := by
  obtain ⟨said, t, tail, token, u, rfl, ht, hu, htail, hopened⟩ := h
  cases hurls u hu
  exact ((htail.descends hc (hs.reaches hroot ht) hopened).mono ht.rank_le).said said

theorem Ground.Replies.descends {rank : Rank} {P : Spot → Prop} {verbs : Response} (h : G.Replies P verbs st)
    (hP : ∀ s, P s → s.Sound who.flow ∧ s.rank ≤ rank) : Descends who (G.opened · · st) rank verbs := by
  cases h with
  | hangup hverbs => exact hverbs ▸ .of_none rfl fun b hb => by simp [Response.hangup] at hb
  | goodbye hverbs => exact hverbs ▸ .of_none rfl fun b hb => by simp [Response.goodbye, Verb.say] at hb
  | gives s hs h => exact (h.descends hc hurls hroot (hP s hs).1).mono (hP s hs).2

end Responses

/-- Where the flow of an incoming call starts. -/
def Spot.start (root : Flow.Steps) : Spot := ⟨.redirect, none, root, 0, some 0⟩

theorem Spot.sound_start (root : Flow.Steps) : (Spot.start root).Sound root :=
  ⟨rfl, fun _ hn => Option.some.inj hn ▸ Int.le_refl 0⟩

theorem Ground.replies_start {G : Ground c} {st : State} (root : Flow.Steps) (hst : G.holds st) :
    G.Does (execute root c .redirect none 0 (some 0)) (fun r => G.Replies (· = Spot.start root) r.verbs) st := by
  refine (replies_execute root .redirect none 0 (some 0) hst).mono fun _ _ h => h.mono ?_
  rintro s ⟨hlist, hs⟩
  rw [hs, ← Except.ok.inj hlist]
  rfl

end Work

/-- **What is told of an attempt is read back**: how often a menu was played again, or the number of a destination. -/
theorem Continuation.Fits.int?_toString {root : Steps} (hfit : Flow.AllFit root) (hroot : Flow.Addressable root)
    {x : Step} (hx : x ∈ Flow.flat root) {k : Continuation} (hk : k.Fits x.body) {n : Int}
    (hn : k = .menuRetry n ∨ k = .retry n) : 0 ≤ n ∧ Text.int? (toString n) = some n := by
  rcases hn with rfl | rfl
  · obtain ⟨p, options, invalid, hbody, hpos, hle⟩ := hk
    have hfits : x.body.Fits := (hfit x hx).2
    rw [hbody] at hfits
    have hmost : p.retries ≤ 5 := hfits.1.2.2.2
    have hfive : Text.Readable 5 := by decide
    exact ⟨hpos, Text.int?_toString (hfive.of_le (by omega))⟩
  · obtain ⟨d, hbody, hpos, hlt⟩ := hk
    exact ⟨hpos, Text.int?_toString ((hroot.destinations x hx d hbody).of_le (by omega))⟩

namespace Work

variable {root : Flow.Steps} {c : CallContext} {G : Ground c} {st : State}

/-- **What is asked for at a place** is answered from a spot where no more is left than at the address. -/
theorem Place.replies_carriedOut (hfit : Flow.AllFit root) (hroot : Flow.Addressable root) {p : Place}
    (hp : p.Stands (Flow.Leading root)) {k : Continuation} (hk : k.Fits p.step.body) {e : Event}
    (he : e.form.given "attempt" = none) (hst : G.holds st) :
    G.Does (p.carriedOut c e k) (fun r => G.Replies (fun s => s.Sound root ∧ s.rank ≤ p.rank k) r.1.verbs) st := by
  have hlead : Flow.Leading root (Flow.given p.branch) p.list := (Flow.resolveBranch_given root _).trans hp.1
  have hzero : ∀ n, (some (0 : Int)) = some n → 0 ≤ n := fun n hn => Option.some.inj hn ▸ Int.le_refl 0
  have hbehind : ((p.spot none).behind.Sound root) ∧ (p.spot none).behind.weight < (p.spot none).weight :=
    ⟨⟨hlead, hzero⟩, Spot.weight_behind (s := p.spot none) hp.2⟩
  have hindex : ((p.index : Int) + 1).toNat = p.index + 1 := by omega
  have hplain {t : Work Rendering} {P : Spot → Prop} (ht : G.Does t (fun r => G.Replies P r.verbs) st)
      (hP : ∀ s, P s → s.Sound root ∧ s.rank ≤ p.rank k) :
      G.Does (do return (← t, [])) (fun r : Rendering × List (String × String) =>
        G.Replies (fun s => s.Sound root ∧ s.rank ≤ p.rank k) r.1.verbs) st :=
    ht.bind fun _ _ hst' hr => .pure hst' (hr.mono hP)
  -- a step that is told of an attempt is the one that the address is about
  have hagain {n : Int} (hn : k = .menuRetry n ∨ k = .retry n) :
      G.Does (do return (← runAt c .redirect (Flow.given p.branch) p.index
        (some ((Text.int? (toString n)).getD 0)) p.list, [])) (fun r : Rendering × List (String × String) =>
          G.Replies (fun s => s.Sound root ∧ s.rank ≤ p.rank k) r.1.verbs) st := by
    have hx : p.step ∈ Flow.flat root := (Flow.sublist_of_resolve hp.1).subset (List.mem_of_getElem? hp.2)
    obtain ⟨hpos, hread⟩ := hk.int?_toString hfit hroot hx hn
    refine hplain (Ground.replies_runAt _ _ _ _ _ hst) ?_
    rintro _ rfl
    rw [hread, Int.toNat_natCast]
    refine ⟨⟨hlead, fun m hm => Option.some.inj hm ▸ hpos⟩, le_of_eq ?_⟩
    rcases hn with rfl | rfl <;> exact Spot.rank_eq (s := p.spot (some n)) hp.2
  -- a choice leads into a list of the menu, or behind it
  have hchoice (digits : Option String) (hrank : p.rank k = toLex ((p.spot none).weight, 1)) :
      G.Does (do return (← runChoice c (Flow.given p.branch) p.index digits p.list, []))
        (fun r : Rendering × List (String × String) =>
          G.Replies (fun s => s.Sound root ∧ s.rank ≤ p.rank k) r.1.verbs) st := by
    refine hplain (Ground.replies_runChoice _ _ _ _ hst) ?_
    rw [hrank, Int.toNat_natCast]
    rintro _ (rfl | ⟨x, child, hx, hchild, rfl⟩)
    · exact ⟨hbehind.1, (Rank.lt_of_steps hbehind.2 _ _).le⟩
    · have hx' : (p.spot none).step? = some x := hx
      have hnested := Flow.resolveBranch_child hlead hx (p.readable hroot.steps hp).1 hchild
      exact ⟨⟨hnested, hzero⟩, (Rank.lt_of_steps (Spot.weight_under hx' hchild) _ _).le⟩
  cases k with
  | next =>
    refine hplain (Ground.replies_runAt _ _ _ _ _ hst) ?_
    rintro _ rfl
    rw [Web.sentAttempt_of_unsent he, hindex]
    exact ⟨hbehind.1, (Rank.lt_of_steps (Nat.lt_succ_self _) _ _).le⟩
  | menu => exact hchoice _ rfl
  | menuInvalid => exact hchoice _ rfl
  | keypad var =>
    refine (Ground.replies_runKeypad _ _ _ _ _ hst).mono fun _ _ h => h.mono ?_
    rintro _ rfl
    rw [hindex]
    exact ⟨hbehind.1, (Rank.lt_of_steps hbehind.2 _ _).le⟩
  | menuRetry n => exact hagain (.inl rfl)
  | retry n => exact hagain (.inr rfl)

end Work

end Switchboard
