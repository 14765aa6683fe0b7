import Switchboard.Proofs.Service.Endings
/-!
# Every response disposes of the call

The provider carries out a response verb by verb, and a caller whose response has come to its end without a way out is
hung up on.  `Response.Disposes` says that a response leaves no such end: its last verb ends the call, sends it on or
bridges it, no verb before does so, digits are collected only where the next verb sends on whoever enters none, and a
message is taken only where the next verb hangs up.  Every run of a flow answers with such a response, however the database
and the directory fail it (`every_response_disposes`).
-/
namespace Switchboard

/-! ## Responses -/

/-- Whether a verb ends the call, sends it on or dials. -/
def Verb.isWayOut : Verb → Bool
  | .hangup | .redirect _ | .bridge _ | .join _ _ | .callOut _ => true
  | .prompt _ | .pause _ | .gather _ | .record _ => false

/-- A response with one way out, as its last verb. -/
structure Response.Disposes (verbs : Response) : Prop where
  last : ∃ v, verbs.getLast? = some v ∧ (v = .hangup ∨ (∃ url, v = .redirect url) ∨ ∃ b, v = .bridge b)
  only : ∀ before v after, verbs = before ++ v :: after → v.isWayOut = true → after = []
  gather : ∀ before g after, verbs = before ++ .gather g :: after → ∃ url, after = [.redirect url]
  record : ∀ before r after, verbs = before ++ .record r :: after → after = [.hangup]

namespace Response

/-- The ways in which a response ends once everything is said. -/
inductive Tail : Response → Prop
  | hangup : Tail [.hangup]
  | redirect (url : String) : Tail [.redirect url]
  | bridge (b : Bridge) : Tail [.bridge b]
  | gather (g : Gather) (url : String) : Tail [.gather g, .redirect url]
  | record (r : Record) : Tail [.record r, .hangup]

/-- **What is no prompt stands behind the prompts** that a response begins with. -/
theorem behind_prompts {tail after : Response} {v : Verb} (hv : ∀ p, v ≠ .prompt p) :
    ∀ {said : List Prompt} {before : Response}, said.map .prompt ++ tail = before ++ v :: after →
      ∃ front, before = said.map .prompt ++ front ∧ tail = front ++ v :: after
  | [], before, h => ⟨before, rfl, h⟩
  | p :: _, [], h => absurd (List.cons.inj h).1.symm (hv p)
  | _ :: _, _ :: _, h => by
    obtain ⟨rfl, hrest⟩ := List.cons.inj h
    obtain ⟨front, rfl, hfront⟩ := behind_prompts hv hrest
    exact ⟨front, rfl, hfront⟩

/-- A verb of a short list, with what stands behind it. -/
theorem split_pair {a b v : Verb} {front after : Response} (h : [a, b] = front ++ v :: after) :
    (v = a ∧ after = [b]) ∨ v = b ∧ after = [] := by
  rcases front with - | ⟨x, - | ⟨y, front⟩⟩
  · cases h
    exact .inl ⟨rfl, rfl⟩
  · cases h
    exact .inr ⟨rfl, rfl⟩
  · have := (List.cons.inj (List.cons.inj h).2).2
    exact absurd this (List.append_ne_nil_of_right_ne_nil _ (List.cons_ne_nil _ _)).symm

theorem split_singleton {a v : Verb} {front after : Response} (h : [a] = front ++ v :: after) : v = a ∧ after = [] := by
  rcases front with - | ⟨x, front⟩
  · cases h
    exact ⟨rfl, rfl⟩
  · have := (List.cons.inj h).2
    exact absurd this (List.append_ne_nil_of_right_ne_nil _ (List.cons_ne_nil _ _)).symm

/-- **A verb of a tail**, with what stands behind it: nothing but behind a verb that asks the caller for something. -/
theorem Tail.split {tail front after : Response} {v : Verb} (h : Tail tail) (hsplit : tail = front ++ v :: after) :
    (∀ p, v ≠ .prompt p) ∧ (v.isWayOut = true → after = []) ∧ (∀ g, v = .gather g → ∃ url, after = [.redirect url]) ∧
      ∀ r, v = .record r → after = [.hangup] := by
  cases h with
  | hangup | redirect | bridge =>
    obtain ⟨rfl, rfl⟩ := split_singleton hsplit
    exact ⟨nofun, fun _ => rfl, nofun, nofun⟩
  | gather g url =>
    rcases split_pair hsplit with ⟨rfl, rfl⟩ | ⟨rfl, rfl⟩
    · exact ⟨nofun, nofun, fun _ _ => ⟨url, rfl⟩, nofun⟩
    · exact ⟨nofun, fun _ => rfl, nofun, nofun⟩
  | record r =>
    rcases split_pair hsplit with ⟨rfl, rfl⟩ | ⟨rfl, rfl⟩
    · exact ⟨nofun, nofun, nofun, fun _ _ => rfl⟩
    · exact ⟨nofun, fun _ => rfl, nofun, nofun⟩

/-- **A response that says something and then ends** disposes of the call. -/
theorem disposes_of_tail {tail : Response} (h : Tail tail) (said : List Prompt) :
    Disposes (said.map .prompt ++ tail) where
  last := by
    rw [List.getLast?_append]
    cases h with
    | hangup | record => exact ⟨_, rfl, .inl rfl⟩
    | redirect url | gather _ url => exact ⟨_, rfl, .inr (.inl ⟨url, rfl⟩)⟩
    | bridge b => exact ⟨_, rfl, .inr (.inr ⟨b, rfl⟩)⟩
  only before v after hsplit hv := by
    obtain ⟨front, -, hfront⟩ := behind_prompts (fun p hp => by rw [hp] at hv; cases hv) hsplit
    exact (h.split hfront).2.1 hv
  gather before g after hsplit := by
    obtain ⟨front, -, hfront⟩ := behind_prompts (fun _ hg => by cases hg) hsplit
    exact (h.split hfront).2.2.1 g rfl
  record before r after hsplit := by
    obtain ⟨front, -, hfront⟩ := behind_prompts (fun _ hr => by cases hr) hsplit
    exact (h.split hfront).2.2.2 r rfl

end Response

/-! ## Messages -/

/-- Whether a prompt is taken for a greeting: it has a text or a recording. -/
def Flow.Message.isTaken (m : Message) : Bool := (given m.text).isSome || (given m.recordingUrl).isSome

/-- What is said before the beep: the greeting of the step, if it is taken for one, or the standing one. -/
def Flow.Voicemail.prompt? (v : Voicemail) : Option Prompt :=
  match v.greeting with
  | some m => if m.isTaken then Prompt.ofMessage m else some (.say Wording.voicemailGreeting none)
  | none => some (.say Wording.voicemailGreeting none)

namespace Work

open Switchboard.Flow (Steps)

variable {c : CallContext}

/-- **A message is taken behind what is said before the beep.** -/
theorem voicemailVerbs_eq (urls : Callbacks) (c : CallContext) (v : Flow.Voicemail) :
    ∃ r, voicemailVerbs urls c v = v.prompt?.toList.map .prompt ++ [.record r, .hangup] := by
  unfold voicemailVerbs Flow.Voicemail.prompt? Flow.Message.isTaken
  cases v.greeting with
  | none => exact ⟨_, rfl⟩
  | some m =>
    dsimp only
    split <;> exact ⟨_, rfl⟩

/-- **However a run ends a response at a spot**, it says something and then ends it. -/
theorem Spot.Ends.tail {s : Spot} {urls : Callbacks} {verbs : Response} {token : Option (Resume × Int)}
    (h : s.Ends urls c verbs token) :
    ∃ (said : List Prompt) (tail : Response), verbs = said.map .prompt ++ tail ∧ Response.Tail tail := by
  cases h with
  | past => exact ⟨[.say Wording.goodbye none], _, rfl, .hangup⟩
  | next => exact ⟨[], _, rfl, .redirect _⟩
  | menu => exact ⟨[], _, rfl, .gather _ _⟩
  | keypad => exact ⟨[], _, rfl, .gather _ _⟩
  | voicemail =>
    obtain ⟨r, hverbs⟩ := voicemailVerbs_eq urls c _
    exact ⟨_, _, hverbs, .record r⟩
  | hangup => exact ⟨_, _, rfl, .hangup⟩
  | dialed => exact ⟨[], _, rfl, .bridge _⟩

theorem Ground.Gives.disposes {G : Ground c} {s : Spot} {verbs : Response} {st : State} (h : G.Gives s verbs st) :
    verbs.Disposes := by
  obtain ⟨said, t, tail, token, urls, rfl, -, -, htail, -⟩ := h
  obtain ⟨said', tail', rfl, htail'⟩ := htail.tail
  rw [← List.append_assoc, ← List.map_append]
  exact Response.disposes_of_tail htail' _

theorem Ground.Replies.disposes {G : Ground c} {P : Spot → Prop} {verbs : Response} {st : State}
    (h : G.Replies P verbs st) : verbs.Disposes := by
  cases h with
  | hangup hverbs => exact hverbs ▸ Response.disposes_of_tail .hangup []
  | goodbye hverbs => exact hverbs ▸ Response.disposes_of_tail .hangup [.say Wording.goodbye none]
  | gives s _ h => exact h.disposes

/-! ## Whatever happens -/

/-- The ground on which others may do anything and nothing is known. -/
def anyhow (c : CallContext) : Ground c where
  rely _ _ := True
  holds _ := True
  urls _ := True
  opened _ _ _ := True
  based _ := trivial
  resolves _ _ _ := Task.upholds_anything _ _
  tags _ _ _ := Task.upholds_anything _ _
  entries _ _ _ := Task.upholds_anything _ _
  attempts _ _ _ _ _ _ := Task.Upholds.mono (fun _ _ _ => ⟨trivial, fun _ _ => trivial⟩) (Task.upholds_anything _ _)

/-- **Work that answers** ends well, with what is known of what it gives. -/
theorem upholds_answer {α : Type} {t : Work α} {P : α → Prop} {st : State} (h : (anyhow c).Does t (fun a _ => P a) st)
    (ht : Answers t) : t.Upholds (State.terms (fun _ _ => True) fun _ _ => True) (fun res _ => ∃ a, res = .ok a ∧ P a) st := by
  refine Task.Upholds.mono ?_
    ((Task.Upholds.and h (ht.upholds st)).of_terms (fun _ _ _ => ⟨trivial, trivial⟩) fun _ _ hg => hg.1)
  rintro res _ ⟨⟨_, hP⟩, a, rfl⟩
  exact ⟨a, rfl, hP a rfl⟩

theorem answers_execute (root : Steps) (c : CallContext) (mode : Mode) (branch : Option String) (index : Int)
    (attempt : Option Int) : Answers (execute root c mode branch index attempt) :=
  fst_traceExecute root c mode branch index attempt ▸
    (answers_traceExecute root c mode branch index attempt).bind fun _ => .pure _

theorem answers_handleAction (root : Steps) (c : CallContext) (branch : Option String) (index : Int) (r : Reply) :
    Answers (handleAction root c branch index r) :=
  fst_traceAction root c branch index r ▸ (answers_traceAction root c branch index r).bind fun _ => .pure _

/-- **Every response disposes of the call.**  Whatever the steps and their settings are, from whatever branch and index, in
either mode, told of whatever attempt, and for every callback: a run of the flow comes to an end with a response that
disposes of the call.  It does so run alone, and whatever others do to the state at its pauses, where the database may be
lost and come back at every statement. -/
theorem every_response_disposes (root : Steps) (c : CallContext) (branch : Option String) (index : Int) (st : State) :
    (∀ mode attempt,
      (execute root c mode branch index attempt).Upholds (State.terms (fun _ _ => True) fun _ _ => True)
          (fun res _ => ∃ r, res = .ok r ∧ r.verbs.Disposes) st ∧
        ∃ r, ((execute root c mode branch index attempt).run st).1 = .ok r ∧ r.verbs.Disposes) ∧
    ∀ reply,
      (handleAction root c branch index reply).Upholds (State.terms (fun _ _ => True) fun _ _ => True)
          (fun res _ => ∃ r, res = .ok r ∧ r.1.verbs.Disposes) st ∧
        ∃ r, ((handleAction root c branch index reply).run st).1 = .ok r ∧ r.1.verbs.Disposes := by
  constructor
  · intro mode attempt
    have hdoes : (anyhow c).Does (execute root c mode branch index attempt) (fun r _ => r.verbs.Disposes) st :=
      (Ground.replies_execute root mode branch index attempt trivial).mono fun _ _ h => h.disposes
    have h := upholds_answer hdoes (answers_execute root c mode branch index attempt)
    exact ⟨h, h.ends fun _ => trivial⟩
  · intro reply
    have hdoes : (anyhow c).Does (handleAction root c branch index reply) (fun r _ => r.1.verbs.Disposes) st :=
      (Ground.replies_handleAction root branch index reply trivial).mono fun _ _ h => h.disposes
    have h := upholds_answer hdoes (answers_handleAction root c branch index reply)
    exact ⟨h, h.ends fun _ => trivial⟩

end Work

end Switchboard
