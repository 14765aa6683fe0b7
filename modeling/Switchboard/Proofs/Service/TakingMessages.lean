import Switchboard.Flow.Reader
import Switchboard.Proofs.Flow.Paths
import Switchboard.Proofs.Input.Values
import Switchboard.Proofs.Service.Disposing
/-!
# Before the beep

A step that takes a message says something before the beep: a greeting of its own or the standing one.  A greeting is taken
for one if it has a text or a recording, but a greeting that is text does not play a recording; so one that has a recording
and no text is taken and says nothing (`Message.Silent`).  In every response, the verb before a recording is what its step
says, and there is none exactly if the greeting is silent (`beep_prompted_unless_silent`).
-/
namespace Switchboard

namespace Flow

/-- A greeting that is taken for one and says nothing: it is text, has none and no speech for it, but a recording. -/
structure Message.Silent (m : Message) : Prop where
  kind : m.kind = .tts
  text : given m.text = none
  speech : given m.generatedAudioUrl = none
  recording : given m.recordingUrl ≠ none

/-- A greeting that is passed over and has something to play: synthesized speech, without a text or a recording. -/
structure Message.PassedOver (m : Message) : Prop where
  text : given m.text = none
  recording : given m.recordingUrl = none
  speech : given m.generatedAudioUrl ≠ none

/-- A step whose greeting says nothing. -/
def Voicemail.Silent (v : Voicemail) : Prop := ∃ m, v.greeting = some m ∧ m.Silent

/-- **Whether a prompt has something to say or play.** -/
theorem Message.ofMessage_eq_none_iff (m : Message) : Prompt.ofMessage m = none ↔
    (m.kind = .recording → given m.recordingUrl = none) ∧ given m.generatedAudioUrl = none ∧ given m.text = none := by
  unfold Prompt.ofMessage
  by_cases hkind : m.kind = .recording
  · rw [if_pos hkind]
    cases hrecording : given m.recordingUrl <;> cases hspeech : given m.generatedAudioUrl <;> simp [hkind]
  · rw [if_neg hkind]
    cases hspeech : given m.generatedAudioUrl <;> simp [hkind]

theorem Message.isTaken_eq_false_iff (m : Message) :
    m.isTaken = false ↔ given m.text = none ∧ given m.recordingUrl = none := by
  rw [isTaken, Bool.or_eq_false_iff, Option.isSome_eq_false_iff, Option.isSome_eq_false_iff, Option.isNone_iff_eq_none,
    Option.isNone_iff_eq_none]

theorem MessageKind.eq_tts_iff (k : MessageKind) : k = .tts ↔ k ≠ .recording := by cases k <;> decide

/-- **A greeting that is taken says nothing** exactly if it is silent. -/
theorem Message.silent_iff (m : Message) : m.Silent ↔ m.isTaken = true ∧ Prompt.ofMessage m = none := by
  rw [ofMessage_eq_none_iff, ← Bool.not_eq_false, isTaken_eq_false_iff]
  constructor
  · rintro ⟨hkind, htext, hspeech, hrecording⟩
    exact ⟨fun h => hrecording h.2, fun h => absurd h ((MessageKind.eq_tts_iff _).mp hkind), hspeech, htext⟩
  · rintro ⟨htaken, hkind, hspeech, htext⟩
    have hrecording : given m.recordingUrl ≠ none := fun h => htaken ⟨htext, h⟩
    exact ⟨(MessageKind.eq_tts_iff _).mpr fun h => hrecording (hkind h), htext, hspeech, hrecording⟩

/-- **A greeting that is not taken would say something** exactly if it is passed over. -/
theorem Message.passedOver_iff (m : Message) : m.PassedOver ↔ m.isTaken = false ∧ Prompt.ofMessage m ≠ none := by
  rw [Ne, ofMessage_eq_none_iff, isTaken_eq_false_iff]
  constructor
  · rintro ⟨htext, hrecording, hspeech⟩
    exact ⟨⟨htext, hrecording⟩, fun h => hspeech h.2.1⟩
  · rintro ⟨⟨htext, hrecording⟩, hsays⟩
    exact ⟨htext, hrecording, fun h => hsays ⟨fun _ => hrecording, h, htext⟩⟩

/-- **Greetings are taken where they say something**, but for those that are silent and those that are passed over. -/
theorem Message.taken_iff_says (m : Message) :
    (m.isTaken = true ↔ Prompt.ofMessage m ≠ none) ↔ ¬ m.Silent ∧ ¬ m.PassedOver := by
  rw [silent_iff, passedOver_iff]
  cases m.isTaken <;> simp

/-- **Nothing is said before the beep** exactly if the greeting is silent. -/
theorem Voicemail.prompt?_eq_none_iff (v : Voicemail) : v.prompt? = none ↔ v.Silent := by
  unfold prompt? Silent
  cases v.greeting with
  | none => exact iff_of_false (fun h => nomatch h) fun ⟨_, h, _⟩ => nomatch h
  | some m =>
    dsimp only
    have hown : (∃ n, some m = some n ∧ n.Silent) ↔ m.Silent :=
      ⟨fun ⟨_, h, hn⟩ => Option.some.inj h ▸ hn, fun h => ⟨m, rfl, h⟩⟩
    rw [hown, Message.silent_iff]
    split
    · rename_i htaken
      exact (and_iff_right htaken).symm
    · rename_i htaken
      exact iff_of_false (fun h => nomatch h) fun h => htaken h.1

/-- **What is said before the beep** is the greeting of the step or the standing one. -/
theorem Voicemail.prompt?_eq_some {v : Voicemail} {p : Prompt} (h : v.prompt? = some p) :
    p = .say Wording.voicemailGreeting none ∨ ∃ m, v.greeting = some m ∧ Prompt.ofMessage m = some p := by
  unfold prompt? at h
  split at h
  · rename_i m hm
    split at h
    · exact .inr ⟨m, hm, h⟩
    · exact .inl (Option.some.inj h).symm
  · exact .inl (Option.some.inj h).symm

end Flow

open Switchboard.Flow (Step)

/-- A response that takes messages only as steps of a flow do: what the step says comes last before the beep. -/
def Response.TakesAs (root : Flow.Steps) (verbs : Response) : Prop :=
  ∀ before r after, verbs = before ++ .record r :: after →
    ∃ x v, x ∈ Flow.flat root ∧ x.body = .voicemail v ∧
      ∃ said : List Prompt, before = said.map .prompt ++ v.prompt?.toList.map .prompt

namespace Work

variable {c : CallContext} {s t : Spot} {root : Flow.Steps}

/-- **A run comes only to steps of its list**, at any depth. -/
theorem Spot.Reaches.mem_flat {x : Step} (h : s.Reaches t) (hx : t.step? = some x) : x ∈ Flow.flat s.list := by
  induction h with
  | here s => exact (Flow.sublist_flat s.list).subset (List.mem_of_getElem? hx)
  | later _ _ ih => exact ih hx
  | inside hy hchild _ ih => exact (Flow.flat_child_sublist (List.mem_of_getElem? hy) hchild).subset (ih hx)

/-- **A response ends with a beep** only at a step that takes a message. -/
theorem Spot.Ends.of_record {urls : Callbacks} {tail front after : Response} {token : Option (Resume × Int)} {r : Record}
    (h : t.Ends urls c tail token) (htail : tail = front ++ .record r :: after) :
    ∃ x v, t.step? = some x ∧ x.body = .voicemail v ∧ front = v.prompt?.toList.map .prompt := by
  have hbeep : .record r ∈ tail := htail ▸ List.mem_append_right _ List.mem_cons_self
  cases h with
  | @voicemail id label v hx =>
    obtain ⟨r', hverbs⟩ := voicemailVerbs_eq urls c v
    obtain ⟨front', rfl, hbehind⟩ := Response.behind_prompts (fun _ h => by cases h) (hverbs.symm.trans htail)
    rcases front' with - | ⟨y, front'⟩
    · exact ⟨_, v, hx, rfl, List.append_nil _⟩
    · -- behind the beep there is only the end of the call
      have hmem : Verb.record r ∈ [Verb.hangup] :=
        (List.cons.inj hbehind).2 ▸ List.mem_append_right _ List.mem_cons_self
      cases List.mem_singleton.mp hmem
  | past | next | menu | keypad | dialed =>
    simp [Response.goodbye, Verb.say, goTo, menuVerbs, keypadVerbs] at hbeep
  | hangup => simp [promptVerbs] at hbeep

variable {G : Ground c} {st : State} {verbs : Response}

/-- **What a run gives takes messages as the steps of its list do.** -/
theorem Ground.Gives.takesAs (h : G.Gives s verbs st) (hsub : (Flow.flat s.list).Sublist (Flow.flat root)) :
    verbs.TakesAs root := by
  obtain ⟨said, t, tail, token, urls, rfl, ht, -, htail, -⟩ := h
  intro before r after hsplit
  obtain ⟨front, rfl, hfront⟩ := Response.behind_prompts (fun _ h => by cases h) hsplit
  obtain ⟨x, v, hx, hbody, rfl⟩ := htail.of_record hfront
  exact ⟨x, v, hsub.subset (ht.mem_flat hx), hbody, said, rfl⟩

theorem Ground.Replies.takesAs {P : Spot → Prop} (h : G.Replies P verbs st)
    (hP : ∀ s, P s → (Flow.flat s.list).Sublist (Flow.flat root)) : verbs.TakesAs root := by
  have hnone {w : Response} (hw : ∀ r, .record r ∉ w) : w.TakesAs root := fun before r after hsplit =>
    absurd (hsplit ▸ List.mem_append_right _ List.mem_cons_self) (hw r)
  cases h with
  | hangup hverbs => exact hverbs ▸ hnone fun r h => by simp [Response.hangup] at h
  | goodbye hverbs => exact hverbs ▸ hnone fun r h => by simp [Response.goodbye, Verb.say] at h
  | gives s hs h => exact h.takesAs (hP s hs)

/-- **A step that takes a message** is run as it stands, wherever it stands. -/
theorem run_execute_voicemail {list : List Step} {branch : Option String} {index : Int} {id : String}
    {label : Option String} {v : Flow.Voicemail} (hlist : Flow.resolveBranch root branch = .ok list) (hindex : 0 ≤ index)
    (hstep : list[index.toNat]? = some ⟨id, label, .voicemail v⟩) (mode : Mode) (attempt : Option Int) (st : State) :
    ∃ r, (execute root c mode branch index attempt).run st =
      (.ok ⟨v.prompt?.toList.map .prompt ++ [.record r, .hangup], []⟩, st) := by
  obtain ⟨r, hverbs⟩ := voicemailVerbs_eq (.ofBase st.settings.baseUrl) c v
  refine ⟨r, ?_⟩
  obtain ⟨hlt, hget⟩ := List.getElem?_eq_some_iff.mp hstep
  rw [← hverbs, execute, hlist]
  dsimp only
  rw [runAt, if_pos hindex, List.drop_eq_getElem_cons hlt, hget, runFrom, runBody]
  rfl

/-- **The beep is prompted unless the greeting is silent.**  A greeting is taken where it says something, but for two: a
silent one, which is taken, and one that is passed over, where the standing greeting is said instead.  Before the beep the
greeting or the standing one is said, and nothing exactly if the greeting is silent.  A step that takes a message answers so
at any index of any list; and in whatever a run or a callback of a flow answers, whatever others do meanwhile, what comes last
before a beep is what a step of the flow says there. -/
theorem beep_prompted_unless_silent (root : Flow.Steps) (c : CallContext) (branch : Option String) (index : Int) (st : State) :
    (∀ m : Flow.Message, (m.isTaken = true ↔ Prompt.ofMessage m ≠ none) ↔ ¬ m.Silent ∧ ¬ m.PassedOver) ∧
    (∀ v : Flow.Voicemail, (v.prompt? = none ↔ v.Silent) ∧ ∀ p, v.prompt? = some p →
      p = .say Wording.voicemailGreeting none ∨ ∃ m, v.greeting = some m ∧ Prompt.ofMessage m = some p) ∧
    (∀ mode attempt list id label v, Flow.resolveBranch root branch = .ok list → 0 ≤ index →
      list[index.toNat]? = some ⟨id, label, .voicemail v⟩ →
        ∃ r, (execute root c mode branch index attempt).run st =
          (.ok ⟨v.prompt?.toList.map .prompt ++ [.record r, .hangup], []⟩, st)) ∧
    (∀ mode attempt, (execute root c mode branch index attempt).Upholds (State.terms (fun _ _ => True) fun _ _ => True)
      (fun res _ => ∃ r, res = .ok r ∧ r.verbs.TakesAs root) st) ∧
    ∀ reply, (handleAction root c branch index reply).Upholds (State.terms (fun _ _ => True) fun _ _ => True)
      (fun res _ => ∃ r, res = .ok r ∧ r.1.verbs.TakesAs root) st := by
  refine ⟨Flow.Message.taken_iff_says, fun v => ⟨v.prompt?_eq_none_iff, fun _ => Flow.Voicemail.prompt?_eq_some⟩,
    fun mode attempt list id label v hlist hindex hstep => run_execute_voicemail hlist hindex hstep mode attempt st,
    fun mode attempt => ?_, fun reply => ?_⟩
  · have hdoes : (anyhow c).Does (execute root c mode branch index attempt) (fun r _ => r.verbs.TakesAs root) st :=
      (Ground.replies_execute root mode branch index attempt trivial).mono fun _ _ h => h.takesAs fun s hs =>
        Flow.flat_sublist_of_resolve hs.1
    exact upholds_answer hdoes (answers_execute root c mode branch index attempt)
  · have hdoes : (anyhow c).Does (handleAction root c branch index reply) (fun r _ => r.1.verbs.TakesAs root) st := by
      refine (Ground.replies_handleAction root branch index reply trivial).mono fun _ _ h => h.takesAs ?_
      rintro s ⟨list, hlist, hs⟩
      have hsub := Flow.flat_sublist_of_resolve hlist
      rcases hs with hs | ⟨x, hx, child, hchild, hs⟩
      · exact hs ▸ hsub
      · exact hs ▸ (Flow.flat_child_sublist hx hchild).trans hsub
    exact upholds_answer hdoes (answers_handleAction root c branch index reply)

/-- A greeting that is given as the address of a recording, and not said to be one, is accepted; the caller hears nothing
before the beep. -/
theorem recording_not_said_to_be_one_is_silent :
    let settings : Json := .obj [("greeting", .obj [("recordingUrl", .str "https://cdn.example.test/hello.mp3")])]
    let greeting : Flow.Message := ⟨.tts, none, some "https://cdn.example.test/hello.mp3", .echo, .enUS, none⟩
    let v : Flow.Voicemail := ⟨some greeting, 20, true, none⟩
    let c : CallContext := ⟨"T", "L", "CA1", some "F", none, none, 0, false⟩
    (Flow.Body.read (Flow.readSteps 3) .voicemail settings).value? = some (.voicemail v) ∧ v.Silent ∧
      ∃ r, (execute [⟨"v", none, .voicemail v⟩] c .redirect none 0 (some 0)).run (.holding []) =
        (.ok ⟨[.record r, .hangup], []⟩, .holding []) := by
  intro settings greeting v c
  have hread : (Flow.Body.read (Flow.readSteps 3) .voicemail settings).value? = some (.voicemail v) := rfl
  obtain ⟨-, hprompt, hrun, -⟩ := beep_prompted_unless_silent [⟨"v", none, .voicemail v⟩] c none 0 (.holding [])
  have hsilent : v.Silent := (hprompt v).1.mp rfl
  obtain ⟨r, hr⟩ := hrun .redirect (some 0) _ _ _ v rfl (by decide) rfl
  exact ⟨hread, hsilent, r, hr⟩

end Work

end Switchboard
