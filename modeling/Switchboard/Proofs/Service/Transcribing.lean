import Switchboard.Proofs.Flow.Reading
import Switchboard.Proofs.Service.Transcripts
import Switchboard.Proofs.Transcript.Moments
import Switchboard.Proofs.Transcript.Rereading
import Switchboard.Service.Recordings
/-!
# What is said in a call

A recording of a whole call is written down and stored on the segments in whose windows the utterances are.  Having it written
down does not touch the store (`apart_transcribe`), and what is stored is read back as it was heard, so the parts that the
segments get are those of what was heard (`run_transcribeChain`).  What is said without a length at the start of a window is in
none of them (`spoken_text_kept_unless_momentary`).
-/
namespace Switchboard

/-! ## Work apart from the store -/

/-- Work that does the same whatever the store holds, and leaves the store and the clock alone. -/
structure Task.Apart {α : Type} (t : Work α) : Prop where
  run : ∀ st : State, ∃ (r : Except Fault α) (st' : State), st'.now = st.now ∧ st'.isUp = st.isUp ∧
    ∀ db, t.run { st with store := db } = (r, { st' with store := db })

namespace Task.Apart

variable {α β : Type}

theorem pure (a : α) : (Pure.pure a : Work α).Apart := ⟨fun st => ⟨_, st, rfl, rfl, fun _ => rfl⟩⟩

theorem bind {t : Work α} {f : α → Work β} (ht : t.Apart) (hf : ∀ a, (f a).Apart) : (t >>= f).Apart := by
  refine ⟨fun st => ?_⟩
  obtain ⟨r, st₁, hnow, hup, hrun⟩ := ht.run st
  cases r with
  | error e => exact ⟨_, st₁, hnow, hup, fun db => Task.run_bind_error (hrun db)⟩
  | ok a =>
    obtain ⟨r, st₂, hnow', hup', hrun'⟩ := (hf a).run st₁
    exact ⟨r, st₂, hnow'.trans hnow, hup'.trans hup, fun db => (Task.run_bind_ok (hrun db)).trans (hrun' db)⟩

theorem look {k : State → Work α} (hk : ∀ st, (k st).Apart) (hstore : ∀ st db, k { st with store := db } = k st) :
    (Task.look k).Apart := by
  refine ⟨fun st => ?_⟩
  obtain ⟨r, st', hnow, hup, hrun⟩ := (hk st).run st
  refine ⟨r, st', hnow, hup, fun db => ?_⟩
  rw [← hrun db, ← hstore st db]
  rfl

theorem update {f : State → State} (hkept : ∀ st, (f st).now = st.now ∧ (f st).isUp = st.isUp)
    (hstore : ∀ st db, f { st with store := db } = { f st with store := db }) : (Task.update f : Work Unit).Apart :=
  ⟨fun st => ⟨_, f st, (hkept st).1, (hkept st).2, fun db => congrArg (Prod.mk _) (hstore st db)⟩⟩

end Task.Apart

namespace Work

open Switchboard.Task (Apart)

theorem apart_note (r : Provider.Request) : (note r).Apart := Apart.update (fun _ => ⟨rfl, rfl⟩) fun _ _ => rfl

theorem apart_endWriting (succeeded : Bool) (rest : List (Option Json)) : (endWriting succeeded rest).Apart :=
  Apart.update (fun _ => ⟨rfl, rfl⟩) fun _ _ => rfl

theorem apart_writeDown (audio : String) : (writeDown audio).Apart := by
  refine Apart.look (fun st => ?_) fun _ _ => rfl
  cases st.studio.writings with
  | none => exact Apart.pure _
  | some script =>
    dsimp only
    obtain ⟨allowed, breaker⟩ := st.studio.writingBreaker.start writingLimits st.now
    refine Apart.bind (Apart.update (fun _ => ⟨rfl, rfl⟩) fun _ _ => rfl) fun _ => ?_
    cases allowed with
    | false => exact Apart.pure _
    | true =>
      refine Apart.bind (apart_note _) fun _ => ?_
      split
      all_goals exact (apart_endWriting _ _).bind fun _ => Apart.pure _

/-- **Having a recording written down does not touch the store.** -/
theorem apart_transcribe (audio : String) : (transcribe audio).Apart := by
  refine (apart_writeDown audio).bind fun result => ?_
  split <;> exact Apart.pure _

/-- What was heard is a transcript of a provider's result. -/
theorem ofDiarized_of_transcribe {audio : String} {t : Transcript Float} {st : State}
    (h : ((transcribe audio).run st).1 = .ok (some t)) : ∃ result, Transcript.ofDiarized result = .ok t := by
  unfold transcribe at h
  rw [Task.run_bind] at h
  split at h
  · split at h
    · cases h
    · cases h
    · exact ⟨_, Flow.toOption_eq_some.mp (Except.ok.inj h)⟩
  · cases h

end Work

/-- A segment whose transcript is being written down. -/
def Segment.awaiting (s : Segment) : Segment := s.changed [.transcriptionStatus (some "processing")]

namespace Transcript

/-- **A transcript that was heard is stored in its parts**: what it is read back as says the same at the same times. -/
theorem texts_toText {result : Json} {t : Transcript Float} (heard : ofDiarized result = .ok t) (plain : t.text.Plain)
    {ws : List (Window Float)} (many : 1 < ws.length)
    (worded : ∀ w ∈ ws, ∀ u ∈ t.utterances, u.overlaps w = true → ∃ s, u.text = .str s) :
    ∃ parts, texts t.toText ws = .ok (parts.map toText) ∧ List.Forall₂ t.Part ws parts := by
  obtain ⟨hplain, hsaid⟩ := plain_of_ofDiarized heard plain
  obtain ⟨parts, hcut⟩ := Option.isSome_iff_exists.mp
    (isSome_split (t := ⟨orElseIfNothing t.text (.str ""), settled t.duration, t.utterances⟩).mpr worded)
  refine ⟨parts, ?_, (forall₂_part hcut).imp fun w part h => ⟨h.utterances, h.duration, h.text⟩⟩
  rw [texts, if_neg (Nat.not_le.mpr many), ofText_toText hplain]
  dsimp only
  rw [if_neg (by simpa using hsaid), hcut]

end Transcript

namespace Work

theorem windowsOf_awaiting {st st' : State} (hnow : st'.now = st.now) (ss : List Segment) :
    windowsOf none st' (ss.map Segment.awaiting) = windowsOf none st ss := by
  cases ss with
  | nil => rfl
  | cons first rest =>
    unfold windowsOf
    rw [Option.getD_none, Option.getD_none, hnow]
    simp only [chainWindows, List.map_cons, List.map_map]
    rfl

/-- **Every segment gets its part of what was heard.** -/
theorem run_transcribeChain {st : State} (keyed : st.store.Keyed) {sid audio : String} {first second : Segment}
    {rest : List Segment} (called : (chain sid none).run st = (.ok (first :: second :: rest), st)) {t : Transcript Float}
    (heard : ((transcribe audio).run st).1 = .ok (some t)) (plain : t.text.Plain)
    (worded : ∀ w ∈ windowsOf none st (first :: second :: rest), ∀ u ∈ t.utterances,
      u.overlaps w = true → ∃ s, u.text = .str s) :
    ∃ parts st', List.Forall₂ t.Part (windowsOf none st (first :: second :: rest)) parts ∧
      (transcribeChain sid audio).run st = (.ok (), st') ∧
        (chain sid none).run st' =
          (.ok (((first.awaiting.keeping t.toText :: (second :: rest).map Segment.awaiting).zip
            (parts.map Transcript.toText)).map fun p => p.1.transcribed p.2 "completed"), st') := by
  obtain ⟨hup, hchain⟩ := (run_chain_iff keyed).mp called
  -- the segments are marked, then the recording is written down, and then the call is looked up again
  obtain ⟨db, hmark, hchain⟩ := run_changes id (fun _ => [.transcriptionStatus (some "processing")])
    (fun _ => rfl) (fun _ => rfl) (fun _ => rfl) (first :: second :: rest) [] hup (by rwa [List.map_id])
  obtain ⟨r, st₁, hnow, hup₁, hrun⟩ := (apart_transcribe audio).run st
  have hheard : r = .ok (some t) := by exact (congrArg Prod.fst (hrun st.store)).symm.trans heard
  obtain ⟨result, hresult⟩ := ofDiarized_of_transcribe heard
  obtain ⟨parts, htexts, hparts⟩ := Transcript.texts_toText hresult plain
    (by rw [length_windowsOf]; simp) worded
  have keyed₁ : ({ st₁ with store := db } : State).store.Keyed := hchain.keyed
  have called₁ : (chain sid none).run { st₁ with store := db } =
      (.ok (first.awaiting :: (second :: rest).map Segment.awaiting), { st₁ with store := db }) :=
    (run_chain_iff keyed₁).mpr ⟨hup₁.trans hup, hchain⟩
  rw [← @windowsOf_awaiting st { st₁ with store := db } hnow] at htexts
  obtain ⟨db', happly, hchain'⟩ := run_applyTranscript_ok keyed₁ called₁ "completed" htexts
  refine ⟨parts, { st₁ with store := db' }, hparts, ?_, (run_chain_iff hchain'.keyed).mpr ⟨hup₁.trans hup, hchain'⟩⟩
  unfold transcribeChain
  refine (Task.run_bind_ok called).trans ((Task.run_bind_ok hmark).trans ?_)
  refine (Task.run_bind_ok (hheard ▸ hrun db)).trans ?_
  exact Task.run_bind_ok happly

/-- **What is said in a call is stored with it unless it is said in a moment**, without a length, at the start of a window.
Where what was heard can be stored, every segment of the call gets the part of it that its window shows.  An utterance that
starts in the windows and does not end before it starts is in one of the parts if it has a length, and otherwise if no window
starts when it does. -/
theorem spoken_text_kept_unless_momentary {st : State} (keyed : st.store.Keyed) {sid audio : String} {first second : Segment}
    {rest : List Segment} (called : (chain sid none).run st = (.ok (first :: second :: rest), st)) {hi : Float}
    (tiled : Tiles 0.0 (windowsOf none st (first :: second :: rest)) hi) {t : Transcript Float}
    (heard : ((transcribe audio).run st).1 = .ok (some t)) (plain : t.text.Plain)
    (worded : ∀ w ∈ windowsOf none st (first :: second :: rest), ∀ u ∈ t.utterances,
      u.overlaps w = true → ∃ s, u.text = .str s) :
    let ss := first :: second :: rest
    let ws := windowsOf none st ss
    let result := (transcribeChain sid audio).run st
    result.1 = .ok () ∧
      ∃ after parts, (chain sid none).run result.2 = (.ok after, result.2) ∧ after.map Segment.id = ss.map Segment.id ∧
        after.map Segment.transcription = parts.map (fun part => some part.toText) ∧ List.Forall₂ t.Part ws parts ∧
          ∀ u ∈ t.utterances, 0.0 ≤ u.start → u.start < hi → ¬ u.stop < u.start →
            (u.Kept ws parts ↔
              u.start < u.stop ∨ (u.start == u.stop) = true ∧ ∀ w ∈ ws, (w.start == u.start) = false) := by
  intro ss ws result
  obtain ⟨parts, st', hparts, hrun, hchain⟩ := run_transcribeChain keyed called heard plain worded
  have hlength : (parts.map Transcript.toText).length =
      (first.awaiting.keeping t.toText :: (second :: rest).map Segment.awaiting).length := by
    rw [List.length_map, ← hparts.length_eq, length_windowsOf]
    simp
  simp only [result, hrun, true_and]
  refine ⟨_, parts, hchain, (map_transcribed (fun s _ _ => (Segment.changed_key s _).1) hlength _).trans ?_,
    (transcriptions_transcribed hlength _).trans (List.map_map ..), hparts, fun u hu hlow hhigh hstop => ?_⟩
  · rw [List.map_cons, List.map_map, Segment.keeping, (Segment.changed_key _ _).1]
    exact List.map_congr_left (l := ss) fun s _ => (Segment.changed_key s _).1
  · exact (Utterance.kept_iff_overlaps hparts hu).trans (Utterance.overlaps_iff_lasts tiled hlow hhigh hstop)

end Work

/-- **A recording heard without times is lost** as soon as its call has two segments: the only thing that is said is said at the
start of the first window. -/
theorem untimed_word_is_lost :
    let u : Utterance Float := ⟨0.0, 0.0, .str "hello", .str "Speaker 1"⟩
    let st := { State.holding [minute 0, minute 1] with
      studio := ⟨none, .fresh, some [some (.obj [("text", .str "hello")])], .fresh⟩ }
    let ws := Work.windowsOf none st [minute 0, minute 1]
    let result := (Work.transcribeChain "CA1" "audio").run st
    (Work.chain "CA1" none).run st = (.ok [minute 0, minute 1], st) ∧ Tiles 0.0 ws 120.0 ∧
      ((Work.transcribe "audio").run st).1 = .ok (some ⟨.str "hello", 0.0, [u]⟩) ∧
        (0.0 ≤ u.start ∧ u.start < 120.0 ∧ ¬ u.stop < u.start) ∧ result.1 = .ok () ∧
          ∃ after parts, (Work.chain "CA1" none).run result.2 = (.ok after, result.2) ∧
            after.map Segment.transcription = parts.map (fun part => some part.toText) ∧ ¬ u.Kept ws parts := by
  intro u st ws result
  have hchain : st.store.HasChain "CA1" [minute 0, minute 1] :=
    Store.hasChain_holding (by decide) (by decide) (by decide)
  have called : (Work.chain "CA1" none).run st = (.ok [minute 0, minute 1], st) :=
    (Work.run_chain_iff hchain.keyed).mpr ⟨rfl, hchain⟩
  have hwindows : ws = [⟨0.0, 60.0⟩, ⟨60.0, 120.0⟩] := by decide +kernel
  have tiled : Tiles 0.0 ws 120.0 := by
    rw [hwindows]
    exact ⟨rfl, by decide +kernel, rfl, by decide +kernel, rfl⟩
  have heard : ((Work.transcribe "audio").run st).1 = .ok (some ⟨.str "hello", 0.0, [u]⟩) := by
    show Except.ok (Transcript.ofDiarized (.obj [("text", .str "hello")])).toOption = _
    rw [Transcript.ofDiarized_untimed rfl rfl]
    rfl
  have hmoment : 0.0 ≤ u.start ∧ u.start < 120.0 ∧ ¬ u.stop < u.start := by decide +kernel
  have worded : ∀ w ∈ ws, ∀ v ∈ [u], v.overlaps w = true → ∃ s, v.text = .str s := fun w _ =>
    List.forall_mem_singleton.mpr fun _ => ⟨_, rfl⟩
  obtain ⟨hok, after, parts, hafter, -, hstored, -, hkept⟩ :=
    Work.spoken_text_kept_unless_momentary hchain.keyed called tiled heard (.str _) worded
  refine ⟨called, tiled, heard, hmoment, hok, after, parts, hafter, hstored, fun h => ?_⟩
  rcases (hkept u List.mem_cons_self hmoment.1 hmoment.2.1 hmoment.2.2).mp h with hlasts | ⟨-, hnone⟩
  · exact hmoment.2.2 hlasts
  · have hfirst : (⟨0.0, 60.0⟩ : Window Float) ∈ ws := by
      rw [hwindows]
      exact List.mem_cons_self
    exact absurd (hnone _ hfirst) (by decide +kernel)

end Switchboard
