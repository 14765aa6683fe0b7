import Switchboard.Proofs.Service.Transcripts
/-!
# Cutting a call again

A call whose segments have ended is cut the same way whenever it is cut: its windows are those of its segments, whatever
the clock says (`chainWindows_of_spans`), and the text that it is cut from is that of the whole call, which every storing
keeps on the first segment.  So once a text was stored on the segments, each later cutting starts from that text and finds
its parts where they are (`run_resegment_of_cut`); any number of them leave the call as the first one did
(`resegmenting_is_idempotent`).
-/
namespace Switchboard

open Time (Instant Moment)

/-! ## Segments that are over -/

namespace Segment

/-- A segment that has ended.  Its start is on record, as the column takes no null. -/
def IsOver (s : Segment) : Prop := s.startedAt.isSome = true ∧ s.endedAt.isSome = true

/-- When a segment started and when it ended. -/
def span (s : Segment) : Option Moment × Option Moment := (s.startedAt, s.endedAt)

/-- What is kept of the transcript on a segment, with the segment's id. -/
def transcripts (s : Segment) : String × Option String × Option String × Option String :=
  (s.id, s.transcription, s.transcriptionStatus, s.chainTranscription)

end Segment

theorem isOver_of_spans {ss ss' : List Segment} (h : ss'.map Segment.span = ss.map Segment.span)
    (ended : ∀ s ∈ ss, s.IsOver) : ∀ s ∈ ss', s.IsOver := by
  have hspans : ∀ p ∈ ss.map Segment.span, p.1.isSome = true ∧ p.2.isSome = true := List.forall_mem_map.2 ended
  rw [← h] at hspans
  exact fun s hs => hspans s.span (List.mem_map_of_mem hs)

/-- **The windows of a call that is over hang on the spans of its segments** and not on the clock. -/
theorem chainWindows_of_spans {ss ss' : List Segment} (h : ss'.map Segment.span = ss.map Segment.span)
    (ended : ∀ s ∈ ss, s.IsOver) (now now' : Instant) : chainWindows now' ss' = chainWindows now ss := by
  cases ss with
  | nil =>
    rw [List.map_nil, List.map_eq_nil_iff] at h
    rw [h]
    rfl
  | cons first rest =>
    obtain ⟨first', rest', rfl, hfirst, -⟩ := List.map_eq_cons_iff.1 h
    have hstart : first'.startedAt = first.startedAt := congrArg Prod.fst hfirst
    obtain ⟨start, hbegun⟩ := Option.isSome_iff_exists.1 (ended first List.mem_cons_self).1
    let window (now : Instant) (p : Option Moment × Option Moment) : Window Int :=
      ⟨max 0 ((p.1.map Moment.instant).getD start.instant - start.instant),
        (p.2.map Moment.instant).getD now - start.instant⟩
    unfold chainWindows
    dsimp only
    rw [hstart, hbegun]
    calc (first' :: rest').map (Segment.window start.instant now')
        = ((first' :: rest').map Segment.span).map (window now') := by rw [List.map_map]; rfl
      _ = (first :: rest).map (window now' ∘ Segment.span) := by rw [h, List.map_map]
      _ = (first :: rest).map (Segment.window start.instant now) := List.map_congr_left fun s hs => by
          obtain ⟨stop, hstop⟩ := Option.isSome_iff_exists.1 (ended s hs).2
          simp only [window, Function.comp_apply, Segment.span, Segment.window, hstop, Option.map_some, Option.getD_some]

/-! ## Calls that were cut -/

/-- The segments of a call that a text was stored on: the text is kept on the first of them, and each has its part. -/
structure IsCut (raw status : String) (texts : List String) (ss : List Segment) : Prop where
  ended : ∀ s ∈ ss, s.IsOver
  kept : ss.head?.bind Segment.chainTranscription = some raw
  parts : ss.map Segment.transcription = texts.map some
  statuses : ss.map Segment.transcriptionStatus = ss.map fun _ => some status
  cut : ∀ now, Transcript.texts raw ((chainWindows now ss).map Window.inSeconds) = .ok texts

theorem map_pair {α β γ : Type} {f : α → β} {g : α → γ} {as bs : List α} (hf : as.map f = bs.map f)
    (hg : as.map g = bs.map g) : (as.map fun a => (f a, g a)) = bs.map fun a => (f a, g a) := by
  rw [← List.zip_map', ← List.zip_map', hf, hg]

/-- **Two cuts of a call with the same text and status** leave the same on its segments. -/
theorem IsCut.transcripts_eq {raw status : String} {texts : List String} {ss ss' : List Segment}
    (h : IsCut raw status texts ss) (h' : IsCut raw status texts ss') (hids : ss'.map Segment.id = ss.map Segment.id)
    (hwholes : ss'.map Segment.chainTranscription = ss.map Segment.chainTranscription) :
    ss'.map Segment.transcripts = ss.map Segment.transcripts := by
  have hstatuses : ss'.map Segment.transcriptionStatus = ss.map Segment.transcriptionStatus := by
    have hlength : ss'.length = ss.length := by simpa using congrArg List.length hids
    rw [h'.statuses, h.statuses, List.map_const', List.map_const', hlength]
  exact map_pair hids (map_pair (h'.parts.trans h.parts.symm) (map_pair hstatuses hwholes))

theorem transcriptSource_ne_empty {ss : List Segment} {raw : String} (h : Work.transcriptSource ss = some raw) :
    raw ≠ "" := by
  cases ss with
  | nil => cases h
  | cons first rest =>
    rw [Work.transcriptSource] at h
    split at h
    · rename_i hgiven
      cases h
      exact (Flow.given_eq_some.1 hgiven).2
    · obtain ⟨s, hs, htext⟩ := Option.bind_eq_some_iff.1 h
      have hfound := List.find?_some hs
      rw [Bool.and_eq_true, Option.isSome_iff_exists] at hfound
      obtain ⟨-, text, hgiven⟩ := hfound
      obtain ⟨hkept, hne⟩ := Flow.given_eq_some.1 hgiven
      exact Option.some.inj (htext.symm.trans hkept) ▸ hne

/-- **A call that was cut is cut again from the whole text.** -/
theorem IsCut.source {raw status : String} {texts : List String} {ss : List Segment} (h : IsCut raw status texts ss)
    (hraw : raw ≠ "") : Work.transcriptSource ss = some raw := by
  cases ss with
  | nil => cases h.kept
  | cons first rest =>
    have hkept : first.chainTranscription = some raw := h.kept
    rw [Work.transcriptSource, Flow.given_eq_some.2 ⟨hkept, hraw⟩]

namespace Work

variable {st st₁ : State} {sid root : String} {first : Segment} {rest ss : List Segment} {raw status : String}
  {texts : List String}

/-- **A storing that succeeds had a text that can be stored.** -/
theorem texts_of_applied {asOf : Option Instant} (keyed : st.store.Keyed)
    (called : (chain sid none).run st = (.ok (first :: rest), st)) {n : Nat}
    (h : (applyTranscript sid raw status asOf).run st = (.ok n, st₁)) :
    ∃ texts, Transcript.texts raw (windowsOf asOf st (first :: rest)) = .ok texts := by
  obtain ⟨db, -, hrun⟩ := run_applyTranscript keyed called raw status asOf
  cases htexts : Transcript.texts raw (windowsOf asOf st (first :: rest)) with
  | ok texts => exact ⟨texts, rfl⟩
  | error e =>
    rw [hrun, htexts] at h
    cases h

/-- **A text that can be stored cuts its call.** -/
theorem run_applyTranscript_cut (status : String) (asOf : Option Instant) (keyed : st.store.Keyed)
    (called : (chain sid none).run st = (.ok (first :: rest), st)) (ended : ∀ s ∈ first :: rest, s.IsOver)
    (htexts : Transcript.texts raw (windowsOf asOf st (first :: rest)) = .ok texts) :
    ∃ db after, (applyTranscript sid raw status asOf).run st = (.ok (rest.length + 1), { st with store := db }) ∧
      db.HasChain (Naming.root sid) after ∧ IsCut raw status texts after ∧
      after.map Segment.id = (first :: rest).map Segment.id ∧
      after.map Segment.chainTranscription = some raw :: rest.map Segment.chainTranscription := by
  obtain ⟨db, hrun, hdb⟩ := run_applyTranscript_ok keyed called status htexts
  have hlength : texts.length = (first.keeping raw :: rest).length :=
    (Transcript.texts_eq_ok htexts).1.length_eq.trans (length_windowsOf asOf st (first :: rest))
  have hwholes := map_transcribed (g := Segment.chainTranscription) (fun _ _ _ => rfl) hlength status
  have hids := map_transcribed (fun s _ _ => (Segment.changed_key s _).1) hlength status
  have hspans := map_transcribed (g := Segment.span) (fun _ _ _ => rfl) hlength status
  have hspan : (first.keeping raw :: rest).map Segment.span = (first :: rest).map Segment.span := rfl
  rw [hspan] at hspans
  refine ⟨db, _, hrun, hdb,
    ⟨isOver_of_spans hspans ended, ?_, transcriptions_transcribed hlength status, ?_, fun now => ?_⟩, hids.trans ?_, hwholes⟩
  · have hhead := congrArg List.head? hwholes
    rw [List.head?_map] at hhead
    cases hafter : (List.map _ _).head? with
    | none => rw [hafter] at hhead; cases hhead
    | some s =>
      rw [hafter] at hhead
      exact Option.some.inj hhead
  · rw [List.map_map, List.map_map]
    rfl
  · rw [chainWindows_of_spans hspans ended (asOf.getD st.now) now]
    exact htexts
  · rw [List.map_cons, List.map_cons, Segment.keeping, (Segment.changed_key _ _).1]

/-- **A call that was cut is cut again as it was**, from the same text into the same parts. -/
theorem run_resegment_of_cut (hup : st.isUp = true) (h : st.store.HasChain (Naming.root sid) ss) (hraw : raw ≠ "")
    (hcut : IsCut raw status texts ss) :
    ∃ db after, (resegment sid).run st = (.ok ss.length, { st with store := db }) ∧
      db.HasChain (Naming.root sid) after ∧ IsCut raw "completed" texts after ∧
      after.map Segment.id = ss.map Segment.id ∧
      after.map Segment.chainTranscription = ss.map Segment.chainTranscription := by
  have called := (run_chain_iff h.keyed).2 ⟨hup, h⟩
  cases ss with
  | nil => cases hcut.kept
  | cons first rest =>
    obtain ⟨db, after, hrun, hdb, hafter, hids, hwholes⟩ :=
      run_applyTranscript_cut "completed" none h.keyed called hcut.ended (hcut.cut _)
    refine ⟨db, after, ?_, hdb, hafter, hids, hwholes.trans ?_⟩
    · rw [resegment, Task.run_bind_ok called, hcut.source hraw]
      exact hrun
    · have hkept : first.chainTranscription = some raw := hcut.kept
      rw [List.map_cons, hkept]

/-! ## Any number of cuttings -/

/-- Cuts a call again and again, each time under one of its ids and at a time of its own: what each cutting gives. -/
def resegmentAt : List (String × Instant) → State → List (Except Fault Nat) × State
  | [], st => ([], st)
  | (sid, now) :: runs, st =>
    let (result, st) := (resegment sid).run { st with now }
    let (results, st) := resegmentAt runs st
    (result :: results, st)

/-- **What each cutting keeps, any number of them keep.** -/
theorem resegmentAt_keeps {I : State → Prop} {n : Nat} (hstep : ∀ st sid now, I st → Naming.root sid = root →
    ∃ st', (resegment sid).run { st with now } = (.ok n, st') ∧ I st') :
    ∀ {runs : List (String × Instant)} {st : State}, (∀ p ∈ runs, Naming.root p.1 = root) → I st →
      (∀ r ∈ (resegmentAt runs st).1, r = .ok n) ∧ I (resegmentAt runs st).2
  | [], _, _, hst => ⟨fun _ h => (nomatch h), hst⟩
  | (sid, now) :: runs, st, hruns, hst => by
    obtain ⟨hsid, hruns⟩ := List.forall_mem_cons.1 hruns
    obtain ⟨st', hrun, hst'⟩ := hstep st sid now hst hsid
    obtain ⟨hresults, hend⟩ := resegmentAt_keeps hstep hruns hst'
    simp only [resegmentAt, hrun, List.forall_mem_cons]
    exact ⟨⟨trivial, hresults⟩, hend⟩

/-- **A call without a transcript** is left as it is. -/
theorem resegmentAt_of_no_source (hup : st.isUp = true) (h : st.store.HasChain root ss) (hnone : transcriptSource ss = none)
    {runs : List (String × Instant)} (hruns : ∀ p ∈ runs, Naming.root p.1 = root) :
    (∀ r ∈ (resegmentAt runs st).1, r = .ok 0) ∧
      (resegmentAt runs st).2.isUp = true ∧ (resegmentAt runs st).2.store.HasChain root ss := by
  refine resegmentAt_keeps (I := fun st => st.isUp = true ∧ st.store.HasChain root ss) (fun st sid now hst hsid => ?_) hruns
    ⟨hup, h⟩
  subst hsid
  have called := (@run_chain_iff { st with now } hst.2.keyed sid ss).2 hst
  refine ⟨{ st with now }, ?_, hst⟩
  rw [resegment, Task.run_bind_ok called, hnone]
  rfl

/-- **A call that was cut is left as it is**, but for the status of its parts. -/
theorem resegmentAt_of_cut (hup : st.isUp = true) (h : st.store.HasChain root ss) (hraw : raw ≠ "")
    (hcut : IsCut raw status texts ss) {runs : List (String × Instant)} (hruns : ∀ p ∈ runs, Naming.root p.1 = root) :
    (∀ r ∈ (resegmentAt runs st).1, r = .ok ss.length) ∧
      (resegmentAt runs st).2.isUp = true ∧ ∃ last status', (resegmentAt runs st).2.store.HasChain root last ∧
        IsCut raw status' texts last ∧ (status' = status ∨ status' = "completed") ∧
        last.map Segment.id = ss.map Segment.id ∧
        last.map Segment.chainTranscription = ss.map Segment.chainTranscription := by
  let I (st : State) : Prop := st.isUp = true ∧ ∃ last status', st.store.HasChain root last ∧
    IsCut raw status' texts last ∧ (status' = status ∨ status' = "completed") ∧
    last.map Segment.id = ss.map Segment.id ∧ last.map Segment.chainTranscription = ss.map Segment.chainTranscription
  refine resegmentAt_keeps (I := I) (fun st sid now hst hsid => ?_) hruns ⟨hup, ss, status, h, hcut, .inl rfl, rfl, rfl⟩
  subst hsid
  obtain ⟨hup, last, status', hlast, hcut, -, hids, hwholes⟩ := hst
  obtain ⟨db, after, hrun, hdb, hafter, hids', hwholes'⟩ :=
    @run_resegment_of_cut { st with now } sid _ _ _ _ hup hlast hraw hcut
  have hlength : last.length = ss.length := by simpa using congrArg List.length hids
  rw [hlength] at hrun
  exact ⟨_, hrun, hup, after, "completed", hdb, hafter, .inr rfl, hids'.trans hids, hwholes'.trans hwholes⟩

/-- **Cutting a call again is idempotent and starts from the whole text.**  For a call whose segments have ended: behind a
cutting that succeeds, any number of cuttings, under any ids of the call and whenever they run, give the same number and
leave on every segment what the first one left there; and behind a storing of a text that succeeds, any number of cuttings
give its number and leave every segment with the part that was stored on it. -/
theorem resegmenting_is_idempotent (keyed : st.store.Keyed) (called : (chain sid none).run st = (.ok ss, st))
    (ended : ∀ s ∈ ss, s.IsOver) :
    (∀ n st₁, (resegment sid).run st = (.ok n, st₁) → ∃ after, (chain sid none).run st₁ = (.ok after, st₁) ∧
      ∀ runs : List (String × Instant), (∀ p ∈ runs, Naming.root p.1 = Naming.root sid) →
        let later := resegmentAt runs st₁
        (∀ r ∈ later.1, r = .ok n) ∧ ∃ last, (chain sid none).run later.2 = (.ok last, later.2) ∧
          last.map Segment.transcripts = after.map Segment.transcripts) ∧
    ∀ raw status asOf n st₁, raw ≠ "" → (applyTranscript sid raw status asOf).run st = (.ok n, st₁) →
      ∃ after, (chain sid none).run st₁ = (.ok after, st₁) ∧
      ∀ runs : List (String × Instant), (∀ p ∈ runs, Naming.root p.1 = Naming.root sid) →
        let later := resegmentAt runs st₁
        (∀ r ∈ later.1, r = .ok n) ∧ ∃ last, (chain sid none).run later.2 = (.ok last, later.2) ∧
          (last.map fun s => (s.id, s.transcription)) = after.map fun s => (s.id, s.transcription) := by
  obtain ⟨hup, hchain⟩ := (run_chain_iff keyed).1 called
  -- behind any storing that succeeds the call is cut
  have happly (first : Segment) (rest : List Segment) (hss : ss = first :: rest) (raw status : String)
      (asOf : Option Instant) (n : Nat) (st₁ : State) (hrun : (applyTranscript sid raw status asOf).run st = (.ok n, st₁)) :
      st₁.isUp = true ∧ ∃ texts after, st₁.store.HasChain (Naming.root sid) after ∧ IsCut raw status texts after ∧
        after.length = n := by
    subst hss
    obtain ⟨texts, htexts⟩ := texts_of_applied keyed called hrun
    obtain ⟨db, after, hrun', hdb, hcut, hids, -⟩ := run_applyTranscript_cut status asOf keyed called ended htexts
    rw [hrun'] at hrun
    cases hrun
    exact ⟨hup, texts, after, hdb, hcut, by simpa using congrArg List.length hids⟩
  have hnothing (hnone : transcriptSource ss = none) (runs : List (String × Instant))
      (hruns : ∀ p ∈ runs, Naming.root p.1 = Naming.root sid) : (∀ r ∈ (resegmentAt runs st).1, r = .ok 0) ∧
        (chain sid none).run (resegmentAt runs st).2 = (.ok ss, (resegmentAt runs st).2) := by
    obtain ⟨hresults, hup', hlast⟩ := resegmentAt_of_no_source hup hchain hnone hruns
    exact ⟨hresults, (run_chain_iff hlast.keyed).2 ⟨hup', hlast⟩⟩
  refine ⟨fun n st₁ hrun => ?_, fun raw status asOf n st₁ hraw hrun => ?_⟩
  · rw [resegment, Task.run_bind_ok called] at hrun
    cases hsource : transcriptSource ss with
    | none =>
      rw [hsource] at hrun
      cases hrun
      exact ⟨ss, called, fun runs hruns => ⟨(hnothing hsource runs hruns).1, ss, (hnothing hsource runs hruns).2, rfl⟩⟩
    | some raw =>
      rw [hsource] at hrun
      obtain ⟨first, rest, hss⟩ : ∃ first rest, ss = first :: rest := by
        cases ss with
        | nil => cases hsource
        | cons first rest => exact ⟨first, rest, rfl⟩
      obtain ⟨hup₁, texts, after, hafter, hcut, rfl⟩ := happly first rest hss raw _ none n st₁ hrun
      refine ⟨after, (run_chain_iff hafter.keyed).2 ⟨hup₁, hafter⟩, fun runs hruns => ?_⟩
      obtain ⟨hresults, hup', last, status', hlast, hcut', hstatus, hids, hwholes⟩ :=
        resegmentAt_of_cut hup₁ hafter (transcriptSource_ne_empty hsource) hcut hruns
      obtain rfl : status' = "completed" := hstatus.elim id id
      exact ⟨hresults, last, (run_chain_iff hlast.keyed).2 ⟨hup', hlast⟩, hcut.transcripts_eq hcut' hids hwholes⟩
  · cases ss with
    | nil =>
      rw [applyTranscript, Task.run_bind_ok called] at hrun
      cases hrun
      exact ⟨[], called, fun runs hruns => ⟨(hnothing rfl runs hruns).1, [], (hnothing rfl runs hruns).2, rfl⟩⟩
    | cons first rest =>
      obtain ⟨hup₁, texts, after, hafter, hcut, rfl⟩ := happly first rest rfl raw status asOf n st₁ hrun
      refine ⟨after, (run_chain_iff hafter.keyed).2 ⟨hup₁, hafter⟩, fun runs hruns => ?_⟩
      obtain ⟨hresults, hup', last, status', hlast, hcut', -, hids, -⟩ := resegmentAt_of_cut hup₁ hafter hraw hcut hruns
      exact ⟨hresults, last, (run_chain_iff hlast.keyed).2 ⟨hup', hlast⟩,
        map_pair hids (hcut'.parts.trans hcut.parts.symm)⟩

end Work

/-- A transcript of an utterance that goes on for a minute and a half. -/
def lengthy : Json :=
  .obj [("segments", .arr [.obj [("start", .int 0), ("end", .int 90), ("text", .str "hello")]])]

theorem plain_lengthy : lengthy.Plain := by
  refine .obj (List.forall_mem_singleton.2 (.arr (List.forall_mem_singleton.2 (.obj ?_ (by decide))))) (by decide)
  simp only [List.forall_mem_cons]
  exact ⟨.int (by decide), .int (by decide), .str _, List.forall_mem_nil _⟩

theorem ofText_lengthy :
    Transcript.ofText lengthy.toText = .ok ⟨.str "", 0.0, [⟨0.0, 90.0, .str "hello", .str "Speaker 1"⟩]⟩ := by
  rw [Transcript.ofText, Json.parse_toText plain_lengthy]
  rfl

/-- Two minutes of a call that share an utterance are cut again, later and under the ids of both segments, into the parts
that they were cut into. -/
theorem shared_utterance_is_cut_again_alike :
    let st := State.holding [minute 0, minute 1]
    ∃ st₁ after, (Work.applyTranscript "CA1" lengthy.toText "heard" none).run st = (.ok 2, st₁) ∧
      (Work.chain "CA1" none).run st₁ = (.ok after, st₁) ∧
      let later := Work.resegmentAt [("CA1", 180 * Time.second), ("CA1_transfer_1", 240 * Time.second)] st₁
      (∀ r ∈ later.1, r = .ok 2) ∧ ∃ last, (Work.chain "CA1" none).run later.2 = (.ok last, later.2) ∧
        (last.map fun s => (s.id, s.transcription)) = after.map fun s => (s.id, s.transcription) := by
  intro st
  have hchain : st.store.HasChain "CA1" [minute 0, minute 1] :=
    Store.hasChain_holding (by decide) (by decide) (by decide)
  have called : (Work.chain "CA1" none).run st = (.ok [minute 0, minute 1], st) :=
    (Work.run_chain_iff hchain.keyed).2 ⟨rfl, hchain⟩
  have ended : ∀ s ∈ [minute 0, minute 1], s.IsOver := by
    simp only [List.forall_mem_cons]
    exact ⟨⟨rfl, rfl⟩, ⟨rfl, rfl⟩, List.forall_mem_nil _⟩
  have hraw : lengthy.toText ≠ "" := by decide +kernel
  obtain ⟨texts, htexts⟩ :
      ∃ texts, Transcript.texts lengthy.toText (Work.windowsOf none st [minute 0, minute 1]) = .ok texts := by
    cases htexts : Transcript.texts lengthy.toText (Work.windowsOf none st [minute 0, minute 1]) with
    | ok texts => exact ⟨texts, rfl⟩
    | error e =>
      rcases (Transcript.texts_eq_error htexts).2 with hread | ⟨t, hread, w, -, u, hu, -, hno⟩
      · rw [ofText_lengthy] at hread
        cases hread
      · rw [ofText_lengthy] at hread
        cases hread
        exact absurd (congrArg Utterance.text (List.mem_singleton.1 hu)) (hno "hello")
  obtain ⟨db, hrun, -⟩ := Work.run_applyTranscript_ok hchain.keyed called "heard" htexts
  obtain ⟨after, hafter, hlater⟩ :=
    (Work.resegmenting_is_idempotent hchain.keyed called ended).2 lengthy.toText "heard" none 2 _ hraw hrun
  exact ⟨{ st with store := db }, after, hrun, hafter,
    hlater [("CA1", 180 * Time.second), ("CA1_transfer_1", 240 * Time.second)] (by decide +kernel)⟩

end Switchboard
