import Switchboard.Proofs.Json.Rereading
import Switchboard.Proofs.Service.Interleaving
import Switchboard.Proofs.Store.Rows
import Switchboard.Proofs.Transcript.Parts
import Switchboard.Service.Transcripts
/-!
# Storing transcripts

The transcript of a call is written to its segments one by one.  Every write finds its segment in the chain as the writes
before left it (`HasChain.change`), so a run of writes gives each segment its own text (`run_putTexts`).  What a text is
stored as is settled behind the first write and before the others: a text that cannot be cut stops there, with the whole
transcript replaced and no segment written (`transcript_stored_unless_unjoinable`).
-/
namespace Switchboard

open Time (Instant)
open Store (sameId CallRow.change)

/-! ## The chain of a call -/

namespace Store

/-- The segments of a call in order, as the store holds them. -/
structure HasChain (db : Store) (root : String) (ss : List Segment) : Prop where
  keyed : db.Keyed
  rows : List.Forall₂ (fun r s => CallRow.read r = .ok s) (db.chainRows root none) ss

/-- **A write leaves the rows of a call in their places**, as far as it leaves calls and numbers alone. -/
theorem chainRows_updateCalls (p : CallRow → Bool) {g : CallRow → CallRow}
    (hg : ∀ r, (g r).segment.rootSid = r.segment.rootSid ∧ (g r).segment.number = r.segment.number) (root : String)
    (db : Store) :
    (db.updateCalls p g).chainRows root none = (db.chainRows root none).map fun r => if p r then g r else r := by
  have hroot (r : CallRow) : (if p r then g r else r).segment.rootSid = r.segment.rootSid := by
    split
    · exact (hg r).1
    · rfl
  have hnumber (r : CallRow) : (if p r then g r else r).segment.number = r.segment.number := by
    split
    · exact (hg r).2
    · rfl
  unfold Store.chainRows Store.updateCalls
  rw [List.filter_map, List.map_mergeSort]
  · congr 2
    refine List.filter_congr fun r _ => ?_
    simp [hroot, ownedBy]
  · intro a _ b _
    rw [hnumber, hnumber]

/-- The rows of a call are rows of the store, and no two of them have the same id. -/
theorem Keyed.chainRows {db : Store} (h : db.Keyed) (root : String) :
    (db.chainRows root none).Pairwise fun a b => sameId a.segment.id b.segment.id = false :=
  (List.mergeSort_perm _ _).symm.pairwise (h.sublist List.filter_sublist) fun {a b} hab =>
    (sameId_comm b.segment.id a.segment.id).trans hab

theorem mem_of_mem_chainRows {db : Store} {root : String} {r : CallRow} (h : r ∈ db.chainRows root none) : r ∈ db.calls :=
  (List.mem_filter.mp (List.mem_mergeSort.mp h)).1

theorem HasChain.pairwise {db : Store} {root : String} {ss : List Segment} (h : db.HasChain root ss) :
    ss.Pairwise fun a b => sameId a.id b.id = false := by
  have hids : (db.chainRows root none).map (fun r => r.segment.id) = ss.map Segment.id := by
    rw [← List.forall₂_eq_eq_eq, List.forall₂_map_left_iff, List.forall₂_map_right_iff]
    exact h.rows.imp fun r s hr => by rw [CallRow.segment_of_read hr]
  have hrows := List.pairwise_map (R := fun a b => sameId a b = false).mpr (h.keyed.chainRows root)
  rw [hids] at hrows
  exact List.pairwise_map.mp hrows

/-- **An update of one segment leaves the others of its call alone.** -/
theorem HasChain.change {db : Store} {root : String} {before after : List Segment} {s : Segment} {changes : List Change}
    (h : db.HasChain root (before ++ s :: after)) (hrange : changes.all Change.isInRange = true)
    (hneeded : changes.any Change.removesNeeded = false) :
    ∃ r db', Store.changeCall s.id changes db = .ok (some r, db') ∧ r.read = .ok (s.changed changes) ∧
      db'.HasChain root (before ++ s.changed changes :: after) := by
  obtain ⟨r, hr, hread⟩ : ∃ r ∈ db.chainRows root none, r.read = .ok s := by
    obtain ⟨i, hi, hs⟩ := List.getElem_of_mem (List.mem_append_right before (List.mem_cons_self (a := s) (l := after)))
    have hi' : i < (db.chainRows root none).length := h.rows.length_eq ▸ hi
    exact ⟨_, List.getElem_mem hi', hs ▸ h.rows.get hi' hi⟩
  have hid : r.segment.id = s.id := by rw [CallRow.segment_of_read hread]
  have hrow : db.rowOfId s.id none = some r :=
    h.keyed.rowOfId (mem_of_mem_chainRows hr) (hid ▸ sameId_self _)
  refine ⟨CallRow.change changes r, db.updateCalls (fun r => sameId r.segment.id s.id) (CallRow.change changes), ?_,
    CallRow.read_change hread changes, h.keyed.updateCalls _ fun r => (CallRow.change_key r changes).1, ?_⟩
  · rw [Store.changeCall, hrange, hrow]
    simp [hneeded]
  · -- no other segment of the call has the id of the row that is changed
    have hlist : before ++ s.changed changes :: after =
        (before ++ s :: after).map fun t => if sameId t.id s.id then t.changed changes else t := by
      have hpair := List.pairwise_append.mp h.pairwise
      have hbefore : ∀ t ∈ before, sameId t.id s.id = false := fun t ht => hpair.2.2 t ht s List.mem_cons_self
      have hafter : ∀ t ∈ after, sameId t.id s.id = false := fun t ht =>
        (sameId_comm t.id s.id).trans ((List.pairwise_cons.mp hpair.2.1).1 t ht)
      rw [List.map_append, List.map_cons, if_pos (sameId_self _)]
      congr 1
      · exact ((List.map_congr_left fun t ht => by rw [hbefore t ht]; rfl).trans (List.map_id _)).symm
      · congr 1
        exact ((List.map_congr_left fun t ht => by rw [hafter t ht]; rfl).trans (List.map_id _)).symm
    rw [hlist, chainRows_updateCalls _ fun r => (CallRow.change_key r changes).2, List.forall₂_map_left_iff,
      List.forall₂_map_right_iff]
    refine h.rows.imp fun a t ha => ?_
    have hsame : a.segment.id = t.id := by rw [CallRow.segment_of_read ha]
    rw [hsame]
    split
    · exact CallRow.read_change ha changes
    · exact ha

theorem hasChain_holding {root : String} {ss : List Segment} (hroot : ∀ s ∈ ss, s.rootSid = root)
    (hids : ss.Pairwise fun a b => sameId a.id b.id = false) (hnumbers : ss.Pairwise fun a b => a.number ≤ b.number) :
    (State.holding ss).store.HasChain root ss := by
  have hrows : (State.holding ss).store.chainRows root none = ss.map CallRow.own := by
    unfold Store.chainRows
    have hall : (ss.map CallRow.own).filter (fun r => decide (r.segment.rootSid = root) && ownedBy none r.segment.tenantId) =
        ss.map CallRow.own := List.filter_eq_self.mpr (by simpa [CallRow.own, ownedBy] using hroot)
    show (List.filter _ (ss.map CallRow.own)).mergeSort _ = _
    rw [hall]
    refine List.mergeSort_of_pairwise (List.pairwise_map.mpr (hnumbers.imp fun h => ?_))
    exact decide_eq_true h
  refine ⟨List.pairwise_map.mpr hids, ?_⟩
  rw [hrows, List.forall₂_map_left_iff, List.forall₂_same]
  exact fun _ _ => rfl

end Store

namespace Work

theorem run_mapM_readRow {rows : List CallRow} {ss : List Segment} {st : State} :
    (rows.mapM readRow).run st = (.ok ss, st) ↔ List.Forall₂ (fun r s => CallRow.read r = .ok s) rows ss := by
  induction rows generalizing ss with
  | nil =>
    rw [List.mapM_nil]
    constructor
    · intro h
      cases h
      exact .nil
    · intro h
      cases h
      rfl
  | cons r rows ih =>
    rw [List.mapM_cons]
    constructor
    · intro h
      obtain ⟨s, st₁, hr, h⟩ := Task.run_bind_eq_ok h
      obtain ⟨hread, rfl⟩ := run_readRow_eq_ok hr
      obtain ⟨rest, st₂, hrest, h⟩ := Task.run_bind_eq_ok h
      cases h
      exact .cons hread (ih.mp hrest)
    · intro h
      cases h with
      | cons hread hrest => exact (Task.run_bind_ok (run_readRow hread st)).trans (Task.run_bind_ok (ih.mpr hrest))

/-- **The segments of a call are those that the store holds of it.** -/
theorem run_chain_iff {st : State} (keyed : st.store.Keyed) {sid : String} {ss : List Segment} :
    (chain sid none).run st = (.ok ss, st) ↔ st.isUp = true ∧ st.store.HasChain (Naming.root sid) ss := by
  unfold chain
  constructor
  · intro h
    obtain ⟨rows, st₁, hquery, h⟩ := Task.run_bind_eq_ok h
    obtain ⟨rfl, rfl⟩ := run_query_eq_ok hquery
    refine ⟨?_, keyed, run_mapM_readRow.mp h⟩
    by_contra hdown
    rw [query, run_statement, if_neg hdown] at hquery
    cases hquery
  · rintro ⟨hup, -, hrows⟩
    exact (Task.run_bind_ok (run_statement_ok hup rfl)).trans (run_mapM_readRow.mpr hrows)

/-- **An update of a segment of a call** finds it and leaves the others alone. -/
theorem run_updateCall {st : State} {root : String} {before after : List Segment} {s : Segment} {changes : List Store.Change}
    (hup : st.isUp = true) (h : st.store.HasChain root (before ++ s :: after)) (hsome : changes.isEmpty = false)
    (hrange : changes.all Store.Change.isInRange = true) (hneeded : changes.any Store.Change.removesNeeded = false) :
    ∃ db, (discard (updateCall s.id changes)).run st = (.ok (), { st with store := db }) ∧
      db.HasChain root (before ++ s.changed changes :: after) := by
  obtain ⟨r, db, hchange, hread, hdb⟩ := h.change hrange hneeded
  refine ⟨db, ?_, hdb⟩
  have hrun : (updateCall s.id changes).run st = (.ok (some (s.changed changes)), { st with store := db }) := by
    unfold updateCall
    rw [hsome]
    exact (Task.run_bind_ok (run_statement_ok hup hchange)).trans (Task.run_bind_ok (run_readRow hread _))
  exact Task.run_bind_ok hrun

end Work

/-! ## Storing texts -/

/-- A segment on which a transcript was stored. -/
def Segment.transcribed (s : Segment) (text status : String) : Segment :=
  s.changed [.transcription (some text), .transcriptionStatus (some status)]

/-- A segment on which the transcript of its whole call was stored. -/
def Segment.keeping (s : Segment) (raw : String) : Segment := s.changed [.chainTranscription (some raw)]

namespace Work

/-- Stores a text on each of some segments. -/
def putTexts (status : String) (texts : List (Segment × String)) : Work Unit := texts.forM fun p => putTranscript status p.1 p.2

theorem putParts_eq (status : String) (parts : List (Segment × Transcript Float)) :
    putParts status parts = putTexts status (parts.map fun p => (p.1, p.2.toText)) := by
  induction parts with
  | nil => rfl
  | cons p rest ih =>
    rw [putParts, ih]
    rfl

theorem forM_putTranscript (status raw : String) (ss : List Segment) :
    (ss.forM fun s => putTranscript status s raw) = putTexts status (ss.map fun s => (s, raw)) := by
  induction ss with
  | nil => rfl
  | cons s rest ih =>
    show (putTranscript status s raw >>= fun _ => rest.forM _) = _
    rw [ih]
    rfl

theorem zip_map_const {α β γ : Type} {as : List α} {bs : List β} (h : bs.length = as.length) (c : γ) :
    as.zip (bs.map fun _ => c) = as.map fun a => (a, c) :=
  List.ext_getElem (by simp [h]) (by simp)

/-- **Each segment of a call gets its own changes**, one after the other. -/
theorem run_changes {α : Type} (segment : α → Segment) (changes : α → List Store.Change) {root : String}
    (hsome : ∀ a, (changes a).isEmpty = false) (hrange : ∀ a, (changes a).all Store.Change.isInRange = true)
    (hneeded : ∀ a, (changes a).any Store.Change.removesNeeded = false) :
    ∀ (as : List α) (before : List Segment) {st : State},
      st.isUp = true → st.store.HasChain root (before ++ as.map segment) →
        ∃ db, (as.forM fun a => discard (updateCall (segment a).id (changes a))).run st = (.ok (), { st with store := db }) ∧
          db.HasChain root (before ++ as.map fun a => (segment a).changed (changes a))
  | [], _, st, _, h => ⟨st.store, rfl, h⟩
  | a :: rest, before, st, hup, h => by
    obtain ⟨db, hput, hdb⟩ := run_updateCall hup h (hsome a) (hrange a) (hneeded a)
    rw [List.append_cons] at hdb
    obtain ⟨db', hrest, hdb'⟩ :=
      @run_changes α segment changes root hsome hrange hneeded rest _ { st with store := db } hup hdb
    refine ⟨db', (Task.run_bind_ok hput).trans hrest, ?_⟩
    rw [List.append_assoc] at hdb'
    exact hdb'

/-- **Each segment gets its own text.** -/
theorem run_putTexts {status : String} (texts : List (Segment × String)) {st : State} {root : String} (hup : st.isUp = true)
    (h : st.store.HasChain root (texts.map Prod.fst)) :
    ∃ db, (putTexts status texts).run st = (.ok (), { st with store := db }) ∧
      db.HasChain root (texts.map fun p => p.1.transcribed p.2 status) := by
  unfold putTexts putTranscript Segment.transcribed
  exact run_changes Prod.fst (fun p => [.transcription (some p.2), .transcriptionStatus (some status)])
    (fun _ => rfl) (fun _ => rfl) (fun _ => rfl) texts [] hup h

end Work

/-- Whether a text holds a transcript that cannot be stored: a time in it is an integer too large for a time, or the words of
an utterance in one of the windows are no text. -/
def Transcript.Unjoinable (raw : String) (ws : List (Window Float)) : Prop :=
  Transcript.ofText raw = .error .overflow ∨
    ∃ t, Transcript.ofText raw = .ok t ∧ ∃ w ∈ ws, ∃ u ∈ t.utterances, u.overlaps w = true ∧ ∀ s, u.text ≠ .str s

/-- What a text is stored as: as it is, or as the parts of the transcript that it holds, one for each window. -/
inductive Transcript.StoredAs (raw : String) (ws : List (Window Float)) : List String → Prop where
  | verbatim : StoredAs raw ws (ws.map fun _ => raw)
  | parts {t : Transcript Float} {parts : List (Transcript Float)} (read : Transcript.ofText raw = .ok t)
    (cut : t.split ws = some parts) : StoredAs raw ws (parts.map Transcript.toText)

namespace Transcript

/-- What a text is stored as, in the windows of a call. -/
def texts (raw : String) (ws : List (Window Float)) : Except Fault (List String) :=
  if ws.length ≤ 1 then .ok (ws.map fun _ => raw)
  else
    match ofText raw with
    | .error .overflow => .error .overflow
    | .error _ => .ok (ws.map fun _ => raw)
    | .ok t =>
      if t.utterances.isEmpty then .ok (ws.map fun _ => raw)
      else
        match t.split ws with
        | none => .error .words
        | some parts => .ok (parts.map toText)

theorem texts_of_many {raw : String} {ws : List (Window Float)} (h : 1 < ws.length) :
    texts raw ws =
      match ofText raw with
      | .error .overflow => .error .overflow
      | .error _ => .ok (ws.map fun _ => raw)
      | .ok t =>
        if t.utterances.isEmpty then .ok (ws.map fun _ => raw)
        else
          match t.split ws with
          | none => .error .words
          | some parts => .ok (parts.map toText) :=
  if_neg (Nat.not_le.mpr h)

theorem StoredAs.length_eq {raw : String} {ws : List (Window Float)} {texts : List String} (h : StoredAs raw ws texts) :
    texts.length = ws.length := by
  cases h with
  | verbatim => exact List.length_map _
  | parts _ cut => rw [List.length_map, (forall₂_part cut).length_eq]

/-- **A transcript that is read can be stored** where it can be cut. -/
theorem unjoinable_iff {raw : String} {ws : List (Window Float)} {t : Transcript Float} (h : ofText raw = .ok t) :
    Unjoinable raw ws ↔ t.split ws = none := by
  rw [← Option.not_isSome_iff_eq_none, isSome_split, Unjoinable, h]
  push Not
  simp

/-- **A text is stored as it is or as the parts of its transcript**, and never where it cannot be joined. -/
theorem texts_eq_ok {raw : String} {ws : List (Window Float)} {stored : List String} (h : texts raw ws = .ok stored) :
    StoredAs raw ws stored ∧ ¬ (1 < ws.length ∧ Unjoinable raw ws) := by
  unfold texts at h
  split at h
  · rename_i hone
    cases h
    exact ⟨.verbatim, fun hmany => absurd hmany.1 (Nat.not_lt.mpr hone)⟩
  · split at h
    · cases h
    · rename_i e hother hread
      cases h
      exact ⟨.verbatim, fun hmany => hother (by simpa [Unjoinable, hread] using hmany.2)⟩
    · rename_i t hread
      rw [unjoinable_iff hread]
      split at h
      · rename_i hempty
        cases h
        have hcut : (t.split ws).isSome = true := isSome_split.mpr (by simp [List.isEmpty_iff.mp hempty])
        exact ⟨.verbatim, fun hmany => by simp [hmany.2] at hcut⟩
      · split at h
        · cases h
        · rename_i parts hcut
          cases h
          exact ⟨.parts hread hcut, fun hmany => by simp [hcut] at hmany⟩

theorem texts_eq_error {raw : String} {ws : List (Window Float)} {e : Fault} (h : texts raw ws = .error e) :
    1 < ws.length ∧ Unjoinable raw ws := by
  unfold texts at h
  split at h
  · cases h
  · rename_i hmany
    refine ⟨Nat.lt_of_not_le hmany, ?_⟩
    split at h
    · rename_i hread
      exact .inl hread
    · cases h
    · rename_i t hread
      split at h
      · cases h
      · split at h
        · exact (unjoinable_iff hread).mpr ‹_›
        · cases h

end Transcript

namespace Work

/-- The windows of a call in seconds. -/
def windowsOf (asOf : Option Instant) (st : State) (ss : List Segment) : List (Window Float) :=
  (chainWindows (asOf.getD st.now) ss).map Window.inSeconds

theorem length_windowsOf (asOf : Option Instant) (st : State) (ss : List Segment) : (windowsOf asOf st ss).length = ss.length := by
  cases ss <;> simp [windowsOf, chainWindows]

/-- Stores the texts of a call, if there are any. -/
def storeTexts (status : String) (ss : List Segment) (texts : Except Fault (List String)) : Work Nat := do
  putTexts status (ss.zip (← Task.ofExcept texts))
  return ss.length

theorem storeTexts_verbatim (status raw : String) {ss : List Segment} {ws : List (Window Float)} (h : ws.length = ss.length) :
    storeTexts status ss (.ok (ws.map fun _ => raw)) = do
      ss.forM fun s => putTranscript status s raw
      return ss.length := by
  rw [forM_putTranscript, ← zip_map_const h]
  rfl

theorem storeTexts_parts (status : String) (ss : List Segment) (parts : List (Transcript Float)) :
    storeTexts status ss (.ok (parts.map Transcript.toText)) = do
      putParts status (ss.zip parts)
      return ss.length := by
  have hzip : (ss.zip parts).map (fun p => (p.1, p.2.toText)) = ss.zip (parts.map Transcript.toText) := List.zip_map_right.symm
  rw [putParts_eq, hzip]
  rfl

/-- **The transcript of a whole call is kept first**, and what its texts are is settled behind that. -/
theorem run_applyTranscript {st : State} (keyed : st.store.Keyed) {sid : String} {first : Segment} {rest : List Segment}
    (hchain : (chain sid none).run st = (.ok (first :: rest), st)) (raw status : String) (asOf : Option Instant) :
    ∃ db, db.HasChain (Naming.root sid) (first.keeping raw :: rest) ∧
      (applyTranscript sid raw status asOf).run st =
        (storeTexts status (first :: rest) (Transcript.texts raw (windowsOf asOf st (first :: rest)))).run
          { st with store := db } := by
  obtain ⟨hup, hdb⟩ := (run_chain_iff keyed).mp hchain
  obtain ⟨db, hkeep, hdb⟩ : ∃ db, (discard (updateCall first.id [.chainTranscription (some raw)])).run st =
      (.ok (), { st with store := db }) ∧ db.HasChain (Naming.root sid) (first.keeping raw :: rest) :=
    @run_updateCall st _ [] rest first _ hup hdb rfl rfl rfl
  refine ⟨db, hdb, ?_⟩
  have hlength := length_windowsOf asOf st (first :: rest)
  unfold applyTranscript
  rw [Task.run_bind_ok hchain]
  dsimp only
  rw [Task.run_bind_ok hkeep]
  cases rest with
  | nil =>
    have hone : Transcript.texts raw (windowsOf asOf st [first]) = .ok ((windowsOf asOf st [first]).map fun _ => raw) :=
      if_pos (le_of_eq hlength)
    rw [hone, storeTexts_verbatim status raw hlength]
    exact congrArg (fun t : Work Unit => (t >>= fun _ => return 1).run _) (Task.bind_done (putTranscript status first raw)).symm
  | cons second rest =>
    rw [Transcript.texts_of_many (by rw [hlength]; simp)]
    unfold timed
    cases hread : Transcript.ofText raw with
    | error e =>
      cases e with
      | overflow => rfl
      | _ =>
        dsimp only
        rw [storeTexts_verbatim status raw hlength]
        rfl
    | ok t =>
      dsimp only
      cases hempty : t.utterances.isEmpty with
      | true =>
        simp only [↓reduceIte]
        rw [storeTexts_verbatim status raw hlength]
        rfl
      | false =>
        -- the windows are those of the call before anything was written
        simp only [Bool.false_eq_true, ↓reduceIte]
        unfold windowsOf
        refine (Task.run_bind_ok (a := some t) rfl).trans ((Task.run_bind_ok (a := st.now) rfl).trans ?_)
        cases t.split ((chainWindows (asOf.getD st.now) (first :: second :: rest)).map Window.inSeconds) with
        | none => rfl
        | some parts =>
          dsimp only
          rw [storeTexts_parts]

/-- **A text that can be stored** is stored on the segments of its call. -/
theorem run_applyTranscript_ok {st : State} (keyed : st.store.Keyed) {sid : String} {first : Segment} {rest : List Segment}
    (hchain : (chain sid none).run st = (.ok (first :: rest), st)) {raw : String} (status : String) {asOf : Option Instant}
    {texts : List String} (htexts : Transcript.texts raw (windowsOf asOf st (first :: rest)) = .ok texts) :
    ∃ db, (applyTranscript sid raw status asOf).run st = (.ok (rest.length + 1), { st with store := db }) ∧
      db.HasChain (Naming.root sid) (((first.keeping raw :: rest).zip texts).map fun p => p.1.transcribed p.2 status) := by
  obtain ⟨db, hdb, hrun⟩ := run_applyTranscript keyed hchain raw status asOf
  have hlength : texts.length = (first.keeping raw :: rest).length :=
    (Transcript.texts_eq_ok htexts).1.length_eq.trans (length_windowsOf asOf st (first :: rest))
  have hzip : ((first.keeping raw :: rest).zip texts).map Prod.fst = first.keeping raw :: rest :=
    List.map_fst_zip (le_of_eq hlength.symm)
  obtain ⟨db', hput, hdb'⟩ := @run_putTexts status _ { st with store := db } (Naming.root sid)
    ((run_chain_iff keyed).mp hchain).1 (hzip.symm ▸ hdb)
  refine ⟨db', ?_, hdb'⟩
  rw [hrun, htexts]
  cases texts with
  | nil => cases hlength
  | cons text texts => exact Task.run_bind_ok hput

/-- **What the storing of a text leaves alone in a segment** is as it was in all of them. -/
theorem map_transcribed {β : Type} {g : Segment → β} (hg : ∀ s text status, g (s.transcribed text status) = g s)
    {ss : List Segment} {texts : List String} (h : texts.length = ss.length) (status : String) :
    ((ss.zip texts).map fun p => p.1.transcribed p.2 status).map g = ss.map g := by
  conv_rhs => rw [← List.map_fst_zip (le_of_eq h.symm), List.map_map]
  rw [List.map_map]
  exact List.map_congr_left fun p _ => hg p.1 p.2 status

theorem transcriptions_transcribed {ss : List Segment} {texts : List String} (h : texts.length = ss.length)
    (status : String) :
    ((ss.zip texts).map fun p => p.1.transcribed p.2 status).map Segment.transcription = texts.map some := by
  conv_rhs => rw [← List.map_snd_zip (le_of_eq h), List.map_map]
  rw [List.map_map]
  rfl

/-- **A transcript is stored on every segment of its call unless it cannot be joined**, and then on none.  Where there is one
segment, or the text can be stored, the call has the number of its segments as the result, and afterwards every segment has the
given status and the text or its part of the transcript in it.  Otherwise storing fails: the transcript of the whole call is
replaced and nothing else. -/
theorem transcript_stored_unless_unjoinable {st : State} (keyed : st.store.Keyed) {sid : String} {first : Segment}
    {rest : List Segment} (called : (chain sid none).run st = (.ok (first :: rest), st)) (raw status : String)
    (asOf : Option Instant) :
    let ws := windowsOf asOf st (first :: rest)
    let result := (applyTranscript sid raw status asOf).run st
    (rest ≠ [] ∧ Transcript.Unjoinable raw ws →
        (∃ e, result.1 = .error e) ∧
          (chain sid none).run result.2 = (.ok (first.keeping raw :: rest), result.2)) ∧
      (¬ (rest ≠ [] ∧ Transcript.Unjoinable raw ws) →
        result.1 = .ok (rest.length + 1) ∧
          ∃ texts, Transcript.StoredAs raw ws texts ∧ texts.length = rest.length + 1 ∧
            (chain sid none).run result.2 =
              (.ok (((first.keeping raw :: rest).zip texts).map fun p => p.1.transcribed p.2 status), result.2)) := by
  intro ws result
  have hup := ((run_chain_iff keyed).mp called).1
  have hlength : ws.length = rest.length + 1 := length_windowsOf asOf st (first :: rest)
  have hmany : 1 < ws.length ↔ rest ≠ [] := by
    rw [hlength, ← List.length_pos_iff]
    omega
  cases htexts : Transcript.texts raw ws with
  | error e =>
    obtain ⟨db, hdb, hrun⟩ := run_applyTranscript keyed called raw status asOf
    rw [htexts] at hrun
    have hno := Transcript.texts_eq_error htexts
    rw [hmany] at hno
    refine ⟨fun _ => ?_, fun h => absurd hno h⟩
    simp only [result, hrun]
    exact ⟨⟨e, rfl⟩, (run_chain_iff hdb.keyed).mpr ⟨hup, hdb⟩⟩
  | ok texts =>
    obtain ⟨db, hrun, hdb⟩ := run_applyTranscript_ok keyed called status htexts
    obtain ⟨hstored, hok⟩ := Transcript.texts_eq_ok htexts
    rw [hmany] at hok
    refine ⟨fun h => absurd h hok, fun _ => ?_⟩
    simp only [result, hrun, true_and]
    exact ⟨texts, hstored, hstored.length_eq.trans hlength, (run_chain_iff hdb.keyed).mpr ⟨hup, hdb⟩⟩

end Work

/-! ## A transcript without words -/

/-- A minute of a call: its segments end where the next ones start. -/
def minute (number : Nat) : Segment :=
  { Segment.opened "T1" ("CA1-" ++ toString number) "CA1" number "inbound" .completed with
    id := toString number
    startedAt := some (.utc (number * 60 * Time.second))
    endedAt := some (.utc ((number + 1) * 60 * Time.second)) }

/-- A transcript of an utterance that has no words. -/
def wordless : Json :=
  .obj [("segments", .arr [.obj [("start", .int 0), ("end", .int 5), ("text", .null)]])]

theorem plain_wordless : wordless.Plain := by
  refine .obj (List.forall_mem_singleton.mpr (.arr (List.forall_mem_singleton.mpr (.obj ?_ (by decide))))) (by decide)
  simp only [List.forall_mem_cons]
  exact ⟨.int (by decide), .int (by decide), .null, List.forall_mem_nil _⟩

theorem ofText_wordless :
    Transcript.ofText wordless.toText = .ok ⟨.str "", 0.0, [⟨0.0, 5.0, .null, .str "Speaker 1"⟩]⟩ := by
  rw [Transcript.ofText, Json.parse_toText plain_wordless]
  rfl

/-- **A call can be left half stored**: its transcript is replaced and none of its segments has a part of it. -/
theorem wordless_transcript_stops_behind_the_first_write :
    let st := State.holding [minute 0, minute 1]
    let result := (Work.applyTranscript "CA1" wordless.toText "completed" none).run st
    st.store.Keyed ∧ (Work.chain "CA1" none).run st = (.ok [minute 0, minute 1], st) ∧
      Transcript.Unjoinable wordless.toText (Work.windowsOf none st [minute 0, minute 1]) ∧ (∃ e, result.1 = .error e) ∧
        (Work.chain "CA1" none).run result.2 = (.ok [(minute 0).keeping wordless.toText, minute 1], result.2) := by
  intro st result
  have hchain : st.store.HasChain "CA1" [minute 0, minute 1] :=
    Store.hasChain_holding (by decide) (by decide) (by decide)
  have keyed := hchain.keyed
  have called : (Work.chain "CA1" none).run st = (.ok [minute 0, minute 1], st) := (Work.run_chain_iff keyed).mpr ⟨rfl, hchain⟩
  have hin : (⟨0.0, 5.0, .null, .str "Speaker 1"⟩ : Utterance Float).overlaps ⟨0.0, 60.0⟩ = true := by decide +kernel
  have hwindows : Work.windowsOf none st [minute 0, minute 1] = [⟨0.0, 60.0⟩, ⟨60.0, 120.0⟩] := by decide +kernel
  have unjoinable : Transcript.Unjoinable wordless.toText (Work.windowsOf none st [minute 0, minute 1]) :=
    .inr ⟨_, ofText_wordless, _, hwindows ▸ List.mem_cons_self, _, List.mem_cons_self, hin, nofun⟩
  have hstops := (Work.transcript_stored_unless_unjoinable keyed called wordless.toText "completed" none).1
    ⟨List.cons_ne_nil _ _, unjoinable⟩
  exact ⟨keyed, called, unjoinable, hstops⟩

end Switchboard
