import Switchboard.Proofs.Json.Rereading
import Switchboard.Transcript.Diarized
/-!
# Transcripts are read back

A transcript is read back from the text that it is stored as, with its times bit for bit, if what is said in it can be told from
its text (`ofText_toText`).  A provider's result makes such a transcript as soon as its own words can be told, and somebody
speaks in it (`plain_of_ofDiarized`).
-/
namespace Switchboard

theorem Utterance.read_toJson (u : Utterance Float) : Utterance.read u.toJson = .ok u := rfl

namespace Transcript

/-- A transcript whose words and speakers can be told from their texts. -/
structure Plain (t : Transcript Float) : Prop where
  text : t.text.Plain
  utterances : ∀ u ∈ t.utterances, u.text.Plain ∧ u.speaker.Plain

theorem Plain.toJson {t : Transcript Float} (h : t.Plain) : t.toJson.Plain := by
  refine .obj ?_ (show ["text", "duration", "segments"].Nodup by decide)
  simp only [List.forall_mem_cons]
  refine ⟨h.text, .float _, .arr fun v hv => ?_, List.forall_mem_nil _⟩
  obtain ⟨u, hu, rfl⟩ := List.mem_map.mp hv
  refine .obj ?_ (show ["start", "end", "text", "speaker"].Nodup by decide)
  simp only [List.forall_mem_cons]
  exact ⟨.float _, .float _, (h.utterances u hu).1, (h.utterances u hu).2, List.forall_mem_nil _⟩

/-- A duration as it is read back: none is nought, whatever its sign. -/
def settled (duration : Float) : Float := if duration == 0.0 then 0.0 else duration

theorem secondsOf_zero : secondsOf (.int 0) = .ok 0.0 := by
  have hfinite : (Decimal.toFloat false 0 0).isInf = false := by decide +kernel
  show (if (Decimal.toFloat false 0 0).isInf = true then Except.error TranscriptFault.overflow else .ok 0.0) = _
  rw [hfinite]
  rfl

theorem secondsOf_orElseIfNothing (duration : Float) :
    secondsOf (orElseIfNothing (.float duration) (.int 0)) = .ok (settled duration) := by
  unfold settled
  cases hzero : duration == 0.0 with
  | true => simpa [orElseIfNothing, Json.truthy, hzero] using secondsOf_zero
  | false => simp [orElseIfNothing, Json.truthy, hzero, secondsOf]

theorem itemsOf_orElseIfNothing (vs : List Json) : itemsOf (orElseIfNothing (.arr vs) (.arr [])) = .ok vs := by
  cases vs <;> rfl

theorem mapM_read_toJson (us : List (Utterance Float)) : (us.map Utterance.toJson).mapM Utterance.read = .ok us := by
  induction us with
  | nil => rfl
  | cons u us ih =>
    rw [List.map_cons, List.mapM_cons, Utterance.read_toJson, ih]
    rfl

theorem read_toJson (t : Transcript Float) :
    Transcript.read t.toJson = .ok ⟨orElseIfNothing t.text (.str ""), settled t.duration, t.utterances⟩ := by
  show (do
    let duration ← secondsOf (orElseIfNothing (.float t.duration) (.int 0))
    let items ← itemsOf (orElseIfNothing (.arr (t.utterances.map Utterance.toJson)) (.arr []))
    let utterances ← items.mapM Utterance.read
    return (⟨orElseIfNothing t.text (.str ""), duration, utterances⟩ : Transcript Float)) = _
  rw [secondsOf_orElseIfNothing, itemsOf_orElseIfNothing]
  show (do
    let utterances ← (t.utterances.map Utterance.toJson).mapM Utterance.read
    return (⟨orElseIfNothing t.text (.str ""), settled t.duration, utterances⟩ : Transcript Float)) = _
  rw [mapM_read_toJson]
  rfl

/-- **A transcript is read back** from what is stored of it. -/
theorem ofText_toText {t : Transcript Float} (h : t.Plain) :
    Transcript.ofText t.toText = .ok ⟨orElseIfNothing t.text (.str ""), settled t.duration, t.utterances⟩ := by
  rw [ofText, toText, Json.parse_toText h.toJson]
  exact read_toJson t

theorem bind_eq_ok {ε α β : Type} {x : Except ε α} {f : α → Except ε β} {b : β} (h : x >>= f = .ok b) :
    ∃ a, x = .ok a ∧ f a = .ok b := by
  cases x with
  | error e => cases h
  | ok a => exact ⟨a, rfl, h⟩

/-- What stands for something has items. -/
theorem items_ne_nil {v : Json} {items : List Json} (htruthy : v.truthy = true) (h : itemsOf v = .ok items) : items ≠ [] := by
  unfold itemsOf at h
  split at h
  · cases h
    simpa [Json.truthy] using htruthy
  · cases h
    simpa [Json.truthy] using htruthy
  · cases h
    simpa [Json.truthy] using htruthy
  · cases h

/-- Every piece of a result says a text. -/
theorem plain_of_utterancesFrom {vs seen : List Json} {us : List (Utterance Float)} (h : utterancesFrom seen vs = .ok us) :
    (∀ u ∈ us, u.text.Plain ∧ u.speaker.Plain) ∧ us.length = vs.length := by
  induction vs generalizing seen us with
  | nil =>
    cases h
    exact ⟨List.forall_mem_nil _, rfl⟩
  | cons v vs ih =>
    unfold utterancesFrom at h
    dsimp only at h
    split at h
    · cases h
    · obtain ⟨start, -, h⟩ := bind_eq_ok h
      obtain ⟨stop, -, h⟩ := bind_eq_ok h
      obtain ⟨words, -, h⟩ := bind_eq_ok h
      obtain ⟨more, hmore, h⟩ := bind_eq_ok h
      cases h
      obtain ⟨hplain, hlength⟩ := ih hmore
      exact ⟨List.forall_mem_cons.mpr ⟨⟨.str _, .str _⟩, hplain⟩, congrArg (· + 1) hlength⟩

/-- **What a provider's result says can be told** if the words of the whole can, and somebody says something. -/
theorem plain_of_ofDiarized {result : Json} {t : Transcript Float} (h : ofDiarized result = .ok t) (htext : t.text.Plain) :
    t.Plain ∧ t.utterances ≠ [] := by
  unfold ofDiarized at h
  dsimp only at h
  obtain ⟨duration, -, h⟩ := bind_eq_ok h
  split at h
  · cases h
    exact ⟨⟨htext, List.forall_mem_singleton.mpr ⟨htext, .str _⟩⟩, List.cons_ne_nil _ _⟩
  · rename_i hpieces
    split at h
    · rename_i items hitems
      change (utterancesFrom [] items >>= _) = _ at h
      obtain ⟨us, hus, h⟩ := bind_eq_ok h
      cases h
      obtain ⟨hplain, hlength⟩ := plain_of_utterancesFrom hus
      refine ⟨⟨htext, hplain⟩, fun hnone => ?_⟩
      have hempty : items = [] := List.eq_nil_of_length_eq_zero (hlength.symm.trans (congrArg List.length hnone))
      exact items_ne_nil (by simpa using hpieces) hitems hempty
    · cases h

/-- **A result without times and pieces is said in a moment**, at the start of the call. -/
theorem ofDiarized_untimed {result : Json} (hduration : (result.getD "duration").truthy = false)
    (hpieces : (result.getD "segments").truthy = false) :
    let text := orElseIfNothing (result.getD "text") (.str "")
    ofDiarized result = .ok ⟨text, 0.0, [⟨0.0, 0.0, text, .str (speakerName 1)⟩]⟩ := by
  intro text
  have hnone : optionalTime (result.getD "duration") = .ok 0.0 := by
    unfold optionalTime orElseIfNothing
    rw [hduration, if_neg Bool.false_ne_true, secondsOf_zero]
  unfold ofDiarized
  rw [hnone]
  exact if_pos (by rw [hpieces]; rfl)

end Transcript

end Switchboard
