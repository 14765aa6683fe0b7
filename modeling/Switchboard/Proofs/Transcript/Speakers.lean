import Mathlib.Data.Finset.Card
import Mathlib.Data.Finset.Dedup
import Switchboard.Proofs.Transcript.Rereading
/-!
# Who speaks

A provider labels the pieces of a result, and the labels are numbered in the order in which they first appear.  The labels
that were seen are a list of different ones in which each stands at its rank (`Seen`), which one more label keeps; so labels
and numbers go one to one, and no number is left out (`speakers_are_numbered`).
-/
namespace Switchboard

/-! ## Ranks -/

/-- The rank of a label by first appearance: one more than there are different labels before. -/
def rankOf (labels : List String) (label : String) : Nat :=
  (labels.takeWhile (fun l => decide (l ≠ label))).toFinset.card + 1

theorem takeWhile_ne {before : List String} {label : String} (h : label ∉ before) (behind : List String) :
    (before ++ label :: behind).takeWhile (fun l => decide (l ≠ label)) = before := by
  have hbefore : ∀ l ∈ before, decide (l ≠ label) = true := by
    intro l hl
    rw [decide_eq_true_eq]
    rintro rfl
    exact h hl
  rw [List.takeWhile_append_of_pos hbefore, List.takeWhile_cons_of_neg (by simp), List.append_nil]

theorem rankOf_append {labels : List String} {label : String} (h : label ∈ labels) (more : List String) :
    rankOf (labels ++ more) label = rankOf labels label := by
  obtain ⟨before, behind, hlabels, hbefore⟩ := List.eq_append_cons_of_mem h
  rw [rankOf, rankOf, hlabels, List.append_assoc, List.cons_append, takeWhile_ne hbefore, takeWhile_ne hbefore]

theorem rankOf_concat {labels : List String} {label : String} (h : label ∉ labels) :
    rankOf (labels ++ [label]) label = labels.toFinset.card + 1 := by
  rw [rankOf, takeWhile_ne h]

/-- The labels that were seen among some: each once, at its rank. -/
structure Seen (labels seen : List String) : Prop where
  nodup : seen.Nodup
  mem : ∀ l, l ∈ seen ↔ l ∈ labels
  rank : ∀ l ∈ seen, rankOf labels l = seen.idxOf l + 1

namespace Seen

variable {labels seen : List String}

theorem nil : Seen [] [] := ⟨List.nodup_nil, fun _ => Iff.rfl, fun _ h => nomatch h⟩

theorem length_eq (h : Seen labels seen) : seen.length = labels.toFinset.card := by
  rw [← List.toFinset_card_of_nodup h.nodup]
  exact congrArg Finset.card (Finset.ext fun l => by rw [List.mem_toFinset, List.mem_toFinset, h.mem])

/-- **One more label** stays in its place where it was seen, and comes last where it was not. -/
theorem concat (h : Seen labels seen) (label : String) :
    Seen (labels ++ [label]) (if label ∈ seen then seen else seen ++ [label]) := by
  have hold {l : String} (hl : l ∈ seen) : rankOf (labels ++ [label]) l = seen.idxOf l + 1 :=
    (rankOf_append ((h.mem l).mp hl) _).trans (h.rank l hl)
  split
  · rename_i hlabel
    refine ⟨h.nodup, fun l => ?_, fun l hl => hold hl⟩
    rw [List.mem_append, List.mem_singleton, h.mem]
    exact ⟨.inl, fun hl => hl.elim id fun he => he ▸ (h.mem label).mp hlabel⟩
  · rename_i hlabel
    refine ⟨?_, fun l => ?_, fun l hl => ?_⟩
    · exact List.nodup_append.mpr ⟨h.nodup, List.nodup_singleton _, fun a ha b hb he =>
        hlabel (List.mem_singleton.mp hb ▸ he ▸ ha)⟩
    · rw [List.mem_append, List.mem_append, h.mem]
    · rcases List.mem_append.mp hl with hl | hl
      · rw [hold hl, List.idxOf_append_of_mem hl]
      · rw [List.mem_singleton.mp hl, rankOf_concat (mt (h.mem label).mpr hlabel), ← h.length_eq,
          List.idxOf_append_of_notMem hlabel, List.idxOf_cons_self, Nat.add_zero]

end Seen

theorem exists_seen (labels : List String) : ∃ seen, Seen labels seen := by
  induction labels using List.reverseRecOn with
  | nil => exact ⟨[], .nil⟩
  | append_singleton labels label ih =>
    obtain ⟨seen, h⟩ := ih
    exact ⟨_, h.concat label⟩

/-- **Labels of the same rank are the same.** -/
theorem rankOf_inj {labels : List String} {a b : String} (ha : a ∈ labels) (hb : b ∈ labels) :
    rankOf labels a = rankOf labels b ↔ a = b := by
  obtain ⟨seen, h⟩ := exists_seen labels
  have ha := (h.mem a).mpr ha
  rw [h.rank a ha, h.rank b ((h.mem b).mpr hb), Nat.add_right_cancel_iff, List.idxOf_inj ha]

/-- **The ranks of labels** go from one to their number. -/
theorem exists_rankOf_iff {labels : List String} {k : Nat} :
    (∃ l ∈ labels, rankOf labels l = k) ↔ 1 ≤ k ∧ k ≤ labels.toFinset.card := by
  obtain ⟨seen, h⟩ := exists_seen labels
  rw [← h.length_eq]
  constructor
  · rintro ⟨l, hl, rfl⟩
    have hl := (h.mem l).mpr hl
    rw [h.rank l hl]
    exact ⟨Nat.le_add_left _ _, List.idxOf_lt_length_of_mem hl⟩
  · rintro ⟨hleast, hmost⟩
    have hk : k - 1 < seen.length := by omega
    have hmem := List.getElem_mem hk
    refine ⟨seen[k - 1], (h.mem _).mp hmem, ?_⟩
    rw [h.rank _ hmem, h.nodup.idxOf_getElem _ hk]
    omega

theorem speakerName_inj {j k : Nat} (h : speakerName j = speakerName k) : j = k :=
  Nat.repr_inj.mp ((String.append_right_inj _).mp h)

/-! ## Labels -/

/-- A piece whose label is a text or left out. -/
def Labelled (v : Json) : Prop := v.getD "speaker" = .null ∨ ∃ s, v.getD "speaker" = .str s

/-- The label of a piece: `unknown` where it is empty or left out. -/
def labelText (v : Json) : String :=
  match v.getD "speaker" with
  | .str s => if s = "" then "unknown" else s
  | _ => "unknown"

theorem labelOf_eq {v : Json} (h : Labelled v) : labelOf v = .str (labelText v) := by
  unfold labelOf labelText
  rcases h with h | ⟨s, h⟩ <;> rw [h]
  · rfl
  · by_cases hs : s = ""
    · rw [hs]
      rfl
    · dsimp only
      rw [if_neg hs]
      exact if_pos (bne_iff_ne.mpr hs)

/-- **A label that was seen** keeps its place, and one that was not gets the next. -/
theorem rankLabel_eq (label : String) : ∀ seen : List String, rankLabel (.str label) (seen.map .str) =
    ((if label ∈ seen then seen else seen ++ [label]).idxOf label + 1,
      (if label ∈ seen then seen else seen ++ [label]).map .str)
  | [] => by simp [rankLabel]
  | l :: seen => by
    rw [List.map_cons, rankLabel, rankLabel_eq label seen]
    by_cases hl : l = label
    · subst hl
      simp [sameLabel]
    · have hne : label ≠ l := Ne.symm hl
      by_cases hmem : label ∈ seen <;> simp [sameLabel, hl, hne, hmem]

/-! ## Utterances -/

open Transcript (bind_eq_ok secondsOf_orElseIfNothing)

/-- A piece that says something: its times can be read, and its words are a text or left out. -/
structure Spoken (v : Json) : Prop where
  start : ∃ x, optionalTime (v.getD "start") = .ok x
  stop : ∃ x, optionalTime (v.getD "end") = .ok x
  words : ∃ s, wordsOf (v.getD "text") = .ok s

/-- A time as it is given: a floating number, or none. -/
def GivenTime (v : Json) : Prop := v = .null ∨ ∃ x, v = .float x

/-- A piece as it is given: its times are floating numbers and its words a text, or they are left out. -/
structure GivenPiece (v : Json) : Prop where
  start : GivenTime (v.getD "start")
  stop : GivenTime (v.getD "end")
  words : v.getD "text" = .null ∨ ∃ s, v.getD "text" = .str s

theorem GivenTime.read {v : Json} (h : GivenTime v) : ∃ x, optionalTime v = .ok x := by
  rcases h with rfl | ⟨x, rfl⟩
  · exact ⟨0.0, rfl⟩
  · rw [optionalTime, secondsOf_orElseIfNothing]
    exact ⟨_, rfl⟩

/-- **Every piece as it is given** says something. -/
theorem GivenPiece.spoken {v : Json} (h : GivenPiece v) : Spoken v := by
  refine ⟨h.start.read, h.stop.read, ?_⟩
  rcases h.words with hwords | ⟨s, hwords⟩ <;> rw [hwords, wordsOf, orElseIfNothing]
  · exact ⟨_, rfl⟩
  · cases (Json.str s).truthy <;> exact ⟨_, rfl⟩

/-- What a piece is heard as, where labels have ranks. -/
structure HeardAs (rank : String → Nat) (v : Json) (u : Utterance Float) : Prop where
  start : optionalTime (v.getD "start") = .ok u.start
  stop : optionalTime (v.getD "end") = .ok u.stop
  words : ∃ s, wordsOf (v.getD "text") = .ok s ∧ u.text = .str s
  speaker : u.speaker = .str (speakerName (rank (labelText v)))

/-- **The labels that were seen are kept** from one piece to the next, so the pieces are heard by the ranks of all labels. -/
theorem utterancesFrom_eq_ok {pieces : List Json} {us : List (Utterance Float)} {labels seen : List String}
    (h : Seen labels seen) (hlabels : ∀ v ∈ pieces, Labelled v) :
    utterancesFrom (seen.map .str) pieces = .ok us ↔
      List.Forall₂ (HeardAs (rankOf (labels ++ pieces.map labelText))) pieces us := by
  induction pieces generalizing us labels seen with
  | nil =>
    rw [utterancesFrom, List.forall₂_nil_left_iff, Except.ok.injEq]
    exact eq_comm
  | cons v pieces ih =>
    rw [List.forall_mem_cons] at hlabels
    have hnext := h.concat (labelText v)
    have hmem : labelText v ∈ labels ++ [labelText v] := List.mem_append_right _ (List.mem_singleton_self _)
    have hlater : labels ++ (v :: pieces).map labelText = labels ++ [labelText v] ++ pieces.map labelText := by
      rw [List.map_cons, List.append_cons]
    have hrank : (if labelText v ∈ seen then seen else seen ++ [labelText v]).idxOf (labelText v) + 1 =
        rankOf (labels ++ (v :: pieces).map labelText) (labelText v) := by
      rw [hlater, rankOf_append hmem, hnext.rank _ ((hnext.mem _).mpr hmem)]
    rw [utterancesFrom, labelOf_eq hlabels.1, rankLabel_eq, hrank, hlater]
    constructor
    · intro hok
      obtain ⟨start, hstart, hok⟩ := bind_eq_ok hok
      obtain ⟨stop, hstop, hok⟩ := bind_eq_ok hok
      obtain ⟨words, hwords, hok⟩ := bind_eq_ok hok
      obtain ⟨more, hmore, hok⟩ := bind_eq_ok hok
      cases hok
      exact .cons ⟨hstart, hstop, ⟨words, hwords, rfl⟩, rfl⟩ ((ih hnext hlabels.2).mp hmore)
    · intro hheard
      cases hheard with
      | cons hv hrest =>
        rename_i u more
        obtain ⟨start, stop, text, speaker⟩ := u
        obtain ⟨hstart, hstop, ⟨words, hwords, htext⟩, hspeaker⟩ := hv
        have hmore := (ih hnext hlabels.2).mpr hrest
        dsimp only at hstart hstop htext hspeaker
        simp only [isLabel, Bool.not_true, Bool.false_eq_true, if_false, bind, Except.bind, hstart, hstop, hwords, hmore,
          htext, hspeaker]
        rfl

/-- **Pieces that say something** are heard. -/
theorem exists_heard_iff (rank : String → Nat) : ∀ pieces : List Json,
    (∃ us, List.Forall₂ (HeardAs rank) pieces us) ↔ ∀ v ∈ pieces, Spoken v
  | [] => iff_of_true ⟨[], .nil⟩ fun _ h => nomatch h
  | v :: pieces => by
    rw [List.forall_mem_cons, ← exists_heard_iff rank pieces]
    constructor
    · rintro ⟨_, h⟩
      cases h with
      | cons hv hrest =>
        obtain ⟨s, hs, -⟩ := hv.words
        exact ⟨⟨⟨_, hv.start⟩, ⟨_, hv.stop⟩, ⟨s, hs⟩⟩, _, hrest⟩
    · rintro ⟨⟨⟨start, hstart⟩, ⟨stop, hstop⟩, words, hwords⟩, us, hrest⟩
      exact ⟨⟨start, stop, .str words, .str (speakerName (rank (labelText v)))⟩ :: us,
        .cons ⟨hstart, hstop, ⟨words, hwords, rfl⟩, rfl⟩ hrest⟩

/-! ## Results -/

variable {result : Json} {pieces : List Json}

/-- What a result with pieces is, step by step. -/
theorem ofDiarized_eq (hpieces : result.getD "segments" = .arr pieces) (hsome : pieces ≠ []) :
    Transcript.ofDiarized result = do
      let given ← optionalTime (result.getD "duration")
      let us ← utterancesFrom [] pieces
      return ⟨orElseIfNothing (result.getD "text") (.str ""),
        if given == 0.0 then (us.getLast?.map Utterance.stop).getD 0.0 else given, us⟩ := by
  have htruthy : (Json.arr pieces).truthy = true := by
    cases pieces with
    | nil => exact absurd rfl hsome
    | cons => rfl
  unfold Transcript.ofDiarized
  dsimp only
  rw [hpieces, htruthy]
  rfl

/-- **A result is a transcript** of what its pieces are heard as. -/
theorem ofDiarized_eq_ok (hpieces : result.getD "segments" = .arr pieces) (hsome : pieces ≠ [])
    (hlabels : ∀ v ∈ pieces, Labelled v) {t : Transcript Float} :
    Transcript.ofDiarized result = .ok t ↔ ∃ given,
      optionalTime (result.getD "duration") = .ok given ∧
      List.Forall₂ (HeardAs (rankOf (pieces.map labelText))) pieces t.utterances ∧
      t.text = orElseIfNothing (result.getD "text") (.str "") ∧
      t.duration = if given == 0.0 then (t.utterances.getLast?.map Utterance.stop).getD 0.0 else given := by
  have hheard (us : List (Utterance Float)) : utterancesFrom [] pieces = .ok us ↔
      List.Forall₂ (HeardAs (rankOf (pieces.map labelText))) pieces us := utterancesFrom_eq_ok .nil hlabels
  rw [ofDiarized_eq hpieces hsome]
  constructor
  · intro h
    obtain ⟨given, hgiven, h⟩ := bind_eq_ok h
    obtain ⟨us, hus, h⟩ := bind_eq_ok h
    cases h
    exact ⟨given, hgiven, (hheard us).mp hus, rfl, rfl⟩
  · rintro ⟨given, hgiven, hus, htext, hduration⟩
    rw [hgiven, (hheard t.utterances).mpr hus]
    obtain ⟨text, duration, us⟩ := t
    rw [show text = _ from htext, show duration = _ from hduration]
    rfl

/-- **What is heard has the speakers of the labels**, by their ranks. -/
theorem speaker_of_heard {rank : String → Nat} {us : List (Utterance Float)} (h : List.Forall₂ (HeardAs rank) pieces us) :
    us.map Utterance.speaker = (pieces.map labelText).map fun l => .str (speakerName (rank l)) := by
  induction h with
  | nil => rfl
  | cons hv _ ih => rw [List.map_cons, ih, hv.speaker, List.map_cons, List.map_cons]

/-- **Each utterance has a label**, that of the piece in its place, and its speaker is named for the rank of it. -/
theorem label_of_heard {rank : String → Nat} {us : List (Utterance Float)} (h : List.Forall₂ (HeardAs rank) pieces us)
    {i : Nat} {u : Utterance Float} (hu : us[i]? = some u) :
    ∃ l, (pieces.map labelText)[i]? = some l ∧ l ∈ pieces.map labelText ∧ u.speaker = .str (speakerName (rank l)) := by
  have hi := congrArg (·[i]?) (speaker_of_heard h)
  rw [List.getElem?_map, hu, List.getElem?_map] at hi
  obtain ⟨l, hl, hspeaker⟩ := Option.map_eq_some_iff.mp hi.symm
  exact ⟨l, hl, List.mem_of_getElem? hl, hspeaker.symm⟩

/-- **A result is a transcript** exactly if it has a duration that can be read and its pieces say something. -/
theorem exists_ofDiarized_iff (hpieces : result.getD "segments" = .arr pieces) (hsome : pieces ≠ [])
    (hlabels : ∀ v ∈ pieces, Labelled v) : (∃ t, Transcript.ofDiarized result = .ok t) ↔
      (∃ given, optionalTime (result.getD "duration") = .ok given) ∧ ∀ v ∈ pieces, Spoken v := by
  rw [← exists_heard_iff (rankOf (pieces.map labelText))]
  constructor
  · rintro ⟨t, ht⟩
    obtain ⟨given, hgiven, hheard, -⟩ := (ofDiarized_eq_ok hpieces hsome hlabels).mp ht
    exact ⟨⟨given, hgiven⟩, _, hheard⟩
  · rintro ⟨⟨given, hgiven⟩, us, hheard⟩
    exact ⟨⟨_, if given == 0.0 then (us.getLast?.map Utterance.stop).getD 0.0 else given, us⟩,
      (ofDiarized_eq_ok hpieces hsome hlabels).mpr ⟨given, hgiven, hheard, rfl, rfl⟩⟩

/-- **Speakers are numbered in the order in which they first appear.**  A result with pieces whose labels are texts, or left
out, is a transcript exactly if its duration and the times of its pieces can be read and the words of the pieces are texts or
left out, as they are in every result whose times are floating numbers and whose words are texts.  It then has one utterance
for each piece, in the same order; the speaker of each is named for the rank of its label by first appearance, an empty label
or none counting as `unknown`.  So two utterances have the same speaker exactly if their labels are the same, and the numbers
go from one to the number of different labels.  The duration is the given one, or the end of the last utterance where that is
nought or left out. -/
theorem speakers_are_numbered (hpieces : result.getD "segments" = .arr pieces) (hsome : pieces ≠ [])
    (hlabels : ∀ v ∈ pieces, Labelled v) :
    let labels := pieces.map labelText
    ((∃ t, Transcript.ofDiarized result = .ok t) ↔
      (∃ given, optionalTime (result.getD "duration") = .ok given) ∧ ∀ v ∈ pieces, Spoken v) ∧
    (GivenTime (result.getD "duration") → (∀ v ∈ pieces, GivenPiece v) → ∃ t, Transcript.ofDiarized result = .ok t) ∧
    ∀ t, Transcript.ofDiarized result = .ok t →
      List.Forall₂ (HeardAs (rankOf labels)) pieces t.utterances ∧
      (∀ (i j : Nat) u w, t.utterances[i]? = some u → t.utterances[j]? = some w →
        (u.speaker = w.speaker ↔ labels[i]? = labels[j]?)) ∧
      (∀ k, (∃ u ∈ t.utterances, u.speaker = .str (speakerName k)) ↔ 1 ≤ k ∧ k ≤ labels.toFinset.card) ∧
      ∃ given last, optionalTime (result.getD "duration") = .ok given ∧ t.utterances.getLast? = some last ∧
        t.duration = (if given == 0.0 then last.stop else given) ∧
        (result.getD "duration" = .null → t.duration = last.stop) := by
  intro labels
  have hwhen := exists_ofDiarized_iff hpieces hsome hlabels
  refine ⟨hwhen, fun htime hgiven => hwhen.mpr ⟨htime.read, fun v hv => (hgiven v hv).spoken⟩, fun t ht => ?_⟩
  obtain ⟨given, hgiven, hheard, -, hduration⟩ := (ofDiarized_eq_ok hpieces hsome hlabels).mp ht
  refine ⟨hheard, fun i j u w hu hw => ?_, fun k => ?_, ?_⟩
  · obtain ⟨a, ha, hamem, hua⟩ := label_of_heard hheard hu
    obtain ⟨b, hb, hbmem, hwb⟩ := label_of_heard hheard hw
    rw [hua, hwb, ha, hb, Option.some.injEq, Json.str.injEq, ← rankOf_inj hamem hbmem]
    exact ⟨speakerName_inj, congrArg speakerName⟩
  · rw [← exists_rankOf_iff]
    constructor
    · rintro ⟨u, hu, hk⟩
      obtain ⟨i, hi⟩ := List.getElem?_of_mem hu
      obtain ⟨l, -, hmem, hspeaker⟩ := label_of_heard hheard hi
      exact ⟨l, hmem, speakerName_inj (Json.str.inj (hspeaker.symm.trans hk))⟩
    · rintro ⟨l, hl, rfl⟩
      have hmem : Json.str (speakerName (rankOf labels l)) ∈ t.utterances.map Utterance.speaker :=
        speaker_of_heard hheard ▸ List.mem_map_of_mem hl
      exact List.mem_map.mp hmem
  · have hne : t.utterances ≠ [] := fun hnil => by
      rw [hnil, List.forall₂_nil_right_iff] at hheard
      exact hsome hheard
    have hlast := List.getLast?_eq_some_getLast hne
    rw [hlast] at hduration
    refine ⟨given, _, hgiven, hlast, hduration, fun hnone => ?_⟩
    rw [hnone] at hgiven
    cases (show Except.ok (0.0 : Float) = .ok given from hgiven)
    exact hduration

/-- Four pieces, the last without a label, in a result without a duration. -/
theorem three_speakers_in_four_pieces :
    let piece (fields : List (String × Json)) (stop : Float) : Json :=
      .obj (fields ++ [("start", .float 1.5), ("end", .float stop), ("text", .str " Hi. ")])
    let pieces := [piece [("speaker", .str "B")] 2.0, piece [("speaker", .str "")] 3.0, piece [("speaker", .str "A")] 4.0,
      piece [] 9.0]
    let result : Json := .obj [("segments", .arr pieces)]
    (∀ v ∈ pieces, Labelled v) ∧ ∃ t, Transcript.ofDiarized result = .ok t ∧
      t.utterances.map Utterance.speaker =
        [.str "Speaker 1", .str "Speaker 2", .str "Speaker 3", .str "Speaker 2"] ∧ t.duration = 9.0 := by
  intro piece pieces result
  have hlabels : ∀ v ∈ pieces, Labelled v := by
    refine List.forall_mem_cons.mpr ⟨.inr ⟨_, rfl⟩, List.forall_mem_cons.mpr ⟨.inr ⟨_, rfl⟩, ?_⟩⟩
    exact List.forall_mem_cons.mpr ⟨.inr ⟨_, rfl⟩, List.forall_mem_singleton.mpr (.inl rfl)⟩
  have hgiven : ∀ v ∈ pieces, GivenPiece v := by
    simp only [pieces, List.forall_mem_cons, List.not_mem_nil, false_imp_iff, implies_true, and_true]
    exact ⟨⟨.inr ⟨_, rfl⟩, .inr ⟨_, rfl⟩, .inr ⟨_, rfl⟩⟩, ⟨.inr ⟨_, rfl⟩, .inr ⟨_, rfl⟩, .inr ⟨_, rfl⟩⟩,
      ⟨.inr ⟨_, rfl⟩, .inr ⟨_, rfl⟩, .inr ⟨_, rfl⟩⟩, ⟨.inr ⟨_, rfl⟩, .inr ⟨_, rfl⟩, .inr ⟨_, rfl⟩⟩⟩
  obtain ⟨-, hread, hall⟩ := @speakers_are_numbered result pieces rfl (List.cons_ne_nil _ _) hlabels
  obtain ⟨t, ht⟩ := hread (.inl rfl) hgiven
  obtain ⟨hheard, -, -, given, last, -, hlast, -, hduration⟩ := hall t ht
  have hranks : (pieces.map labelText).map (rankOf (pieces.map labelText)) = [1, 2, 3, 2] := by decide
  have hspeakers := speaker_of_heard hheard
  rw [← Function.comp_def (fun k => Json.str (speakerName k)), ← List.map_map, hranks] at hspeakers
  refine ⟨hlabels, t, ht, hspeakers, (hduration rfl).trans ?_⟩
  generalize rankOf _ = rank, t.utterances = us at hheard hlast
  change List.Forall₂ _ [_, _, _, _] _ at hheard
  rcases hheard with - | ⟨-, - | ⟨-, - | ⟨-, - | ⟨hv, - | -⟩⟩⟩⟩
  cases hlast
  exact (Except.ok.inj hv.stop).symm

end Switchboard
