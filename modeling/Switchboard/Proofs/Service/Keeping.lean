import Switchboard.Proofs.Service.Bridging
import Switchboard.Proofs.Service.StoredFlows
/-!
# Recordings, transcripts and flows within a scope

What is kept of calls is written to rows that were seen, so it stays within a scope as soon as the call is one of the scope.
The flows and lines that a tenant of the scope makes, changes or deletes are the tenant's own; a flow is deleted only where
no line runs it, so no line of others is touched.
-/
namespace Switchboard

open Store (Change)

namespace Work

open Switchboard.Task (Tame)

/-! ## Work on the side -/

theorem tame_fetchRecording (address : String) : (fetchRecording address).Tame :=
  Tame.look fun _ => (tame_note rfl).bind fun _ => Tame.pure _

theorem tame_keepRecording (tenant name address : String) : (keepRecording tenant name address).Tame := by
  refine (tame_fetchRecording address).bind fun audio => ?_
  cases audio with
  | none => exact Tame.pure _
  | some audio => exact (tame_storeMedia _ _ _).bind fun _ => Tame.pure _

theorem tame_endWriting (succeeded : Bool) (rest : List (Option Json)) : (endWriting succeeded rest).Tame :=
  Tame.update fun _ => ⟨rfl, rfl, rfl, rfl, rfl⟩

theorem tame_writeDown (audio : String) : (writeDown audio).Tame := by
  refine Tame.look fun st => ?_
  cases st.studio.writings with
  | none => exact Tame.pure _
  | some script =>
    dsimp only
    obtain ⟨allowed, breaker⟩ := st.studio.writingBreaker.start writingLimits st.now
    refine Tame.bind (Tame.update fun _ => ⟨rfl, rfl, rfl, rfl, rfl⟩) fun _ => ?_
    cases allowed with
    | false => exact Tame.pure _
    | true =>
      refine Tame.bind (tame_note rfl) fun _ => ?_
      split
      all_goals exact (tame_endWriting _ _).bind fun _ => Tame.pure _

theorem tame_transcribe (audio : String) : (transcribe audio).Tame := by
  refine (tame_writeDown audio).bind fun result => ?_
  split <;> exact Tame.pure _

theorem tame_timed (raw : String) : (timed raw).Tame := by
  unfold timed
  split
  · exact Tame.pure _
  · exact Tame.fail _
  · exact Tame.pure _

theorem tame_prepareSteps (raw : Except Flow.ReadFault Flow.Steps) : (prepareSteps raw).Tame := by
  refine (Tame.ofExcept _).bind fun given => (Tame.ofExcept _).bind fun _ => Tame.bind ⟨fun st => ?_⟩ fun _ => Tame.pure _
  exact Task.Upholds.mono (fun _ _ _ => trivial)
    (Flow.upholds_attachAudio (fun text voice st => (tame_synthesizePrompt text voice).keeps st) given st)

theorem tame_flows (tenant : String) : (flows tenant).Tame :=
  (tame_query _).bind (Tame.mapM fun _ => ((tame_storedSteps _).bind fun _ => Tame.pure _).bind fun _ => Tame.pure _)

theorem tame_hasFlow (tenant id : String) : (hasFlow tenant id).Tame := (tame_flow? tenant id).bind fun _ => Tame.pure _

theorem tame_lineFlow? (line : String) : (lineFlow? line).Tame := by
  refine (tame_query _).bind fun found => ?_
  split
  · exact Tame.pure _
  · exact Tame.pure _
  · exact (tame_storedSteps _).bind fun _ => (Tame.ofExcept _).bind fun _ => Tame.pure _

end Work

namespace Scope.Keeps

variable {S : Scope} {st : State} {s : Segment} {α : Type}

/-! ## Transcripts -/

/-- Segments of a call of the scope that were seen. -/
def Seen (S : Scope) (ss : List Segment) (st : State) : Prop := ∀ s ∈ ss, S.Saw st s ∧ S.mine s.tenantId = true

theorem Seen.evolves {st st' : State} {ss : List Segment} (hev : S.Evolves st st') (h : Seen S ss st) : Seen S ss st' :=
  fun s hs => ⟨hev.saw (h s hs).1, (h s hs).2⟩

/-- **The rows of a call of the scope** are of the scope. -/
theorem ownChain {sid : String} (hroots : S.Roots st (Naming.root sid)) (tenant : Option String) :
    S.Keeps (Work.chain sid tenant) st fun ss st' => Seen S ss st' :=
  (chain sid tenant).mono fun _ _ _ hev h s hs =>
    ⟨(h s hs).1, ((h s hs).1.own_of_roots ((h s hs).2 ▸ hev.roots hroots)).mine⟩

theorem putTranscript (status text : String) (hsaw : S.Saw st s) (hmine : S.mine s.tenantId = true) :
    S.Keeps (Work.putTranscript status s text) st fun _ _ => True :=
  (updateCall hsaw hmine (.inl rfl)).discard

theorem setTranscriptStatus (status : String) (hsaw : S.Saw st s) (hmine : S.mine s.tenantId = true) :
    S.Keeps (Work.setTranscriptStatus status s) st fun _ _ => True :=
  (updateCall hsaw hmine (.inl rfl)).discard

theorem putParts (status : String) : ∀ (parts : List (Segment × Transcript Float)) {st : State},
    Seen S (parts.map Prod.fst) st → S.Keeps (Work.putParts status parts) st fun _ _ => True
  | [], _, _ => pure trivial
  | (s, part) :: rest, _, hseen =>
    (putTranscript status part.toText (hseen s List.mem_cons_self).1 (hseen s List.mem_cons_self).2).bind
      fun _ _ _ hev _ => putParts status rest (Seen.evolves hev fun t ht => hseen t (List.mem_cons_of_mem _ ht))

theorem forEach {ss : List Segment} {f : Segment → Work PUnit}
    (hf : ∀ s st, S.Saw st s → S.mine s.tenantId = true → S.Keeps (f s) st fun _ _ => True) (hseen : Seen S ss st) :
    S.Keeps (ss.forM f) st fun _ _ => True :=
  sound fun hs => forM (I := Seen S ss) (fun _ _ hev h => Seen.evolves hev h) ss
    (fun s hmem st' _ h => hf s st' (h s hmem).1 (h s hmem).2) hs hseen

theorem applyTranscript {sid : String} (raw status : String) (asOf : Option Time.Instant)
    (hroots : S.Roots st (Naming.root sid)) :
    S.Keeps (Work.applyTranscript sid raw status asOf) st fun _ _ => True := by
  refine (ownChain hroots none).bind fun ss st₁ _ _ hseen => ?_
  cases ss with
  | nil => exact pure trivial
  | cons first rest =>
    have hfirst := hseen first List.mem_cons_self
    refine (updateCall hfirst.1 hfirst.2 (.inl rfl)).discard.bind fun _ st₂ _ hev₂ _ => ?_
    have hseen := Seen.evolves hev₂ hseen
    have hfirst := hseen first List.mem_cons_self
    dsimp only
    split
    · exact (putTranscript status raw hfirst.1 hfirst.2).bind fun _ _ _ _ _ => pure trivial
    · refine (tame (Work.tame_timed raw)).bind fun t st₃ _ hev₃ _ => ?_
      have hseen := Seen.evolves hev₃ hseen
      cases t with
      | none =>
        exact (forEach (fun s _ hsaw hmine => putTranscript status raw hsaw hmine) hseen).bind fun _ _ _ _ _ => pure trivial
      | some t =>
        refine (tame Work.tame_now).bind fun now st₄ _ hev₄ _ => ?_
        have hseen := Seen.evolves hev₄ hseen
        split
        · exact (fail _).bind (P := fun _ _ => True) fun _ _ _ _ _ => pure trivial
        · refine (putParts status _ fun s hs => ?_).bind fun _ _ _ _ _ => pure trivial
          obtain ⟨p, hp, rfl⟩ := List.mem_map.mp hs
          exact hseen p.1 (List.of_mem_zip hp).1

theorem resegment {sid : String} (hroots : S.Roots st (Naming.root sid)) :
    S.Keeps (Work.resegment sid) st fun _ _ => True := by
  refine (tame (Work.tame_chain sid none)).bind fun ss st' _ hev _ => ?_
  split
  · exact pure trivial
  · exact applyTranscript _ _ _ (hev.roots hroots)

theorem resegmentEach : ∀ (sids : List String) {st : State}, (∀ sid ∈ sids, S.Roots st (Naming.root sid)) →
    S.Keeps (Work.resegmentEach sids) st fun _ _ => True
  | [], _, _ => pure trivial
  | sid :: rest, st, h => by
    have hrest {st' : State} (hev : S.Evolves st st') : ∀ sid ∈ rest, S.Roots st' (Naming.root sid) :=
      fun sid hsid => hev.roots (h sid (List.mem_cons_of_mem _ hsid))
    refine (tame (Work.tame_chain sid none)).bind fun ss st₁ _ hev₁ _ => ?_
    split
    · exact (resegmentEach rest (hrest hev₁)).bind fun _ _ _ _ _ => pure trivial
    · refine (resegment (hev₁.roots (h sid List.mem_cons_self))).attempt.bind fun r st₂ _ hev₂ _ => ?_
      have hmore := resegmentEach rest (hrest (hev₁.trans hev₂))
      cases r with
      | ok n => exact hmore.bind fun _ _ _ _ _ => pure trivial
      | error e => exact hmore.bind fun _ _ _ _ _ => pure trivial

theorem resegmentTenant {tenant : String} (hmine : S.mine tenant = true) :
    S.Keeps (Work.resegmentTenant tenant) st fun _ _ => True := by
  refine sound fun hs => bind (P := fun sids st' => ∀ sid ∈ sids, S.Roots st' (Naming.root sid))
    (query fun st' hev sid hsid => ?_) fun sids st' _ _ hroots => resegmentEach sids hroots
  obtain ⟨r, hr, rfl⟩ := List.mem_map.mp (List.mem_eraseDups.mp hsid)
  obtain ⟨hmem, hsame⟩ := List.mem_filter.mp hr
  exact hev.roots (hs.closed r hmem (S.mine_of_same hsame hmine)).2

/-! ## Recordings -/

theorem attachToSegment {sid : String} (number : Int) (r : Work.Recording) (hroots : S.Roots st (Naming.root sid)) :
    S.Keeps (Work.attachToSegment sid number r) st fun p st' => ∀ s, p.1 = some s →
      S.Saw st' s ∧ S.mine s.tenantId = true := by
  refine (segment? sid number none).bind fun a st₁ _ hev₁ ha => ?_
  cases a with
  | none => exact pure fun s hs => nomatch hs
  | some s =>
    obtain ⟨hsaw, hroot, -⟩ := ha s rfl
    have hmine := (hsaw.own_of_roots (hroot ▸ hev₁.roots hroots)).mine
    have hupdated {updated : Option Segment} {st' : State} (h : ∀ t, updated = some t → S.Saw st' t ∧ t.key = s.key) :
        ∀ t, updated = some t → S.Saw st' t ∧ S.mine t.tenantId = true := fun t ht => by
      refine ⟨(h t ht).1, ?_⟩
      rw [show t.tenantId = s.tenantId from congrArg Segment.Key.tenantId (h t ht).2]
      exact hmine
    refine (tame (Work.tame_keepRecording _ _ _)).bind fun kept st₂ _ hev₂ _ => ?_
    have hsaw := hev₂.saw hsaw
    cases kept with
    | none => exact (updateCall hsaw hmine (.inl rfl)).bind fun updated _ _ _ h => pure (hupdated h)
    | some kept => exact (updateCall hsaw hmine (.inl rfl)).bind fun updated _ _ _ h => pure (hupdated h)

theorem attachPart (r : Work.Recording) (url : Option String) (hsaw : S.Saw st s) (hmine : S.mine s.tenantId = true) :
    S.Keeps (Work.attachPart r url s) st fun _ _ => True := by
  refine (updateCall hsaw hmine (.inl ?_)).bind fun _ _ _ _ _ => pure trivial
  cases url with
  | none => rfl
  | some u => cases (Flow.given s.transcription).isSome <;> rfl

theorem attachToChain {sid : String} (r : Work.Recording) (hroots : S.Roots st (Naming.root sid)) :
    S.Keeps (Work.attachToChain sid r) st fun _ _ => True := by
  refine (ownChain hroots none).bind fun ss st₁ _ _ hseen => ?_
  cases ss with
  | nil => exact pure trivial
  | cons first rest =>
    refine (tame (Work.tame_keepRecording _ _ _)).bind fun kept st₂ hs₂ hev₂ _ => ?_
    refine (mapM (I := Seen S (first :: rest)) (fun _ _ hev h => Seen.evolves hev h) _ (fun s hmem st' _ h =>
      attachPart r _ (h s hmem).1 (h s hmem).2) hs₂ (Seen.evolves hev₂ hseen)).bind fun _ _ _ _ _ => pure trivial

theorem transcribeSegment (audio : String) (hsaw : S.Saw st s) (hmine : S.mine s.tenantId = true) :
    S.Keeps (Work.transcribeSegment s audio) st fun _ _ => True := by
  refine (setTranscriptStatus "processing" hsaw hmine).bind fun _ st₁ _ hev₁ _ => ?_
  refine (tame (Work.tame_transcribe audio)).bind fun t st₂ _ hev₂ _ => ?_
  have hsaw := (hev₁.trans hev₂).saw hsaw
  cases t with
  | none => exact setTranscriptStatus "failed" hsaw hmine
  | some t => exact putTranscript "completed" t.toText hsaw hmine

theorem transcribeChain {sid : String} (audio : String) (hroots : S.Roots st (Naming.root sid)) :
    S.Keeps (Work.transcribeChain sid audio) st fun _ _ => True := by
  refine (ownChain hroots none).bind fun ss st₁ _ hev₁ hseen => ?_
  refine (forEach (fun s _ hsaw hmine => setTranscriptStatus "processing" hsaw hmine) hseen).bind fun _ st₂ _ hev₂ _ => ?_
  refine (tame (Work.tame_transcribe audio)).bind fun t st₃ _ hev₃ _ => ?_
  have hev := hev₂.trans hev₃
  cases t with
  | none => exact forEach (fun s _ hsaw hmine => setTranscriptStatus "failed" hsaw hmine) (Seen.evolves hev hseen)
  | some t => exact (applyTranscript _ _ _ ((hev₁.trans hev).roots hroots)).discard

theorem storeTranscription {sid : String} (text : Option String) (status : String) (hroots : S.Roots st (Naming.root sid)) :
    S.Keeps (Work.storeTranscription sid text status) st fun _ _ => True := by
  refine (latest? sid none).bind fun a st' _ hev ha => ?_
  cases a with
  | none => exact pure trivial
  | some s =>
    obtain ⟨hsaw, hroot, -⟩ := ha s rfl
    exact (updateCall hsaw (hsaw.own_of_roots (hroot ▸ hev.roots hroots)).mine (.inl rfl)).done

/-! ## Flows -/

section Tenant

variable {tenant : String} (hmine : S.mine tenant = true)
include hmine

omit hmine in
/-- A statement that changes flows and lines of the scope only. -/
theorem tables {f : Store → Except StoreFault (α × Store)}
    (h : ∀ a db, f st.store = .ok (a, db) → db.calls = st.store.calls ∧ st.store.counted ≤ db.counted ∧
      (db.flows.filter fun f => !S.mine f.tenantId) = (st.store.flows.filter fun f => !S.mine f.tenantId) ∧
      (db.lines.filter fun l => !S.mine l.tenantId) = st.store.lines.filter fun l => !S.mine l.tenantId) :
    S.Keeps (Work.statement f) st fun _ _ => True := by
  refine statement fun a db hok => ⟨?_, fun _ _ _ => trivial⟩
  obtain ⟨hcalls, hcounted, hflows, hlines⟩ := h a db hok
  exact Step.of_calls hcalls hcounted hflows hlines ⟨[], (List.append_nil _).symm, fun _ h => nomatch h⟩

theorem insertFlow {f : FlowRow} (hf : f.tenantId = tenant) {db : Store} :
    (db.insertFlow f).2.calls = db.calls ∧ db.counted ≤ (db.insertFlow f).2.counted ∧
      ((db.insertFlow f).2.flows.filter fun f => !S.mine f.tenantId) = (db.flows.filter fun f => !S.mine f.tenantId) ∧
      ((db.insertFlow f).2.lines.filter fun l => !S.mine l.tenantId) = db.lines.filter fun l => !S.mine l.tenantId := by
  refine ⟨rfl, Nat.le_succ _, ?_, rfl⟩
  show List.filter _ (db.flows ++ [_]) = _
  rw [List.filter_append, List.filter_cons_of_neg (by simp [hf, hmine]), List.filter_nil, List.append_nil]

theorem createFlow (d : FlowDraft) : S.Keeps (Work.createFlow tenant d) st fun _ _ => True := by
  refine (tame (Work.tame_prepareSteps _)).bind fun steps st₁ _ _ _ => ?_
  refine (tame Work.tame_now).bind fun now st₂ _ _ _ => ?_
  split
  · exact fail _
  · refine (tables fun row db hok => ?_).bind fun row _ _ _ _ => tame (Work.tame_showFlow row)
    split at hok
    · cases hok
      exact insertFlow hmine rfl
    · cases hok

theorem updateFlow (id : String) (d : FlowDraft) : S.Keeps (Work.updateFlow tenant id d) st fun _ _ => True := by
  have hwrite (existing : Json) (steps : Option Json) (st : State) :
      S.Keeps (if (⟨d.name, d.description, d.isActive, d.records, steps⟩ : Store.FlowChange).isEmpty then
          Pure.pure (some existing)
        else do
          let now ← Work.now
          Work.showFlow? (← Work.statement
            (Store.changeFlow tenant id ⟨d.name, d.description, d.isActive, d.records, steps⟩ now)) :
        Work (Option Json)) st fun _ _ => True := by
    split
    · exact pure trivial
    · refine (tame Work.tame_now).bind fun now st _ _ _ => ?_
      refine (tables fun row db hok => ?_).bind fun row _ _ _ _ => tame (Work.tame_showFlow? row)
      unfold Store.changeFlow at hok
      split at hok
      · cases hok
        exact ⟨rfl, le_refl _, rfl, rfl⟩
      · split at hok
        · cases hok
        · cases hok
          refine ⟨rfl, le_refl _, filter_map_of_kept (fun g _ => ?_) (fun g _ hother => ?_), rfl⟩
          · split <;> rfl
          · refine if_neg fun hg => ?_
            rw [Bool.and_eq_true] at hg
            rw [S.mine_of_same hg.2 hmine] at hother
            cases hother
  refine (tame (Work.tame_flow? tenant id)).bind fun existing st₁ _ _ _ => ?_
  cases existing with
  | none => exact pure trivial
  | some existing =>
    dsimp only
    split
    · exact hwrite existing none st₁
    · exact (tame (Work.tame_prepareSteps _)).bind fun steps st₂ _ _ _ => hwrite existing _ st₂

/-- **A flow is deleted** only where no line runs it. -/
theorem deleteFlow (id : String) : S.Keeps (Work.deleteFlow tenant id) st fun _ _ => True := by
  refine (tame (Work.tame_hasFlow tenant id)).bind fun known st₁ _ _ _ => ?_
  split
  · exact fail _
  · refine bind (P := fun lines st' => lines = 0 → ∀ l ∈ st'.store.lines.filter (fun l => !S.mine l.tenantId),
      Store.LineRow.runs id l = false) (query fun st' hev hnone l hl => ?_) fun lines st₂ _ _ hlines => ?_
    · rw [hev.lines] at hl
      exact Bool.eq_false_iff.mpr ((List.countP_eq_zero.mp hnone) l (List.mem_of_mem_filter hl))
    · split
      · exact fail _
      · rename_i hnone
        rw [Decidable.not_not] at hnone
        refine tables fun _ db hok => ?_
        cases hok
        unfold Store.deleteFlow
        split
        · exact ⟨rfl, le_refl _, rfl, rfl⟩
        · refine ⟨rfl, le_refl _, ?_, filter_map_of_kept (fun l _ => ?_) fun l hl hother => if_neg ?_⟩
          · rw [List.filter_filter]
            refine List.filter_congr fun g _ => ?_
            by_cases hg : Store.sameId g.tenantId tenant = true
            · rw [S.mine_of_same hg hmine]
              rfl
            · rw [Bool.eq_false_iff.mpr hg, Bool.and_false]
              exact Bool.and_true _
          · split <;> rfl
          · rw [hlines hnone l (List.mem_filter.mpr ⟨hl, hother⟩)]
            exact Bool.false_ne_true

theorem duplicateFlow (id : String) : S.Keeps (Work.duplicateFlow tenant id) st fun _ _ => True := by
  refine (tame (Work.tame_query _)).bind fun row st₁ _ _ _ => ?_
  cases row with
  | none => exact fail _
  | some f =>
    refine (tame (Work.tame_storedSteps f)).bind fun steps st₂ _ _ _ => ?_
    refine (tame Work.tame_now).bind fun now st₃ _ _ _ => ?_
    refine (tables fun row db hok => ?_).bind fun row _ _ _ _ => tame (Work.tame_showFlow row)
    cases hok
    exact insertFlow hmine rfl

theorem assignFlow (line : String) (flow : Option String) :
    S.Keeps (Work.assignFlow tenant line flow) st fun _ _ => True := by
  have hwrite (st : State) : S.Keeps (Work.statement (Store.assignFlow tenant line flow)) st fun _ _ => True := by
    refine tables fun row db hok => ?_
    unfold Store.assignFlow at hok
    split at hok
    · cases hok
      exact ⟨rfl, le_refl _, rfl, rfl⟩
    · split at hok
      · cases hok
        refine ⟨rfl, le_refl _, rfl, filter_map_of_kept (fun m _ => ?_) (fun m _ hother => ?_)⟩
        · split <;> rfl
        · refine if_neg fun hm => ?_
          rw [Bool.and_eq_true] at hm
          rw [S.mine_of_same hm.2 hmine] at hother
          cases hother
      · cases hok
  unfold Work.assignFlow
  extract_lets rest
  have hrest (known : Bool) (st : State) : S.Keeps (rest known) st fun _ _ => True := by
    dsimp only [rest]
    split
    · exact fail _
    · refine (hwrite st).bind fun row _ _ _ _ => ?_
      cases row with
      | none => exact fail _
      | some l => exact pure trivial
  split
  · exact hrest true st
  · exact (tame (Work.tame_hasFlow tenant _)).bind fun known st' _ _ _ => hrest known st'

end Tenant

end Scope.Keeps

end Switchboard
