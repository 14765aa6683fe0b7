import Switchboard.Proofs.Flow.Speech
import Switchboard.Proofs.Service.Run
import Switchboard.Service.Speech
/-!
# Which prompts speech is asked for

Attaching speech to a flow asks for every prompt that lacks speech, once and in walk order, and for no other prompt.  What
it makes of the flow depends on the answers alone: so the whole computation is the asking, and a function of the answers
behind it (`Asks`).  Each prompt that was asked for takes the address that its answer gives, if it gives one; the rest of
the flow stays as it is (`Heard`).  Since the prompts that still lack speech are then those that were answered with
nothing, attaching once more asks for those only (`attachAudio_asks`).
-/
namespace Switchboard.Flow

/-! ## Prompts and answers -/

/-- The prompts of a flow, in walk order. -/
def promptsOf (steps : Steps) : List Message := (flat steps).flatMap fun s => s.body.messages

/-- The prompts that lack speech. -/
def unspoken (ms : List Message) : List Message := ms.filter Message.needsSynthesis

/-- A prompt with the answer to its asking: an address, or nothing. -/
def Message.hear (m : Message) (answer : Option String) : Message :=
  match given answer with
  | some url => { m with generatedAudioUrl := some url }
  | none => m

/-- Prompts with the answers for those of them that lack speech, in order. -/
def answered : List Message → List (Option String) → List Message
  | [], _ => []
  | m :: ms, answers =>
    if m.needsSynthesis then m.hear answers.head?.join :: answered ms answers.tail else m :: answered ms answers

/-- The prompts that were answered with nothing. -/
def unanswered (asked : List Message) (answers : List (Option String)) : List Message :=
  ((asked.zip answers).filter fun p => (given p.2).isNone).map Prod.fst

/-- **A prompt that lacks speech has it afterwards** where the answer gives an address, and is as it was where not. -/
theorem needsSynthesis_hear {m : Message} (h : m.needsSynthesis = true) (answer : Option String) :
    (m.hear answer).needsSynthesis = (given answer).isNone := by
  unfold Message.hear
  cases hanswer : given answer with
  | none => exact h
  | some url =>
    have hurl : given (some url) = some url := hanswer ▸ given_given answer
    simp [Message.needsSynthesis, hurl]

theorem answered_of_spoken : ∀ {ms : List Message}, unspoken ms = [] → answered ms [] = ms
  | [], _ => rfl
  | m :: ms, h => by
    rw [unspoken, List.filter_cons] at h
    split at h
    · cases h
    · rename_i hm
      rw [answered, if_neg hm, answered_of_spoken h]

theorem answered_append {ns : List Message} {bs : List (Option String)} :
    ∀ {ms : List Message} {as : List (Option String)}, as.length = (unspoken ms).length →
      answered (ms ++ ns) (as ++ bs) = answered ms as ++ answered ns bs
  | [], as, h => by
    rw [List.length_eq_zero_iff.1 h]
    rfl
  | m :: ms, as, h => by
    rw [List.cons_append, answered, answered]
    rw [unspoken, List.filter_cons] at h
    split at h
    · rename_i hm
      obtain ⟨a, as, rfl⟩ := List.exists_cons_of_length_eq_add_one h
      rw [if_pos hm, if_pos hm, List.cons_append, List.cons_append, List.tail_cons, List.tail_cons, List.head?_cons,
        List.head?_cons, answered_append (Nat.succ.inj h)]
    · rename_i hm
      rw [if_neg hm, if_neg hm, answered_append h, List.cons_append]

/-- **The prompts that still lack speech** are those that were answered with nothing. -/
theorem unspoken_answered : ∀ {ms : List Message} {as : List (Option String)}, as.length = (unspoken ms).length →
    unspoken (answered ms as) = unanswered (unspoken ms) as
  | [], _, _ => rfl
  | m :: ms, as, h => by
    rw [answered]
    unfold unspoken at h ⊢
    rw [List.filter_cons] at h ⊢
    split at h
    · rename_i hm
      obtain ⟨a, as, rfl⟩ := List.exists_cons_of_length_eq_add_one h
      have ih := unspoken_answered (Nat.succ.inj h)
      unfold unspoken at ih
      rw [if_pos hm, if_pos hm, List.filter_cons, needsSynthesis_hear hm, List.head?_cons, Option.join_some,
        List.tail_cons, ih, unanswered, unanswered, List.zip_cons_cons, List.filter_cons]
      cases ha : given a with
      | none => simp [Message.hear, ha]
      | some url => simp
    · rename_i hm
      have ih := unspoken_answered h
      unfold unspoken at ih
      rw [if_neg hm, if_neg hm, List.filter_cons, if_neg hm, ih]

/-! ## Asking -/

section Asking

variable {m : Type → Type} [Monad m] {α β γ δ ζ η : Type}

/-- A computation that asks a synthesizer for prompts, once each and in order, and makes of the answers what `P` says. -/
def Asks (synthesize : Synthesizer m) (asked : List Message) (P : List (Option String) → α → Prop) (t : m α) :
    Prop :=
  ∃ result : List (Option String) → α,
    t = result <$> asked.mapM (fun p => synthesize (p.text.getD "") p.voice) ∧
    ∀ answers, answers.length = asked.length → P answers (result answers)

/-- What attaching makes of the answers: nothing changes but for the prompts, seen through `see`; these are answered; and
the number is that of the answers that gave an address. -/
structure Heard (see : α → β) (prompts : α → List Message) (before : α) (answers : List (Option String))
    (after : α × Nat) : Prop where
  same : see after.1 = see before
  prompts : prompts after.1 = answered (prompts before) answers
  count : after.2 = answers.countP fun a => (given a).isSome

/-- A computation that attaches speech to what was there before. -/
abbrev Hears (synthesize : Synthesizer m) (see : α → β) (prompts : α → List Message) (before : α)
    (t : m (α × Nat)) : Prop :=
  Asks synthesize (unspoken (prompts before)) (Heard see prompts before) t

variable [LawfulMonad m] {synthesize : Synthesizer m}

/-- What is done with a list of answers matters for lists of the right length only. -/
theorem mapM_bind_congr {ask : α → m β} {k k' : List β → m γ} : ∀ {ps : List α},
    (∀ as : List β, as.length = ps.length → k as = k' as) → ps.mapM ask >>= k = ps.mapM ask >>= k'
  | [], h => by
    rw [List.mapM_nil, pure_bind, pure_bind]
    exact h [] rfl
  | p :: ps, h => by
    simp only [List.mapM_cons, bind_assoc, pure_bind]
    congr 1
    funext a
    exact mapM_bind_congr fun as has => h (a :: as) (congrArg (· + 1) has)

theorem hears_pure {see : α → β} {prompts : α → List Message} {before : α} (h : unspoken (prompts before) = []) :
    Hears synthesize see prompts before (pure (before, 0)) := by
  refine ⟨fun _ => (before, 0), by rw [h, List.mapM_nil, map_pure], fun answers ha => ?_⟩
  rw [h] at ha
  rw [List.length_eq_zero_iff.1 ha]
  exact ⟨rfl, (answered_of_spoken h).symm, rfl⟩

/-- **One part that hears**, put together again. -/
theorem hears_part {t : m (α × Nat)} {see : α → β} {prompts : α → List Message} {before : α} (build : α → γ)
    {see' : γ → δ} {prompts' : γ → List Message}
    (hsee : ∀ a, see a = see before → see' (build a) = see' (build before))
    (hprompts : ∀ a, prompts' (build a) = prompts a) (h : Hears synthesize see prompts before t) :
    Hears synthesize see' prompts' (build before) (do let (a, n) ← t; return (build a, n)) := by
  obtain ⟨result, rfl, hresult⟩ := h
  refine ⟨fun answers => (build (result answers).1, (result answers).2), ?_, fun answers ha => ?_⟩
  · simp only [hprompts, map_eq_pure_bind, bind_assoc, pure_bind]
  · rw [hprompts] at ha
    have h := hresult answers ha
    exact ⟨hsee _ h.same, by rw [hprompts, hprompts, h.prompts], h.count⟩

/-- **Two parts that hear one after the other**, put together: the answers are those for the first and those for the
second. -/
theorem hears_both {t : m (α × Nat)} {u : m (γ × Nat)} {see : α → β} {prompts : α → List Message} {before : α}
    {see' : γ → δ} {prompts' : γ → List Message} {before' : γ} (build : α → γ → ζ) (see'' : ζ → η)
    (prompts'' : ζ → List Message)
    (hsee : ∀ a b, see a = see before → see' b = see' before' → see'' (build a b) = see'' (build before before'))
    (hprompts : ∀ a b, prompts'' (build a b) = prompts a ++ prompts' b) (h : Hears synthesize see prompts before t)
    (h' : Hears synthesize see' prompts' before' u) :
    Hears synthesize see'' prompts'' (build before before')
      (do let (a, n) ← t; let (b, k) ← u; return (build a b, n + k)) := by
  obtain ⟨result, rfl, hresult⟩ := h
  obtain ⟨result', rfl, hresult'⟩ := h'
  have hasked :
      unspoken (prompts'' (build before before')) = unspoken (prompts before) ++ unspoken (prompts' before') := by
    rw [hprompts, unspoken, List.filter_append]
    rfl
  let count := (unspoken (prompts before)).length
  refine ⟨fun answers => (build (result (answers.take count)).1 (result' (answers.drop count)).1,
    (result (answers.take count)).2 + (result' (answers.drop count)).2), ?_, fun answers ha => ?_⟩
  · rw [hasked, List.mapM_append]
    simp only [map_eq_pure_bind, bind_assoc, pure_bind]
    refine mapM_bind_congr fun as has => ?_
    congr 1
    funext bs
    rw [List.take_left' has, List.drop_left' has]
  · rw [hasked, List.length_append] at ha
    have hfirst : (answers.take count).length = count := List.length_take_of_le (by omega)
    have hsecond : (answers.drop count).length = (unspoken (prompts' before')).length := by
      rw [List.length_drop]
      omega
    have h := hresult _ hfirst
    have h' := hresult' _ hsecond
    refine ⟨hsee _ _ h.same h'.same, ?_, ?_⟩
    · rw [hprompts, hprompts, h.prompts, h'.prompts, ← answered_append hfirst, List.take_append_drop]
    · calc (result (answers.take count)).2 + (result' (answers.drop count)).2
          = (answers.take count ++ answers.drop count).countP fun a => (given a).isSome := by
            rw [List.countP_append, h.count, h'.count]
        _ = answers.countP fun a => (given a).isSome := by rw [List.take_append_drop]

/-! ## The prompts of a tree -/

/-- The prompts of a body and of the steps below it. -/
def Body.prompts (b : Body) : List Message := b.messages ++ b.children.flatMap fun c => promptsOf c.steps

theorem promptsOf_cons (s : Step) (rest : Steps) : promptsOf (s :: rest) = s.body.prompts ++ promptsOf rest := by
  rw [promptsOf, flat_cons, List.flatMap_cons, List.flatMap_append, List.flatMap_assoc, ← List.append_assoc]
  rfl

theorem flatMap_optionChildren {f : Steps → List α} : ∀ (os : List MenuOption) (i : Nat),
    ((optionChildren i os).flatMap fun c => f c.steps) = os.flatMap fun o => f o.steps
  | [], _ => rfl
  | o :: os, i => by rw [optionChildren, List.flatMap_cons, List.flatMap_cons, flatMap_optionChildren os]

theorem flatMap_branchChildren {f : Steps → List α} : ∀ (bs : List Branch) (i : Nat),
    ((branchChildren i bs).flatMap fun c => f c.steps) = bs.flatMap fun b => f b.steps
  | [], _ => rfl
  | b :: bs, i => by rw [branchChildren, List.flatMap_cons, List.flatMap_cons, flatMap_branchChildren bs]

theorem prompts_menu (p : MenuPrompt) (os : List MenuOption) (invalid : Steps) :
    (Body.menu p os invalid).prompts = ([p.message] ++ os.flatMap fun o => promptsOf o.steps) ++ promptsOf invalid := by
  rw [Body.prompts, Body.children, List.flatMap_append, flatMap_optionChildren, List.flatMap_singleton, List.append_assoc]
  rfl

theorem prompts_schedule (z : String) (bs : List Branch) (fallback : Steps) :
    (Body.schedule z bs fallback).prompts = (bs.flatMap fun b => promptsOf b.steps) ++ promptsOf fallback := by
  rw [Body.prompts, Body.children, List.flatMap_append, flatMap_branchChildren, List.flatMap_singleton]
  rfl

/-! ## Attaching -/

theorem hears_message (p : Message) : Hears synthesize Message.withoutSpeech (fun p => [p]) p (p.attach synthesize) := by
  unfold Message.attach
  split
  · rename_i hp
    have hasked : unspoken [p] = [p] := List.filter_cons_of_pos hp
    refine ⟨fun answers => (p.hear answers.head?.join, answers.countP fun a => (given a).isSome), ?_,
      fun answers ha => ?_⟩
    · rw [hasked, List.mapM_cons, List.mapM_nil]
      simp only [map_eq_pure_bind, bind_assoc, pure_bind]
      congr 1
      funext url
      cases hurl : given url <;> simp [Message.hear, hurl]
    · rw [hasked] at ha
      obtain ⟨a, rfl⟩ := List.length_eq_one_iff.1 ha
      refine ⟨?_, ?_, rfl⟩
      · show (p.hear a).withoutSpeech = p.withoutSpeech
        unfold Message.hear
        split <;> rfl
      · show [p.hear a] = answered [p] [a]
        rw [answered, if_pos hp]
        rfl
  · rename_i hp
    exact hears_pure (List.filter_cons_of_neg hp)

theorem hears_option : ∀ o : Option Message,
    Hears synthesize (Option.map Message.withoutSpeech) Option.toList o (attachOption synthesize o)
  | none => hears_pure rfl
  | some p => hears_part some (fun _ ha => congrArg some ha) (fun _ => rfl) (hears_message p)

theorem hears_options {os : List MenuOption}
    (h : ∀ o ∈ os, Hears synthesize withoutSpeech promptsOf o.steps (attachSteps synthesize o.steps)) :
    Hears synthesize (mapOptions Body.withoutSpeech) (List.flatMap fun o => promptsOf o.steps) os
      (attachOptions synthesize os) := by
  induction os with
  | nil => exact hears_pure rfl
  | cons o rest ih =>
    obtain ⟨digit, label, steps⟩ := o
    obtain ⟨ho, hrest⟩ := List.forall_mem_cons.1 h
    refine hears_both (fun steps rest => ⟨digit, label, steps⟩ :: rest) _ (List.flatMap fun o => promptsOf o.steps)
      (fun a b ha hb => ?_) (fun _ _ => List.flatMap_cons ..) ho (ih hrest)
    rw [mapOptions, mapOptions, hb]
    exact congrArg (fun l => MenuOption.mk digit label l :: _) ha

theorem hears_branches {bs : List Branch}
    (h : ∀ b ∈ bs, Hears synthesize withoutSpeech promptsOf b.steps (attachSteps synthesize b.steps)) :
    Hears synthesize (mapBranches Body.withoutSpeech) (List.flatMap fun b => promptsOf b.steps) bs
      (attachBranches synthesize bs) := by
  induction bs with
  | nil => exact hears_pure rfl
  | cons b rest ih =>
    obtain ⟨id, name, slots, steps⟩ := b
    obtain ⟨hb, hrest⟩ := List.forall_mem_cons.1 h
    refine hears_both (fun steps rest => ⟨id, name, slots, steps⟩ :: rest) _ (List.flatMap fun b => promptsOf b.steps)
      (fun a b ha hb => ?_) (fun _ _ => List.flatMap_cons ..) hb (ih hrest)
    rw [mapBranches, mapBranches, hb]
    exact congrArg (fun l => Branch.mk id name slots l :: _) ha

theorem hears_body {b : Body}
    (h : ∀ d ∈ b.children, Hears synthesize withoutSpeech promptsOf d.steps (attachSteps synthesize d.steps)) :
    Hears synthesize Body.silent Body.prompts b (b.attach synthesize) := by
  cases b with
  | greeting p => exact hears_part Body.greeting (fun _ ha => congrArg Body.greeting ha) (fun _ => rfl) (hears_message p)
  | menu p os invalid =>
    obtain ⟨hos, hinvalid⟩ := (forall_menu_children
      (fun l => Hears synthesize withoutSpeech promptsOf l (attachSteps synthesize l)) p os invalid).1 h
    let see (q : Message × List MenuOption) := (q.1.withoutSpeech, mapOptions Body.withoutSpeech q.2)
    let prompts (q : Message × List MenuOption) := [q.1] ++ q.2.flatMap fun o => promptsOf o.steps
    have hfront := hears_both Prod.mk see prompts (fun _ _ ha hb => Prod.ext ha hb) (fun _ _ => rfl)
      (hears_message p.message) (hears_options hos)
    have hall := hears_both (fun q invalid => .menu { p with message := q.1 } q.2 invalid) Body.silent Body.prompts
      (fun q l hq hl => ?_) (fun _ _ => prompts_menu ..) hfront
      hinvalid
    · rw [Body.attach]
      simpa only [bind_assoc, pure_bind] using hall
    · obtain ⟨hmessage, hoptions⟩ := Prod.mk.inj hq
      have hsteps : mapSteps Body.withoutSpeech l = mapSteps Body.withoutSpeech invalid := hl
      simp only [Body.silent, Body.mapNested, Body.withoutSpeech, hoptions, hsteps, hmessage]
  | schedule z bs fallback =>
    obtain ⟨hbs, hfallback⟩ := (forall_schedule_children
      (fun l => Hears synthesize withoutSpeech promptsOf l (attachSteps synthesize l)) z bs fallback).1 h
    refine hears_both (Body.schedule z) _ _ (fun a l ha hl => ?_) (fun _ _ => prompts_schedule ..)
      (hears_branches hbs) hfallback
    have hsteps : mapSteps Body.withoutSpeech l = mapSteps Body.withoutSpeech fallback := hl
    simp only [Body.silent, Body.mapNested, Body.withoutSpeech, ha, hsteps]
  | keypadEntry k =>
    let build (p : Message) : Body := .keypadEntry { k with message := p }
    exact hears_part build (fun _ ha => congrArg build ha) (fun _ => rfl) (hears_message k.message)
  | voicemail v =>
    let build (p : Option Message) : Body := .voicemail { v with greeting := p }
    exact hears_part build (fun _ ha => congrArg build ha) (fun _ => List.append_nil _) (hears_option v.greeting)
  | hangup p =>
    refine hears_part Body.hangup (fun _ ha => congrArg Body.hangup ha) (fun p => ?_) (hears_option p)
    cases p <;> rfl
  | dial | simulcall | roundRobin | tag | bare | unknown => exact hears_pure rfl

/-- **A flow hears the answers for its prompts**, each step its own before those of the steps below it. -/
theorem hears_steps (steps : Steps) : Hears synthesize withoutSpeech promptsOf steps (attachSteps synthesize steps) := by
  induction steps using Steps.tree_induction with
  | nil => exact hears_pure rfl
  | cons s rest ihs ihr =>
    obtain ⟨id, label, body⟩ := s
    have hstep : Hears synthesize (Step.mapBody Body.withoutSpeech) (fun s => s.body.prompts) ⟨id, label, body⟩
        (Step.attach synthesize ⟨id, label, body⟩) :=
      hears_part (Step.mk id label) (fun _ ha => congrArg (Step.mk id label) ha) (fun _ => rfl) (hears_body ihs)
    refine hears_both List.cons _ _ (fun a b ha hb => ?_) promptsOf_cons hstep ihr
    rw [withoutSpeech, mapSteps, ha]
    exact congrArg _ hb

end Asking

/-! ## A synthesizer that may fail -/

section Sparing

variable {σ ε : Type}

theorem run_sparing (synthesize : Synthesizer (Task σ ε)) (text : String) (voice : Voice) (st : σ) :
    ∃ answer st', (sparing synthesize text voice).run st = (.ok answer, st') := by
  unfold sparing
  rw [Task.run_recover]
  split
  · exact ⟨_, _, rfl⟩
  · exact ⟨none, _, rfl⟩

/-- **Prompts that are asked for are all answered**, with nothing where speech fails. -/
theorem run_mapM_sparing (synthesize : Synthesizer (Task σ ε)) : ∀ (asked : List Message) (st : σ),
    ∃ answers st', (asked.mapM fun p => sparing synthesize (p.text.getD "") p.voice).run st = (.ok answers, st')
  | [], st => ⟨[], st, rfl⟩
  | p :: rest, st => by
    obtain ⟨answer, st₁, hfirst⟩ := run_sparing synthesize (p.text.getD "") p.voice st
    obtain ⟨answers, st', hrest⟩ := run_mapM_sparing synthesize rest st₁
    refine ⟨answer :: answers, st', ?_⟩
    rw [List.mapM_cons, Task.run_bind_ok hfirst, Task.run_bind_ok hrest]
    rfl

/-- **Attaching speech is complete, minimal and repeatable**, whatever the synthesizer does and wherever it fails.  It asks
once for each prompt of the tree that is text without speech, in walk order, and for nothing else, and it ends well.  Of
the answers it makes a flow whose prompts are answered and that is else the one that was given, and the number of the
answers that gave an address.  Attaching to that flow asks for those prompts only that were answered with nothing. -/
theorem attachAudio_asks (synthesize : Synthesizer (Task σ ε)) (steps : Steps) :
    let ask (p : Message) := sparing synthesize (p.text.getD "") p.voice
    ∃ result : List (Option String) → Steps × Nat,
      attachAudio (sparing synthesize) steps = result <$> (unspoken (promptsOf steps)).mapM ask ∧
      (∀ st, ∃ p st', (attachAudio (sparing synthesize) steps).run st = (.ok p, st')) ∧
      ∀ answers, answers.length = (unspoken (promptsOf steps)).length →
        withoutSpeech (result answers).1 = withoutSpeech steps ∧
        promptsOf (result answers).1 = answered (promptsOf steps) answers ∧
        (result answers).2 = (answers.countP fun a => (given a).isSome) ∧
        ∃ again : List (Option String) → Steps × Nat,
          attachAudio (sparing synthesize) (result answers).1 =
            again <$> (unanswered (unspoken (promptsOf steps)) answers).mapM ask := by
  have hears (l : Steps) : Hears (sparing synthesize) withoutSpeech promptsOf l (attachAudio (sparing synthesize) l) :=
    hears_steps l
  obtain ⟨result, hasks, hresult⟩ := hears steps
  refine ⟨result, hasks, fun st => ?_, fun answers ha => ?_⟩
  · obtain ⟨answers, st', hrun⟩ := run_mapM_sparing synthesize (unspoken (promptsOf steps)) st
    exact ⟨result answers, st', by rw [hasks, map_eq_pure_bind, Task.run_bind_ok hrun]; rfl⟩
  · have heard := hresult answers ha
    obtain ⟨again, hagain, -⟩ := hears (result answers).1
    refine ⟨heard.same, heard.prompts, heard.count, again, ?_⟩
    rw [← unspoken_answered ha, ← heard.prompts]
    exact hagain

end Sparing

end Switchboard.Flow
