import Switchboard.Proofs.Flow.RoundTrip
import Switchboard.Proofs.Store.Rows
/-!
# What is kept of an attempt comes back

The attempt record of a segment is stored as a text, and read back each time the segment is read.  What is read depends on
the record's own fields only, wherever they stand among others (`Json.Carries`), so a document with further fields, in it or
in its place to continue, reads as the same record (`Scratch.read_carrying`); and its text reads as the record itself
(`Scratch.document_toText`).  With the record, a segment that was changed and written comes back one revision on
(`attempt_record_survives_storage`).
-/
namespace Switchboard

open Text (Readable)

/-! ## Fields among others -/

namespace Json

/-- A document has some fields, possibly among others. -/
def Carries (fs gs : List (String × Json)) : Prop := ∀ f ∈ fs, lookup f.1 gs = some f.2

theorem Carries.cons_iff {name : String} {v : Json} {fs gs : List (String × Json)} :
    Carries ((name, v) :: fs) gs ↔ lookup name gs = some v ∧ Carries fs gs := List.forall_mem_cons

/-- **Fields of different names are carried by themselves.** -/
theorem carries_self : ∀ {fs : List (String × Json)}, (fs.map Prod.fst).Nodup → Carries fs fs
  | [], _ => fun _ h => nomatch h
  | (name, v) :: fs, h => by
    rw [List.map_cons, List.nodup_cons] at h
    refine Carries.cons_iff.2 ⟨if_pos rfl, fun f hf => ?_⟩
    have hne : name ≠ f.1 := fun he => h.1 (List.mem_map.2 ⟨f, hf, he.symm⟩)
    rw [lookup_cons, if_neg hne]
    exact carries_self h.2 f hf

end Json

open Json (Carries Plain)

/-! ## Targets -/

/-- A target of a kind that is told by its name: a kind that is known is not kept as an unknown one. -/
def DialTarget.Proper (t : DialTarget) : Prop := TargetKind.ofName t.kind.name = t.kind

instance (t : DialTarget) : Decidable t.Proper := inferInstanceAs (Decidable (_ = _))

/-- **A kind that is given by its name is proper**, whatever the name. -/
theorem DialTarget.proper_ofName (name address destination : String) (identity : Option Identity) :
    Proper ⟨.ofName name, address, destination, identity⟩ := by
  refine congrArg TargetKind.ofName ?_
  unfold TargetKind.ofName
  split
  · exact Eq.symm ‹_›
  · split
    · exact Eq.symm ‹_›
    · rfl

theorem DialTarget.readIdentity_toJson (o : Option Identity) :
    readIdentity ((o.map Identity.toJson).getD .null) = .ok o := by
  cases o <;> rfl

/-- **A target is read as it was written.** -/
theorem DialTarget.read_toJson {t : DialTarget} (h : t.Proper) : read t.toJson = .ok t := by
  have hread : read t.toJson = (readIdentity ((t.identity.map Identity.toJson).getD .null)).bind
      fun i => .ok ⟨.ofName t.kind.name, t.address, t.destination, i⟩ := rfl
  rw [hread, readIdentity_toJson]
  exact congrArg (fun k => Except.ok (DialTarget.mk k _ _ _)) h

theorem DialTarget.plain (t : DialTarget) : Plain t.toJson := by
  have hidentity : Plain ((t.identity.map Identity.toJson).getD .null) := by
    cases t.identity with
    | none => exact .null
    | some i =>
      exact (Flow.PlainFields.cons (.str _) (.cons (.str _) (.cons (.str _) .nil "tenant_user_id") "user_id")
        "tenant_id").obj (by decide)
  exact (Flow.PlainFields.cons (.str _) (.cons (.str _) (.cons (.str _) (.cons hidentity .nil "identity") "destination")
    "address") "kind").obj (by decide)

/-! ## Records that can be stored -/

namespace Scratch

/-- A record of the current version that can be stored: its numbers can be written, its targets are of proper kinds, and
its maps have a key once. -/
structure Storable (s : Scratch) : Prop where
  version : isOne s.schemaVersion = true
  seq : Readable s.attemptSeq
  timeout : Readable s.dialTimeout
  step : ∀ n, s.resume.stepIndex = some n → Readable n
  attempt : Readable s.resume.attemptIndex
  count : Readable s.resume.destinationCount
  targets : ∀ t ∈ s.targets, t.Proper
  legs : ∀ e ∈ s.legTargets, ∀ t, e.2 = some t → t.Proper
  legKeys : (s.legTargets.map Prod.fst).Nodup
  enteredKeys : (s.entered.map Prod.fst).Nodup

/-! ## Reading single values -/

theorem stored_of_lookup {α : Type} {key : String} {gs : List (String × Json)} {v : Json} (h : Json.lookup key gs = some v)
    (default : α) (read : Json → Reading α) : stored key default read gs = read v := by
  rw [stored, h]

@[simp] theorem readText?_ofStr? (o : Option String) : readText? (.ofStr? o) = .ok o := by cases o <;> rfl

@[simp] theorem readInt?_ofInt? (o : Option Int) : readInt? (.ofInt? o) = .ok o := by cases o <;> rfl

theorem mapM_ok {α β : Type} {write : α → β} {read : β → Reading α} : ∀ {xs : List α}, (∀ x ∈ xs, read (write x) = .ok x) →
    (xs.map write).mapM read = .ok xs
  | [], _ => rfl
  | x :: xs, h => by
    obtain ⟨hx, hxs⟩ := List.forall_mem_cons.1 h
    rw [List.map_cons, List.mapM_cons, hx, mapM_ok hxs]
    rfl

@[simp] theorem readList_texts (ss : List String) : readList readText (.arr (ss.map .str)) = .ok ss :=
  mapM_ok fun _ _ => rfl

theorem readTarget_toJson {t : DialTarget} (h : t.Proper) : readTarget t.toJson = .ok t := by
  rw [readTarget, DialTarget.read_toJson h]

theorem readList_targets {ts : List DialTarget} (h : ∀ t ∈ ts, t.Proper) :
    readList readTarget (.arr (ts.map DialTarget.toJson)) = .ok ts :=
  mapM_ok fun t ht => readTarget_toJson (h t ht)

theorem readLegTarget_legTargetJson {o : Option DialTarget} (h : ∀ t, o = some t → t.Proper) :
    readLegTarget (legTargetJson o) = .ok o := by
  cases o with
  | none => rfl
  | some t =>
    have htruthy : t.toJson.truthy = true := rfl
    rw [legTargetJson, readLegTarget, if_pos htruthy, readTarget_toJson (h t rfl)]
    rfl

theorem readMap_legTargets {es : List (String × Option DialTarget)} (h : ∀ e ∈ es, ∀ t, e.2 = some t → t.Proper) :
    readMap readLegTarget (.obj (es.map fun e => (e.1, legTargetJson e.2))) = .ok es := by
  refine mapM_ok fun e he => ?_
  dsimp only
  rw [readLegTarget_legTargetJson (h e he)]
  rfl

@[simp] theorem readMap_entered (es : List (String × String)) :
    readMap readText (.obj (es.map fun e => (e.1, .str e.2))) = .ok es :=
  mapM_ok fun _ _ => rfl

/-! ## Reading records -/

/-- **A place to continue is read from its own fields**, among whatever others. -/
theorem readResume_carrying {r : Resume} {rs : List (String × Json)} (h : Carries r.toJson.fields rs) :
    readResume (.obj rs) = .ok r := by
  simp only [Resume.toJson, Json.fields, Carries.cons_iff] at h
  obtain ⟨hflow, hline, hstep, hbranch, hattempt, htype, hcount, -⟩ := h
  have htruthy : (Json.obj rs).truthy = true := by
    cases rs with
    | nil => cases hflow
    | cons => rfl
  rw [readResume, if_neg (by rw [htruthy]; decide)]
  simp only [stored_of_lookup hflow, stored_of_lookup hline, stored_of_lookup hstep, stored_of_lookup hbranch,
    stored_of_lookup hattempt, stored_of_lookup htype, stored_of_lookup hcount, readText?_ofStr?, readInt?_ofInt?, readInt]
  rfl

/-- **A record is read from its own fields**, among whatever others, in it or in its place to continue. -/
theorem read_carrying {s : Scratch} (hs : s.Storable) {gs rs : List (String × Json)}
    (h : Carries (Json.setField "resume" (.obj rs) s.toFields) gs) (hresume : Carries s.resume.toJson.fields rs) :
    read (.obj gs) = .ok s := by
  have hfields : Json.setField "resume" (.obj rs) s.toFields =
      ("schema_version", s.schemaVersion) :: ("resume", .obj rs) :: s.toFields.drop 2 := rfl
  rw [hfields] at h
  simp only [toFields, List.drop, Carries.cons_iff] at h
  obtain ⟨hversion, hplace, hseq, htargets, hcaller, htimeout, hrecord, hdialed, hcomplete, hpending, hlegs, hended,
    hanswered, hfailed, hhandled, hagent, hentered, -⟩ := h
  have htruthy : (Json.obj gs).truthy = true := by
    cases gs with
    | nil => cases hversion
    | cons => rfl
  rw [read, if_neg (by rw [htruthy]; decide)]
  show ofFields gs = _
  rw [ofFields, hversion]
  dsimp only [Option.getD_some]
  rw [if_neg (by rw [hs.version]; decide)]
  simp only [stored_of_lookup hplace, stored_of_lookup hseq, stored_of_lookup htargets, stored_of_lookup hcaller,
    stored_of_lookup htimeout, stored_of_lookup hrecord, stored_of_lookup hdialed, stored_of_lookup hcomplete,
    stored_of_lookup hpending, stored_of_lookup hlegs, stored_of_lookup hended, stored_of_lookup hanswered,
    stored_of_lookup hfailed, stored_of_lookup hhandled, stored_of_lookup hagent, stored_of_lookup hentered,
    readResume_carrying hresume, readList_targets hs.targets, readMap_legTargets hs.legs, readText?_ofStr?, readList_texts,
    readMap_entered, readInt, readBool]
  rfl

theorem nodup_names (s : Scratch) : (s.toFields.map Prod.fst).Nodup := by
  simp only [toFields, List.map_cons, List.map_nil]
  decide

theorem read_toJson {s : Scratch} (hs : s.Storable) : read s.toJson = .ok s :=
  read_carrying hs (Json.carries_self s.nodup_names) (Json.carries_self (by
    simp only [Resume.toJson, Json.fields, List.map_cons, List.map_nil]
    decide))

/-! ## Records as texts -/

theorem plain_ofStr? (o : Option String) : Plain (.ofStr? o) := by
  cases o
  · exact .null
  · exact .str _

theorem plain_resume {s : Scratch} (hs : s.Storable) : Plain s.resume.toJson := by
  have hstep : Plain (.ofInt? s.resume.stepIndex) := by
    cases h : s.resume.stepIndex with
    | none => exact .null
    | some n => exact .int (hs.step n h)
  exact (Flow.PlainFields.cons (plain_ofStr? _) (.cons (plain_ofStr? _) (.cons hstep (.cons (plain_ofStr? _)
    (.cons (.int hs.attempt) (.cons (plain_ofStr? _) (.cons (.int hs.count) .nil "destination_count") "step_type")
    "attempt_index") "branch") "step_index") "line_id") "flow_id").obj (by decide)

theorem plain_version {v : Json} (h : isOne v = true) : Plain v := by
  cases v with
  | int n =>
    cases of_decide_eq_true h
    exact .int (by decide)
  | bool b => exact .bool b
  | float x => exact .float x
  | _ => cases h

theorem plain_map {β : Type} {write : β → Json} {es : List (String × β)} (h : ∀ e ∈ es, Plain (write e.2))
    (hkeys : (es.map Prod.fst).Nodup) : Plain (.obj (es.map fun e => (e.1, write e.2))) := by
  refine .obj (List.forall_mem_map.2 h) ?_
  rw [List.map_map]
  exact hkeys

theorem plain {s : Scratch} (hs : s.Storable) : Plain s.toJson := by
  have htargets : Plain (.arr (s.targets.map DialTarget.toJson)) :=
    .arr (List.forall_mem_map.2 fun t _ => t.plain)
  have hlegs : Plain (.obj (s.legTargets.map fun e => (e.1, legTargetJson e.2))) := by
    refine plain_map (fun e _ => ?_) hs.legKeys
    cases e.2 with
    | none => exact .obj (fun _ h => nomatch h) List.nodup_nil
    | some t => exact t.plain
  have hentered : Plain (.obj (s.entered.map fun e => (e.1, .str e.2))) :=
    plain_map (fun _ _ => .str _) hs.enteredKeys
  refine .obj ?_ s.nodup_names
  simp only [toFields, List.forall_mem_cons]
  exact ⟨plain_version hs.version, plain_resume hs, .int hs.seq, htargets, plain_ofStr? _, .int hs.timeout, .bool _,
    .bool _, .bool _, Flow.plain_texts _, hlegs, Flow.plain_texts _, plain_ofStr? _, .bool _, .bool _, .bool _, hentered,
    fun _ h => nomatch h⟩

theorem document_toText {s : Scratch} (hs : s.Storable) : document (.str s.toText) (.obj []) = .ok s.toJson := by
  rw [document, toText, Json.parse_toText (plain hs)]

end Scratch

/-! ## Segments that were written -/

/-- The row of a segment as it is kept, with its documents as texts. -/
def CallRow.kept (t : Segment) : CallRow :=
  ⟨{ t with tags := [], scratch := .fresh }, some (.str (Json.arr t.tags).toText, .str t.scratch.toText)⟩

/-- **A segment is read back from its row.** -/
theorem CallRow.read_kept {t : Segment} (htags : ∀ v ∈ t.tags, Plain v) (hs : t.scratch.Storable) :
    (kept t).read = .ok t := by
  have hdocument : Scratch.document (.str (Json.arr t.tags).toText) (.arr []) = .ok (.arr t.tags) := by
    rw [Scratch.document, Json.parse_toText (.arr htags)]
  unfold CallRow.read kept
  simp only [hdocument, Scratch.document_toText hs, Scratch.read_toJson hs, readTags, bind, Except.bind]
  rfl

namespace Work

variable {α : Type} {f : Segment → Segment × α} {sid : String} {tenant : Option String}

/-- What a change gives that was computed from a segment: the segment where nothing changes, and otherwise what a
conditional write makes of it, one revision on. -/
structure Gives (f : Segment → Segment × α) (c : Segment) (t : Segment) (a : α) : Prop where
  result : a = (f c).2
  segment : t = if (f c).1 = c then c else (c.overwriting (f c).1).revised (c.revision + 1)

/-- **A change that gives something** was computed from the segment at some revision, and the store holds what it gives. -/
theorem mutateWithin_gives (hf : ∀ t, (f t).1.id = t.id) {t : Segment} {a : α} {st' : State} :
    ∀ (tries : Nat) (st : State) (s : Segment), st.store.Holds s → Naming.root sid = s.rootSid →
      (mutateWithin sid s.number tenant f tries).run st = (.ok (some (t, a)), st') →
      ∃ k, Gives f (s.revised k) t a ∧ st'.store.Holds t
  | 0, st, s, h, hsid, hrun => nomatch hrun
  | tries + 1, st, s, h, hsid, hrun => by
    by_cases hup : st.isUp = true
    · cases htenant : tenant.any (fun t => t != s.tenantId) with
      | true =>
        rw [mutateWithin_opening f tenant h hsid hup, if_pos htenant] at hrun
        cases hrun
      | false =>
        by_cases hsame : (f s).1 = s
        · rw [mutateWithin_opening f tenant h hsid hup, if_neg (by rw [htenant]; decide), if_pos hsame] at hrun
          cases hrun
          exact ⟨t.revision, ⟨rfl, (if_pos hsame).symm⟩, h⟩
        · rcases mutateWithin_step h hsid hup htenant (hf s) hsame tries with
            ⟨db, k, c, hfail, -, -⟩ | ⟨db, hdone, hdb, -, -⟩ | ⟨db, c, hagain, hdb, -, -⟩
          · rw [hfail] at hrun
            cases hrun
          · rw [hdone] at hrun
            cases hrun
            exact ⟨s.revision, ⟨rfl, (if_neg hsame).symm⟩, hdb⟩
          · rw [hagain] at hrun
            exact mutateWithin_gives hf tries _ (s.revised (s.revision + 1)) hdb hsid hrun
    · have hread := run_segment? h hsid
      rw [if_neg hup] at hread
      rw [mutateWithin, Task.run_bind_error hread] at hrun
      cases hrun

/-- **A change that others leave a try for gives something**, if its durations fit their column. -/
theorem mutateWithin_ends (hf : ∀ t, (f t).1.id = t.id) : ∀ (tries : Nat) (st : State) (s : Segment),
    st.store.Holds s → Naming.root sid = s.rootSid → st.isUp = true →
    tenant.any (fun t => t != s.tenantId) = false → st.conflicts < tries →
    (∀ k, (f (s.revised k)).1.duration.all Store.fits = true) →
    ∃ t a st', (mutateWithin sid s.number tenant f tries).run st = (.ok (some (t, a)), st')
  | 0, _, _, _, _, _, _, hc, _ => absurd hc (Nat.not_lt_zero _)
  | tries + 1, st, s, h, hsid, hup, htenant, hc, hfits => by
    by_cases hsame : (f s).1 = s
    · rw [mutateWithin_opening f tenant h hsid hup, if_neg (by rw [htenant]; decide), if_pos hsame]
      exact ⟨_, _, _, rfl⟩
    · rcases mutateWithin_step h hsid hup htenant (hf s) hsame tries with
        ⟨db, k, c, -, -, hout⟩ | ⟨db, hdone, -, -, -⟩ | ⟨db, c, hagain, hdb, hless, -⟩
      · have := hfits s.revision
        rw [Segment.revised_revision, hout] at this
        cases this
      · exact ⟨_, _, _, hdone⟩
      · rw [hagain]
        exact mutateWithin_ends hf tries { st with store := db, conflicts := c } (s.revised (s.revision + 1)) hdb hsid hup
          htenant (by show c < tries; omega) hfits

end Work

/-- **A working copy comes back as it is exactly where it differs in what a conditional write stores only.** -/
theorem Segment.overwriting_eq_iff (c w : Segment) :
    (c.overwriting w).revised (c.revision + 1) = w.revised (w.revision + 1) ↔ c.overwriting w = w := by
  constructor
  · intro h
    have hrevision : c.revision + 1 = w.revision + 1 := congrArg Segment.revision h
    have hrevision : w.revision = c.revision := by omega
    rw [hrevision] at h
    exact Segment.revised_inj hrevision.symm h
  · intro h
    have hrevision : w.revision = c.revision := by rw [← h]; rfl
    rw [h, hrevision]

/-- **What is kept of an attempt survives its storage.**  A record of the current version is read back from its text; so is
a target from its value; and a document that has the fields of the record, and in its place to continue the fields of that
place, reads as the record whatever else stands in it.  So what a change of a segment gives is held by the store and is read
back from the row that keeps it.  It is the segment that the change was computed from, where nothing changed, and otherwise
what a conditional write makes of it, one revision on; which is the working copy, one revision on, exactly where the working
copy differs in nothing else.  And a change gives something where the store is to be reached, other writers leave a try over
and the durations fit their column. -/
theorem attempt_record_survives_storage :
    (∀ s : Scratch, s.Storable → (Scratch.document (.str s.toText) (.obj [])).bind Scratch.read = .ok s) ∧
    (∀ t : DialTarget, t.Proper → DialTarget.read t.toJson = .ok t) ∧
    (∀ s : Scratch, s.Storable → ∀ text gs rs, Json.parse text = .ok (.obj gs) →
      Carries (Json.setField "resume" (.obj rs) s.toFields) gs → Carries s.resume.toJson.fields rs →
      (Scratch.document (.str text) (.obj [])).bind Scratch.read = .ok s) ∧
    ∀ {α : Type} (f : Segment → Segment × α) (sid : String) (tenant : Option String) (st : State) (s : Segment),
      (∀ t, (f t).1.id = t.id) → st.store.Holds s → Naming.root sid = s.rootSid →
      (∀ t a st', (Work.mutate sid s.number tenant f).run st = (.ok (some (t, a)), st') →
        st'.store.Holds t ∧
        ((∀ v ∈ t.tags, Plain v) → t.scratch.Storable → (CallRow.kept t).read = .ok t) ∧
        ∃ k, let c := s.revised k
          let w := (f c).1
          a = (f c).2 ∧ (w = c ∧ t = c ∨
            w ≠ c ∧ t = (c.overwriting w).revised (c.revision + 1) ∧
              (t = w.revised (w.revision + 1) ↔ c.overwriting w = w))) ∧
      (st.isUp = true → tenant.any (fun t => t != s.tenantId) = false → st.conflicts < Work.mutateTries →
        (∀ k, (f (s.revised k)).1.duration.all Store.fits = true) →
        ∃ t a st', (Work.mutate sid s.number tenant f).run st = (.ok (some (t, a)), st')) := by
  refine ⟨fun s hs => ?_, fun t ht => t.read_toJson ht, fun s hs text gs rs hparse hfields hresume => ?_,
    fun f sid tenant st s hf h hsid => ⟨fun t a st' hrun => ?_, fun hup htenant hc hfits => ?_⟩⟩
  · rw [Scratch.document_toText hs]
    exact Scratch.read_toJson hs
  · rw [Scratch.document, hparse]
    exact Scratch.read_carrying hs hfields hresume
  · obtain ⟨k, hgives, hheld⟩ := Work.mutateWithin_gives hf Work.mutateTries st s h hsid hrun
    refine ⟨hheld, CallRow.read_kept, k, hgives.result, ?_⟩
    have hsegment := hgives.segment
    split at hsegment
    · exact .inl ⟨‹_›, hsegment⟩
    · exact .inr ⟨‹_›, hsegment, by rw [hsegment]; exact Segment.overwriting_eq_iff _ _⟩
  · exact Work.mutateWithin_ends hf Work.mutateTries st s h hsid hup htenant hc hfits

/-- An attempt with a target of quoted name, a leg without a target and an entered line break is read back from its text,
and a segment whose change starts it comes back as the working copy, one revision on, from the row that keeps it. -/
theorem started_attempt_comes_back :
    let target : DialTarget := ⟨.client, "tn:u-1", "the \"desk\" in Köln", some ⟨"tn", "u-1", "tu-1"⟩⟩
    let scratch : Scratch := { Scratch.fresh with
      attemptSeq := 1, targets := [target], pendingLegs := ["CAleg1"]
      legTargets := [("CAleg1", some target), ("CAleg2", none)], entered := [("note", "1\n2")] }
    let s := Segment.opened "tn" "CA1" "CA1" 0 "inbound" .inProgress
    let f (t : Segment) : Segment × Unit := ({ t with scratch }, ())
    (Scratch.document (.str scratch.toText) (.obj [])).bind Scratch.read = .ok scratch ∧
      ∃ t st', (Work.mutate "CA1" s.number none f).run (State.holding [s]) = (.ok (some (t, ())), st') ∧
        (∃ k, t = (f (s.revised k)).1.revised (k + 1)) ∧ (CallRow.kept t).read = .ok t := by
  intro target scratch s f
  have hs : scratch.Storable := {
    version := rfl
    seq := by decide
    timeout := by decide
    step := fun _ h => nomatch h
    attempt := by decide
    count := by decide
    targets := by decide
    legs := by decide
    legKeys := by decide
    enteredKeys := by decide }
  have h : (State.holding [s]).store.Holds s := Store.holds_holding (by decide) (by decide) (by decide +kernel)
  have hsid : Naming.root "CA1" = s.rootSid := by decide +kernel
  obtain ⟨htext, -, -, hmutate⟩ := attempt_record_survives_storage
  obtain ⟨hgives, hends⟩ := hmutate f "CA1" none _ s (fun _ => rfl) h hsid
  obtain ⟨t, a, st', hrun⟩ := hends rfl rfl (by decide) fun _ => rfl
  obtain ⟨-, hkept, k, -, ⟨hsame, -⟩ | ⟨-, ht, -⟩⟩ := hgives t a st' hrun
  · have hseq : (1 : Int) = 0 := congrArg (fun t => t.scratch.attemptSeq) hsame
    exact absurd hseq (by decide)
  · subst ht
    exact ⟨htext scratch hs, _, st', hrun, ⟨k, rfl⟩, hkept (fun _ h => nomatch h) hs⟩

/-- **A working copy that differs in another column does not come back**: a change that numbers the segment anew, and
counts an attempt, gives the segment under its old number. -/
theorem renumbering_is_not_written :
    let s := Segment.opened "tn" "CA1" "CA1" 0 "inbound" .inProgress
    let f (t : Segment) : Segment × String :=
      ({ t with number := 7, scratch := { t.scratch with attemptSeq := 1 } }, "done")
    ∃ t st', (Work.mutate "CA1" s.number none f).run (State.holding [s]) = (.ok (some (t, "done")), st') ∧
      t ≠ (f s).1.revised ((f s).1.revision + 1) := by
  intro s f
  have h : (State.holding [s]).store.Holds s := Store.holds_holding (by decide) (by decide) (by decide +kernel)
  have hsid : Naming.root "CA1" = s.rootSid := by decide +kernel
  have hends : ∃ t a st', (Work.mutate "CA1" s.number none f).run (State.holding [s]) = (.ok (some (t, a)), st') :=
    Work.mutateWithin_ends (fun _ => rfl) Work.mutateTries _ s h hsid rfl rfl (by decide) fun _ => rfl
  obtain ⟨t, a, st', hrun⟩ := hends
  obtain ⟨k, hgives, -⟩ := Work.mutateWithin_gives (fun _ => rfl) Work.mutateTries _ s h hsid hrun
  obtain rfl : a = "done" := hgives.result
  refine ⟨t, st', hrun, fun ht => ?_⟩
  have hnumber : t.number = 0 := by
    rw [hgives.segment]
    split <;> rfl
  rw [ht] at hnumber
  exact absurd hnumber (by decide)

end Switchboard
