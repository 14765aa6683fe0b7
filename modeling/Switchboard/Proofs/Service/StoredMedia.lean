import Mathlib.Data.List.DropRight
import Switchboard.Proofs.Text.Split
import Switchboard.Service.Speech
import Switchboard.Web.Serving
/-!
# Where media are stored

Whatever a file is called, and whatever folder it goes to, it is stored inside the media directory and served at the same
parts of the media address (`media_stays_inside`).  A part that was made safe is a name of its own: it is not empty, leads
neither to the directory itself nor out of it, and has no slash in it, so a path falls apart where its parts were joined.
-/
namespace Switchboard.Text

variable {p : Char → Bool}

theorem trimBoth_eq (cs : List Char) : trimBoth p cs = (cs.dropWhile p).rdropWhile p := rfl

/-- **What is left between the ends** has nothing at its ends to be dropped. -/
theorem trimBoth_trimBoth (cs : List Char) : trimBoth p (trimBoth p cs) = trimBoth p cs := by
  have hfront : ((cs.dropWhile p).rdropWhile p).dropWhile p = (cs.dropWhile p).rdropWhile p := by
    obtain ⟨behind, hbehind⟩ := List.rdropWhile_prefix p (cs.dropWhile p)
    have hhead := List.head?_dropWhile_not p cs
    rw [← hbehind] at hhead
    cases hrest : (cs.dropWhile p).rdropWhile p with
    | nil => rfl
    | cons c rest =>
      rw [hrest] at hhead
      exact List.dropWhile_cons_of_neg (by simpa using hhead)
  rw [trimBoth_eq (trimBoth p cs), trimBoth_eq, hfront, List.rdropWhile_idempotent]

/-- **A text is left as it is** exactly if there is nothing to drop at its ends. -/
theorem trimBoth_eq_self_iff {cs : List Char} : trimBoth p cs = cs ↔
    (∀ c, cs.head? = some c → p c = false) ∧ ∀ c, cs.getLast? = some c → p c = false := by
  have hfront : cs.dropWhile p = cs ↔ ∀ c, cs.head? = some c → p c = false := by
    rw [List.dropWhile_eq_self_iff]
    cases cs <;> simp
  have hback : cs.rdropWhile p = cs ↔ ∀ c, cs.getLast? = some c → p c = false := by
    rw [List.rdropWhile_eq_self_iff]
    cases hcs : cs.getLast? with
    | none => simp [List.getLast?_eq_none_iff.mp hcs]
    | some c =>
      obtain ⟨front, rfl⟩ := List.getLast?_eq_some_iff.mp hcs
      simp
  rw [trimBoth_eq, ← hfront, ← hback]
  constructor
  · intro h
    have hlength : cs.length ≤ (cs.dropWhile p).length := by
      conv_lhs => rw [← h]
      exact (List.rdropWhile_prefix p _).length_le
    have hdrop : cs.dropWhile p = cs := (List.dropWhile_suffix p).eq_of_length_le hlength
    rw [hdrop] at h
    exact ⟨hdrop, h⟩
  · rintro ⟨hdrop, h⟩
    rw [hdrop, h]

theorem mem_of_mem_trimBoth {c : Char} {cs : List Char} (h : c ∈ trimBoth p cs) : c ∈ cs :=
  (List.dropWhile_suffix p).subset ((List.rdropWhile_prefix p _).subset h)

/-- **A text falls apart where its parts were joined.** -/
theorem parts_intercalate {sep : Char} {ps : List String} (hps : ps ≠ []) (h : ∀ part ∈ ps, sep ∉ part.toList) :
    parts sep (String.intercalate (String.singleton sep) ps) = ps := by
  rw [parts, String.toList_intercalate, String.toList_singleton,
    splitOn_intercalate (mt List.map_eq_nil_iff.mp hps) (List.forall_mem_map.mpr h), List.map_map]
  exact (List.map_congr_left fun part _ => String.ofList_toList).trans (List.map_id ps)

end Switchboard.Text

namespace Switchboard.Media

/-- A name for a file or a directory in the directory that it is looked up in. -/
structure IsName (part : String) : Prop where
  given : part ≠ ""
  chars : ∀ c ∈ part.toList, isSafe c = true
  ne_here : part ≠ "."
  ne_parent : part ≠ ".."

/-- A part that is a name as it stands: of safe characters, with no point and no `_` at an end. -/
structure IsPlain (part : String) : Prop where
  given : part ≠ ""
  chars : ∀ c ∈ part.toList, isSafe c = true
  front : ∀ c, part.toList.head? = some c → isEdge c = false
  back : ∀ c, part.toList.getLast? = some c → isEdge c = false

/-! ## Parts that are made safe -/

/-- What is left of a part, before `_` is put where nothing is left. -/
def kept (cs : List Char) : List Char := Text.trimBoth isEdge (cs.map fun c => if isSafe c then c else '_')

theorem safeChars_eq (cs : List Char) : safeChars cs = if (kept cs).isEmpty then ['_'] else kept cs := rfl

theorem isSafe_of_mem_kept {cs : List Char} {c : Char} (h : c ∈ kept cs) : isSafe c = true := by
  obtain ⟨d, -, rfl⟩ := List.mem_map.mp (Text.mem_of_mem_trimBoth h)
  split
  · assumption
  · rfl

theorem kept_of_safe {cs : List Char} (h : ∀ c ∈ cs, isSafe c = true) : kept cs = Text.trimBoth isEdge cs := by
  have hmap : cs.map (fun c => if isSafe c then c else '_') = cs :=
    (List.map_congr_left fun c hc => if_pos (h c hc)).trans (List.map_id _)
  rw [kept, hmap]

/-- **What was kept is kept as it is.** -/
theorem kept_kept (cs : List Char) : kept (kept cs) = kept cs :=
  (kept_of_safe fun _ => isSafe_of_mem_kept).trans (Text.trimBoth_trimBoth _)

theorem kept_eq_self_iff {cs : List Char} : kept cs = cs ↔ (∀ c ∈ cs, isSafe c = true) ∧
    (∀ c, cs.head? = some c → isEdge c = false) ∧ ∀ c, cs.getLast? = some c → isEdge c = false := by
  rw [← Text.trimBoth_eq_self_iff]
  constructor
  · intro h
    have hsafe : ∀ c ∈ cs, isSafe c = true := fun c hc => isSafe_of_mem_kept (h.symm ▸ hc)
    exact ⟨hsafe, (kept_of_safe hsafe).symm.trans h⟩
  · rintro ⟨hsafe, htrim⟩
    exact (kept_of_safe hsafe).trans htrim

/-- **Making a part safe twice is making it safe once.** -/
theorem safeChars_safeChars (cs : List Char) : safeChars (safeChars cs) = safeChars cs := by
  rw [safeChars_eq cs]
  split
  · decide
  · rename_i hkept
    rw [safeChars_eq, kept_kept, if_neg hkept]

theorem toList_safe (part : String) : (safe part).toList = safeChars part.toList := String.toList_ofList

theorem safe_safe (part : String) : safe (safe part) = safe part := by
  rw [← String.toList_inj, toList_safe, toList_safe, safeChars_safeChars]

/-- **A part that is made safe stays as it is** exactly if it is plain, or the `_` that is put for nothing. -/
theorem safe_eq_self_iff (part : String) : safe part = part ↔ part = "_" ∨ IsPlain part := by
  have hplain : IsPlain part ↔ part ≠ "" ∧ kept part.toList = part.toList := by
    rw [kept_eq_self_iff]
    exact ⟨fun ⟨hgiven, hchars, hfront, hback⟩ => ⟨hgiven, hchars, hfront, hback⟩,
      fun ⟨hgiven, hchars, hfront, hback⟩ => ⟨hgiven, hchars, hfront, hback⟩⟩
  rw [hplain, ← String.toList_inj, toList_safe, safeChars_eq]
  by_cases hmark : part = "_"
  · rw [hmark]
    decide
  · rw [or_iff_right hmark]
    split
    · rename_i hkept
      refine iff_of_false (fun h => hmark (String.toList_inj.mp h.symm)) fun h => h.1 (String.toList_inj.mp ?_)
      rw [← h.2, List.isEmpty_iff.mp hkept]
      rfl
    · rename_i hkept
      refine ⟨fun h => ⟨?_, h⟩, And.right⟩
      rintro rfl
      exact hkept rfl

/-- **A part that was made safe is a name.** -/
theorem isName_safe (part : String) : IsName (safe part) := by
  -- A part of points alone would not be left as it is.
  have hpoints {mark : String} (h : safe mark ≠ mark) : safe part ≠ mark := fun he => h (he ▸ safe_safe part)
  refine ⟨fun he => ?_, fun c hc => ?_, hpoints (by decide), hpoints (by decide)⟩
  · have hnil : safeChars part.toList = [] := by rw [← toList_safe, he]; rfl
    rw [safeChars_eq] at hnil
    split at hnil
    · cases hnil
    · rename_i hkept
      exact hkept (List.isEmpty_iff.mpr hnil)
  · rw [toList_safe, safeChars_eq] at hc
    split at hc
    · rw [List.mem_singleton.mp hc]
      rfl
    · exact isSafe_of_mem_kept hc

theorem components_ne_nil (folder name : String) : components folder name ≠ [] :=
  List.append_ne_nil_of_right_ne_nil _ (List.cons_ne_nil _ _)

theorem isName_of_mem_components {folder name part : String} (h : part ∈ components folder name) : IsName part := by
  rcases List.mem_append.mp h with h | h
  · obtain ⟨q, -, rfl⟩ := List.mem_map.mp h
    exact isName_safe q
  · rw [List.mem_singleton.mp h]
    exact isName_safe name

theorem IsName.no_slash {part : String} (h : IsName part) : '/' ∉ part.toList := fun hc =>
  absurd (h.chars _ hc) (by decide)

/-! ## Paths -/

/-- A part of a path that leads on. -/
structure LeadsOn (part : String) : Prop where
  given : part ≠ ""
  ne_here : part ≠ "."
  no_slash : '/' ∉ part.toList

theorem IsName.leadsOn {part : String} (h : IsName part) : LeadsOn part := ⟨h.given, h.ne_here, h.no_slash⟩

theorem leadsOn_of_mem_names {path part : String} (h : part ∈ names path) : LeadsOn part := by
  obtain ⟨hmem, hon⟩ := List.mem_filter.mp h
  rw [Bool.and_eq_true, decide_eq_true_eq, decide_eq_true_eq] at hon
  obtain ⟨cs, hcs, rfl⟩ := List.mem_map.mp hmem
  refine ⟨hon.1, hon.2, ?_⟩
  rw [String.toList_ofList]
  exact Text.not_mem_of_mem_splitOn hcs

/-- **A path that was put together of parts** leads through these parts. -/
theorem names_intercalate {ps : List String} (hps : ps ≠ []) (h : ∀ part ∈ ps, LeadsOn part) :
    names (String.intercalate "/" ps) = ps := by
  have hparts : Text.parts '/' (String.intercalate "/" ps) = ps :=
    Text.parts_intercalate hps fun part hpart => (h part hpart).no_slash
  rw [names, hparts, List.filter_eq_self]
  intro part hpart
  rw [Bool.and_eq_true, decide_eq_true_eq, decide_eq_true_eq]
  exact ⟨(h part hpart).given, (h part hpart).ne_here⟩

/-- **Slashes in front of a path** lead nowhere. -/
theorem names_slash (path : String) : names ("/" ++ path) = names path := by
  have hparts : Text.parts '/' ("/" ++ path) = "" :: Text.parts '/' path := by
    rw [Text.parts, String.toList_append]
    rfl
  rw [names, hparts]
  exact List.filter_cons_of_neg (by decide)

theorem root_cases (path : String) : root path = "" ∨ root path = "/" ∨ root path = "//" := by
  unfold root
  split
  · exact .inl rfl
  · exact .inr (.inr rfl)
  · exact .inr (.inl rfl)

theorem names_root_append (directory path : String) : names (root directory ++ path) = names path := by
  rcases root_cases directory with h | h | h <;> rw [h]
  · rw [String.empty_append]
  · exact names_slash path
  · rw [show "//" ++ path = "/" ++ ("/" ++ path) by rw [← String.append_assoc]; rfl, names_slash, names_slash]

/-- **A path put together of parts begins with none of the slashes.** -/
theorem takeWhile_intercalate {ps : List String} (hps : ps ≠ []) (h : ∀ part ∈ ps, LeadsOn part) :
    (String.intercalate "/" ps).toList.takeWhile (· = '/') = [] := by
  have hparts : Text.parts '/' (String.intercalate "/" ps) = ps :=
    Text.parts_intercalate hps fun part hpart => (h part hpart).no_slash
  cases hcs : (String.intercalate "/" ps).toList with
  | nil => rfl
  | cons c cs =>
    refine List.takeWhile_cons_of_neg fun hc => ?_
    rw [decide_eq_true_eq] at hc
    -- A slash in front would leave an empty part before it.
    rw [Text.parts, hcs, hc, Text.splitOn, if_pos rfl] at hparts
    exact (h "" (hparts ▸ List.mem_cons_self)).given rfl

theorem root_root_append (directory : String) {path : String} (h : path.toList.takeWhile (· = '/') = []) :
    root (root directory ++ path) = root directory := by
  have htake {marks : List Char} (hmarks : ∀ c ∈ marks, c = '/') : (marks ++ path.toList).takeWhile (· = '/') = marks := by
    rw [List.takeWhile_append_of_pos fun c hc => decide_eq_true (hmarks c hc), h, List.append_nil]
  have hone : ∀ c ∈ ['/'], c = '/' := fun c => List.mem_singleton.mp
  have htwo : ∀ c ∈ ['/', '/'], c = '/' := List.forall_mem_cons.mpr ⟨rfl, hone⟩
  rcases root_cases directory with hroot | hroot | hroot <;> rw [hroot]
  · rw [String.empty_append, root, h]
    rfl
  · rw [root, String.toList_append, show "/".toList = ['/'] from rfl, htake hone]
    rfl
  · rw [root, String.toList_append, show "//".toList = ['/', '/'] from rfl, htake htwo]
    rfl

/-- **A file is stored below the directory**: its path is that of the directory, gone on with the parts. -/
theorem path_below (directory folder name : String) :
    root (path directory folder name) = root directory ∧
      names (path directory folder name) = names directory ++ components folder name := by
  have hps : names directory ++ components folder name ≠ [] :=
    List.append_ne_nil_of_right_ne_nil _ (components_ne_nil folder name)
  have hon : ∀ part ∈ names directory ++ components folder name, LeadsOn part := fun part hpart =>
    (List.mem_append.mp hpart).elim leadsOn_of_mem_names fun h => (isName_of_mem_components h).leadsOn
  exact ⟨root_root_append directory (takeWhile_intercalate hps hon),
    (names_root_append _ _).trans (names_intercalate hps hon)⟩

/-! ## Addresses -/

/-- **A file is served below the media address**, at its place in the directory. -/
theorem url_eq (base folder name : String) : url base folder name = base ++ "/" ++ place folder name :=
  String.intercalate_cons_of_ne_nil (components_ne_nil folder name)

/-- **A place leads through its parts.** -/
theorem parts_place (folder name : String) : Text.parts '/' (place folder name) = components folder name :=
  Text.parts_intercalate (components_ne_nil folder name) fun _ h => (isName_of_mem_components h).no_slash

theorem find?_putEntry {β : Type} (key : String) (v : β) : ∀ entries : List (String × β),
    (putEntry key v entries).find? (fun e => decide (e.1 = key)) = some (key, v)
  | [] => List.find?_cons_of_pos (decide_eq_true rfl)
  | (k, w) :: rest => by
    rw [putEntry]
    split
    · rename_i hk
      rw [hk]
      exact List.find?_cons_of_pos (decide_eq_true rfl)
    · rename_i hk
      rw [List.find?_cons_of_neg (by simpa using hk), find?_putEntry key v rest]

/-- **A file that is there is served.** -/
theorem run_media {parts : List String} {key content : String} {st : State}
    (h : st.media.find? (fun f => decide (f.1 = String.intercalate "/" parts)) = some (key, content)) :
    (Web.media parts).run st = (.ok ⟨200, .audio content⟩, st) := by
  rw [Web.media, Task.run, h]
  rfl

/-- **What was stored is served** at the parts of its address. -/
theorem served_where_stored (content folder name : String) (st : State) :
    ∃ st', (Work.storeMedia content folder name).run st = (.ok (url st.settings.mediaBaseUrl folder name), st') ∧
      Web.Route.find .get ("/media/" ++ place folder name) = .ok (.media (components folder name)) ∧
      (Web.media (components folder name)).run st' = (.ok ⟨200, .audio content⟩, st') := by
  refine ⟨_, rfl, ?_, ?_⟩
  · have hparts : Web.Route.partsOf ("/media/" ++ place folder name) = "media" :: components folder name := by
      rw [Web.Route.partsOf, Text.parts, String.toList_append]
      exact congrArg ("media" :: ·) (parts_place folder name)
    rw [Web.Route.find, hparts]
    cases hcomponents : components folder name with
    | nil => exact absurd hcomponents (components_ne_nil folder name)
    | cons first rest => rfl
  · exact run_media (find?_putEntry (place folder name) content st.media)

/-- **Media stay inside the media directory.**  Whatever the folder and the name are, the path of a file is that of the
directory, gone on with one part or more, and each of them is a name: it is not empty, made of letters, digits, `_`, `.`
and `-` alone, and leads neither to where it stands nor out of there.  The address of the file is the media address, gone
on with the same parts, and what is stored there is served there.  Making a part safe twice is making it safe once, and
what stays as it is are the plain parts, and `_`. -/
theorem media_stays_inside (directory base folder name : String) :
    (root (path directory folder name) = root directory ∧
      names (path directory folder name) = names directory ++ components folder name) ∧
    (components folder name ≠ [] ∧ ∀ part ∈ components folder name, IsName part) ∧
    url base folder name = base ++ "/" ++ String.intercalate "/" (components folder name) ∧
    (∀ content (st : State), ∃ st',
      (Work.storeMedia content folder name).run st = (.ok (url st.settings.mediaBaseUrl folder name), st') ∧
      Web.Route.find .get ("/media/" ++ String.intercalate "/" (components folder name)) =
        .ok (.media (components folder name)) ∧
      (Web.media (components folder name)).run st' = (.ok ⟨200, .audio content⟩, st')) ∧
    ∀ part, safe (safe part) = safe part ∧ (safe part = part ↔ part = "_" ∨ IsPlain part) :=
  ⟨path_below directory folder name, ⟨components_ne_nil folder name, fun _ => isName_of_mem_components⟩,
    url_eq base folder name, fun content st => served_where_stored content folder name st,
    fun part => ⟨safe_safe part, safe_eq_self_iff part⟩⟩

example : names (path "media" "tenants/../../x" "../../etc/passwd") = ["media", "tenants", "_", "_", "x", "etc_passwd"] := by
  decide

end Switchboard.Media
