import Switchboard.Input.Field
/-!
# What checks read

A check ends with a value or with every issue it found.  A document that is written and read again is asked for its
value only, so the laws here forget the issues: each way of putting checks together gives its value from the values of
its parts.  A field is its first name's value, or else its second name's, or else its default.
-/
namespace Switchboard.Input

variable {α β : Type}

namespace Checked

/-- The value that was read, where nothing is wrong with it. -/
def value? : Checked α → Option α
  | .ok a => some a
  | .bad _ => none

@[simp] theorem value?_ok (a : α) : (Checked.ok a).value? = some a := rfl

@[simp] theorem value?_bad (is : List Issue) : (Checked.bad is : Checked α).value? = none := rfl

@[simp] theorem value?_issue (d : Defect) (v : Json) : (Checked.issue d v : Checked α).value? = none := rfl

theorem value?_eq_some {x : Checked α} {a : α} : x.value? = some a ↔ x = .ok a := by
  cases x <;> simp [value?]

@[simp] theorem value?_map (f : α → β) (x : Checked α) : (f <$> x).value? = x.value?.map f := by
  cases x <;> rfl

@[simp] theorem value?_map' (f : α → β) (x : Checked α) : (x.map f).value? = x.value?.map f := by
  cases x <;> rfl

@[simp] theorem value?_seq (f : Checked (α → β)) (x : Checked α) :
    (f <*> x).value? = f.value?.bind fun g => x.value?.map g := by
  show (Checked.seq f fun _ => x).value? = _
  cases f <;> cases x <;> rfl

@[simp] theorem value?_under (p : Place) (x : Checked α) : (x.under p).value? = x.value? := by
  cases x <;> rfl

@[simp] theorem value?_andThen (x : Checked α) (f : α → Checked β) :
    (x.andThen f).value? = x.value?.bind fun a => (f a).value? := by
  cases x <;> rfl

end Checked

/-! ## Fields -/

/-- The value of a field under one of its names. -/
def Name.value? (n : Name) (fs : List (String × Json)) : Option Json :=
  (Json.lookup n.camel fs).or (Json.lookup n.spelled fs)

@[simp] theorem Name.value?_one (s : String) (fs : List (String × Json)) :
    (Name.one s).value? fs = Json.lookup s fs := by
  unfold Name.value? Name.one
  cases Json.lookup s fs <;> rfl

@[simp] theorem Name.value?_mk (camel spelled : String) (fs : List (String × Json)) :
    (Name.mk camel spelled).value? fs = (Json.lookup camel fs).or (Json.lookup spelled fs) := rfl

theorem Name.map_find? (n : Name) (fs : List (String × Json)) : (n.find? fs).map Prod.snd = n.value? fs := by
  unfold Name.find? Name.value?
  cases Json.lookup n.camel fs with
  | some v => rfl
  | none => cases Json.lookup n.spelled fs <;> rfl

@[simp] theorem value?_required (n : Name) (read : Json → Checked α) (fs : List (String × Json)) :
    (required n read fs).value? = (n.value? fs).bind fun v => (read v).value? := by
  rw [← n.map_find?]
  unfold required
  cases n.find? fs with
  | none => rfl
  | some p => exact Checked.value?_under _ _

@[simp] theorem value?_field (n : Name) (default : α) (read : Json → Checked α) (fs : List (String × Json)) :
    (field n default read fs).value? = (n.value? fs).elim (some default) fun v => (read v).value? := by
  rw [← n.map_find?]
  unfold field
  cases n.find? fs with
  | none => rfl
  | some p => exact Checked.value?_under _ _

theorem value?_object (model : String) (read : List (String × Json) → Checked α) (v : Json) :
    (object model read v).value? = v.obj?.bind fun fs => (read fs).value? := by
  cases v <;> rfl

@[simp] theorem value?_object_obj (model : String) (read : List (String × Json) → Checked α)
    (fs : List (String × Json)) : (object model read (.obj fs)).value? = (read fs).value? := rfl

/-! ## Single values -/

@[simp] theorem value?_asText (s : String) : (asText (.str s)).value? = some s := rfl

@[simp] theorem value?_asBool (b : Bool) : (asBool (.bool b)).value? = some b := rfl

@[simp] theorem value?_asInt (n : Int) : (asInt (.int n)).value? = some n := rfl

theorem value?_textWithin {least : Nat} {s : String} (h : least ≤ s.length) :
    (textWithin least none (.str s)).value? = some s := by
  simp [textWithin, Nat.not_lt.mpr h]

theorem value?_textShaped {shape : String} {fits : String → Bool} {s : String} (h : fits s = true) :
    (textShaped shape fits (.str s)).value? = some s := by
  simp [textShaped, h]

theorem value?_intWithin {least most n : Int} (h : least ≤ n ∧ n ≤ most) :
    (intWithin least (some most) (.int n)).value? = some n := by
  simp [intWithin, Int.not_lt.mpr h.1, Int.not_lt.mpr h.2]

theorem value?_asWord {values : List String} {read : String → Option α} {s : String} {a : α} (h : read s = some a) :
    (asWord values read (.str s)).value? = some a := by
  simp [asWord, h]

/-! ## What a reader can give -/

/-- Whatever a reader reads has a property. -/
def Gives (read : Json → Checked α) (P : α → Prop) : Prop := ∀ v a, (read v).value? = some a → P a

theorem Gives.mono {read : Json → Checked α} {P Q : α → Prop} (h : Gives read P) (hPQ : ∀ a, P a → Q a) :
    Gives read Q := fun v a ha => hPQ a (h v a ha)

theorem Gives.textWithin (least : Nat) (most : Option Nat) :
    Gives (textWithin least most) fun s => least ≤ s.length := by
  intro v s h
  simp only [Input.textWithin, Checked.value?_andThen, Option.bind_eq_some_iff] at h
  obtain ⟨t, -, h⟩ := h
  split at h
  · cases h
  · rename_i hlen
    split at h
    · split at h
      · cases h
      · cases h; omega
    · cases h; omega

theorem Gives.textShaped (shape : String) (fits : String → Bool) :
    Gives (textShaped shape fits) fun s => fits s = true := by
  intro v s h
  simp only [Input.textShaped, Checked.value?_andThen, Option.bind_eq_some_iff] at h
  obtain ⟨t, -, h⟩ := h
  split at h
  · cases h; assumption
  · cases h

theorem Gives.intWithin (least most : Int) :
    Gives (intWithin least (some most)) fun n => least ≤ n ∧ n ≤ most := by
  intro v n h
  simp only [Input.intWithin, Checked.value?_andThen, Option.bind_eq_some_iff] at h
  obtain ⟨m, -, h⟩ := h
  split at h
  · cases h
  · split at h
    · cases h
    · cases h; omega

theorem Gives.nullable {read : Json → Checked α} {P : α → Prop} (h : Gives read P) :
    Gives (nullable read) fun o => ∀ a ∈ o, P a := by
  intro v o ho a ha
  cases o with
  | none => cases ha
  | some b =>
    cases ha
    cases v <;> simp only [Input.nullable, Checked.value?_ok, Checked.value?_map', Option.some.injEq, reduceCtorEq,
      Option.map_eq_some_iff, exists_eq_right] at ho <;> exact h _ _ ho

/-- What a field holds is its default or was read. -/
theorem Gives.field {read : Json → Checked α} {P : α → Prop} (h : Gives read P) {n : Name} {default a : α}
    {fs : List (String × Json)} (hd : P default) (ha : (field n default read fs).value? = some a) : P a := by
  rw [value?_field] at ha
  cases hv : n.value? fs with
  | none => rw [hv] at ha; cases ha; exact hd
  | some v => rw [hv] at ha; exact h v _ ha

theorem Gives.required {read : Json → Checked α} {P : α → Prop} (h : Gives read P) {n : Name} {a : α}
    {fs : List (String × Json)} (ha : (required n read fs).value? = some a) : P a := by
  rw [value?_required, Option.bind_eq_some_iff] at ha
  obtain ⟨v, -, hv⟩ := ha
  exact h _ _ hv

theorem Gives.object {model : String} {read : List (String × Json) → Checked α} {P : α → Prop}
    (h : ∀ fs a, (read fs).value? = some a → P a) : Gives (object model read) P := by
  intro v a ha
  rw [value?_object, Option.bind_eq_some_iff] at ha
  obtain ⟨fs, -, hfs⟩ := ha
  exact h _ _ hfs

/-! ## Lists -/

theorem value?_itemsFrom_cons (read : Json → Checked α) (i : Nat) (v : Json) (rest : List Json) :
    (itemsFrom read i (v :: rest)).value? =
      (read v).value?.bind fun a => (itemsFrom read (i + 1) rest).value?.map (a :: ·) := by
  simp only [itemsFrom, Checked.value?_seq, Checked.value?_map, Checked.value?_under, Option.bind_map,
    Function.comp_def]

/-- **A list is read item by item.** -/
theorem value?_itemsFrom (read : Json → Checked α) (i : Nat) (vs : List Json) :
    (itemsFrom read i vs).value? = vs.mapM fun v => (read v).value? := by
  induction vs generalizing i with
  | nil => rfl
  | cons v rest ih =>
    rw [value?_itemsFrom_cons, ih, List.mapM_cons]
    cases (read v).value? with
    | none => rfl
    | some a => cases List.mapM (fun v => (read v).value?) rest <;> rfl

@[simp] theorem value?_asList_arr (read : Json → Checked α) (vs : List Json) :
    (asList read (.arr vs)).value? = vs.mapM fun v => (read v).value? := value?_itemsFrom read 0 vs

theorem value?_asList (read : Json → Checked α) (v : Json) :
    (asList read v).value? = v.arr?.bind fun vs => vs.mapM fun v => (read v).value? := by
  cases v <;> first | rfl | exact value?_itemsFrom _ _ _

theorem value?_asListOf (least : Nat) (read : Json → Checked α) (v : Json) :
    (asListOf least read v).value? = (asList read v).value?.bind fun xs => if xs.length < least then none else some xs := by
  rw [asListOf, Checked.value?_andThen]
  congr 1
  funext xs
  split <;> rfl

/-- Items that are each read back, perhaps changed, give the changed list. -/
theorem mapM_write_map {write : α → Json} {read : Json → Checked β} {change : α → β} {xs : List α}
    (h : ∀ x ∈ xs, (read (write x)).value? = some (change x)) :
    (xs.map write).mapM (fun v => (read v).value?) = some (xs.map change) := by
  induction xs with
  | nil => rfl
  | cons x rest ih =>
    rw [List.map_cons, List.mapM_cons, h x List.mem_cons_self, ih fun y hy => h y (List.mem_cons_of_mem _ hy)]
    rfl

theorem mapM_write {write : α → Json} {read : Json → Checked α} {xs : List α}
    (h : ∀ x ∈ xs, (read (write x)).value? = some x) : (xs.map write).mapM (fun v => (read v).value?) = some xs := by
  rw [mapM_write_map h, List.map_id']

/-- An item that is not read leaves the list unread. -/
theorem mapM_eq_none {f : Json → Option α} {vs : List Json} (h : ∃ v ∈ vs, f v = none) : vs.mapM f = none := by
  induction vs with
  | nil => obtain ⟨v, hv, -⟩ := h; cases hv
  | cons v rest ih =>
    rw [List.mapM_cons]
    cases hf : f v with
    | none => rfl
    | some a =>
      obtain ⟨w, hw, hnone⟩ := h
      rcases List.mem_cons.mp hw with rfl | hw
      · rw [hf] at hnone; cases hnone
      · rw [ih ⟨w, hw, hnone⟩]; rfl

theorem forall_of_mapM {f : Json → Option α} {P : α → Prop} (h : ∀ v a, f v = some a → P a) {vs : List Json}
    {xs : List α} (hx : vs.mapM f = some xs) : ∀ x ∈ xs, P x := by
  induction vs generalizing xs with
  | nil =>
    cases hx
    exact fun x hx => by cases hx
  | cons v rest ih =>
    rw [List.mapM_cons] at hx
    simp only [Option.bind_eq_bind, Option.bind_eq_some_iff, Option.pure_def, Option.some.injEq] at hx
    obtain ⟨a, ha, as, has, rfl⟩ := hx
    exact List.forall_mem_cons.mpr ⟨h v a ha, ih has⟩

theorem Gives.asList {read : Json → Checked α} {P : α → Prop} (h : Gives read P) :
    Gives (asList read) fun xs => ∀ x ∈ xs, P x := by
  intro v xs hx
  rw [value?_asList, Option.bind_eq_some_iff] at hx
  obtain ⟨vs, -, hvs⟩ := hx
  exact forall_of_mapM h hvs

theorem Gives.length_asListOf (least : Nat) (read : Json → Checked α) :
    Gives (asListOf least read) fun xs => least ≤ xs.length := by
  intro v xs hx
  rw [value?_asListOf, Option.bind_eq_some_iff] at hx
  obtain ⟨ys, -, hx⟩ := hx
  split at hx
  · cases hx
  · cases hx; omega

theorem Gives.asListOf {read : Json → Checked α} {P : α → Prop} (h : Gives read P) (least : Nat) :
    Gives (asListOf least read) fun xs => ∀ x ∈ xs, P x := by
  intro v xs hx
  rw [value?_asListOf, Option.bind_eq_some_iff] at hx
  obtain ⟨ys, hys, hx⟩ := hx
  split at hx
  · cases hx
  · cases hx; exact h.asList v _ hys

end Switchboard.Input
