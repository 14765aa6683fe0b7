import Switchboard.Proofs.Call.Destinations
import Switchboard.Proofs.Service.Run
import Switchboard.Service.Directory
/-!
# The form of numbers

A number is brought into the international form by its digits alone.  Ten digits always come out in that form, for they
get a country code.  Eleven and more are taken as they are: they come out in the form unless there are more than fifteen
of them or the first of them is none from 1 to 9 (`normalized_out_of_form_iff`).  What a phone destination is dialed as is
what its digits come out as.  All spellings of a number come out the same, and what comes out is a spelling of it
(`spellings_of_one_number`).
-/
namespace Switchboard.Phone

/-- The international form: a plus sign, a digit that is not zero, at most fifteen digits. -/
def InForm (n : String) : Prop :=
  ∃ c rest, n.toList = '+' :: c :: rest ∧ ('1' ≤ c ∧ c ≤ '9') ∧ (1 ≤ rest.length ∧ rest.length ≤ 14) ∧
    ∀ d ∈ rest, Text.isDigit d = true

/-- Digits that are a number with its country code: no more than fifteen, none of the country codes beginning with zero. -/
def WithCountry (ds : List Char) : Prop := ds.length ≤ 15 ∧ ds.head?.any fun c => decide ('1' ≤ c ∧ c ≤ '9')

instance (ds : List Char) : Decidable (WithCountry ds) := inferInstanceAs (Decidable (_ ∧ _))

theorem not_newline_of_isDigit {c : Char} (h : Text.isDigit c = true) : c ≠ '\n' := by
  rintro rfl
  exact absurd h (by decide)

/-- **Texts that end with a digit** are in the international form exactly if they are taken to be. -/
theorem isInternational_iff {c : Char} {rest : List Char} (hrest : ∀ d ∈ rest, Text.isDigit d = true) :
    isInternational (String.ofList ('+' :: c :: rest)) = true ↔
      ('1' ≤ c ∧ c ≤ '9') ∧ (1 ≤ rest.length ∧ rest.length ≤ 14) := by
  have hend : rest.getLast? ≠ some '\n' := fun h =>
    not_newline_of_isDigit (hrest _ (List.mem_of_getLast? h)) rfl
  simp only [isInternational, String.toList_ofList, if_neg hend, Bool.and_eq_true, decide_eq_true_eq, List.all_eq_true]
  exact ⟨fun ⟨⟨⟨hc, hleast⟩, hmost⟩, _⟩ => ⟨hc, hleast, hmost⟩, fun ⟨hc, hleast, hmost⟩ => ⟨⟨⟨hc, hleast⟩, hmost⟩, hrest⟩⟩

/-- **Neither a plus sign in front of the digits nor which is the first of eleven** makes a difference. -/
theorem ofDigits?_eq (plus : Bool) (ds : List Char) : ofDigits? plus ds =
    if ds.length = 10 then some (String.ofList ('+' :: '1' :: ds))
    else if 11 ≤ ds.length then some (String.ofList ('+' :: ds)) else none := by
  unfold ofDigits?
  dsimp only
  by_cases hmany : 11 ≤ ds.length
  · have hsome : ds ≠ [] := by
      rintro rfl
      cases hmany
    simp only [if_neg hsome, if_pos hmany, ite_self]
  · have heleven : ¬ (ds.length = 11 ∧ ds.head? = some '1') := fun h => hmany h.1.ge
    have hmore : ¬ (11 < ds.length ∧ plus = true) := fun h => hmany h.1.le
    rw [if_neg hmany, if_neg heleven, if_neg hmore]
    split
    · rename_i hnone
      rw [hnone]
      rfl
    · rfl

/-- **What comes of the digits of a number.** -/
theorem ofDigits?_eq_some {plus : Bool} {ds : List Char} {n : String} : ofDigits? plus ds = some n ↔
    ds.length = 10 ∧ n = String.ofList ('+' :: '1' :: ds) ∨ 11 ≤ ds.length ∧ n = String.ofList ('+' :: ds) := by
  rw [ofDigits?_eq]
  split
  · rename_i hten
    rw [Option.some.injEq]
    exact ⟨fun h => .inl ⟨hten, h.symm⟩, fun h => h.elim (fun h => h.2.symm) fun h => absurd h.1 (by omega)⟩
  · rename_i hten
    split
    · rename_i hmany
      rw [Option.some.injEq]
      exact ⟨fun h => .inr ⟨hmany, h.symm⟩, fun h => h.elim (fun h => absurd h.1 hten) fun h => h.2.symm⟩
    · rename_i hfew
      exact iff_of_false (fun h => nomatch h) fun h => h.elim (fun h => hten h.1) fun h => hfew h.1

/-- **Only the digits of a number count**, in the order in which they stand. -/
theorem normalize?_congr {p q : String} (h : Text.digits q = Text.digits p) :
    normalize? (some q) = normalize? (some p) := by
  simp only [normalize?, ofDigits?_eq, h]

/-- **A number comes out** of ten digits and more. -/
theorem comes_out_iff (p : String) : (∃ n, normalize? (some p) = some n) ↔ 10 ≤ (Text.digits p).length := by
  constructor
  · rintro ⟨n, hn⟩
    rcases ofDigits?_eq_some.mp hn with ⟨hten, -⟩ | ⟨hmany, -⟩ <;> omega
  · intro h
    by_cases hten : (Text.digits p).length = 10
    · exact ⟨_, ofDigits?_eq_some.mpr (.inl ⟨hten, rfl⟩)⟩
    · exact ⟨_, ofDigits?_eq_some.mpr (.inr ⟨by omega, rfl⟩)⟩

/-- **Ten digits come out in the form, and more of them if they are a number with its country code.** -/
theorem isInternational_normalized {p n : String} (h : normalize? (some p) = some n) :
    isInternational n = true ↔ (Text.digits p).length = 10 ∨ WithCountry (Text.digits p) := by
  have hall : ∀ c ∈ Text.digits p, Text.isDigit c = true := fun c => Text.isDigit_of_mem_digits
  rcases ofDigits?_eq_some.mp h with ⟨hten, rfl⟩ | ⟨hmany, rfl⟩
  · rw [isInternational_iff hall]
    exact iff_of_true ⟨by decide, by omega⟩ (.inl hten)
  · generalize Text.digits p = ds at hall hmany
    cases ds with
    | nil => cases hmany
    | cons c rest =>
      rw [isInternational_iff (List.forall_mem_cons.mp hall).2]
      rw [List.length_cons] at hmany
      constructor
      · rintro ⟨hc, -, hmost⟩
        exact .inr ⟨Nat.succ_le_succ hmost, decide_eq_true hc⟩
      · rintro (hten | ⟨hmost, hhead⟩)
        · rw [List.length_cons] at hten
          omega
        · exact ⟨of_decide_eq_true hhead, by omega, Nat.le_of_succ_le_succ hmost⟩

theorem inForm_of_isInternational {p n : String} (h : normalize? (some p) = some n) (hn : isInternational n = true) :
    InForm n := by
  have hall : ∀ c ∈ Text.digits p, Text.isDigit c = true := fun c => Text.isDigit_of_mem_digits
  have hform {c : Char} {rest : List Char} (hrest : ∀ d ∈ rest, Text.isDigit d = true)
      (hn : isInternational (String.ofList ('+' :: c :: rest)) = true) : InForm (String.ofList ('+' :: c :: rest)) :=
    ⟨c, rest, String.toList_ofList, (isInternational_iff hrest).mp hn |>.1, (isInternational_iff hrest).mp hn |>.2, hrest⟩
  rcases ofDigits?_eq_some.mp h with ⟨-, rfl⟩ | ⟨hmany, rfl⟩
  · exact hform hall hn
  · generalize Text.digits p = ds at hall hmany hn
    cases ds with
    | nil => cases hmany
    | cons c rest => exact hform (List.forall_mem_cons.mp hall).2 hn

/-- **A phone destination is dialed as its digits come out.** -/
theorem normalize?_of_resolve {tenant destination : String} {st st' : State} {t : DialTarget}
    (h : (Work.resolve tenant destination).run st = (.ok t, st')) (ht : t.kind = .phone) :
    normalize? (some destination) = some t.address := by
  have huser {raw : String} {found : Option Member} {st₁ : State}
      (h : (Work.userTarget raw found).run st₁ = (.ok t, st')) : t.kind = .client := by
    cases found with
    | none => cases h
    | some m => cases h; rfl
  have hsame : normalize? (some (Text.trim destination)) = normalize? (some destination) :=
    normalize?_congr (Text.digits_trim destination)
  unfold Work.resolve at h
  dsimp only at h
  rw [Destination.classify_raw] at h
  split at h
  · rw [hsame] at h
    split at h
    · rename_i number hnumber
      cases h
      exact hnumber
    · cases h
  all_goals
    obtain ⟨found, st₁, -, hfound⟩ := Task.run_bind_eq_ok h
    rw [huser hfound] at ht
    cases ht

/-- **Which numbers come out of normalizing in another form than the international one**: those of eleven digits and more
that are no number with its country code.  Whatever else comes out is in that form, and nothing comes out of less than ten
digits.  What a phone destination is dialed as is what comes out of it. -/
theorem normalized_out_of_form_iff (p : String) :
    ((∃ n, normalize? (some p) = some n) ↔ 10 ≤ (Text.digits p).length) ∧
    ((∃ n, normalize? (some p) = some n ∧ isInternational n = false) ↔
      11 ≤ (Text.digits p).length ∧ ¬ WithCountry (Text.digits p)) ∧
    (∀ n, normalize? (some p) = some n → isInternational n = true → InForm n) ∧
    ∀ tenant (st st' : State) t, (Work.resolve tenant p).run st = (.ok t, st') → t.kind = .phone →
      normalize? (some p) = some t.address := by
  refine ⟨comes_out_iff p, ?_, fun n => inForm_of_isInternational, fun _ _ _ _ => normalize?_of_resolve⟩
  constructor
  · rintro ⟨n, hn, hno⟩
    have hnot := mt (isInternational_normalized hn).mpr (Bool.eq_false_iff.mp hno)
    obtain ⟨hten, hcountry⟩ := not_or.mp hnot
    have := (comes_out_iff p).mp ⟨n, hn⟩
    exact ⟨by omega, hcountry⟩
  · rintro ⟨hmany, hcountry⟩
    obtain ⟨n, hn⟩ := (comes_out_iff p).mpr (by omega)
    refine ⟨n, hn, Bool.eq_false_iff.mpr fun hyes => ?_⟩
    rcases (isInternational_normalized hn).mp hyes with hten | hyes
    · omega
    · exact hcountry hyes

/-- **A number written with the zero that is dialed within its country** comes out with that zero. -/
theorem leading_zero_comes_out :
    let p := "020 7946 0958"
    normalize? (some p) = some "+02079460958" ∧ ∃ n, normalize? (some p) = some n ∧ isInternational n = false := by
  intro p
  exact ⟨by decide, (normalized_out_of_form_iff p).2.1.mpr ⟨by decide, by decide⟩⟩

/-! ## Spellings of one number -/

/-- The digits of a number with its country code. -/
def withCountryCode (ds : List Char) : List Char := if ds.length = 10 then '1' :: ds else ds

theorem length_withCountryCode {ds : List Char} : 11 ≤ (withCountryCode ds).length ↔ 10 ≤ ds.length := by
  unfold withCountryCode
  split
  · rw [List.length_cons]
    omega
  · omega

/-- **A number comes out as a plus sign and its digits**, those of its country code among them. -/
theorem normalize?_eq_some {p n : String} : normalize? (some p) = some n ↔
    10 ≤ (Text.digits p).length ∧ n = String.ofList ('+' :: withCountryCode (Text.digits p)) := by
  refine ofDigits?_eq_some.trans ?_
  unfold withCountryCode
  by_cases hten : (Text.digits p).length = 10
  · rw [if_pos hten]
    exact ⟨fun h => ⟨by omega, h.elim And.right fun h => absurd h.1 (by omega)⟩, fun h => .inl ⟨hten, h.2⟩⟩
  · rw [if_neg hten]
    exact ⟨fun h => ⟨by omega, h.elim (fun h => absurd h.1 hten) And.right⟩, fun h => .inr ⟨by omega, h.2⟩⟩

/-- **What comes out has the digits of the number with its country code.** -/
theorem digits_normalized {p n : String} (h : normalize? (some p) = some n) :
    Text.digits n = withCountryCode (Text.digits p) := by
  obtain ⟨-, rfl⟩ := normalize?_eq_some.mp h
  have hall : ∀ c ∈ withCountryCode (Text.digits p), Text.isDigit c = true := by
    unfold withCountryCode
    split
    · exact List.forall_mem_cons.mpr ⟨by decide, fun c => Text.isDigit_of_mem_digits⟩
    · exact fun c => Text.isDigit_of_mem_digits
  rw [Text.digits, String.toList_ofList, List.filter_cons_of_neg (by decide), List.filter_eq_self.mpr hall]

/-- **What came out comes out again as it is**: it has eleven digits at least, which are taken as they are. -/
theorem normalize?_normalized {p n : String} (h : normalize? (some p) = some n) : normalize? (some n) = some n := by
  obtain ⟨hmany, hn⟩ := normalize?_eq_some.mp h
  have hmany : 11 ≤ (withCountryCode (Text.digits p)).length := length_withCountryCode.mpr hmany
  refine normalize?_eq_some.mpr ?_
  rw [digits_normalized h, withCountryCode.eq_def (withCountryCode _), if_neg (by omega)]
  exact ⟨by omega, hn⟩

/-- **Two numbers are the same** if one number comes out of both. -/
theorem same_iff {a b : Option String} : same a b = true ↔ ∃ n, normalize? a = some n ∧ normalize? b = some n := by
  unfold same
  cases normalize? a with
  | none => exact iff_of_false Bool.false_ne_true fun ⟨_, h, _⟩ => nomatch h
  | some n =>
    dsimp only
    rw [decide_eq_true_eq]
    exact ⟨fun h => ⟨n, rfl, h⟩, fun ⟨m, hm, h⟩ => Option.some.inj hm ▸ h⟩

/-- **Two numbers are the same** if they have the same digits with their country codes. -/
theorem same_iff_digits {p q : String} : same (some p) (some q) = true ↔
    10 ≤ (Text.digits p).length ∧ withCountryCode (Text.digits p) = withCountryCode (Text.digits q) := by
  rw [same_iff]
  constructor
  · rintro ⟨n, hp, hq⟩
    exact ⟨(normalize?_eq_some.mp hp).1, (digits_normalized hp).symm.trans (digits_normalized hq)⟩
  · rintro ⟨hmany, hdigits⟩
    refine ⟨_, normalize?_eq_some.mpr ⟨hmany, rfl⟩, normalize?_eq_some.mpr ⟨?_, by rw [hdigits]⟩⟩
    rw [← length_withCountryCode] at hmany ⊢
    rwa [← hdigits]

/-- **A number is what its digits are**, however it is written.  The same digits in the same order come out the same,
whatever stands between them, before or behind: a plus sign, white space or anything else that is no digit.  What came out
comes out again as it is.  Two spellings match exactly if one number comes out of both, which is so exactly if there are
ten digits at least and they are the same with the country code of ten; so what comes out of a number matches it. -/
theorem spellings_of_one_number (p : String) :
    (∀ q, Text.digits q = Text.digits p → normalize? (some q) = normalize? (some p)) ∧
    (∀ front marks behind, p = front ++ marks ++ behind → Text.digits marks = [] →
      normalize? (some (front ++ behind)) = normalize? (some p)) ∧
    (∀ n, normalize? (some p) = some n → normalize? (some n) = some n ∧ same (some p) (some n) = true) ∧
    (∀ q, same (some p) q = true ↔ ∃ n, normalize? (some p) = some n ∧ normalize? q = some n) ∧
    ∀ q, same (some p) (some q) = true ↔
      10 ≤ (Text.digits p).length ∧ withCountryCode (Text.digits p) = withCountryCode (Text.digits q) := by
  refine ⟨fun q => normalize?_congr, fun front marks behind hp hmarks => normalize?_congr ?_, fun n hn => ?_,
    fun q => same_iff, fun q => same_iff_digits⟩
  · rw [hp, Text.digits_append, Text.digits_append, Text.digits_append, hmarks, List.append_nil]
  · have hagain := normalize?_normalized hn
    exact ⟨hagain, same_iff.mpr ⟨n, hn, hagain⟩⟩

/-- Ten digits of another script, with marks between them, and the number that comes out of them. -/
theorem arabic_number_is_its_normal_form :
    let p := "(٧١٣) ٥٥٥-١٢٣٤"
    normalize? (some p) = some "+1٧١٣٥٥٥١٢٣٤" ∧ same (some p) (some "+1٧١٣٥٥٥١٢٣٤") = true := by
  intro p
  have hp : normalize? (some p) = some "+1٧١٣٥٥٥١٢٣٤" := by decide
  exact ⟨hp, ((spellings_of_one_number p).2.2.1 _ hp).2⟩

end Switchboard.Phone
