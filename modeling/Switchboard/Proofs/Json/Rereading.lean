import Switchboard.Json.Printer
import Switchboard.Proofs.Json.Numbers
/-!
# Reading back what was printed

A value is printed as characters that the reader takes for that value, whatever stands behind them (`Plain.reads`).
This is so of values whose integers have no more digits than are converted and whose objects have no two fields of one name
(`Plain`): of two such fields the reader keeps one.  The reader counts down a bound as it goes; each
step that it counts has printed a character, so the length of the text is bound enough.
-/
namespace Switchboard.Json

/-! ## What is printed -/

/-- A value that can be told from its text. -/
inductive Plain : Json → Prop where
  | null : Plain .null
  | bool (b : Bool) : Plain (.bool b)
  | int {n : Int} (h : Text.Readable n) : Plain (.int n)
  | float (x : Float) : Plain (.float x)
  | str (s : String) : Plain (.str s)
  | arr {items : List Json} (h : ∀ v ∈ items, Plain v) : Plain (.arr items)
  | obj {fields : List (String × Json)} (h : ∀ f ∈ fields, Plain f.2) (names : (fields.map Prod.fst).Nodup) :
    Plain (.obj fields)

/-- A style with blanks at most behind the comma and behind the colon. -/
structure Style.Spaced (st : Style) (afterComma afterColon : List Char) : Prop where
  comma : st.comma.toList = ',' :: afterComma
  colon : st.colon.toList = ':' :: afterColon
  blankComma : ∀ c ∈ afterComma, isBlank c = true
  blankColon : ∀ c ∈ afterColon, isBlank c = true

theorem stored_spaced : stored.Spaced [' '] [' '] where
  comma := rfl
  colon := rfl
  blankComma := List.forall_mem_singleton.2 rfl
  blankColon := List.forall_mem_singleton.2 rfl

/-- The characters of a string literal behind its opening quote. -/
def literal (s : String) : List Char := s.toList.flatMap (fun c => (escapeChar c).toList) ++ ['"']

theorem toList_quote (s : String) : (quote s).toList = '"' :: literal s := by
  have hfold (cs : List Char) (acc : String) : (cs.foldl (fun acc c => acc ++ escapeChar c) acc).toList =
      acc.toList ++ cs.flatMap fun c => (escapeChar c).toList := by
    induction cs generalizing acc with
    | nil => simp
    | cons c cs ih => rw [List.foldl_cons, ih, String.toList_append, List.append_assoc, List.flatMap_cons]
  rw [quote, String.toList_append, hfold]
  rfl

/-- A field as it is printed. -/
def spelledField (st : Style) (f : String × Json) : List Char :=
  '"' :: literal f.1 ++ st.colon.toList ++ (render st f.2).toList

/-- The items behind the first one, with the bracket that ends them. -/
def moreItems (st : Style) (items : List Json) : List Char :=
  items.flatMap (fun v => st.comma.toList ++ (render st v).toList) ++ [']']

/-- The fields behind the first one, with the bracket that ends them. -/
def moreFields (st : Style) (fields : List (String × Json)) : List Char :=
  fields.flatMap (fun f => st.comma.toList ++ spelledField st f) ++ ['\x7d']

theorem toList_renderItems (st : Style) (items : List Json) (acc : String) :
    (renderItems st acc items).toList = acc.toList ++ moreItems st items := by
  induction items generalizing acc with
  | nil => rw [renderItems, String.toList_append]; rfl
  | cons v rest ih =>
    rw [renderItems, ih, String.toList_append, String.toList_append, moreItems, moreItems, List.flatMap_cons]
    simp only [List.append_assoc]

theorem toList_renderFields (st : Style) (fields : List (String × Json)) (acc : String) :
    (renderFields st acc fields).toList = acc.toList ++ moreFields st fields := by
  induction fields generalizing acc with
  | nil => rw [renderFields, String.toList_append]; rfl
  | cons f rest ih =>
    obtain ⟨k, v⟩ := f
    rw [renderFields, ih, moreFields, moreFields, List.flatMap_cons, spelledField]
    simp only [String.toList_append, toList_quote, List.append_assoc]

theorem toList_render_arr (st : Style) (v : Json) (rest : List Json) :
    (render st (.arr (v :: rest))).toList = '[' :: ((render st v).toList ++ moreItems st rest) := by
  rw [render, toList_renderItems, String.toList_append, List.append_assoc]
  rfl

theorem toList_render_obj (st : Style) (f : String × Json) (rest : List (String × Json)) :
    (render st (.obj (f :: rest))).toList = '\x7b' :: (spelledField st f ++ moreFields st rest) := by
  obtain ⟨k, v⟩ := f
  rw [render, toList_renderFields, spelledField]
  simp only [String.toList_append, toList_quote, List.append_assoc]
  rfl

/-! ## Texts -/

theorem hexValue?_hexDigit : ∀ n < 16, hexValue? (hexDigit n) = some n := by decide

/-- The characters of an escape by number. -/
theorem unit?_hexDigits {n : Nat} (h : n < 65536) (rest : List Char) :
    unit? ((hexDigit (n / 4096 % 16) :: hexDigit (n / 256 % 16) :: hexDigit (n / 16 % 16) :: hexDigit (n % 16) ::
      rest).take 4) = some n := by
  simp only [List.take_succ_cons, List.take_zero, unit?, hexValue?_hexDigit _ (Nat.mod_lt _ (by decide : 0 < 16)),
    Option.bind_eq_bind, Option.bind_some, Option.pure_def, Option.some.injEq]
  omega

theorem readUnit_hexDigits {n : Nat} (h : n < 65536) {rest : List Char} (hrest : rest ≠ []) :
    readUnit (hexDigit (n / 4096 % 16) :: hexDigit (n / 256 % 16) :: hexDigit (n / 16 % 16) :: hexDigit (n % 16) :: rest) =
      .ok (n, rest) := by
  have hlong : ¬ (rest.length + 1 + 1 + 1 + 1 ≤ 4) := by
    have := List.length_pos_iff.2 hrest
    omega
  rw [readUnit, unit?_hexDigits h]
  simp only [List.length_cons]
  rw [if_neg hlong]
  rfl

theorem toList_escapeUnit (n : Nat) : (escapeUnit n).toList =
    ['\\', 'u', hexDigit (n / 4096 % 16), hexDigit (n / 256 % 16), hexDigit (n / 16 % 16), hexDigit (n % 16)] := by
  rw [escapeUnit, String.toList_ofList]

theorem unitChar_toNat (c : Char) : unitChar c.toNat = c := by
  have hvalid : c.toNat < 55296 ∨ 57343 < c.toNat ∧ c.toNat < 1114112 := c.valid
  rw [unitChar, if_neg (by omega)]
  exact Char.ofNat_toNat c

/-- A character of the basic plane that is escaped by its number. -/
theorem readEscape_unit (opening : Nat) {c : Char} (h : c.toNat < 65536) {rest : List Char} (hrest : rest ≠ []) :
    readEscape opening ((escapeUnit c.toNat).toList.tail ++ rest) = .ok (c, rest) := by
  have hvalid : c.toNat < 55296 ∨ 57343 < c.toNat ∧ c.toNat < 1114112 := c.valid
  rw [toList_escapeUnit]
  simp only [List.tail_cons, List.cons_append, List.nil_append, readEscape, readUnit_hexDigits h hrest]
  simp only [bind, Except.bind]
  rw [if_neg (by omega), unitChar_toNat]

/-- Two numbers of the surrogate ranges stand for one character. -/
theorem readEscape_surrogates (opening : Nat) {high low : Nat} (hhigh : 0xD800 ≤ high ∧ high < 0xDC00)
    (hlow : 0xDC00 ≤ low ∧ low < 0xE000) {rest : List Char} (hrest : rest ≠ []) :
    readEscape opening ((escapeUnit high).toList.tail ++ ((escapeUnit low).toList ++ rest)) =
      .ok (Char.ofNat (0x10000 + (high - 0xD800) * 1024 + (low - 0xDC00)), rest) := by
  have hpos := List.length_pos_iff.2 hrest
  rw [toList_escapeUnit, toList_escapeUnit]
  simp only [List.tail_cons, List.cons_append, List.nil_append, readEscape]
  rw [readUnit_hexDigits (by omega) (List.cons_ne_nil _ _)]
  simp only [bind, Except.bind, List.length_cons]
  rw [if_pos ⟨hhigh.1, hhigh.2, by omega⟩, unit?_hexDigits (by omega)]
  dsimp only
  rw [if_pos hlow]
  rfl

/-- A character beyond the basic plane is escaped by two numbers. -/
theorem readEscape_pair (opening : Nat) {c : Char} (h : 65536 ≤ c.toNat) {rest : List Char} (hrest : rest ≠ []) :
    readEscape opening ((escapeUnit (0xD800 + (c.toNat - 0x10000) / 1024)).toList.tail ++
      ((escapeUnit (0xDC00 + (c.toNat - 0x10000) % 1024)).toList ++ rest)) = .ok (c, rest) := by
  have hvalid : c.toNat < 55296 ∨ 57343 < c.toNat ∧ c.toNat < 1114112 := c.valid
  have hnumber : 0x10000 + (0xD800 + (c.toNat - 0x10000) / 1024 - 0xD800) * 1024 +
      (0xDC00 + (c.toNat - 0x10000) % 1024 - 0xDC00) = c.toNat := by omega
  rw [readEscape_surrogates opening (by omega) (by omega) hrest, hnumber, Char.ofNat_toNat]

/-- The ways in which a character is printed: a name or a number behind a backslash, itself, or two numbers. -/
theorem escapeChar_cases (c : Char) :
    (∃ d, (escapeChar c).toList = ['\\', d] ∧ ∀ opening rest, readEscape opening (d :: rest) = .ok (c, rest)) ∨
      (escapeChar c).toList = (escapeUnit c.toNat).toList ∧ c.toNat < 65536 ∨
      (escapeChar c).toList = [c] ∧ c ≠ '"' ∧ c ≠ '\\' ∧ ¬ c.toNat < 32 ∨
      (escapeChar c).toList = (escapeUnit (0xD800 + (c.toNat - 0x10000) / 1024)).toList ++
        (escapeUnit (0xDC00 + (c.toNat - 0x10000) % 1024)).toList ∧ 65536 ≤ c.toNat := by
  have hnamed (n : Nat) (hn : c.toNat = n) : Char.ofNat n = c := by rw [← hn, Char.ofNat_toNat]
  unfold escapeChar
  by_cases hquote : c = '"'
  · rw [if_pos hquote, hquote]
    exact .inl ⟨'"', by decide, fun _ _ => rfl⟩
  rw [if_neg hquote]
  by_cases hslash : c = '\\'
  · rw [if_pos hslash, hslash]
    exact .inl ⟨'\\', by decide, fun _ _ => rfl⟩
  rw [if_neg hslash]
  by_cases hline : c = '\n'
  · rw [if_pos hline, hline]
    exact .inl ⟨'n', by decide, fun _ _ => rfl⟩
  rw [if_neg hline]
  by_cases hreturn : c = '\r'
  · rw [if_pos hreturn, hreturn]
    exact .inl ⟨'r', by decide, fun _ _ => rfl⟩
  rw [if_neg hreturn]
  by_cases htab : c = '\t'
  · rw [if_pos htab, htab]
    exact .inl ⟨'t', by decide, fun _ _ => rfl⟩
  rw [if_neg htab]
  by_cases hback : c.toNat = 8
  · rw [if_pos hback]
    exact .inl ⟨'b', by decide, fun _ rest => congrArg (fun c => Except.ok (c, rest)) (hnamed 8 hback)⟩
  rw [if_neg hback]
  by_cases hform : c.toNat = 12
  · rw [if_pos hform]
    exact .inl ⟨'f', by decide, fun _ rest => congrArg (fun c => Except.ok (c, rest)) (hnamed 12 hform)⟩
  rw [if_neg hform]
  by_cases hcontrol : c.toNat < 32
  · rw [if_pos hcontrol]
    exact .inr (.inl ⟨rfl, by omega⟩)
  rw [if_neg hcontrol]
  by_cases hascii : c.toNat < 128
  · rw [if_pos hascii, Char.toString, String.toList_singleton]
    exact .inr (.inr (.inl ⟨rfl, hquote, hslash, hcontrol⟩))
  rw [if_neg hascii]
  by_cases hplane : c.toNat < 65536
  · rw [if_pos hplane]
    exact .inr (.inl ⟨rfl, hplane⟩)
  rw [if_neg hplane]
  exact .inr (.inr (.inr ⟨String.toList_append, Nat.le_of_not_lt hplane⟩))

/-- **A character is read back** as it is printed, where more stands behind it. -/
theorem readString_escapeChar (opening fuel : Nat) (acc : List Char) (c : Char) {rest : List Char} (hrest : rest ≠ []) :
    readString opening (fuel + 1) acc ((escapeChar c).toList ++ rest) = readString opening fuel (c :: acc) rest := by
  have hback {cs : List Char} (h : readEscape opening cs = .ok (c, rest)) :
      readString opening (fuel + 1) acc ('\\' :: cs) = readString opening fuel (c :: acc) rest := by
    rw [readString, if_neg (by decide), if_pos rfl, h]
    rfl
  rcases escapeChar_cases c with ⟨d, htext, hd⟩ | ⟨htext, hc⟩ | ⟨htext, hquote, hslash, hcontrol⟩ | ⟨htext, hc⟩
  · rw [htext]
    exact hback (hd opening rest)
  · have := hback (readEscape_unit opening hc hrest)
    rwa [htext, toList_escapeUnit] at *
  · rw [htext, List.singleton_append, readString, if_neg hquote, if_neg hslash, if_neg hcontrol]
  · have := hback (readEscape_pair opening hc hrest)
    rw [htext, List.append_assoc]
    rwa [toList_escapeUnit] at *

theorem length_literal (s : String) : s.toList.length < (literal s).length := by
  have hone (c : Char) : 1 ≤ (escapeChar c).toList.length := by
    rcases escapeChar_cases c with ⟨d, htext, -⟩ | ⟨htext, -⟩ | ⟨htext, -⟩ | ⟨htext, -⟩ <;> rw [htext] <;>
      simp [toList_escapeUnit]
  have hsum (cs : List Char) : cs.length ≤ (cs.flatMap fun c => (escapeChar c).toList).length := by
    induction cs with
    | nil => exact Nat.le_refl _
    | cons c cs ih =>
      rw [List.flatMap_cons, List.length_append, List.length_cons]
      have := hone c
      omega
  rw [literal, List.length_append]
  exact Nat.lt_succ_of_le (hsum s.toList)

/-- **A text is read back** up to the quote that ends it. -/
theorem readString_literal (opening : Nat) (s : String) (rest : List Char) {fuel : Nat}
    (hfuel : (literal s).length ≤ fuel) : readString opening fuel [] (literal s ++ rest) = .ok (s, rest) := by
  have hchars (cs : List Char) : ∀ (acc : List Char) (fuel : Nat), cs.length < fuel →
      readString opening fuel acc (cs.flatMap (fun c => (escapeChar c).toList) ++ ('"' :: rest)) =
        .ok (String.ofList (acc.reverse ++ cs), rest) := by
    induction cs with
    | nil =>
      intro acc fuel hfuel
      obtain ⟨fuel, rfl⟩ : ∃ m, fuel = m + 1 := ⟨fuel - 1, by omega⟩
      rw [List.flatMap_nil, List.nil_append, readString, if_pos rfl, List.append_nil]
    | cons c cs ih =>
      intro acc fuel hfuel
      obtain ⟨fuel, rfl⟩ : ∃ m, fuel = m + 1 := ⟨fuel - 1, by omega⟩
      rw [List.length_cons] at hfuel
      rw [List.flatMap_cons, List.append_assoc, readString_escapeChar _ _ _ _ (by simp), ih _ _ (by omega)]
      simp
  have hlong := length_literal s
  rw [literal, List.append_assoc]
  exact (hchars s.toList [] fuel (by omega)).trans (by simp)

/-! ## Words -/

theorem append_of_stripWord {word cs rest : List Char} (h : stripWord word cs = some rest) : word ++ rest = cs := by
  induction word generalizing cs with
  | nil => exact (Option.some.inj h).symm
  | cons w ws ih =>
    cases cs with
    | nil => cases h
    | cons c cs =>
      rw [stripWord] at h
      split at h
      · rename_i hw
        rw [hw, List.cons_append, ih h]
      · cases h

/-- The first two characters of each word. -/
def beginnings : List (List Char) := words.map fun w => w.1.take 2

theorem no_word {cs : List Char} (h : cs.take 2 ∉ beginnings) :
    words.findSome? (fun w => (stripWord w.1 cs).map fun after => (w.2, after)) = none := by
  refine List.findSome?_eq_none_iff.2 fun w hw => Option.map_eq_none_iff.2 ?_
  cases hrest : stripWord w.1 cs with
  | none => rfl
  | some rest =>
    have hmem : w.1.take 2 ∈ beginnings := List.mem_map_of_mem hw
    have hlong : ∀ b ∈ beginnings, b.length = 2 := by decide
    have htwo := hlong _ hmem
    rw [List.length_take] at htwo
    rw [← append_of_stripWord hrest, List.take_append_of_le_length (by omega)] at h
    exact absurd hmem h

/-- No word begins with a digit. -/
theorem no_word_of_isDigit {c : Char} (h : isDigit c = true) (cs : List Char) :
    words.findSome? (fun w => (stripWord w.1 (c :: cs)).map fun after => (w.2, after)) = none := by
  have hheads : ∀ b ∈ beginnings, b.head?.all (fun c => !isDigit c) = true := by decide
  refine no_word fun hmem => ?_
  have := hheads _ hmem
  rw [List.take_succ_cons, List.head?_cons, Option.all_some, h] at this
  cases this

/-- No word begins with a minus and a digit. -/
theorem no_word_of_minus {d : Char} (h : isDigit d = true) (cs : List Char) :
    words.findSome? (fun w => (stripWord w.1 ('-' :: d :: cs)).map fun after => (w.2, after)) = none := by
  have hseconds : ∀ b ∈ beginnings, b.tail.head?.all (fun c => !isDigit c) = true := by decide
  refine no_word fun hmem => ?_
  have := hseconds _ hmem
  rw [List.take_succ_cons, List.tail_cons, List.take_succ_cons, List.head?_cons, Option.all_some, h] at this
  cases this

/-- Whether a value can begin with a character: it is no blank, not the bracket that ends a list and not the mark that a text may
begin with. -/
def BeginsValue (c : Char) : Prop := isBlank c = false ∧ c ≠ ']' ∧ c ≠ byteOrderMark

instance : DecidablePred BeginsValue := fun _ => inferInstanceAs (Decidable (_ ∧ _))

theorem beginsValue_of_word : ∀ word ∈ words, ∃ c cs, word.1 = c :: cs ∧ BeginsValue c := by
  have hheads : ∀ cs ∈ words.map Prod.fst, cs.head?.any (fun c => BeginsValue c) = true := by decide
  intro word hword
  obtain ⟨c, hc, hbegins⟩ := (Option.any_eq_true _ _).mp (hheads word.1 (List.mem_map_of_mem hword))
  obtain ⟨cs, hcs⟩ := List.head?_eq_some_iff.mp hc
  exact ⟨c, cs, hcs, of_decide_eq_true hbegins⟩

/-! ## Values -/

variable {st : Style} {afterComma afterColon : List Char}

theorem toList_render_null (st : Style) : (render st .null).toList = ['n', 'u', 'l', 'l'] := by rw [render]; decide

theorem toList_render_true (st : Style) : (render st (.bool true)).toList = ['t', 'r', 'u', 'e'] := by rw [render]; decide

theorem toList_render_false (st : Style) : (render st (.bool false)).toList = ['f', 'a', 'l', 's', 'e'] := by
  rw [render]; decide

theorem toList_render_int (st : Style) (n : Int) :
    (render st (.int n)).toList = signed (decide (n < 0)) (Nat.toDigits 10 n.natAbs) := by
  rw [render]
  cases n with
  | ofNat n => exact Text.toList_toString_nat n
  | negSucc n =>
    rw [decide_eq_true (Int.negSucc_lt_zero n)]
    exact (String.toList_append ..).trans (congrArg ('-' :: ·) (Text.toList_toString_nat (n + 1)))

theorem toList_render_str (st : Style) (s : String) : (render st (.str s)).toList = '"' :: literal s := by
  rw [render, toList_quote]

theorem toList_render_nil (st : Style) : (render st (.arr [])).toList = ['[', ']'] := by rw [render]; decide

theorem toList_render_empty (st : Style) : (render st (.obj [])).toList = ['\x7b', '\x7d'] := by rw [render]; decide

theorem toList_render_float (st : Style) (x : Float) : (render st (.float x)).toList = (Decimal.ofFloat x).toList := by
  rw [render]

theorem beginsValue_signed (negative : Bool) {d : Char} (hd : isDigit d = true) (ds : List Char) :
    ∃ c cs, signed negative (d :: ds) = c :: cs ∧ BeginsValue c := by
  cases negative with
  | true => exact ⟨_, _, rfl, by decide⟩
  | false =>
    have hne {c : Char} (hc : isDigit c = false) : d ≠ c := by
      rintro rfl
      rw [hd] at hc
      cases hc
    refine ⟨d, ds, rfl, ?_, hne (by decide), hne (by decide)⟩
    simp [isBlank, hne (c := ' ') rfl, hne (c := '\t') rfl, hne (c := '\n') rfl, hne (c := '\r') rfl]

/-- Every value is printed with a character in front that a value can begin with. -/
theorem Plain.head {v : Json} (h : Plain v) (st : Style) : ∃ c cs, (render st v).toList = c :: cs ∧ BeginsValue c := by
  cases h with
  | null => exact ⟨_, _, toList_render_null st, by decide⟩
  | bool b =>
    cases b with
    | true => exact ⟨_, _, toList_render_true st, by decide⟩
    | false => exact ⟨_, _, toList_render_false st, by decide⟩
  | @int n =>
    obtain ⟨d, ds, hd, hdigit⟩ := (whole_toDigits n.natAbs).head
    rw [toList_render_int, hd]
    exact beginsValue_signed _ hdigit ds
  | float x =>
    rw [toList_render_float]
    rcases ofFloat_cases x with ⟨word, hword, htext, -⟩ | ⟨negative, w, hfits, -, htext⟩
    · exact htext ▸ beginsValue_of_word word hword
    · obtain ⟨d, ds, hd, hdigit⟩ := hfits.head
      rw [htext, hd]
      exact beginsValue_signed negative hdigit ds
  | str s => exact ⟨_, _, toList_render_str st s, by decide⟩
  | @arr items =>
    cases items with
    | nil => exact ⟨_, _, toList_render_nil st, by decide⟩
    | cons v rest => exact ⟨_, _, toList_render_arr st v rest, by decide⟩
  | @obj fields =>
    cases fields with
    | nil => exact ⟨_, _, toList_render_empty st, by decide⟩
    | cons f rest => exact ⟨_, _, toList_render_obj st f rest, by decide⟩

theorem skipBlank_cons {c : Char} (h : isBlank c = false) (cs : List Char) : skipBlank (c :: cs) = c :: cs :=
  List.dropWhile_cons_of_neg (by simp [h])

theorem Plain.skipBlank_text {v : Json} (h : Plain v) {blanks : List Char} (hblanks : ∀ c ∈ blanks, isBlank c = true)
    (rest : List Char) :
    skipBlank (blanks ++ ((render st v).toList ++ rest)) = (render st v).toList ++ rest := by
  obtain ⟨c, cs, htext, hc, -⟩ := h.head st
  rw [skipBlank, List.dropWhile_append_of_pos hblanks, htext, List.cons_append]
  exact skipBlank_cons hc _

/-- What is printed for a value has a character at least. -/
theorem Plain.fuel {v : Json} (h : Plain v) {fuel : Nat} (hfuel : (render st v).toList.length ≤ fuel) : ∃ m, fuel = m + 1 := by
  obtain ⟨c, cs, htext, -⟩ := h.head st
  rw [htext, List.length_cons] at hfuel
  exact ⟨fuel - 1, by omega⟩

/-- A value is read off the front of whatever stands behind it. -/
def Reads (st : Style) (v : Json) : Prop :=
  ∀ (rest : List Char) (fuel : Nat), EndsNumber rest → (render st v).toList.length ≤ fuel →
    readValue fuel ((render st v).toList ++ rest) = .ok (v, rest)

/-- **The items of a list are read** one by one. -/
theorem readItems_spelled (hst : st.Spaced afterComma afterColon) {items : List Json} {v : Json}
    (hplain : ∀ w ∈ v :: items, Plain w) (hreads : ∀ w ∈ v :: items, Reads st w) (acc : List Json) (rest : List Char)
    {fuel : Nat} (hfuel : ((render st v).toList ++ moreItems st items).length ≤ fuel) :
    readItems fuel acc ((render st v).toList ++ (moreItems st items ++ rest)) =
      .ok (.arr (acc.reverse ++ v :: items), rest) := by
  induction items generalizing v acc fuel with
  | nil =>
    rw [List.length_append] at hfuel
    have hone : (moreItems st []).length = 1 := rfl
    obtain ⟨fuel, rfl⟩ : ∃ m, fuel = m + 1 := ⟨fuel - 1, by omega⟩
    have hv := hreads v List.mem_cons_self (']' :: rest) fuel (endsNumber_cons (by decide) rest) (by omega)
    have hmore : moreItems st [] ++ rest = ']' :: rest := rfl
    rw [readItems, hmore, hv]
    simp only [bind, Except.bind]
    rw [skipBlank_cons (by decide)]
    simp
  | cons w ws ih =>
    have hmore : moreItems st (w :: ws) = ',' :: (afterComma ++ ((render st w).toList ++ moreItems st ws)) := by
      rw [moreItems, moreItems, List.flatMap_cons, hst.comma]
      simp only [List.append_assoc, List.cons_append]
    rw [List.length_append, hmore, List.length_cons, List.length_append] at hfuel
    obtain ⟨fuel, rfl⟩ : ∃ m, fuel = m + 1 := ⟨fuel - 1, by omega⟩
    have hv := hreads v List.mem_cons_self (',' :: (afterComma ++ ((render st w).toList ++ (moreItems st ws ++ rest)))) fuel
      (endsNumber_cons (by decide) _) (by omega)
    have hw := hplain w (List.mem_cons_of_mem _ List.mem_cons_self)
    rw [readItems, hmore]
    simp only [List.cons_append, List.append_assoc]
    rw [hv]
    simp only [bind, Except.bind]
    rw [skipBlank_cons (by decide)]
    show readItems fuel (v :: acc) (skipBlank (afterComma ++ ((render st w).toList ++ (moreItems st ws ++ rest)))) = _
    rw [hw.skipBlank_text hst.blankComma, ih (fun x hx => hplain x (List.mem_cons_of_mem _ hx))
      (fun x hx => hreads x (List.mem_cons_of_mem _ hx)) (v :: acc) (by omega)]
    simp

theorem setField_of_not_mem {key : String} {fields : List (String × Json)} (h : key ∉ fields.map Prod.fst) (v : Json) :
    setField key v fields = fields ++ [(key, v)] := by
  induction fields with
  | nil => rfl
  | cons f rest ih =>
    obtain ⟨k, w⟩ := f
    rw [List.map_cons, List.mem_cons, not_or] at h
    rw [setField, if_neg (Ne.symm h.1), ih h.2, List.cons_append]

theorem not_mem_of_nodup {acc fields : List (String × Json)} {f : String × Json}
    (h : ((acc ++ f :: fields).map Prod.fst).Nodup) : f.1 ∉ acc.map Prod.fst := by
  rw [List.map_append, List.map_cons] at h
  intro hmem
  exact (List.nodup_append.1 h).2.2 f.1 hmem f.1 List.mem_cons_self rfl

/-- The name and the value of a field are read, and then what stands behind them. -/
theorem readFields_field (hst : st.Spaced afterComma afterColon) {f : String × Json} (hplain : Plain f.2)
    (hreads : Reads st f.2) {acc : List (String × Json)} (hname : f.1 ∉ acc.map Prod.fst) {behind : List Char}
    (hbehind : EndsNumber behind) {fuel : Nat} (hfuel : (spelledField st f).length ≤ fuel + 1) :
    readFields (fuel + 1) acc (spelledField st f ++ behind) =
      match skipBlank behind with
      | '\x7d' :: rest => .ok (.obj (acc ++ [f]), rest)
      | ',' :: rest => readFields fuel (acc ++ [f]) (skipBlank rest)
      | rest => refuse .comma rest := by
  have htext : spelledField st f ++ behind =
      '"' :: (literal f.1 ++ (':' :: (afterColon ++ ((render st f.2).toList ++ behind)))) := by
    rw [spelledField, hst.colon]
    simp only [List.append_assoc, List.cons_append]
  have hlong : (render st f.2).toList.length ≤ fuel := by
    rw [spelledField] at hfuel
    simp only [List.length_append, List.length_cons, List.cons_append] at hfuel
    omega
  rw [htext, readFields, readString_literal _ _ _ (by rw [List.length_append]; omega)]
  simp only [bind, Except.bind]
  rw [skipBlank_cons (by decide)]
  split
  · rename_i more hcolon
    obtain ⟨-, rfl⟩ := List.cons.inj hcolon
    rw [hplain.skipBlank_text hst.blankColon, hreads behind fuel hbehind hlong]
    have hset : setField f.1 f.2 acc = acc ++ [f] := setField_of_not_mem hname f.2
    rewrite [← hset]
    rfl
  · rename_i hother
    exact absurd rfl (hother _)

/-- **The fields of an object are read** one by one, as long as no name comes twice. -/
theorem readFields_spelled (hst : st.Spaced afterComma afterColon) {fields : List (String × Json)} {f : String × Json}
    (hplain : ∀ g ∈ f :: fields, Plain g.2) (hreads : ∀ g ∈ f :: fields, Reads st g.2) (acc : List (String × Json))
    (hnames : ((acc ++ f :: fields).map Prod.fst).Nodup) (rest : List Char) {fuel : Nat}
    (hfuel : (spelledField st f ++ moreFields st fields).length ≤ fuel) :
    readFields fuel acc (spelledField st f ++ (moreFields st fields ++ rest)) = .ok (.obj (acc ++ f :: fields), rest) := by
  induction fields generalizing f acc fuel with
  | nil =>
    have hmore : moreFields st [] = ['\x7d'] := rfl
    rw [List.length_append, hmore, List.length_singleton] at hfuel
    obtain ⟨fuel, rfl⟩ : ∃ m, fuel = m + 1 := ⟨fuel - 1, by omega⟩
    rw [hmore, List.singleton_append, readFields_field hst (hplain f List.mem_cons_self) (hreads f List.mem_cons_self)
      (not_mem_of_nodup hnames) (endsNumber_cons (by decide) rest) (by omega)]
    rfl
  | cons g gs ih =>
    have hmore : moreFields st (g :: gs) = ',' :: (afterComma ++ (spelledField st g ++ moreFields st gs)) := by
      rw [moreFields, moreFields, List.flatMap_cons, hst.comma]
      simp only [List.append_assoc, List.cons_append]
    have hnames' : ((acc ++ [f] ++ g :: gs).map Prod.fst).Nodup := by rwa [List.append_assoc]
    rw [List.length_append, hmore, List.length_cons, List.length_append] at hfuel
    obtain ⟨fuel, rfl⟩ : ∃ m, fuel = m + 1 := ⟨fuel - 1, by omega⟩
    rw [hmore]
    simp only [List.cons_append, List.append_assoc]
    rw [readFields_field hst (hplain f List.mem_cons_self) (hreads f List.mem_cons_self) (not_mem_of_nodup hnames)
      (endsNumber_cons (by decide) _) (by omega), skipBlank_cons (by decide)]
    show readFields fuel (acc ++ [f]) (skipBlank (afterComma ++ (spelledField st g ++ (moreFields st gs ++ rest)))) = _
    have hquote : skipBlank (afterComma ++ (spelledField st g ++ (moreFields st gs ++ rest))) =
        spelledField st g ++ (moreFields st gs ++ rest) := by
      rw [skipBlank, List.dropWhile_append_of_pos hst.blankComma]
      exact skipBlank_cons (by decide) _
    rw [hquote, ih (fun x hx => hplain x (List.mem_cons_of_mem _ hx)) (fun x hx => hreads x (List.mem_cons_of_mem _ hx))
      (acc ++ [f]) hnames' (by omega), List.append_assoc]
    rfl

/-- What begins no text, list, object or word is a number. -/
theorem readValue_number {c : Char} {cs : List Char} (h : c ≠ '"' ∧ c ≠ '[' ∧ c ≠ '\x7b')
    (hwords : words.findSome? (fun w => (stripWord w.1 (c :: cs)).map fun after => (w.2, after)) = none) (fuel : Nat) :
    readValue (fuel + 1) (c :: cs) =
      if c = '-' then readNumber (c :: cs) true cs else readNumber (c :: cs) false (c :: cs) := by
  unfold readValue
  split
  · rename_i hc; exact absurd (List.cons.inj hc).1 h.1
  · rename_i hc; exact absurd (List.cons.inj hc).1 h.2.1
  · rename_i hc; exact absurd (List.cons.inj hc).1 h.2.2
  · rw [hwords]
    dsimp only
    split
    · rename_i hc
      obtain ⟨rfl, rfl⟩ := List.cons.inj hc
      rw [if_pos rfl]
    · rename_i hc
      rw [if_neg fun he : c = '-' => hc cs (by rw [he])]

/-- **A number is read** behind its sign. -/
theorem readValue_signed (negative : Bool) {d : Char} (hd : isDigit d = true) (ds : List Char) (fuel : Nat) :
    readValue (fuel + 1) (signed negative (d :: ds)) = readNumber (signed negative (d :: ds)) negative (d :: ds) := by
  have hne {c : Char} (hc : isDigit c = false) : d ≠ c := by
    rintro rfl
    rw [hd] at hc
    cases hc
  cases negative with
  | true => exact (readValue_number (by decide) (no_word_of_minus hd ds) fuel).trans (if_pos rfl)
  | false =>
    exact (readValue_number ⟨hne rfl, hne rfl, hne rfl⟩ (no_word_of_isDigit hd ds) fuel).trans (if_neg (hne rfl))

/-- **A word is read** as what it stands for. -/
theorem readValue_word {word : List Char × Json} (h : word ∈ words) (rest : List Char) (fuel : Nat) :
    readValue (fuel + 1) (word.1 ++ rest) = .ok (word.2, rest) := by
  simp only [words, List.mem_cons, List.not_mem_nil, or_false] at h
  rcases h with rfl | rfl | rfl | rfl | rfl | rfl <;> rfl

/-- **A value is read back** off the front of whatever stands behind it. -/
theorem Plain.reads (hst : st.Spaced afterComma afterColon) {v : Json} (h : Plain v) : Reads st v := by
  induction h with
  | null =>
    intro rest fuel _ hfuel
    rw [toList_render_null] at hfuel ⊢
    obtain ⟨fuel, rfl⟩ : ∃ m, fuel = m + 1 := ⟨fuel - 1, by simp at hfuel; omega⟩
    rfl
  | bool b =>
    intro rest fuel _ hfuel
    cases b with
    | true =>
      rw [toList_render_true] at hfuel ⊢
      obtain ⟨fuel, rfl⟩ : ∃ m, fuel = m + 1 := ⟨fuel - 1, by simp at hfuel; omega⟩
      rfl
    | false =>
      rw [toList_render_false] at hfuel ⊢
      obtain ⟨fuel, rfl⟩ : ∃ m, fuel = m + 1 := ⟨fuel - 1, by simp at hfuel; omega⟩
      rfl
  | @int n hn =>
    intro rest fuel hrest hfuel
    obtain ⟨fuel, rfl⟩ := (Plain.int hn).fuel hfuel
    obtain ⟨d, ds, hd, hdigit⟩ := (whole_toDigits n.natAbs).head
    rw [toList_render_int, signed_append, hd, List.cons_append, readValue_signed _ hdigit, ← List.cons_append, ← hd,
      readNumber_toDigits _ _ hn hrest]
    refine congrArg (fun m => Except.ok (Json.int m, rest)) ?_
    simp only [decide_eq_true_eq]
    split <;> omega
  | float x =>
    intro rest fuel hrest hfuel
    obtain ⟨fuel, rfl⟩ := (Plain.float x).fuel hfuel
    rw [toList_render_float]
    rcases ofFloat_cases x with ⟨word, hword, htext, hx⟩ | ⟨negative, w, hfits, hx, htext⟩
    · rw [htext, readValue_word hword, hx]
    · obtain ⟨d, ds, hd, hdigit⟩ := hfits.head
      rw [htext, signed_append, hd, List.cons_append, readValue_signed _ hdigit, ← List.cons_append, ← hd,
        hfits.read _ _ hrest, hx]
  | str s =>
    intro rest fuel _ hfuel
    rw [toList_render_str] at hfuel ⊢
    obtain ⟨fuel, rfl⟩ : ∃ m, fuel = m + 1 := ⟨fuel - 1, by simp at hfuel; omega⟩
    rw [List.cons_append, readValue, readString_literal _ _ _ (by rw [List.length_append]; omega)]
    rfl
  | @arr items h ih =>
    intro rest fuel hrest hfuel
    cases items with
    | nil =>
      rw [toList_render_nil] at hfuel ⊢
      obtain ⟨fuel, rfl⟩ : ∃ m, fuel = m + 1 := ⟨fuel - 1, by simp at hfuel; omega⟩
      rfl
    | cons v items =>
      rw [toList_render_arr] at hfuel ⊢
      rw [List.length_cons] at hfuel
      obtain ⟨fuel, rfl⟩ : ∃ m, fuel = m + 1 := ⟨fuel - 1, by omega⟩
      obtain ⟨c, cs, htext, -, hclose, -⟩ := (h v List.mem_cons_self).head st
      have hlong : ((render st v).toList ++ moreItems st items).length ≤ fuel := by omega
      have hitems := readItems_spelled hst h ih [] rest hlong
      rw [List.cons_append, List.append_assoc, readValue]
      have hskip : skipBlank ([] ++ ((render st v).toList ++ (moreItems st items ++ rest))) =
          (render st v).toList ++ (moreItems st items ++ rest) :=
        (h v List.mem_cons_self).skipBlank_text (List.forall_mem_nil _) _
      rw [List.nil_append] at hskip
      rw [hskip]
      split
      · rename_i after hend
        rw [htext] at hend
        exact absurd (List.cons.inj hend).1 hclose
      · exact hitems
  | @obj fields h names ih =>
    intro rest fuel hrest hfuel
    cases fields with
    | nil =>
      rw [toList_render_empty] at hfuel ⊢
      obtain ⟨fuel, rfl⟩ : ∃ m, fuel = m + 1 := ⟨fuel - 1, by simp at hfuel; omega⟩
      rfl
    | cons f fields =>
      rw [toList_render_obj] at hfuel ⊢
      rw [List.length_cons] at hfuel
      obtain ⟨fuel, rfl⟩ : ∃ m, fuel = m + 1 := ⟨fuel - 1, by omega⟩
      have hlong : (spelledField st f ++ moreFields st fields).length ≤ fuel := by omega
      have hfields := readFields_spelled hst h ih [] names rest hlong
      rw [List.cons_append, List.append_assoc, readValue]
      have hskip : skipBlank (spelledField st f ++ (moreFields st fields ++ rest)) =
          spelledField st f ++ (moreFields st fields ++ rest) := skipBlank_cons (by decide) _
      rw [hskip]
      exact hfields

/-! ## Documents -/

/-- **What was printed is read back**, in any style that puts no more than blanks behind its separators. -/
theorem parse_render (hst : st.Spaced afterComma afterColon) {v : Json} (h : Plain v) :
    parse (render st v) = .ok v := by
  obtain ⟨c, cs, htext, hc, -, hmark⟩ := h.head st
  have hread := h.reads hst [] ((render st v).toList.length + 1) (fun _ hc => nomatch hc) (Nat.le_succ _)
  rw [List.append_nil] at hread
  have hmark : (render st v).toList.head? ≠ some byteOrderMark := by
    rw [htext]
    exact fun h => hmark (Option.some.inj h)
  have hskip : skipBlank (render st v).toList = (render st v).toList := by
    rw [htext]
    exact skipBlank_cons hc cs
  simp only [parse, if_neg hmark, spelled, hskip, hread]
  rfl

/-- **A stored document is read back.** -/
theorem parse_toText {v : Json} (h : Plain v) : parse v.toText = .ok v := parse_render stored_spaced h

end Switchboard.Json
