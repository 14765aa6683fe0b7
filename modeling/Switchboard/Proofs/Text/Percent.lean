import Switchboard.Proofs.Text.Split
import Switchboard.Text.Percent
/-!
# Queries are read back as they were written

What is written into the query of an address comes back with the request for it.  An encoded text holds neither of the
characters that separate fields, names and values, so a query falls apart where it was put together; and an encoded text
stands for the UTF-8 bytes of the text, which are read back character by character.
-/
namespace Switchboard.Text.Percent

/-! ## UTF-8 -/

theorem toList_loop (bytes : ByteArray) (i : Nat) (taken : List UInt8) :
    ByteArray.toList.loop bytes i taken = taken.reverse ++ bytes.data.toList.drop i := by
  fun_induction ByteArray.toList.loop bytes i taken with
  | case1 i taken h ih =>
    have hi : i < bytes.data.toList.length := by rw [Array.length_toList]; exact h
    rw [ih, List.drop_eq_getElem_cons hi]
    simp [ByteArray.get!, h]
  | case2 i taken h =>
    rw [List.drop_eq_nil_of_le (by rw [Array.length_toList]; exact Nat.le_of_not_lt h), List.append_nil]

theorem toUTF8_toString (c : Char) : c.toString.toUTF8.toList = String.utf8EncodeChar c := by
  rw [String.toUTF8_eq_toByteArray, show c.toString = String.singleton c from rfl, String.toByteArray_singleton,
    List.utf8Encode_singleton, ByteArray.toList, toList_loop, List.toList_data_toByteArray]
  rfl

/-- A byte that follows within its range goes into the value of the character. -/
theorem complete_follow (value : Nat) {n : Nat} {low high : UInt8} (ranges : List (UInt8 × UInt8)) (rest : List UInt8)
    (hn : n < 64) (hlow : low.toNat ≤ n + 128) (hhigh : n + 128 ≤ high.toNat) :
    complete value ((low, high) :: ranges) (UInt8.ofNat (n + 128) :: rest) = complete (value * 64 + n) ranges rest := by
  have hbyte : (UInt8.ofNat (n + 128)).toNat = n + 128 := UInt8.toNat_ofNat_of_lt' (show n + 128 < 256 by omega)
  rw [complete, if_pos]
  · rw [hbyte, Nat.add_sub_cancel]
  · rw [Bool.and_eq_true, decide_eq_true_eq, decide_eq_true_eq, UInt8.le_iff_toNat_le, UInt8.le_iff_toNat_le, hbyte]
    exact ⟨hlow, hhigh⟩

theorem complete_last (value : Nat) {n : Nat} (rest : List UInt8) (hn : n < 64) :
    complete value [(0x80, 0xBF)] (UInt8.ofNat (n + 128) :: rest) = (Char.ofNat (value * 64 + n), rest) := by
  have hhigh : n + 128 ≤ (0xBF : UInt8).toNat := Nat.le_of_lt_succ (Nat.add_lt_add_right hn 128)
  rw [complete_follow value [] rest hn (Nat.le_add_left _ _) hhigh, complete]

/-- The first byte of a character, by its number. -/
theorem opening?_ofNat {n : Nat} (h : n < 256) :
    opening? (UInt8.ofNat n) =
      if n < 0x80 then some (n, [])
      else if n < 0xC2 then none
      else if n < 0xE0 then some (n - 0xC0, [(0x80, 0xBF)])
      else if n = 0xE0 then some (0, [(0xA0, 0xBF), (0x80, 0xBF)])
      else if n = 0xED then some (0xD, [(0x80, 0x9F), (0x80, 0xBF)])
      else if n < 0xF0 then some (n - 0xE0, [(0x80, 0xBF), (0x80, 0xBF)])
      else if n = 0xF0 then some (0, [(0x90, 0xBF), (0x80, 0xBF), (0x80, 0xBF)])
      else if n < 0xF4 then some (n - 0xF0, [(0x80, 0xBF), (0x80, 0xBF), (0x80, 0xBF)])
      else if n = 0xF4 then some (4, [(0x80, 0x8F), (0x80, 0xBF), (0x80, 0xBF)])
      else none := by
  have hn : (UInt8.ofNat n).toNat = n := UInt8.toNat_ofNat_of_lt' h
  simp only [opening?, UInt8.lt_iff_toNat_lt, ← UInt8.toNat_inj, hn, UInt8.reduceToNat]

/-- **The bytes of a character are read back as the character.** -/
theorem nextChar_utf8 (c : Char) (rest : List UInt8) : nextChar (String.utf8EncodeChar c ++ rest) = (c, rest) := by
  have hvalid : c.val.toNat < 55296 ∨ 57343 < c.val.toNat ∧ c.val.toNat < 1114112 := c.valid
  have hc : Char.ofNat c.val.toNat = c := Char.ofNat_toNat c
  unfold String.utf8EncodeChar
  generalize c.val.toNat = v at hvalid hc
  subst hc
  dsimp only
  -- by the number of bytes, and for three and four by the range that the second one is held to
  split
  · rw [List.singleton_append, nextChar, opening?_ofNat (by omega), if_pos (by omega)]
    rfl
  · split
    · rw [List.cons_append, nextChar, opening?_ofNat (by omega), if_neg (by omega), if_neg (by omega), if_pos (by omega)]
      dsimp only [List.cons_append, List.nil_append]
      rw [complete_last _ _ (by omega)]
      exact congrArg (fun n => (Char.ofNat n, rest)) (by omega)
    · split
      · rw [List.cons_append, nextChar, opening?_ofNat (by omega), if_neg (by omega), if_neg (by omega), if_neg (by omega)]
        by_cases hlow : v < 4096
        · rw [if_pos (by omega)]
          dsimp only [List.cons_append, List.nil_append]
          rw [complete_follow _ _ _ (by omega) (by simp; omega) (by simp; omega), complete_last _ _ (by omega)]
          exact congrArg (fun n => (Char.ofNat n, rest)) (by omega)
        · rw [if_neg (by omega)]
          by_cases hsurrogate : v / 4096 = 13
          · rw [if_pos (by omega)]
            dsimp only [List.cons_append, List.nil_append]
            rw [complete_follow _ _ _ (by omega) (by simp) (by simp; omega), complete_last _ _ (by omega)]
            exact congrArg (fun n => (Char.ofNat n, rest)) (by omega)
          · rw [if_neg (by omega), if_pos (by omega)]
            dsimp only [List.cons_append, List.nil_append]
            rw [complete_follow _ _ _ (by omega) (by simp) (by simp; omega), complete_last _ _ (by omega)]
            exact congrArg (fun n => (Char.ofNat n, rest)) (by omega)
      · rw [List.cons_append, nextChar, opening?_ofNat (by omega), if_neg (by omega), if_neg (by omega), if_neg (by omega),
          if_neg (by omega), if_neg (by omega), if_neg (by omega)]
        by_cases hlow : v / 262144 = 0
        · rw [if_pos (by omega)]
          dsimp only [List.cons_append, List.nil_append]
          rw [complete_follow _ _ _ (by omega) (by simp; omega) (by simp; omega),
            complete_follow _ _ _ (by omega) (by simp) (by simp; omega), complete_last _ _ (by omega)]
          exact congrArg (fun n => (Char.ofNat n, rest)) (by omega)
        · rw [if_neg (by omega)]
          by_cases hhigh : v / 262144 = 4
          · rw [if_neg (by omega), if_pos (by omega)]
            dsimp only [List.cons_append, List.nil_append]
            rw [complete_follow _ _ _ (by omega) (by simp) (by simp; omega),
              complete_follow _ _ _ (by omega) (by simp) (by simp; omega), complete_last _ _ (by omega)]
            exact congrArg (fun n => (Char.ofNat n, rest)) (by omega)
          · rw [if_pos (by omega)]
            dsimp only [List.cons_append, List.nil_append]
            rw [complete_follow _ _ _ (by omega) (by simp) (by simp; omega),
              complete_follow _ _ _ (by omega) (by simp) (by simp; omega), complete_last _ _ (by omega)]
            exact congrArg (fun n => (Char.ofNat n, rest)) (by omega)

/-- **The UTF-8 bytes of characters are read back as the characters**, with fuel for each byte. -/
theorem decodeUtf8_utf8 : ∀ (cs : List Char) (fuel : Nat), cs.length ≤ fuel →
    decodeUtf8 fuel (cs.flatMap String.utf8EncodeChar) = cs
  | [], 0, _ => rfl
  | [], _ + 1, _ => rfl
  | _ :: _, 0, h => absurd h (Nat.not_succ_le_zero _)
  | c :: cs, fuel + 1, h => by
    have hnext := nextChar_utf8 c (cs.flatMap String.utf8EncodeChar)
    have hrest := decodeUtf8_utf8 cs fuel (Nat.le_of_succ_le_succ h)
    rw [List.flatMap_cons]
    cases hbytes : String.utf8EncodeChar c ++ cs.flatMap String.utf8EncodeChar with
    | nil => exact absurd (List.append_eq_nil_iff.1 hbytes).1 String.utf8EncodeChar_ne_nil
    | cons b bs =>
      rw [hbytes] at hnext
      rw [decodeUtf8, hnext, hrest]
      exact fun h => nomatch h

theorem length_le_utf8 : ∀ cs : List Char, cs.length ≤ (cs.flatMap String.utf8EncodeChar).length
  | [] => Nat.le_refl 0
  | c :: cs => by
    have hrest := length_le_utf8 cs
    have hpos := List.length_pos_iff.2 (String.utf8EncodeChar_ne_nil (c := c))
    rw [List.flatMap_cons, List.length_append, List.length_cons]
    omega

/-! ## Percent encoding -/

theorem hexValue?_upperHex : ∀ n < 16, hexValue? (upperHex n) = some n := by decide

/-- **An escaped byte is read back as the byte.** -/
theorem bytes_escapeByte (plus : Bool) (b : UInt8) (rest : List Char) :
    bytes plus (escapeByte b ++ rest) = b :: bytes plus rest := by
  have hb : b.toNat < 256 := b.toNat_lt
  have hhigh : hexValue? (upperHex (b.toNat / 16)) = some (b.toNat / 16) := hexValue?_upperHex _ (by omega)
  have hlow : hexValue? (upperHex (b.toNat % 16)) = some (b.toNat % 16) := hexValue?_upperHex _ (by omega)
  rw [escapeByte, List.cons_append, List.cons_append, List.cons_append, List.nil_append, bytes, hhigh, hlow]
  dsimp only
  rw [show b.toNat / 16 * 16 + b.toNat % 16 = b.toNat by omega]
  exact congrArg (· :: bytes plus rest) (UInt8.ofNat_toNat)

theorem bytes_escape (plus : Bool) : ∀ (bs : List UInt8) (rest : List Char),
    bytes plus (bs.flatMap escapeByte ++ rest) = bs ++ bytes plus rest
  | [], _ => rfl
  | b :: bs, rest => by
    rw [List.flatMap_cons, List.append_assoc, bytes_escapeByte, bytes_escape plus bs, List.cons_append]

theorem bytes_cons {plus : Bool} {c : Char} (hc : c ≠ '%') (rest : List Char) :
    bytes plus (c :: rest) = (if c = '+' && plus then [32] else c.toString.toUTF8.toList) ++ bytes plus rest := by
  rw [bytes]
  exact fun _ _ _ h => absurd h hc

/-- What stays as it is stands for itself. -/
theorem isUnreserved_ne {c : Char} (h : isUnreserved c = true) : c ≠ '%' ∧ c ≠ '+' := by
  constructor
  · rintro rfl
    exact absurd h (by decide)
  · rintro rfl
    exact absurd h (by decide)

theorem bytes_encodeChar (c : Char) (rest : List Char) :
    bytes true (encodeChar form c ++ rest) = String.utf8EncodeChar c ++ bytes true rest := by
  unfold encodeChar
  split
  · rename_i hblank
    rw [hblank.1, List.singleton_append, bytes_cons (by decide)]
    rfl
  · split
    · rename_i hkept
      obtain ⟨hpercent, hplus⟩ := isUnreserved_ne hkept
      rw [List.singleton_append, bytes_cons hpercent, if_neg (by simp [hplus]), toUTF8_toString]
    · rw [escapeChar, bytes_escape, toUTF8_toString]

theorem bytes_encode : ∀ cs : List Char,
    bytes true (cs.flatMap (encodeChar form)) = cs.flatMap String.utf8EncodeChar
  | [] => rfl
  | c :: cs => by rw [List.flatMap_cons, bytes_encodeChar, bytes_encode cs, List.flatMap_cons]

/-- **What is encoded for a form is decoded to the same text.** -/
theorem decode_encode (s : String) : decode true (encode form s) = s := by
  unfold decode encode
  dsimp only
  rw [String.toList_ofList, bytes_encode, decodeUtf8_utf8 _ _ (length_le_utf8 _), String.ofList_toList]

/-! ## Queries -/

theorem isUnreserved_upperHex : ∀ n < 16, isUnreserved (upperHex n) = true := by decide

/-- **What an encoded text consists of**: nothing that separates fields, or an address from its query. -/
theorem of_mem_encode {s : String} {c : Char} (h : c ∈ (encode form s).toList) :
    isUnreserved c = true ∨ c = '+' ∨ c = '%' := by
  unfold encode at h
  rw [String.toList_ofList] at h
  obtain ⟨d, -, hc⟩ := List.mem_flatMap.1 h
  unfold encodeChar at hc
  split at hc
  · exact .inr (.inl (List.mem_singleton.1 hc))
  · split at hc
    · rename_i hkept
      exact .inl (List.mem_singleton.1 hc ▸ hkept)
    · obtain ⟨b, -, hb⟩ := List.mem_flatMap.1 hc
      have hsize : b.toNat < 256 := b.toNat_lt
      simp only [escapeByte, List.mem_cons, List.not_mem_nil, or_false] at hb
      rcases hb with rfl | rfl | rfl
      · exact .inr (.inr rfl)
      · exact .inl (isUnreserved_upperHex _ (by omega))
      · exact .inl (isUnreserved_upperHex _ (by omega))

/-- **An encoded text holds no separator.** -/
theorem not_mem_encode (s : String) : '&' ∉ (encode form s).toList ∧ '=' ∉ (encode form s).toList := by
  constructor
  · intro h
    exact absurd (of_mem_encode h) (by decide)
  · intro h
    exact absurd (of_mem_encode h) (by decide)

/-- The characters of a written field. -/
def fieldChars (f : String × String) : List Char := (encode form f.1).toList ++ '=' :: (encode form f.2).toList

theorem not_mem_fieldChars (f : String × String) : '&' ∉ fieldChars f := by
  rw [fieldChars, List.mem_append, List.mem_cons, not_or, not_or]
  exact ⟨(not_mem_encode f.1).1, by decide, (not_mem_encode f.2).1⟩

theorem toList_query (fs : List (String × String)) :
    (query form fs).toList = ['&'].intercalate (fs.map fieldChars) := by
  rw [query, String.toList_intercalate, List.map_map]
  refine congrArg _ (List.map_congr_left fun f _ => ?_)
  rw [Function.comp_apply, String.toList_append, String.toList_append, List.append_assoc]
  rfl

/-- **A query ends nowhere before its end**: it holds no number sign. -/
theorem not_mem_query (fs : List (String × String)) : '#' ∉ (query form fs).toList := by
  have hpiece : ∀ p ∈ fs.map fieldChars, '#' ∉ p := by
    intro p hp h
    obtain ⟨f, -, rfl⟩ := List.mem_map.1 hp
    rw [fieldChars, List.mem_append, List.mem_cons] at h
    rcases h with h | h | h
    · exact absurd (of_mem_encode h) (by decide)
    · exact absurd h (by decide)
    · exact absurd (of_mem_encode h) (by decide)
  rw [toList_query]
  exact not_mem_intercalate (by decide) hpiece

/-- **The fields of a query are read back as they were written.** -/
theorem fields_query (fs : List (String × String)) : fields (query form fs) = fs := by
  cases fs with
  | nil => rfl
  | cons f fs =>
    have hpieces : ∀ p ∈ (f :: fs).map fieldChars, '&' ∉ p := fun p hp => by
      obtain ⟨g, -, rfl⟩ := List.mem_map.1 hp
      exact not_mem_fieldChars g
    have hkept : ∀ p ∈ (f :: fs).map fieldChars, (!p.isEmpty) = true := fun p hp => by
      obtain ⟨g, -, rfl⟩ := List.mem_map.1 hp
      simp [fieldChars]
    have hsome : (f :: fs).map fieldChars ≠ [] := List.cons_ne_nil _ _
    rw [fields, toList_query, splitOn_intercalate hsome hpieces, List.filter_eq_self.2 hkept, List.map_map]
    refine (List.map_congr_left fun g _ => ?_).trans (List.map_id _)
    rw [Function.comp_apply, fieldChars, splitFirst_append _ (not_mem_encode g.1).2]
    dsimp only [Option.getD_some]
    rw [String.ofList_toList, String.ofList_toList, decode_encode, decode_encode]
    rfl

end Switchboard.Text.Percent
