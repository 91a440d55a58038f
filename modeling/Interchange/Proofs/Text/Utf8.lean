import Interchange.Text.Utf8

/-!
# Reading UTF-8 back

The bytes of a text are read as the text (`decodeLossy_utf8`): no byte of it is replaced. Texts are
in the order of their bytes (`utf8_lt_utf8`).
-/

namespace Interchange.Text

theorem utf8_eq (s : String) : utf8 s = s.toList.flatMap String.utf8EncodeChar := by
  rw [utf8, String.toUTF8_eq_toByteArray, ← String.utf8Encode_toList, List.utf8Encode,
    List.data_toByteArray]

theorem byte_toNat {n : Nat} (small : n < 256) : (UInt8.ofNat n).toNat = n :=
  UInt8.toNat_ofNat_of_lt' small

/-- A byte that is in range gives its bits. -/
theorem takeFollowing_cons {low high bits n : Nat} {ranges : List (Nat × Nat)} {rest : List UInt8}
    (inside : low ≤ n ∧ n ≤ high) (small : n < 256) :
    takeFollowing ((low, high) :: ranges) bits (UInt8.ofNat n :: rest) =
      takeFollowing ranges (bits * 64 + n % 64) rest := by
  have byte : (UInt8.ofNat n).toNat = n := byte_toNat small
  rw [takeFollowing, byteIn, byte, decide_eq_true inside.1, decide_eq_true inside.2]
  rfl

/-- The first byte of a longer character fixes the ranges of the others. -/
theorem decodeLossyChars_lead {lead bits code fuel : Nat} {ranges : List (Nat × Nat)}
    {following rest : List UInt8} (long : 0x80 ≤ lead) (small : lead < 256)
    (isLead : leadByte? (UInt8.ofNat lead) = some (ranges, bits))
    (taken : takeFollowing ranges bits following = (true, code, rest)) :
    decodeLossyChars (fuel + 1) (UInt8.ofNat lead :: following) =
      Char.ofNat code :: decodeLossyChars fuel rest := by
  have byte : (UInt8.ofNat lead).toNat = lead := byte_toNat small
  rw [decodeLossyChars, byte, if_neg (by omega), isLead]
  simp only [taken]

/-- Two bytes: one follows the first. -/
theorem leadByte?_two {n : Nat} (inside : 0xC2 ≤ n ∧ n ≤ 0xDF) :
    leadByte? (UInt8.ofNat n) = some ([(0x80, 0xBF)], n % 32) := by
  have byte : (UInt8.ofNat n).toNat = n := byte_toNat (by omega)
  rw [leadByte?, byte]
  exact if_pos inside

/-- Three bytes: the second is such that no shorter form and no surrogate is read. -/
theorem leadByte?_three {n : Nat} (inside : 0xE0 ≤ n ∧ n ≤ 0xEF) :
    ∃ low high, leadByte? (UInt8.ofNat n) = some ([(low, high), (0x80, 0xBF)], n % 16) ∧
      ∀ m < 64, (n = 0xE0 → 0x20 ≤ m) → (n = 0xED → m < 0x20) →
        low ≤ m + 0x80 ∧ m + 0x80 ≤ high := by
  have byte : (UInt8.ofNat n).toNat = n := byte_toNat (by omega)
  simp only [leadByte?, byte]
  rw [if_neg (by omega)]
  by_cases least : n = 0xE0
  · exact ⟨0xA0, 0xBF, by simp [least], fun m small above _ => by omega⟩
  by_cases surrogate : n = 0xED
  · exact ⟨0x80, 0x9F, by simp [surrogate], fun m small _ below => by omega⟩
  · rw [if_neg least, if_neg surrogate, if_pos (by omega)]
    exact ⟨0x80, 0xBF, rfl, fun m small _ _ => by omega⟩

/-- Four bytes: the second is such that no shorter form is read and nothing beyond the last
character. -/
theorem leadByte?_four {n : Nat} (inside : 0xF0 ≤ n ∧ n ≤ 0xF4) :
    ∃ low high, leadByte? (UInt8.ofNat n) =
        some ([(low, high), (0x80, 0xBF), (0x80, 0xBF)], n % 8) ∧
      ∀ m < 64, (n = 0xF0 → 0x10 ≤ m) → (n = 0xF4 → m < 0x10) →
        low ≤ m + 0x80 ∧ m + 0x80 ≤ high := by
  have byte : (UInt8.ofNat n).toNat = n := byte_toNat (by omega)
  simp only [leadByte?, byte]
  rw [if_neg (by omega), if_neg (by omega), if_neg (by omega), if_neg (by omega)]
  by_cases least : n = 0xF0
  · exact ⟨0x90, 0xBF, by simp [least], fun m small above _ => by omega⟩
  by_cases greatest : n = 0xF4
  · exact ⟨0x80, 0x8F, by simp [greatest], fun m small _ below => by omega⟩
  · rw [if_neg least, if_neg greatest, if_pos (by omega)]
    exact ⟨0x80, 0xBF, rfl, fun m small _ _ => by omega⟩

/-- A character is read from its bytes. -/
theorem decodeLossyChars_utf8EncodeChar (c : Char) (rest : List UInt8) (fuel : Nat) :
    decodeLossyChars (fuel + 1) (String.utf8EncodeChar c ++ rest) =
      c :: decodeLossyChars fuel rest := by
  have valid : c.toNat < 0xD800 ∨ 0xDFFF < c.toNat ∧ c.toNat < 0x110000 := c.valid
  have back : Char.ofNat c.toNat = c := Char.ofNat_toNat c
  have following (n : Nat) : 0x80 ≤ n % 64 + 0x80 ∧ n % 64 + 0x80 ≤ 0xBF := by omega
  fun_cases String.utf8EncodeChar c with
  | case1 v one =>
    change c.toNat ≤ 127 at one
    have byte : (UInt8.ofNat c.toNat).toNat = c.toNat := byte_toNat (by omega)
    change decodeLossyChars _ (UInt8.ofNat c.toNat :: rest) = _
    rw [decodeLossyChars, byte, if_pos (by omega), back]
  | case2 v more two =>
    change ¬ c.toNat ≤ 127 at more
    change c.toNat ≤ 2047 at two
    change decodeLossyChars _ (UInt8.ofNat (c.toNat / 64 % 32 + 192) ::
      UInt8.ofNat (c.toNat % 64 + 128) :: rest) = _
    have taken : takeFollowing [(0x80, 0xBF)] ((c.toNat / 64 % 32 + 192) % 32)
        (UInt8.ofNat (c.toNat % 64 + 128) :: rest) = (true, c.toNat, rest) := by
      rw [takeFollowing_cons (following _) (by omega), takeFollowing]
      congr
      omega
    rw [decodeLossyChars_lead (by omega) (by omega) (leadByte?_two (by omega)) taken, back]
  | case3 v _ more three =>
    change ¬ c.toNat ≤ 2047 at more
    change c.toNat ≤ 65535 at three
    change decodeLossyChars _ (UInt8.ofNat (c.toNat / 4096 % 16 + 224) ::
      UInt8.ofNat (c.toNat / 64 % 64 + 128) :: UInt8.ofNat (c.toNat % 64 + 128) :: rest) = _
    obtain ⟨low, high, isLead, second⟩ :=
      leadByte?_three (n := c.toNat / 4096 % 16 + 224) (by omega)
    have taken : takeFollowing [(low, high), (0x80, 0xBF)] ((c.toNat / 4096 % 16 + 224) % 16)
        (UInt8.ofNat (c.toNat / 64 % 64 + 128) :: UInt8.ofNat (c.toNat % 64 + 128) :: rest) =
          (true, c.toNat, rest) := by
      rw [takeFollowing_cons (second _ (by omega) (by omega) (by omega)) (by omega),
        takeFollowing_cons (following _) (by omega), takeFollowing]
      congr
      omega
    rw [decodeLossyChars_lead (by omega) (by omega) isLead taken, back]
  | case4 v _ _ more =>
    change ¬ c.toNat ≤ 65535 at more
    change decodeLossyChars _ (UInt8.ofNat (c.toNat / 262144 % 8 + 240) ::
      UInt8.ofNat (c.toNat / 4096 % 64 + 128) :: UInt8.ofNat (c.toNat / 64 % 64 + 128) ::
        UInt8.ofNat (c.toNat % 64 + 128) :: rest) = _
    obtain ⟨low, high, isLead, second⟩ :=
      leadByte?_four (n := c.toNat / 262144 % 8 + 240) (by omega)
    have taken : takeFollowing [(low, high), (0x80, 0xBF), (0x80, 0xBF)]
        ((c.toNat / 262144 % 8 + 240) % 8) (UInt8.ofNat (c.toNat / 4096 % 64 + 128) ::
          UInt8.ofNat (c.toNat / 64 % 64 + 128) :: UInt8.ofNat (c.toNat % 64 + 128) :: rest) =
            (true, c.toNat, rest) := by
      rw [takeFollowing_cons (second _ (by omega) (by omega) (by omega)) (by omega),
        takeFollowing_cons (following _) (by omega), takeFollowing_cons (following _) (by omega),
        takeFollowing]
      congr
      omega
    rw [decodeLossyChars_lead (by omega) (by omega) isLead taken, back]

/-- The bytes of a text are read as the text. -/
theorem decodeLossy_utf8 (s : String) : decodeLossy (utf8 s) = s := by
  suffices ∀ (cs : List Char) (fuel : Nat), (cs.flatMap String.utf8EncodeChar).length ≤ fuel →
      decodeLossyChars fuel (cs.flatMap String.utf8EncodeChar) = cs by
    rw [decodeLossy, utf8_eq, this _ _ (Nat.le_refl _), String.ofList_toList]
  intro cs
  induction cs with
  | nil =>
    intro fuel _
    cases fuel <;> rfl
  | cons c cs ih =>
    intro fuel enough
    have some : 0 < (String.utf8EncodeChar c).length := by
      rw [String.length_utf8EncodeChar]
      exact Char.utf8Size_pos c
    rw [List.flatMap_cons, List.length_append] at enough
    obtain ⟨fuel, rfl⟩ := Nat.exists_eq_succ_of_ne_zero (n := fuel) (by omega)
    rw [List.flatMap_cons, decodeLossyChars_utf8EncodeChar, ih fuel (by omega)]

/-! ## The order of texts -/

/-- Two byte sequences are in order when their first bytes are, or these are equal and the rest is. -/
theorem ofNat_cons_lt {m n : Nat} {as bs : List UInt8} (small : n < 256) (first : m ≤ n)
    (rest : m = n → as < bs) : UInt8.ofNat m :: as < UInt8.ofNat n :: bs := by
  refine List.cons_lt_cons_iff.2 ?_
  rcases Nat.lt_or_eq_of_le first with below | same
  · refine .inl (UInt8.lt_iff_toNat_lt.2 ?_)
    rwa [byte_toNat small, byte_toNat (Nat.lt_trans below small)]
  · exact .inr ⟨congrArg _ same, rest same⟩

/-- The bytes of a lesser character are lesser, whatever comes behind them. -/
theorem utf8EncodeChar_lt {c d : Char} (below : c < d) (as bs : List UInt8) :
    String.utf8EncodeChar c ++ as < String.utf8EncodeChar d ++ bs := by
  have below : c.val.toNat < d.val.toNat := UInt32.lt_iff_toNat_lt.1 below
  have valid : d.val.toNat < 0x110000 := by
    have := d.valid
    change d.val.toNat < 0xD800 ∨ 0xDFFF < d.val.toNat ∧ d.val.toNat < 0x110000 at this
    omega
  have apart {m n : Nat} {as bs : List UInt8} (small : n < 256) (below : m < n) :
      UInt8.ofNat m :: as < UInt8.ofNat n :: bs :=
    ofNat_cons_lt small (Nat.le_of_lt below) fun same => absurd same (Nat.ne_of_lt below)
  fun_cases String.utf8EncodeChar c <;> fun_cases String.utf8EncodeChar d
  case case2.case2 =>
    exact ofNat_cons_lt (by omega) (by omega) fun _ => apart (by omega) (by omega)
  case case3.case3 =>
    exact ofNat_cons_lt (by omega) (by omega) fun _ => ofNat_cons_lt (by omega) (by omega) fun _ =>
      apart (by omega) (by omega)
  case case4.case4 =>
    exact ofNat_cons_lt (by omega) (by omega) fun _ => ofNat_cons_lt (by omega) (by omega) fun _ =>
      ofNat_cons_lt (by omega) (by omega) fun _ => apart (by omega) (by omega)
  -- Any others differ in their first byte, or they are not in order.
  all_goals exact apart (by omega) (by omega)

/-- Texts are in the order of their bytes. -/
theorem utf8_lt_utf8 {s t : String} (below : s < t) : utf8 s < utf8 t := by
  rw [utf8_eq, utf8_eq]
  change s.toList < t.toList at below
  generalize s.toList = cs at below
  generalize t.toList = ds at below
  induction cs generalizing ds with
  | nil =>
    obtain _ | ⟨d, ds⟩ := ds
    · exact absurd below (List.lt_irrefl _)
    · obtain ⟨byte, bytes, encoded⟩ :=
        List.exists_cons_of_ne_nil (String.utf8EncodeChar_ne_nil (c := d))
      rw [List.flatMap_cons, encoded]
      exact List.nil_lt_cons _ _
  | cons c cs ih =>
    obtain _ | ⟨d, ds⟩ := ds
    · exact absurd below (List.not_lt_nil _)
    · rw [List.flatMap_cons, List.flatMap_cons]
      rcases List.cons_lt_cons_iff.1 below with first | ⟨rfl, rest⟩
      · exact utf8EncodeChar_lt first _ _
      · exact List.append_left_lt (ih ds rest)

end Interchange.Text
