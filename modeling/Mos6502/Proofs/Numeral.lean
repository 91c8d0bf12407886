import Mathlib.Data.List.Basic
import Mathlib.Tactic.Ring
import Mathlib.Tactic.SplitIfs
import Mos6502.Hex
import Mos6502.Word

/-!
Hexadecimal numerals as a grammar: one of some marks, then one digit at least and a given number of
digits at most (`Hex.IsNumeral`). A digit is a character that stands for one, in letters of either
case (`Hex.isDigit_iff`). Digits say no more than a number of their length (`Hex.value_lt`),
dropping a mark leaves a numeral without one (`Hex.isNumeral_radix_iff`,
`Hex.isNumeral_optionalDollar_iff`), and what is written of a byte or an address is a numeral of its
value (`Hex.isNumeral_byte`, `Hex.isNumeral_word`).
-/

set_option autoImplicit false
set_option relaxedAutoImplicit false

namespace Mos6502.Hex

/-- Whether a text is a numeral of a number: a mark, then one digit at least and some at most. -/
def IsNumeral (marks : List Text) (most : Nat) (text : Text) (number : Nat) : Prop :=
  ∃ mark ∈ marks, ∃ digits, text = mark ++ digits ∧ 1 ≤ digits.length ∧ digits.length ≤ most ∧
    (∀ character ∈ digits, isDigit character = true) ∧ number = value digits

/-- A numeral stays one if more marks are allowed. -/
theorem IsNumeral.mono {marks more : List Text} {most : Nat} {text : Text} {number : Nat}
    (hnumeral : IsNumeral marks most text number) (hmore : marks ⊆ more) :
    IsNumeral more most text number := by
  obtain ⟨mark, hmark, hdigits⟩ := hnumeral
  exact ⟨mark, hmore hmark, hdigits⟩

/-! ### Digits and values -/

/-- Whether a character stands for a digit, in letters of either case. -/
def StandsFor (character : Char) (digit : Fin 16) : Prop :=
  character = Nat.digitChar digit ∨ character = (Nat.digitChar digit).toUpper

theorem toNat_digitChar : ∀ digit : Fin 16,
    digit.val < 10 ∧ (Nat.digitChar digit).toNat = digit.val + '0'.toNat ∨
      10 ≤ digit.val ∧ (Nat.digitChar digit).toNat + 10 = digit.val + 'a'.toNat := by
  decide

theorem toNat_toUpper_digitChar : ∀ digit : Fin 16,
    digit.val < 10 ∧ (Nat.digitChar digit).toUpper.toNat = digit.val + '0'.toNat ∨
      10 ≤ digit.val ∧ (Nat.digitChar digit).toUpper.toNat + 10 = digit.val + 'A'.toNat := by
  decide

theorem digitValue?_toUpper_digitChar : ∀ digit : Fin 16,
    digitValue? (Nat.digitChar digit).toUpper = some digit.val := by
  decide

/-- The value of a character is the digit that it stands for. -/
theorem digitValue?_eq_some_iff {character : Char} {number : Nat} :
    digitValue? character = some number ↔
      ∃ digit : Fin 16, StandsFor character digit ∧ digit.val = number := by
  constructor
  · intro hvalue
    have hbound {low high : Char} (h : low ≤ character ∧ character ≤ high) :
        low.toNat ≤ character.toNat ∧ character.toNat ≤ high.toNat := h
    -- Each of the three ranges bounds the number, and then the digits are compared by their codes.
    unfold digitValue? at hvalue
    split_ifs at hvalue with h h h
    all_goals
      have hrange := hbound h
      simp only [Option.some.injEq, Char.reduceToNat] at hvalue hrange
      obtain ⟨digit, rfl⟩ : ∃ digit : Fin 16, digit.val = number := ⟨⟨number, by omega⟩, rfl⟩
      have hlower := toNat_digitChar digit
      have hupper := toNat_toUpper_digitChar digit
      simp only [Char.reduceToNat] at hlower hupper
      refine ⟨digit, ?_, rfl⟩
      rw [StandsFor, ← Char.toNat_inj, ← Char.toNat_inj]
      omega
  · rintro ⟨digit, rfl | rfl, rfl⟩
    · exact digitValue?_digitChar digit
    · exact digitValue?_toUpper_digitChar digit

theorem isDigit_iff {character : Char} :
    isDigit character = true ↔ ∃ digit, StandsFor character digit := by
  simp [isDigit, Option.isSome_iff_exists, digitValue?_eq_some_iff]

theorem digitValue_lt (character : Char) : (digitValue? character).getD 0 < 16 := by
  cases hvalue : digitValue? character with
  | none => exact Nat.zero_lt_succ 15
  | some number =>
    obtain ⟨digit, -, rfl⟩ := digitValue?_eq_some_iff.mp hvalue
    exact digit.isLt

theorem isBlank_of_isDigit {character : Char} (hdigit : isDigit character = true) :
    Text.isBlank character = false := by
  obtain ⟨digit, rfl | rfl⟩ := isDigit_iff.mp hdigit
  · revert digit
    decide
  · revert digit
    decide

/-- The digits so far count sixteen times for each digit that follows. -/
theorem value_append (first second : Text) :
    value (first ++ second) = value first * 16 ^ second.length + value second := by
  have hfold (digits : Text) (total : Nat) :
      digits.foldl (fun total character ↦ 16 * total + (digitValue? character).getD 0) total =
        total * 16 ^ digits.length + value digits := by
    unfold value
    induction digits generalizing total with
    | nil => simp
    | cons character digits ih =>
      rw [List.foldl_cons, ih, List.foldl_cons, ih (16 * 0 + _), List.length_cons]
      ring
  unfold value
  rw [List.foldl_append, hfold]
  rfl

/-- A number of digits says no more than a number with as many digits. -/
theorem value_lt (digits : Text) : value digits < 16 ^ digits.length := by
  induction digits with
  | nil => exact Nat.zero_lt_one
  | cons character digits ih =>
    have hdigit : value [character] ≤ 15 := by
      have := digitValue_lt character
      simpa [value] using Nat.le_of_lt_succ this
    rw [← List.singleton_append, value_append, List.length_append, List.length_singleton]
    calc value [character] * 16 ^ digits.length + value digits
        < 15 * 16 ^ digits.length + 16 ^ digits.length :=
          Nat.add_lt_add_of_le_of_lt (Nat.mul_le_mul_right _ hdigit) ih
      _ = 16 ^ (1 + digits.length) := by ring

/-! ### Marks -/

theorem isNumeral_plain_iff {most : Nat} {text : Text} {number : Nat} :
    IsNumeral [[]] most text number ↔
      1 ≤ text.length ∧ text.length ≤ most ∧ (∀ character ∈ text, isDigit character = true) ∧
        number = value text := by
  simp [IsNumeral]

/-- Digits have no radix mark in front, since the second character of a mark is no digit. -/
theorem dropRadixMark_of_digits {digits : Text}
    (hdigits : ∀ character ∈ digits, isDigit character = true) : dropRadixMark digits = digits := by
  unfold dropRadixMark
  split
  · exact absurd (hdigits 'x' (by simp)) (by decide)
  · exact absurd (hdigits 'X' (by simp)) (by decide)
  · rfl

/-- Where a mark is dropped something follows it. -/
theorem dropRadixMark_eq_or (text : Text) :
    dropRadixMark text = text ∨
      ∃ mark ∈ ["0x".toList, "0X".toList], text = mark ++ dropRadixMark text := by
  unfold dropRadixMark
  split
  · exact .inr ⟨_, List.mem_cons_self, rfl⟩
  · exact .inr ⟨_, List.mem_cons_of_mem _ List.mem_cons_self, rfl⟩
  · exact .inl rfl

theorem dropRadixMark_eq_nil_iff (text : Text) : dropRadixMark text = [] ↔ text = [] := by
  unfold dropRadixMark
  split <;> simp

theorem dropRadixMark_mark_append {mark digits : Text} (hmark : mark ∈ ["0x".toList, "0X".toList])
    (hdigits : 1 ≤ digits.length) : dropRadixMark (mark ++ digits) = digits := by
  cases digits with
  | nil => cases hdigits
  | cons digit rest =>
    rcases List.mem_pair.mp hmark with rfl | rfl
    · rfl
    · rfl

/-- A numeral with an optional radix mark is a numeral once the mark is dropped. -/
theorem isNumeral_radix_iff {most : Nat} {text : Text} {number : Nat} :
    IsNumeral [[], "0x".toList, "0X".toList] most text number ↔
      IsNumeral [[]] most (dropRadixMark text) number := by
  rw [isNumeral_plain_iff]
  constructor
  · rintro ⟨mark, hmark, digits, rfl, hsome, hmost, hdigits, hvalue⟩
    have hdropped : dropRadixMark (mark ++ digits) = digits := by
      rcases List.mem_cons.mp hmark with rfl | hradix
      · exact dropRadixMark_of_digits hdigits
      · exact dropRadixMark_mark_append hradix hsome
    rw [hdropped]
    exact ⟨hsome, hmost, hdigits, hvalue⟩
  · intro hnumeral
    rcases dropRadixMark_eq_or text with hsame | ⟨mark, hmark, hsplit⟩
    · exact ⟨[], List.mem_cons_self, _, hsame.symm, hnumeral⟩
    · exact ⟨mark, List.mem_cons_of_mem _ hmark, _, hsplit, hnumeral⟩

/-- Where a dollar sign is dropped, it stands in front of what is left. -/
theorem dropDollar_eq_or (text : Text) :
    dropDollar text = text ∨ text = '$' :: dropDollar text := by
  unfold dropDollar
  split
  · exact .inr rfl
  · exact .inl rfl

theorem dropDollar_of_notMem {text : Text} (hnone : '$' ∉ text) : dropDollar text = text := by
  unfold dropDollar
  split
  · exact absurd List.mem_cons_self hnone
  · rfl

/-- A numeral has no dollar sign but for one in its mark. -/
theorem IsNumeral.dollar_notMem {marks : List Text} {most : Nat} {text : Text} {number : Nat}
    (hnumeral : IsNumeral marks most text number) (hmarks : ∀ mark ∈ marks, '$' ∉ mark) :
    '$' ∉ text := by
  obtain ⟨mark, hmark, digits, rfl, -, -, hdigits, -⟩ := hnumeral
  intro hmem
  rcases List.mem_append.mp hmem with hmem | hmem
  · exact hmarks mark hmark hmem
  · exact absurd (hdigits '$' hmem) (by decide)

/-- If a dollar sign may stand in front of each mark, a numeral is one with such a mark once the
sign is dropped. -/
theorem isNumeral_optionalDollar_iff (marks : List Text) (hmarks : ∀ mark ∈ marks, '$' ∉ mark)
    {most : Nat} {text : Text} {number : Nat} :
    IsNumeral (marks ++ marks.map ('$' :: ·)) most text number ↔
      IsNumeral marks most (dropDollar text) number := by
  constructor
  · rintro ⟨mark, hmark, digits, rfl, hdigits⟩
    rcases List.mem_append.mp hmark with hplain | hdollar
    · have hnumeral : IsNumeral marks most (mark ++ digits) number :=
        ⟨mark, hplain, digits, rfl, hdigits⟩
      rwa [dropDollar_of_notMem (hnumeral.dollar_notMem hmarks)]
    · obtain ⟨plain, hplain, rfl⟩ := List.mem_map.mp hdollar
      exact ⟨plain, hplain, digits, rfl, hdigits⟩
  · rintro ⟨mark, hmark, digits, hsplit, hdigits⟩
    rcases dropDollar_eq_or text with hsame | hdollar
    · exact ⟨mark, List.mem_append_left _ hmark, digits, hsame ▸ hsplit, hdigits⟩
    · refine ⟨'$' :: mark, List.mem_append_right _ (List.mem_map_of_mem hmark), digits, ?_, hdigits⟩
      rw [hdollar, hsplit]
      rfl

/-- A numeral with an optional dollar sign is a numeral once the sign is dropped. -/
theorem isNumeral_dollar_iff {most : Nat} {text : Text} {number : Nat} :
    IsNumeral [[], ['$']] most text number ↔ IsNumeral [[]] most (dropDollar text) number :=
  isNumeral_optionalDollar_iff [[]] (by simp)

theorem dropDollar_sublist (text : Text) : (dropDollar text).Sublist text := by
  unfold dropDollar
  split
  · exact List.sublist_cons_self _ _
  · exact List.Sublist.refl _

/-- The test for addresses accepts the numerals of one to four digits, which say an address. -/
theorem isAddress_iff {digits : Text} :
    isAddress digits = true ↔
      IsNumeral [[]] 4 digits (UInt16.ofNat (value digits)).toNat := by
  have hvalue (hlength : digits.length ≤ 4) :
      (UInt16.ofNat (value digits)).toNat = value digits := by
    have hpow : 16 ^ digits.length ≤ 16 ^ 4 := Nat.pow_le_pow_right (by decide) hlength
    have hlt := value_lt digits
    rw [UInt16.toNat_ofNat']
    omega
  rw [isNumeral_plain_iff]
  simp only [isAddress, Bool.and_eq_true, decide_eq_true_eq, List.all_eq_true, and_assoc]
  constructor
  · rintro ⟨hsome, hmost, hdigits⟩
    exact ⟨hsome, hmost, hdigits, hvalue hmost⟩
  · rintro ⟨hsome, hmost, hdigits, -⟩
    exact ⟨hsome, hmost, hdigits⟩

/-- A plain numeral of an address passes the test and has the address for its value. -/
theorem isNumeral_address_iff {digits : Text} {address : UInt16} :
    IsNumeral [[]] 4 digits address.toNat ↔
      isAddress digits = true ∧ address = UInt16.ofNat (value digits) := by
  constructor
  · intro hnumeral
    have haddress : address = UInt16.ofNat (value digits) := by
      rw [← (isNumeral_plain_iff.mp hnumeral).2.2.2, UInt16.ofNat_toNat]
    exact ⟨isAddress_iff.mpr (haddress ▸ hnumeral), haddress⟩
  · rintro ⟨haccepted, rfl⟩
    exact isAddress_iff.mp haccepted

/-! ### What is written -/

/-- The digits of a byte are a numeral of it. -/
theorem isNumeral_byte (byte : UInt8) : IsNumeral [[]] 2 (Hex.byte byte) byte.toNat := by
  obtain ⟨high, low, hbyte, hvalue⟩ := exists_byte_eq byte
  rw [hbyte, hvalue]
  refine isNumeral_plain_iff.mpr ⟨Nat.le_succ 1, Nat.le_refl 2, ?_, ?_⟩
  · intro character hcharacter
    rcases List.mem_pair.mp hcharacter with rfl | rfl
    · exact isDigit_iff.mpr ⟨high, .inl rfl⟩
    · exact isDigit_iff.mpr ⟨low, .inl rfl⟩
  · simp only [value, List.foldl_cons, List.foldl_nil, digitValue?_digitChar, Option.getD_some]
    omega

/-- Numerals without a mark make up a longer one. -/
theorem IsNumeral.append {most more : Nat} {first second : Text} {high low : Nat}
    (hfirst : IsNumeral [[]] most first high) (hsecond : IsNumeral [[]] more second low) :
    IsNumeral [[]] (most + more) (first ++ second) (high * 16 ^ second.length + low) := by
  rw [isNumeral_plain_iff] at *
  obtain ⟨hsome, hmost, hdigits, rfl⟩ := hfirst
  obtain ⟨-, hmore, hothers, rfl⟩ := hsecond
  refine ⟨?_, ?_, ?_, (value_append first second).symm⟩
  · rw [List.length_append]
    omega
  · rw [List.length_append]
    omega
  · intro character hcharacter
    exact (List.mem_append.mp hcharacter).elim (hdigits character) (hothers character)

/-- The digits of an address are a numeral of it. -/
theorem isNumeral_word (address : UInt16) : IsNumeral [[]] 4 (Hex.word address) address.toNat := by
  have hnumeral := (isNumeral_byte (highByte address)).append (isNumeral_byte (lowByte address))
  have hvalue : (highByte address).toNat * 16 ^ (Hex.byte (lowByte address)).length +
      (lowByte address).toNat = address.toNat := by
    rw [toNat_highByte, toNat_lowByte]
    exact Nat.div_add_mod' address.toNat 256
  rwa [hvalue] at hnumeral

theorem isDigit_of_mem_byte {byte : UInt8} {character : Char} (hmem : character ∈ Hex.byte byte) :
    isDigit character = true :=
  (isNumeral_plain_iff.mp (isNumeral_byte byte)).2.2.1 character hmem

theorem isDigit_of_mem_word {address : UInt16} {character : Char}
    (hmem : character ∈ Hex.word address) : isDigit character = true :=
  (isNumeral_plain_iff.mp (isNumeral_word address)).2.2.1 character hmem

end Mos6502.Hex
