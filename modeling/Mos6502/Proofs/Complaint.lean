import Mos6502.Image

/-!
What readers write to the diagnostics. A complaint is one line: a line feed ends it, and there is
none before unless a text that the complaint quotes has one (`ReadError.newline_notMem_describe`).
An error that was met on a line gives its number (`ReadError.namesLine_describe`).
-/

set_option autoImplicit false
set_option relaxedAutoImplicit false

namespace Mos6502

/-- What a reader writes to the diagnostics. -/
def Reading.diagnostics {α : Type} (format : FileFormat) (reading : Reading α) : Text :=
  reading.error.elim [] (ReadError.message format)

/-! ### Numbers -/

/-- A numeral has nothing but the characters for digits. -/
theorem newline_notMem_toDigits {base : Nat} (hbase : 1 < base) (number : Nat) :
    '\n' ∉ Nat.toDigits base number := by
  have hdigit (digit : Nat) : '\n' ≠ Nat.digitChar digit := (Nat.digitChar_ne '\n' rfl).symm
  induction number using Nat.strongRecOn with
  | ind number ih =>
    rw [Nat.toDigits_eq_if hbase]
    by_cases hsmall : number < base
    · rw [if_pos hsmall, List.mem_singleton]
      exact hdigit number
    · rw [if_neg hsmall, List.mem_append, List.mem_singleton, not_or]
      exact ⟨ih (number / base) (Nat.div_lt_self (by omega) hbase), hdigit (number % base)⟩

theorem newline_notMem_decimal (number : Nat) : '\n' ∉ decimal number :=
  newline_notMem_toDigits (by decide) number

theorem newline_notMem_byte (byte : UInt8) : '\n' ∉ Hex.byte byte := by
  rw [Hex.byte, List.mem_cons, List.mem_singleton, not_or]
  exact ⟨(Nat.digitChar_ne '\n' rfl).symm, (Nat.digitChar_ne '\n' rfl).symm⟩

theorem newline_notMem_word (address : UInt16) : '\n' ∉ Hex.word address := fun hmem ↦
  (List.mem_append.mp hmem).elim (newline_notMem_byte _) (newline_notMem_byte _)

theorem newline_notMem_numeral (number : Nat) : '\n' ∉ Hex.numeral number := by
  rw [Hex.numeral, List.leftpad, List.mem_append, not_or]
  refine ⟨fun hzero ↦ ?_, newline_notMem_toDigits (by decide) number⟩
  exact absurd (List.eq_of_mem_replicate hzero) (by decide)

/-- Whether a text gives the number of a line: the number stands behind that word, and no further
digit behind the number. -/
def NamesLine (text : Text) (number : Nat) : Prop :=
  ∃ front back, text = front ++ "line ".toList ++ decimal number ++ back ∧
    ∀ character ∈ back.head?, character.isDigit = false

/-- The number of a line may stand at the end. -/
theorem namesLine_at_end (front : Text) (number : Nat) :
    NamesLine (front ++ "line ".toList ++ decimal number) number :=
  ⟨front, [], (List.append_nil _).symm, fun _ hnone ↦ by cases hnone⟩

namespace ReadError

/-- The number of the line on which an error was met. -/
def line? : ReadError → Option Nat
  | .badToken line _ | .missingColon line | .badAddress line _ | .notContiguous line _ _
  | .pastEnd line => some line
  | .cannotOpen _ | .unknownSize _ | .shortRead _ _ _ | .noBytes => none

/-- The text that an error quotes. -/
def quoted? : ReadError → Option Text
  | .cannotOpen text | .unknownSize text | .shortRead text _ _ | .badToken _ (.notHex text)
  | .badToken _ (.outOfRange text) | .badAddress _ text => some text
  | .missingColon _ | .notContiguous _ _ _ | .pastEnd _ | .noBytes => none

/-- An error that was met on a line gives its number. -/
theorem namesLine_describe {error : ReadError} {number : Nat} (hline : error.line? = some number) :
    NamesLine error.describe number := by
  cases error with
  | badToken line fault =>
    cases hline
    change NamesLine (fault.describe ++ (" at ".toList ++ "line ".toList) ++ decimal number) number
    rw [← List.append_assoc]
    exact namesLine_at_end _ number
  | missingColon line =>
    cases hline
    have hsplit : "missing ':' after address at line ".toList =
      "missing ':' after address at ".toList ++ "line ".toList := by decide
    change NamesLine ("missing ':' after address at line ".toList ++ decimal number) number
    rw [hsplit]
    exact namesLine_at_end _ number
  | badAddress line address =>
    cases hline
    change NamesLine ("bad address ".toList ++ quoted address ++
      (" at ".toList ++ "line ".toList) ++ decimal number) number
    rw [← List.append_assoc]
    exact namesLine_at_end _ number
  | notContiguous line start expected =>
    cases hline
    refine ⟨[], " starts at ".toList ++ Hex.numeral start ++ ", expected ".toList ++
      Hex.numeral expected ++ " (dump must be contiguous)".toList, ?_, ?_⟩
    · unfold describe
      simp only [List.append_assoc, List.nil_append]
    · intro character hcharacter
      cases hcharacter
      rfl
  | pastEnd line =>
    cases hline
    have hsplit : "image runs past FFFF at line ".toList =
      "image runs past FFFF at ".toList ++ "line ".toList := by decide
    change NamesLine ("image runs past FFFF at line ".toList ++ decimal number) number
    rw [hsplit]
    exact namesLine_at_end _ number
  | cannotOpen _ | unknownSize _ | shortRead _ _ _ | noBytes => cases hline

theorem newline_notMem_quoted {text : Text} (htext : '\n' ∉ text) : '\n' ∉ quoted text := by
  simp [quoted, htext]

/-- There is no line feed in what an error says, unless in the text that it quotes. -/
theorem newline_notMem_describe {error : ReadError}
    (hquoted : ∀ text ∈ error.quoted?, '\n' ∉ text) : '\n' ∉ error.describe := by
  have hnumber := newline_notMem_decimal
  cases error with
  | cannotOpen path =>
    have hpath := newline_notMem_quoted (hquoted path rfl)
    unfold describe
    simp only [List.mem_append, not_or]
    exact ⟨by decide, hpath⟩
  | unknownSize name =>
    have hname := newline_notMem_quoted (hquoted name rfl)
    unfold describe
    simp only [List.mem_append, not_or]
    exact ⟨by decide, hname⟩
  | shortRead name delivered size =>
    have hname := newline_notMem_quoted (hquoted name rfl)
    unfold describe
    simp only [List.mem_append, not_or]
    exact ⟨⟨⟨⟨⟨⟨by decide, hname⟩, by decide⟩, hnumber delivered⟩, by decide⟩, hnumber size⟩,
      by decide⟩
  | badToken line fault =>
    have hfault : '\n' ∉ fault.describe := by
      cases fault with
      | notHex digits =>
        have hdigits := newline_notMem_quoted (hquoted digits rfl)
        exact fun h ↦ (List.mem_append.mp h).elim (by decide) hdigits
      | outOfRange digits =>
        have hdigits := newline_notMem_quoted (hquoted digits rfl)
        exact fun h ↦ (List.mem_append.mp h).elim (by decide) hdigits
    unfold describe
    simp only [List.mem_append, not_or]
    exact ⟨⟨hfault, by decide⟩, hnumber line⟩
  | missingColon line =>
    unfold describe
    simp only [List.mem_append, not_or]
    exact ⟨by decide, hnumber line⟩
  | badAddress line address =>
    have haddress := newline_notMem_quoted (hquoted address rfl)
    unfold describe
    simp only [List.mem_append, not_or]
    exact ⟨⟨⟨by decide, haddress⟩, by decide⟩, hnumber line⟩
  | notContiguous line start expected =>
    have hstart := newline_notMem_numeral start
    have hexpected := newline_notMem_numeral expected
    unfold describe
    simp only [List.mem_append, not_or]
    exact ⟨⟨⟨⟨⟨⟨by decide, hnumber line⟩, by decide⟩, hstart⟩, by decide⟩, hexpected⟩, by decide⟩
  | pastEnd line =>
    unfold describe
    simp only [List.mem_append, not_or]
    exact ⟨by decide, hnumber line⟩
  | noBytes =>
    unfold describe
    decide

end ReadError

end Mos6502
