import Mathlib.Data.List.Forall2
import Mathlib.Data.List.TakeWhile
import Mathlib.Data.Nat.Digits.Defs
import Mos6502.Proofs.Numeral

/-!
Addresses as people type them. A text spells an address if it is made of an optional dollar sign, an
optional radix mark and one to four digits, which are taken in base sixteen (`Hex.SpellsAddress`).
The grammar says of each character what digit it stands for, and takes the sum of the digits by
their places. It is the language of the reader (`Hex.address?_eq_some_iff`).

`Hex.assign` reads with a general conversion (`Hex.convert`), which skips blanks, takes a sign,
stops at the first character that it cannot use, and can fail. Behind the tests for an address it
does not (`Hex.convert_of_isAddress`), so an address goes to where it is to be held, and nothing
changes there for any other text (`Hex.assign_eq`).
-/

set_option autoImplicit false
set_option relaxedAutoImplicit false

namespace Mos6502.Hex

/-! ### Digits by their places -/

/-- The value of a string of digits is the sum of the digits by their places. -/
theorem value_eq_ofDigits {text : Text} {digits : List (Fin 16)}
    (hdigits : List.Forall₂ StandsFor text digits) :
    value text = Nat.ofDigits 16 (digits.map Fin.val).reverse := by
  induction hdigits with
  | nil => rfl
  | @cons character digit text digits hdigit hrest ih =>
    have hfirst : value [character] = digit.val := by
      simp [value, digitValue?_eq_some_iff.mpr ⟨digit, hdigit, rfl⟩]
    have hlength : text.length = (digits.map Fin.val).length := by
      rw [hrest.length_eq, List.length_map]
    rw [← List.singleton_append, value_append, hfirst, ih, hlength, List.map_cons,
      Nat.ofDigits_reverse_cons]
    ring

/-- Characters that are digits stand for a list of digits. -/
theorem forall_isDigit_iff {text : Text} :
    (∀ character ∈ text, isDigit character = true) ↔
      ∃ digits, List.Forall₂ StandsFor text digits := by
  induction text with
  | nil => exact iff_of_true (by simp) ⟨[], .nil⟩
  | cons character text ih =>
    rw [List.forall_mem_cons, ih, isDigit_iff]
    constructor
    · rintro ⟨⟨digit, hdigit⟩, digits, hdigits⟩
      exact ⟨digit :: digits, .cons hdigit hdigits⟩
    · rintro ⟨digits, hdigits⟩
      cases hdigits with
      | cons hdigit hrest => exact ⟨⟨_, hdigit⟩, _, hrest⟩

/-! ### The grammar -/

/-- The marks that tell the base. -/
abbrev radixMarks : List Text := [[], "0x".toList, "0X".toList]

/-- Whether a text spells an address: there is a dollar sign or none, then a radix mark or none, and
then one to four digits, which are the address in base sixteen. -/
inductive SpellsAddress : Text → UInt16 → Prop
  | intro {dollar mark figures : Text} {digits : List (Fin 16)} {address : UInt16}
      (hdollar : dollar ∈ [[], ['$']]) (hmark : mark ∈ radixMarks)
      (hsome : 1 ≤ figures.length) (hmost : figures.length ≤ 4)
      (hdigits : List.Forall₂ StandsFor figures digits)
      (hvalue : address.toNat = Nat.ofDigits 16 (digits.map Fin.val).reverse) :
      SpellsAddress (dollar ++ mark ++ figures) address

/-- A plain numeral of an address spells it, also behind a dollar sign and a radix mark. -/
theorem IsNumeral.spellsAddress {figures : Text} {address : UInt16}
    (hnumeral : IsNumeral [[]] 4 figures address.toNat) {dollar mark : Text}
    (hdollar : dollar ∈ [[], ['$']]) (hmark : mark ∈ radixMarks) :
    SpellsAddress (dollar ++ mark ++ figures) address := by
  obtain ⟨hsome, hmost, hall, hvalue⟩ := isNumeral_plain_iff.mp hnumeral
  obtain ⟨digits, hdigits⟩ := forall_isDigit_iff.mp hall
  exact .intro hdollar hmark hsome hmost hdigits (hvalue.trans (value_eq_ofDigits hdigits))

/-- The spellings of an address are its numerals behind all these marks. -/
theorem spellsAddress_iff {text : Text} {address : UInt16} :
    SpellsAddress text address ↔
      IsNumeral (radixMarks ++ radixMarks.map ('$' :: ·)) 4 text address.toNat := by
  constructor
  · rintro @⟨dollar, mark, figures, digits, _, hdollar, hmark, hsome, hmost, hdigits, hvalue⟩
    have hfront : dollar ++ mark ∈ radixMarks ++ radixMarks.map ('$' :: ·) := by
      rcases List.mem_pair.mp hdollar with rfl | rfl
      · exact List.mem_append_left _ hmark
      · exact List.mem_append_right _ (List.mem_map_of_mem hmark)
    have hall := forall_isDigit_iff.mpr ⟨digits, hdigits⟩
    exact ⟨_, hfront, figures, rfl, hsome, hmost, hall,
      hvalue.trans (value_eq_ofDigits hdigits).symm⟩
  · rintro ⟨front, hfront, figures, rfl, hfigures⟩
    have hnumeral : IsNumeral [[]] 4 figures address.toNat :=
      ⟨[], List.mem_cons_self, figures, rfl, hfigures⟩
    rcases List.mem_append.mp hfront with hmark | hdollar
    · exact hnumeral.spellsAddress List.mem_cons_self hmark
    · obtain ⟨mark, hmark, rfl⟩ := List.mem_map.mp hdollar
      exact hnumeral.spellsAddress (List.mem_pair.mpr (.inr rfl)) hmark

/-- The reader accepts the spellings of addresses, and reads the address that is spelled. -/
theorem address?_eq_some_iff {text : Text} {address : UInt16} :
    address? text = some address ↔ SpellsAddress text address := by
  rw [spellsAddress_iff, isNumeral_optionalDollar_iff radixMarks (by decide), isNumeral_radix_iff,
    isNumeral_address_iff]
  simp only [address?, Option.ite_none_right_eq_some, Option.some.injEq]
  exact and_congr_right fun _ ↦ eq_comm

/-! ### Conversion -/

/-- Why a text cannot be converted to a number. -/
inductive ConversionError
  | noDigits
  | tooLarge
  deriving DecidableEq

/-- Whether there is a minus in front, and what follows the sign. -/
def splitSign : Text → Bool × Text
  | '-' :: rest => (true, rest)
  | '+' :: rest => (false, rest)
  | text => (false, text)

/-- The digits in front. A radix mark is skipped if digits follow it; otherwise its zero counts. -/
def leadingDigits (text : Text) : Text :=
  let marked := (dropRadixMark text).takeWhile isDigit
  if marked.isEmpty then text.takeWhile isDigit else marked

/-- The number of 64 bits that a text begins with. Blanks and a sign may stand in front of it, and
anything behind it. A minus takes the number from zero, modulo 2 ^ 64. -/
def convert (text : Text) : Except ConversionError UInt64 :=
  let (negative, unsigned) := splitSign (text.dropWhile Text.isBlank)
  let digits := leadingDigits unsigned
  if digits.isEmpty then .error .noDigits
  else if 2 ^ 64 ≤ value digits then .error .tooLarge
  else
    let number := UInt64.ofNat (value digits)
    .ok (if negative then -number else number)

/-- Reads an address by conversion into the place where `held` is held: whether there is one, or the
error that is raised, and what is held afterwards. -/
def assign (text : Text) (held : UInt16) : Except ConversionError Bool × UInt16 :=
  let digits := dropRadixMark (dropDollar text)
  if isAddress digits then
    match convert digits with
    | .ok number => (.ok true, number.toUInt16)
    | .error error => (.error error, held)
  else (.ok false, held)

theorem splitSign_of_digits {digits : Text}
    (hdigits : ∀ character ∈ digits, isDigit character = true) :
    splitSign digits = (false, digits) := by
  unfold splitSign
  split
  · exact absurd (hdigits '-' List.mem_cons_self) (by decide)
  · exact absurd (hdigits '+' List.mem_cons_self) (by decide)
  · rfl

theorem leadingDigits_of_digits {digits : Text}
    (hdigits : ∀ character ∈ digits, isDigit character = true) : leadingDigits digits = digits := by
  have htake : digits.takeWhile isDigit = digits := List.takeWhile_eq_self_iff.mpr hdigits
  rw [leadingDigits, dropRadixMark_of_digits hdigits]
  simp only [htake, ite_self]

/-- A string of digits has no blanks to be skipped. -/
theorem dropWhile_isBlank_of_digits {digits : Text}
    (hdigits : ∀ character ∈ digits, isDigit character = true) :
    digits.dropWhile Text.isBlank = digits := by
  cases digits with
  | nil => rfl
  | cons digit rest =>
    rw [List.dropWhile_cons, isBlank_of_isDigit (hdigits digit List.mem_cons_self)]
    rfl

/-- Of a text that is nothing but digits the whole is converted, unless it is empty or says too much
for 64 bits. -/
theorem convert_of_digits {digits : Text}
    (hdigits : ∀ character ∈ digits, isDigit character = true) :
    convert digits =
      if digits.isEmpty then .error .noDigits
      else if 2 ^ 64 ≤ value digits then .error .tooLarge
      else .ok (UInt64.ofNat (value digits)) := by
  simp only [convert, dropWhile_isBlank_of_digits hdigits, splitSign_of_digits hdigits,
    leadingDigits_of_digits hdigits]
  rfl

/-- It is what a number is, not how long it is written, that can be too much. -/
example : ["", "10000000000000000", "0000000000000000f"].map (fun text ↦ convert text.toList) =
    [.error .noDigits, .error .tooLarge, .ok 15] := by
  decide

/-- What passes the tests for an address is converted. -/
theorem convert_of_isAddress {digits : Text} (haddress : isAddress digits = true) :
    convert digits = .ok (UInt64.ofNat (value digits)) := by
  obtain ⟨hsome, -, hdigits, hvalue⟩ := isNumeral_plain_iff.mp (isAddress_iff.mp haddress)
  have hnone : ¬digits.isEmpty := fun hempty ↦
    List.ne_nil_of_length_pos hsome (List.isEmpty_iff.mp hempty)
  have hfits : ¬2 ^ 64 ≤ value digits := by
    have hlt := (UInt16.ofNat (value digits)).toNat_lt
    omega
  rw [convert_of_digits hdigits, if_neg hnone, if_neg hfits]

/-- Reading into a place raises no error. It puts the address there if the text is one, and leaves
what was there if it is not. -/
theorem assign_eq (text : Text) (held : UInt16) :
    assign text held =
      match address? text with
      | some address => (.ok true, address)
      | none => (.ok false, held) := by
  unfold assign address?
  by_cases haddress : isAddress (dropRadixMark (dropDollar text)) = true
  · simp only [haddress, if_true, convert_of_isAddress haddress, UInt64.toUInt16_ofNat']
  · simp only [if_neg haddress]

/-! ### Addresses -/

/-- What a text has to be for the reader to find an address in it, and what is left in the place
where the address is to go. -/
structure ReadsAddress (text : Text) : Prop where
  /-- Spellings are read, each as the address that it spells, and no other text is. -/
  accepts : ∀ address, address? text = some address ↔ SpellsAddress text address
  /-- The address that is spelled goes to its place. -/
  stores : ∀ address, SpellsAddress text address → ∀ held, assign text held = (.ok true, address)
  /-- Any other text raises no error, and leaves what was held. -/
  keeps : (∀ address, ¬SpellsAddress text address) → ∀ held, assign text held = (.ok false, held)
  /-- What is written for an address is read as the address, with and without the marks. -/
  written : ∀ address dollar mark, dollar ∈ [[], ['$']] → mark ∈ radixMarks →
    text = dollar ++ mark ++ word address → address? text = some address

/-- The reader finds addresses in their spellings and in nothing else. What is written for an
address is one of its spellings. -/
theorem reads_spelled_addresses (text : Text) : ReadsAddress text := by
  constructor
  case accepts => exact fun _ ↦ address?_eq_some_iff
  case stores =>
    intro address hspells held
    rw [assign_eq, address?_eq_some_iff.mpr hspells]
  case keeps =>
    intro hnone held
    have hrefused : address? text = none :=
      Option.eq_none_iff_forall_ne_some.mpr fun address haccepted ↦
        hnone address (address?_eq_some_iff.mp haccepted)
    rw [assign_eq, hrefused]
  case written =>
    rintro address dollar mark hdollar hmark rfl
    exact address?_eq_some_iff.mpr ((isNumeral_word address).spellsAddress hdollar hmark)

/-- Marks without digits, marks that are doubled or in another order, and a fifth digit. -/
example : ["$", "0x", "0x0x1", "$$1", "0x$1", "00001", "$0XbEEf", "0"].map
      (fun text ↦ address? text.toList) =
    [none, none, none, none, none, none, some 0xBEEF, some 0] := by
  decide

end Mos6502.Hex
