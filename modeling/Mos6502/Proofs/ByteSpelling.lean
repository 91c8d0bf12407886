import Mathlib.Data.List.Forall2
import Mos6502.Image.ByteToken
import Mos6502.Proofs.Complaint
import Mos6502.Proofs.Numeral

/-!
Byte tokens as a grammar. A token spells no byte if nothing in it counts, and one byte if what
counts is one or two digits behind an optional radix mark (`ByteToken.Spells`). The reader accepts
exactly such tokens (`ByteToken.spells_iff`). Of many tokens it reads the bytes in order, all of
them (`ByteToken.readAll_of_spellParts`) or those in front of the first bad one
(`ByteToken.readAll_cases`).
-/

set_option autoImplicit false
set_option relaxedAutoImplicit false

namespace Mos6502.ByteToken

/-- A token without commas and underscores. -/
def bare (token : Text) : Text :=
  token.filter fun character ↦ character != ',' && character != '_'

/-- Whether a token spells bytes: none at all, or a single one. -/
inductive Spells (token : Text) : List UInt8 → Prop
  | nothing (hbare : bare token = []) : Spells token []
  | byte {byte : UInt8}
      (hnumeral : Hex.IsNumeral [[], "0x".toList, "0X".toList] 2 (bare token) byte.toNat) :
      Spells token [byte]

/-! ### Single tokens -/

/-- A byte is spelled if what counts passes the tests of the reader, which then takes its value. -/
theorem isNumeral_bare_iff {token : Text} {byte : UInt8} :
    Hex.IsNumeral [[], "0x".toList, "0X".toList] 2 (bare token) byte.toNat ↔
      digits token ≠ [] ∧ (digits token).all Hex.isDigit = true ∧ (digits token).length ≤ 2 ∧
        byte = UInt8.ofNat (Hex.value (digits token)) := by
  rw [Hex.isNumeral_radix_iff, Hex.isNumeral_plain_iff, List.all_eq_true]
  change 1 ≤ (digits token).length ∧ (digits token).length ≤ 2 ∧
    (∀ character ∈ digits token, Hex.isDigit character = true) ∧
      byte.toNat = Hex.value (digits token) ↔ _
  constructor
  · rintro ⟨hsome, hmost, hdigits, hvalue⟩
    refine ⟨List.ne_nil_of_length_pos hsome, hdigits, hmost, ?_⟩
    rw [← hvalue, UInt8.ofNat_toNat]
  · rintro ⟨hsome, hdigits, hmost, rfl⟩
    refine ⟨List.length_pos_iff.mpr hsome, hmost, hdigits, ?_⟩
    have hpow : 16 ^ (digits token).length ≤ 16 ^ 2 := Nat.pow_le_pow_right (by decide) hmost
    have hlt := Hex.value_lt (digits token)
    rw [UInt8.toNat_ofNat']
    omega

/-- The reader accepts the tokens that spell something, and reads what they spell. -/
theorem spells_iff {token : Text} {bytes : List UInt8} :
    Spells token bytes ↔ ∃ spelled, read token = .ok spelled ∧ bytes = spelled.toList := by
  have hempty : digits token = [] ↔ bare token = [] := Hex.dropRadixMark_eq_nil_iff (bare token)
  constructor
  · intro hspells
    cases hspells with
    | nothing hbare =>
      exact ⟨none, by simp [read, hempty.mpr hbare], rfl⟩
    | byte hnumeral =>
      obtain ⟨hsome, hdigits, hmost, rfl⟩ := isNumeral_bare_iff.mp hnumeral
      refine ⟨some _, ?_, rfl⟩
      simp [read, hsome, hdigits, Nat.not_lt.mpr hmost]
  · rintro ⟨spelled, hread, rfl⟩
    by_cases hnone : digits token = []
    · simp only [read, hnone, List.isEmpty_nil, if_true] at hread
      cases hread
      exact .nothing (hempty.mp hnone)
    · unfold read at hread
      rw [if_neg (fun h ↦ hnone (List.isEmpty_iff.mp h))] at hread
      split at hread
      · cases hread
      · next hdigits =>
        split at hread
        · cases hread
        · next hmost =>
          cases hread
          refine .byte (isNumeral_bare_iff.mpr ⟨hnone, ?_, Nat.le_of_not_lt hmost, rfl⟩)
          simpa using hdigits

/-- A token spells one thing only. -/
theorem Spells.unique {token : Text} {first second : List UInt8} (hfirst : Spells token first)
    (hsecond : Spells token second) : first = second := by
  obtain ⟨spelled, hread, rfl⟩ := spells_iff.mp hfirst
  obtain ⟨other, hother, rfl⟩ := spells_iff.mp hsecond
  rw [hread] at hother
  cases hother
  rfl

/-- What counts of a token has characters of the token. -/
theorem mem_of_mem_digits {token : Text} {character : Char} (hmem : character ∈ digits token) :
    character ∈ token := by
  have hbare : character ∈ bare token := by
    change character ∈ Hex.dropRadixMark (bare token) at hmem
    rcases Hex.dropRadixMark_eq_or (bare token) with hsame | ⟨mark, -, hsplit⟩
    · rwa [hsame] at hmem
    · rw [hsplit]
      exact List.mem_append_right mark hmem
  exact List.mem_of_mem_filter hbare

/-- A fault quotes what counts of the token. -/
theorem fault_of_read_eq_error {token : Text} {fault : TokenFault}
    (hread : read token = .error fault) :
    fault = .notHex (digits token) ∨ fault = .outOfRange (digits token) := by
  unfold read at hread
  simp only at hread
  split at hread
  · cases hread
  · split at hread
    · cases hread
      exact .inl rfl
    · split at hread
      · cases hread
        exact .inr rfl
      · cases hread

/-! ### Many tokens -/

/-- Whether tokens with line numbers spell bytes, part by part. -/
abbrev SpellParts (tokens : List (Nat × Text)) (parts : List (List UInt8)) : Prop :=
  List.Forall₂ (fun token part ↦ Spells token.2 part) tokens parts

/-- On a single line the numbers of the tokens do not matter. -/
theorem spellParts_map_iff {number : Nat} {tokens : List Text} {parts : List (List UInt8)} :
    SpellParts (tokens.map fun token ↦ (number, token)) parts ↔
      List.Forall₂ Spells tokens parts :=
  List.forall₂_map_left_iff

/-- Tokens that are all good are read to their end. -/
theorem readAll_of_spellParts {tokens : List (Nat × Text)} {parts : List (List UInt8)}
    (hspell : SpellParts tokens parts) (bytes : Array UInt8) :
    readAll bytes tokens = (bytes ++ parts.flatten.toArray, none) := by
  induction hspell generalizing bytes with
  | nil => simp [readAll]
  | @cons token part tokens parts hpart _ ih =>
    obtain ⟨spelled, hread, rfl⟩ := spells_iff.mp hpart
    obtain ⟨line, token⟩ := token
    cases spelled with
    | none => simp [readAll, hread, ih]
    | some byte => simp [readAll, hread, ih]

/-- Reading comes to the end of the tokens, or to the first that is bad. -/
theorem readAll_cases (bytes : Array UInt8) (tokens : List (Nat × Text)) :
    (∃ parts, SpellParts tokens parts) ∨
      ∃ good line token rest parts fault, tokens = good ++ (line, token) :: rest ∧
        SpellParts good parts ∧ read token = .error fault ∧
          readAll bytes tokens =
            (bytes ++ parts.flatten.toArray, some (.badToken line fault)) := by
  induction tokens generalizing bytes with
  | nil => exact .inl ⟨[], .nil⟩
  | cons token tokens ih =>
    obtain ⟨line, token⟩ := token
    cases hread : read token with
    | error fault =>
      refine .inr ⟨[], line, token, tokens, [], fault, rfl, .nil, hread, ?_⟩
      simp [readAll, hread]
    | ok spelled =>
      have hspells : Spells token spelled.toList := spells_iff.mpr ⟨spelled, hread, rfl⟩
      rcases ih (bytes ++ spelled.toList.toArray) with
        ⟨parts, hparts⟩ | ⟨good, bad, other, rest, parts, fault, rfl, hgood, hfault, hresult⟩
      · exact .inl ⟨spelled.toList :: parts, .cons hspells hparts⟩
      · refine .inr ⟨(line, token) :: good, bad, other, rest, spelled.toList :: parts, fault, rfl,
          .cons hspells hgood, hfault, ?_⟩
        cases spelled with
        | none => simpa [readAll, hread] using hresult
        | some byte => simpa [readAll, hread] using hresult

/-- Tokens that spell no bytes are read up to one that has a fault. -/
theorem readAll_of_not_spellParts {tokens : List (Nat × Text)}
    (hbad : ∀ parts, ¬SpellParts tokens parts) (bytes : Array UInt8) :
    ∃ line token fault before, (line, token) ∈ tokens ∧ read token = .error fault ∧
      readAll bytes tokens = (before, some (.badToken line fault)) := by
  rcases readAll_cases bytes tokens with
    ⟨parts, hparts⟩ | ⟨good, line, token, rest, parts, fault, rfl, -, hfault, hresult⟩
  · exact absurd hparts (hbad parts)
  · exact ⟨line, token, fault, _, List.mem_append_right good List.mem_cons_self, hfault, hresult⟩

end Mos6502.ByteToken
