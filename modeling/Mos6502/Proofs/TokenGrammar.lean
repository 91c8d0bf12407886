import Mos6502.Image.HexBytes
import Mos6502.Proofs.ByteSpelling
import Mos6502.Proofs.Cutting

/-!
Bytes as tokens, read from a whole text. The tokens of a text are the parts between blanks of all
its lines, each line up to its first comment (`HexBytes.numberedTokens`). The reader takes the
bytes of tokens as long as they spell any, and stops at the first one that does not. What it writes
about that token names it as far as it counts, and says what is wrong with it
(`HexBytes.complaint`).

`HexBytes.reads_good_tokens` puts this together: tokens that are all good are all read, and in front
of a bad one the bytes of the good ones are kept.
-/

set_option autoImplicit false
set_option relaxedAutoImplicit false

namespace Mos6502

namespace ByteToken

/-! ### Bad tokens -/

/-- How a complaint names a token: without commas and underscores, and without a radix mark that
something follows. -/
def named (token : Text) : Text :=
  if ["0x".toList, "0X".toList].any (·.isPrefixOf (bare token)) ∧ 2 < (bare token).length then
    (bare token).drop 2
  else bare token

/-- A token is named by what the reader takes of it. -/
theorem digits_eq_named (token : Text) : digits token = named token := by
  change Hex.dropRadixMark (bare token) = named token
  unfold named Hex.dropRadixMark
  split
  · next next rest heq => simp [heq]
  · next next rest heq => simp [heq]
  · next hlower hupper =>
    -- Two characters in front of a third are no radix mark here, or the text would have been cut.
    rw [if_neg]
    rintro ⟨hmark, hlength⟩
    rcases hbare : bare token with - | ⟨first, - | ⟨second, - | ⟨third, rest⟩⟩⟩
    · simp [hbare] at hlength
    · simp [hbare] at hlength
    · simp [hbare] at hlength
    · rw [hbare] at hmark
      simp only [String.reduceToList, List.any_cons, List.isPrefixOf, List.any_nil, Bool.and_true,
        Bool.or_false, Bool.or_eq_true, Bool.and_eq_true, beq_iff_eq] at hmark
      rcases hmark with ⟨rfl, rfl⟩ | ⟨rfl, rfl⟩
      · exact hlower third rest hbare
      · exact hupper third rest hbare

/-- What is wrong with a token that spells nothing. -/
def faultOf (token : Text) : TokenFault :=
  if (named token).any fun character ↦ !Hex.isDigit character then .notHex (named token)
  else .outOfRange (named token)

theorem quoted?_faultOf (line : Nat) (token : Text) :
    (ReadError.badToken line (faultOf token)).quoted? = some (named token) := by
  unfold faultOf
  split <;> rfl

/-- A token that spells nothing has a character that is no digit, or too many digits. -/
theorem read_of_not_spells {token : Text} (hbad : ∀ bytes, ¬Spells token bytes) :
    read token = .error (faultOf token) := by
  cases hread : read token with
  | ok spelled => exact absurd (spells_iff.mpr ⟨spelled, hread, rfl⟩) (hbad _)
  | error fault =>
    rw [← hread, faultOf, ← digits_eq_named, ← List.not_all_eq_any_not]
    unfold read at hread ⊢
    simp only at hread ⊢
    split at hread
    · cases hread
    · next hsome =>
      rw [if_neg hsome]
      by_cases hdigits : (!(digits token).all Hex.isDigit) = true
      · rw [if_pos hdigits, if_pos hdigits]
      · rw [if_neg hdigits] at hread ⊢
        rw [if_neg hdigits]
        split at hread
        · next hlong => rw [if_pos hlong]
        · cases hread

end ByteToken

namespace HexBytes

open ByteToken (Spells SpellParts named faultOf)

/-! ### The grammar -/

/-- The tokens of a text in order, each with the number of its line: of every line the parts between
blanks that are not empty, up to the first comment. -/
def numberedTokens (text : Text) : List (Nat × Text) :=
  ((text.splitOn '\n').zipIdx 1).flatMap fun (line, number) ↦
    (((Text.uncommented line).splitOnP Text.isBlank).filter fun part ↦ !part.isEmpty).map
      fun token ↦ (number, token)

/-- What is said about a bad token on a line. -/
def complaint (number : Nat) (token : Text) : Text :=
  (if (named token).any fun character ↦ !Hex.isDigit character then "non-hex token ".toList
    else "byte out of range ".toList) ++
    quoted (named token) ++ " at line ".toList ++ decimal number

/-- The reader takes the tokens of the text. -/
theorem tokens_eq_numberedTokens (text : Text) : tokens text = numberedTokens text := by
  unfold tokens numberedTokens
  rw [Text.numberedLines_eq_map_swap, List.flatMap_map]
  simp only [Prod.fst_swap, Prod.snd_swap, Text.words_eq_filter_splitOnP,
    Text.stripComment_eq_uncommented]
  rcases Text.zipIdx_splitOn_newline text with hsame | ⟨number, hmore⟩
  · rw [hsame]
  · rw [hmore, List.flatMap_append]
    exact (List.append_nil _).symm

/-- There are no blanks in a token, and hence no line feeds. -/
theorem newline_notMem_of_mem_numberedTokens {text token : Text} {number : Nat}
    (hmem : (number, token) ∈ numberedTokens text) : '\n' ∉ token := by
  rw [← tokens_eq_numberedTokens] at hmem
  obtain ⟨⟨place, line⟩, -, hline⟩ := List.mem_flatMap.mp hmem
  obtain ⟨word, hword, heq⟩ := List.mem_map.mp hline
  cases heq
  intro hnewline
  have hinside := Text.mem_of_mem_pieces (List.mem_filter.mp hword).1 hnewline
  exact absurd hinside.2 (by decide)

/-- The complaint about a token is what the error on it says. -/
theorem describe_faultOf (number : Nat) (token : Text) :
    (ReadError.badToken number (faultOf token)).describe = complaint number token := by
  unfold complaint faultOf
  split <;> rfl

/-- A complaint about a token of the text is a single line. -/
theorem newline_notMem_complaint {text token : Text} {number : Nat}
    (hmem : (number, token) ∈ numberedTokens text) : '\n' ∉ complaint number token := by
  rw [← describe_faultOf]
  refine ReadError.newline_notMem_describe fun shown hshown ↦ ?_
  rw [ByteToken.quoted?_faultOf, ← ByteToken.digits_eq_named] at hshown
  cases hshown
  exact fun h ↦ newline_notMem_of_mem_numberedTokens hmem (ByteToken.mem_of_mem_digits h)

/-! ### The reader -/

section Reader

variable {text : Text} {parts : List (List UInt8)}

/-- Tokens that are all good are all read. -/
theorem read_of_spellParts (hspell : SpellParts (numberedTokens text) parts) :
    read text = ⟨parts.flatten, if parts.flatten = [] then some .noBytes else none⟩ := by
  unfold read
  rw [tokens_eq_numberedTokens, ByteToken.readAll_of_spellParts hspell]
  simp [List.flatten_eq_nil_iff]

/-- The bytes in front of the first bad token are kept. -/
theorem read_of_bad {front rest : List (Nat × Text)} {number : Nat} {token : Text}
    (hsplit : numberedTokens text = front ++ (number, token) :: rest)
    (hspell : SpellParts front parts) (hbad : ∀ bytes, ¬Spells token bytes) :
    read text = ⟨parts.flatten, some (.badToken number (faultOf token))⟩ := by
  unfold read
  rw [tokens_eq_numberedTokens, hsplit, ByteToken.readAll_append,
    ByteToken.readAll_of_spellParts hspell]
  simp [ByteToken.readAll, ByteToken.read_of_not_spells hbad]

/-- Tokens are all good, or there is a first bad one. -/
theorem spellParts_or_bad (tokens : List (Nat × Text)) :
    (∃ parts, SpellParts tokens parts) ∨
      ∃ front number token rest parts, tokens = front ++ (number, token) :: rest ∧
        SpellParts front parts ∧ ∀ bytes, ¬Spells token bytes := by
  rcases ByteToken.readAll_cases #[] tokens with
    hgood | ⟨front, number, token, rest, parts, fault, rfl, hparts, hfault, -⟩
  · exact .inl hgood
  · refine .inr ⟨front, number, token, rest, parts, rfl, hparts, fun bytes hspells ↦ ?_⟩
    obtain ⟨spelled, hread, -⟩ := ByteToken.spells_iff.mp hspells
    rw [hfault] at hread
    cases hread

end Reader

/-- What a text has to be for the reader to accept it, what the reader keeps, and what it writes. -/
structure ReadsGoodTokens (text : Text) : Prop where
  /-- What was there before plays no role for a file with the text. -/
  ignores_before : ∀ (files : Files) (path : Text) (source : Source) (before : List UInt8),
    files path = some source → Text.ofBytes source.bytes = text →
      fromFile files path before = read text
  /-- All tokens are good, or there is a first bad one. -/
  good_or_bad : (∃ parts, SpellParts (numberedTokens text) parts) ∨
    ∃ front number token rest parts, numberedTokens text = front ++ (number, token) :: rest ∧
      SpellParts front parts ∧ ∀ bytes, ¬Spells token bytes
  /-- Of tokens that are all good the bytes are read, and accepted if there are any. -/
  good : ∀ parts, SpellParts (numberedTokens text) parts →
    (read text).contents = parts.flatten ∧
      ((read text).error = none ∧ (read text).diagnostics .hexBytes = [] ↔ parts.flatten ≠ []) ∧
      (parts.flatten = [] → (read text).error ≠ none ∧
        (read text).diagnostics .hexBytes = "[loadhex] no bytes read\n".toList)
  /-- In front of the first bad token the bytes are kept, and one line is written about it. -/
  bad : ∀ front number token rest parts, numberedTokens text = front ++ (number, token) :: rest →
    SpellParts front parts → (∀ bytes, ¬Spells token bytes) →
      (read text).contents = parts.flatten ∧ (read text).error ≠ none ∧
        (read text).diagnostics .hexBytes =
          "[loadhex] ".toList ++ complaint number token ++ ['\n'] ∧
        '\n' ∉ complaint number token

/-- The reader accepts the texts of good tokens that spell some bytes. Of any other text it keeps
the bytes in front of the first bad token, and complains in one line. -/
theorem reads_good_tokens (text : Text) : ReadsGoodTokens text := by
  constructor
  case ignores_before =>
    intro files path source before hsource htext
    rw [fromFile, hsource, ← htext]
  case good_or_bad => exact spellParts_or_bad (numberedTokens text)
  case good =>
    intro parts hspell
    rw [read_of_spellParts hspell]
    by_cases hempty : parts.flatten = []
    · rw [if_pos hempty]
      exact ⟨rfl, iff_of_false (fun h ↦ Option.some_ne_none _ h.1) (not_not_intro hempty),
        fun _ ↦ ⟨Option.some_ne_none _, rfl⟩⟩
    · rw [if_neg hempty]
      exact ⟨rfl, iff_of_true ⟨rfl, rfl⟩ hempty, fun h ↦ absurd h hempty⟩
  case bad =>
    intro front number token rest parts hsplit hspell hbad
    have hmem : (number, token) ∈ numberedTokens text := by
      rw [hsplit]
      exact List.mem_append_right front List.mem_cons_self
    have hline := newline_notMem_complaint hmem
    rw [← describe_faultOf] at hline ⊢
    rw [read_of_bad hsplit hspell hbad]
    exact ⟨rfl, Option.some_ne_none _, rfl, hline⟩

/-- A mark is dropped only if something follows it, and the bytes before the bad token stay. -/
example : read "a9,_\t0X_1 # ff\n,\n 0x; 12\n100".toList =
    ⟨[0xA9, 0x01], some (.badToken 3 (.notHex "0x".toList))⟩ := by
  decide

end HexBytes

end Mos6502
