import Mos6502.Image.HexDump
import Mos6502.Proofs.ByteSpelling
import Mos6502.Proofs.Cutting

/-!
Dumps as a grammar. A line spells a row, which is an address and the bytes from there on
(`HexDump.SpellsRow`), and the rows of a dump go on one where the other ends
(`HexDump.Contiguous`). A text is a dump if the lines that count spell such rows, and one byte at
least (`HexDump.IsDump`).

Adding a line to an image in the making either adds the row that it spells or is rejected with its
number (`HexDump.Draft.addLine_of_spellsRow`, `HexDump.Draft.addLine_rejected`). Hence the reader
reads what the dumps say (`HexDump.read_eq_iff`), and about any other text it writes one line that
names the first offending line (`HexDump.reads_exactly_dumps`).
-/

set_option autoImplicit false
set_option relaxedAutoImplicit false

namespace Mos6502.HexDump

/-! ### The grammar -/

/-- What a line of a dump says: bytes, and the address of the first. -/
structure Row where
  start : UInt16
  bytes : List UInt8

/-- Whether a line spells a row. In front of its first colon is an address, in which blanks do not
count, and the words behind the colon spell the bytes. -/
def SpellsRow (line : Text) (row : Row) : Prop :=
  ∃ front rest parts, line = front ++ ':' :: rest ∧ ':' ∉ front ∧
    Hex.IsNumeral [[], ['$']] 4 (front.filter fun character ↦ !Text.isBlank character)
      row.start.toNat ∧
    List.Forall₂ ByteToken.Spells
      ((rest.splitOnP Text.isBlank).filter fun word ↦ !word.isEmpty) parts ∧
    row.bytes = parts.flatten

/-- The bytes of rows in order. -/
def allBytes (rows : List Row) : List UInt8 := rows.flatMap Row.bytes

/-- Whether a row goes on where the rows before it ended, and ends at the last address at the
latest. The first row has the origin. -/
def Continues (before : List Row) (row : Row) : Prop :=
  let origin := (before.head?.getD row).start.toNat
  row.start.toNat = origin + (allBytes before).length ∧
    origin + (allBytes (before ++ [row])).length ≤ 65536

/-- Whether every row goes on where the rows before it ended. -/
def Contiguous (rows : List Row) : Prop :=
  ∀ before row after, rows = before ++ row :: after → Continues before row

/-- The lines that count, with their numbers: the parts between line feeds, each up to its first
comment, but for those of blanks alone. -/
def countingLines (text : Text) : List (Nat × Text) :=
  (((text.splitOn '\n').zipIdx 1).map fun (line, number) ↦ (number, Text.uncommented line)).filter
    fun (_, line) ↦ !line.all Text.isBlank

/-- Whether numbered lines spell rows that go on one from the other. -/
def SpellRows (lines : List (Nat × Text)) (rows : List Row) : Prop :=
  List.Forall₂ (fun line row ↦ SpellsRow line.2 row) lines rows ∧ Contiguous rows

/-- Whether a text is the dump of an image. -/
def IsDump (text : Text) (image : Image) : Prop :=
  ∃ rows, SpellRows (countingLines text) rows ∧ rows.head?.map Row.start = some image.origin ∧
    image.bytes = allBytes rows ∧ image.bytes ≠ []

/-- Whether a number belongs to the first line at which a text is no dump. -/
def FirstOffending (text : Text) (number : Nat) : Prop :=
  ∃ good line rest, countingLines text = good ++ (number, line) :: rest ∧
    (∃ rows, SpellRows good rows) ∧ ¬∃ rows, SpellRows (good ++ [(number, line)]) rows

/-! ### Lines -/

/-- The reader takes the lines that count. -/
theorem contentLines_eq_countingLines (text : Text) : contentLines text = countingLines text := by
  unfold contentLines countingLines
  rw [Text.numberedLines_eq_map_swap, List.map_map]
  simp only [Function.comp_def, Prod.fst_swap, Prod.snd_swap, Text.stripComment_eq_uncommented]
  rcases Text.zipIdx_splitOn_newline text with hsame | ⟨number, hmore⟩
  · rw [hsame]
  · rw [hmore, List.map_append, List.filter_append]
    exact (List.append_nil _).symm

/-- The lines that count are the lines without comments that say something. -/
theorem map_snd_countingLines (text : Text) :
    (countingLines text).map Prod.snd =
      (text.lines.map Text.stripComment).filter fun line ↦ !line.all Text.isBlank := by
  have hlines : text.numberedLines.map Prod.snd = text.lines := by
    rw [Text.numberedLines, List.map_map]
    exact List.zipIdx_map_fst 0 text.lines
  rw [← contentLines_eq_countingLines, contentLines, ← hlines, List.map_map, List.filter_map,
    List.filter_map, List.map_map]
  rfl

theorem newline_notMem_of_mem_countingLines {text line : Text} {number : Nat}
    (hmem : (number, line) ∈ countingLines text) : '\n' ∉ line := by
  rw [← contentLines_eq_countingLines] at hmem
  obtain ⟨⟨index, whole⟩, hwhole, hline⟩ := List.mem_map.mp (List.mem_filter.mp hmem).1
  obtain ⟨⟨piece, place⟩, hpiece, hindex⟩ := List.mem_map.mp hwhole
  cases hline
  cases hindex
  intro hnewline
  rw [Text.stripComment_eq_uncommented] at hnewline
  have hinside := Text.mem_of_mem_pieces (List.fst_mem_of_mem_zipIdx hpiece)
    (List.mem_of_mem_take hnewline)
  exact absurd hinside.2 (by decide)

/-! ### Rows -/

/-- A line spells a row if it passes the tests of the reader, which then takes the address and the
bytes of the tokens. -/
theorem spellsRow_iff {line : Text} {row : Row} :
    SpellsRow line row ↔
      ':' ∈ line ∧ Hex.isAddress (addressDigits line) = true ∧
        row.start = UInt16.ofNat (Hex.value (addressDigits line)) ∧
          ∃ parts, List.Forall₂ ByteToken.Spells (tokens line) parts ∧
            row.bytes = parts.flatten := by
  have haddress (digits : Text) :
      Hex.IsNumeral [[], ['$']] 4 digits row.start.toNat ↔
        Hex.isAddress (Hex.dropDollar digits) = true ∧
          row.start = UInt16.ofNat (Hex.value (Hex.dropDollar digits)) := by
    rw [Hex.isNumeral_dollar_iff, Hex.isNumeral_address_iff]
  constructor
  · rintro ⟨front, rest, parts, rfl, hnone, hnumeral, hspell, hbytes⟩
    obtain ⟨htake, hdrop⟩ := Text.cut_at_first hnone rest
    rw [haddress] at hnumeral
    rw [← Text.words_eq_filter_splitOnP] at hspell
    refine ⟨List.mem_append_right front List.mem_cons_self, ?_, ?_, parts, ?_, hbytes⟩
    · rw [addressDigits, htake]
      exact hnumeral.1
    · rw [addressDigits, htake]
      exact hnumeral.2
    · rwa [tokens, hdrop]
  · rintro ⟨hcolon, hdigits, hstart, parts, hspell, hbytes⟩
    obtain ⟨front, rest, rfl, hnone⟩ := List.eq_append_cons_of_mem hcolon
    obtain ⟨htake, hdrop⟩ := Text.cut_at_first hnone rest
    refine ⟨front, rest, parts, rfl, hnone, ?_, ?_, hbytes⟩
    · rw [haddress]
      rw [addressDigits, htake] at hdigits hstart
      exact ⟨hdigits, hstart⟩
    · rw [← Text.words_eq_filter_splitOnP]
      rwa [tokens, hdrop] at hspell

/-- A line spells one row only. -/
theorem SpellsRow.unique {line : Text} {first second : Row} (hfirst : SpellsRow line first)
    (hsecond : SpellsRow line second) : first = second := by
  obtain ⟨-, -, hstart, parts, hparts, hbytes⟩ := spellsRow_iff.mp hfirst
  obtain ⟨-, -, hother, others, hothers, hsame⟩ := spellsRow_iff.mp hsecond
  have hunique : Relator.RightUnique ByteToken.Spells := fun _ _ _ ↦ ByteToken.Spells.unique
  have hequal : parts = others := List.right_unique_forall₂' hunique hparts hothers
  rw [Row.mk.injEq]
  exact ⟨hstart.trans hother.symm, by rw [hbytes, hsame, hequal]⟩

/-! ### Rows one after the other -/

theorem contiguous_nil : Contiguous [] := by
  intro before row after hsplit
  exact absurd hsplit.symm (by simp)

/-- Rows stay contiguous exactly if the next one goes on where they end. -/
theorem contiguous_concat_iff {rows : List Row} {row : Row} :
    Contiguous (rows ++ [row]) ↔ Contiguous rows ∧ Continues rows row := by
  constructor
  · intro hall
    refine ⟨fun before other after hsplit ↦ hall before other (after ++ [row]) ?_,
      hall rows row [] rfl⟩
    rw [hsplit, List.append_assoc, List.cons_append]
  · rintro ⟨hearlier, hlast⟩ before other after hsplit
    rcases List.eq_nil_or_concat after with rfl | ⟨after, final, rfl⟩
    · obtain ⟨rfl, heq⟩ := List.append_inj' hsplit rfl
      cases heq
      exact hlast
    · rw [List.concat_eq_append, ← List.cons_append, ← List.append_assoc] at hsplit
      exact hearlier before other after (List.append_inj' hsplit rfl).1

theorem allBytes_concat (rows : List Row) (row : Row) :
    allBytes (rows ++ [row]) = allBytes rows ++ row.bytes := by
  simp [allBytes]

/-! ### The image in the making -/

/-- The image in the making after rows. -/
def Draft.ofRows (rows : List Row) : Draft :=
  ⟨rows.head?.map Row.start, (allBytes rows).toArray⟩

theorem Draft.ofRows_concat (rows : List Row) (row : Row) :
    ofRows (rows ++ [row]) =
      ⟨some ((ofRows rows).origin.getD row.start), (ofRows rows).bytes ++ row.bytes.toArray⟩ := by
  unfold ofRows
  rw [allBytes_concat, Draft.mk.injEq, List.append_toArray]
  cases rows with
  | nil => exact ⟨rfl, rfl⟩
  | cons first rest => exact ⟨rfl, rfl⟩

theorem continues_iff {rows : List Row} {start : UInt16} {bytes : List UInt8} :
    Continues rows ⟨start, bytes⟩ ↔
      start.toNat = ((Draft.ofRows rows).origin.getD start).toNat + (Draft.ofRows rows).bytes.size ∧
        ((Draft.ofRows rows).origin.getD start).toNat +
          ((Draft.ofRows rows).bytes ++ bytes.toArray).size ≤ 65536 := by
  simp only [Continues, allBytes_concat, Draft.ofRows, List.append_toArray, List.size_toArray]
  cases rows with
  | nil => exact Iff.rfl
  | cons first rest => exact Iff.rfl

/-- Whether a result is an error on a line, and quotes nothing but characters of the line. -/
def Rejected (number : Nat) (line : Text) (result : Draft × Option ReadError) : Prop :=
  ∃ draft error, result = (draft, some error) ∧ error.line? = some number ∧
    ∀ quoted ∈ error.quoted?, quoted ⊆ line

namespace Draft

variable {rows : List Row} {number : Nat}

section Extend

variable {start : UInt16} {tokens : List Text}

/-- Bytes that go on where the rows end are added as a further row. -/
theorem extend_of_continues {parts : List (List UInt8)}
    (hspell : List.Forall₂ ByteToken.Spells tokens parts)
    (hcontinues : Continues rows ⟨start, parts.flatten⟩) :
    (ofRows rows).extend number start tokens =
      (ofRows (rows ++ [⟨start, parts.flatten⟩]), none) := by
  obtain ⟨hstart, hfits⟩ := continues_iff.mp hcontinues
  unfold extend
  simp only [ne_eq, ← hstart, not_true_eq_false, if_false]
  rw [ByteToken.readAll_of_spellParts (ByteToken.spellParts_map_iff.mpr hspell), ofRows_concat,
    if_neg (Nat.not_lt.mpr hfits)]
  rfl

/-- What does not go on where the rows end is rejected. -/
theorem extend_rejected {line : Text} (htokens : ∀ token ∈ tokens, token ⊆ line)
    (hnone : ∀ parts, List.Forall₂ ByteToken.Spells tokens parts →
      ¬Continues rows ⟨start, parts.flatten⟩) :
    Rejected number line ((ofRows rows).extend number start tokens) := by
  unfold extend
  by_cases hstart : start.toNat = ((ofRows rows).origin.getD start).toNat + (ofRows rows).bytes.size
  · simp only [ne_eq, ← hstart, not_true_eq_false, if_false]
    by_cases hspell : ∃ parts, ByteToken.SpellParts (tokens.map fun token ↦ (number, token)) parts
    · obtain ⟨parts, hparts⟩ := hspell
      have hlong : ¬_ := fun hfits ↦
        hnone parts (ByteToken.spellParts_map_iff.mp hparts) (continues_iff.mpr ⟨hstart, hfits⟩)
      rw [ByteToken.readAll_of_spellParts hparts, if_pos (Nat.lt_of_not_le hlong)]
      exact ⟨_, .pastEnd number, rfl, rfl, fun quoted hquoted ↦ by cases hquoted⟩
    · obtain ⟨place, token, fault, before, hmem, hfault, hresult⟩ :=
        ByteToken.readAll_of_not_spellParts (not_exists.mp hspell) (ofRows rows).bytes
      obtain ⟨_, htoken, heq⟩ := List.mem_map.mp hmem
      cases heq
      rw [hresult]
      refine ⟨_, .badToken number fault, rfl, rfl, fun quoted hquoted ↦ ?_⟩
      have hdigits : quoted = ByteToken.digits token := by
        rcases ByteToken.fault_of_read_eq_error hfault with rfl | rfl
        · exact (Option.some.inj hquoted).symm
        · exact (Option.some.inj hquoted).symm
      rw [hdigits]
      exact fun character hmem ↦ htokens token htoken (ByteToken.mem_of_mem_digits hmem)
  · simp only [ne_eq, hstart, not_false_eq_true, if_true]
    exact ⟨_, .notContiguous number _ _, rfl, rfl, fun quoted hquoted ↦ by cases hquoted⟩

end Extend

section AddLine

variable {line : Text}

/-- A line that spells a row which goes on where the rows end is added as that row. -/
theorem addLine_of_spellsRow {row : Row} (hspells : SpellsRow line row)
    (hcontinues : Continues rows row) :
    (ofRows rows).addLine number line = (ofRows (rows ++ [row]), none) := by
  obtain ⟨start, bytes⟩ := row
  obtain ⟨hcolon, haddress, hstart, parts, hspell, hbytes⟩ := spellsRow_iff.mp hspells
  obtain rfl : bytes = parts.flatten := hbytes
  unfold addLine
  rw [if_pos (List.contains_iff_mem.mpr hcolon)]
  simp only [haddress, if_true]
  rw [← hstart]
  exact extend_of_continues hspell hcontinues

/-- A line that spells no row which goes on where the rows end is rejected. -/
theorem addLine_rejected (number : Nat)
    (hnone : ∀ row, SpellsRow line row → ¬Continues rows row) :
    Rejected number line ((ofRows rows).addLine number line) := by
  unfold addLine
  by_cases hcolon : ':' ∈ line
  · rw [if_pos (List.contains_iff_mem.mpr hcolon)]
    by_cases haddress : Hex.isAddress (addressDigits line) = true
    · simp only [haddress, if_true]
      refine extend_rejected (fun token htoken character hmem ↦ ?_) fun parts hspell ↦ ?_
      · have hrest := Text.mem_of_mem_words htoken hmem
        exact (List.dropWhile_sublist _).subset (List.mem_of_mem_drop hrest)
      · exact hnone ⟨_, _⟩ (spellsRow_iff.mpr ⟨hcolon, haddress, rfl, parts, hspell, rfl⟩)
    · simp only [haddress]
      refine ⟨_, .badAddress number _, rfl, rfl, fun quoted hquoted ↦ ?_⟩
      rw [← Option.some.inj hquoted]
      have hfront : (addressDigits line).Sublist (line.takeWhile (· != ':')) :=
        (Hex.dropDollar_sublist _).trans List.filter_sublist
      exact (hfront.trans (List.takeWhile_sublist _)).subset
  · rw [if_neg (fun h ↦ hcolon (List.contains_iff_mem.mp h))]
    exact ⟨_, .missingColon number, rfl, rfl, fun quoted hquoted ↦ by cases hquoted⟩

end AddLine

theorem addLines_append (draft : Draft) (first second : List (Nat × Text)) :
    draft.addLines (first ++ second) =
      match draft.addLines first with
      | (next, none) => next.addLines second
      | (next, some error) => (next, some error) := by
  induction first generalizing draft with
  | nil => rfl
  | cons head first ih =>
    obtain ⟨number, line⟩ := head
    rw [List.cons_append, addLines, addLines]
    cases draft.addLine number line with
    | mk next error =>
      cases error with
      | none => exact ih next
      | some error => rfl

/-- Lines whose rows go on where the rows before them end are all added. -/
theorem addLines_of_forall₂_spellsRow {lines : List (Nat × Text)} {more : List Row}
    (hlines : List.Forall₂ (fun line row ↦ SpellsRow line.2 row) lines more) (done : List Row)
    (hcontiguous : Contiguous (done ++ more)) :
    (ofRows done).addLines lines = (ofRows (done ++ more), none) := by
  -- What is done grows while the lines are used up, and both together stay contiguous.
  induction hlines generalizing done with
  | nil => rw [addLines, List.append_nil]
  | @cons line row lines more hline _ ih =>
    rw [addLines, addLine_of_spellsRow hline (hcontiguous done row more rfl)]
    rw [List.append_cons done row more] at hcontiguous ⊢
    exact ih (done ++ [row]) hcontiguous

/-- Lines that spell rows are all added. -/
theorem addLines_of_spellRows {lines : List (Nat × Text)} {rows : List Row}
    (hspell : SpellRows lines rows) : (ofRows []).addLines lines = (ofRows rows, none) :=
  addLines_of_forall₂_spellsRow hspell.1 [] hspell.2

end Draft

/-! ### Lines one after the other -/

section Lines

variable {lines : List (Nat × Text)}

/-- Lines spell rows in one way only. -/
theorem eq_of_forall₂_spellsRow {first second : List Row}
    (hfirst : List.Forall₂ (fun line row ↦ SpellsRow line.2 row) lines first)
    (hsecond : List.Forall₂ (fun line row ↦ SpellsRow line.2 row) lines second) :
    first = second := by
  have hunique : Relator.RightUnique fun (line : Nat × Text) row ↦ SpellsRow line.2 row :=
    fun _ _ _ ↦ SpellsRow.unique
  exact List.right_unique_forall₂' hunique hfirst hsecond

/-- Lines and a further one spell rows if the further one goes on where the others end. -/
theorem spellRows_concat_iff {line : Nat × Text} {rows : List Row} {row : Row} :
    SpellRows (lines ++ [line]) (rows ++ [row]) ↔
      SpellRows lines rows ∧ SpellsRow line.2 row ∧ Continues rows row := by
  unfold SpellRows
  rw [contiguous_concat_iff, ← List.forall₂_reverse_iff, List.reverse_append, List.reverse_append]
  simp only [List.reverse_cons, List.reverse_nil, List.nil_append, List.singleton_append,
    List.forall₂_cons, List.forall₂_reverse_iff]
  constructor
  · rintro ⟨⟨hline, hlines⟩, hcontiguous, hcontinues⟩
    exact ⟨⟨hlines, hcontiguous⟩, hline, hcontinues⟩
  · rintro ⟨⟨hlines, hcontiguous⟩, hline, hcontinues⟩
    exact ⟨⟨hline, hlines⟩, hcontiguous, hcontinues⟩

/-- A line that spells no row which goes on where the lines before it end offends. -/
theorem not_spellRows_concat {line : Nat × Text} {rows : List Row} (hrows : SpellRows lines rows)
    (hnone : ∀ row, SpellsRow line.2 row → ¬Continues rows row) (others : List Row) :
    ¬SpellRows (lines ++ [line]) others := by
  intro hothers
  rcases List.eq_nil_or_concat others with rfl | ⟨before, row, rfl⟩
  · have hlength := hothers.1.length_eq
    simp at hlength
  · rw [List.concat_eq_append] at hothers
    obtain ⟨hbefore, hline, hcontinues⟩ := spellRows_concat_iff.mp hothers
    rw [eq_of_forall₂_spellsRow hbefore.1 hrows.1] at hcontinues
    exact hnone row hline hcontinues

/-- Lines spell rows up to the first that does not go on where those before it end. -/
theorem spellRows_or_offending (lines : List (Nat × Text)) :
    (∃ rows, SpellRows lines rows) ∨
      ∃ good number line rest rows, lines = good ++ (number, line) :: rest ∧ SpellRows good rows ∧
        ∀ row, SpellsRow line row → ¬Continues rows row := by
  -- The lines are taken away from the end, since a row is judged by all rows in front of it.
  induction lines using List.reverseRecOn with
  | nil => exact .inl ⟨[], .nil, contiguous_nil⟩
  | append_singleton lines last ih =>
    rcases ih with ⟨rows, hrows⟩ | ⟨good, number, line, rest, rows, rfl, hrows, hnone⟩
    · by_cases hlast : ∃ row, SpellsRow last.2 row ∧ Continues rows row
      · obtain ⟨row, hrow⟩ := hlast
        exact .inl ⟨rows ++ [row], spellRows_concat_iff.mpr ⟨hrows, hrow⟩⟩
      · exact .inr ⟨lines, last.1, last.2, [], rows, rfl, hrows,
          fun row hspells hcontinues ↦ hlast ⟨row, hspells, hcontinues⟩⟩
    · exact .inr ⟨good, number, line, rest ++ [last], rows, by simp, hrows, hnone⟩

end Lines

/-! ### The reader -/

/-- Lines that spell rows are all read. -/
theorem read_of_spellRows {text : Text} {rows : List Row}
    (hrows : SpellRows (countingLines text) rows) :
    read text = ⟨⟨(rows.head?.map Row.start).getD 0, allBytes rows⟩,
      if (allBytes rows).isEmpty then some .noBytes else none⟩ := by
  have hlines := Draft.addLines_of_spellRows hrows
  change Draft.addLines {} (countingLines text) = _ at hlines
  unfold read
  rw [contentLines_eq_countingLines, hlines]
  simp [Draft.image, Draft.ofRows]

/-- An offending line is the first one, and what the reader says names it. -/
theorem read_of_offending {text line : Text} {good rest : List (Nat × Text)} {number : Nat}
    {rows : List Row} (hsplit : countingLines text = good ++ (number, line) :: rest)
    (hrows : SpellRows good rows) (hnone : ∀ row, SpellsRow line row → ¬Continues rows row) :
    FirstOffending text number ∧
      ∃ image error, read text = ⟨image, some error⟩ ∧ error.line? = some number ∧
        '\n' ∉ error.describe := by
  refine ⟨⟨good, line, rest, hsplit, ⟨rows, hrows⟩, not_exists.mpr ?_⟩, ?_⟩
  · exact not_spellRows_concat hrows hnone
  · obtain ⟨draft, error, hline, hnumber, hquoted⟩ := Draft.addLine_rejected number hnone
    have hlines : Draft.addLines {} (countingLines text) = (draft, some error) := by
      rw [hsplit, Draft.addLines_append]
      change (match (Draft.ofRows []).addLines good with
        | (next, none) => next.addLines ((number, line) :: rest)
        | (next, some error) => (next, some error)) = _
      rw [Draft.addLines_of_spellRows hrows]
      simp only [Draft.addLines, hline]
    have hread : read text = ⟨draft.image, some error⟩ := by
      unfold read
      rw [contentLines_eq_countingLines, hlines]
    refine ⟨draft.image, error, hread, hnumber,
      ReadError.newline_notMem_describe fun quoted hmem hnewline ↦ ?_⟩
    have hinside : (number, line) ∈ countingLines text := by
      rw [hsplit]
      exact List.mem_append_right good List.mem_cons_self
    exact newline_notMem_of_mem_countingLines hinside (hquoted quoted hmem hnewline)

/-- Lines that spell rows with some bytes make up a dump. -/
theorem exists_isDump_of_spellRows {text : Text} {rows : List Row}
    (hrows : SpellRows (countingLines text) rows) (hsome : allBytes rows ≠ []) :
    ∃ image, IsDump text image := by
  cases rows with
  | nil => exact absurd rfl hsome
  | cons first rest => exact ⟨⟨first.start, _⟩, first :: rest, hrows, rfl, rfl, hsome⟩

/-- A dump is read without error, and nothing else is. -/
theorem read_eq_iff {text : Text} {image : Image} :
    read text = ⟨image, none⟩ ↔ IsDump text image := by
  obtain ⟨origin, bytes⟩ := image
  constructor
  · intro hread
    rcases spellRows_or_offending (countingLines text) with
      ⟨rows, hrows⟩ | ⟨good, number, line, rest, rows, hsplit, hrows, hnone⟩
    · rw [read_of_spellRows hrows] at hread
      cases rows with
      | nil => cases hread
      | cons first rest =>
        injection hread with hcontents herror
        injection hcontents with horigin hbytes
        refine ⟨first :: rest, hrows, congrArg some horigin, hbytes.symm, fun hempty ↦ ?_⟩
        rw [hbytes.trans hempty] at herror
        cases herror
    · obtain ⟨-, contents, error, herror, -⟩ := read_of_offending hsplit hrows hnone
      rw [herror] at hread
      cases hread
  · rintro ⟨rows, hrows, horigin, rfl, hsome⟩
    rw [read_of_spellRows hrows, horigin, if_neg (fun h ↦ hsome (List.isEmpty_iff.mp h))]
    rfl

/-- There is an error in every text that is no dump. -/
theorem exists_error_of_not_isDump {text : Text} (hnone : ∀ image, ¬IsDump text image) :
    ∃ error, (read text).error = some error := by
  rw [← Option.ne_none_iff_exists']
  intro herror
  exact hnone (read text).contents (read_eq_iff.mp (by rw [← herror]))

/-- The image of a dump ends at the last address at the latest. -/
theorem IsDump.fits {text : Text} {image : Image} (hdump : IsDump text image) :
    image.origin.toNat + image.bytes.length ≤ 65536 := by
  obtain ⟨rows, ⟨-, hcontiguous⟩, horigin, hbytes, -⟩ := hdump
  rcases List.eq_nil_or_concat rows with rfl | ⟨before, last, rfl⟩
  · cases horigin
  · rw [List.concat_eq_append] at hcontiguous horigin hbytes
    have hstart : (before.head?.getD last).start = image.origin := by
      cases before with
      | nil => exact Option.some.inj horigin
      | cons first rest => exact Option.some.inj horigin
    have hfits := (hcontiguous before last [] rfl).2
    rwa [hstart, ← hbytes] at hfits

/-- What a text has to be for the reader to accept it, and what the reader writes if it does not. -/
structure ReadsDumps (text : Text) : Prop where
  /-- What was there before plays no role for a file with the text. -/
  ignores_before : ∀ (files : Files) (path : Text) (source : Source) (before : Image),
    files path = some source → Text.ofBytes source.bytes = text →
      fromFile files path before = read text
  /-- Dumps are accepted, and nothing else. -/
  accepts : (read text).error = none ↔ ∃ image, IsDump text image
  /-- What is read of a dump is its image. -/
  contents : ∀ image, IsDump text image → (read text).contents = image
  /-- Nothing is written about a dump. -/
  silent : ∀ image, IsDump text image → (read text).diagnostics .hexDump = []
  /-- One line is written about any other text. It names the first offending line, or says that
  there are no bytes if no line offends. -/
  complains : (¬∃ image, IsDump text image) → ∃ body,
    (read text).diagnostics .hexDump = "[loaddump] ".toList ++ body ++ ['\n'] ∧ '\n' ∉ body ∧
      ((∃ number, FirstOffending text number ∧ NamesLine body number) ∨
        (∃ rows, SpellRows (countingLines text) rows ∧ allBytes rows = []) ∧
          body = "no bytes read".toList)

/-- The reader accepts the dumps and complains in one line about every other text. -/
theorem reads_exactly_dumps (text : Text) : ReadsDumps text := by
  have hread {image : Image} (hdump : IsDump text image) : read text = ⟨image, none⟩ :=
    read_eq_iff.mpr hdump
  constructor
  case ignores_before =>
    intro files path source before hsource htext
    rw [fromFile, hsource, ← htext]
  case accepts =>
    constructor
    · intro hnone
      exact ⟨(read text).contents, by rw [← read_eq_iff, ← hnone]⟩
    · rintro ⟨image, hdump⟩
      rw [hread hdump]
  case contents =>
    intro image hdump
    rw [hread hdump]
  case silent =>
    intro image hdump
    rw [hread hdump]
    rfl
  case complains =>
    intro hnone
    rcases spellRows_or_offending (countingLines text) with
      ⟨rows, hrows⟩ | ⟨good, number, line, rest, rows, hsplit, hrows, hoffends⟩
    · have hempty : allBytes rows = [] := Decidable.byContradiction fun hsome ↦
        hnone (exists_isDump_of_spellRows hrows hsome)
      refine ⟨"no bytes read".toList, ?_, by decide, .inr ⟨⟨rows, hrows, hempty⟩, rfl⟩⟩
      rw [read_of_spellRows hrows, hempty]
      rfl
    · obtain ⟨hfirst, contents, error, herror, hnumber, hnewline⟩ :=
        read_of_offending hsplit hrows hoffends
      refine ⟨error.describe, ?_, hnewline,
        .inl ⟨number, hfirst, ReadError.namesLine_describe hnumber⟩⟩
      rw [herror]
      rfl

/-- Blanks in an address do not count, and neither do commas and underscores in a token. -/
example : read "\t$80 00: 0_x1,, 2_3//4\r\n\r\n".toList = ⟨⟨0x8000, [0x01, 0x23]⟩, none⟩ := by
  decide

end Mos6502.HexDump
