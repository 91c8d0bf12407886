import Mos6502.Proofs.DumpGrammar
import Mos6502.Proofs.Placement

/-!
Dumps that were written are read back. Every line that `HexDump.write` writes spells a row with the
bytes that were dumped (`HexDump.spellsRow_writtenLine`), and the rows go on one where the other
ends as long as they do not run past the last address (`HexDump.contiguous_writtenRows_iff`). Hence
the text is the dump of its bytes exactly in that case (`HexDump.isDump_write_iff`).

`HexDump.reads_back` adds what becomes of the image when it is loaded as a program: its bytes are in
their places again, but for the reset vector (`HexDump.Restores`).
-/

set_option autoImplicit false
set_option relaxedAutoImplicit false

namespace Mos6502

/-! ### Characters that are written -/

/-- Whether a character is no blank, and none that dumps use for anything but digits. -/
def Text.IsPlain (character : Char) : Prop :=
  isBlank character = false ∧ character ∉ [':', '#', ';', '/', ',', '_']

instance : DecidablePred Text.IsPlain := fun _ ↦ inferInstanceAs (Decidable (_ ∧ _))

/-- A plain character ends no line and opens no comment. -/
theorem Text.IsPlain.apart {character : Char} (hplain : IsPlain character) :
    character ≠ '\n' ∧ character ∉ ['#', ';', '/'] := by
  refine ⟨fun hnewline ↦ ?_, fun hmark ↦ hplain.2 ?_⟩
  · exact absurd (hnewline ▸ hplain.1) (by decide)
  · exact List.mem_cons_of_mem _ (List.mem_append_left [',', '_'] hmark)

theorem Hex.isPlain_of_isDigit {character : Char} (hdigit : isDigit character = true) :
    Text.IsPlain character := by
  have hnone : [':', '#', ';', '/', ',', '_'].filter isDigit = [] := rfl
  refine ⟨isBlank_of_isDigit hdigit, fun hmark ↦ ?_⟩
  have hmem := List.mem_filter.mpr ⟨hmark, hdigit⟩
  rw [hnone] at hmem
  cases hmem

theorem Hex.isPlain_of_mem_byte {byte : UInt8} {character : Char}
    (hmem : character ∈ Hex.byte byte) : Text.IsPlain character :=
  isPlain_of_isDigit (isDigit_of_mem_byte hmem)

theorem Hex.isPlain_of_mem_word {address : UInt16} {character : Char}
    (hmem : character ∈ Hex.word address) : Text.IsPlain character :=
  isPlain_of_isDigit (isDigit_of_mem_word hmem)

/-- The digits of a byte spell it. -/
theorem ByteToken.spells_byte (byte : UInt8) : Spells (Hex.byte byte) [byte] := by
  have hbare : bare (Hex.byte byte) = Hex.byte byte := by
    refine List.filter_eq_self.mpr fun character hmem ↦ ?_
    have hplain := (Hex.isPlain_of_mem_byte hmem).2
    simp only [List.mem_cons, not_or] at hplain
    simp [hplain]
  refine .byte ?_
  rw [hbare]
  exact (Hex.isNumeral_byte byte).mono (List.cons_subset_cons _ (List.nil_subset _))

namespace HexDump

/-! ### Single rows -/

/-- A line that is written, without its line feed. -/
def writtenLine (memory : Memory) (address : UInt16) : Text :=
  Hex.word address ++ ':' :: ' ' ::
    (memory.readBytes address 16).flatMap fun byte ↦ Hex.byte byte ++ [' ']

/-- What a line that is written says. -/
def writtenRow (memory : Memory) (address : UInt16) : Row :=
  ⟨address, memory.readBytes address 16⟩

theorem row_eq_writtenLine (memory : Memory) (address : UInt16) :
    row memory address = writtenLine memory address ++ ['\n'] := by
  simp [row, writtenLine]

theorem plain_of_mem_writtenLine {memory : Memory} {address : UInt16} {character : Char}
    (hmem : character ∈ writtenLine memory address) :
    character ≠ '\n' ∧ character ∉ ['#', ';', '/'] := by
  unfold writtenLine at hmem
  rw [List.mem_append, List.mem_cons, List.mem_cons, List.mem_flatMap] at hmem
  rcases hmem with haddress | rfl | rfl | ⟨byte, -, hbyte⟩
  · exact (Hex.isPlain_of_mem_word haddress).apart
  · decide
  · decide
  · rcases List.mem_append.mp hbyte with hdigits | hblank
    · exact (Hex.isPlain_of_mem_byte hdigits).apart
    · rw [List.mem_singleton.mp hblank]
      decide

/-- The words behind the colon of a line are the digits of its bytes. -/
theorem words_writtenBytes (bytes : List UInt8) :
    Text.words (' ' :: bytes.flatMap fun byte ↦ Hex.byte byte ++ [' ']) = bytes.map Hex.byte := by
  have hpieces : Text.pieces Text.isBlank (bytes.flatMap fun byte ↦ Hex.byte byte ++ [' ']) =
      bytes.map Hex.byte := by
    rw [← List.flatMap_map Hex.byte fun part : Text ↦ part ++ [' ']]
    refine Text.pieces_flatMap (fun part hpart character hmem ↦ ?_) rfl
    obtain ⟨byte, -, rfl⟩ := List.mem_map.mp hpart
    exact (Hex.isPlain_of_mem_byte hmem).1
  unfold Text.words
  rw [Text.pieces_cons, if_pos (by decide), hpieces, List.filter_cons_of_neg (by decide),
    List.filter_eq_self]
  intro word hword
  obtain ⟨byte, -, rfl⟩ := List.mem_map.mp hword
  rfl

/-- A line with the digits of an address and of bytes spells them. -/
theorem spellsRow_of_words {address : UInt16} {rest : Text} {bytes : List UInt8}
    (hwords : Text.words rest = bytes.map Hex.byte) :
    SpellsRow (Hex.word address ++ ':' :: rest) ⟨address, bytes⟩ := by
  refine ⟨Hex.word address, rest, bytes.map fun byte ↦ [byte], rfl,
    fun hcolon ↦ (Hex.isPlain_of_mem_word hcolon).2 List.mem_cons_self, ?_, ?_, ?_⟩
  · have hsame : (Hex.word address).filter (fun character ↦ !Text.isBlank character) =
        Hex.word address :=
      List.filter_eq_self.mpr fun character hmem ↦ by rw [(Hex.isPlain_of_mem_word hmem).1]; rfl
    rw [hsame]
    exact (Hex.isNumeral_word address).mono (List.cons_subset_cons _ (List.nil_subset _))
  · rw [← Text.words_eq_filter_splitOnP, hwords, List.forall₂_map_left_iff,
      List.forall₂_map_right_iff, List.forall₂_same]
    exact fun byte _ ↦ ByteToken.spells_byte byte
  · exact (List.flatMap_singleton' _).symm

/-- A line that is written spells the bytes that were dumped. -/
theorem spellsRow_writtenLine (memory : Memory) (address : UInt16) :
    SpellsRow (writtenLine memory address) (writtenRow memory address) :=
  spellsRow_of_words (words_writtenBytes _)

/-- Lines that spell rows and have no comments are the lines that count. -/
theorem forall₂_spellsRow_map {ι : Type} {text : Text} {items : List ι} {line : ι → Text}
    {row : ι → Row} (hlines : text.lines = items.map line)
    (hspells : ∀ item, SpellsRow (line item) (row item))
    (hplain : ∀ item, ∀ character ∈ line item, character ∉ ['#', ';', '/']) :
    List.Forall₂ (fun line row ↦ SpellsRow line.2 row) (countingLines text) (items.map row) := by
  have hstripped : (items.map line).map Text.stripComment = items.map line := by
    rw [List.map_map]
    exact List.map_congr_left fun item _ ↦ Text.stripComment_eq_self (hplain item)
  have hcounting : (countingLines text).map Prod.snd = items.map line := by
    rw [map_snd_countingLines, hlines, hstripped, List.filter_eq_self]
    refine List.forall_mem_map.mpr fun item _ ↦ ?_
    rw [List.all_eq_false.mpr ⟨':', (spellsRow_iff.mp (hspells item)).1, by decide⟩]
    rfl
  have hspell : List.Forall₂ SpellsRow (items.map line) (items.map row) := by
    rw [List.forall₂_map_left_iff, List.forall₂_map_right_iff, List.forall₂_same]
    exact fun item _ ↦ hspells item
  rwa [← hcounting, List.forall₂_map_left_iff] at hspell

/-! ### Rows one after the other -/

/-- The lines that are written, without their line feeds. -/
def writtenLines (memory : Memory) (base : UInt16) (rows : Nat) : List Text :=
  (List.range rows).map fun index ↦ writtenLine memory (base + UInt16.ofNat (16 * index))

/-- What the lines that are written say. -/
def writtenRows (memory : Memory) (base : UInt16) (rows : Nat) : List Row :=
  (List.range rows).map fun index ↦ writtenRow memory (base + UInt16.ofNat (16 * index))

variable {memory : Memory} {base : UInt16}

theorem writtenRows_succ (memory : Memory) (base : UInt16) (rows : Nat) :
    writtenRows memory base (rows + 1) =
      writtenRows memory base rows ++
        [writtenRow memory (base + UInt16.ofNat (16 * rows))] := by
  rw [writtenRows, List.range_succ, List.map_append]
  rfl

/-- Together the rows say the bytes that were dumped. -/
theorem allBytes_writtenRows (memory : Memory) (base : UInt16) (rows : Nat) :
    allBytes (writtenRows memory base rows) = memory.readBytes base (16 * rows) := by
  induction rows with
  | zero => rfl
  | succ rows ih =>
    rw [writtenRows_succ, allBytes_concat, ih, Nat.mul_succ, Memory.readBytes_add]
    rfl

/-- The first row has the address where the dump begins. -/
theorem start_head?_writtenRows (memory : Memory) (base : UInt16) {rows : Nat} (hrows : 1 ≤ rows) :
    (writtenRows memory base rows).head?.map Row.start = some base := by
  cases rows with
  | zero => cases hrows
  | succ rows =>
    rw [writtenRows, List.range_succ_eq_map, List.map_cons]
    exact congrArg some (UInt16.add_zero base)

/-- A row goes on where the rows before it end unless it runs past the last address. -/
theorem continues_writtenRow_iff {rows : Nat} :
    Continues (writtenRows memory base rows)
        (writtenRow memory (base + UInt16.ofNat (16 * rows))) ↔
      base.toNat + 16 * (rows + 1) ≤ 65536 := by
  have horigin : (((writtenRows memory base rows).head?.getD
      (writtenRow memory (base + UInt16.ofNat (16 * rows)))).start) = base := by
    cases rows with
    | zero => exact UInt16.add_zero base
    | succ rows =>
      have hstart := start_head?_writtenRows memory base (Nat.le_add_left 1 rows)
      obtain ⟨first, hfirst, hbase⟩ := Option.map_eq_some_iff.mp hstart
      rw [hfirst]
      exact hbase
  unfold Continues
  rw [horigin, ← writtenRows_succ, allBytes_writtenRows, allBytes_writtenRows,
    Memory.length_readBytes, Memory.length_readBytes]
  constructor
  · exact fun hcontinues ↦ hcontinues.2
  · exact fun hfits ↦ ⟨toNat_add_ofNat base (16 * rows) (by omega), hfits⟩

/-- The rows that are written are contiguous unless they run past the last address. -/
theorem contiguous_writtenRows_iff {rows : Nat} (hrows : 1 ≤ rows) :
    Contiguous (writtenRows memory base rows) ↔ base.toNat + 16 * rows ≤ 65536 := by
  induction rows with
  | zero => cases hrows
  | succ rows ih =>
    rw [writtenRows_succ, contiguous_concat_iff, continues_writtenRow_iff, and_iff_right_iff_imp]
    intro hfits
    cases rows with
    | zero => exact contiguous_nil
    | succ rows => exact (ih (Nat.le_add_left 1 rows)).mpr (by omega)

/-! ### Reading back -/

theorem lines_write (memory : Memory) (base : UInt16) (rows : Nat) :
    (write memory base rows).lines = writtenLines memory base rows := by
  have hwrite : write memory base rows =
      (writtenLines memory base rows).flatMap fun line ↦ line ++ ['\n'] := by
    unfold write writtenLines
    simp only [row_eq_writtenLine, List.flatMap_map]
  rw [hwrite]
  refine Text.pieces_flatMap (List.forall_mem_map.mpr fun index _ character hmem ↦ ?_) rfl
  exact beq_eq_false_iff_ne.mpr (plain_of_mem_writtenLine hmem).1

/-- The lines of a written dump spell the bytes that were dumped. -/
theorem forall₂_spellsRow_write (memory : Memory) (base : UInt16) (rows : Nat) :
    List.Forall₂ (fun line row ↦ SpellsRow line.2 row) (countingLines (write memory base rows))
      (writtenRows memory base rows) :=
  forall₂_spellsRow_map (lines_write memory base rows) (fun _ ↦ spellsRow_writtenLine memory _)
    fun _ _ hmem ↦ (plain_of_mem_writtenLine hmem).2

/-- A written dump is the dump of its bytes unless it runs past the last address. -/
theorem isDump_write_iff {rows : Nat} (hrows : 1 ≤ rows) {image : Image} :
    IsDump (write memory base rows) image ↔
      base.toNat + 16 * rows ≤ 65536 ∧ image = ⟨base, memory.readBytes base (16 * rows)⟩ := by
  have hspell := forall₂_spellsRow_write memory base rows
  have hstart := start_head?_writtenRows memory base hrows
  have hbytes := allBytes_writtenRows memory base rows
  obtain ⟨origin, bytes⟩ := image
  constructor
  · rintro ⟨others, hothers, horigin, hall, -⟩
    obtain rfl := eq_of_forall₂_spellsRow hothers.1 hspell
    rw [hstart] at horigin
    rw [hbytes] at hall
    refine ⟨(contiguous_writtenRows_iff hrows).mp hothers.2, ?_⟩
    rw [Image.mk.injEq]
    exact ⟨(Option.some.inj horigin).symm, hall⟩
  · rintro ⟨hfits, himage⟩
    cases himage
    refine ⟨_, ⟨hspell, (contiguous_writtenRows_iff hrows).mpr hfits⟩, hstart, hbytes.symm,
      List.ne_nil_of_length_pos ?_⟩
    rw [Memory.length_readBytes]
    omega

/-- Whether a machine was given a stretch of a memory as its program: the bytes of the stretch lie
in their places but for the reset vector, which points to the first of them, and everything else is
as it was before. -/
structure Restores (memory : Memory) (base : UInt16) (count : Nat) (machine loaded : Machine) :
    Prop where
  vector_low : loaded.memory.read 0xFFFC = lowByte base
  vector_high : loaded.memory.read 0xFFFD = highByte base
  inside : ∀ place : UInt16, place ≠ 0xFFFC → place ≠ 0xFFFD → base.toNat ≤ place.toNat →
    place.toNat < base.toNat + count → loaded.memory.read place = memory.read place
  outside : ∀ place : UInt16, place ≠ 0xFFFC → place ≠ 0xFFFD →
    place.toNat < base.toNat ∨ base.toNat + count ≤ place.toNat →
      loaded.memory.read place = machine.memory.read place
  others : loaded = { machine with memory := loaded.memory }

theorem restores_withProgram (machine : Machine) {count : Nat}
    (hfits : base.toNat + count ≤ 65536) :
    Restores memory base count machine
      (machine.withProgram (memory.readBytes base count) base) := by
  have hlength : base.toNat + (memory.readBytes base count).length ≤ 65536 := by
    rwa [Memory.length_readBytes]
  have hread := machine.read_withProgram hlength
  refine ⟨hread 0xFFFC, hread 0xFFFD, fun place hlow hhigh hfrom hto ↦ ?_,
    fun place hlow hhigh houtside ↦ ?_, rfl⟩
  · have hsame : base + UInt16.ofNat (place.toNat - base.toNat) = place := by
      rw [← UInt16.toNat_inj, toNat_add_ofNat base _ (by omega)]
      omega
    rw [hread, if_neg hhigh, if_neg hlow, if_pos hfrom, Memory.getElem?_readBytes (by omega), hsame,
      Option.getD_some]
  · rw [hread, if_neg hhigh, if_neg hlow]
    split
    · rw [List.getElem?_eq_none (by rw [Memory.length_readBytes]; omega), Option.getD_none]
    · rfl

/-- What reading a written dump gives. -/
structure ReadsBack (memory : Memory) (base : UInt16) (rows : Nat) : Prop where
  /-- The dump is accepted unless it runs past the last address. -/
  accepts : (read (write memory base rows)).error = none ↔ base.toNat + 16 * rows ≤ 65536
  /-- What is read is what was dumped. -/
  contents : base.toNat + 16 * rows ≤ 65536 →
    (read (write memory base rows)).contents = ⟨base, memory.readBytes base (16 * rows)⟩
  /-- What is read can be loaded as a program into any machine. -/
  loads : base.toNat + 16 * rows ≤ 65536 → ∀ machine : Machine, ∃ loaded,
    machine.loadProgram (read (write memory base rows)).contents.bytes
      (read (write memory base rows)).contents.origin = .ok loaded ∧
        Restores memory base (16 * rows) machine loaded

/-- Memory that was dumped is read back, as long as the dump does not run past the last address. -/
theorem reads_back (memory : Memory) (base : UInt16) {rows : Nat} (hrows : 1 ≤ rows) :
    ReadsBack memory base rows := by
  have hread (hfits : base.toNat + 16 * rows ≤ 65536) :
      read (write memory base rows) = ⟨⟨base, memory.readBytes base (16 * rows)⟩, none⟩ :=
    read_eq_iff.mpr ((isDump_write_iff hrows).mpr ⟨hfits, rfl⟩)
  constructor
  case accepts =>
    constructor
    · intro hnone
      have hdump : read (write memory base rows) =
          ⟨(read (write memory base rows)).contents, none⟩ := by rw [← hnone]
      exact ((isDump_write_iff hrows).mp (read_eq_iff.mp hdump)).1
    · intro hfits
      rw [hread hfits]
  case contents =>
    intro hfits
    rw [hread hfits]
  case loads =>
    intro hfits machine
    rw [hread hfits]
    have hlength : base.toNat + (memory.readBytes base (16 * rows)).length ≤ 65536 := by
      rwa [Memory.length_readBytes]
    exact ⟨_, machine.loadProgram_eq hlength, restores_withProgram machine hfits⟩

/-- The last sixteen addresses can be dumped and read back, and with one more row they cannot. -/
theorem reads_back_of_last_row :
    (1 ≤ 1 ∧ (read (write (Memory.ofFn lowByte) 0xFFF0 1)).error = none) ∧
      1 ≤ 2 ∧ (read (write (Memory.ofFn lowByte) 0xFFF0 2)).error ≠ none :=
  ⟨⟨by decide, (reads_back (Memory.ofFn lowByte) 0xFFF0 (by decide)).accepts.mpr (by decide)⟩,
    by decide, fun hnone ↦ absurd
      ((reads_back (Memory.ofFn lowByte) 0xFFF0 (by decide)).accepts.mp hnone) (by decide)⟩

end HexDump

end Mos6502
