import Mathlib.Data.List.Infix
import Mos6502.Text

/-!
How text is cut up, said with the cutting of lists. The pieces of a text are the parts between
separators, but for an empty part at the end (`Text.splitOnP_eq_pieces`), and its words are the
parts between blanks that are not empty (`Text.words_eq_filter_splitOnP`). Pieces and words that are
written with separators between them are found again (`Text.pieces_intercalate`,
`Text.words_intercalate`). A line is kept up to the earliest place where a comment mark stands
(`Text.stripComment_eq_uncommented`).
-/

set_option autoImplicit false
set_option relaxedAutoImplicit false

namespace Mos6502.Text

/-! ### Pieces -/

section Pieces

variable {isSeparator : Char → Bool}

/-- The pieces are the parts between separators, but for an empty one at the end. -/
theorem splitOnP_eq_pieces (isSeparator : Char → Bool) (text : Text) :
    text.splitOnP isSeparator = pieces isSeparator text ∨
      text.splitOnP isSeparator = pieces isSeparator text ++ [[]] := by
  induction text with
  | nil => exact .inr rfl
  | cons character text ih =>
    rw [List.splitOnP_cons_eq_if_modifyHead, pieces_cons]
    by_cases hends : isSeparator character = true
    · rw [if_pos hends, if_pos hends]
      exact ih.imp (congrArg _) (congrArg _)
    · rw [if_neg hends, if_neg hends]
      rcases ih with hsame | hmore
      · have hsome := List.splitOnP_ne_nil isSeparator text
        rw [hsame] at hsome ⊢
        cases hpieces : pieces isSeparator text with
        | nil => exact absurd hpieces hsome
        | cons first rest => exact .inl rfl
      · rw [hmore]
        cases pieces isSeparator text with
        | nil => exact .inl rfl
        | cons first rest => exact .inr rfl

/-- A piece has characters of the text, and no separators. -/
theorem mem_of_mem_pieces {text piece : Text} (hpiece : piece ∈ pieces isSeparator text)
    {character : Char} (hcharacter : character ∈ piece) :
    character ∈ text ∧ isSeparator character = false := by
  induction text generalizing piece with
  | nil => cases hpiece
  | cons first text ih =>
    rw [pieces_cons] at hpiece
    by_cases hends : isSeparator first = true
    · rw [if_pos hends] at hpiece
      rcases List.mem_cons.mp hpiece with rfl | hrest
      · cases hcharacter
      · exact (ih hrest hcharacter).imp_left (List.mem_cons_of_mem first)
    · rw [if_neg hends] at hpiece
      have hfirst : first ∈ first :: text ∧ isSeparator first = false :=
        ⟨List.mem_cons_self, Bool.eq_false_iff.mpr hends⟩
      cases hpieces : pieces isSeparator text with
      | nil =>
        rw [hpieces, extendFirst, List.mem_singleton] at hpiece
        subst hpiece
        rwa [List.mem_singleton.mp hcharacter]
      | cons head rest =>
        rw [hpieces] at hpiece ih
        rcases List.mem_cons.mp hpiece with rfl | hrest
        · rcases List.mem_cons.mp hcharacter with rfl | hhead
          · exact hfirst
          · exact (ih List.mem_cons_self hhead).imp_left (List.mem_cons_of_mem first)
        · exact (ih (List.mem_cons_of_mem head hrest) hcharacter).imp_left
            (List.mem_cons_of_mem first)

/-- Parts without separators that are each ended by one are the pieces. -/
theorem pieces_flatMap {parts : List Text} {separator : Char}
    (hinside : ∀ part ∈ parts, ∀ character ∈ part, isSeparator character = false)
    (hends : isSeparator separator = true) :
    pieces isSeparator (parts.flatMap fun part ↦ part ++ [separator]) = parts := by
  induction parts with
  | nil => rfl
  | cons part parts ih =>
    rw [List.forall_mem_cons] at hinside
    rw [List.flatMap_cons, List.append_assoc, List.singleton_append,
      pieces_append isSeparator part separator _ hinside.1 hends, ih hinside.2]

theorem mem_intercalate {parts : List Text} {separator character : Char}
    (hmem : character ∈ [separator].intercalate parts) :
    character = separator ∨ ∃ part ∈ parts, character ∈ part := by
  induction parts with
  | nil => cases hmem
  | cons part rest ih =>
    cases rest with
    | nil =>
      rw [List.intercalate_singleton] at hmem
      exact .inr ⟨part, List.mem_cons_self, hmem⟩
    | cons next others =>
      rw [List.intercalate_cons_cons, List.append_assoc, List.mem_append,
        List.singleton_append, List.mem_cons] at hmem
      rcases hmem with hpart | hseparator | hothers
      · exact .inr ⟨part, List.mem_cons_self, hpart⟩
      · exact .inl hseparator
      · obtain hseparator | ⟨other, hother, hcharacter⟩ := ih hothers
        · exact .inl hseparator
        · exact .inr ⟨other, List.mem_cons_of_mem part hother, hcharacter⟩

/-- Parts that are not empty and have no separators are the pieces if a separator stands between
two of them. -/
theorem pieces_intercalate {parts : List Text} {separator : Char}
    (hinside : ∀ part ∈ parts, ∀ character ∈ part, isSeparator character = false)
    (hsome : ∀ part ∈ parts, part ≠ []) (hends : isSeparator separator = true) :
    pieces isSeparator ([separator].intercalate parts) = parts := by
  induction parts with
  | nil => rfl
  | cons part rest ih =>
    rw [List.forall_mem_cons] at hinside hsome
    cases rest with
    | nil =>
      rw [List.intercalate_singleton]
      have hwhole := List.splitOnP_eq_singleton hinside.1
      rcases splitOnP_eq_pieces isSeparator part with hsame | hmore
      · rw [← hsame, hwhole]
      · rw [hwhole] at hmore
        have hempty : part = [] := by simpa using congrArg List.getLast? hmore
        exact absurd hempty hsome.1
    | cons next others =>
      rw [List.intercalate_cons_cons, List.append_assoc, List.singleton_append,
        pieces_append isSeparator part separator _ hinside.1 hends, ih hinside.2 hsome.2]

end Pieces

/-! ### Lines -/

/-- The parts between line feeds are the lines, with the same numbers, but for an empty part at the
end. -/
theorem zipIdx_splitOn_newline (text : Text) :
    (text.splitOn '\n').zipIdx 1 = text.lines.zipIdx 1 ∨
      ∃ number, (text.splitOn '\n').zipIdx 1 = text.lines.zipIdx 1 ++ [([], number)] := by
  rcases splitOnP_eq_pieces (· == '\n') text with hsame | hmore
  · exact .inl (congrArg (List.zipIdx · 1) hsame)
  · refine .inr ⟨1 + text.lines.length, ?_⟩
    rw [List.splitOn, hmore, List.zipIdx_append]
    rfl

/-- The lines are counted from one. -/
theorem numberedLines_eq_map_swap (text : Text) :
    text.numberedLines = (text.lines.zipIdx 1).map Prod.swap := by
  rw [numberedLines, List.zipIdx_succ, List.map_map]
  exact List.map_congr_left fun _ _ ↦ rfl

/-! ### Words -/

/-- The words are the parts between blanks that are not empty. -/
theorem words_eq_filter_splitOnP (text : Text) :
    words text = (text.splitOnP isBlank).filter fun part ↦ !part.isEmpty := by
  unfold words
  rcases splitOnP_eq_pieces isBlank text with hsame | hmore
  · rw [hsame]
  · rw [hmore, List.filter_append]
    exact (List.append_nil _).symm

/-- A word has characters of the text. -/
theorem mem_of_mem_words {text word : Text} (hword : word ∈ words text) {character : Char}
    (hcharacter : character ∈ word) : character ∈ text :=
  (mem_of_mem_pieces (List.mem_filter.mp hword).1 hcharacter).1

/-- No word goes across a blank. -/
theorem words_append_cons (text : Text) {blank : Char} (hblank : isBlank blank = true)
    (rest : Text) : words (text ++ blank :: rest) = words text ++ words rest := by
  rw [words_eq_filter_splitOnP, words_eq_filter_splitOnP, words_eq_filter_splitOnP,
    List.splitOnP_append_cons _ _ hblank, List.filter_append]

theorem words_of_blank {blanks : Text} (hblanks : ∀ character ∈ blanks, isBlank character = true) :
    words blanks = [] := by
  induction blanks with
  | nil => rfl
  | cons blank rest ih =>
    rw [List.forall_mem_cons] at hblanks
    rw [← List.nil_append (blank :: rest), words_append_cons [] hblanks.1, ih hblanks.2]
    rfl

/-- Blanks at the end add no word. -/
theorem words_append_of_blank (text : Text) {blanks : Text}
    (hblanks : ∀ character ∈ blanks, isBlank character = true) :
    words (text ++ blanks) = words text := by
  cases blanks with
  | nil => rw [List.append_nil]
  | cons blank rest =>
    rw [List.forall_mem_cons] at hblanks
    rw [words_append_cons text hblanks.1, words_of_blank hblanks.2, List.append_nil]

theorem words_of_plain {part : Text} (hsome : part ≠ [])
    (hplain : ∀ character ∈ part, isBlank character = false) : words part = [part] := by
  rw [words_eq_filter_splitOnP, List.splitOnP_eq_singleton hplain, List.filter_eq_self]
  simpa using hsome

/-- Parts with a blank between two of them are the words. -/
theorem words_intercalate {parts : List Text}
    (hparts : ∀ part ∈ parts, part ≠ [] ∧ ∀ character ∈ part, isBlank character = false) :
    words ([' '].intercalate parts) = parts := by
  induction parts with
  | nil => rfl
  | cons part rest ih =>
    rw [List.forall_mem_cons] at hparts
    have hpart := words_of_plain hparts.1.1 hparts.1.2
    cases rest with
    | nil => simpa using hpart
    | cons next others =>
      rw [List.intercalate_cons_cons, List.append_assoc, List.singleton_append,
        words_append_cons part rfl, hpart, ih hparts.2]
      rfl

/-- A text is cut at the first place where a character stands. -/
theorem cut_at_first {front : Text} {mark : Char} (hnone : mark ∉ front) (rest : Text) :
    (front ++ mark :: rest).takeWhile (· != mark) = front ∧
      ((front ++ mark :: rest).dropWhile (· != mark)).drop 1 = rest := by
  have hother : ∀ character ∈ front, (character != mark) = true := fun character hmem ↦
    bne_iff_ne.mpr fun heq ↦ hnone (heq ▸ hmem)
  rw [List.takeWhile_append_of_pos hother, List.dropWhile_append_of_pos hother]
  simp

/-! ### Comments -/

/-- The texts that open a comment. -/
def commentMarks : List Text := ["#".toList, ";".toList, "//".toList]

/-- The text in front of the earliest place where a comment mark stands. -/
def uncommented (text : Text) : Text :=
  text.take (text.tails.findIdx fun rest ↦ commentMarks.any fun mark ↦ mark.isPrefixOf rest)

/-- A comment mark stands at the front of a text if its first two characters open a comment. -/
theorem any_isPrefixOf_cons (character : Char) (text : Text) :
    (commentMarks.any fun mark ↦ mark.isPrefixOf (character :: text)) =
      opensComment character (text.headD '\n') := by
  have hsame (mark : Char) : (mark == character) = (character == mark) := BEq.comm
  cases text with
  | nil => simp [commentMarks, opensComment, List.isPrefixOf, hsame]
  | cons next rest => simp [commentMarks, opensComment, List.isPrefixOf, BEq.comm, Bool.or_assoc]

/-- A comment starts at the earliest mark. -/
theorem stripComment_eq_uncommented (text : Text) : stripComment text = uncommented text := by
  induction text with
  | nil => rfl
  | cons character text ih =>
    rw [stripComment_cons, ih, uncommented, uncommented, List.tails, List.findIdx_cons,
      any_isPrefixOf_cons]
    cases opensComment character (text.headD '\n') with
    | true => rfl
    | false => rfl

/-- A text without the characters of comment marks is kept whole. -/
theorem stripComment_eq_self {text : Text}
    (hplain : ∀ character ∈ text, character ∉ ['#', ';', '/']) : stripComment text = text := by
  induction text with
  | nil => rfl
  | cons character text ih =>
    rw [List.forall_mem_cons] at hplain
    have hopens : opensComment character (text.headD '\n') = false := by
      simp only [List.mem_cons, List.not_mem_nil, or_false, not_or] at hplain
      simp [opensComment, hplain.1]
    rw [stripComment_cons, hopens, ih hplain.2]
    rfl

end Mos6502.Text
