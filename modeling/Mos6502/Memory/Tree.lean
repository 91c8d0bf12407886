/-!
Perfect binary trees with one byte at each leaf. A tree of depth `d` holds `2 ^ d` bytes, and the
highest `d` bits of a sixteen-bit index name one of them, highest bit first. Reading and writing
take `d` steps, and a write shares all it does not touch with the tree it came from.

At depth sixteen all bits count: `ByteTree.read_write` says what a write does to every read, and
`ByteTree.ext_read` that a tree is determined by its reads.
-/

set_option autoImplicit false
set_option relaxedAutoImplicit false

namespace Mos6502

/-- A perfect binary tree of bytes. -/
inductive ByteTree : Nat → Type
  | leaf (byte : UInt8) : ByteTree 0
  | node {depth : Nat} (low high : ByteTree depth) : ByteTree (depth + 1)

namespace ByteTree

/-- The byte at an index. Doubling the index moves its next bit to the front. -/
def read : {depth : Nat} → ByteTree depth → UInt16 → UInt8
  | _, .leaf byte, _ => byte
  | _, .node low high, index =>
      if index < 0x8000 then low.read (index + index) else high.read (index + index)

/-- The tree with another byte at an index. -/
def write : {depth : Nat} → ByteTree depth → UInt16 → UInt8 → ByteTree depth
  | _, .leaf _, _, byte => .leaf byte
  | _, .node low high, index, byte =>
      if index < 0x8000 then .node (low.write (index + index) byte) high
      else .node low (high.write (index + index) byte)

/-- The tree with the same byte everywhere. -/
def replicate (byte : UInt8) : (depth : Nat) → ByteTree depth
  | 0 => .leaf byte
  | depth + 1 => .node (replicate byte depth) (replicate byte depth)

/-- The tree whose bytes are given by a function, from the place `base` on. -/
def ofFn (content : Nat → UInt8) : (depth : Nat) → (base : Nat) → ByteTree depth
  | 0, base => .leaf (content base)
  | depth + 1, base => .node (ofFn content depth base) (ofFn content depth (base + 1 <<< depth))

/-- The bytes in ascending order of their indices, in front of `rest`. -/
def toListAppend : {depth : Nat} → ByteTree depth → List UInt8 → List UInt8
  | _, .leaf byte, rest => byte :: rest
  | _, .node low high, rest => low.toListAppend (high.toListAppend rest)

/-- The bytes in ascending order of their indices. -/
def toList {depth : Nat} (tree : ByteTree depth) : List UInt8 := tree.toListAppend []

/-! ### Places -/

/-- The place among `2 ^ depth` bytes that an index names. -/
def place (depth : Nat) (index : UInt16) : Nat := index.toNat >>> (16 - depth)

theorem place_zero (index : UInt16) : place 0 index = 0 := by
  rw [place, Nat.shiftRight_eq_div_pow]
  exact Nat.div_eq_of_lt index.toNat_lt

theorem place_lt (depth : Nat) (shallow : depth ≤ 16) (index : UInt16) :
    place depth index < 1 <<< depth := by
  have small : index.toNat < 65536 := index.toNat_lt
  rw [place, Nat.shiftRight_eq_div_pow, Nat.one_shiftLeft,
    Nat.div_lt_iff_lt_mul (Nat.two_pow_pos _), ← Nat.pow_add]
  rwa [show depth + (16 - depth) = 16 by omega]

/-- The first bit of an index chooses a half, and twice the index is the place in it. -/
theorem place_succ (depth : Nat) (shallow : depth < 16) (index : UInt16) :
    place (depth + 1) index =
      (if index < 0x8000 then 0 else 1 <<< depth) + place depth (index + index) := by
  have small : index.toNat < 65536 := index.toNat_lt
  have width : 16 - depth = (16 - (depth + 1)) + 1 := by omega
  have half : 32768 = 2 ^ (16 - (depth + 1)) * 2 ^ depth := by
    rw [← Nat.pow_add, show 16 - (depth + 1) + depth = 15 by omega]
  simp only [place, width, Nat.shiftRight_eq_div_pow, Nat.one_shiftLeft, UInt16.lt_iff_toNat_lt,
    UInt16.toNat_add, UInt16.reduceToNat]
  generalize 16 - (depth + 1) = bits at *
  have doubled :
      (index.toNat + index.toNat) % 2 ^ 16 / 2 ^ (bits + 1) = index.toNat % 32768 / 2 ^ bits := by
    rw [← Nat.two_mul, show 2 ^ 16 = 2 * 32768 by rfl, Nat.mul_mod_mul_left, Nat.pow_succ,
      Nat.mul_comm _ 2, Nat.mul_div_mul_left _ _ (by omega)]
  rw [doubled]
  split
  · next low => rw [Nat.mod_eq_of_lt low, Nat.zero_add]
  · next high =>
    have parts : index.toNat = 2 ^ bits * 2 ^ depth + index.toNat % 32768 := by omega
    conv => lhs; rw [parts]
    rw [Nat.mul_add_div (Nat.two_pow_pos bits)]

theorem place_succ_eq_iff (depth : Nat) (shallow : depth < 16) (first second : UInt16) :
    place (depth + 1) first = place (depth + 1) second ↔
      (first < 0x8000 ↔ second < 0x8000) ∧
        place depth (first + first) = place depth (second + second) := by
  have firstBound := place_lt depth (by omega) (first + first)
  have secondBound := place_lt depth (by omega) (second + second)
  rw [place_succ depth shallow, place_succ depth shallow]
  by_cases firstLow : first < 0x8000 <;> by_cases secondLow : second < 0x8000 <;>
    simp [firstLow, secondLow] <;> omega

/-! ### Reads after writes -/

/-- A write changes the reads of the place that it names, and no others. -/
theorem read_write {depth : Nat} (shallow : depth ≤ 16) (tree : ByteTree depth)
    (index other : UInt16) (byte : UInt8) :
    (tree.write index byte).read other =
      if place depth index = place depth other then byte else tree.read other := by
  induction tree generalizing index other with
  | leaf old =>
    simp [write, read, place_zero]
  | @node depth low high lowHypothesis highHypothesis =>
    have halves := place_succ_eq_iff depth shallow index other
    have lows := lowHypothesis (by omega) (index + index) (other + other)
    have highs := highHypothesis (by omega) (index + index) (other + other)
    by_cases here : index < 0x8000 <;> by_cases there : other < 0x8000 <;>
      simp [write, read, halves, here, there, lows, highs]

theorem read_replicate (byte : UInt8) (depth : Nat) (index : UInt16) :
    (replicate byte depth).read index = byte := by
  induction depth generalizing index with
  | zero => rfl
  | succ depth ih => simp [replicate, read, ih]

theorem read_ofFn (content : Nat → UInt8) (depth : Nat) (shallow : depth ≤ 16) (base : Nat)
    (index : UInt16) :
    (ofFn content depth base).read index = content (base + place depth index) := by
  induction depth generalizing base index with
  | zero => simp [ofFn, read, place_zero]
  | succ depth ih =>
    rw [place_succ depth shallow]
    simp only [ofFn, read, ih (by omega)]
    split <;> simp [Nat.add_assoc]

/-- A read depends on the place alone. -/
theorem read_congr {depth : Nat} (shallow : depth ≤ 16) (tree : ByteTree depth)
    {first second : UInt16} (same : place depth first = place depth second) :
    tree.read first = tree.read second := by
  induction tree generalizing first second with
  | leaf byte => rfl
  | @node depth low high lowHypothesis highHypothesis =>
    obtain ⟨half, inside⟩ := (place_succ_eq_iff depth shallow first second).mp same
    simp only [read, half, lowHypothesis (by omega) inside, highHypothesis (by omega) inside]

/-- Two trees that give the same byte at every index are equal. -/
theorem ext_read {depth : Nat} (shallow : depth ≤ 16) (first second : ByteTree depth)
    (agree : ∀ index, first.read index = second.read index) : first = second := by
  induction first with
  | leaf byte =>
    cases second with
    | leaf other => exact congrArg leaf (agree 0)
  | @node depth low high lowHypothesis highHypothesis =>
    cases second with
    | node otherLow otherHigh =>
      have halved (index : UInt16) : place depth (index / 2 + index / 2) = place depth index := by
        have small : index.toNat < 65536 := index.toNat_lt
        have even : (index / 2 + index / 2).toNat = 2 * (index.toNat / 2) := by simp; omega
        have width : 16 - depth = 1 + (15 - depth) := by omega
        rw [place, place, even, width, Nat.shiftRight_eq_div_pow, Nat.shiftRight_eq_div_pow,
          Nat.pow_add, ← Nat.div_div_eq_div_mul, ← Nat.div_div_eq_div_mul]
        congr 1
        omega
      have raised (index : UInt16) :
          index / 2 + 0x8000 + (index / 2 + 0x8000) = index / 2 + index / 2 := by
        apply UInt16.toNat_inj.mp
        simp only [UInt16.toNat_add, UInt16.reduceToNat]
        omega
      have isLow (index : UInt16) : index / 2 < 0x8000 := by
        have small : index.toNat < 65536 := index.toNat_lt
        rw [UInt16.lt_iff_toNat_lt]
        simp
        omega
      have isHigh (index : UInt16) : ¬index / 2 + 0x8000 < 0x8000 := by
        have small : index.toNat < 65536 := index.toNat_lt
        rw [UInt16.lt_iff_toNat_lt]
        simp
        omega
      have through (index : UInt16) {one two : ByteTree depth}
          (same : one.read (index / 2 + index / 2) = two.read (index / 2 + index / 2)) :
          one.read index = two.read index := by
        rwa [read_congr (by omega) one (halved index), read_congr (by omega) two (halved index)]
          at same
      have lows : low = otherLow := lowHypothesis (by omega) otherLow fun index ↦ by
        have same := agree (index / 2)
        simp only [read, isLow, if_true] at same
        exact through index same
      have highs : high = otherHigh := highHypothesis (by omega) otherHigh fun index ↦ by
        have same := agree (index / 2 + 0x8000)
        simp only [read, isHigh, if_false, raised] at same
        exact through index same
      rw [lows, highs]

end ByteTree

end Mos6502
