/-!
Sets of breakpoints, kept as ascending lists of addresses without repetitions. `mem_insert` and
`mem_erase` say what the two changes do.
-/

set_option autoImplicit false
set_option relaxedAutoImplicit false

namespace Mos6502

/-- A set of addresses in ascending order. -/
structure Breakpoints where
  addresses : List UInt16 := []
  ascending : addresses.Pairwise (· < ·) := by exact List.Pairwise.nil

namespace Breakpoints

def empty : Breakpoints := {}

def isEmpty (breakpoints : Breakpoints) : Bool := breakpoints.addresses.isEmpty

/-- Whether an address is in the set. -/
def contains (breakpoints : Breakpoints) (address : UInt16) : Bool :=
  breakpoints.addresses.contains address

/-- Adds an address, in its place. -/
def insert (breakpoints : Breakpoints) (address : UInt16) : Breakpoints where
  addresses :=
    breakpoints.addresses.filter (· < address) ++
      address :: breakpoints.addresses.filter (address < ·)
  ascending := by
    have ordered (keep : UInt16 → Bool) := breakpoints.ascending.filter keep
    rw [List.pairwise_append]
    refine ⟨ordered _, List.pairwise_cons.mpr ⟨fun other member ↦ ?_, ordered _⟩, ?_⟩
    · simpa using (List.mem_filter.mp member).2
    · intro before inBefore after inAfter
      have low : before < address := by simpa using (List.mem_filter.mp inBefore).2
      rcases List.mem_cons.mp inAfter with rfl | inRest
      · exact low
      · have high : address < after := by simpa using (List.mem_filter.mp inRest).2
        exact UInt16.lt_trans low high

/-- Removes an address, if it is there. -/
def erase (breakpoints : Breakpoints) (address : UInt16) : Breakpoints where
  addresses := breakpoints.addresses.filter (· ≠ address)
  ascending := breakpoints.ascending.filter _

/-- The set of the addresses in a list. -/
def ofList (addresses : List UInt16) : Breakpoints := addresses.foldl insert empty

theorem mem_insert (breakpoints : Breakpoints) (address other : UInt16) :
    other ∈ (breakpoints.insert address).addresses ↔
      other = address ∨ other ∈ breakpoints.addresses := by
  simp only [insert, List.mem_append, List.mem_cons, List.mem_filter, decide_eq_true_eq]
  constructor
  · rintro (⟨member, _⟩ | rfl | ⟨member, _⟩) <;> simp_all
  · rintro (rfl | member)
    · simp
    · rcases Nat.lt_trichotomy other.toNat address.toNat with low | same | high
      · exact Or.inl ⟨member, UInt16.lt_iff_toNat_lt.mpr low⟩
      · exact Or.inr (Or.inl (UInt16.toNat_inj.mp same))
      · exact Or.inr (Or.inr ⟨member, UInt16.lt_iff_toNat_lt.mpr high⟩)

theorem mem_erase (breakpoints : Breakpoints) (address other : UInt16) :
    other ∈ (breakpoints.erase address).addresses ↔
      other ∈ breakpoints.addresses ∧ other ≠ address := by
  simp [erase]

end Breakpoints

end Mos6502
