import Mathlib.Data.List.Pairwise
import Mathlib.Tactic.SplitIfs

/-!
# Blocks told apart by their colours

A line of cells below `bound` is cut into blocks of consecutive cells and free
cells between them. Only a colour per cell is stored. If every block has one
colour and blocks that touch have different ones, each block can be read back
from the colours: it is the run of equal colour from its first cell. Blocks may
reach past the bound; only their cells below it count.
-/

namespace ParadiseOS.ColouredLine

set_option autoImplicit false

structure Block where
  start : Nat
  size : Nat
  deriving DecidableEq, Repr

def Block.stop (block : Block) : Nat := block.start + block.size

def Block.Covers (block : Block) (cell : Nat) : Prop := block.start ≤ cell ∧ cell < block.stop

instance (block : Block) (cell : Nat) : Decidable (block.Covers cell) :=
  inferInstanceAs (Decidable (block.start ≤ cell ∧ cell < block.stop))

/-- Two blocks share no cell below the bound. -/
def Apart (bound : Nat) (left right : Block) : Prop :=
  ∀ cell, cell < bound → ¬ (left.Covers cell ∧ right.Covers cell)

variable {Colour : Type}

structure Coloured (free : Colour) (bound : Nat) (colour : Nat → Colour) (blocks : List Block) :
    Prop where
  inhabited : ∀ block ∈ blocks, block.start < bound ∧ 0 < block.size
  apart : blocks.Pairwise (Apart bound)
  used_iff : ∀ cell, cell < bound → (colour cell ≠ free ↔ ∃ block ∈ blocks, block.Covers cell)
  uniform : ∀ block ∈ blocks, ∀ cell, cell < bound → block.Covers cell →
    colour cell = colour block.start
  separated : ∀ left ∈ blocks, ∀ right ∈ blocks, left.stop = right.start →
    colour left.start ≠ colour right.start

/-- The blocks without the one that starts at `start`. -/
def dropStart (blocks : List Block) (start : Nat) : List Block :=
  blocks.filter fun block => decide (block.start ≠ start)

theorem mem_drop_start {blocks : List Block} {start : Nat} {block : Block} :
    block ∈ dropStart blocks start ↔ block ∈ blocks ∧ block.start ≠ start := by
  simp [dropStart]

variable {free : Colour} {bound : Nat} {colour after : Nat → Colour} {blocks : List Block}

instance apart_symmetric : Std.Symm (Apart bound) :=
  ⟨fun _ _ separate cell below both => separate cell below ⟨both.2, both.1⟩⟩

theorem coloured_nil (clear : ∀ cell, cell < bound → colour cell = free) :
    Coloured free bound colour [] where
  inhabited := by simp
  apart := List.Pairwise.nil
  used_iff cell below := by simp [clear cell below]
  uniform := by simp
  separated := by simp

namespace Coloured

variable (coloured : Coloured free bound colour blocks)

include coloured

theorem covers_start {block : Block} (member : block ∈ blocks) : block.Covers block.start :=
  ⟨Nat.le_refl _, Nat.lt_add_of_pos_right (coloured.inhabited block member).2⟩

theorem used {block : Block} (member : block ∈ blocks) {cell : Nat} (below : cell < bound)
    (covers : block.Covers cell) : colour cell ≠ free :=
  (coloured.used_iff cell below).mpr ⟨block, member, covers⟩

theorem start_used {block : Block} (member : block ∈ blocks) : colour block.start ≠ free :=
  coloured.used member (coloured.inhabited block member).1 (coloured.covers_start member)

theorem eq_of_covers {left right : Block} (leftMember : left ∈ blocks)
    (rightMember : right ∈ blocks) {cell : Nat} (below : cell < bound)
    (leftCovers : left.Covers cell) (rightCovers : right.Covers cell) : left = right := by
  by_contra different
  exact coloured.apart.forall leftMember rightMember different cell below
    ⟨leftCovers, rightCovers⟩

theorem eq_of_start {left right : Block} (leftMember : left ∈ blocks)
    (rightMember : right ∈ blocks) (same : left.start = right.start) : left = right :=
  coloured.eq_of_covers leftMember rightMember (coloured.inhabited left leftMember).1
    (coloured.covers_start leftMember) (same ▸ coloured.covers_start rightMember)

/-- A block that covers the cell after another one starts there. -/
theorem start_of_touching {left right : Block} (leftMember : left ∈ blocks)
    (rightMember : right ∈ blocks) (below : left.stop < bound) (covers : right.Covers left.stop) :
    left.stop = right.start := by
  by_contra different
  have size := (coloured.inhabited left leftMember).2
  have stop : left.stop = left.start + left.size := rfl
  have shared : left = right := by
    apply coloured.eq_of_covers leftMember rightMember (show left.stop - 1 < bound by omega)
    · exact ⟨by omega, by omega⟩
    · exact ⟨by have low := covers.1; omega, by have high := covers.2; omega⟩
  rw [shared] at covers
  exact Nat.lt_irrefl _ covers.2

/-- The run of a block's colour ends with the block. -/
theorem run_end {block : Block} (member : block ∈ blocks) (below : block.stop < bound) :
    colour block.stop ≠ colour block.start := by
  intro same
  have usedHere : colour block.stop ≠ free := same ▸ coloured.start_used member
  obtain ⟨next, nextMember, covers⟩ := (coloured.used_iff _ below).mp usedHere
  have touching := coloured.start_of_touching member nextMember below covers
  apply coloured.separated block member next nextMember touching
  rw [← touching, same]

/-- The cell before a block has another colour. -/
theorem left_differs {block : Block} (member : block ∈ blocks) (interior : 0 < block.start) :
    colour (block.start - 1) ≠ colour block.start := by
  intro same
  have below : block.start - 1 < bound := by
    have inside := (coloured.inhabited block member).1
    omega
  have usedHere : colour (block.start - 1) ≠ free := same ▸ coloured.start_used member
  obtain ⟨previous, previousMember, covers⟩ := (coloured.used_iff _ below).mp usedHere
  have touching : previous.stop = block.start := by
    by_contra different
    have shared : previous = block := by
      apply coloured.eq_of_covers previousMember member (coloured.inhabited block member).1 _
        (coloured.covers_start member)
      exact ⟨by have low := covers.1; omega, by have high := covers.2; omega⟩
    have low := covers.1
    rw [shared] at low
    omega
  apply coloured.separated previous previousMember block member touching
  rw [← coloured.uniform previous previousMember _ below covers, same]

/-- Only the cells below the bound matter. -/
theorem congr (agree : ∀ cell, cell < bound → after cell = colour cell) :
    Coloured free bound after blocks where
  inhabited := coloured.inhabited
  apart := coloured.apart
  used_iff cell below := by rw [agree cell below, coloured.used_iff cell below]
  uniform block member cell below covers := by
    rw [agree cell below, agree _ (coloured.inhabited block member).1,
      coloured.uniform block member cell below covers]
  separated left leftMember right rightMember touching := by
    rw [agree _ (coloured.inhabited left leftMember).1,
      agree _ (coloured.inhabited right rightMember).1]
    exact coloured.separated left leftMember right rightMember touching

/-- Freeing the cells of one block leaves the others as they were. -/
theorem remove {block : Block} (member : block ∈ blocks)
    (cleared : ∀ cell, cell < bound → after cell = if block.Covers cell then free else colour cell) :
    Coloured free bound after (dropStart blocks block.start) := by
  have kept : ∀ other ∈ dropStart blocks block.start, ∀ cell, cell < bound → other.Covers cell →
      after cell = colour cell := by
    intro other otherMember cell below covers
    obtain ⟨original, different⟩ := mem_drop_start.mp otherMember
    rw [cleared cell below, if_neg]
    intro shared
    exact different (by rw [coloured.eq_of_covers original member below covers shared])
  have keptStart : ∀ other ∈ dropStart blocks block.start,
      after other.start = colour other.start := by
    intro other otherMember
    have original := (mem_drop_start.mp otherMember).1
    exact kept other otherMember _ (coloured.inhabited other original).1
      (coloured.covers_start original)
  refine ⟨?_, ?_, ?_, ?_, ?_⟩
  · intro other otherMember
    exact coloured.inhabited other (mem_drop_start.mp otherMember).1
  · exact coloured.apart.filter _
  · intro cell below
    constructor
    · intro usedAfter
      have outside : ¬ block.Covers cell := by
        intro covers
        exact usedAfter (by rw [cleared cell below, if_pos covers])
      rw [cleared cell below, if_neg outside] at usedAfter
      obtain ⟨other, otherMember, covers⟩ := (coloured.used_iff cell below).mp usedAfter
      refine ⟨other, mem_drop_start.mpr ⟨otherMember, ?_⟩, covers⟩
      intro same
      rw [coloured.eq_of_start otherMember member same] at covers
      exact outside covers
    · rintro ⟨other, otherMember, covers⟩
      rw [kept other otherMember cell below covers]
      exact coloured.used (mem_drop_start.mp otherMember).1 below covers
  · intro other otherMember cell below covers
    rw [kept other otherMember cell below covers, keptStart other otherMember]
    exact coloured.uniform other (mem_drop_start.mp otherMember).1 cell below covers
  · intro left leftMember right rightMember touching
    rw [keptStart left leftMember, keptStart right rightMember]
    exact coloured.separated left (mem_drop_start.mp leftMember).1 right
      (mem_drop_start.mp rightMember).1 touching

/-- A block on free cells may be added in any used colour that differs from the
colours of the two cells next to it. -/
theorem insert (block : Block) {fresh : Colour} (inside : block.start < bound)
    (nonempty : 0 < block.size)
    (vacant : ∀ cell, cell < bound → block.Covers cell → colour cell = free)
    (freshUsed : fresh ≠ free)
    (leftDiffers : 0 < block.start → fresh ≠ colour (block.start - 1))
    (rightDiffers : block.stop < bound → fresh ≠ colour block.stop)
    (painted : ∀ cell, cell < bound → after cell = if block.Covers cell then fresh else colour cell) :
    Coloured free bound after (block :: blocks) := by
  have clear : ∀ other ∈ blocks, ∀ cell, cell < bound → other.Covers cell →
      ¬ block.Covers cell := by
    intro other otherMember cell below covers shared
    exact coloured.used otherMember below covers (vacant cell below shared)
  have kept : ∀ other ∈ blocks, ∀ cell, cell < bound → other.Covers cell →
      after cell = colour cell := by
    intro other otherMember cell below covers
    rw [painted cell below, if_neg (clear other otherMember cell below covers)]
  have keptStart : ∀ other ∈ blocks, after other.start = colour other.start := by
    intro other otherMember
    exact kept other otherMember _ (coloured.inhabited other otherMember).1
      (coloured.covers_start otherMember)
  have stop : block.stop = block.start + block.size := rfl
  have ownStart : block.Covers block.start := ⟨Nat.le_refl _, by omega⟩
  have freshStart : after block.start = fresh := by rw [painted _ inside, if_pos ownStart]
  refine ⟨?_, ?_, ?_, ?_, ?_⟩
  · intro other otherMember
    rcases List.mem_cons.mp otherMember with same | original
    · exact same ▸ ⟨inside, nonempty⟩
    · exact coloured.inhabited other original
  · refine List.pairwise_cons.mpr ⟨?_, coloured.apart⟩
    intro other otherMember cell below both
    exact clear other otherMember cell below both.2 both.1
  · intro cell below
    by_cases covers : block.Covers cell
    · rw [painted cell below, if_pos covers]
      exact ⟨fun _ => ⟨block, by simp, covers⟩, fun _ => freshUsed⟩
    · rw [painted cell below, if_neg covers, coloured.used_iff cell below]
      simp [covers]
  · intro other otherMember cell below covers
    rcases List.mem_cons.mp otherMember with same | original
    · subst other
      rw [painted cell below, if_pos covers, freshStart]
    · rw [kept other original cell below covers, keptStart other original]
      exact coloured.uniform other original cell below covers
  · intro left leftMember right rightMember touching
    rcases List.mem_cons.mp leftMember with sameLeft | leftOriginal
    · subst left
      rcases List.mem_cons.mp rightMember with sameRight | rightOriginal
      · subst right
        omega
      · have below := (coloured.inhabited right rightOriginal).1
        rw [freshStart, keptStart right rightOriginal, ← touching]
        exact rightDiffers (touching ▸ below)
    · rcases List.mem_cons.mp rightMember with sameRight | rightOriginal
      · subst right
        have size := (coloured.inhabited left leftOriginal).2
        have leftStop : left.stop = left.start + left.size := rfl
        have lastCovered : left.Covers (block.start - 1) := ⟨by omega, by omega⟩
        have colourLeft := coloured.uniform left leftOriginal (block.start - 1) (by omega) lastCovered
        rw [freshStart, keptStart left leftOriginal, ← colourLeft]
        exact (leftDiffers (by omega)).symm
      · rw [keptStart left leftOriginal, keptStart right rightOriginal]
        exact coloured.separated left leftOriginal right rightOriginal touching

/-- A block may change its size in place, in its old colour or another one, as long
as the cells it gains were free and the cells next to it keep other colours. -/
theorem replace {block : Block} (member : block ∈ blocks) {size : Nat} {fresh : Colour}
    (nonempty : 0 < size) (freshUsed : fresh ≠ free)
    (vacant : ∀ cell, cell < bound → block.start ≤ cell → cell < block.start + size →
      ¬ block.Covers cell → colour cell = free)
    (leftDiffers : 0 < block.start → fresh ≠ colour (block.start - 1))
    (rightDiffers : block.start + size < bound → ¬ block.Covers (block.start + size) →
      fresh ≠ colour (block.start + size))
    (painted : ∀ cell, cell < bound → after cell =
      if block.start ≤ cell ∧ cell < block.start + size then fresh
      else if block.Covers cell then free else colour cell) :
    Coloured free bound after (⟨block.start, size⟩ :: dropStart blocks block.start) := by
  have removed : Coloured free bound (fun cell => if block.Covers cell then free else colour cell)
      (dropStart blocks block.start) := coloured.remove member (fun cell _ => rfl)
  refine removed.insert ⟨block.start, size⟩ (coloured.inhabited block member).1 nonempty
    ?_ freshUsed ?_ ?_ painted
  · rintro cell below ⟨low, high⟩
    by_cases covers : block.Covers cell
    · exact if_pos covers
    · exact (if_neg covers).trans (vacant cell below low high covers)
  · intro interior
    have positive : 0 < block.start := interior
    change fresh ≠ if block.Covers (block.start - 1) then free else colour (block.start - 1)
    rw [if_neg (fun covers => by have low := covers.1; omega)]
    exact leftDiffers interior
  · intro interior
    change fresh ≠ if block.Covers (block.start + size) then free else colour (block.start + size)
    by_cases covers : block.Covers (block.start + size)
    · rw [if_pos covers]
      exact freshUsed
    · rw [if_neg covers]
      exact rightDiffers interior covers

end Coloured
end ParadiseOS.ColouredLine
