import Mathlib.Data.List.Basic
import Mathlib.Data.Nat.Basic

/-!
# Regions served from blocks

An arena has blocks that do not overlap and serves regions out of the latest of
them, each behind the regions served before.  What has been served never overlaps.
-/

namespace UAFlow.Library

structure Region where
  start : Nat
  size : Nat
  deriving DecidableEq

namespace Region

def stop (region : Region) : Nat := region.start + region.size

def Apart (first second : Region) : Prop :=
  first.stop ≤ second.start ∨ second.stop ≤ first.start

def Inside (part whole : Region) : Prop :=
  whole.start ≤ part.start ∧ part.stop ≤ whole.stop

instance (first second : Region) : Decidable (first.Apart second) :=
  inferInstanceAs (Decidable (_ ∨ _))

variable {first second part other whole : Region}

theorem Apart.symm (apart : first.Apart second) : second.Apart first := Or.symm apart

theorem Inside.trans (inner : part.Inside other) (outer : other.Inside whole) :
    part.Inside whole :=
  ⟨Nat.le_trans outer.1 inner.1, Nat.le_trans inner.2 outer.2⟩

theorem Apart.mono (apart : first.Apart second) (left : part.Inside first)
    (right : other.Inside second) : part.Apart other := by
  rcases apart with before | behind
  · exact Or.inl (Nat.le_trans left.2 (Nat.le_trans before right.1))
  · exact Or.inr (Nat.le_trans right.2 (Nat.le_trans behind left.1))

theorem Apart.start_ne (apart : first.Apart second) (firstSize : 0 < first.size)
    (secondSize : 0 < second.size) : first.start ≠ second.start := by
  unfold Apart stop at apart
  omega

end Region

/-- A block whose first `used` places have been given away. -/
structure Block (unit : Nat) where
  region : Region
  used : Nat
  fits : used ≤ region.size
  startAligned : unit ∣ region.start
  usedAligned : unit ∣ used

namespace Block

variable {unit : Nat}

/-- What has been given away. -/
def filled (block : Block unit) : Region := ⟨block.region.start, block.used⟩

theorem filled_inside (block : Block unit) : block.filled.Inside block.region :=
  ⟨le_rfl, Nat.add_le_add_left block.fits _⟩

def unused (region : Region) (aligned : unit ∣ region.start) : Block unit :=
  ⟨region, 0, Nat.zero_le _, aligned, Nat.dvd_zero unit⟩

def take (block : Block unit) (room : Nat) (fits : block.used + room ≤ block.region.size)
    (roomAligned : unit ∣ room) : Block unit :=
  { block with
    used := block.used + room
    fits := fits
    usedAligned := Nat.dvd_add block.usedAligned roomAligned }

end Block

/-- Blocks and what was served from them, both with the latest first. -/
structure Arena (unit : Nat) where
  blocks : List (Block unit)
  served : List Region
  blocksApart : blocks.Pairwise fun first second => first.region.Apart second.region
  inside : ∀ part ∈ served, ∃ block ∈ blocks, part.Inside block.filled
  apart : served.Pairwise Region.Apart
  aligned : ∀ part ∈ served, unit ∣ part.start

namespace Arena

variable {unit : Nat}

def empty : Arena unit where
  blocks := []
  served := []
  blocksApart := List.Pairwise.nil
  inside := nofun
  apart := List.Pairwise.nil
  aligned := nofun

/-- One more block. -/
def extend (arena : Arena unit) (block : Block unit)
    (fresh : ∀ other ∈ arena.blocks, block.region.Apart other.region) : Arena unit where
  blocks := block :: arena.blocks
  served := arena.served
  blocksApart := List.pairwise_cons.mpr ⟨fresh, arena.blocksApart⟩
  inside part membership := by
    obtain ⟨other, present, inside⟩ := arena.inside part membership
    exact ⟨other, List.mem_cons_of_mem _ present, inside⟩
  apart := arena.apart
  aligned := arena.aligned

/-- What is served next from a block. -/
def nextPart (block : Block unit) (size : Nat) : Region := ⟨block.region.start + block.used, size⟩

/-- Nothing served before reaches behind what its block has given away, and so the
next part of the latest block is apart from all of it. -/
theorem nextPart_apart (arena : Arena unit) {block : Block unit} {rest : List (Block unit)}
    (latest : arena.blocks = block :: rest) {size : Nat}
    (fits : block.used + size ≤ block.region.size) :
    ∀ part ∈ arena.served, (nextPart block size).Apart part := by
  intro part membership
  obtain ⟨other, present, inside⟩ := arena.inside part membership
  rw [latest] at present
  rcases List.mem_cons.mp present with rfl | earlier
  · exact Or.inr inside.2
  · have blocksApart := arena.blocksApart
    rw [latest, List.pairwise_cons] at blocksApart
    apply (blocksApart.1 other earlier).mono _ (inside.trans other.filled_inside)
    constructor
    · exact Nat.le_add_right _ _
    · simp only [nextPart, Region.stop]
      omega

/-- Serves `size` places and gives away `room` from the latest block. -/
def serve (arena : Arena unit) {block : Block unit} {rest : List (Block unit)}
    (latest : arena.blocks = block :: rest) (size room : Nat) (small : size ≤ room)
    (roomAligned : unit ∣ room) (fits : block.used + room ≤ block.region.size) :
    Arena unit where
  blocks := block.take room fits roomAligned :: rest
  served := nextPart block size :: arena.served
  blocksApart := by
    have blocksApart := arena.blocksApart
    rw [latest, List.pairwise_cons] at blocksApart
    exact List.pairwise_cons.mpr blocksApart
  inside part membership := by
    rcases List.mem_cons.mp membership with rfl | earlier
    · refine ⟨_, List.mem_cons_self, Nat.le_add_right _ _, ?_⟩
      simp only [nextPart, Block.filled, Block.take, Region.stop]
      omega
    · obtain ⟨other, present, inside⟩ := arena.inside part earlier
      rw [latest] at present
      rcases List.mem_cons.mp present with rfl | behind
      · refine ⟨_, List.mem_cons_self, inside.trans ⟨le_rfl, ?_⟩⟩
        simp only [Block.filled, Block.take, Region.stop]
        omega
      · exact ⟨other, List.mem_cons_of_mem _ behind, inside⟩
  apart := List.pairwise_cons.mpr ⟨arena.nextPart_apart latest (by omega), arena.apart⟩
  aligned part membership := by
    rcases List.mem_cons.mp membership with rfl | earlier
    · exact Nat.dvd_add block.startAligned block.usedAligned
    · exact arena.aligned part earlier

end Arena

end UAFlow.Library
