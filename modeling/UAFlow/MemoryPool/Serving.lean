import Mathlib.Algebra.Ring.Nat
import Mathlib.Data.List.Forall2
import Mathlib.Data.List.Induction
import UAFlow.MemoryPool.Model

/-!
# What the pool serves

The pool is an arena of the blocks it has obtained: the structs, linked from the
latest to the first, say where the blocks are and how far they are used.
-/

namespace UAFlow.MemoryPool

open Library

variable {malloc : List Region → UInt64 → UInt64} {heap : Heap} {pool : Mpool}
  {chain : List UInt64} {arena : Arena 16}

/-- What is relied on of the regions `malloc` has returned. -/
structure Handed (obtained : List Region) : Prop where
  aligned : ∀ region ∈ obtained, 16 ∣ region.start
  notNull : ∀ region ∈ obtained, region.start ≠ 0
  inMemory : ∀ region ∈ obtained, region.stop ≤ 2 ^ 64
  apart : obtained.Pairwise Region.Apart

theorem Handed.of_suffix {earlier later : List Region} (handed : Handed later)
    (suffix : earlier <:+ later) : Handed earlier where
  aligned region membership := handed.aligned region (suffix.subset membership)
  notNull region membership := handed.notNull region (suffix.subset membership)
  inMemory region membership := handed.inMemory region (suffix.subset membership)
  apart := handed.apart.sublist suffix.sublist

def Linked (next : UInt64 → UInt64) : UInt64 → List UInt64 → Prop
  | start, [] => start = 0
  | start, p :: rest => start = p ∧ p ≠ 0 ∧ Linked next (next p) rest

theorem Linked.congr {next other : UInt64 → UInt64} {start : UInt64}
    (linked : Linked next start chain) (same : ∀ p ∈ chain, other p = next p) :
    Linked other start chain := by
  induction chain generalizing start with
  | nil => exact linked
  | cons p rest inductionHypothesis =>
      obtain ⟨first, notNull, linked⟩ := linked
      refine ⟨first, notNull, ?_⟩
      rw [same p List.mem_cons_self]
      exact inductionHypothesis linked fun q membership =>
        same q (List.mem_cons_of_mem _ membership)

/-- The region of a block and that of its struct. -/
def dataOf (heap : Heap) (p : UInt64) : Region :=
  ⟨(heap.block p).bp.toNat, (heap.block p).size.toNat⟩

def structOf (p : UInt64) : Region := ⟨p.toNat, sizeofMpoolBlock.toNat⟩

/-- The struct describes the block. -/
def Describes (heap : Heap) (p : UInt64) (block : Block 16) : Prop :=
  block.region = dataOf heap p ∧
    ((heap.block p).free - (heap.block p).bp).toNat = block.used

/-- The pool's structs mirror the arena, and there is nothing else that was obtained. -/
structure Mirrors (heap : Heap) (pool : Mpool) (chain : List UInt64) (arena : Arena 16) :
    Prop where
  linked : Linked (fun p => (heap.block p).next) pool.block chain
  distinct : chain.Nodup
  blocks : List.Forall₂ (Describes heap) chain arena.blocks
  obtained : heap.obtained =
    chain.flatMap (fun p => [dataOf heap p, structOf p]) ++ [⟨pool.self.toNat, sizeofMpool.toNat⟩]

/-! ## Rounding up -/

theorem toNat_and_not_add (word mask : UInt64) :
    (word &&& ~~~mask).toNat + (word &&& mask).toNat = word.toNat := by
  have disjoint : (word &&& ~~~mask).toBitVec &&& (word &&& mask).toBitVec = 0#64 := by
    ext i inside
    simp only [UInt64.toBitVec_and, UInt64.toBitVec_not, BitVec.getElem_and, BitVec.getElem_not]
    cases mask.toBitVec[i] <;> simp
  have joined : (word &&& ~~~mask).toBitVec ||| (word &&& mask).toBitVec = word.toBitVec := by
    ext i inside
    simp only [UInt64.toBitVec_and, UInt64.toBitVec_not, BitVec.getElem_or, BitVec.getElem_and,
      BitVec.getElem_not]
    cases mask.toBitVec[i] <;> simp
  have total := BitVec.toNat_add_of_and_eq_zero disjoint
  rw [BitVec.add_eq_or_of_and_eq_zero _ _ disjoint, joined] at total
  exact total.symm

theorem toNat_and_not_fifteen (word : UInt64) :
    (word &&& ~~~0xF).toNat = word.toNat / 16 * 16 := by
  have low : (word &&& 0xF).toNat = word.toNat % 16 := by
    rw [UInt64.toNat_and]
    exact Nat.and_two_pow_sub_one_eq_mod _ 4
  have total := toNat_and_not_add word 0xF
  omega

theorem toNat_rounded {size : UInt64} (small : size.toNat ≤ 2 ^ 64 - 16) :
    (rounded size).toNat = (size.toNat + 15) / 16 * 16 := by
  rw [rounded, toNat_and_not_fifteen, UInt64.toNat_add, Nat.mod_eq_of_lt]
  · rfl
  · change size.toNat + 15 < 2 ^ 64
    omega

/-! ## The blocks -/

theorem setBlock_self (heap : Heap) (p : UInt64) (value : MpoolBlock) :
    (heap.setBlock p value).block p = value :=
  Function.update_self ..

theorem setBlock_other {p q : UInt64} (other : q ≠ p) (heap : Heap) (value : MpoolBlock) :
    (heap.setBlock p value).block q = heap.block q :=
  Function.update_of_ne other ..

/-- One more struct at `p`, and one more block, of which nothing is used. -/
structure Gains (heap other : Heap) (p bp size next : UInt64) : Prop where
  obtained : other.obtained = ⟨bp.toNat, size.toNat⟩ :: structOf p :: heap.obtained
  new : other.block p = ⟨size, bp, bp, next⟩
  old : ∀ q, q ≠ p → other.block q = heap.block q

theorem mpoolNewBlock_gains (malloc : List Region → UInt64 → UInt64) (heap : Heap)
    (size : UInt64) :
    ∃ other p bp, mpoolNewBlock malloc heap size = (other, p) ∧
      Gains heap other p bp (if size = 0 then mpoolBlockSize else size) 0 :=
  ⟨_, _, _, rfl, rfl, setBlock_self _ _ _, fun _ different => setBlock_other different _ _⟩

theorem mpoolMakeRoom_of_lt (malloc : List Region → UInt64 → UInt64) {room : UInt64}
    (little : (heap.block pool.block).size -
      ((heap.block pool.block).free - (heap.block pool.block).bp) < room) :
    ∃ other p bp size, mpoolMakeRoom malloc heap pool room = (other, { pool with block := p }) ∧
      Gains heap other p bp size pool.block ∧ room ≤ size := by
  obtain ⟨other, p, bp, returned, gains⟩ := mpoolNewBlock_gains malloc heap
    (if room > (heap.block pool.block).size then room else (heap.block pool.block).size)
  have enough : room ≤
      if room > (heap.block pool.block).size then room else (heap.block pool.block).size := by
    split
    next => exact UInt64.le_refl _
    next notMore => exact UInt64.not_lt.mp notMore
  have nonzero : (if room > (heap.block pool.block).size then room
      else (heap.block pool.block).size) ≠ 0 := by
    intro zero
    rw [zero, UInt64.le_iff_toNat_le] at enough
    rw [UInt64.lt_iff_toNat_lt] at little
    exact absurd (Nat.lt_of_lt_of_le little enough) (Nat.not_lt_zero _)
  rw [if_neg nonzero] at gains
  refine ⟨other.setBlock p { other.block p with next := pool.block }, p, bp, _, ?_,
    ⟨gains.obtained, ?_, ?_⟩, enough⟩
  · simp only [mpoolMakeRoom, if_pos little, returned]
  · rw [setBlock_self, gains.new]
  · intro q different
    rw [setBlock_other different, gains.old q different]

theorem mpoolMakeRoom_of_not_lt (malloc : List Region → UInt64 → UInt64) {room : UInt64}
    (much : ¬ (heap.block pool.block).size -
      ((heap.block pool.block).free - (heap.block pool.block).bp) < room) :
    mpoolMakeRoom malloc heap pool room = (heap, pool) := by
  simp only [mpoolMakeRoom, if_neg much]

theorem describes_of_same {other : Heap} {blocks : List (Block 16)}
    (described : List.Forall₂ (Describes heap) chain blocks)
    (same : ∀ p ∈ chain, other.block p = heap.block p) :
    List.Forall₂ (Describes other) chain blocks := by
  induction described with
  | nil => exact List.Forall₂.nil
  | cons describes _ inductionHypothesis =>
      apply List.Forall₂.cons
      · unfold Describes dataOf at *
        rwa [same _ List.mem_cons_self]
      · exact inductionHypothesis fun p membership => same p (List.mem_cons_of_mem _ membership)

theorem exists_describes {blocks : List (Block 16)}
    (described : List.Forall₂ (Describes heap) chain blocks) {block : Block 16}
    (membership : block ∈ blocks) : ∃ p ∈ chain, Describes heap p block := by
  induction described with
  | nil => exact absurd membership List.not_mem_nil
  | cons describes _ inductionHypothesis =>
      rcases List.mem_cons.mp membership with rfl | behind
      · exact ⟨_, List.mem_cons_self, describes⟩
      · obtain ⟨p, present, describes⟩ := inductionHypothesis behind
        exact ⟨p, List.mem_cons_of_mem _ present, describes⟩

theorem mpoolTake_block (heap : Heap) (pool : Mpool) (room : UInt64) (p : UInt64) :
    ∃ free, (mpoolTake heap pool room).1.block p = { heap.block p with free := free } := by
  by_cases here : p = pool.block
  · subst here
    exact ⟨_, setBlock_self heap pool.block _⟩
  · exact ⟨(heap.block p).free, setBlock_other here heap _⟩

theorem toNat_free {bp free : UInt64} {size : Nat} (inMemory : bp.toNat + size ≤ 2 ^ 64)
    (inside : (free - bp).toNat < size) : free.toNat = bp.toNat + (free - bp).toNat := by
  have total : free = bp + (free - bp) := by rw [UInt64.add_comm, UInt64.sub_add_cancel]
  have sum := congrArg UInt64.toNat total
  rw [UInt64.toNat_add, Nat.mod_eq_of_lt (by omega)] at sum
  exact sum

namespace Mirrors

theorem latest (mirrors : Mirrors heap pool chain arena) {block : Block 16}
    {blocks : List (Block 16)} (isLatest : arena.blocks = block :: blocks) :
    ∃ rest, chain = pool.block :: rest ∧ pool.block ≠ 0 ∧ Describes heap pool.block block ∧
      List.Forall₂ (Describes heap) rest blocks := by
  have described := mirrors.blocks
  rw [isLatest] at described
  obtain ⟨p, rest, describes, others, rfl⟩ := List.forall₂_cons_right_iff.mp described
  obtain ⟨same, notNull, _⟩ := mirrors.linked
  rw [same]
  exact ⟨rest, rfl, notNull, describes, others⟩

theorem dataOf_mem (mirrors : Mirrors heap pool chain arena) {p : UInt64} (present : p ∈ chain) :
    dataOf heap p ∈ heap.obtained := by
  rw [mirrors.obtained]
  apply List.mem_append_left
  exact List.mem_flatMap.mpr ⟨p, present, List.mem_cons_self⟩

theorem structOf_mem (mirrors : Mirrors heap pool chain arena) {p : UInt64}
    (present : p ∈ chain) : structOf p ∈ heap.obtained := by
  rw [mirrors.obtained]
  apply List.mem_append_left
  exact List.mem_flatMap.mpr ⟨p, present, List.mem_cons_of_mem _ List.mem_cons_self⟩

theorem take (mirrors : Mirrors heap pool chain arena) (handed : Handed heap.obtained)
    {block : Block 16} {blocks : List (Block 16)} (isLatest : arena.blocks = block :: blocks)
    {size : Nat} {room : UInt64} (small : size ≤ room.toNat) (positive : 0 < room.toNat)
    (roomAligned : 16 ∣ room.toNat) (fits : block.used + room.toNat ≤ block.region.size) :
    Mirrors (mpoolTake heap pool room).1 pool chain
        (arena.serve isLatest size room.toNat small roomAligned fits) ∧
      (mpoolTake heap pool room).2.toNat = block.region.start + block.used := by
  obtain ⟨rest, rfl, notNull, ⟨region, used⟩, described⟩ := mirrors.latest isLatest
  have inMemory := handed.inMemory _ (mirrors.dataOf_mem List.mem_cons_self)
  change (heap.block pool.block).bp.toNat + (heap.block pool.block).size.toNat ≤ 2 ^ 64 at inMemory
  have within : block.used + room.toNat ≤ (heap.block pool.block).size.toNat := by
    rw [region] at fits
    exact fits
  have data : ∀ p, dataOf (mpoolTake heap pool room).1 p = dataOf heap p := by
    intro p
    obtain ⟨free, written⟩ := mpoolTake_block heap pool room p
    simp only [dataOf, written]
  have kept : ∀ p ∈ rest, (mpoolTake heap pool room).1.block p = heap.block p := by
    intro p membership
    apply setBlock_other
    rintro rfl
    exact (List.nodup_cons.mp mirrors.distinct).1 membership
  refine ⟨⟨?_, mirrors.distinct, ?_, ?_⟩, ?_⟩
  · apply mirrors.linked.congr
    intro p _
    obtain ⟨free, written⟩ := mpoolTake_block heap pool room p
    rw [written]
  · apply List.Forall₂.cons _ (describes_of_same described kept)
    refine ⟨region.trans (data pool.block).symm, ?_⟩
    have bounded := (heap.block pool.block).size.toNat_lt
    simp only [mpoolTake, setBlock_self]
    rw [UInt64.add_comm (heap.block pool.block).bp, UInt64.add_sub_cancel, UInt64.toNat_add, used,
      Nat.mod_eq_of_lt (Nat.lt_of_le_of_lt within bounded)]
    rfl
  · simp only [data]
    exact mirrors.obtained
  · rw [region, ← used]
    change (heap.block pool.block).free.toNat = (heap.block pool.block).bp.toNat + _
    apply toNat_free inMemory
    rw [used]
    omega

theorem link (mirrors : Mirrors heap pool chain arena) {other : Heap} {p bp size : UInt64}
    (gains : Gains heap other p bp size pool.block) (handed : Handed other.obtained) :
    ∃ (block : Block 16) (fresh : ∀ former ∈ arena.blocks, block.region.Apart former.region),
      block.used = 0 ∧ block.region.size = size.toNat ∧
      Mirrors other { pool with block := p } (p :: chain) (arena.extend block fresh) := by
  rw [gains.obtained] at handed
  obtain ⟨dataApart, others⟩ := List.pairwise_cons.mp handed.apart
  obtain ⟨structApart, _⟩ := List.pairwise_cons.mp others
  have absent : p ∉ chain := by
    intro present
    have positive : 0 < sizeofMpoolBlock.toNat := by decide
    exact (structApart _ (mirrors.structOf_mem present)).start_ne positive positive rfl
  have kept : ∀ q ∈ chain, other.block q = heap.block q := by
    intro q membership
    apply gains.old
    rintro rfl
    exact absent membership
  have data : dataOf other p = ⟨bp.toNat, size.toNat⟩ := by rw [dataOf, gains.new]
  refine ⟨Block.unused ⟨bp.toNat, size.toNat⟩ (handed.aligned _ List.mem_cons_self), ?_, rfl, rfl,
    ?_⟩
  · intro former membership
    obtain ⟨q, present, region, _⟩ := exists_describes mirrors.blocks membership
    rw [region]
    exact dataApart _ (List.mem_cons_of_mem _ (mirrors.dataOf_mem present))
  · refine ⟨⟨rfl, ?_, ?_⟩, List.nodup_cons.mpr ⟨absent, mirrors.distinct⟩,
      List.Forall₂.cons ⟨data.symm, ?_⟩ (describes_of_same mirrors.blocks kept), ?_⟩
    · rintro rfl
      exact handed.notNull (structOf 0) (List.mem_cons_of_mem _ List.mem_cons_self) rfl
    · simp only [gains.new]
      apply mirrors.linked.congr
      intro q membership
      rw [kept q membership]
    · rw [gains.new, UInt64.sub_self]
      rfl
    · have same : chain.flatMap (fun q => [dataOf other q, structOf q]) =
          chain.flatMap fun q => [dataOf heap q, structOf q] := by
        apply List.flatMap_congr
        intro q membership
        rw [dataOf, kept q membership, dataOf]
      rw [gains.obtained, mirrors.obtained, List.flatMap_cons, data, same]
      rfl

/-- After the first part of `mpool_malloc` the latest block has room. -/
theorem makeRoom (mirrors : Mirrors heap pool chain arena) (some : arena.blocks ≠ [])
    {room : UInt64} (handed : Handed (mpoolMakeRoom malloc heap pool room).1.obtained) :
    ∃ chain after block blocks,
      Mirrors (mpoolMakeRoom malloc heap pool room).1 (mpoolMakeRoom malloc heap pool room).2
        chain after ∧
      after.served = arena.served ∧ after.blocks = block :: blocks ∧
      block.used + room.toNat ≤ block.region.size := by
  obtain ⟨block, blocks, isArena⟩ := List.exists_cons_of_ne_nil some
  obtain ⟨_, _, _, ⟨region, used⟩, _⟩ := mirrors.latest isArena
  have usedUp : (heap.block pool.block).free - (heap.block pool.block).bp ≤
      (heap.block pool.block).size := by
    rw [UInt64.le_iff_toNat_le, used]
    have fits := block.fits
    rw [region] at fits
    exact fits
  by_cases little : (heap.block pool.block).size -
      ((heap.block pool.block).free - (heap.block pool.block).bp) < room
  · obtain ⟨other, p, bp, size, returned, gains, enough⟩ := mpoolMakeRoom_of_lt malloc little
    rw [returned] at handed ⊢
    obtain ⟨new, fresh, unused, whole, linked⟩ := mirrors.link gains handed
    refine ⟨_, _, new, arena.blocks, linked, rfl, rfl, ?_⟩
    rw [unused, whole, Nat.zero_add]
    exact UInt64.le_iff_toNat_le.mp enough
  · rw [mpoolMakeRoom_of_not_lt malloc little]
    refine ⟨chain, arena, block, blocks, mirrors, rfl, isArena, ?_⟩
    rw [UInt64.not_lt, UInt64.le_iff_toNat_le, UInt64.toNat_sub_of_le _ _ usedUp, used] at little
    rw [UInt64.le_iff_toNat_le, used] at usedUp
    rw [region]
    change _ ≤ (heap.block pool.block).size.toNat
    omega

theorem request (mirrors : Mirrors heap pool chain arena) (some : arena.blocks ≠ [])
    {size : UInt64} (positive : 1 ≤ size.toNat) (small : size.toNat ≤ 2 ^ 64 - 16)
    (handed : Handed (mpoolMalloc malloc heap pool size).1.obtained) :
    ∃ chain after,
      Mirrors (mpoolMalloc malloc heap pool size).1 (mpoolMalloc malloc heap pool size).2.1
        chain after ∧
      after.blocks ≠ [] ∧ after.served =
        ⟨(mpoolMalloc malloc heap pool size).2.2.toNat, size.toNat⟩ :: arena.served := by
  obtain ⟨_, _, isArena⟩ := List.exists_cons_of_ne_nil some
  obtain ⟨_, _, notNull, _⟩ := mirrors.latest isArena
  have nonzero : size ≠ 0 := by
    rintro rfl
    exact absurd positive (by decide)
  have goesOn : ¬ (pool.block = 0 ∨ size = 0) := by simp [notNull, nonzero]
  have room := toNat_rounded small
  simp only [mpoolMalloc, if_neg goesOn] at handed ⊢
  obtain ⟨grown, made, block, blocks, mirrorsMade, served, isLatest, fits⟩ :=
    mirrors.makeRoom some handed
  obtain ⟨mirrorsAfter, returned⟩ := mirrorsMade.take handed isLatest
    (room ▸ by omega : size.toNat ≤ (rounded size).toNat) (by omega) (by omega) fits
  refine ⟨_, _, mirrorsAfter, List.cons_ne_nil _ _, ?_⟩
  rw [returned]
  exact congrArg _ served

end Mirrors

/-! ## All requests -/

theorem mirrors_created (memory : UInt64 → MpoolBlock) (size : UInt64)
    (handed : Handed (created malloc memory size).heap.obtained) :
    ∃ chain arena, Mirrors (created malloc memory size).heap (created malloc memory size).pool
      chain arena ∧ arena.blocks ≠ [] ∧ arena.served = [] := by
  obtain ⟨other, p, bp, returned, gains⟩ := mpoolNewBlock_gains malloc
    (Heap.obtain malloc ⟨memory, []⟩ sizeofMpool).1 size
  have isCreated : created malloc memory size =
      ⟨other, ⟨(Heap.obtain malloc ⟨memory, []⟩ sizeofMpool).2, p⟩, []⟩ := by
    simp only [created, mpoolCreate, returned]
  have start : Mirrors (Heap.obtain malloc ⟨memory, []⟩ sizeofMpool).1
      ⟨(Heap.obtain malloc ⟨memory, []⟩ sizeofMpool).2, 0⟩ [] Arena.empty :=
    ⟨rfl, List.nodup_nil, List.Forall₂.nil, rfl⟩
  rw [isCreated] at handed ⊢
  obtain ⟨block, fresh, _, _, linked⟩ := start.link gains handed
  exact ⟨_, _, linked, List.cons_ne_nil _ _, rfl⟩

theorem mpoolMalloc_obtained (heap : Heap) (pool : Mpool) (size : UInt64) :
    heap.obtained <:+ (mpoolMalloc malloc heap pool size).1.obtained := by
  by_cases stops : pool.block = 0 ∨ size = 0
  · simp only [mpoolMalloc, if_pos stops, List.suffix_rfl]
  · simp only [mpoolMalloc, if_neg stops]
    change heap.obtained <:+ (mpoolMakeRoom malloc heap pool (rounded size)).1.obtained
    by_cases little : (heap.block pool.block).size -
        ((heap.block pool.block).free - (heap.block pool.block).bp) < rounded size
    · obtain ⟨other, p, bp, size, returned, gains, _⟩ := mpoolMakeRoom_of_lt malloc little
      rw [returned, gains.obtained]
      exact (List.suffix_cons _ _).trans (List.suffix_cons _ _)
    · simpa only [mpoolMakeRoom_of_not_lt malloc little] using List.suffix_rfl

theorem mirrors_afterRequests (memory : UInt64 → MpoolBlock) (size : UInt64)
    (requests : List UInt64) (sizes : ∀ n ∈ requests, 1 ≤ n.toNat ∧ n.toNat ≤ 2 ^ 64 - 16)
    (handed : Handed (afterRequests malloc memory size requests).heap.obtained) :
    ∃ chain arena, Mirrors (afterRequests malloc memory size requests).heap
        (afterRequests malloc memory size requests).pool chain arena ∧ arena.blocks ≠ [] ∧
      arena.served = (afterRequests malloc memory size requests).served := by
  induction requests using List.reverseRecOn with
  | nil => exact mirrors_created memory size handed
  | append_singleton requests n inductionHypothesis =>
      rw [afterRequests, List.foldl_append] at handed ⊢
      obtain ⟨positive, small⟩ := sizes n (by simp)
      obtain ⟨chain, arena, mirrors, some, served⟩ := inductionHypothesis
        (fun m membership => sizes m (List.mem_append_left _ membership))
        (handed.of_suffix (mpoolMalloc_obtained _ _ n))
      obtain ⟨after, grown, mirrorsAfter, someAfter, servedAfter⟩ :=
        mirrors.request some positive small handed
      rw [served] at servedAfter
      exact ⟨after, grown, mirrorsAfter, someAfter, servedAfter⟩

/-! ## Freeing -/

theorem mpoolFreeLoop_linked {start : UInt64} {fuel : Nat}
    (linked : Linked (fun p => (heap.block p).next) start chain) (enough : chain.length < fuel) :
    mpoolFreeLoop heap fuel start = .ok (chain.flatMap fun p => [(heap.block p).bp, p]) := by
  induction chain generalizing start fuel with
  | nil =>
      obtain ⟨fuel, rfl⟩ := Nat.exists_eq_succ_of_ne_zero (Nat.ne_of_gt enough)
      exact if_pos linked
  | cons p rest inductionHypothesis =>
      obtain ⟨fuel, rfl⟩ := Nat.exists_eq_succ_of_ne_zero (Nat.ne_of_gt (Nat.zero_lt_of_lt enough))
      obtain ⟨rfl, notNull, linked⟩ := linked
      have later := inductionHypothesis linked (Nat.lt_of_succ_lt_succ enough)
      simp only [mpoolFreeLoop, if_neg notNull, later]
      rfl

/-- `mpool_free` frees what `malloc` has returned, each once. -/
theorem Mirrors.free (mirrors : Mirrors heap pool chain arena) (some : arena.blocks ≠ []) :
    ∃ freed, mpoolFree heap pool = .ok freed ∧
      freed.map UInt64.toNat = heap.obtained.map Region.start := by
  obtain ⟨_, _, isArena⟩ := List.exists_cons_of_ne_nil some
  obtain ⟨_, _, notNull, _⟩ := mirrors.latest isArena
  have enough : chain.length < heap.obtained.length + 1 := by
    have two : (chain.map fun p => [dataOf heap p, structOf p].length).sum = chain.length * 2 := by
      simp
    rw [mirrors.obtained, List.length_append, List.length_flatMap, two]
    omega
  have all := mpoolFreeLoop_linked mirrors.linked enough
  refine ⟨chain.flatMap (fun p => [(heap.block p).bp, p]) ++ [pool.self], ?_, ?_⟩
  · simp only [mpoolFree, if_neg notNull, all]
  · rw [mirrors.obtained, List.map_append, List.map_append, List.map_flatMap, List.map_flatMap]
    rfl

/-! ## What the pool guarantees -/

/-- Requests served so: each by a region of its own inside one block, and every block
within reach of `mpool_free`. -/
structure WellServed (serving : Serving) (requests : List UInt64) : Prop where
  sizes : serving.served.map Region.size = (requests.map UInt64.toNat).reverse
  apart : serving.served.Pairwise Region.Apart
  aligned : ∀ part ∈ serving.served, 16 ∣ part.start
  reachable : ∃ chain,
    Linked (fun p => (serving.heap.block p).next) serving.pool.block chain ∧
    serving.heap.obtained = chain.flatMap (fun p => [dataOf serving.heap p, structOf p]) ++
      [⟨serving.pool.self.toNat, sizeofMpool.toNat⟩] ∧
    ∀ part ∈ serving.served, ∃ p ∈ chain, part.Inside (dataOf serving.heap p)
  freed : ∃ freed, mpoolFree serving.heap serving.pool = .ok freed ∧
    freed.map UInt64.toNat = serving.heap.obtained.map Region.start

theorem served_sizes (memory : UInt64 → MpoolBlock) (size : UInt64) (requests : List UInt64) :
    (afterRequests malloc memory size requests).served.map Region.size =
      (requests.map UInt64.toNat).reverse := by
  induction requests using List.reverseRecOn with
  | nil => rfl
  | append_singleton requests n inductionHypothesis =>
      rw [List.map_append, List.reverse_append, ← inductionHypothesis, afterRequests,
        List.foldl_append]
      rfl

/-- Whatever the block size of the pool and the requests, as long as `malloc` keeps its
word the pool keeps its own. -/
theorem requests_wellServed (malloc : List Region → UInt64 → UInt64)
    (memory : UInt64 → MpoolBlock) (size : UInt64) (requests : List UInt64)
    (sizes : ∀ n ∈ requests, 1 ≤ n.toNat ∧ n.toNat ≤ 2 ^ 64 - 16)
    (handed : Handed (afterRequests malloc memory size requests).heap.obtained) :
    WellServed (afterRequests malloc memory size requests) requests := by
  obtain ⟨chain, arena, mirrors, some, served⟩ :=
    mirrors_afterRequests memory size requests sizes handed
  constructor
  · exact served_sizes memory size requests
  · rw [← served]
    exact arena.apart
  · rw [← served]
    exact arena.aligned
  · refine ⟨chain, mirrors.linked, mirrors.obtained, ?_⟩
    rw [← served]
    intro part membership
    obtain ⟨block, present, inside⟩ := arena.inside part membership
    obtain ⟨p, isStruct, region, _⟩ := exists_describes mirrors.blocks present
    refine ⟨p, isStruct, ?_⟩
    rw [← region]
    exact inside.trans block.filled_inside
  · exact mirrors.free some

def mallocPages (obtained : List Region) (_ : UInt64) : UInt64 :=
  4096 * (.ofNat obtained.length + 1)

/-- A pool with blocks of 20 bytes, where one request fills its block to the end, one
needs a new block of the same size and one a larger block. -/
theorem requests_wellServed_small :
    WellServed (afterRequests mallocPages (fun _ => ⟨0, 0, 0, 0⟩) 20 [5, 16, 40]) [5, 16, 40] :=
  requests_wellServed mallocPages (fun _ => ⟨0, 0, 0, 0⟩) 20 [5, 16, 40] (by simp)
    ⟨by decide, by decide, by decide, by decide⟩

end UAFlow.MemoryPool
