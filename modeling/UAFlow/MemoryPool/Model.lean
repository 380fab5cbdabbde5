import Mathlib.Data.List.Basic
import Mathlib.Logic.Function.Basic
import UAFlow.Library.Arena

/-!
# The memory pool

`flow_core_mpool.c` on machine words.  The structs of the pool's blocks are kept by
their addresses; `malloc` is the one of the C library.
-/

namespace UAFlow.MemoryPool

open Library

def mpoolBlockSize : UInt64 := 24 * 1024

/-- `sizeof(struct mpool_block)` and `sizeof(struct mpool)`. -/
def sizeofMpoolBlock : UInt64 := 32

def sizeofMpool : UInt64 := 8

structure MpoolBlock where
  size : UInt64
  bp : UInt64
  free : UInt64
  next : UInt64

/-- The structs in memory, and what `malloc` has returned, the latest first. -/
structure Heap where
  block : UInt64 → MpoolBlock
  obtained : List Region

/-- A pool and its address. -/
structure Mpool where
  self : UInt64
  block : UInt64

inductive Fault where
  | unfinished
  deriving DecidableEq

def Heap.setBlock (heap : Heap) (address : UInt64) (value : MpoolBlock) : Heap :=
  { heap with block := Function.update heap.block address value }

section

-- the address that `malloc` returns depends on what it has returned so far
variable (malloc : List Region → UInt64 → UInt64)

def Heap.obtain (heap : Heap) (size : UInt64) : Heap × UInt64 :=
  let address := malloc heap.obtained size
  ({ heap with obtained := ⟨address.toNat, size.toNat⟩ :: heap.obtained }, address)

def mpoolNewBlock (heap : Heap) (size : UInt64) : Heap × UInt64 :=
  let size := if size = 0 then mpoolBlockSize else size
  let (heap, block) := heap.obtain malloc sizeofMpoolBlock
  let (heap, bp) := heap.obtain malloc size
  (heap.setBlock block ⟨size, bp, bp, 0⟩, block)

def mpoolCreate (heap : Heap) (size : UInt64) : Heap × Mpool :=
  let (heap, ret) := heap.obtain malloc sizeofMpool
  let (heap, block) := mpoolNewBlock malloc heap size
  (heap, ⟨ret, block⟩)

/-- The part of `mpool_malloc` that makes a new block where too little remains. -/
def mpoolMakeRoom (heap : Heap) (pool : Mpool) (size : UInt64) : Heap × Mpool :=
  let block := heap.block pool.block
  let remain := block.size - (block.free - block.bp)
  if remain < size then
    let blockSize := if size > block.size then size else block.size
    let (heap, newBlock) := mpoolNewBlock malloc heap blockSize
    (heap.setBlock newBlock { heap.block newBlock with next := pool.block },
      { pool with block := newBlock })
  else
    (heap, pool)

/-- The part of `mpool_malloc` that moves `free`. -/
def mpoolTake (heap : Heap) (pool : Mpool) (size : UInt64) : Heap × UInt64 :=
  let block := heap.block pool.block
  let ret := block.free
  (heap.setBlock pool.block { block with free := block.bp + (block.free - block.bp + size) }, ret)

/-- Rounded up to a multiple of 16. -/
def rounded (size : UInt64) : UInt64 := (size + 15) &&& ~~~0xF

/-- `mpool_malloc` of a pool that is not null; 0 is the null pointer. -/
def mpoolMalloc (heap : Heap) (pool : Mpool) (size : UInt64) : Heap × Mpool × UInt64 :=
  if pool.block = 0 ∨ size = 0 then
    (heap, pool, 0)
  else
    let size := rounded size
    let (heap, pool) := mpoolMakeRoom malloc heap pool size
    let (heap, ret) := mpoolTake heap pool size
    (heap, pool, ret)

end

/-- The loop of `mpool_free`, with the addresses it frees. -/
def mpoolFreeLoop (heap : Heap) : Nat → UInt64 → Except Fault (List UInt64)
  | 0, _ => .error .unfinished
  | fuel + 1, p =>
      if p = 0 then
        .ok []
      else
        match mpoolFreeLoop heap fuel (heap.block p).next with
        | .error fault => .error fault
        | .ok freed => .ok ((heap.block p).bp :: p :: freed)

/-- The addresses that `mpool_free` frees, in order. -/
def mpoolFree (heap : Heap) (pool : Mpool) : Except Fault (List UInt64) :=
  if pool.block = 0 then
    .ok [pool.self]
  else
    match mpoolFreeLoop heap (heap.obtained.length + 1) pool.block with
    | .error fault => .error fault
    | .ok freed => .ok (freed ++ [pool.self])

/-! ## Requests -/

/-- A pool with what it has returned, the latest first. -/
structure Serving where
  heap : Heap
  pool : Mpool
  served : List Region

def created (malloc : List Region → UInt64 → UInt64) (memory : UInt64 → MpoolBlock)
    (size : UInt64) : Serving :=
  let (heap, pool) := mpoolCreate malloc ⟨memory, []⟩ size
  ⟨heap, pool, []⟩

def Serving.request (malloc : List Region → UInt64 → UInt64) (serving : Serving)
    (size : UInt64) : Serving :=
  let (heap, pool, ret) := mpoolMalloc malloc serving.heap serving.pool size
  ⟨heap, pool, ⟨ret.toNat, size.toNat⟩ :: serving.served⟩

def afterRequests (malloc : List Region → UInt64 → UInt64) (memory : UInt64 → MpoolBlock)
    (size : UInt64) (requests : List UInt64) : Serving :=
  requests.foldl (Serving.request malloc) (created malloc memory size)

end UAFlow.MemoryPool
