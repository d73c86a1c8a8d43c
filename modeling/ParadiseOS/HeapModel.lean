import ParadiseOS.KernelTrap
import ParadiseOS.MachineWord

/-!
# The page allocator of `memory/heap.c`

A heap hands out runs of pages and records their use in a packed map of two bits
a page. The extent of an allocation is not stored: it is the run of equal
colour from its first page. The map is kept here as the bytes that lie at
`usage_map`; the bytes after the map proper belong to whatever is mapped there
and are read and written by the scans that pass `page_count`.
-/

namespace ParadiseOS.HeapModel

open MachineWord

set_option autoImplicit false

structure Heap where
  usageMap : Nat → UInt8
  heapStart : Nat
  pageCount : Nat

def heapPageFree : Nat := 0

/-- `heap_get_usage`: four pages share a byte, the first in the high bits. -/
def heapGetUsage (heap : Heap) (index : Nat) : Nat :=
  let byteIdx := index / 4
  let bitPairIdx := 6 - 2 * (index % 4)
  ((heap.usageMap byteIdx).toNat >>> bitPairIdx) &&& 0b11

/-- The byte with one two-bit field replaced; the mask `~((u8) 0b11 << shift)` is
cut to the byte it is stored in. -/
def setBitPair (byte : UInt8) (bitPairIdx usage : Nat) : UInt8 :=
  UInt8.ofNat ((byte.toNat &&& (0xFF ^^^ (0b11 <<< bitPairIdx))) ||| (usage <<< bitPairIdx))

def heapSetUsage (heap : Heap) (index usage : Nat) : Heap :=
  let byteIdx := index / 4
  let bitPairIdx := 6 - 2 * (index % 4)
  { heap with
    usageMap := fun i =>
      if i = byteIdx then setBitPair (heap.usageMap byteIdx) bitPairIdx usage
      else heap.usageMap i }

/-- The loops `for (i = start; ...; ++i) heap_set_usage(heap, i, usage)` over
`count` indices. -/
def setUsageFrom (heap : Heap) (usage : Nat) : Nat → Nat → Heap
  | _, 0 => heap
  | start, count + 1 => setUsageFrom (heapSetUsage heap start usage) usage (u32 (start + 1)) count

/-- `heap_is_space_free` does not look at `page_count`. -/
def heapIsSpaceFree (heap : Heap) : Nat → Nat → Bool
  | _, 0 => true
  | start, space + 1 =>
      if heapGetUsage heap start ≠ heapPageFree then false
      else heapIsSpaceFree heap (u32 (start + 1)) space

/-- The loop of `get_new_color`: `rounds` of its three tries are left. -/
def newColorLoop (left right : Nat) : Nat → Nat → Except Trap Nat
  | 0, _ => .error .assertion
  | rounds + 1, color =>
      let color := color + 1
      let color := if color > 3 then 1 else color
      if color ≠ left ∧ color ≠ right then .ok color else newColorLoop left right rounds color

def getNewColor (left right : Nat) : Except Trap Nat := newColorLoop left right 3 left

def heapMarkUsed (heap : Heap) (start space : Nat) : Except Trap Heap := do
  let endIdx := sub32 (start + space) 1
  let left := if start > 0 then heapGetUsage heap (start - 1) else heapPageFree
  let right :=
    if endIdx < sub32 heap.pageCount 1 then heapGetUsage heap (u32 (endIdx + 1)) else heapPageFree
  let color ← getNewColor left right
  pure (setUsageFrom heap color start space)

def sizeInPages (sizeInBytes : Nat) : Nat := u32 (sizeInBytes + 4095) / 4096

def isPageAligned (ptr : Nat) : Bool := u32 (ptr <<< 20) == 0

/-- The bytes of the usage map: `(page_count + 3) / 4`. -/
def usageBytes (pageCount : Nat) : Nat := u32 (pageCount + 3) / 4

/-- `heap_init` on memory whose bytes at `usage_map` are `memory`. Backing the map
with frames is the business of `alloc_pages`; what is kept here is the clearing
of the map and the three fields. -/
def heapInit (memory : Nat → UInt8) (heapStart pageCount : Nat) : Except Trap Heap := do
  kernelAssert (isPageAligned heapStart = true)
  let byteSize := usageBytes pageCount
  pure
    { usageMap := fun i => if i < byteSize then 0 else memory i
      heapStart := u32 (heapStart + sizeInPages byteSize * 4096)
      pageCount := pageCount }

/-- The first-fit scan of `heap_alloc`: `fuel` indices are left before
`page_count`, and `space` free pages end at `i`. -/
def allocScan (heap : Heap) (pages : Nat) : Nat → Nat → Nat → Nat → Option (Nat × Nat)
  | 0, _, _, _ => none
  | fuel + 1, i, space, start =>
      if heapGetUsage heap i = heapPageFree then
        if space + 1 ≥ pages then some (start, space + 1)
        else allocScan heap pages fuel (i + 1) (space + 1) start
      else allocScan heap pages fuel (i + 1) 0 (i + 1)

/-- The address of a page of the heap. -/
def pagePtr (heap : Heap) (index : Nat) : Nat := u32 (heap.heapStart + u32 (index * 4096))

/-- `(ptr - heap->heap_start) / PAGE_SIZE`: the difference of two pointers is a
signed word, divided with the sign and stored into an unsigned index. -/
def pageIndex (heap : Heap) (ptr : Nat) : Nat :=
  ofSigned ((ptrDiff ptr heap.heapStart).tdiv 4096)

def heapAlloc (heap : Heap) (pages : Nat) : Except Trap (Nat × Heap) :=
  match allocScan heap pages heap.pageCount 0 0 0 with
  | none => .error .assertion
  | some (start, space) => do
      let marked ← heapMarkUsed heap start space
      pure (pagePtr heap start, marked)

/-- `while (heap_get_usage(heap, end) == color) end += 1`. A run that reached the
last 32-bit index would have read `2 ^ 30` mapped bytes on end, through the
page-table window; it has no result. -/
def colorRunEnd (heap : Heap) (color : Nat) : Nat → Nat → Except Trap Nat
  | 0, _ => .error .pageFault
  | fuel + 1, endIdx =>
      if heapGetUsage heap endIdx = color then colorRunEnd heap color fuel (endIdx + 1)
      else .ok endIdx

/-- The loop of `heap_free`, with the same bound on the index. -/
def freeRun (color : Nat) : Nat → Heap → Nat → Nat → Except Trap (Nat × Heap)
  | 0, _, _, _ => .error .pageFault
  | fuel + 1, heap, i, freedCount =>
      if heapGetUsage heap i = color then
        freeRun color fuel (heapSetUsage heap i heapPageFree) (i + 1) (freedCount + 1)
      else .ok (freedCount, heap)

def indexLimit : Nat := 4294967296

def heapFree (heap : Heap) (ptr : Nat) : Except Trap (Nat × Heap) := do
  kernelAssert (isPageAligned ptr = true)
  let start := pageIndex heap ptr
  let color := heapGetUsage heap start
  kernelAssert (color ≠ heapPageFree)
  freeRun color (indexLimit - start) heap start 0

/-- `heap_realloc` returns the size of the old allocation and outputs the new pointer. -/
def heapRealloc (heap : Heap) (ptr pages : Nat) : Except Trap (Nat × Nat × Heap) := do
  kernelAssert (isPageAligned ptr = true)
  let start := pageIndex heap ptr
  let color := heapGetUsage heap start
  let reallocEnd := u32 (start + pages)
  kernelAssert (color ≠ heapPageFree)
  let endIdx ← colorRunEnd heap color (indexLimit - (start + 1)) (start + 1)
  if reallocEnd ≤ endIdx then
    -- downsizing
    pure (endIdx - start, ptr, setUsageFrom heap heapPageFree reallocEnd (endIdx - reallocEnd))
  else if heapIsSpaceFree heap endIdx (reallocEnd - endIdx) then
    if heapGetUsage heap reallocEnd = color then
      -- growing next to an allocation of the same colour
      let marked ← heapMarkUsed heap start pages
      pure (endIdx - start, ptr, marked)
    else pure (endIdx - start, ptr, setUsageFrom heap color endIdx (reallocEnd - endIdx))
  else
    let (newPtr, moved) ← heapAlloc heap pages
    let (freedCount, freed) ← heapFree moved ptr
    pure (freedCount, newPtr, freed)

def heapIsUsed (heap : Heap) (addr : Nat) : Bool :=
  heapGetUsage heap (pageIndex heap addr) ≠ heapPageFree

end ParadiseOS.HeapModel
