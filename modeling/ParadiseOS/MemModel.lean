import ParadiseOS.PagingModel

/-!
# Heap allocation with its pages in `memory/mem.c`

`mem_alloc`, `mem_realloc` and `mem_free` keep the marks of a heap and the page
tables in step; the kernel's heap is one of theirs, and a page directory is made
on a page of it that is given back without its frame. The bytes of a heap's
usage map are part of the heap.
-/

namespace ParadiseOS.MemModel

open HeapModel (Heap heapAlloc heapRealloc heapFree heapInit isPageAligned usageBytes sizeInPages)
open MachineWord PagingModel

set_option autoImplicit false

section Bytes

variable (machine : Machine)

def loadByte (vaddr : Nat) : Except Trap UInt8 := do
  let paddr ← physical machine vaddr
  pure (machine.memory paddr)

def storeByte (vaddr : Nat) (byte : UInt8) : Except Trap Machine := do
  let paddr ← physical machine vaddr
  pure { machine with memory := fun cell => if cell = paddr then byte else machine.memory cell }

end Bytes

/-- `pmemcpy` between virtual addresses. -/
def copyBytes (machine : Machine) (dst src : Nat) : Nat → Except Trap Machine
  | 0 => .ok machine
  | count + 1 => do
      let byte ← loadByte machine src
      let machine ← storeByte machine dst byte
      copyBytes machine (u32 (dst + 1)) (u32 (src + 1)) count

/-- `alloc_page`, one round of `alloc_pages`. -/
def allocPage (machine : Machine) (vaddr flags : Nat) : Except Trap Machine := do
  let (frame, machine) ← allocFrame machine
  let (mapped, machine) ← mapPage machine vaddr frame flags
  kernelAssert (mapped = false)
  pure machine

section Heaps

def memAlloc (machine : Machine) (heap : Heap) (pages flags : Nat) :
    Except Trap (Nat × Heap × Machine) := do
  kernelAssert (pages ≠ 0)
  let (vaddr, heap) ← heapAlloc heap pages
  let machine ← allocPages machine vaddr flags pages
  pure (vaddr, heap, machine)

/-- The branch of `mem_realloc` for an allocation that moves. -/
def memMove (machine : Machine) (ptr newPtr oldSize pages flags : Nat) : Except Trap Machine := do
  let machine ← allocPages machine newPtr flags pages
  let machine ← copyBytes machine newPtr ptr (u32 (oldSize * pageSize))
  freePages machine ptr oldSize

/-- The branches for an allocation that keeps its place. -/
def memResize (machine : Machine) (ptr oldSize pages flags : Nat) : Except Trap Machine :=
  if oldSize > pages then freePages machine (u32 (ptr + u32 (pages * pageSize))) (oldSize - pages)
  else allocPages machine (u32 (ptr + u32 (oldSize * pageSize))) flags (pages - oldSize)

/-- The pages of an allocation after `heap_realloc`. -/
def memPlace (machine : Machine) (ptr newPtr oldSize pages flags : Nat) : Except Trap Machine :=
  if newPtr ≠ ptr then memMove machine ptr newPtr oldSize pages flags
  else memResize machine ptr oldSize pages flags

def memRealloc (machine : Machine) (heap : Heap) (ptr pages : Nat) :
    Except Trap (Nat × Heap × Machine) := do
  kernelAssert (pages ≠ 0)
  let (oldSize, newPtr, heap) ← heapRealloc heap ptr pages
  let entry ← getEntry machine ptr
  let machine ← memPlace machine ptr newPtr oldSize pages (getFlags entry)
  pure (newPtr, heap, machine)

def memFree (machine : Machine) (heap : Heap) (ptr : Nat) : Except Trap (Heap × Machine) := do
  let (freedCount, heap) ← heapFree heap ptr
  let machine ← freePages machine ptr freedCount
  pure (heap, machine)

def kernelAlloc (machine : Machine) (pages : Nat) : Except Trap (Nat × Machine) := do
  let (ptr, heap, machine) ← memAlloc machine machine.kernelHeap pages pageWritable
  pure (ptr, { machine with kernelHeap := heap })

def kernelRealloc (machine : Machine) (ptr pages : Nat) : Except Trap (Nat × Machine) := do
  let (newPtr, heap, machine) ← memRealloc machine machine.kernelHeap ptr pages
  pure (newPtr, { machine with kernelHeap := heap })

def kernelFree (machine : Machine) (ptr : Nat) : Except Trap Machine := do
  let (heap, machine) ← memFree machine machine.kernelHeap ptr
  pure { machine with kernelHeap := heap }

end Heaps

section Setup

def userRoPages : Nat := 1024

/-- `heap_init` with the pages of its usage map; `memory` is what these held before. -/
def memHeapInit (machine : Machine) (memory : Nat → UInt8) (heapStart pageCount flags : Nat) :
    Except Trap (Heap × Machine) := do
  kernelAssert (isPageAligned heapStart = true)
  let machine ← allocPages machine heapStart flags (sizeInPages (usageBytes pageCount))
  let heap ← heapInit memory heapStart pageCount
  pure (heap, machine)

/-- The page count that `init_heap` computes as a difference of pointers. -/
def heapPageCount (heapAddr : Nat) : Nat := ofSigned ((ptrDiff pageTableEntries heapAddr).tdiv 4096)

def initHeap (machine : Machine) (memory userRoMemory : Nat → UInt8) : Except Trap Machine := do
  let heapAddr := u32 (machine.freeListHead + pageSize)
  let pageCount := heapPageCount heapAddr
  kernelAssert (pageCount > userRoPages)
  let kernelPageCount := pageCount - userRoPages
  let userRoAddr := u32 (heapAddr + u32 (kernelPageCount * pageSize))
  let kernelFlags := pageWritable ||| pageGlobal
  let userFlags := pageWritable ||| pageUserMode ||| pageGlobal
  let (kernelHeap, machine) ← memHeapInit machine memory heapAddr kernelPageCount kernelFlags
  let (userRoHeap, machine) ← memHeapInit machine userRoMemory userRoAddr userRoPages userFlags
  pure { machine with kernelHeap := kernelHeap, userRoHeap := userRoHeap }

end Setup

section Directories

/-- The first loop of `new_page_dir`, from entry `i` on. -/
def clearEntries (machine : Machine) (dir i : Nat) : Nat → Except Trap Machine
  | 0 => .ok machine
  | count + 1 => do
      let machine ← storeWord machine (u32 (dir + u32 (4 * i))) 0
      clearEntries machine dir (i + 1) count

/-- The second loop, which copies entries of the current directory. -/
def copyEntries (machine : Machine) (dir i : Nat) : Nat → Except Trap Machine
  | 0 => .ok machine
  | count + 1 => do
      let entry ← pde machine i
      let machine ← storeWord machine (u32 (dir + u32 (4 * i))) entry
      copyEntries machine dir (i + 1) count

/-- `new_page_dir` returns the frame of the new directory. -/
def newPageDir (machine : Machine) : Except Trap (Nat × Machine) := do
  let (dir, machine) ← kernelAlloc machine 1
  let machine ← clearEntries machine dir 1 (kernelPdiStart - 1)
  let machine ← copyEntries machine dir kernelPdiStart (kernelPdiEnd - kernelPdiStart)
  let low ← pde machine 0
  let machine ← storeWord machine (u32 (dir + u32 (4 * getPdIndex 0))) low
  let own ← getEntry machine dir
  let machine ← storeWord machine (u32 (dir + u32 (4 * 1023))) (createEntry (getPaddr own) pdeWritable)
  let (_, heap) ← heapFree machine.kernelHeap dir
  let (removed, machine) ← unmapPage { machine with kernelHeap := heap } dir
  match removed with
  | none => .error .assertion
  | some entry => pure (getPaddr entry, machine)

end Directories

end ParadiseOS.MemModel
