import ParadiseOS.HeapModel
import ParadiseOS.RbTreeModel
import ParadiseOS.TwoLevelPaging

/-!
# Page tables and frames of `memory/mem.c`

The machine is physical memory, `cr3` and the globals of the file. Every access
of the kernel to a page table, to the window on the free list or to a buffer of
a process goes through the tables that `cr3` names; supervisor code may read and
write any present page, since the write-protect bit of `cr0` is clear. The
accessed and dirty bits are not kept, and no stale translation is in use: the
code invalidates a page after it changes it.
-/

namespace ParadiseOS.PagingModel

open HeapModel (Heap)
open MachineWord RbTreeModel
open TwoLevelPaging (Memory readWord writeBytes wordOf translate)

set_option autoImplicit false

structure Machine where
  memory : Memory
  cr3 : Nat
  currentPageDir : Nat
  kernelPageDir : Nat
  freeListHead : Nat
  freeListHeadPte : Nat
  freeFramePaddr : Nat
  usedFrames : Nat
  totalFrames : Nat
  kernelHeap : Heap
  userRoHeap : Heap
  userPhysicalMap : Nat
  userPhysicalMapLen : Nat
  processTree : RbTree
  /-- The field `page_dir_paddr` of the process at an address. -/
  pageDirPaddr : Nat → Nat

def pageSize : Nat := 4096

def pdeUserMode : Nat := 4
def pdeWritable : Nat := 2
def pteUserMode : Nat := 4
def pteWritable : Nat := 2
def pageUserMode : Nat := 4
def pageWritable : Nat := 2
def pageGlobal : Nat := 512

def kernelPdiStart : Nat := 0x300
def kernelPdiEnd : Nat := 0x3FF

section Access

variable (machine : Machine)

/-- The physical address behind a virtual one, or a page fault. -/
def physical (vaddr : Nat) : Except Trap Nat :=
  match translate machine.memory machine.cr3 vaddr with
  | some paddr => .ok paddr
  | none => .error .pageFault

/-- A load of a 32-bit word, which may cross into the next page. -/
def loadWord (vaddr : Nat) : Except Trap Nat := do
  let first ← physical machine vaddr
  let second ← physical machine (u32 (vaddr + 1))
  let third ← physical machine (u32 (vaddr + 2))
  let fourth ← physical machine (u32 (vaddr + 3))
  pure (wordOf (machine.memory first) (machine.memory second) (machine.memory third)
    (machine.memory fourth))

/-- A store of a 32-bit word; it faults before anything is written. -/
def storeWord (vaddr word : Nat) : Except Trap Machine := do
  let first ← physical machine vaddr
  let second ← physical machine (u32 (vaddr + 1))
  let third ← physical machine (u32 (vaddr + 2))
  let fourth ← physical machine (u32 (vaddr + 3))
  pure { machine with memory := writeBytes machine.memory first second third fourth word }

end Access

section Entries

def pageDirectoryEntries : Nat := 0xFFFFF000
def pageTableEntries : Nat := 0xFFC00000

/-- The address of `PDE(pd_index)`. -/
def pdeAddr (pdIndex : Nat) : Nat := u32 (pageDirectoryEntries + u32 (4 * pdIndex))

/-- The address of `PTE(pd_index, pt_index)`. -/
def pteAddr (pdIndex ptIndex : Nat) : Nat :=
  u32 (pageTableEntries + u32 (4 * u32 (u32 (pdIndex * 1024) + ptIndex)))

def pde (machine : Machine) (pdIndex : Nat) : Except Trap Nat := loadWord machine (pdeAddr pdIndex)

def setPde (machine : Machine) (pdIndex entry : Nat) : Except Trap Machine :=
  storeWord machine (pdeAddr pdIndex) entry

def pte (machine : Machine) (pdIndex ptIndex : Nat) : Except Trap Nat :=
  loadWord machine (pteAddr pdIndex ptIndex)

def setPte (machine : Machine) (pdIndex ptIndex entry : Nat) : Except Trap Machine :=
  storeWord machine (pteAddr pdIndex ptIndex) entry

def getPdIndex (vaddr : Nat) : Nat := vaddr >>> 22

def getPtIndex (vaddr : Nat) : Nat := (vaddr >>> 12) &&& 0x3FF

def getPaddr (entry : Nat) : Nat := entry &&& 0xFFFFF000

def getFlags (entry : Nat) : Nat := entry &&& 0xFFF

def entryPresent (entry : Nat) : Prop := entry &&& 1 ≠ 0

instance (entry : Nat) : Decidable (entryPresent entry) := inferInstanceAs (Decidable (_ ≠ _))

def getEntry (machine : Machine) (vaddr : Nat) : Except Trap Nat := do
  let pdi := getPdIndex vaddr
  let directory ← pde machine pdi
  if ¬ entryPresent directory then pure 0 else pte machine pdi (getPtIndex vaddr)

def createEntry (paddr flags : Nat) : Nat := (paddr &&& 0xFFFFF000) ||| flags ||| 1

def setPageDir (machine : Machine) (paddr : Nat) : Machine :=
  if paddr ≠ machine.currentPageDir then { machine with cr3 := paddr, currentPageDir := paddr }
  else machine

def getPageDir (machine : Machine) : Nat := machine.currentPageDir

/-- The rounds of `init_page_table` that clear the last `count` of 1024 entries. -/
def initPageTableFrom (machine : Machine) (table : Nat) : Nat → Except Trap Machine
  | 0 => .ok machine
  | count + 1 => do
      let machine ← storeWord machine (u32 (table + u32 (4 * (1023 - count)))) 0
      initPageTableFrom machine table count

def initPageTable (machine : Machine) (table : Nat) : Except Trap Machine :=
  initPageTableFrom machine table 1024

end Entries

section Frames

def freeFrame (machine : Machine) (paddr : Nat) : Except Trap Machine := do
  let machine := { machine with usedFrames := sub32 machine.usedFrames 1 }
  let machine ← storeWord machine machine.freeListHeadPte (createEntry paddr pteWritable)
  let machine ← storeWord machine machine.freeListHead machine.freeFramePaddr
  pure { machine with freeFramePaddr := paddr }

def allocFrame (machine : Machine) : Except Trap (Nat × Machine) := do
  kernelAssert (machine.freeFramePaddr ≠ 0)
  let machine := { machine with usedFrames := u32 (machine.usedFrames + 1) }
  let frame := machine.freeFramePaddr
  let next ← loadWord machine machine.freeListHead
  let machine := { machine with freeFramePaddr := next }
  let machine ← storeWord machine machine.freeListHeadPte
    (createEntry machine.freeFramePaddr pteWritable)
  pure (frame, machine)

end Frames

section Mapping

/-- The first block of `map_page`: a page table is made where none exists yet. Its
directory entry is writable, and only its user bit follows the flags. -/
def makePageTable (machine : Machine) (pdi flags : Nat) : Except Trap Machine := do
  let directory ← pde machine pdi
  if ¬ entryPresent directory then do
    let (newTable, machine) ← allocFrame machine
    let machine ← setPde machine pdi (createEntry newTable (pdeWritable ||| (flags &&& pageUserMode)))
    initPageTable machine (pteAddr pdi 0)
  else pure machine

/-- `map_page` returns true when the page was already mapped. -/
def mapPage (machine : Machine) (vaddr paddr flags : Nat) : Except Trap (Bool × Machine) := do
  let pdi := getPdIndex vaddr
  let pti := getPtIndex vaddr
  let machine ← makePageTable machine pdi flags
  let directory ← pde machine pdi
  let userModeRequested := flags &&& pageUserMode ≠ 0
  let directoryUserMode := getFlags directory &&& pageUserMode ≠ 0
  kernelAssert (¬ userModeRequested ∨ directoryUserMode)
  let entry ← pte machine pdi pti
  if entryPresent entry then pure (true, machine)
  else do
    let machine ← setPte machine pdi pti (createEntry paddr flags)
    pure (false, machine)

/-- `flush_entry_info` of an entry for the page of `vaddr`. -/
def flushEntryInfo (machine : Machine) (vaddr entry : Nat) : Except Trap Machine := do
  let pdi := getPdIndex vaddr
  let pti := getPtIndex vaddr
  let directory ← pde machine pdi
  kernelAssert (entryPresent directory)
  let old ← pte machine pdi pti
  kernelAssert (entryPresent old)
  setPte machine pdi pti entry

/-- `unmap_page`: nothing if the page was not mapped, else the entry it had. -/
def unmapPage (machine : Machine) (vaddr : Nat) : Except Trap (Option Nat × Machine) := do
  let entry ← getEntry machine vaddr
  if ¬ entryPresent entry then pure (none, machine)
  else do
    let machine ← flushEntryInfo machine vaddr 0
    pure (some entry, machine)

/-- The loop of `alloc_pages`. -/
def allocPages (machine : Machine) (vaddr flags : Nat) : Nat → Except Trap Machine
  | 0 => .ok machine
  | count + 1 => do
      let (frame, machine) ← allocFrame machine
      let (mapped, machine) ← mapPage machine vaddr frame flags
      kernelAssert (mapped = false)
      allocPages machine (u32 (vaddr + pageSize)) flags count

/-- The loop of `free_pages`. -/
def freePages (machine : Machine) (vaddr : Nat) : Nat → Except Trap Machine
  | 0 => .ok machine
  | count + 1 => do
      let (removed, machine) ← unmapPage machine vaddr
      match removed with
      | none => .error .assertion
      | some entry =>
          let machine ← freeFrame machine (getPaddr entry)
          freePages machine (u32 (vaddr + pageSize)) count

end Mapping

end ParadiseOS.PagingModel
