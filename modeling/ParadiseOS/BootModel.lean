import ParadiseOS.PagingModel
import ParadiseOS.ProcessModel

/-!
# From the boot loader to the kernel's own page tables

`boot.s` fills one directory and one page table inside the kernel's image and turns
paging on. `mem_init` then takes the page behind the kernel as the window on the free
frames, collects these from the boot loader's memory map, and moves the kernel over to
page tables of its own.
-/

namespace ParadiseOS.BootModel

open MachineWord PagingModel
open ProcessModel (alignNextPage)
open TwoLevelPaging (Memory writeWord)

set_option autoImplicit false

section Image

def kernelStartPaddr : Nat := 0x100000
def kernelOffset : Nat := 0xC0000000
def kernelStartVaddr : Nat := 0xC0100000

def lowerMemPageCount : Nat := 256
def maxKernelPageCount : Nat := 0x300

/-- What the linker leaves open: where the kernel ends. The page directory and the page table of
`boot.s` are the last two pages of the image, and something to boot comes before them. -/
structure Image where
  endPaddr : Nat
  aligned : endPaddr % 4096 = 0
  behind : kernelStartPaddr + 3 * pageSize ≤ endPaddr
  bounded : endPaddr < 0x40000000

namespace Image

variable (image : Image)

def endVaddr : Nat := image.endPaddr + kernelOffset

/-- The physical address of `page_directory`. -/
def pageDirectory : Nat := image.endPaddr - 2 * pageSize

/-- The physical address of `boot_page_table`. -/
def bootPageTable : Nat := image.endPaddr - pageSize

end Image
end Image

section Start

/-- The loop of `start` that clears directory and table from the last entry on. -/
def clearTables (image : Image) : Nat → Memory → Memory
  | 0, memory => memory
  | ecx + 1, memory =>
      let memory := writeWord memory (image.pageDirectory + 4 * ecx) 0
      let memory := writeWord memory (image.bootPageTable + 4 * ecx) 0
      clearTables image ecx memory

/-- The loops of `start` that fill entries of a table with the frames in order. -/
def fillEntries (table index entry : Nat) : Nat → Memory → Memory
  | 0, memory => memory
  | count + 1, memory =>
      fillEntries table (index + 1) (u32 (entry + pageSize)) count
        (writeWord memory (table + 4 * index) entry)

/-- The kernel's size in pages, in `ecx`. -/
def kernelPages (image : Image) : Nat :=
  sub32 (u32 (image.endVaddr + 4095 - kernelOffset)) kernelStartPaddr >>> 12

/-- `start` up to where paging is turned on. The kernel has pages, so the last loop, which counts
before it tests, runs once for each. -/
def start (image : Image) (memory : Memory) : Except Trap Memory := do
  let memory := clearTables image 1024 memory
  let memory := writeWord memory (image.pageDirectory + 4 * 1023) (image.pageDirectory + 1)
  let memory := writeWord memory (image.pageDirectory + 4 * (kernelOffset >>> 22)) (image.bootPageTable + 1)
  let memory := writeWord memory image.pageDirectory (image.bootPageTable + 1)
  let memory := fillEntries image.bootPageTable 0 1 256 memory
  kernelAssert (¬ 0x300 < kernelPages image)
  let edi := ((kernelStartPaddr + kernelOffset) >>> 12) &&& 0x3FF
  pure (fillEntries image.bootPageTable edi (kernelStartPaddr ||| 1) (kernelPages image) memory)

/-- The kernel when `mem_init` has noted its directory: its variables have their first values. -/
def booted (image : Image) (machine : Machine) : Except Trap Machine := do
  let memory ← start image machine.memory
  pure { machine with
    memory := memory
    cr3 := image.pageDirectory
    currentPageDir := image.pageDirectory
    kernelPageDir := image.pageDirectory
    freeListHead := 0
    freeListHeadPte := 0
    freeFramePaddr := 0
    usedFrames := 0
    totalFrames := 0 }

end Start

section Frames

/-- `init_free_list_page` for a kernel that ends at an address. -/
def initFreeListPageBehind (kernelEndVaddr : Nat) (machine : Machine) : Except Trap Machine := do
  let addr := alignNextPage (sub32 kernelEndVaddr 1)
  let pdi := getPdIndex addr
  let pti := getPtIndex addr
  let machine := { machine with freeListHeadPte := pteAddr pdi pti }
  let directory ← pde machine pdi
  kernelAssert (entryPresent directory)
  let entry ← loadWord machine machine.freeListHeadPte
  kernelAssert (¬ entryPresent entry)
  pure { machine with freeListHead := addr }

def initFreeListPage (image : Image) (machine : Machine) : Except Trap Machine :=
  initFreeListPageBehind image.endVaddr machine

/-- `align_next_page` is this function at another type. -/
def alignNextFrame (paddr : Nat) : Nat := alignNextPage paddr

/-- The loop of `init_frame_region` from `f` on. There are 2^20 frames: a loop that passes more
of them has come around and does not end. -/
def initFrameLoop (machine : Machine) (endAddr f : Nat) : Nat → Except Trap Machine
  | 0 => .error .noReturn
  | fuel + 1 =>
      if f < endAddr then do
        let machine := { machine with
          totalFrames := u32 (machine.totalFrames + 1)
          usedFrames := u32 (machine.usedFrames + 1) }
        let machine ← freeFrame machine f
        initFrameLoop machine endAddr (u32 (f + pageSize)) fuel
      else .ok machine

def initFrameRegion (machine : Machine) (startAddr endAddr : Nat) : Except Trap Machine := do
  kernelAssert (endAddr > startAddr)
  initFrameLoop machine endAddr (alignNextFrame (sub32 startAddr 1)) 1048577

structure MMapEntry where
  size : Nat
  baseAddrLo : Nat
  baseAddrHi : Nat
  lengthLo : Nat
  lengthHi : Nat
  type : Nat
  deriving DecidableEq, Repr

def sizeOfMMapEntry : Nat := 24
def mmapAvailable : Nat := 1
def mbFlagMmap : Nat := 1 <<< 6
def kernelMemShareDiv : Nat := 5

structure MultibootInfo where
  flags : Nat
  mmap : List MMapEntry

structure PhysicalMap where
  addr : Nat
  len : Nat
  deriving DecidableEq, Repr

/-- How many entries `user_physical_map` has room for. -/
def physicalMapRoom : Nat := pageSize / 8

/-- `mem_available` for an entry. -/
def MMapEntry.Available (entry : MMapEntry) : Prop :=
  entry.type = mmapAvailable ∧ entry.baseAddrLo ≥ kernelStartPaddr

instance (entry : MMapEntry) : Decidable entry.Available := inferInstanceAs (Decidable (_ ∧ _))

/-- The loop of `init_frames` over the entries that are left. -/
def initEntries (image : Image) (machine : Machine) (userPhysicalMap : List PhysicalMap) :
    List MMapEntry → Except Trap (List PhysicalMap × Machine)
  | [] => .ok (userPhysicalMap, machine)
  | entry :: entries => do
      kernelAssert (entry.baseAddrHi = 0)
      kernelAssert (entry.lengthHi = 0)
      kernelAssert (entry.size = sizeOfMMapEntry - 4)
      let kernelShare := entry.lengthLo / kernelMemShareDiv
      if entry.Available then do
        kernelAssert (userPhysicalMap.length < physicalMapRoom)
        let userPhysicalMap := userPhysicalMap ++
          [⟨u32 (entry.baseAddrLo + kernelShare), sub32 entry.lengthLo kernelShare⟩]
        let machine ← initFrameRegion machine
          (if entry.baseAddrLo = kernelStartPaddr then image.endPaddr else entry.baseAddrLo)
          (u32 (entry.baseAddrLo + kernelShare))
        initEntries image machine userPhysicalMap entries
      else initEntries image machine userPhysicalMap entries

/-- `init_frames`, with the entries that it makes in `user_physical_map`. -/
def initFrames (image : Image) (machine : Machine) (info : MultibootInfo) :
    Except Trap (List PhysicalMap × Machine) := do
  kernelAssert (info.flags &&& mbFlagMmap ≠ 0)
  initEntries image machine [] info.mmap

end Frames

section Moving

/-- The loop of `map_pages`. -/
def mapPages (machine : Machine) (vaddr paddr flags : Nat) : Nat → Except Trap Machine
  | 0 => .ok machine
  | count + 1 => do
      let (mapped, machine) ← mapPage machine vaddr paddr flags
      kernelAssert (mapped = false)
      mapPages machine (u32 (vaddr + pageSize)) (u32 (paddr + pageSize)) flags count

def sizeInPages (sizeInBytes : Nat) : Nat := sub32 (u32 (sizeInBytes + pageSize)) 1 / pageSize

/-- Where `reinit_paging` builds the two tables, before it gives them their places. -/
def idMapVaddr : Nat := kernelOffset - 1 <<< 24
def kernelMapVaddr : Nat := kernelStartVaddr - 2 <<< 24

/-- The last part of `reinit_paging`, when both tables are built. -/
def installTables (machine : Machine) : Except Trap Machine := do
  let oldFreeListEntry ← loadWord machine machine.freeListHeadPte
  let idMapIndexSrc := getPdIndex idMapVaddr
  let idMapIndexDst := getPdIndex 0
  let kernelMapIndexSrc := getPdIndex kernelMapVaddr
  let kernelMapIndexDst := getPdIndex kernelStartVaddr
  let idMap ← pde machine idMapIndexSrc
  let machine ← setPde machine idMapIndexDst (createEntry (getPaddr idMap) pdeWritable)
  let kernelMap ← pde machine kernelMapIndexSrc
  let machine ← setPde machine kernelMapIndexDst (createEntry (getPaddr kernelMap) pdeWritable)
  let machine ← setPde machine idMapIndexSrc 0
  let machine ← setPde machine kernelMapIndexSrc 0
  storeWord machine machine.freeListHeadPte oldFreeListEntry

def reinitPaging (image : Image) (machine : Machine) : Except Trap Machine := do
  let pageCount := sizeInPages (sub32 image.endPaddr kernelStartPaddr)
  kernelAssert (pageCount ≤ maxKernelPageCount)
  let machine ← mapPages machine idMapVaddr 0 pageWritable lowerMemPageCount
  let machine ← mapPages machine kernelMapVaddr kernelStartPaddr pageWritable pageCount
  installTables machine

end Moving
end ParadiseOS.BootModel
