import ParadiseOS.PagingModel
import ParadiseOS.RbTreeRuns

/-!
# The page-mapping system calls of `memory/mem.c`

`syscall_virt_map`, `syscall_virt_unmap` and `syscall_virt_transfer` work on the
address space of any process: they look its directory up, load it, walk the
range and load the directory of the caller again. Arguments are 32-bit words.
-/

namespace ParadiseOS.VirtModel

open MachineWord PagingModel
open RbTreeRuns (getProcess)

set_option autoImplicit false

structure SyscallResult where
  value : Nat
  err : Nat
  deriving DecidableEq, Repr

section Pointers

/-- `validate_user_readable`: the pointer, or null. -/
def validateUserReadable (machine : Machine) (vaddr : Nat) : Except Trap Nat := do
  let entry ← getEntry machine vaddr
  if entryPresent entry ∧ entry &&& pteUserMode ≠ 0 then pure vaddr else pure 0

/-- `validate_user_writable`: the pointer, or null. -/
def validateUserWritable (machine : Machine) (vaddr : Nat) : Except Trap Nat := do
  let entry ← getEntry machine vaddr
  if entryPresent entry ∧ entry &&& pteUserMode ≠ 0 ∧ entry &&& pteWritable ≠ 0 then pure vaddr
  else pure 0

/-- The loop of `user_frame_valid` from entry `i` of the map on, `count` entries before its end.
An entry is two words, its address and its length. -/
def userFrameValidFrom (machine : Machine) (paddr i : Nat) : Nat → Except Trap Bool
  | 0 => .ok false
  | count + 1 => do
      let startAddr ← loadWord machine (u32 (machine.userPhysicalMap + u32 (8 * i)))
      let len ← loadWord machine (u32 (machine.userPhysicalMap + u32 (8 * i) + 4))
      let endAddr := u32 (startAddr + len)
      if startAddr ≤ paddr ∧ paddr < endAddr then pure true
      else userFrameValidFrom machine paddr (i + 1) count

def userFrameValid (machine : Machine) (paddr : Nat) : Except Trap Bool :=
  userFrameValidFrom machine paddr 0 machine.userPhysicalMapLen

end Pointers

section Ranges

/-- The address of page `i` of a range. -/
def rangePage (vaddr i : Nat) : Nat := u32 (vaddr + u32 (i * pageSize))

/-- The address of word `i` of an array. -/
def elementAddr (paddr i : Nat) : Nat := u32 (paddr + u32 (4 * i))

/-- The loops that look for a page of a range that is present, or one that is not: whether
the presence of every page from `i` on is the wanted one. -/
def rangeIs (machine : Machine) (wanted : Bool) (vaddr i : Nat) : Nat → Except Trap Bool
  | 0 => .ok true
  | count + 1 => do
      let entry ← getEntry machine (rangePage vaddr i)
      if decide (entryPresent entry) ≠ wanted then pure false
      else rangeIs machine wanted vaddr (i + 1) count

end Ranges

section Map

def virtMapPidNotFound : Nat := 1
def virtMapAlreadyMapped : Nat := 2
def virtMapInvalidPtr : Nat := 3
def virtMapInvalidPaddr : Nat := 4

def virtMapWritable : Nat := 1

def getPteFlags (flags : Nat) : Nat :=
  if flags &&& virtMapWritable ≠ 0 then pteUserMode ||| pteWritable else pteUserMode

/-- The first loop of `syscall_virt_map`: 0, or the error it returns. -/
def virtMapCheck (machine : Machine) (vaddr paddr i : Nat) : Nat → Except Trap Nat
  | 0 => .ok 0
  | count + 1 => do
      let entry ← getEntry machine (rangePage vaddr i)
      if entryPresent entry then pure virtMapAlreadyMapped
      else do
        let element ← loadWord machine (elementAddr paddr i)
        let valid ← userFrameValid machine element
        if valid = false then pure virtMapInvalidPaddr
        else virtMapCheck machine vaddr paddr (i + 1) count

/-- The second loop, which reads the array again. -/
def virtMapInstall (machine : Machine) (vaddr paddr pteFlags i : Nat) : Nat → Except Trap Machine
  | 0 => .ok machine
  | count + 1 => do
      let element ← loadWord machine (elementAddr paddr i)
      let (mapped, machine) ← mapPage machine (rangePage vaddr i) element pteFlags
      kernelAssert (mapped = false)
      virtMapInstall machine vaddr paddr pteFlags (i + 1) count

/-- The body of `syscall_virt_map` once the process and the pointer are accepted. -/
def virtMapInto (machine : Machine) (directory vaddr paddr n pteFlags : Nat) :
    Except Trap (SyscallResult × Machine) := do
  let oldPdPaddr := getPageDir machine
  let machine := setPageDir machine directory
  let err ← virtMapCheck machine vaddr paddr 0 n
  if err ≠ 0 then pure (⟨0, err⟩, setPageDir machine oldPdPaddr)
  else do
    let machine ← virtMapInstall machine vaddr paddr pteFlags 0 n
    pure (⟨0, 0⟩, setPageDir machine oldPdPaddr)

/-- The process of an address-space id, which must be a 16-bit word. -/
def findProcess (machine : Machine) (aid : Nat) : Except Trap Nat :=
  if aid >>> 16 = 0 then getProcess machine.processTree aid else pure 0

def syscallVirtMap (machine : Machine) (aid vaddr paddrPtr n flags : Nat) :
    Except Trap (SyscallResult × Machine) := do
  let process ← findProcess machine aid
  if process = 0 then pure (⟨0, virtMapPidNotFound⟩, machine)
  else do
    let paddr ← validateUserReadable machine paddrPtr
    if paddr = 0 then pure (⟨0, virtMapInvalidPtr⟩, machine)
    else
      virtMapInto machine (machine.pageDirPaddr process) vaddr paddr n (getPteFlags (u16 flags))

end Map

section Unmap

def virtUnmapPidNotFound : Nat := 1
def virtUnmapNotMapped : Nat := 2
def virtUnmapInvalidPtr : Nat := 3

/-- The second loop of `syscall_virt_unmap`. -/
def virtUnmapRemove (machine : Machine) (vaddr paddr i : Nat) : Nat → Except Trap Machine
  | 0 => .ok machine
  | count + 1 => do
      let (removed, machine) ← unmapPage machine (rangePage vaddr i)
      match removed with
      | none => .error .assertion
      | some entry =>
          let machine ← storeWord machine (elementAddr paddr i) (getPaddr entry)
          virtUnmapRemove machine vaddr paddr (i + 1) count

/-- The body of `syscall_virt_unmap` once the process and the pointer are accepted. -/
def virtUnmapFrom (machine : Machine) (directory vaddr paddr n : Nat) :
    Except Trap (SyscallResult × Machine) := do
  let oldPdPaddr := getPageDir machine
  let machine := setPageDir machine directory
  let allMapped ← rangeIs machine true vaddr 0 n
  if allMapped = false then pure (⟨0, virtUnmapNotMapped⟩, setPageDir machine oldPdPaddr)
  else do
    let machine ← virtUnmapRemove machine vaddr paddr 0 n
    pure (⟨0, 0⟩, setPageDir machine oldPdPaddr)

def syscallVirtUnmap (machine : Machine) (aid vaddr paddrPtr n : Nat) :
    Except Trap (SyscallResult × Machine) := do
  let process ← findProcess machine aid
  if process = 0 then pure (⟨0, virtUnmapPidNotFound⟩, machine)
  else do
    let paddr ← validateUserWritable machine paddrPtr
    if paddr = 0 then pure (⟨0, virtUnmapInvalidPtr⟩, machine)
    else virtUnmapFrom machine (machine.pageDirPaddr process) vaddr paddr n

end Unmap

section Transfer

def virtTransferPidInvalid : Nat := 1
def virtTransferVaddrInvalid : Nat := 2
def virtTransferTooLarge : Nat := 3

/-- `TEMP_BUFFER_LENGTH / sizeof(u32)`. -/
def entriesLen : Nat := 2048

/-- The loop that unmaps the source and keeps its entries in the temporary buffer. -/
def virtTransferTake (machine : Machine) (vaddr i : Nat) : Nat → Except Trap (List Nat × Machine)
  | 0 => .ok ([], machine)
  | count + 1 => do
      let (removed, machine) ← unmapPage machine (rangePage vaddr i)
      match removed with
      | none => .error .assertion
      | some entry =>
          let (entries, machine) ← virtTransferTake machine vaddr (i + 1) count
          pure (entry :: entries, machine)

/-- The loop that maps the kept entries. -/
def virtTransferPut (machine : Machine) (vaddr i : Nat) : List Nat → Except Trap Machine
  | [] => .ok machine
  | entry :: entries => do
      let (mapped, machine) ← mapPage machine (rangePage vaddr i) (getPaddr entry) (getFlags entry)
      kernelAssert (mapped = false)
      virtTransferPut machine vaddr (i + 1) entries

/-- The body of `syscall_virt_transfer` once both processes are found. A destination that is
in use makes the loop map the entries back to the source. -/
def virtTransferBetween (machine : Machine) (source destination vaddrSrc vaddrDst n : Nat) :
    Except Trap (SyscallResult × Machine) := do
  let oldPdPaddr := getPageDir machine
  let machine := setPageDir machine source
  let allMapped ← rangeIs machine true vaddrSrc 0 n
  if allMapped = false then pure (⟨0, virtTransferVaddrInvalid⟩, setPageDir machine oldPdPaddr)
  else do
    let (entries, machine) ← virtTransferTake machine vaddrSrc 0 n
    let machine := setPageDir machine destination
    let allFree ← rangeIs machine false vaddrDst 0 n
    if allFree = false then do
      let machine ← virtTransferPut (setPageDir machine source) vaddrSrc 0 entries
      pure (⟨0, virtTransferVaddrInvalid⟩, setPageDir machine oldPdPaddr)
    else do
      let machine ← virtTransferPut machine vaddrDst 0 entries
      pure (⟨0, 0⟩, setPageDir machine oldPdPaddr)

def syscallVirtTransfer (machine : Machine) (vaddrSrc vaddrDst aidPair n : Nat) :
    Except Trap (SyscallResult × Machine) :=
  if n > entriesLen then pure (⟨0, virtTransferTooLarge⟩, machine)
  else do
    let procSrc ← getProcess machine.processTree (aidPair &&& 0xFFFF)
    let procDst ← getProcess machine.processTree ((aidPair >>> 16) &&& 0xFFFF)
    if procSrc = 0 ∨ procDst = 0 then pure (⟨0, virtTransferPidInvalid⟩, machine)
    else
      virtTransferBetween machine (machine.pageDirPaddr procSrc) (machine.pageDirPaddr procDst)
        vaddrSrc vaddrDst n

end Transfer

end ParadiseOS.VirtModel
