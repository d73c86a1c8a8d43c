import ParadiseOS.MailboxModel
import ParadiseOS.MemModel
import ParadiseOS.RbTreeRuns
import ParadiseOS.VirtModel

/-!
# Processes, their pool and the run queue

The functions of `process/processes.c`, `process/pool.c` and `process/queue.c`. A
`Process` holds its directory, a queue node at offset 4 and a tree node at offset 8;
while it is on the free list of the pool, its first word is the link to the next
one. The control block `pcb` and the sections of a program lie in the pages of the
address space.
-/

namespace ParadiseOS.ProcessModel

open HeapModel (isPageAligned sizeInPages usageBytes)
open MachineWord MailboxModel MemModel PagingModel
open RbTreeModel (rbFind rbInsert rbRemove)
open RbTreeRuns (getProcess rbNodeOffset)
open VirtModel (SyscallResult)

set_option autoImplicit false

structure Queue where
  head : Nat
  tail : Nat
  count : Nat

structure System where
  machine : Machine
  /-- `process_pool.free_list`. -/
  freeList : Nat
  runQueue : Queue
  /-- The field `next` of the queue node at an address. -/
  next : Nat → Nat
  current : Nat
  aidCounter : Nat
  /-- The slots that `pool_create` returned and that were not destroyed since. No code reads it. -/
  occupied : List Nat
  /-- The processes that `exec_sun` or a jump started and that were not deleted since. No code
  reads it. -/
  started : List Nat

def System.onMachine (system : System) (machine : Machine) : System := { system with machine := machine }

section Pool

def sizeOfProcess : Nat := 32

def poolDestroy (system : System) (proc : Nat) : System :=
  { system with
    machine := { system.machine with
      pageDirPaddr := Function.update system.machine.pageDirPaddr proc system.freeList }
    freeList := proc
    occupied := system.occupied.erase proc }

/-- The loop of `pool_create` over the slots of a new page, from the last one down. -/
def poolFill (system : System) (processes : Nat) : Nat → System
  | 0 => system
  | n + 1 => poolFill (poolDestroy system (u32 (processes + sizeOfProcess * n))) processes n

def poolRefill (system : System) : Except Trap System :=
  if system.freeList = 0 then do
    let (processes, machine) ← kernelAlloc system.machine 1
    pure (poolFill (system.onMachine machine) processes (pageSize / sizeOfProcess))
  else .ok system

def poolCreate (system : System) : Except Trap (Nat × System) := do
  let system ← poolRefill system
  let proc := system.freeList
  pure (proc, { system with
    freeList := system.machine.pageDirPaddr proc
    occupied := proc :: system.occupied })

end Pool

section Queues

def queueAdd (system : System) (node : Nat) : System :=
  { system with
    runQueue :=
      { head := if system.runQueue.tail ≠ 0 then system.runQueue.head else node
        tail := node
        count := u32 (system.runQueue.count + 1) }
    next := Function.update
      (if system.runQueue.tail ≠ 0 then Function.update system.next system.runQueue.tail node
        else system.next) node 0 }

/-- `queue_poll` returns the node, null if the queue is empty. -/
def queuePoll (system : System) : Nat × System :=
  if system.runQueue.head = 0 then (0, system)
  else (system.runQueue.head, { system with
    runQueue :=
      { head := system.next system.runQueue.head
        tail := if system.next system.runQueue.head = 0 then 0 else system.runQueue.tail
        count := sub32 system.runQueue.count 1 } })

/-- `offsetof(Process, queue_node)`. -/
def queueNodeOffset : Nat := 4

/-- `run_queue_next`. -/
def runQueueNext (system : System) : Nat × System :=
  let (node, system) := queuePoll system
  (if node ≠ 0 then sub32 node queueNodeOffset else 0, system)

end Queues

section Aids

/-- The loop of `next_free_aid`: the pid and the new `aid_counter`. -/
def freeAidLoop (system : System) : Nat → Nat → Except Trap (Nat × Nat)
  | 0, _ => .error .noReturn
  | fuel + 1, aid => do
      let pid := u32 (aid <<< 16)
      let node ← rbFind system.machine.processTree pid
      if node = 0 then pure (pid, u16 (aid + 1))
      else if u16 (aid + 1) ≠ system.aidCounter then freeAidLoop system fuel (u16 (aid + 1))
      else .error .assertion

def nextFreeAid (system : System) : Except Trap (Nat × System) := do
  let (pid, aidCounter) ← freeAidLoop system 65536 system.aidCounter
  pure (pid, { system with aidCounter := aidCounter })

end Aids

section ControlBlock

def processOrg : Nat := 0x420000
def stackTop : Nat := 0xBFC00000
def stackSize : Nat := 4 * pageSize
def mailboxDataAddr : Nat := processOrg - pageSize * 17
def pcbAddr : Nat := mailboxDataAddr - pageSize
def initEflags : Nat := 0x202

/-- Offsets of the fields of `ProcessControlBlock`. -/
def pcbEsp : Nat := 12
def pcbEax : Nat := 28
def pcbEflags : Nat := 32
def pcbEip : Nat := 36
def pcbProgBrk : Nat := 40
def pcbPageDirPaddr : Nat := 44
def pcbFpuRegs : Nat := 48
def pcbMailbox : Nat := 560
def pcbHeap : Nat := 588

def loadPcb (machine : Machine) (offset : Nat) : Except Trap Nat := loadWord machine (pcbAddr + offset)

def storePcb (machine : Machine) (offset word : Nat) : Except Trap Machine :=
  storeWord machine (pcbAddr + offset) word

/-- `pmemcpy` from a buffer of the kernel, or `pmemset`. -/
def storeBytes (machine : Machine) (vaddr : Nat) : List UInt8 → Except Trap Machine
  | [] => .ok machine
  | byte :: bytes => do
      let machine ← storeByte machine vaddr byte
      storeBytes machine (u32 (vaddr + 1)) bytes

/-- The eight general registers are copied to the start of the block. -/
def storeRegisters (machine : Machine) (offset : Nat) : List Nat → Except Trap Machine
  | [] => .ok machine
  | word :: words => do
      let machine ← storePcb machine offset word
      storeRegisters machine (offset + 4) words

/-- A stopped context: `pushad`, the flags, where it was, its stack and the state of the FPU. -/
structure Context where
  registers : List Nat
  eflags : Nat
  eip : Nat
  esp : Nat
  fpu : List UInt8

def saveContext (machine : Machine) (context : Context) : Except Trap Machine := do
  let machine ← storeRegisters machine 0 context.registers
  let machine ← storePcb machine pcbEflags context.eflags
  let machine ← storePcb machine pcbEip context.eip
  let machine ← storePcb machine pcbEsp context.esp
  storeBytes machine (pcbAddr + pcbFpuRegs) context.fpu

/-- `fpu_restore` and `jump_usermode`: where the process goes on, and its stack. -/
def jumpUsermode (machine : Machine) : Except Trap (Nat × Nat) := do
  let _ ← loadPcb machine pcbFpuRegs
  let eip ← loadPcb machine pcbEip
  let esp ← loadPcb machine pcbEsp
  pure (eip, esp)

end ControlBlock

section Programs

/-- What `sun_exe_lookup` finds: the sections of a program and the size of its zeroed one. -/
structure SunEntry where
  entryPoint : Nat
  text : List UInt8
  rodata : List UInt8
  data : List UInt8
  bssSize : Nat

def roFlags : Nat := pageUserMode
def rwFlags : Nat := pageWritable ||| pageUserMode

def alignNextPage (vaddr : Nat) : Nat := u32 (vaddr + pageSize) / pageSize * pageSize

/-- A section of the given size from `start` ends before this page. -/
def sectionEnd (start size : Nat) : Nat := alignNextPage (sub32 (u32 (start + size)) 1)

namespace SunEntry

variable (entry : SunEntry)

def rodataStart : Nat := sectionEnd processOrg entry.text.length
def dataStart : Nat := sectionEnd entry.rodataStart entry.rodata.length
def bssStart : Nat := sectionEnd entry.dataStart entry.data.length
def heapStart : Nat := sectionEnd entry.bssStart entry.bssSize

end SunEntry

/-- A difference of pointers in pages. -/
def pagesBetween (low high : Nat) : Nat := ofSigned ((ptrDiff high low).tdiv 4096)

def allocSection (machine : Machine) (size start stop flags : Nat) : Except Trap Machine :=
  if size ≠ 0 then allocPages machine start flags (pagesBetween start stop) else .ok machine

def allocSections (machine : Machine) (entry : SunEntry) : Except Trap Machine := do
  let machine ← allocPages machine processOrg roFlags (pagesBetween processOrg entry.rodataStart)
  let machine ← allocSection machine entry.rodata.length entry.rodataStart entry.dataStart roFlags
  let machine ← allocSection machine entry.data.length entry.dataStart entry.bssStart rwFlags
  let machine ← allocSection machine entry.bssSize entry.bssStart entry.heapStart rwFlags
  let machine ← allocPages machine (stackTop - stackSize) rwFlags (stackSize / pageSize)
  allocPages machine pcbAddr pageWritable 1

def loadSections (machine : Machine) (entry : SunEntry) : Except Trap Machine := do
  let machine ← storeBytes machine processOrg entry.text
  let machine ← storeBytes machine entry.rodataStart entry.rodata
  let machine ← storeBytes machine entry.dataStart entry.data
  storeBytes machine entry.bssStart (List.replicate entry.bssSize 0)

/-- `link_page`: a second page for the frame of `src`. -/
def linkPage (machine : Machine) (tgt src : Nat) : Except Trap Machine := do
  let entry ← getEntry machine src
  let (mapped, machine) ← mapPage machine tgt (getPaddr entry) (getFlags entry)
  kernelAssert (mapped = false)
  pure machine

/-- The fields `unread_size`, `used_size` and `capacity` are 16-bit words. -/
def mailboxSizes : List UInt8 := [0, 0, 0, 0, 0x00, 0x10]

/-- `mailbox_init` on the block's mailbox. -/
def mailboxInit (machine : Machine) (start flags : Nat) : Except Trap Machine := do
  let machine ← storeBytes machine (pcbAddr + pcbMailbox + 8) mailboxSizes
  let machine ← storePcb machine pcbMailbox start
  let machine ← storePcb machine (pcbMailbox + 4) start
  let machine ← storePcb machine (pcbMailbox + 16) start
  let machine ← storePcb machine (pcbMailbox + 20) start
  let machine ← storePcb machine (pcbMailbox + 24) (u32 (start + pageSize))
  let machine ← allocPage machine start flags
  linkPage machine (u32 (start + pageSize)) start

/-- `heap_init` on the block's heap. -/
def pcbHeapInit (machine : Machine) (heapStart pageCount flags : Nat) : Except Trap Machine := do
  kernelAssert (isPageAligned heapStart = true)
  let byteSize := usageBytes pageCount
  let machine ← allocPages machine heapStart flags (sizeInPages byteSize)
  let machine ← storeBytes machine heapStart (List.replicate byteSize 0)
  let machine ← storePcb machine pcbHeap heapStart
  let machine ← storePcb machine (pcbHeap + 4) (u32 (heapStart + u32 (sizeInPages byteSize * pageSize)))
  storePcb machine (pcbHeap + 8) pageCount

/-- The control block of a new process. -/
def pcbInit (machine : Machine) (entry : SunEntry) (pageDir arg : Nat) : Except Trap Machine := do
  let machine ← storePcb machine pcbProgBrk entry.heapStart
  let machine ← storePcb machine pcbEip entry.entryPoint
  let machine ← storePcb machine pcbEsp stackTop
  let machine ← storePcb machine pcbEflags initEflags
  let machine ← storePcb machine pcbPageDirPaddr pageDir
  let machine ← storePcb machine pcbEax arg
  let machine ← storeBytes machine (pcbAddr + pcbFpuRegs) (List.replicate 512 0)
  let machine ← mailboxInit machine mailboxDataAddr pageWritable
  pcbHeapInit machine entry.heapStart (sub32 stackTop entry.heapStart / pageSize) rwFlags

/-- The part of `exec_sun` that makes the address space. Returns its directory. -/
def makeSpace (machine : Machine) (entry : SunEntry) (arg : Nat) : Except Trap (Nat × Machine) := do
  let oldPageDir := getPageDir machine
  let (pageDir, machine) ← newPageDir machine
  let machine := setPageDir machine pageDir
  let machine ← allocSections machine entry
  let machine ← loadSections machine entry
  let machine ← pcbInit machine entry pageDir arg
  pure (pageDir, setPageDir machine oldPageDir)

end Programs

section Processes

/-- `p->page_dir_paddr = page_dir`. The field `blocked` is never read. -/
def setProcessDir (system : System) (process pageDir : Nat) : System :=
  system.onMachine { system.machine with
    pageDirPaddr := Function.update system.machine.pageDirPaddr process pageDir }

/-- `rb_insert` of the node of a process; whether the key was new is not looked at. -/
def insertProcess (system : System) (process pid : Nat) : Except Trap System := do
  let (_, tree) ← rbInsert system.machine.processTree (u32 (process + rbNodeOffset)) pid
  pure (system.onMachine { system.machine with processTree := tree })

/-- `exec_sun` for what `sun_exe_lookup` found under the name. -/
def execSun (system : System) (lookup : Option SunEntry) (arg : Nat) : Except Trap System :=
  match lookup with
  | none => .error .assertion
  | some entry => do
      kernelAssert (entry.text.length ≠ 0)
      let (pageDir, machine) ← makeSpace system.machine entry arg
      let (pid, system) ← nextFreeAid (system.onMachine machine)
      let (process, system) ← poolCreate system
      let system ← insertProcess (setProcessDir system process pageDir) process pid
      let system := queueAdd system (u32 (process + queueNodeOffset))
      pure { system with started := process :: system.started }

/-- `current` gets its address space and goes on in user mode. -/
def resume (system : System) : Except Trap (Nat × Nat) := jumpUsermode system.machine

/-- `schedule`: where the next process goes on. -/
def schedule (system : System) : Except Trap ((Nat × Nat) × System) := do
  let (process, system) := runQueueNext system
  kernelAssert (process ≠ 0)
  let paddr := system.machine.pageDirPaddr process
  let system := { system with current := process, machine := setPageDir system.machine paddr }
  let own ← loadPcb system.machine pcbPageDirPaddr
  kernelAssert (own = paddr)
  let context ← resume system
  pure (context, system)

/-- `preempt` by the timer; in kernel mode it does nothing. -/
def preempt (system : System) (userMode : Bool) (context : Context) :
    Except Trap (Option (Nat × Nat) × System) :=
  if userMode then do
    let own ← loadPcb system.machine pcbPageDirPaddr
    kernelAssert (own = system.machine.pageDirPaddr system.current)
    let machine ← saveContext system.machine context
    let system := queueAdd (system.onMachine machine) (u32 (system.current + queueNodeOffset))
    let (resumed, system) ← schedule system
    pure (some resumed, system)
  else .ok (none, system)

/-- `process_init` for a process that gets a new pid. -/
def processInit (system : System) (process : Nat) : Except Trap (Nat × System) := do
  let (pid, system) ← nextFreeAid system
  let (pageDir, machine) ← newPageDir system.machine
  pure (pid, setProcessDir (system.onMachine machine) process pageDir)

def syscallRegisterProcess (system : System) : Except Trap (SyscallResult × System) := do
  let (process, system) ← poolCreate system
  let (pid, system) ← processInit system process
  let system ← insertProcess system process pid
  pure (⟨pid, 0⟩, system)

def pidNotFound : Nat := 1

/-- What `syscall_delete_process` does with a process it found. -/
def deleteProcess (system : System) (pid process : Nat) : Except Trap System := do
  let machine ← freeFrame system.machine (system.machine.pageDirPaddr process)
  let (_, tree) ← rbRemove machine.processTree pid
  let system := poolDestroy (system.onMachine { machine with processTree := tree }) process
  pure { system with started := system.started.filter (· ≠ process) }

def syscallDeleteProcess (system : System) (pid : Nat) : Except Trap (SyscallResult × System) := do
  let process ← getProcess system.machine.processTree (getPidAid pid)
  if process ≠ 0 then
    let system ← deleteProcess system pid process
    pure (⟨0, pidNotFound⟩, system)
  else pure (⟨0, pidNotFound⟩, system)

/-- What `syscall_jump_process` does with a process it found: it does not return. -/
def jumpTo (system : System) (process : Nat) : Except Trap ((Nat × Nat) × System) := do
  let paddr := system.machine.pageDirPaddr process
  let system := { system with
    current := process
    machine := setPageDir system.machine paddr
    started := process :: system.started }
  let context ← resume system
  pure (context, system)

end Processes

/-- What a call comes back with: the result of a system call, or where a process goes on. -/
inductive Outcome where
  | done
  | returned (result : SyscallResult)
  | resumed (eip esp : Nat)

def syscallJumpProcess (system : System) (pid : Nat) : Except Trap (Outcome × System) := do
  let process ← getProcess system.machine.processTree (getPidAid pid)
  if process ≠ 0 then
    let ((eip, esp), system) ← jumpTo system process
    pure (.resumed eip esp, system)
  else pure (.returned ⟨0, pidNotFound⟩, system)

inductive SystemCall where
  | exec (lookup : Option SunEntry) (arg : Nat)
  | register
  | delete (pid : Nat)
  | jump (pid : Nat)
  | preempt (userMode : Bool) (context : Context)
  | schedule
  | elsewhere (memory : Nat → UInt8) (freeFramePaddr usedFrames : Nat)

/-- One call. `kernel_main` calls `schedule` once; other code, in user mode and in the kernel, may
write to memory and take or give back frames. -/
def systemStep (system : System) : SystemCall → Except Trap (Outcome × System)
  | .exec lookup arg => do
      let system ← execSun system lookup arg
      pure (.done, system)
  | .register => do
      let (result, system) ← syscallRegisterProcess system
      pure (.returned result, system)
  | .delete pid => do
      let (result, system) ← syscallDeleteProcess system pid
      pure (.returned result, system)
  | .jump pid => syscallJumpProcess system pid
  | .preempt userMode context => do
      let (resumed, system) ← preempt system userMode context
      pure (resumed.elim .done fun (eip, esp) => .resumed eip esp, system)
  | .schedule => do
      let ((eip, esp), system) ← schedule system
      pure (.resumed eip esp, system)
  | .elsewhere memory freeFramePaddr usedFrames =>
      .ok (.done, system.onMachine { system.machine with
        memory := memory
        freeFramePaddr := freeFramePaddr
        usedFrames := usedFrames })

/-- `processes_init`, before anything ran. -/
def processesInit (machine : Machine) (nil : Nat) (nodes : Nat → RbTreeModel.RbNode) (next : Nat → Nat) :
    System where
  machine := { machine with processTree := RbTreeModel.rbInit nil nodes }
  freeList := 0
  runQueue := ⟨0, 0, 0⟩
  next := next
  current := 0
  aidCounter := 1
  occupied := []
  started := []

end ParadiseOS.ProcessModel
