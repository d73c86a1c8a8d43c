import ParadiseOS.FillingCache
import ParadiseOS.ProcessModel

/-!
# The translation lookaside buffer under the paging code

The functions of `memory/mem.c` that change page tables, with the TLB at their side:
it may load a present translation of the current directory after every store, loses
a page at `invalidate_page` and all but the global pages at a write to `cr3`. What
the functions do to the machine is what they do in `PagingModel` and `MemModel`.
-/

namespace ParadiseOS.TlbModel

open HeapModel (heapAlloc heapFree)
open FillingCache (Table fill drop)
open MachineWord MailboxModel MemModel PagingModel ProcessModel
open RbTreeModel (rbRemove)
open RbTreeRuns (getProcess)
open TwoLevelPaging (Present directoryEntry pageEntry)

set_option autoImplicit false

/-- The two entries that a translation comes from. -/
structure Translation where
  directory : Nat
  entry : Nat

/-- The entry has the flag `PAGE_GLOBAL` of the code, which is bit 9. The global bit of the processor is
bit 8, which the code never sets. -/
def Translation.Global (translation : Translation) : Prop := translation.entry &&& pageGlobal ≠ 0

/-- The present translations of the current directory, by the number of the page. -/
def walks (machine : Machine) : Table Nat Translation := fun page translation =>
  directoryEntry machine.memory machine.cr3 (page / 1024) = translation.directory ∧
    pageEntry machine.memory machine.cr3 page = translation.entry ∧
      Present translation.directory ∧ Present translation.entry

/-- The machine and what its TLB may hold. -/
structure Cpu where
  machine : Machine
  cached : Table Nat Translation

section Hardware

variable (cpu : Cpu)

/-- The TLB may fill from the tables of the next machine. -/
def Cpu.goesOn (machine : Machine) : Cpu := ⟨machine, fill cpu.cached (walks machine)⟩

def storeWord (vaddr word : Nat) : Except Trap Cpu := do
  let machine ← PagingModel.storeWord cpu.machine vaddr word
  pure (cpu.goesOn machine)

def invalidatePage (vaddr : Nat) : Cpu :=
  Cpu.goesOn ⟨cpu.machine, drop cpu.cached fun page _ => page = vaddr / 4096⟩ cpu.machine

def setPageDir (paddr : Nat) : Cpu :=
  if paddr ≠ cpu.machine.currentPageDir then
    Cpu.goesOn ⟨cpu.machine, drop cpu.cached fun _ translation => ¬ translation.Global⟩
      (PagingModel.setPageDir cpu.machine paddr)
  else cpu

end Hardware

section Frames

/-- `free_frame` once the frame is counted. -/
def linkFrame (cpu : Cpu) (paddr : Nat) : Except Trap Cpu := do
  let cpu ← storeWord cpu cpu.machine.freeListHeadPte (createEntry paddr pteWritable)
  let cpu := invalidatePage cpu cpu.machine.freeListHead
  let cpu ← storeWord cpu cpu.machine.freeListHead cpu.machine.freeFramePaddr
  pure { cpu with machine := { cpu.machine with freeFramePaddr := paddr } }

def freeFrame (cpu : Cpu) (paddr : Nat) : Except Trap Cpu :=
  linkFrame
    { cpu with machine := { cpu.machine with usedFrames := sub32 cpu.machine.usedFrames 1 } } paddr

def allocFrame (cpu : Cpu) : Except Trap (Nat × Cpu) := do
  kernelAssert (cpu.machine.freeFramePaddr ≠ 0)
  let cpu := { cpu with machine := { cpu.machine with usedFrames := u32 (cpu.machine.usedFrames + 1) } }
  let frame := cpu.machine.freeFramePaddr
  let next ← loadWord cpu.machine cpu.machine.freeListHead
  let cpu := { cpu with machine := { cpu.machine with freeFramePaddr := next } }
  let cpu ← storeWord cpu cpu.machine.freeListHeadPte
    (createEntry cpu.machine.freeFramePaddr pteWritable)
  let cpu := invalidatePage cpu cpu.machine.freeListHead
  pure (frame, cpu)

end Frames

section Mapping

def setPde (cpu : Cpu) (pdIndex entry : Nat) : Except Trap Cpu := storeWord cpu (pdeAddr pdIndex) entry

def setPte (cpu : Cpu) (pdIndex ptIndex entry : Nat) : Except Trap Cpu :=
  storeWord cpu (pteAddr pdIndex ptIndex) entry

def initPageTableFrom (cpu : Cpu) (table : Nat) : Nat → Except Trap Cpu
  | 0 => .ok cpu
  | count + 1 => do
      let cpu ← storeWord cpu (u32 (table + u32 (4 * (1023 - count)))) 0
      initPageTableFrom cpu table count

def initPageTable (cpu : Cpu) (table : Nat) : Except Trap Cpu := initPageTableFrom cpu table 1024

def makePageTable (cpu : Cpu) (pdi flags : Nat) : Except Trap Cpu := do
  let directory ← pde cpu.machine pdi
  if ¬ entryPresent directory then do
    let (newTable, cpu) ← allocFrame cpu
    let cpu ← setPde cpu pdi (createEntry newTable (pdeWritable ||| (flags &&& pageUserMode)))
    initPageTable cpu (pteAddr pdi 0)
  else pure cpu

def mapPage (cpu : Cpu) (vaddr paddr flags : Nat) : Except Trap (Bool × Cpu) := do
  let pdi := getPdIndex vaddr
  let pti := getPtIndex vaddr
  let cpu ← makePageTable cpu pdi flags
  let directory ← pde cpu.machine pdi
  let userModeRequested := flags &&& pageUserMode ≠ 0
  let directoryUserMode := getFlags directory &&& pageUserMode ≠ 0
  kernelAssert (¬ userModeRequested ∨ directoryUserMode)
  let entry ← pte cpu.machine pdi pti
  if entryPresent entry then pure (true, cpu)
  else do
    let cpu ← setPte cpu pdi pti (createEntry paddr flags)
    pure (false, cpu)

def flushEntryInfo (cpu : Cpu) (vaddr entry : Nat) : Except Trap Cpu := do
  let pdi := getPdIndex vaddr
  let pti := getPtIndex vaddr
  let directory ← pde cpu.machine pdi
  kernelAssert (entryPresent directory)
  let old ← pte cpu.machine pdi pti
  kernelAssert (entryPresent old)
  setPte cpu pdi pti entry

def unmapPage (cpu : Cpu) (vaddr : Nat) : Except Trap (Option Nat × Cpu) := do
  let entry ← getEntry cpu.machine vaddr
  if ¬ entryPresent entry then pure (none, cpu)
  else do
    let cpu ← flushEntryInfo cpu vaddr 0
    pure (some entry, invalidatePage cpu vaddr)

def setPaddr (entry paddr : Nat) : Nat := getFlags entry ||| paddr

def swapPageFrames (cpu : Cpu) (vaddr1 vaddr2 : Nat) : Except Trap Cpu := do
  let entry1 ← getEntry cpu.machine vaddr1
  let entry2 ← getEntry cpu.machine vaddr2
  let cpu ← flushEntryInfo cpu vaddr1 (setPaddr entry1 (getPaddr entry2))
  let cpu ← flushEntryInfo cpu vaddr2 (setPaddr entry2 (getPaddr entry1))
  let cpu := invalidatePage cpu vaddr1
  pure (invalidatePage cpu vaddr2)

end Mapping

section Directories

/-- The loop of `alloc_pages`. -/
def allocPages (cpu : Cpu) (vaddr flags : Nat) : Nat → Except Trap Cpu
  | 0 => .ok cpu
  | count + 1 => do
      let (frame, cpu) ← allocFrame cpu
      let (mapped, cpu) ← mapPage cpu vaddr frame flags
      kernelAssert (mapped = false)
      allocPages cpu (u32 (vaddr + pageSize)) flags count

def kernelAlloc (cpu : Cpu) (pages : Nat) : Except Trap (Nat × Cpu) := do
  kernelAssert (pages ≠ 0)
  let (vaddr, heap) ← heapAlloc cpu.machine.kernelHeap pages
  let cpu ← allocPages cpu vaddr pageWritable pages
  pure (vaddr, { cpu with machine := { cpu.machine with kernelHeap := heap } })

def clearEntries (cpu : Cpu) (dir i : Nat) : Nat → Except Trap Cpu
  | 0 => .ok cpu
  | count + 1 => do
      let cpu ← storeWord cpu (u32 (dir + u32 (4 * i))) 0
      clearEntries cpu dir (i + 1) count

def copyEntries (cpu : Cpu) (dir i : Nat) : Nat → Except Trap Cpu
  | 0 => .ok cpu
  | count + 1 => do
      let entry ← pde cpu.machine i
      let cpu ← storeWord cpu (u32 (dir + u32 (4 * i))) entry
      copyEntries cpu dir (i + 1) count

def newPageDir (cpu : Cpu) : Except Trap (Nat × Cpu) := do
  let (dir, cpu) ← kernelAlloc cpu 1
  let cpu ← clearEntries cpu dir 1 (kernelPdiStart - 1)
  let cpu ← copyEntries cpu dir kernelPdiStart (kernelPdiEnd - kernelPdiStart)
  let low ← pde cpu.machine 0
  let cpu ← storeWord cpu (u32 (dir + u32 (4 * getPdIndex 0))) low
  let own ← getEntry cpu.machine dir
  let cpu ← storeWord cpu (u32 (dir + u32 (4 * 1023))) (createEntry (getPaddr own) pdeWritable)
  let (_, heap) ← heapFree cpu.machine.kernelHeap dir
  let (removed, cpu) ← unmapPage { cpu with machine := { cpu.machine with kernelHeap := heap } } dir
  match removed with
  | none => .error .assertion
  | some entry => pure (getPaddr entry, cpu)

end Directories

/-- The system, what the TLB may hold, and the directories in existence. No code reads these. -/
structure TlbState where
  system : System
  cached : Table Nat Translation
  directories : List Nat

namespace TlbState

variable (state : TlbState)

/-- The processor at a call: it may have filled its TLB before. -/
def cpu : Cpu := Cpu.goesOn ⟨state.system.machine, state.cached⟩ state.system.machine

def onCpu (cpu : Cpu) : TlbState :=
  { state with system := state.system.onMachine cpu.machine, cached := cpu.cached }

end TlbState

/-- What `syscall_delete_process` does with a process it found. -/
def deleteProcess (state : TlbState) (pid process : Nat) : Except Trap TlbState := do
  let paddr := state.system.machine.pageDirPaddr process
  let cpu ← freeFrame state.cpu paddr
  let (_, tree) ← rbRemove cpu.machine.processTree pid
  let system := poolDestroy (state.system.onMachine { cpu.machine with processTree := tree }) process
  pure { system := { system with started := system.started.filter (· ≠ process) }
         cached := cpu.cached
         directories := state.directories.filter (· ≠ paddr) }

def syscallDeleteProcess (state : TlbState) (pid : Nat) : Except Trap TlbState := do
  let process ← getProcess state.system.machine.processTree (getPidAid pid)
  if process ≠ 0 then deleteProcess state pid process else pure state

inductive TlbCall where
  | mapPage (vaddr paddr flags : Nat)
  | unmapPage (vaddr : Nat)
  | swapPageFrames (vaddr1 vaddr2 : Nat)
  | allocFrame
  | freeFrame (paddr : Nat)
  | newPageDir
  | setPageDir (paddr : Nat)
  | deleteProcess (pid : Nat)

/-- One call, and the frame it returns if it returns one. -/
def tlbStep (state : TlbState) : TlbCall → Except Trap (Option Nat × TlbState)
  | .mapPage vaddr paddr flags => do
      let (_, cpu) ← mapPage state.cpu vaddr paddr flags
      pure (none, state.onCpu cpu)
  | .unmapPage vaddr => do
      let (removed, cpu) ← unmapPage state.cpu vaddr
      pure (removed, state.onCpu cpu)
  | .swapPageFrames vaddr1 vaddr2 => do
      let cpu ← swapPageFrames state.cpu vaddr1 vaddr2
      pure (none, state.onCpu cpu)
  | .allocFrame => do
      let (frame, cpu) ← allocFrame state.cpu
      pure (some frame, state.onCpu cpu)
  | .freeFrame paddr => do
      let cpu ← freeFrame state.cpu paddr
      pure (none, state.onCpu cpu)
  | .newPageDir => do
      let (frame, cpu) ← newPageDir state.cpu
      pure (some frame, { state.onCpu cpu with directories := frame :: state.directories })
  | .setPageDir paddr => .ok (none, state.onCpu (setPageDir state.cpu paddr))
  | .deleteProcess pid => do
      let state ← syscallDeleteProcess state pid
      pure (none, state)

section Erasure

/-- Without the TLB, the first computation is the second one. -/
def Erases {Value Plain : Type} (project : Value → Plain) (tracked : Except Trap Value)
    (plain : Except Trap Plain) : Prop :=
  tracked.map project = plain

variable {Value Plain Result Final : Type} {project : Value → Plain} {finish : Result → Final}

theorem erases_ok (project : Value → Plain) (value : Value) :
    Erases project (.ok value) (.ok (project value)) := rfl

theorem erases_bind {tracked : Except Trap Value} {plain : Except Trap Plain}
    {rest : Value → Except Trap Result} {plainRest : Plain → Except Trap Final}
    (first : Erases project tracked plain)
    (second : ∀ value, Erases finish (rest value) (plainRest (project value))) :
    Erases finish (tracked >>= rest) (plain >>= plainRest) := by
  unfold Erases at first
  subst first
  cases tracked with
  | error trap => rfl
  | ok value => exact second value

/-- Both sides read the same. -/
theorem erases_read {plain : Except Trap Plain} {rest : Plain → Except Trap Result}
    {plainRest : Plain → Except Trap Final} (second : ∀ value, Erases finish (rest value) (plainRest value)) :
    Erases finish (plain >>= rest) (plain >>= plainRest) := by
  cases plain with
  | error trap => rfl
  | ok value => exact second value

theorem erases_if {condition : Prop} [Decidable condition] {first second : Except Trap Value}
    {plainFirst plainSecond : Except Trap Plain} (left : Erases project first plainFirst)
    (right : Erases project second plainSecond) :
    Erases project (if condition then first else second) (if condition then plainFirst else plainSecond) := by
  split_ifs
  · exact left
  · exact right

/-- A value that came back without the TLB came back with it. -/
theorem erases_eq_ok {tracked : Except Trap Value} {plain : Except Trap Plain} {value : Value}
    (erased : Erases project tracked plain) (completed : tracked = .ok value) :
    plain = .ok (project value) := by
  rw [← erased, completed]
  rfl

/-- It comes back with the TLB as it did without it. -/
theorem erases_returns {tracked : Except Trap Value} {plain : Except Trap Plain} {value : Plain}
    (erased : Erases project tracked plain) (completed : plain = .ok value) :
    ∃ result, tracked = .ok result ∧ project result = value := by
  unfold Erases at erased
  cases tracked with
  | error trap =>
      rw [completed] at erased
      cases erased
  | ok result =>
      rw [completed] at erased
      cases erased
      exact ⟨result, rfl, rfl⟩

variable (cpu : Cpu)

theorem store_word_erases (vaddr word : Nat) :
    Erases Cpu.machine (storeWord cpu vaddr word) (PagingModel.storeWord cpu.machine vaddr word) := by
  unfold Erases storeWord
  cases PagingModel.storeWord cpu.machine vaddr word with
  | error trap => rfl
  | ok machine => rfl

theorem set_page_dir_erases (paddr : Nat) :
    (setPageDir cpu paddr).machine = PagingModel.setPageDir cpu.machine paddr := by
  unfold setPageDir
  split_ifs with differ
  · rfl
  · rw [PagingModel.setPageDir, if_neg differ]

theorem free_frame_erases (paddr : Nat) :
    Erases Cpu.machine (freeFrame cpu paddr) (PagingModel.freeFrame cpu.machine paddr) := by
  refine erases_bind (store_word_erases _ _ _) fun marked => ?_
  exact erases_bind (store_word_erases _ _ _) fun linked => rfl

def Cpu.withFrame (result : Nat × Cpu) : Nat × Machine := (result.1, result.2.machine)

theorem alloc_frame_erases :
    Erases Cpu.withFrame (allocFrame cpu) (PagingModel.allocFrame cpu.machine) := by
  refine erases_read fun _ => ?_
  refine erases_read fun next => ?_
  exact erases_bind (store_word_erases _ _ _) fun popped => rfl

theorem init_page_table_erases (table count : Nat) :
    Erases Cpu.machine (initPageTableFrom cpu table count)
      (PagingModel.initPageTableFrom cpu.machine table count) := by
  induction count generalizing cpu with
  | zero => exact erases_ok _ _
  | succ count ih =>
      exact erases_bind (store_word_erases _ _ _) fun cleared => ih cleared

theorem make_page_table_erases (pdi flags : Nat) :
    Erases Cpu.machine (makePageTable cpu pdi flags)
      (PagingModel.makePageTable cpu.machine pdi flags) := by
  refine erases_read fun directory => ?_
  refine erases_if ?_ (erases_ok _ _)
  refine erases_bind (alloc_frame_erases cpu) fun allocated => ?_
  exact erases_bind (store_word_erases _ _ _) fun linked => init_page_table_erases linked _ _

def Cpu.withMapped (result : Bool × Cpu) : Bool × Machine := (result.1, result.2.machine)

theorem map_page_erases (vaddr paddr flags : Nat) :
    Erases Cpu.withMapped (mapPage cpu vaddr paddr flags)
      (PagingModel.mapPage cpu.machine vaddr paddr flags) := by
  refine erases_bind (make_page_table_erases cpu _ _) fun made => ?_
  refine erases_read fun directory => ?_
  refine erases_read fun _ => ?_
  refine erases_read fun entry => ?_
  refine erases_if (erases_ok _ _) ?_
  exact erases_bind (store_word_erases _ _ _) fun mapped => rfl

theorem flush_entry_info_erases (vaddr entry : Nat) :
    Erases Cpu.machine (flushEntryInfo cpu vaddr entry)
      (PagingModel.flushEntryInfo cpu.machine vaddr entry) := by
  refine erases_read fun directory => ?_
  refine erases_read fun _ => ?_
  refine erases_read fun old => ?_
  refine erases_read fun _ => ?_
  exact store_word_erases _ _ _

def Cpu.withEntry (result : Option Nat × Cpu) : Option Nat × Machine := (result.1, result.2.machine)

theorem unmap_page_erases (vaddr : Nat) :
    Erases Cpu.withEntry (unmapPage cpu vaddr) (PagingModel.unmapPage cpu.machine vaddr) := by
  refine erases_read fun entry => ?_
  refine erases_if (erases_ok _ _) ?_
  exact erases_bind (flush_entry_info_erases cpu _ _) fun flushed => rfl

theorem alloc_pages_erases (vaddr flags count : Nat) :
    Erases Cpu.machine (allocPages cpu vaddr flags count)
      (PagingModel.allocPages cpu.machine vaddr flags count) := by
  induction count generalizing cpu vaddr with
  | zero => exact erases_ok _ _
  | succ count ih =>
      refine erases_bind (alloc_frame_erases cpu) fun allocated => ?_
      refine erases_bind (map_page_erases allocated.2 _ _ _) fun mapped => ?_
      exact erases_read fun _ => ih mapped.2 _

theorem kernel_alloc_erases (pages : Nat) :
    Erases Cpu.withFrame (kernelAlloc cpu pages) (MemModel.kernelAlloc cpu.machine pages) := by
  unfold MemModel.kernelAlloc MemModel.memAlloc kernelAlloc
  simp only [bind_assoc]
  refine erases_read fun _ => ?_
  refine erases_read fun found => ?_
  exact erases_bind (alloc_pages_erases cpu _ _ _) fun backed => rfl

theorem clear_entries_erases (dir i count : Nat) :
    Erases Cpu.machine (clearEntries cpu dir i count) (MemModel.clearEntries cpu.machine dir i count) := by
  induction count generalizing cpu i with
  | zero => exact erases_ok _ _
  | succ count ih => exact erases_bind (store_word_erases _ _ _) fun cleared => ih cleared _

theorem copy_entries_erases (dir i count : Nat) :
    Erases Cpu.machine (copyEntries cpu dir i count) (MemModel.copyEntries cpu.machine dir i count) := by
  induction count generalizing cpu i with
  | zero => exact erases_ok _ _
  | succ count ih =>
      refine erases_read fun entry => ?_
      exact erases_bind (store_word_erases _ _ _) fun copied => ih copied _

theorem new_page_dir_erases :
    Erases Cpu.withFrame (newPageDir cpu) (MemModel.newPageDir cpu.machine) := by
  refine erases_bind (kernel_alloc_erases cpu 1) fun allocated => ?_
  refine erases_bind (clear_entries_erases allocated.2 _ _ _) fun cleared => ?_
  refine erases_bind (copy_entries_erases cleared _ _ _) fun copied => ?_
  refine erases_read fun low => ?_
  refine erases_bind (store_word_erases copied _ _) fun linked => ?_
  refine erases_read fun own => ?_
  refine erases_bind (store_word_erases linked _ _) fun filled => ?_
  refine erases_read fun freed => ?_
  refine erases_bind (unmap_page_erases _ _) fun unmapped => ?_
  obtain ⟨removed, last⟩ := unmapped
  cases removed with
  | none => rfl
  | some entry => rfl

theorem delete_process_erases (state : TlbState) (pid process : Nat) :
    Erases TlbState.system (deleteProcess state pid process)
      (ProcessModel.deleteProcess state.system pid process) := by
  refine erases_bind (free_frame_erases state.cpu _) fun freed => ?_
  exact erases_read fun removed => rfl

theorem syscall_delete_process_erases (state : TlbState) (pid : Nat) :
    Erases TlbState.system (syscallDeleteProcess state pid)
      ((ProcessModel.syscallDeleteProcess state.system pid).map Prod.snd) := by
  unfold syscallDeleteProcess ProcessModel.syscallDeleteProcess
  cases getProcess state.system.machine.processTree (getPidAid pid) with
  | error trap => rfl
  | ok process =>
      simp only [Trap.ok_bind]
      split_ifs
      · have erased := delete_process_erases state pid process
        unfold Erases at erased ⊢
        rw [erased]
        cases ProcessModel.deleteProcess state.system pid process with
        | error trap => rfl
        | ok system => rfl
      · rfl

end Erasure

end ParadiseOS.TlbModel
