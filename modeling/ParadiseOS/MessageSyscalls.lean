import ParadiseOS.MailboxRuns
import ParadiseOS.PagingChecks
import ParadiseOS.VirtModel

/-!
# What the message system calls of `process/processes.c` report

A process sends to the mailbox of another one, found by the address-space id of
the reader and reached by loading its directory; a process reads its own. Each
directory maps a process control block of its own, so that the mailboxes are
kept by directory. Whether a message was put into the mailbox never gets back to
the sender.
-/

namespace ParadiseOS.MessageSyscalls

open MachineWord MailboxModel MailboxRing StepRun
open RbTreeModel (RbTree)
open RbTreeRuns (getProcess rbNodeOffset)
open VirtModel (SyscallResult)

set_option autoImplicit false

section Model

structure Ipc where
  processTree : RbTree
  /-- The field `page_dir_paddr` of the process at an address. -/
  pageDirPaddr : Nat → Nat
  current : Nat
  currentPageDir : Nat
  /-- `pcb->mailbox` and the mailbox page under a directory. -/
  mailboxes : Nat → Mailbox

def Ipc.setPageDir (state : Ipc) (paddr : Nat) : Ipc := { state with currentPageDir := paddr }

/-- `pcb->mailbox` under the loaded directory. -/
def Ipc.mailbox (state : Ipc) : Mailbox := state.mailboxes state.currentPageDir

def Ipc.setMailbox (state : Ipc) (mailbox : Mailbox) : Ipc :=
  { state with
    mailboxes := fun paddr => if paddr = state.currentPageDir then mailbox else state.mailboxes paddr }

/-- The flag `IPC_SIGNAL`. -/
def ipcSignal : Nat := 1

/-- `GET_PID`. -/
def getPid (state : Ipc) (process : Nat) : Nat :=
  state.processTree.keyOf (u32 (process + rbNodeOffset))

/-- `syscall_send_message`; `data` is what the sender has at its pointer. `send_signal` does
nothing yet, and what `mailbox_send_message` returns is dropped. -/
def syscallSendMessage (state : Ipc) (readerPid dataSize : Nat) (data : Nat → UInt8) (flags : Nat) :
    Except Trap (SyscallResult × Ipc) := do
  let messageSize := dataSize &&& 0xFF
  let messageCpy := (List.range messageSize).map data ++ [0]
  let senderPid := getPid state state.current
  let dst ← getProcess state.processTree (getPidAid readerPid)
  kernelAssert (dst ≠ 0)
  let state := state.setPageDir (state.pageDirPaddr dst)
  let state :=
    if flags &&& ipcSignal ≠ 0 then state
    else state.setMailbox
      (mailboxSendMessage state.mailbox senderPid readerPid messageSize messageCpy).2
  pure (⟨0, 0⟩, state.setPageDir (state.pageDirPaddr state.current))

def syscallReadMessage (state : Ipc) (senderPid readerPid : Nat) (message : MailboxMessage) :
    Except Trap (SyscallResult × MailboxMessage × Ipc) := do
  let (res, message, mailbox) ← mailboxReadMessage state.mailbox senderPid readerPid message
  pure (⟨res, 0⟩, message, state.setMailbox mailbox)

/-- A process runs, with its directory loaded. -/
def Ipc.running (state : Ipc) (process : Nat) : Ipc :=
  { state with current := process, currentPageDir := state.pageDirPaddr process }

inductive MessageCall where
  | send (sender readerPid dataSize : Nat) (data : Nat → UInt8) (flags : Nat)
  | read (senderPid readerPid : Nat) (message : MailboxMessage)

/-- Any process may run and send; the reader may run and read. -/
def messageStep (reader : Nat) (state : Ipc) : MessageCall → Except Trap (SyscallResult × Ipc)
  | .send sender readerPid dataSize data flags =>
      syscallSendMessage (state.running sender) readerPid dataSize data flags
  | .read senderPid readerPid message => do
      let (result, _, state) ← syscallReadMessage (state.running reader) senderPid readerPid message
      pure (result, state)

end Model

section Statement

/-- The mailbox of a process. -/
def Ipc.mailboxOf (state : Ipc) (process : Nat) : Mailbox :=
  state.mailboxes (state.pageDirPaddr process)

/-- Messages are sent to the reader, and are no signals. -/
def SentTo (reader : Nat) (state : Ipc) : MessageCall → Prop
  | .send _ readerPid _ _ flags =>
      getProcess state.processTree (getPidAid readerPid) = .ok reader ∧ reader ≠ 0 ∧
        flags &&& ipcSignal = 0
  | .read _ _ _ => True

/-- The message stands behind what was in the mailbox before, and nothing else has changed. -/
structure Appended (before after : Mailbox) (header : MailboxMessageHeader) (data : List UInt8) :
    Prop where
  size : after.usedSize = before.usedSize + (messageHeaderSize + data.length)
  bytes : loadBytes after before.tail (messageHeaderSize + data.length) =
    .ok (headerBytes header ++ data)
  head : after.head = before.head
  kept : ∀ cell, (∀ index < messageHeaderSize + data.length,
      cell ≠ before.firstPage + (before.tail - before.firstPage + index) % 4096) →
    after.memory cell = before.memory cell

/-- The message with all its data fits behind what is in the mailbox. -/
def Fits (mailbox : Mailbox) (dataSize : Nat) : Prop :=
  mailbox.usedSize + (messageHeaderSize + dataSize) ≤ mailbox.capacity

instance (mailbox : Mailbox) (dataSize : Nat) : Decidable (Fits mailbox dataSize) :=
  inferInstanceAs (Decidable (_ ≤ _))

/-- A send reports success exactly when it has put the whole message into the mailbox, and
refuses messages that are too large or do not fit. -/
structure Reports (before after : Mailbox) (header : MailboxMessageHeader) (data : List UInt8)
    (result : SyscallResult) : Prop where
  delivered : result.err = 0 ↔ Appended before after header data
  refused : 255 < data.length ∨ ¬ Fits before data.length → result.err ≠ 0 ∧ after = before

instance (reader : Nat) (state : Ipc) : ∀ call, Decidable (SentTo reader state call)
  | .send _ _ _ _ _ => inferInstanceAs (Decidable (_ ∧ _ ∧ _))
  | .read _ _ _ => isTrue trivial

/-- Every send of the call reports what has happened to its message. -/
def Reported (reader : Nat) (state : Ipc) : MessageCall → Prop
  | .send sender readerPid dataSize data flags => ∀ result next,
      messageStep reader state (.send sender readerPid dataSize data flags) = .ok (result, next) →
      Reports (state.mailboxOf reader) (next.mailboxOf reader)
        ⟨getPid state sender, readerPid, dataSize⟩ ((List.range dataSize).map data) result
  | .read _ _ _ => True

/-- The message has a size that fits in its field, and a place in the mailbox. -/
def Deliverable (reader : Nat) (state : Ipc) : MessageCall → Prop
  | .send _ _ dataSize _ _ => dataSize ≤ 255 ∧ Fits (state.mailboxOf reader) dataSize
  | .read _ _ _ => True

instance (reader : Nat) (state : Ipc) : ∀ call, Decidable (Deliverable reader state call)
  | .send _ _ _ _ _ => inferInstanceAs (Decidable (_ ∧ _))
  | .read _ _ _ => isTrue trivial

end Statement

section Layout

/-- What every mailbox keeps of `mailbox_init`, and where its tail is. -/
structure Layout (mailbox : Mailbox) : Prop where
  aligned : mailbox.firstPage % 4096 = 0
  addressable : mailbox.firstPage + 8192 < 4294967296
  copyPage : mailbox.copyPage = mailbox.firstPage + 4096
  capacity : mailbox.capacity = 4096
  tailLow : mailbox.firstPage ≤ mailbox.tail
  tailHigh : mailbox.tail < mailbox.firstPage + 4096

variable {mailbox next : Mailbox} {senderPid readerPid : Nat}

theorem init_layout {start : Nat} (memory : Nat → UInt8) (aligned : start % 4096 = 0)
    (addressable : start + 8192 < 4294967296) : Layout (mailboxInit start memory) where
  aligned := aligned
  addressable := addressable
  copyPage := u32_of_lt (by omega)
  capacity := rfl
  tailLow := Nat.le_refl _
  tailHigh := Nat.lt_add_of_pos_right (by decide)

theorem layout_congr (layout : Layout mailbox) (firstPage : next.firstPage = mailbox.firstPage)
    (copyPage : next.copyPage = mailbox.copyPage) (capacity : next.capacity = mailbox.capacity)
    (tail : next.tail = mailbox.tail) : Layout next where
  aligned := firstPage ▸ layout.aligned
  addressable := firstPage ▸ layout.addressable
  copyPage := copyPage.trans (firstPage ▸ layout.copyPage)
  capacity := capacity.trans layout.capacity
  tailLow := firstPage ▸ tail ▸ layout.tailLow
  tailHigh := firstPage ▸ tail ▸ layout.tailHigh

/-- Loading depends on the memory and on the two pages. -/
theorem load_bytes_congr {other : Mailbox} (memory : other.memory = mailbox.memory)
    (firstPage : other.firstPage = mailbox.firstPage) (copyPage : other.copyPage = mailbox.copyPage)
    (addr count : Nat) : loadBytes other addr count = loadBytes mailbox addr count := by
  induction count generalizing addr with
  | zero => rfl
  | succ count ih =>
      have byte : loadByte other addr = loadByte mailbox addr := by
        rw [loadByte, storedByte, memory, backing, firstPage, copyPage]
        rfl
      rw [loadBytes, byte, ih, loadBytes]

theorem send_message_full {dataSize : Nat} (data : List UInt8) (capacity : mailbox.capacity = 4096)
    (full : ¬ Fits mailbox dataSize) :
    mailboxSendMessage mailbox senderPid readerPid dataSize data = (false, mailbox) := by
  unfold Fits at full
  rw [capacity] at full
  rw [mailboxSendMessage, if_pos (by rw [capacity]; omega)]

/-- The header and the data of an accepted message are stored in one block at the tail. -/
theorem send_message_stores {data : List UInt8} (layout : Layout mailbox)
    (fits : Fits mailbox data.length) (rest : List UInt8) :
    mailboxSendMessage mailbox senderPid readerPid data.length (data ++ rest) =
      (true, { storeBytes mailbox mailbox.tail (headerBytes ⟨senderPid, readerPid, data.length⟩ ++ data) with
        tail := wrapPtr mailbox (mailbox.tail + (messageHeaderSize + data.length))
        usedSize := mailbox.usedSize + (messageHeaderSize + data.length) }) := by
  have capacity := layout.capacity
  have addressable := layout.addressable
  have tailHigh := layout.tailHigh
  have copyPage := layout.copyPage
  unfold Fits at fits
  rw [capacity, messageHeaderSize] at fits
  have headerLength : (headerBytes ⟨senderPid, readerPid, data.length⟩).length = 9 := rfl
  have fields := store_bytes_fields mailbox mailbox.tail
    (headerBytes ⟨senderPid, readerPid, data.length⟩)
  have whole := store_bytes_append mailbox mailbox.tail
    (headerBytes ⟨senderPid, readerPid, data.length⟩) data (by omega)
  rw [headerLength] at whole
  have fieldsWhole := store_bytes_fields mailbox mailbox.tail
    (headerBytes ⟨senderPid, readerPid, data.length⟩ ++ data)
  rw [mailboxSendMessage, if_neg (by rw [messageHeaderSize, capacity]; omega)]
  simp only [messageHeaderSize, fields.tail, List.take_left, store_bytes_tail]
  rw [u32_of_lt (by omega : mailbox.tail + 9 < 4294967296), ← whole,
    u32_of_lt (by omega : mailbox.tail + 9 + data.length < 4294967296), fieldsWhole.usedSize, u16,
    Nat.mod_eq_of_lt (by omega), Nat.add_assoc]
  rw [wrapPtr, wrapPtr, fieldsWhole.copyPage, fieldsWhole.firstPage]

theorem message_bytes_length (header : MailboxMessageHeader) (data : List UInt8) :
    (headerBytes header ++ data).length = messageHeaderSize + data.length := List.length_append

variable {header : MailboxMessageHeader} {data : List UInt8}

/-- Bytes stored at the tail, with the tail moved behind them, keep the layout. -/
theorem stored_appended (layout : Layout mailbox) (short : messageHeaderSize + data.length ≤ 4096)
    (stored : next = { storeBytes mailbox mailbox.tail (headerBytes header ++ data) with
      tail := wrapPtr mailbox (mailbox.tail + (messageHeaderSize + data.length))
      usedSize := mailbox.usedSize + (messageHeaderSize + data.length) }) :
    Appended mailbox next header data ∧ Layout next := by
  have tailLow := layout.tailLow
  have tailHigh := layout.tailHigh
  have length := message_bytes_length header data
  have fields := store_bytes_fields mailbox mailbox.tail (headerBytes header ++ data)
  have place : mailbox.tail = mailbox.firstPage + (mailbox.tail - mailbox.firstPage) := by omega
  obtain ⟨written, kept⟩ := store_bytes_memory mailbox layout.copyPage layout.addressable
    (mailbox.tail - mailbox.firstPage) (headerBytes header ++ data) (by omega) (by omega)
  rw [← place, length] at kept
  rw [← place] at written
  have wrapped := wrap_ptr_ring layout.aligned layout.addressable layout.copyPage
    (show mailbox.tail - mailbox.firstPage + (messageHeaderSize + data.length) < 8192 by omega)
  rw [← Nat.add_assoc, ← place] at wrapped
  have memory : next.memory =
      (storeBytes mailbox mailbox.tail (headerBytes header ++ data)).memory := by rw [stored]
  have firstPage : next.firstPage = mailbox.firstPage := by rw [stored]; exact fields.firstPage
  have copyPage : next.copyPage = mailbox.copyPage := by rw [stored]; exact fields.copyPage
  have tail : next.tail = mailbox.firstPage +
      (mailbox.tail - mailbox.firstPage + (messageHeaderSize + data.length)) % 4096 := by
    rw [stored]
    exact wrapped
  have ring : Ring { next with head := mailbox.tail, usedSize := messageHeaderSize + data.length }
      (headerBytes header ++ data) := by
    refine ⟨?_, ?_, ?_, ?_, ?_, ?_, length.symm, by omega, ?_, ?_⟩
    · exact firstPage ▸ layout.aligned
    · exact firstPage ▸ layout.addressable
    · exact copyPage.trans (firstPage ▸ layout.copyPage)
    · rw [stored]
      exact fields.capacity.trans layout.capacity
    · exact firstPage ▸ tailLow
    · exact firstPage ▸ tailHigh
    · rw [length]
      exact firstPage ▸ tail
    · intro index inside
      change next.memory (next.firstPage + (mailbox.tail - next.firstPage + index) % 4096) = _
      rw [memory, firstPage]
      exact written index inside
  refine ⟨⟨?_, ?_, ?_, ?_⟩, ⟨?_, ?_, ?_, ?_, ?_, ?_⟩⟩
  · rw [stored]
  · have whole := stored_bytes_ring ring
      (show 0 + (messageHeaderSize + data.length) ≤ (headerBytes header ++ data).length by omega)
    rw [List.drop_zero, ← length, List.take_length, length, Nat.add_zero] at whole
    have loaded := load_bytes_ok (ring_pages ring)
      (show mailbox.tail + (messageHeaderSize + data.length) ≤ next.copyPage + 4096 by
        rw [copyPage, layout.copyPage]
        omega)
    refine Eq.trans (load_bytes_congr ?_ ?_ ?_ _ _) (loaded.trans (congrArg Except.ok whole))
    · rfl
    · rfl
    · rfl
  · rw [stored]
    exact fields.head
  · intro cell away
    rw [memory]
    exact kept cell away
  · exact firstPage ▸ layout.aligned
  · exact firstPage ▸ layout.addressable
  · rw [copyPage, firstPage]
    exact layout.copyPage
  · rw [stored]
    exact fields.capacity.trans layout.capacity
  · rw [tail, firstPage]
    omega
  · rw [tail, firstPage]
    omega

/-- Reading moves the head and marks bytes; the tail stays. -/
theorem read_layout {buffer message : MailboxMessage} {found : Nat} (layout : Layout mailbox)
    (completed : mailboxReadMessage mailbox senderPid readerPid buffer = .ok (found, message, next)) :
    Layout next := by
  obtain ⟨state, _, completed⟩ := Trap.bind_eq_ok.1 completed
  split_ifs at completed with none
  · cases completed
    exact layout
  · obtain ⟨_, _, cleanup⟩ := Trap.bind_eq_ok.1 completed
    obtain ⟨cleaned, _, finished⟩ := Trap.bind_eq_ok.1 cleanup
    simp only [Trap.pure_ok, Except.ok.injEq, Prod.mk.injEq] at finished
    obtain ⟨_, _, result⟩ := finished
    have fields := store_bytes_fields { mailbox with
      unreadSize := u16 (mailbox.unreadSize + 65536 - state.totalMessageSize) }
        state.currentMessage (List.replicate 8 0)
    rw [← result]
    apply layout_congr layout
    · dsimp only
      exact fields.firstPage
    · dsimp only
      exact fields.copyPage
    · dsimp only
      exact fields.capacity
    · dsimp only
      exact fields.tail

end Layout

section Steps

variable {reader : Nat} {state next : Ipc} {result : SyscallResult}

/-- What a run of the system keeps: the processes, and the layout of the reader's mailbox. -/
structure Kept (reader : Nat) (tree : RbTree) (directories : Nat → Nat) (state : Ipc) : Prop where
  processTree : state.processTree = tree
  pageDirPaddr : state.pageDirPaddr = directories
  layout : Layout (state.mailboxOf reader)

/-- A send to the reader that returns has left the reader's mailbox as `mailbox_send_message`
leaves it, and reports success. -/
theorem send_step {sender readerPid dataSize flags : Nat} {data : Nat → UInt8}
    (sent : SentTo reader state (.send sender readerPid dataSize data flags))
    (completed : messageStep reader state (.send sender readerPid dataSize data flags) =
      .ok (result, next)) :
    result.err = 0 ∧ next.processTree = state.processTree ∧ next.pageDirPaddr = state.pageDirPaddr ∧
      next.mailboxOf reader = (mailboxSendMessage (state.mailboxOf reader) (getPid state sender)
        readerPid (dataSize &&& 0xFF) ((List.range (dataSize &&& 0xFF)).map data ++ [0])).2 := by
  obtain ⟨found, present, plain⟩ := sent
  have lookup : getProcess (state.running sender).processTree (getPidAid readerPid) = .ok reader := found
  rw [messageStep, syscallSendMessage, lookup, Trap.ok_bind, Trap.kernel_assert_of present,
    Trap.ok_bind] at completed
  dsimp only at completed
  rw [if_neg (not_not.2 plain)] at completed
  simp only [Trap.pure_ok, Except.ok.injEq, Prod.mk.injEq] at completed
  obtain ⟨rfl, rfl⟩ := completed
  exact ⟨rfl, rfl, rfl, if_pos rfl⟩

theorem low_byte_of_le {dataSize : Nat} (short : dataSize ≤ 255) : dataSize &&& 0xFF = dataSize := by
  rw [show 0xFF = 2 ^ 8 - 1 from rfl, Nat.and_two_pow_sub_one_eq_mod, Nat.mod_eq_of_lt (by omega)]

theorem low_byte_le (dataSize : Nat) : dataSize &&& 0xFF ≤ 255 := Nat.and_le_right

theorem payload_length (dataSize : Nat) (data : Nat → UInt8) :
    ((List.range dataSize).map data).length = dataSize := by
  rw [List.length_map, List.length_range]

/-- A message that is deliverable arrives whole. -/
theorem deliverable_reports {senderPid readerPid dataSize : Nat} {data : Nat → UInt8}
    {mailbox after : Mailbox} (layout : Layout mailbox) (short : dataSize ≤ 255)
    (fits : Fits mailbox dataSize) (success : result.err = 0)
    (sent : after = (mailboxSendMessage mailbox senderPid readerPid (dataSize &&& 0xFF)
      ((List.range (dataSize &&& 0xFF)).map data ++ [0])).2) :
    Reports mailbox after ⟨senderPid, readerPid, dataSize⟩ ((List.range dataSize).map data) result := by
  have length := payload_length dataSize data
  have capacity := layout.capacity
  have stores := @send_message_stores mailbox senderPid readerPid ((List.range dataSize).map data)
    layout (length.symm ▸ fits) [0]
  rw [length] at stores
  rw [low_byte_of_le short, stores] at sent
  have room : messageHeaderSize + ((List.range dataSize).map data).length ≤ 4096 := by
    unfold Fits at fits
    rw [capacity] at fits
    rw [length]
    omega
  obtain ⟨appended, _⟩ : Appended mailbox after ⟨senderPid, readerPid, dataSize⟩
      ((List.range dataSize).map data) ∧ Layout after :=
    stored_appended layout room (by rw [length]; exact sent)
  refine ⟨iff_of_true success appended, ?_⟩
  intro refused
  rw [length] at refused
  rcases refused with large | full
  · omega
  · exact absurd fits full

/-- A message that is not deliverable is reported as sent all the same. -/
theorem undeliverable_reports {header : MailboxMessageHeader} {data : List UInt8}
    {before after : Mailbox} (undeliverable : ¬ (data.length ≤ 255 ∧ Fits before data.length))
    (success : result.err = 0) : ¬ Reports before after header data result := by
  intro reports
  have refused : 255 < data.length ∨ ¬ Fits before data.length := by
    by_cases short : data.length ≤ 255
    · exact .inr fun fits => undeliverable ⟨short, fits⟩
    · exact .inl (by omega)
  exact (reports.refused refused).1 success

theorem reported_iff {tree : RbTree} {directories : Nat → Nat} (kept : Kept reader tree directories state)
    (call : MessageCall) (sent : SentTo reader state call) :
    Reported reader state call ↔ Deliverable reader state call := by
  cases call with
  | read senderPid readerPid message => exact Iff.rfl
  | send sender readerPid dataSize data flags =>
      constructor
      · intro reported
        obtain ⟨result, next, completed⟩ : ∃ result next,
            messageStep reader state (.send sender readerPid dataSize data flags) = .ok (result, next) := by
          obtain ⟨found, present, plain⟩ := sent
          have lookup : getProcess (state.running sender).processTree (getPidAid readerPid) = .ok reader :=
            found
          rw [messageStep, syscallSendMessage, lookup, Trap.ok_bind, Trap.kernel_assert_of present,
            Trap.ok_bind]
          exact ⟨_, _, rfl⟩
        obtain ⟨success, _⟩ := send_step sent completed
        by_contra undeliverable
        have length := payload_length dataSize data
        apply undeliverable_reports _ success (reported result next completed)
        rw [length]
        exact undeliverable
      · rintro ⟨short, fits⟩ result next completed
        obtain ⟨success, _, _, after⟩ := send_step sent completed
        exact deliverable_reports kept.layout short fits success after

/-- Every call of a run keeps the layout of the reader's mailbox. -/
theorem step_kept {tree : RbTree} {directories : Nat → Nat} {call : MessageCall}
    (kept : Kept reader tree directories state) (sent : SentTo reader state call)
    (completed : messageStep reader state call = .ok (result, next)) :
    Kept reader tree directories next := by
  cases call with
  | send sender readerPid dataSize data flags =>
      obtain ⟨_, sameTree, sameDirectories, after⟩ := send_step sent completed
      refine ⟨sameTree.trans kept.processTree, sameDirectories.trans kept.pageDirPaddr, ?_⟩
      rw [after]
      have short := low_byte_le dataSize
      have length := payload_length (dataSize &&& 0xFF) data
      by_cases fits : Fits (state.mailboxOf reader) (dataSize &&& 0xFF)
      · have stores := @send_message_stores (state.mailboxOf reader) (getPid state sender) readerPid
          ((List.range (dataSize &&& 0xFF)).map data) kept.layout (length.symm ▸ fits) [0]
        rw [length] at stores
        rw [stores]
        have room : messageHeaderSize + ((List.range (dataSize &&& 0xFF)).map data).length ≤ 4096 := by
          rw [length, messageHeaderSize]
          omega
        exact (stored_appended kept.layout room (by rw [length])).2
      · rw [send_message_full _ kept.layout.capacity fits]
        exact kept.layout
  | read senderPid readerPid message =>
      obtain ⟨⟨answer, received, after⟩, reading, finished⟩ := Trap.bind_eq_ok.1 completed
      obtain ⟨⟨found, delivered, mailbox⟩, loaded, ended⟩ := Trap.bind_eq_ok.1 reading
      cases ended
      cases finished
      refine ⟨kept.processTree, kept.pageDirPaddr, ?_⟩
      have same : ((state.running reader).setMailbox mailbox).mailboxOf reader = mailbox := if_pos rfl
      rw [same]
      exact read_layout kept.layout loaded

/-- In every run, the sends report what has happened to their messages exactly when each message
has a size of one byte and finds room. -/
theorem send_reports_runs {start : Nat} {memory : Nat → UInt8} {calls : List MessageCall}
    (aligned : start % 4096 = 0) (addressable : start + 8192 < 4294967296)
    (empty : state.mailboxOf reader = mailboxInit start memory)
    (legal : Allowed (messageStep reader) (SentTo reader) state calls) :
    Allowed (messageStep reader) (Reported reader) state calls ↔
      Allowed (messageStep reader) (Deliverable reader) state calls := by
  have layout : Layout (state.mailboxOf reader) := empty.symm ▸ init_layout memory aligned addressable
  apply allowed_iff (Kept reader state.processTree state.pageDirPaddr) _ _ calls state
    ⟨rfl, rfl, layout⟩ legal
  · intro state call kept sent
    exact reported_iff kept call sent
  · intro state call result next kept sent _ completed
    exact step_kept kept sent completed

end Steps

section Sample

/-- Processes 1 and 2 with empty mailboxes. -/
def sampleIpc : Ipc where
  processTree := PagingChecks.sampleTree
  pageDirPaddr process := if process = 0xC0002000 then 0x10000 else 0x11000
  current := 0xC0002000
  currentPageDir := 0x10000
  mailboxes _ := mailboxInit 0x40F000 fun _ => 0

/-- Process 1 sends three bytes and process 2 reads them; process 2 sends itself nothing. -/
def sampleCalls : List MessageCall :=
  [.send 0xC0002000 0x20000 3 (fun _ => 7) 0, .read 0x10000 0x20000 ⟨⟨0, 0, 0⟩, []⟩,
    .send 0xC0003000 0x20000 0 (fun _ => 7) 0]

theorem send_reports_runs_short :
    Allowed (messageStep 0xC0003000) (Reported 0xC0003000) sampleIpc sampleCalls :=
  (send_reports_runs (by decide : 0x40F000 % 4096 = 0) (by decide)
    (rfl : sampleIpc.mailboxOf 0xC0003000 = mailboxInit 0x40F000 fun _ => 0)
    (by decide +kernel)).2 (by decide +kernel)

/-- A message of 256 bytes is reported as sent, and its size is cut to zero. -/
theorem send_reports_long_message :
    Allowed (messageStep 0xC0003000) (SentTo 0xC0003000) sampleIpc
        [.send 0xC0002000 0x20000 256 (fun _ => 7) 0] ∧
      ¬ Allowed (messageStep 0xC0003000) (Reported 0xC0003000) sampleIpc
        [.send 0xC0002000 0x20000 256 (fun _ => 7) 0] := by
  refine ⟨by decide +kernel, fun reported => ?_⟩
  have sent : SentTo 0xC0003000 sampleIpc (.send 0xC0002000 0x20000 256 (fun _ => 7) 0) := by
    decide +kernel
  have layout : Layout (sampleIpc.mailboxOf 0xC0003000) :=
    init_layout (fun _ => 0) (by decide) (by decide)
  have deliverable := (reported_iff ⟨rfl, rfl, layout⟩ _ sent).1 reported.1
  exact absurd deliverable.1 (by decide)

end Sample

end ParadiseOS.MessageSyscalls
