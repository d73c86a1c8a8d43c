import ParadiseOS.KernelTrap
import ParadiseOS.MachineWord

/-!
# The message ring of `ipc/mailbox.c`

A mailbox is one page of bytes whose frame is mapped a second time right behind
it, so that a message that starts near the end of the page is contiguous in
virtual memory. Memory is kept by virtual address; the copy page is resolved to
the first page, and every other address stands for itself. The pages behind the
copy page are reserved for a mailbox that grows and are not mapped: a load from
there is a page fault.
-/

namespace ParadiseOS.MailboxModel

open MachineWord

set_option autoImplicit false

structure Mailbox where
  head : Nat
  tail : Nat
  unreadSize : Nat
  usedSize : Nat
  capacity : Nat
  firstPage : Nat
  lastPage : Nat
  copyPage : Nat
  memory : Nat → UInt8

structure MailboxMessageHeader where
  senderPid : Nat
  readerPid : Nat
  dataSize : Nat
  deriving DecidableEq, Repr

structure MailboxMessage where
  header : MailboxMessageHeader
  data : List UInt8

/-- `sizeof(MailboxMessageHeader)`. -/
def messageHeaderSize : Nat := 9

/-- The byte behind a virtual address. -/
def backing (mailbox : Mailbox) (addr : Nat) : Nat :=
  if mailbox.copyPage ≤ addr ∧ addr < mailbox.copyPage + 4096 then
    mailbox.firstPage + (addr - mailbox.copyPage)
  else addr

def storedByte (mailbox : Mailbox) (addr : Nat) : UInt8 := mailbox.memory (backing mailbox addr)

def loadByte (mailbox : Mailbox) (addr : Nat) : Except Trap UInt8 :=
  if addr < mailbox.copyPage + 4096 then .ok (storedByte mailbox addr) else .error .pageFault

/-- Stores go behind the tail, which is on the first page, or to a header that was loaded. -/
def storeByte (mailbox : Mailbox) (addr : Nat) (byte : UInt8) : Mailbox :=
  { mailbox with
    memory := fun cell => if cell = backing mailbox addr then byte else mailbox.memory cell }

/-- `pmemcpy` out of the mailbox. -/
def loadBytes (mailbox : Mailbox) (addr : Nat) : Nat → Except Trap (List UInt8)
  | 0 => .ok []
  | count + 1 => do
      let byte ← loadByte mailbox addr
      let bytes ← loadBytes mailbox (u32 (addr + 1)) count
      pure (byte :: bytes)

/-- `pmemcpy` into the mailbox. -/
def storeBytes (mailbox : Mailbox) (addr : Nat) : List UInt8 → Mailbox
  | [] => mailbox
  | byte :: bytes => storeBytes (storeByte mailbox addr byte) (u32 (addr + 1)) bytes

/-- The bytes of a 32-bit word, lowest first. -/
def wordBytes (word : Nat) : List UInt8 :=
  [UInt8.ofNat word, UInt8.ofNat (word / 256), UInt8.ofNat (word / 65536),
    UInt8.ofNat (word / 16777216)]

def bytesWord : List UInt8 → Nat
  | [] => 0
  | byte :: bytes => byte.toNat + 256 * bytesWord bytes

/-- `bytes_to_message_header`: the packed header at an address. -/
def bytesToMessageHeader (mailbox : Mailbox) (addr : Nat) : Except Trap MailboxMessageHeader := do
  let senderPid ← loadBytes mailbox addr 4
  let readerPid ← loadBytes mailbox (u32 (addr + 4)) 4
  let dataSize ← loadBytes mailbox (u32 (addr + 8)) 1
  pure ⟨bytesWord senderPid, bytesWord readerPid, bytesWord dataSize⟩

/-- `bytes_to_message`: the header and as many bytes of data as it names. -/
def bytesToMessage (mailbox : Mailbox) (message : MailboxMessage) (addr : Nat) : Except Trap MailboxMessage := do
  let header ← bytesToMessageHeader mailbox addr
  let data ← loadBytes mailbox (u32 (addr + messageHeaderSize)) header.dataSize
  pure { header := header, data := data ++ message.data.drop header.dataSize }

def headerBytes (header : MailboxMessageHeader) : List UInt8 :=
  wordBytes header.senderPid ++ wordBytes header.readerPid ++ [UInt8.ofNat header.dataSize]

def pagePtr (addr : Nat) : Nat := addr / 4096 * 4096

/-- More rounds than the loops over a mailbox can take: their counters are 16-bit words. -/
def roundLimit : Nat := 65536

/-- The loop of `message_cleanup`; the header of a round was read at `tmpHeader`. -/
def cleanupLoop (mailbox : Mailbox) : Nat → Nat → Nat → Nat → Except Trap Nat
  | 0, _, _, _ => .error .noReturn
  | fuel + 1, cleanedUpBytes, seenSize, tmpHeader => do
      let header ← bytesToMessageHeader mailbox tmpHeader
      if header.senderPid = 0 ∧ header.readerPid = 0 ∧ seenSize < mailbox.usedSize then
        let cleanedUpBytes := u16 (cleanedUpBytes + (messageHeaderSize + header.dataSize))
        let seenSize := u16 (seenSize + cleanedUpBytes)
        cleanupLoop mailbox fuel cleanedUpBytes seenSize (u32 (tmpHeader + cleanedUpBytes))
      else .ok cleanedUpBytes

def messageCleanup (mailbox : Mailbox) : Except Trap Nat :=
  cleanupLoop mailbox roundLimit 0 0 mailbox.head

/-- `mailbox_init`, after which the frame of the first page also backs the copy page. -/
def mailboxInit (mailboxStartAddr : Nat) (memory : Nat → UInt8) : Mailbox where
  capacity := 4096
  unreadSize := 0
  usedSize := 0
  head := mailboxStartAddr
  tail := mailboxStartAddr
  firstPage := mailboxStartAddr
  lastPage := mailboxStartAddr
  copyPage := u32 (mailboxStartAddr + 4096)
  memory := memory

/-- The page offset `((u32) addr << 20) >> 20`. -/
def pageOffset (addr : Nat) : Nat := u32 (addr <<< 20) >>> 20

/-- A pointer that ran onto the copy page is moved to the first page. -/
def wrapPtr (mailbox : Mailbox) (addr : Nat) : Nat :=
  if pagePtr addr = mailbox.copyPage then u32 (mailbox.firstPage + pageOffset addr) else addr

/-- `mailbox_grow` does nothing yet and returns false. -/
def mailboxSendMessage (mailbox : Mailbox) (senderPid readerPid dataSize : Nat)
    (data : List UInt8) : Bool × Mailbox :=
  let header : MailboxMessageHeader := ⟨senderPid, readerPid, dataSize⟩
  if mailbox.usedSize + messageHeaderSize + dataSize > mailbox.capacity then (false, mailbox)
  else
    let mailbox := storeBytes mailbox mailbox.tail (headerBytes header)
    let mailbox := { mailbox with tail := u32 (mailbox.tail + messageHeaderSize) }
    let mailbox := storeBytes mailbox mailbox.tail (data.take dataSize)
    let mailbox := { mailbox with tail := u32 (mailbox.tail + dataSize) }
    let mailbox := { mailbox with tail := wrapPtr mailbox mailbox.tail }
    (true, { mailbox with usedSize := u16 (mailbox.usedSize + (messageHeaderSize + dataSize)) })

def getPidAid (pid : Nat) : Nat := u16 (pid >>> 16)

def getPidTid (pid : Nat) : Nat := u16 (pid &&& 0xFFFF)

def matchPid (fieldPid targetPid : Nat) : Bool :=
  if fieldPid = 0 then false
  else if targetPid = 0 then true
  else if getPidTid fieldPid = 0 then getPidAid fieldPid == getPidAid targetPid
  else fieldPid == targetPid

/-- Where the search loop of `mailbox_read_message` stops: the bytes passed, the address of
the message it stands at, the size of the last message passed and the header read last. -/
structure SearchResult where
  seenSize : Nat
  currentMessage : Nat
  totalMessageSize : Nat
  header : MailboxMessageHeader

def searchLoop (mailbox : Mailbox) (senderPid readerPid : Nat) :
    Nat → SearchResult → Except Trap SearchResult
  | 0, _ => .error .noReturn
  | fuel + 1, state =>
      if state.seenSize < mailbox.usedSize then do
        let header ← bytesToMessageHeader mailbox state.currentMessage
        if matchPid header.senderPid senderPid = true ∧ matchPid header.readerPid readerPid = true then
          .ok { state with header := header }
        else
          let totalMessageSize := u16 (messageHeaderSize + header.dataSize)
          searchLoop mailbox senderPid readerPid fuel
            { seenSize := u16 (state.seenSize + totalMessageSize)
              currentMessage := u32 (state.currentMessage + totalMessageSize)
              totalMessageSize := totalMessageSize
              header := header }
      else .ok state

/-- `mailbox_read_message`: returns 0 or 1 and writes to the message buffer. -/
def mailboxReadMessage (mailbox : Mailbox) (senderPid readerPid : Nat) (message : MailboxMessage) :
    Except Trap (Nat × MailboxMessage × Mailbox) := do
  let found ← searchLoop mailbox senderPid readerPid roundLimit
    ⟨0, mailbox.head, 0, message.header⟩
  let message := { message with header := found.header }
  if found.seenSize ≥ mailbox.usedSize then pure (0, message, mailbox)
  else
    let message ← bytesToMessage mailbox message found.currentMessage
    let mailbox := { mailbox with
      unreadSize := u16 (mailbox.unreadSize + 65536 - found.totalMessageSize) }
    let mailbox := storeBytes mailbox found.currentMessage (List.replicate 8 0)
    let cleanUpSize ← messageCleanup mailbox
    let mailbox := { mailbox with usedSize := u16 (mailbox.usedSize + 65536 - cleanUpSize) }
    let mailbox := { mailbox with head := u32 (mailbox.head + cleanUpSize) }
    pure (1, message, { mailbox with head := wrapPtr mailbox mailbox.head })

end ParadiseOS.MailboxModel
