import Mathlib.Data.List.Basic
import ParadiseOS.MailboxModel

/-!
# The bytes in use of a mailbox

`Ring` says that the bytes from `head` on, around the end of the page, are a
given list. Reading through the copy page is then reading the list; a message is
sent by appending to it, read by overwriting eight of its bytes, and reclaimed
by dropping from its front.
-/

namespace ParadiseOS.MailboxRing

open MachineWord MailboxModel

set_option autoImplicit false

/-- The bytes in use, from the head to the tail. -/
structure Ring (mailbox : Mailbox) (image : List UInt8) : Prop where
  aligned : mailbox.firstPage % 4096 = 0
  addressable : mailbox.firstPage + 8192 < 4294967296
  copyPage : mailbox.copyPage = mailbox.firstPage + 4096
  capacity : mailbox.capacity = 4096
  headLow : mailbox.firstPage ≤ mailbox.head
  headHigh : mailbox.head < mailbox.firstPage + 4096
  used : mailbox.usedSize = image.length
  fits : image.length ≤ 4096
  tail : mailbox.tail =
    mailbox.firstPage + (mailbox.head - mailbox.firstPage + image.length) % 4096
  bytes : ∀ index (inside : index < image.length),
    mailbox.memory (mailbox.firstPage + (mailbox.head - mailbox.firstPage + index) % 4096) =
      image[index]

section Loads

/-- What is behind the addresses of a block. -/
def storedBytes (mailbox : Mailbox) (addr : Nat) : Nat → List UInt8
  | 0 => []
  | count + 1 => storedByte mailbox addr :: storedBytes mailbox (u32 (addr + 1)) count

def storedHeader (mailbox : Mailbox) (addr : Nat) : MailboxMessageHeader where
  senderPid := bytesWord (storedBytes mailbox addr 4)
  readerPid := bytesWord (storedBytes mailbox (u32 (addr + 4)) 4)
  dataSize := bytesWord (storedBytes mailbox (u32 (addr + 8)) 1)

variable {mailbox : Mailbox} {addr count : Nat}

/-- A block is loaded as it is stored, or faults if it does not end on the copy page. -/
theorem load_bytes_eq (addressable : mailbox.copyPage + 4096 < 4294967296)
    (start : addr ≤ mailbox.copyPage + 4096 ∨ 0 < count) : loadBytes mailbox addr count =
      if addr + count ≤ mailbox.copyPage + 4096 then .ok (storedBytes mailbox addr count)
      else .error .pageFault := by
  induction count generalizing addr with
  | zero =>
      rw [Nat.add_zero, if_pos (start.resolve_right (Nat.lt_irrefl 0))]
      rfl
  | succ count ih =>
      rw [loadBytes, loadByte]
      by_cases inside : addr < mailbox.copyPage + 4096
      · rw [if_pos inside, Trap.ok_bind, u32_of_lt (by omega), ih (.inl inside)]
        by_cases whole : addr + (count + 1) ≤ mailbox.copyPage + 4096
        · rw [if_pos whole, if_pos (by omega), storedBytes, u32_of_lt (by omega)]
          rfl
        · rw [if_neg whole, if_neg (by omega)]
          rfl
      · rw [if_neg inside, if_neg (by omega)]
        rfl

theorem load_bytes_ok (addressable : mailbox.copyPage + 4096 < 4294967296)
    (inside : addr + count ≤ mailbox.copyPage + 4096) :
    loadBytes mailbox addr count = .ok (storedBytes mailbox addr count) := by
  rw [load_bytes_eq addressable (.inl (by omega)), if_pos inside]

/-- A header is loaded as it is stored, or faults. -/
theorem header_eq (mailbox : Mailbox) (addr : Nat) (addressable : mailbox.copyPage + 4096 < 4294967296) :
    bytesToMessageHeader mailbox addr =
      if addr + messageHeaderSize ≤ mailbox.copyPage + 4096 then .ok (storedHeader mailbox addr)
      else .error .pageFault := by
  rw [bytesToMessageHeader, messageHeaderSize, load_bytes_eq addressable (.inr (by decide))]
  by_cases sender : addr + 4 ≤ mailbox.copyPage + 4096
  · rw [if_pos sender, Trap.ok_bind, u32_of_lt (by omega : addr + 4 < 4294967296),
      load_bytes_eq addressable (.inl sender)]
    by_cases reader : addr + 4 + 4 ≤ mailbox.copyPage + 4096
    · rw [if_pos reader, Trap.ok_bind, u32_of_lt (by omega : addr + 8 < 4294967296),
        load_bytes_eq addressable (.inl (by omega))]
      by_cases size : addr + 8 + 1 ≤ mailbox.copyPage + 4096
      · rw [if_pos size, if_pos (by omega), storedHeader, u32_of_lt (by omega : addr + 4 < 4294967296),
          u32_of_lt (by omega : addr + 8 < 4294967296)]
        rfl
      · rw [if_neg size, if_neg (by omega)]
        rfl
    · rw [if_neg reader, if_neg (by omega)]
      rfl
  · rw [if_neg sender, if_neg (by omega)]
    rfl

theorem header_stored {header : MailboxMessageHeader} (addressable : mailbox.copyPage + 4096 < 4294967296)
    (loaded : bytesToMessageHeader mailbox addr = .ok header) : storedHeader mailbox addr = header := by
  rw [header_eq mailbox addr addressable] at loaded
  split_ifs at loaded with inside
  exact Except.ok.inj loaded

theorem header_data_lt (mailbox : Mailbox) (addr : Nat) : (storedHeader mailbox addr).dataSize < 256 := by
  have byte := (storedByte mailbox (u32 (addr + 8))).toNat_lt
  simp only [storedHeader, storedBytes, bytesWord]
  omega

end Loads

section Backing

variable {mailbox : Mailbox} {image : List UInt8}

/-- The pages of a mailbox end below the end of the address space. -/
theorem ring_pages (ring : Ring mailbox image) : mailbox.copyPage + 4096 < 4294967296 := by
  rw [ring.copyPage]
  exact ring.addressable

/-- Both mappings of the page lead to the same byte. -/
theorem backing_offset (copyPage : mailbox.copyPage = mailbox.firstPage + 4096) {offset : Nat}
    (bounded : offset < 8192) :
    backing mailbox (mailbox.firstPage + offset) = mailbox.firstPage + offset % 4096 := by
  rw [backing, copyPage]
  split_ifs with onCopy
  · omega
  · omega

theorem stored_byte_ring (ring : Ring mailbox image) {index : Nat} (inside : index < image.length) :
    storedByte mailbox (mailbox.head + index) = image[index] := by
  have fits := ring.fits
  have low := ring.headLow
  have high := ring.headHigh
  have split : mailbox.head + index =
      mailbox.firstPage + (mailbox.head - mailbox.firstPage + index) := by omega
  rw [storedByte, split, backing_offset ring.copyPage (by omega), ring.bytes index inside]

theorem stored_bytes_ring (ring : Ring mailbox image) {index count : Nat}
    (inside : index + count ≤ image.length) :
    storedBytes mailbox (mailbox.head + index) count = (image.drop index).take count := by
  induction count generalizing index with
  | zero => simp [storedBytes]
  | succ count ih =>
      have fits := ring.fits
      have high := ring.headHigh
      have room := ring.addressable
      have bounded : mailbox.head + index + 1 < 4294967296 := by omega
      rw [storedBytes, stored_byte_ring ring (by omega), u32_of_lt bounded, Nat.add_assoc,
        ih (by omega), List.drop_eq_getElem_cons (by omega : index < image.length),
        List.take_succ_cons]

/-- Bytes of the ring that form a block of the list. -/
theorem stored_bytes_middle (front middle : List UInt8) {back : List UInt8} (addr : Nat)
    (ring : Ring mailbox (front ++ (middle ++ back)))
    (place : addr = mailbox.head + front.length) :
    storedBytes mailbox addr middle.length = middle := by
  rw [place, stored_bytes_ring ring (by simp), List.drop_left, List.take_left]

end Backing

section Store

variable {mailbox : Mailbox} {image : List UInt8}

/-- The fields of a mailbox besides its memory. -/
structure SameFields (mailbox next : Mailbox) : Prop where
  head : next.head = mailbox.head
  tail : next.tail = mailbox.tail
  usedSize : next.usedSize = mailbox.usedSize
  capacity : next.capacity = mailbox.capacity
  firstPage : next.firstPage = mailbox.firstPage
  copyPage : next.copyPage = mailbox.copyPage

theorem store_bytes_fields (mailbox : Mailbox) (addr : Nat) (bytes : List UInt8) :
    SameFields mailbox (storeBytes mailbox addr bytes) := by
  induction bytes generalizing mailbox addr with
  | nil => exact ⟨rfl, rfl, rfl, rfl, rfl, rfl⟩
  | cons byte bytes ih =>
      have rest := ih (storeByte mailbox addr byte) (u32 (addr + 1))
      exact ⟨rest.head, rest.tail, rest.usedSize, rest.capacity, rest.firstPage, rest.copyPage⟩

/-- Where bytes go does not depend on the tail. -/
theorem store_bytes_tail (mailbox : Mailbox) (tail addr : Nat) (bytes : List UInt8) :
    storeBytes { mailbox with tail := tail } addr bytes =
      { storeBytes mailbox addr bytes with tail := tail } := by
  induction bytes generalizing mailbox addr with
  | nil => rfl
  | cons byte bytes ih => exact ih (storeByte mailbox addr byte) (u32 (addr + 1))

/-- Two blocks one behind the other are one block. -/
theorem store_bytes_append (mailbox : Mailbox) (addr : Nat) (first second : List UInt8)
    (bounded : addr + first.length < 4294967296) :
    storeBytes mailbox addr (first ++ second) =
      storeBytes (storeBytes mailbox addr first) (addr + first.length) second := by
  induction first generalizing mailbox addr with
  | nil => rfl
  | cons byte first ih =>
      simp only [List.length_cons] at bounded
      rw [List.cons_append, storeBytes, storeBytes, u32_of_lt (by omega), ih _ _ (by omega),
        List.length_cons, Nat.add_assoc, Nat.add_comm 1]

/-- Storing a block changes exactly the bytes of the page it covers. -/
theorem store_bytes_memory (mailbox : Mailbox) (copyPage : mailbox.copyPage = mailbox.firstPage + 4096)
    (addressable : mailbox.firstPage + 8192 < 4294967296) (offset : Nat) (bytes : List UInt8)
    (short : bytes.length ≤ 4096) (bounded : offset + bytes.length ≤ 8192) :
    (∀ index (inside : index < bytes.length),
      (storeBytes mailbox (mailbox.firstPage + offset) bytes).memory
        (mailbox.firstPage + (offset + index) % 4096) = bytes[index]) ∧
    ∀ cell, (∀ index, index < bytes.length →
        cell ≠ mailbox.firstPage + (offset + index) % 4096) →
      (storeBytes mailbox (mailbox.firstPage + offset) bytes).memory cell = mailbox.memory cell := by
  induction bytes generalizing mailbox offset with
  | nil =>
      refine ⟨?_, fun _ _ => rfl⟩
      intro index inside
      exact absurd inside (Nat.not_lt_zero index)
  | cons byte bytes ih =>
      simp only [List.length_cons] at short bounded
      have next : u32 (mailbox.firstPage + offset + 1) = mailbox.firstPage + (offset + 1) := by
        rw [u32_of_lt (by omega), Nat.add_assoc]
      obtain ⟨written, kept⟩ :=
        ih (storeByte mailbox (mailbox.firstPage + offset) byte) copyPage addressable (offset + 1)
          (by omega) (by omega)
      have here : (storeByte mailbox (mailbox.firstPage + offset) byte).memory
          (mailbox.firstPage + offset % 4096) = byte := by
        rw [← backing_offset copyPage (by omega)]
        exact if_pos rfl
      rw [storeBytes, next]
      constructor
      · intro index inside
        cases index with
        | zero =>
            have apart : ∀ later, later < bytes.length →
                mailbox.firstPage + offset % 4096 ≠
                  mailbox.firstPage + (offset + 1 + later) % 4096 := by
              intro later bound
              omega
            rw [Nat.add_zero]
            exact (kept _ apart).trans here
        | succ index =>
            have place : offset + (index + 1) = offset + 1 + index := by omega
            rw [place]
            exact written index (by simpa using inside)
      · intro cell apart
        have notHere : cell ≠ backing mailbox (mailbox.firstPage + offset) := by
          rw [backing_offset copyPage (by omega)]
          exact apart 0 (Nat.succ_pos _)
        have later : ∀ index, index < bytes.length →
            cell ≠ mailbox.firstPage + (offset + 1 + index) % 4096 := by
          intro index inside
          have differ := apart (index + 1) (by simpa using inside)
          rwa [show offset + (index + 1) = offset + 1 + index by omega] at differ
        exact (kept cell later).trans (if_neg notHere)

end Store

section Update

variable {mailbox : Mailbox} {image : List UInt8}

/-- A pointer past the first page comes back to the same place of the page. -/
theorem wrap_ptr_ring (aligned : mailbox.firstPage % 4096 = 0)
    (addressable : mailbox.firstPage + 8192 < 4294967296)
    (copyPage : mailbox.copyPage = mailbox.firstPage + 4096) {offset : Nat}
    (bounded : offset < 8192) :
    wrapPtr mailbox (mailbox.firstPage + offset) = mailbox.firstPage + offset % 4096 := by
  rw [wrapPtr, pagePtr, copyPage, pageOffset, Nat.shiftLeft_eq, Nat.shiftRight_eq_div_pow, u32, u32]
  split_ifs with onCopy
  · omega
  · omega

theorem ring_unread (ring : Ring mailbox image) (unreadSize : Nat) :
    Ring { mailbox with unreadSize := unreadSize } image :=
  ⟨ring.aligned, ring.addressable, ring.copyPage, ring.capacity, ring.headLow, ring.headHigh,
    ring.used, ring.fits, ring.tail, ring.bytes⟩

/-- Bytes stored at the tail, with the tail and the size advanced, are appended. -/
theorem ring_append (next : Mailbox) (ring : Ring mailbox image) (bytes : List UInt8)
    (room : image.length + bytes.length ≤ 4096)
    (memory : next.memory = (storeBytes mailbox mailbox.tail bytes).memory)
    (sameHead : next.head = mailbox.head) (samePage : next.firstPage = mailbox.firstPage)
    (sameCopy : next.copyPage = mailbox.copyPage) (sameCapacity : next.capacity = mailbox.capacity)
    (tail : next.tail = mailbox.firstPage + (mailbox.tail - mailbox.firstPage + bytes.length) % 4096)
    (used : next.usedSize = image.length + bytes.length) : Ring next (image ++ bytes) := by
  have tailOffset : mailbox.tail - mailbox.firstPage =
      (mailbox.head - mailbox.firstPage + image.length) % 4096 := by
    rw [ring.tail]
    omega
  have tailPlace : mailbox.tail =
      mailbox.firstPage + (mailbox.head - mailbox.firstPage + image.length) % 4096 := ring.tail
  obtain ⟨written, kept⟩ := store_bytes_memory mailbox ring.copyPage ring.addressable
    ((mailbox.head - mailbox.firstPage + image.length) % 4096) bytes (by omega) (by omega)
  rw [← tailPlace] at written kept
  refine ⟨?_, ?_, ?_, ?_, ?_, ?_, ?_, ?_, ?_, ?_⟩
  · rw [samePage]
    exact ring.aligned
  · rw [samePage]
    exact ring.addressable
  · rw [sameCopy, samePage]
    exact ring.copyPage
  · rw [sameCapacity]
    exact ring.capacity
  · rw [sameHead, samePage]
    exact ring.headLow
  · rw [sameHead, samePage]
    exact ring.headHigh
  · rw [used, List.length_append]
  · rw [List.length_append]
    exact room
  · rw [tail, tailOffset, samePage, sameHead, List.length_append]
    omega
  · intro index inside
    rw [memory, sameHead, samePage]
    rw [List.length_append] at inside
    by_cases old : index < image.length
    · rw [List.getElem_append_left old, ← ring.bytes index old]
      apply kept
      intro offset bound same
      omega
    · rw [List.getElem_append_right (by omega), ← written (index - image.length) (by omega)]
      congr 1
      omega

/-- Bytes stored over a block of the same length replace it. -/
theorem ring_overwrite {front old back : List UInt8}
    (ring : Ring mailbox (front ++ (old ++ back))) (bytes : List UInt8)
    (same : bytes.length = old.length) :
    Ring (storeBytes mailbox (mailbox.head + front.length) bytes) (front ++ (bytes ++ back)) := by
  have fits := ring.fits
  have low := ring.headLow
  have high := ring.headHigh
  simp only [List.length_append] at fits
  have place : mailbox.head + front.length =
      mailbox.firstPage + (mailbox.head - mailbox.firstPage + front.length) := by omega
  obtain ⟨written, kept⟩ := store_bytes_memory mailbox ring.copyPage ring.addressable
    (mailbox.head - mailbox.firstPage + front.length) bytes (by omega) (by omega)
  have fields := store_bytes_fields mailbox (mailbox.head + front.length) bytes
  rw [← place] at written kept
  have lengths : (front ++ (bytes ++ back)).length = (front ++ (old ++ back)).length := by
    simp only [List.length_append]
    omega
  refine ⟨?_, ?_, ?_, ?_, ?_, ?_, ?_, ?_, ?_, ?_⟩
  · rw [fields.firstPage]
    exact ring.aligned
  · rw [fields.firstPage]
    exact ring.addressable
  · rw [fields.copyPage, fields.firstPage]
    exact ring.copyPage
  · rw [fields.capacity]
    exact ring.capacity
  · rw [fields.head, fields.firstPage]
    exact low
  · rw [fields.head, fields.firstPage]
    exact high
  · rw [fields.usedSize, lengths]
    exact ring.used
  · rw [lengths]
    exact ring.fits
  · rw [fields.tail, fields.firstPage, fields.head, lengths]
    exact ring.tail
  · intro index inside
    rw [fields.firstPage, fields.head]
    have inOld : index < (front ++ (old ++ back)).length := lengths ▸ inside
    have before := ring.bytes index inOld
    simp only [List.length_append] at inside
    by_cases left : index < front.length
    · rw [List.getElem_append_left left] at before ⊢
      rw [← before]
      apply kept
      intro offset bound equal
      omega
    · by_cases middle : index - front.length < bytes.length
      · rw [List.getElem_append_right (by omega), List.getElem_append_left middle,
          ← written (index - front.length) middle]
        congr 1
        omega
      · rw [List.getElem_append_right (by omega), List.getElem_append_right (by omega)] at before ⊢
        simp only [same]
        rw [← before]
        apply kept
        intro offset bound same
        omega

/-- Advancing the head over a block drops it. -/
theorem ring_drop {front back : List UInt8} (next : Mailbox) (ring : Ring mailbox (front ++ back))
    (memory : next.memory = mailbox.memory) (samePage : next.firstPage = mailbox.firstPage)
    (sameCopy : next.copyPage = mailbox.copyPage) (sameCapacity : next.capacity = mailbox.capacity)
    (sameTail : next.tail = mailbox.tail)
    (head : next.head = mailbox.firstPage + (mailbox.head - mailbox.firstPage + front.length) % 4096)
    (used : next.usedSize = back.length) : Ring next back := by
  have fits := ring.fits
  have low := ring.headLow
  have high := ring.headHigh
  simp only [List.length_append] at fits
  refine ⟨?_, ?_, ?_, ?_, ?_, ?_, used, ?_, ?_, ?_⟩
  · rw [samePage]
    exact ring.aligned
  · rw [samePage]
    exact ring.addressable
  · rw [sameCopy, samePage]
    exact ring.copyPage
  · rw [sameCapacity]
    exact ring.capacity
  · rw [head, samePage]
    omega
  · rw [head, samePage]
    omega
  · omega
  · have place := ring.tail
    rw [List.length_append] at place
    rw [sameTail, place, samePage, head]
    omega
  · intro index inside
    have old := ring.bytes (front.length + index) (by simp only [List.length_append]; omega)
    rw [List.getElem_append_right (by omega)] at old
    simp only [Nat.add_sub_cancel_left] at old
    rw [memory, samePage, head, ← old]
    congr 1
    omega

end Update

section Filled

/-- The mailbox of a process with these bytes in use, the head so far behind the first page. -/
def filled (offset : Nat) (bytes : List UInt8) : Mailbox where
  head := 0x40F000 + offset
  tail := 0x40F000 + (offset + bytes.length) % 4096
  unreadSize := 0
  usedSize := bytes.length
  capacity := 4096
  firstPage := 0x40F000
  lastPage := 0x40F000
  copyPage := 0x410000
  memory cell := bytes.getD ((cell - 0x40F000 + 4096 - offset) % 4096) 0

theorem filled_ring {offset : Nat} {bytes : List UInt8} (onPage : offset < 4096)
    (fits : bytes.length ≤ 4096) : Ring (filled offset bytes) bytes where
  aligned := show 0x40F000 % 4096 = 0 by decide
  addressable := show 0x40F000 + 8192 < 4294967296 by decide
  copyPage := rfl
  capacity := rfl
  headLow := Nat.le_add_right 0x40F000 offset
  headHigh := Nat.add_lt_add_left onPage 0x40F000
  used := rfl
  fits := fits
  tail := by
    have behind : (filled offset bytes).head - (filled offset bytes).firstPage = offset :=
      Nat.add_sub_cancel_left 0x40F000 offset
    rw [behind]
    rfl
  bytes := by
    intro index inside
    have behind : (filled offset bytes).head - (filled offset bytes).firstPage = offset :=
      Nat.add_sub_cancel_left 0x40F000 offset
    have place : (0x40F000 + (offset + index) % 4096 - 0x40F000 + 4096 - offset) % 4096 = index := by omega
    rw [behind]
    change bytes.getD ((0x40F000 + (offset + index) % 4096 - 0x40F000 + 4096 - offset) % 4096) 0 = _
    rw [place]
    exact (List.getElem_eq_getD 0).symm

end Filled

end ParadiseOS.MailboxRing
