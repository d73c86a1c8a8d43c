import ParadiseOS.MailboxRing
import ParadiseOS.StepRun

/-!
# Mailboxes as lists of messages

The abstract mailbox is the list of messages from the earliest unread one on,
those read out of order among them marked as taken. A mailbox follows it as
long as every clean-up meets at most one taken message at the head, or two of
them whose sizes keep the third look of `message_cleanup` harmless: the code
adds the bytes of all messages seen so far, not of the last one, to the place
where it looks next.
-/

namespace ParadiseOS.MailboxRuns

open MachineWord MailboxModel MailboxRing StepRun

set_option autoImplicit false

structure Message where
  senderPid : Nat
  readerPid : Nat
  data : List UInt8
  deriving DecidableEq, Repr

/-- A message of the list, or the place of one that was read out of order. -/
structure Slot where
  message : Message
  taken : Bool
  deriving DecidableEq, Repr

def Slot.size (slot : Slot) : Nat := 9 + slot.message.data.length

inductive MailboxCall where
  | send (senderPid readerPid : Nat) (data : List UInt8)
  | read (senderPid readerPid : Nat) (buffer : MailboxMessage)

inductive Answer where
  | sent (accepted : Bool)
  | received (message : Option Message)
  deriving DecidableEq, Repr

/-- The bytes of the messages of a list. -/
def totalSize (slots : List Slot) : Nat := (slots.map Slot.size).sum

def Slot.Matches (slot : Slot) (senderPid readerPid : Nat) : Prop :=
  slot.taken = false ∧ matchPid slot.message.senderPid senderPid = true ∧
    matchPid slot.message.readerPid readerPid = true

instance (slot : Slot) (senderPid readerPid : Nat) :
    Decidable (slot.Matches senderPid readerPid) := by
  unfold Slot.Matches
  infer_instance

/-- The earliest matching message, and the list with its place marked. -/
def takeFirst (senderPid readerPid : Nat) : List Slot → Option (Message × List Slot)
  | [] => none
  | slot :: slots =>
      if slot.Matches senderPid readerPid then
        some (slot.message, { slot with taken := true } :: slots)
      else
        match takeFirst senderPid readerPid slots with
        | none => none
        | some (message, marked) => some (message, slot :: marked)

/-- The abstract mailbox: the list starts with an unread message or is empty. -/
def listStep (slots : List Slot) : MailboxCall → Answer × List Slot
  | .send senderPid readerPid data =>
      if totalSize slots + (9 + data.length) > 4096 then (.sent false, slots)
      else (.sent true, slots ++ [⟨⟨senderPid, readerPid, data⟩, false⟩])
  | .read senderPid readerPid _ =>
      match takeFirst senderPid readerPid slots with
      | none => (.received none, slots)
      | some (message, marked) => (.received (some message), marked.dropWhile Slot.taken)

def mailboxStep (mailbox : Mailbox) : MailboxCall → Except Trap (Answer × Mailbox)
  | .send senderPid readerPid data =>
      let (accepted, next) := mailboxSendMessage mailbox senderPid readerPid data.length data
      .ok (.sent accepted, next)
  | .read senderPid readerPid buffer => do
      let (found, message, next) ← mailboxReadMessage mailbox senderPid readerPid buffer
      let delivered : Message := ⟨message.header.senderPid, message.header.readerPid,
        message.data.take message.header.dataSize⟩
      pure (.received (if found = 0 then none else some delivered), next)

/-- Senders and readers are processes, and sizes fit the size field. -/
def LegalCall : MailboxCall → Prop
  | .send senderPid readerPid data =>
      0 < senderPid ∧ senderPid < 4294967296 ∧ 0 < readerPid ∧ readerPid < 4294967296 ∧
        data.length ≤ 255
  | .read _ _ _ => True

/-- The taken messages at the head that a clean-up gets over: at most one, or two with sizes
`s1` and `s2` such that either nothing in use or no zero header lies `2 * s1 + s2` bytes
behind the head. -/
def CleanRun (mailbox : Mailbox) : List Slot → Prop
  | [] => True
  | [_] => True
  | [first, second] =>
      mailbox.usedSize ≤ 2 * first.size + second.size ∨
        ∃ index < 8,
          storedByte mailbox (mailbox.head + (2 * first.size + second.size) + index) ≠ 0
  | _ => False

instance (mailbox : Mailbox) : ∀ slots, Decidable (CleanRun mailbox slots)
  | [] => isTrue trivial
  | [_] => isTrue trivial
  | [_, _] => inferInstanceAs (Decidable (_ ∨ _))
  | _ :: _ :: _ :: _ => isFalse id

/-- The condition on a state and a call: a read leaves a run of taken messages at the head
that the clean-up gets over. -/
def CleanCall (state : Mailbox × List Slot) : MailboxCall → Prop
  | .send _ _ _ => True
  | .read senderPid readerPid _ =>
      ∀ message marked, takeFirst senderPid readerPid state.2 = some (message, marked) →
        CleanRun state.1 (marked.takeWhile Slot.taken)

instance (call : MailboxCall) : Decidable (LegalCall call) := by
  cases call <;> unfold LegalCall <;> infer_instance

instance (state : Mailbox × List Slot) : ∀ call, Decidable (CleanCall state call)
  | .send _ _ _ => isTrue trivial
  | .read senderPid readerPid _ =>
      match found : takeFirst senderPid readerPid state.2 with
      | none => isTrue fun _ _ same => by rw [found] at same; cases same
      | some (message, marked) =>
          decidable_of_iff (CleanRun state.1 (marked.takeWhile Slot.taken))
            ⟨fun clean _ _ same => by
                rw [found] at same
                cases same
                exact clean,
              fun clean => clean message marked found⟩

section Encoding

/-- The bytes of a message in the ring; the pids of a taken one are zeroed. -/
def encode (slot : Slot) : List UInt8 :=
  (if slot.taken then List.replicate 8 0
    else wordBytes slot.message.senderPid ++ wordBytes slot.message.readerPid) ++
    (UInt8.ofNat slot.message.data.length :: slot.message.data)

def image (slots : List Slot) : List UInt8 := slots.flatMap encode

structure Slot.WellFormed (slot : Slot) : Prop where
  sender : 0 < slot.message.senderPid
  senderWord : slot.message.senderPid < 4294967296
  reader : 0 < slot.message.readerPid
  readerWord : slot.message.readerPid < 4294967296
  short : slot.message.data.length ≤ 255

/-- What a stored header can hold, whoever the message is from. -/
structure Slot.Sized (slot : Slot) : Prop where
  senderWord : slot.message.senderPid < 4294967296
  readerWord : slot.message.readerPid < 4294967296
  short : slot.message.data.length ≤ 255

instance (slot : Slot) : Decidable slot.Sized :=
  decidable_of_iff (slot.message.senderPid < 4294967296 ∧ slot.message.readerPid < 4294967296 ∧
    slot.message.data.length ≤ 255) ⟨fun ⟨sender, reader, short⟩ => ⟨sender, reader, short⟩,
      fun sized => ⟨sized.senderWord, sized.readerWord, sized.short⟩⟩

theorem Slot.WellFormed.sized {slot : Slot} (formed : slot.WellFormed) : slot.Sized :=
  ⟨formed.senderWord, formed.readerWord, formed.short⟩

@[simp] theorem encode_length (slot : Slot) : (encode slot).length = slot.size := by
  unfold encode Slot.size
  split_ifs
  · simp only [List.length_append, List.length_replicate, List.length_cons]
    omega
  · simp only [wordBytes, List.length_append, List.length_cons, List.length_nil]
    omega

theorem image_length (slots : List Slot) : (image slots).length = totalSize slots := by
  induction slots with
  | nil => rfl
  | cons slot slots ih =>
      rw [image, List.flatMap_cons, List.length_append, encode_length]
      simp only [totalSize, List.map_cons, List.sum_cons]
      exact congrArg (slot.size + ·) ih

theorem image_append (front back : List Slot) : image (front ++ back) = image front ++ image back :=
  List.flatMap_append

theorem image_cons (slot : Slot) (slots : List Slot) :
    image (slot :: slots) = encode slot ++ image slots := List.flatMap_cons

theorem word_bytes_word {word : Nat} (bounded : word < 4294967296) :
    bytesWord (wordBytes word) = word := by
  simp only [wordBytes, bytesWord, UInt8.toNat_ofNat']
  omega

@[simp] theorem word_bytes_length (word : Nat) : (wordBytes word).length = 4 := rfl

theorem bytes_word_zero (count : Nat) : bytesWord (List.replicate count 0) = 0 := by
  induction count with
  | zero => rfl
  | succ count ih =>
      rw [List.replicate_succ, bytesWord, ih]
      rfl

theorem bytes_word_eq_zero {bytes : List UInt8} (zero : bytesWord bytes = 0) :
    ∀ byte ∈ bytes, byte = 0 := by
  induction bytes with
  | nil => simp
  | cons byte bytes ih =>
      rw [bytesWord] at zero
      intro other member
      rcases List.mem_cons.1 member with same | later
      · rw [same, ← UInt8.toNat_inj]
        exact Nat.eq_zero_of_add_eq_zero_right zero
      · exact ih (by omega) other later

end Encoding

section Headers

variable {mailbox : Mailbox} {front back : List UInt8} {slot : Slot}

/-- A pid field of a slot: zero once the message is taken. -/
def pidField (slot : Slot) (pid : Nat) : Nat := if slot.taken then 0 else pid

def pidBytes (slot : Slot) (pid : Nat) : List UInt8 :=
  if slot.taken then List.replicate 4 0 else wordBytes pid

theorem encode_fields (slot : Slot) :
    encode slot = pidBytes slot slot.message.senderPid ++
      (pidBytes slot slot.message.readerPid ++
        ([UInt8.ofNat slot.message.data.length] ++ slot.message.data)) := by
  unfold encode pidBytes
  split_ifs
  · rfl
  · simp [List.append_assoc]

theorem pid_bytes_length (slot : Slot) (pid : Nat) : (pidBytes slot pid).length = 4 := by
  unfold pidBytes
  split_ifs <;> rfl

theorem pid_bytes_word (slot : Slot) {pid : Nat} (bounded : pid < 4294967296) :
    bytesWord (pidBytes slot pid) = pidField slot pid := by
  unfold pidBytes pidField
  split_ifs
  · exact bytes_word_zero 4
  · exact word_bytes_word bounded

/-- The header and the data of a message, read at its place in the ring. -/
theorem header_at (ring : Ring mailbox (front ++ (encode slot ++ back))) (wellFormed : slot.Sized)
    (addr : Nat) (place : addr = mailbox.head + front.length) :
    bytesToMessageHeader mailbox addr =
        .ok ⟨pidField slot slot.message.senderPid, pidField slot slot.message.readerPid,
          slot.message.data.length⟩ ∧
      loadBytes mailbox (u32 (addr + messageHeaderSize)) slot.message.data.length =
        .ok slot.message.data := by
  have fits := ring.fits
  have high := ring.headHigh
  have room := ring.addressable
  have short := wellFormed.short
  have pages := ring_pages ring
  have copyPage := ring.copyPage
  simp only [List.length_append, encode_length, Slot.size] at fits
  rw [encode_fields] at ring
  have senderLength := pid_bytes_length slot slot.message.senderPid
  have readerLength := pid_bytes_length slot slot.message.readerPid
  have sender := stored_bytes_middle front (pidBytes slot slot.message.senderPid) addr
    (by simpa only [List.append_assoc] using ring) place
  have reader := stored_bytes_middle (front ++ pidBytes slot slot.message.senderPid)
    (pidBytes slot slot.message.readerPid) (u32 (addr + 4))
    (by simpa only [List.append_assoc] using ring) (by
      rw [u32_of_lt (by omega), List.length_append]
      omega)
  have size := stored_bytes_middle
    (front ++ (pidBytes slot slot.message.senderPid ++ pidBytes slot slot.message.readerPid))
    [UInt8.ofNat slot.message.data.length] (u32 (addr + 8))
    (by simpa only [List.append_assoc] using ring) (by
      rw [u32_of_lt (by omega), List.length_append, List.length_append]
      omega)
  have data := stored_bytes_middle
    (front ++ (pidBytes slot slot.message.senderPid ++
      (pidBytes slot slot.message.readerPid ++ [UInt8.ofNat slot.message.data.length])))
    slot.message.data (u32 (addr + messageHeaderSize))
    (by simpa only [List.append_assoc] using ring) (by
      rw [messageHeaderSize, u32_of_lt (by omega)]
      simp only [List.length_append, List.length_singleton]
      omega)
  rw [senderLength] at sender
  rw [readerLength] at reader
  rw [header_eq mailbox addr pages, messageHeaderSize, if_pos (by omega), load_bytes_ok pages]
  · refine ⟨congrArg Except.ok ?_, congrArg Except.ok data⟩
    rw [storedHeader, sender, reader]
    rw [List.length_singleton] at size
    rw [size, pid_bytes_word slot wellFormed.senderWord, pid_bytes_word slot wellFormed.readerWord]
    simp only [bytesWord, UInt8.toNat_ofNat']
    congr 1
    omega
  · rw [u32_of_lt (by omega)]
    omega

/-- The code's test of a header is the match of its slot: a zeroed pid matches nothing. -/
theorem header_matches (slot : Slot) (senderPid readerPid : Nat) :
    (matchPid (pidField slot slot.message.senderPid) senderPid = true ∧
      matchPid (pidField slot slot.message.readerPid) readerPid = true) ↔
      slot.Matches senderPid readerPid := by
  unfold Slot.Matches pidField
  cases taken : slot.taken with
  | false => simp
  | true => simp [matchPid]

end Headers

section Search

variable {mailbox : Mailbox} {senderPid readerPid : Nat}

/-- The first match splits the list. -/
theorem take_first_split (slots : List Slot) :
    (takeFirst senderPid readerPid slots = none ∧
        ∀ slot ∈ slots, ¬ slot.Matches senderPid readerPid) ∨
      ∃ earlier slot later, slots = earlier ++ slot :: later ∧ slot.Matches senderPid readerPid ∧
        (∀ other ∈ earlier, ¬ other.Matches senderPid readerPid) ∧
        takeFirst senderPid readerPid slots =
          some (slot.message, earlier ++ { slot with taken := true } :: later) := by
  induction slots with
  | nil => exact .inl ⟨rfl, by simp⟩
  | cons head slots ih =>
      by_cases found : head.Matches senderPid readerPid
      · exact .inr ⟨[], head, slots, rfl, found, by simp, by rw [takeFirst, if_pos found]; rfl⟩
      · rcases ih with ⟨nothing, unmatched⟩ | ⟨earlier, slot, later, split, matched, passed, taken⟩
        · refine .inl ⟨by rw [takeFirst, if_neg found, nothing], ?_⟩
          intro slot member
          rcases List.mem_cons.1 member with same | inside
          · exact same ▸ found
          · exact unmatched slot inside
        · refine .inr ⟨head :: earlier, slot, later, by rw [split]; rfl, matched, ?_, ?_⟩
          · intro other member
            rcases List.mem_cons.1 member with same | inside
            · exact same ▸ found
            · exact passed other inside
          · rw [takeFirst, if_neg found, taken]
            rfl

theorem total_size_append (front back : List Slot) :
    totalSize (front ++ back) = totalSize front + totalSize back := by
  simp [totalSize]

@[simp] theorem total_size_cons (slot : Slot) (slots : List Slot) :
    totalSize (slot :: slots) = slot.size + totalSize slots := by
  simp [totalSize]

@[simp] theorem total_size_nil : totalSize [] = 0 := rfl

theorem slots_length_le (slots : List Slot) : 9 * slots.length ≤ totalSize slots := by
  induction slots with
  | nil => simp
  | cons slot slots ih =>
      rw [total_size_cons, List.length_cons, Slot.size]
      omega

/-- The search stops at the first message that matches, or passes all of them. -/
theorem search_loop_ok (senderPid readerPid : Nat) {passed rest : List Slot} {fuel : Nat}
    (state : SearchResult)
    (ring : Ring mailbox (image (passed ++ rest)))
    (wellFormed : ∀ slot ∈ rest, slot.Sized) (enough : rest.length < fuel)
    (seen : state.seenSize = totalSize passed)
    (current : state.currentMessage = mailbox.head + totalSize passed) :
    ∃ found, searchLoop mailbox senderPid readerPid fuel state = .ok found ∧
      ((takeFirst senderPid readerPid rest = none ∧ found.seenSize = mailbox.usedSize) ∨
        ∃ earlier slot later, rest = earlier ++ slot :: later ∧
          slot.Matches senderPid readerPid ∧
          takeFirst senderPid readerPid rest =
            some (slot.message, earlier ++ { slot with taken := true } :: later) ∧
          found.seenSize = totalSize (passed ++ earlier) ∧
          found.currentMessage = mailbox.head + totalSize (passed ++ earlier) ∧
          ∀ other ∈ earlier, ¬ other.Matches senderPid readerPid) := by
  induction rest generalizing passed fuel state with
  | nil =>
      obtain ⟨rounds, rfl⟩ : ∃ rounds, fuel = rounds + 1 := ⟨fuel - 1, by omega⟩
      have used := ring.used
      rw [List.append_nil, image_length] at used
      refine ⟨state, ?_, .inl ⟨rfl, seen.trans used.symm⟩⟩
      rw [searchLoop, if_neg (by omega)]
  | cons slot rest ih =>
      obtain ⟨rounds, rfl⟩ : ∃ rounds, fuel = rounds + 1 := ⟨fuel - 1, by omega⟩
      have used := ring.used
      have fits := ring.fits
      have high := ring.headHigh
      have room := ring.addressable
      have formed := wellFormed slot List.mem_cons_self
      rw [image_length, total_size_append, total_size_cons] at used fits
      have sizePos : 9 ≤ slot.size := by
        rw [Slot.size]
        omega
      have atSlot := ring
      rw [image_append, image_cons] at atSlot
      have header := (header_at atSlot formed state.currentMessage (by rw [current, image_length])).1
      rw [searchLoop, if_pos (by omega), header, Trap.ok_bind]
      simp only [header_matches]
      by_cases found : slot.Matches senderPid readerPid
      · rw [if_pos found]
        refine ⟨_, rfl, .inr ⟨[], slot, rest, rfl, found, ?_, ?_, ?_, fun _ member => nomatch member⟩⟩
        · rw [takeFirst, if_pos found]
          rfl
        · rw [List.append_nil]
          exact seen
        · rw [List.append_nil]
          exact current
      · rw [if_neg found]
        have size : u16 (messageHeaderSize + slot.message.data.length) = slot.size := by
          have short := formed.short
          rw [u16, messageHeaderSize, Slot.size]
          omega
        rw [size]
        have onward := ring
        rw [List.append_cons] at onward
        obtain ⟨result, returned, outcome⟩ := ih
          ⟨u16 (state.seenSize + slot.size), u32 (state.currentMessage + slot.size), slot.size, _⟩
          onward (fun other member => wellFormed other (List.mem_cons_of_mem _ member))
          (by simpa using enough)
          (by
            change u16 (state.seenSize + slot.size) = _
            rw [total_size_append, total_size_cons, total_size_nil, seen, u16]
            omega)
          (by
            change u32 (state.currentMessage + slot.size) = _
            rw [total_size_append, total_size_cons, total_size_nil, current, u32_of_lt (by omega)]
            omega)
        refine ⟨result, returned, ?_⟩
        rcases outcome with ⟨nothing, total⟩ |
          ⟨earlier, other, later, split, matched, taken, seenEnd, currentEnd, unmatched⟩
        · exact .inl ⟨by rw [takeFirst, if_neg found, nothing], total⟩
        · refine .inr ⟨slot :: earlier, other, later, by rw [split]; rfl, matched, ?_, ?_, ?_,
            List.forall_mem_cons.2 ⟨found, unmatched⟩⟩
          · rw [takeFirst, if_neg found, taken]
            rfl
          · rw [seenEnd, List.append_assoc]
            rfl
          · rw [currentEnd, List.append_assoc]
            rfl

end Search

section Cleanup

variable {mailbox : Mailbox} {slots : List Slot}

/-- The clean-up takes the message for a read one. -/
def Slot.Cleared (slot : Slot) : Prop :=
  pidField slot slot.message.senderPid = 0 ∧ pidField slot slot.message.readerPid = 0

instance (slot : Slot) : Decidable slot.Cleared := inferInstanceAs (Decidable (_ ∧ _))

/-- The clean-up's test of a header tells the taken messages. -/
theorem cleared_iff_taken {slot : Slot} (wellFormed : slot.WellFormed) : slot.Cleared ↔ slot.taken = true := by
  have sender := wellFormed.sender
  unfold Slot.Cleared pidField
  cases slot.taken with
  | false =>
      simp only [Bool.false_eq_true, if_false, iff_false, not_and]
      omega
  | true => simp

/-- Eight bytes that are not all zero are not the header of a taken message. -/
theorem header_nonzero {addr : Nat} (bounded : addr + 8 < 4294967296)
    (nonzero : ∃ index < 8, storedByte mailbox (addr + index) ≠ 0) :
    ¬ ((storedHeader mailbox addr).senderPid = 0 ∧ (storedHeader mailbox addr).readerPid = 0) := by
  rintro ⟨sender, reader⟩
  obtain ⟨index, inside, differ⟩ := nonzero
  have listed : ∀ start, start + 4 < 4294967296 → ∀ offset < 4,
      storedByte mailbox (start + offset) ∈ storedBytes mailbox start 4 := by
    intro start room offset small
    simp only [storedBytes, List.mem_cons]
    rw [u32_of_lt (by omega : start + 1 < 4294967296),
      u32_of_lt (by omega : start + 1 + 1 < 4294967296),
      u32_of_lt (by omega : start + 1 + 1 + 1 < 4294967296)]
    obtain rfl | rfl | rfl | rfl : offset = 0 ∨ offset = 1 ∨ offset = 2 ∨ offset = 3 := by omega
    · exact .inl rfl
    · exact .inr (.inl rfl)
    · exact .inr (.inr (.inl rfl))
    · exact .inr (.inr (.inr (.inl rfl)))
  by_cases low : index < 4
  · exact differ (bytes_word_eq_zero sender _ (listed addr (by omega) index low))
  · have high := listed (addr + 4) (by omega) (index - 4) (by omega)
    have place : addr + 4 + (index - 4) = addr + index := by omega
    rw [place, ← u32_of_lt (by omega : addr + 4 < 4294967296)] at high
    exact differ (bytes_word_eq_zero reader _ high)

/-- A round of the clean-up on a message that is in the list. -/
theorem cleanup_round (fuel cleaned : Nat) {front : List UInt8} {slot : Slot} {back : List UInt8}
    (ring : Ring mailbox (front ++ (encode slot ++ back))) (sized : slot.Sized)
    (small : front.length + (cleaned + slot.size) ≤ 4096) :
    cleanupLoop mailbox (fuel + 1) cleaned front.length (mailbox.head + front.length) =
      if slot.Cleared then
        cleanupLoop mailbox fuel (cleaned + slot.size) (front.length + (cleaned + slot.size))
          (mailbox.head + front.length + (cleaned + slot.size))
      else .ok cleaned := by
  have header := (header_at ring sized _ rfl).1
  have used := ring.used
  have fits := ring.fits
  have high := ring.headHigh
  have room := ring.addressable
  have short := sized.short
  simp only [List.length_append, encode_length] at used fits
  have size : slot.size = messageHeaderSize + slot.message.data.length := rfl
  have positive : 0 < slot.size := by
    rw [Slot.size]
    omega
  have inUse : front.length < mailbox.usedSize := by omega
  have bound : slot.size ≤ 264 := by
    rw [Slot.size]
    omega
  rw [cleanupLoop, header, Trap.ok_bind]
  simp only [inUse, and_true, ← size]
  rw [u16, u16, Nat.mod_eq_of_lt (by omega : cleaned + slot.size < 65536),
    Nat.mod_eq_of_lt (by omega : front.length + (cleaned + slot.size) < 65536), u32_of_lt (by omega)]
  rfl

/-- A round that finds nothing more to clean up. -/
theorem cleanup_stop (fuel cleaned seen addr : Nat) (addressable : mailbox.copyPage + 4096 < 4294967296)
    (mapped : addr + messageHeaderSize ≤ mailbox.copyPage + 4096)
    (stopped : ¬ ((storedHeader mailbox addr).senderPid = 0 ∧
      (storedHeader mailbox addr).readerPid = 0) ∨ mailbox.usedSize ≤ seen) :
    cleanupLoop mailbox (fuel + 1) cleaned seen addr = .ok cleaned := by
  rw [cleanupLoop, header_eq mailbox addr addressable, if_pos mapped, Trap.ok_bind]
  apply if_neg
  rintro ⟨sender, reader, inUse⟩
  rcases stopped with nonzero | ended
  · exact nonzero ⟨sender, reader⟩
  · omega

/-- The third look of the clean-up, behind two read messages, is beyond the bytes in use or
does not find a read header. -/
def LooksClean (mailbox : Mailbox) : List Slot → Prop
  | first :: second :: _ =>
      mailbox.usedSize ≤ 2 * first.size + second.size ∨
        ∃ index < 8,
          storedByte mailbox (mailbox.head + (2 * first.size + second.size) + index) ≠ 0
  | _ => True

/-- The messages the clean-up removes: at most two, although more may be read. -/
def reclaimed (slots : List Slot) : List Slot := (slots.takeWhile fun slot => slot.Cleared).take 2

theorem cleanup_reclaims (ring : Ring mailbox (image slots)) (nonempty : slots ≠ [])
    (sized : ∀ slot ∈ slots, slot.Sized)
    (clean : LooksClean mailbox (slots.takeWhile fun slot => slot.Cleared)) :
    messageCleanup mailbox = .ok (totalSize (reclaimed slots)) := by
  have high := ring.headHigh
  have room := ring.addressable
  have used := ring.used
  have fits := ring.fits
  have copyPage := ring.copyPage
  have pages := ring_pages ring
  have headerSize : messageHeaderSize = 9 := rfl
  rw [image_length] at used fits
  cases slots with
  | nil => exact absurd rfl nonempty
  | cons first slots =>
      have firstShort := (sized first List.mem_cons_self).short
      have firstSize : first.size = 9 + first.message.data.length := rfl
      have atFirst : Ring mailbox ([] ++ (encode first ++ image slots)) := by
        rw [image_cons] at ring
        exact ring
      have start := cleanup_round 65535 0 atFirst (sized first List.mem_cons_self)
        (by rw [List.length_nil]; omega)
      simp only [List.length_nil, Nat.add_zero, Nat.zero_add] at start
      change cleanupLoop mailbox (65535 + 1) 0 0 mailbox.head = _
      rw [start, reclaimed]
      by_cases firstCleared : first.Cleared
      · rw [if_pos firstCleared]
        cases slots with
        | nil =>
            rw [total_size_cons, total_size_nil] at used
            rw [cleanup_stop 65534 _ _ _ pages (by omega) (.inr (by omega))]
            simp [firstCleared]
        | cons second slots =>
            have secondMember : second ∈ first :: second :: slots :=
              List.mem_cons_of_mem _ List.mem_cons_self
            have secondShort := (sized second secondMember).short
            have secondSize : second.size = 9 + second.message.data.length := rfl
            have atSecond : Ring mailbox (encode first ++ (encode second ++ image slots)) := by
              rw [image_cons, image_cons] at ring
              exact ring
            have next := cleanup_round 65534 first.size atSecond (sized second secondMember)
              (by rw [encode_length]; omega)
            rw [encode_length] at next
            rw [next]
            by_cases secondCleared : second.Cleared
            · rw [if_pos secondCleared]
              simp only [List.takeWhile_cons, firstCleared, secondCleared, decide_true, if_true] at clean ⊢
              have place : mailbox.head + first.size + (first.size + second.size) =
                  mailbox.head + (2 * first.size + second.size) := by omega
              rw [place, cleanup_stop 65533 _ _ _ pages (by omega)]
              · simp
              · rcases clean with ended | nonzero
                · exact .inr (by omega)
                · exact .inl (header_nonzero (by omega) nonzero)
            · simp [firstCleared, secondCleared]
      · simp [firstCleared]

theorem cleared_run {slots : List Slot} (formed : ∀ slot ∈ slots, slot.WellFormed) :
    (slots.takeWhile fun slot => slot.Cleared) = slots.takeWhile Slot.taken := by
  induction slots with
  | nil => rfl
  | cons slot slots ih =>
      have here := cleared_iff_taken (formed slot List.mem_cons_self)
      rw [List.takeWhile_cons, List.takeWhile_cons, ih fun other member =>
        formed other (List.mem_cons_of_mem _ member)]
      simp only [here, Bool.decide_eq_true]

/-- The clean-up removes exactly the taken messages at the head, when their run is clean. -/
theorem message_cleanup_ok (ring : Ring mailbox (image slots)) (nonempty : slots ≠ [])
    (wellFormed : ∀ slot ∈ slots, slot.WellFormed)
    (clean : CleanRun mailbox (slots.takeWhile Slot.taken)) :
    messageCleanup mailbox = .ok (totalSize (slots.takeWhile Slot.taken)) := by
  have run := cleared_run wellFormed
  have looks : LooksClean mailbox (slots.takeWhile Slot.taken) ∧
      (slots.takeWhile Slot.taken).take 2 = slots.takeWhile Slot.taken := by
    revert clean
    match slots.takeWhile Slot.taken with
    | [] => exact fun _ => ⟨trivial, rfl⟩
    | [_] => exact fun _ => ⟨trivial, rfl⟩
    | [_, _] => exact fun clean => ⟨clean, rfl⟩
    | _ :: _ :: _ :: _ => exact False.elim
  have cleaned := cleanup_reclaims ring nonempty (fun slot member => (wellFormed slot member).sized)
    (run ▸ looks.1)
  rw [cleaned, reclaimed, run, looks.2]

end Cleanup

/-- The mailbox holds the list, which starts with an unread message. -/
structure Related (mailbox : Mailbox) (slots : List Slot) : Prop where
  ring : Ring mailbox (image slots)
  wellFormed : ∀ slot ∈ slots, slot.WellFormed
  headUnread : slots.takeWhile Slot.taken = []

section Steps

variable {mailbox : Mailbox} {slots : List Slot} {senderPid readerPid : Nat}

/-- An accepted message is stored in one block, and the tail moves behind it. -/
theorem send_stores {data : List UInt8} (ring : Ring mailbox (image slots))
    (room : totalSize slots + (9 + data.length) ≤ 4096) {slot : Slot}
    (sent : slot = ⟨⟨senderPid, readerPid, data⟩, false⟩) :
    mailboxSendMessage mailbox senderPid readerPid data.length data =
      (true, { storeBytes mailbox mailbox.tail (encode slot) with
        tail := wrapPtr mailbox (mailbox.tail + slot.size)
        usedSize := totalSize slots + slot.size }) := by
  have used := ring.used
  have capacity := ring.capacity
  have addressable := ring.addressable
  have tailPlace := ring.tail
  rw [image_length] at used
  have size : slot.size = 9 + data.length := by rw [sent, Slot.size]
  have bytes : encode slot = headerBytes ⟨senderPid, readerPid, data.length⟩ ++ data := by
    rw [sent, encode, headerBytes]
    simp [List.append_assoc]
  have headerLength : (headerBytes ⟨senderPid, readerPid, data.length⟩).length = 9 := rfl
  have tailBound : mailbox.tail < mailbox.firstPage + 4096 := by
    rw [tailPlace]
    omega
  have fields := store_bytes_fields mailbox mailbox.tail
    (headerBytes ⟨senderPid, readerPid, data.length⟩)
  have whole := store_bytes_append mailbox mailbox.tail
    (headerBytes ⟨senderPid, readerPid, data.length⟩) data (by omega)
  rw [headerLength] at whole
  have fieldsWhole := store_bytes_fields mailbox mailbox.tail (encode slot)
  rw [mailboxSendMessage, if_neg (by rw [messageHeaderSize]; omega)]
  simp only [messageHeaderSize, fields.tail, List.take_length, store_bytes_tail]
  rw [u32_of_lt (by omega : mailbox.tail + 9 < 4294967296), ← whole, ← bytes,
    u32_of_lt (by omega : mailbox.tail + 9 + data.length < 4294967296), fieldsWhole.usedSize, used, u16,
    Nat.mod_eq_of_lt (by omega), Nat.add_assoc, ← size]
  rw [wrapPtr, wrapPtr, fieldsWhole.copyPage, fieldsWhole.firstPage]

/-- The message stands behind the others. -/
theorem send_ring {data : List UInt8} (ring : Ring mailbox (image slots))
    (room : totalSize slots + (9 + data.length) ≤ 4096) {slot : Slot}
    (sent : slot = ⟨⟨senderPid, readerPid, data⟩, false⟩) :
    ∃ next, mailboxSendMessage mailbox senderPid readerPid data.length data = (true, next) ∧
      next.firstPage = mailbox.firstPage ∧ Ring next (image (slots ++ [slot])) := by
  have used := ring.used
  rw [image_length] at used
  have fields := store_bytes_fields mailbox mailbox.tail (encode slot)
  have size : slot.size = 9 + data.length := by rw [sent, Slot.size]
  have stored := send_stores ring room sent
  have tailPlace := ring.tail
  have tailBound : mailbox.tail - mailbox.firstPage + slot.size < 8192 := by omega
  have wrapped := wrap_ptr_ring ring.aligned ring.addressable ring.copyPage tailBound
  have place : mailbox.firstPage + (mailbox.tail - mailbox.firstPage + slot.size) =
      mailbox.tail + slot.size := by omega
  rw [place] at wrapped
  have grown := ring_append
    { storeBytes mailbox mailbox.tail (encode slot) with
      tail := wrapPtr mailbox (mailbox.tail + slot.size)
      usedSize := totalSize slots + slot.size }
    ring (encode slot) (by rw [image_length, encode_length]; omega) rfl fields.head
    fields.firstPage fields.copyPage fields.capacity
    (by rw [wrapped, encode_length]) (by rw [image_length, encode_length])
  have single : image [slot] = encode slot := by simp [image]
  rw [stored]
  refine ⟨_, rfl, fields.firstPage, ?_⟩
  rw [image_append, single]
  exact grown

theorem send_related {data : List UInt8} (related : Related mailbox slots)
    (legal : LegalCall (.send senderPid readerPid data)) :
    ∃ next, mailboxStep mailbox (.send senderPid readerPid data) =
        .ok ((listStep slots (.send senderPid readerPid data)).1, next) ∧
      Related next (listStep slots (.send senderPid readerPid data)).2 := by
  obtain ⟨ring, wellFormed, headUnread⟩ := related
  obtain ⟨senderPos, senderWord, readerPos, readerWord, short⟩ := legal
  have used := ring.used
  rw [image_length] at used
  rw [listStep, mailboxStep]
  by_cases full : totalSize slots + (9 + data.length) > 4096
  · have capacity := ring.capacity
    rw [mailboxSendMessage, messageHeaderSize, if_pos full, if_pos (by omega)]
    exact ⟨mailbox, rfl, ring, wellFormed, headUnread⟩
  · rw [if_neg full]
    have formed : Slot.WellFormed ⟨⟨senderPid, readerPid, data⟩, false⟩ :=
      ⟨senderPos, senderWord, readerPos, readerWord, short⟩
    obtain ⟨next, sent, _, grown⟩ := send_ring ring (by omega)
      (rfl : (⟨⟨senderPid, readerPid, data⟩, false⟩ : Slot) = _)
    rw [sent]
    refine ⟨next, rfl, grown, ?_, ?_⟩
    · intro other member
      rcases List.mem_append.1 member with old | new
      · exact wellFormed other old
      · rw [List.mem_singleton.1 new]
        exact formed
    · cases slots with
      | nil => rfl
      | cons head slots =>
          rw [List.takeWhile_cons] at headUnread
          cases taken : head.taken with
          | false => simp [taken]
          | true => simp [taken] at headUnread

/-- A look behind the zeroed header meets the bytes it met before. -/
theorem stored_byte_kept {whole : List UInt8} (ring : Ring mailbox whole) {index : Nat}
    (low : 8 ≤ index) (high : index < 4096) :
    storedByte (storeBytes mailbox mailbox.head (List.replicate 8 0)) (mailbox.head + index) =
      storedByte mailbox (mailbox.head + index) := by
  have headLow := ring.headLow
  have headHigh := ring.headHigh
  have headPlace : mailbox.head = mailbox.firstPage + (mailbox.head - mailbox.firstPage) := by omega
  have indexPlace : mailbox.head + index =
      mailbox.firstPage + (mailbox.head - mailbox.firstPage + index) := by omega
  have fields := store_bytes_fields mailbox mailbox.head (List.replicate 8 0)
  have kept := (store_bytes_memory mailbox ring.copyPage ring.addressable
    (mailbox.head - mailbox.firstPage) (List.replicate 8 0) (by simp) (by simp; omega)).2
  rw [← headPlace] at kept
  have copyPage : (storeBytes mailbox mailbox.head (List.replicate 8 0)).copyPage =
      (storeBytes mailbox mailbox.head (List.replicate 8 0)).firstPage + 4096 := by
    rw [fields.copyPage, fields.firstPage, ring.copyPage]
  have bound : mailbox.head - mailbox.firstPage + index < 8192 := by omega
  have first := backing_offset ring.copyPage bound
  have second := backing_offset copyPage bound
  rw [fields.firstPage] at second
  rw [storedByte, storedByte, indexPlace, first, second]
  apply kept
  intro offset inside
  rw [List.length_replicate] at inside
  omega

/-- Zeroing the found header marks its slot. -/
theorem mark_ring {earlier later : List Slot} {slot : Slot} (unread : slot.taken = false)
    (ring : Ring mailbox (image (earlier ++ slot :: later))) :
    Ring (storeBytes mailbox (mailbox.head + totalSize earlier) (List.replicate 8 0))
      (image (earlier ++ { slot with taken := true } :: later)) := by
  have tailBytes : ∀ taken, encode { slot with taken := taken } =
      (if taken then List.replicate 8 0
        else wordBytes slot.message.senderPid ++ wordBytes slot.message.readerPid) ++
        (UInt8.ofNat slot.message.data.length :: slot.message.data) := fun _ => rfl
  have old : encode slot = (wordBytes slot.message.senderPid ++ wordBytes slot.message.readerPid) ++
      (UInt8.ofNat slot.message.data.length :: slot.message.data) := by
    rw [encode, unread]
    rfl
  rw [image_append, image_cons, old, List.append_assoc] at ring
  rw [image_append, image_cons, tailBytes, if_pos rfl, List.append_assoc, ← image_length]
  exact ring_overwrite ring _ rfl

/-- The condition on the taken messages survives the zeroing of the header. -/
theorem clean_run_kept {whole : List UInt8} (ring : Ring mailbox whole) {run : List Slot}
    (formed : ∀ slot ∈ run, slot.WellFormed) (clean : CleanRun mailbox run) :
    CleanRun (storeBytes mailbox mailbox.head (List.replicate 8 0)) run := by
  have fields := store_bytes_fields mailbox mailbox.head (List.replicate 8 0)
  match run, clean with
  | [], _ => trivial
  | [_], _ => trivial
  | [first, second], .inl ended =>
      left
      rw [fields.usedSize]
      exact ended
  | [first, second], .inr ⟨index, small, nonzero⟩ =>
      have firstShort := (formed first (by simp)).short
      have secondShort := (formed second (by simp)).short
      have firstSize : first.size = 9 + first.message.data.length := rfl
      have secondSize : second.size = 9 + second.message.data.length := rfl
      refine .inr ⟨index, small, ?_⟩
      rw [fields.head, Nat.add_assoc, stored_byte_kept ring (by omega) (by omega), ← Nat.add_assoc]
      exact nonzero

theorem take_while_drop_while (slots : List Slot) :
    (slots.dropWhile Slot.taken).takeWhile Slot.taken = [] := by
  induction slots with
  | nil => rfl
  | cons slot slots ih =>
      cases taken : slot.taken with
      | false => simp [taken]
      | true => simpa [taken] using ih

/-- The found message is copied out whole. -/
theorem message_read {earlier later : List Slot} {slot : Slot} (buffer : MailboxMessage)
    (formed : slot.Sized) (unread : slot.taken = false)
    (ring : Ring mailbox (image (earlier ++ slot :: later))) {addr : Nat}
    (place : addr = mailbox.head + totalSize earlier) :
    bytesToMessage mailbox buffer addr =
      .ok ⟨⟨slot.message.senderPid, slot.message.readerPid, slot.message.data.length⟩,
        slot.message.data ++ buffer.data.drop slot.message.data.length⟩ := by
  rw [image_append, image_cons] at ring
  obtain ⟨header, data⟩ := header_at ring formed addr (by rw [place, image_length])
  simp only [pidField, unread, Bool.false_eq_true, if_false] at header
  rw [bytesToMessage, header, Trap.ok_bind, data]
  rfl

/-- Messages at the head whose bytes the clean-up counts leave the ring. -/
theorem reclaim_ring {front back : List Slot} (ring : Ring mailbox (image (front ++ back))) :
    Ring
      { mailbox with
        usedSize := u16 (mailbox.usedSize + 65536 - totalSize front)
        head := wrapPtr mailbox (u32 (mailbox.head + totalSize front)) }
      (image back) := by
  have used := ring.used
  have fits := ring.fits
  have headLow := ring.headLow
  have headHigh := ring.headHigh
  have room := ring.addressable
  have parts := ring
  rw [image_append] at parts
  rw [image_append, List.length_append, image_length, image_length] at used fits
  refine ring_drop _ parts ?_ ?_ ?_ ?_ ?_ ?_ ?_
  iterate 5 rfl
  · have bound : mailbox.head - mailbox.firstPage + totalSize front < 8192 := by omega
    have wrapped := wrap_ptr_ring ring.aligned room ring.copyPage bound
    have place : mailbox.firstPage + (mailbox.head - mailbox.firstPage + totalSize front) =
        mailbox.head + totalSize front := by omega
    rw [place] at wrapped
    rw [u32_of_lt (by omega), wrapped, image_length]
  · change u16 (mailbox.usedSize + 65536 - totalSize front) = _
    rw [image_length, used, u16]
    omega

/-- After the header is zeroed, the run of taken messages at the head is reclaimed. -/
theorem reclaim_related {marked : List Slot} (ring : Ring mailbox (image marked))
    (nonempty : marked ≠ []) (formed : ∀ slot ∈ marked, slot.WellFormed)
    (clean : CleanRun mailbox (marked.takeWhile Slot.taken)) :
    ∃ cleaned, messageCleanup mailbox = .ok cleaned ∧
      Related
        { mailbox with
          usedSize := u16 (mailbox.usedSize + 65536 - cleaned)
          head := wrapPtr mailbox (u32 (mailbox.head + cleaned)) }
        (marked.dropWhile Slot.taken) := by
  have cleanup := message_cleanup_ok ring nonempty formed clean
  refine ⟨_, cleanup, ?_, ?_, take_while_drop_while marked⟩
  · apply reclaim_ring
    rw [List.takeWhile_append_dropWhile]
    exact ring
  · intro slot member
    exact formed slot ((List.dropWhile_sublist _).subset member)

/-- A read that finds a message, up to its clean-up. -/
theorem read_of_found {buffer message : MailboxMessage} {found : SearchResult} (stored : Mailbox)
    (searched : searchLoop mailbox senderPid readerPid roundLimit
      ⟨0, mailbox.head, 0, buffer.header⟩ = .ok found)
    (inside : found.seenSize < mailbox.usedSize)
    (copied : bytesToMessage mailbox { buffer with header := found.header } found.currentMessage = .ok message)
    (zeroed : storeBytes { mailbox with
      unreadSize := u16 (mailbox.unreadSize + 65536 - found.totalMessageSize) }
        found.currentMessage (List.replicate 8 0) = stored) :
    mailboxReadMessage mailbox senderPid readerPid buffer =
      (messageCleanup stored).map fun cleaned => (1, message, { stored with
        usedSize := u16 (stored.usedSize + 65536 - cleaned)
        head := wrapPtr stored (u32 (stored.head + cleaned)) }) := by
  rw [mailboxReadMessage, searched, Trap.ok_bind, if_neg (by omega), copied, Trap.ok_bind]
  simp only [zeroed]
  cases messageCleanup stored with
  | error trap => rfl
  | ok cleaned => rfl

/-- A read that finds a message, from its search and its clean-up. -/
theorem read_of_search {buffer message : MailboxMessage} {found : SearchResult} {cleaned : Nat}
    (stored : Mailbox)
    (searched : searchLoop mailbox senderPid readerPid roundLimit
      ⟨0, mailbox.head, 0, buffer.header⟩ = .ok found)
    (inside : found.seenSize < mailbox.usedSize)
    (copied : bytesToMessage mailbox { buffer with header := found.header } found.currentMessage = .ok message)
    (zeroed : storeBytes { mailbox with
      unreadSize := u16 (mailbox.unreadSize + 65536 - found.totalMessageSize) }
        found.currentMessage (List.replicate 8 0) = stored)
    (cleanup : messageCleanup stored = .ok cleaned) :
    mailboxReadMessage mailbox senderPid readerPid buffer =
      .ok (1, message, { stored with
        usedSize := u16 (stored.usedSize + 65536 - cleaned)
        head := wrapPtr stored (u32 (stored.head + cleaned)) }) := by
  rw [read_of_found stored searched inside copied zeroed, cleanup]
  rfl

theorem read_related {buffer : MailboxMessage} (related : Related mailbox slots)
    (clean : CleanCall (mailbox, slots) (.read senderPid readerPid buffer)) :
    ∃ next, mailboxStep mailbox (.read senderPid readerPid buffer) =
        .ok ((listStep slots (.read senderPid readerPid buffer)).1, next) ∧
      Related next (listStep slots (.read senderPid readerPid buffer)).2 := by
  obtain ⟨ring, wellFormed, headUnread⟩ := related
  have used := ring.used
  have fits := ring.fits
  have count := slots_length_le slots
  rw [image_length] at used fits
  have enough : slots.length < roundLimit := by
    rw [roundLimit]
    omega
  have whole : Ring mailbox (image ([] ++ slots)) := ring
  obtain ⟨found, searched, outcome⟩ := search_loop_ok senderPid readerPid
    ⟨0, mailbox.head, 0, buffer.header⟩ whole (fun slot member => (wellFormed slot member).sized) enough rfl rfl
  rw [listStep]
  rcases outcome with ⟨nothing, total⟩ | ⟨earlier, slot, later, split, matched, taken, seen, current, _⟩
  · rw [nothing, mailboxStep, mailboxReadMessage, searched, Trap.ok_bind, total]
    refine ⟨mailbox, ?_, ring, wellFormed, headUnread⟩
    simp
  · have cleanRun := clean _ _ taken
    have formed := wellFormed slot (by rw [split]; simp)
    have slotSize : slot.size = 9 + slot.message.data.length := rfl
    rw [List.nil_append] at seen current
    rw [taken]
    subst split
    rw [total_size_append, total_size_cons] at used
    let base : Mailbox := { mailbox with
      unreadSize := u16 (mailbox.unreadSize + 65536 - found.totalMessageSize) }
    have baseRing : Ring base (image (earlier ++ slot :: later)) := ring_unread ring _
    have marked := mark_ring matched.1 baseRing
    have markedFormed : ∀ other ∈ earlier ++ { slot with taken := true } :: later,
        other.WellFormed := by
      intro other member
      rcases List.mem_append.1 member with before | rest
      · exact wellFormed other (List.mem_append_left _ before)
      · rcases List.mem_cons.1 rest with same | after
        · rw [same]
          exact ⟨formed.sender, formed.senderWord, formed.reader, formed.readerWord, formed.short⟩
        · exact wellFormed other (List.mem_append_right _ (List.mem_cons_of_mem _ after))
    have baseClean : CleanRun base
        ((earlier ++ { slot with taken := true } :: later).takeWhile Slot.taken) := cleanRun
    have storedClean : CleanRun (storeBytes base (base.head + totalSize earlier) (List.replicate 8 0))
        ((earlier ++ { slot with taken := true } :: later).takeWhile Slot.taken) := by
      cases earlier with
      | nil =>
          exact clean_run_kept baseRing
            (fun other member => markedFormed other ((List.takeWhile_sublist _).subset member))
            baseClean
      | cons head earlier =>
          cases headTaken : head.taken with
          | false =>
              rw [List.cons_append, List.takeWhile_cons, headTaken]
              trivial
          | true => simp [headTaken] at headUnread
    obtain ⟨cleaned, cleanup, related⟩ :=
      reclaim_related marked (by simp) markedFormed storedClean
    have delivered := message_read { buffer with header := found.header } formed.sized matched.1 ring current
    have completed := read_of_search _ searched (by omega) delivered (by rw [current]) cleanup
    refine ⟨_, ?_, related⟩
    rw [mailboxStep, completed, Trap.ok_bind]
    simp only [one_ne_zero, if_false, List.take_left, pure, Except.pure]

end Steps

theorem init_related {start : Nat} {memory : Nat → UInt8} (aligned : start % 4096 = 0)
    (addressable : start + 8192 < 4294967296) : Related (mailboxInit start memory) [] := by
  refine ⟨⟨aligned, addressable, u32_of_lt (by omega), rfl, le_refl _, ?_, rfl, Nat.zero_le _, ?_, ?_⟩,
    ?_, rfl⟩
  · exact Nat.lt_add_of_pos_right (by decide)
  · simp [mailboxInit, image]
  · intro index inside
    exact absurd inside (Nat.not_lt_zero index)
  · intro slot member
    cases member

/-- Over every run of sends and reads in which each clean-up gets over the taken messages at
the head, a mailbox answers as the list of its messages does. -/
theorem selective_receive_runs (start : Nat) (memory : Nat → UInt8) (calls : List MailboxCall)
    (aligned : start % 4096 = 0) (addressable : start + 8192 < 4294967296)
    (legal : Allowed (pairedStep mailboxStep listStep)
      (fun state call => LegalCall call ∧ CleanCall state call) (mailboxInit start memory, []) calls) :
    ∃ final, run mailboxStep (mailboxInit start memory) calls =
      .ok ((observe listStep [] calls).1, final) := by
  obtain ⟨final, answered, _⟩ := run_simulates_paired listStep Related
    (fun mailbox slots call related clean => by
      cases call with
      | send senderPid readerPid data => exact send_related related clean.1
      | read senderPid readerPid buffer => exact read_related related clean.2)
    calls _ _ (init_related aligned addressable) legal
  exact ⟨final, answered⟩

/-- Two messages read in the wrong order, and one sent behind them. -/
def outOfOrderCalls : List MailboxCall :=
  [.send 1 9 [7], .send 2 9 [], .read 2 9 ⟨⟨0, 0, 0⟩, []⟩, .read 0 9 ⟨⟨0, 0, 0⟩, []⟩,
    .send 3 9 [8, 9], .read 3 0 ⟨⟨0, 0, 0⟩, []⟩, .read 0 0 ⟨⟨0, 0, 0⟩, []⟩]

theorem selective_receive_runs_out_of_order :
    ∃ final, run mailboxStep (mailboxInit 0xC0400000 fun _ => 0) outOfOrderCalls =
      .ok ((observe listStep [] outOfOrderCalls).1, final) :=
  selective_receive_runs 0xC0400000 (fun _ => 0) outOfOrderCalls (by decide) (by decide)
    (by decide +kernel)

/-- A third message of nine zero bytes behind two that were read in the wrong order is lost. -/
def zeroPayloadCalls : List MailboxCall :=
  [.send 1 9 [], .send 2 9 [], .send 3 9 (List.replicate 9 0), .read 2 9 ⟨⟨0, 0, 0⟩, []⟩,
    .read 1 9 ⟨⟨0, 0, 0⟩, []⟩, .read 3 9 ⟨⟨0, 0, 0⟩, []⟩]

theorem selective_receive_zero_payload :
    ¬ ∀ (start : Nat) (memory : Nat → UInt8) (calls : List MailboxCall), start % 4096 = 0 →
      start + 8192 < 4294967296 → (∀ call ∈ calls, LegalCall call) →
      ∃ final, run mailboxStep (mailboxInit start memory) calls =
        .ok ((observe listStep [] calls).1, final) := by
  intro always
  obtain ⟨final, answered⟩ := always 0xC0400000 (fun _ => 0) zeroPayloadCalls (by decide) (by decide)
    (by decide)
  have differ : (run mailboxStep (mailboxInit 0xC0400000 fun _ => 0) zeroPayloadCalls).toOption.map
      Prod.fst ≠ some (observe listStep [] zeroPayloadCalls).1 := by decide +kernel
  exact differ (by rw [answered]; rfl)

end ParadiseOS.MailboxRuns
