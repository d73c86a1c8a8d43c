import ParadiseOS.MailboxRuns

/-!
# What `message_cleanup` reclaims

The clean-up should take the read messages at the head and look at headers only. It steps by
the bytes of all messages it has seen, so it does what it should exactly when the places it looks
at happen to be headers up to an unread message, and the read ones among them happen to be as
long as the run at the head.
-/

namespace ParadiseOS.MailboxCleanup

open MachineWord MailboxModel MailboxRing MailboxRuns

set_option autoImplicit false

section Statement

/-- The loop of `message_cleanup` with the addresses at which it reads a header. -/
def cleanupReads (mailbox : Mailbox) : Nat → Nat → Nat → Nat → Except Trap (Nat × List Nat)
  | 0, _, _, _ => .error .noReturn
  | fuel + 1, cleanedUpBytes, seenSize, tmpHeader => do
      let header ← bytesToMessageHeader mailbox tmpHeader
      if header.senderPid = 0 ∧ header.readerPid = 0 ∧ seenSize < mailbox.usedSize then
        let cleanedUpBytes := u16 (cleanedUpBytes + (messageHeaderSize + header.dataSize))
        let seenSize := u16 (seenSize + cleanedUpBytes)
        let (cleaned, reads) ←
          cleanupReads mailbox fuel cleanedUpBytes seenSize (u32 (tmpHeader + cleanedUpBytes))
        pure (cleaned, tmpHeader :: reads)
      else .ok (cleanedUpBytes, [tmpHeader])

/-- The bytes in use are whole messages, and the unread ones have a sender. -/
structure Stores (mailbox : Mailbox) (slots : List Slot) : Prop where
  ring : Ring mailbox (image slots)
  sized : ∀ slot ∈ slots, slot.Sized
  sender : ∀ slot ∈ slots, slot.taken = false → slot.message.senderPid ≠ 0

/-- A stored message begins at the address. -/
def HeaderAt (mailbox : Mailbox) (slots : List Slot) (addr : Nat) : Prop :=
  ∃ front slot back, slots = front ++ slot :: back ∧ addr = mailbox.head + totalSize front

/-- The clean-up returns the bytes of the read messages at the head, and looks at headers only. -/
def ReclaimsPrefix (mailbox : Mailbox) (slots : List Slot) : Prop :=
  totalSize (slots.takeWhile Slot.taken) ≤ mailbox.usedSize ∧
    messageCleanup mailbox = .ok (totalSize (slots.takeWhile Slot.taken)) ∧
    ∃ cleaned reads, cleanupReads mailbox roundLimit 0 0 mailbox.head = .ok (cleaned, reads) ∧
      ∀ addr ∈ reads, HeaderAt mailbox slots addr

/-- From a message on, with so many bytes of read messages before, the read messages at which the
clean-up looks, when all it looks at are messages: the next one stands as many bytes behind a
read message as the read ones before it have, and the last one is unread. -/
inductive Looks : Nat → List Slot → List Slot → Prop
  | unread {counted : Nat} {slot : Slot} {later : List Slot} (unread : slot.taken = false) :
      Looks counted (slot :: later) []
  | read {counted : Nat} {slot : Slot} {gap later visited : List Slot} (taken : slot.taken = true)
      (apart : totalSize gap = counted) (onward : Looks (counted + slot.size) later visited) :
      Looks counted (slot :: (gap ++ later)) (slot :: visited)

/-- The clean-up looks at messages up to an unread one, and the read ones among them have as many
bytes as the ones at the head. -/
def LooksRight (slots : List Slot) : Prop :=
  ∃ visited, Looks 0 slots visited ∧ totalSize visited = totalSize (slots.takeWhile Slot.taken)

end Statement

section Loop

variable {mailbox : Mailbox} {slots : List Slot}

theorem cleanup_reads_result (fuel cleaned seen addr : Nat) :
    cleanupLoop mailbox fuel cleaned seen addr =
      (cleanupReads mailbox fuel cleaned seen addr).map Prod.fst := by
  induction fuel generalizing cleaned seen addr with
  | zero => rfl
  | succ fuel ih =>
      rw [cleanupLoop, cleanupReads]
      cases bytesToMessageHeader mailbox addr with
      | error trap => rfl
      | ok header =>
          rw [Trap.ok_bind, Trap.ok_bind]
          split_ifs with goesOn
          · dsimp only
            rw [ih]
            cases cleanupReads mailbox fuel _ _ _ <;> rfl
          · rfl

theorem stores_used (stores : Stores mailbox slots) : mailbox.usedSize = totalSize slots := by
  rw [stores.ring.used, image_length]

/-- A header reads as cleared exactly when its message is a read one. -/
theorem stored_cleared (stores : Stores mailbox slots) {slot : Slot} (member : slot ∈ slots) :
    (pidField slot slot.message.senderPid = 0 ∧ pidField slot slot.message.readerPid = 0) ↔
      slot.taken = true := by
  have sender := stores.sender slot member
  unfold pidField
  cases taken : slot.taken with
  | false => simpa [taken] using fun none => absurd none (sender taken)
  | true => simp

/-- A look at a stored message. -/
theorem look_at_message {front back : List Slot} {slot : Slot} (stores : Stores mailbox (front ++ slot :: back))
    (fuel : Nat) {cleaned : Nat} (counted : cleaned ≤ totalSize front) :
    cleanupReads mailbox (fuel + 1) cleaned (totalSize front) (mailbox.head + totalSize front) =
      if slot.taken = true then do
        let (total, reads) ← cleanupReads mailbox fuel (cleaned + slot.size)
          (totalSize front + (cleaned + slot.size)) (mailbox.head + (totalSize front + (cleaned + slot.size)))
        pure (total, (mailbox.head + totalSize front) :: reads)
      else .ok (cleaned, [mailbox.head + totalSize front]) := by
  have member : slot ∈ front ++ slot :: back := List.mem_append_right _ List.mem_cons_self
  have sized := stores.sized slot member
  have used := stores_used stores
  have fits := stores.ring.fits
  have high := stores.ring.headHigh
  have room := stores.ring.addressable
  have aligned := stores.ring.aligned
  rw [image_length] at fits
  rw [total_size_append, total_size_cons] at used fits
  have atSlot := stores.ring
  rw [image_append, image_cons] at atSlot
  have header := (header_at atSlot sized (mailbox.head + totalSize front) (by rw [image_length])).1
  have size : slot.size = messageHeaderSize + slot.message.data.length := rfl
  have positive : 9 ≤ slot.size := by
    rw [Slot.size]
    omega
  have inUse : totalSize front < mailbox.usedSize := by omega
  rw [cleanupReads, header, Trap.ok_bind]
  simp only [inUse, and_true, ← size, stored_cleared stores member]
  rw [u16, u16, Nat.mod_eq_of_lt (by omega : cleaned + slot.size < 65536),
    Nat.mod_eq_of_lt (by omega : totalSize front + (cleaned + slot.size) < 65536), u32_of_lt (by omega),
    Nat.add_assoc]

end Loop

section Both

variable {mailbox : Mailbox} {slots : List Slot}

theorem size_positive (slot : Slot) : 0 < slot.size := by
  rw [Slot.size]
  omega

/-- When all the looks are at messages, the clean-up counts the read ones. -/
theorem reads_of_looks {counted : Nat} {rest visited : List Slot} (looks : Looks counted rest visited)
    {front : List Slot} (stores : Stores mailbox (front ++ rest)) (behind : counted ≤ totalSize front)
    (fuel : Nat) (enough : rest.length ≤ fuel) :
    ∃ reads, cleanupReads mailbox fuel counted (totalSize front) (mailbox.head + totalSize front) =
        .ok (counted + totalSize visited, reads) ∧
      ∀ addr ∈ reads, HeaderAt mailbox (front ++ rest) addr := by
  induction looks generalizing front fuel with
  | @unread counted slot later unread =>
      obtain ⟨rounds, rfl⟩ : ∃ rounds, fuel = rounds + 1 := ⟨fuel - 1, by rw [List.length_cons] at enough; omega⟩
      rw [look_at_message stores rounds behind, if_neg (by simp [unread])]
      refine ⟨_, rfl, ?_⟩
      intro addr member
      exact ⟨front, slot, later, rfl, List.mem_singleton.1 member⟩
  | @read counted slot gap later visited taken apart onward ih =>
      rw [List.length_cons, List.length_append] at enough
      obtain ⟨rounds, rfl⟩ : ∃ rounds, fuel = rounds + 1 := ⟨fuel - 1, by omega⟩
      have split : front ++ slot :: (gap ++ later) = (front ++ slot :: gap) ++ later := by
        rw [List.append_assoc, List.cons_append]
      have place : totalSize (front ++ slot :: gap) = totalSize front + (counted + slot.size) := by
        rw [total_size_append, total_size_cons, apart]
        omega
      obtain ⟨reads, later, headers⟩ := ih (split ▸ stores) (by omega) rounds (by omega)
      rw [place] at later
      rw [look_at_message stores rounds behind, if_pos taken, later]
      refine ⟨_, congrArg (fun total => Except.ok (total, _)) ?_, ?_⟩
      · rw [total_size_cons]
        omega
      · intro addr member
        rcases List.mem_cons.1 member with rfl | inside
        · exact ⟨front, slot, _, rfl, rfl⟩
        · exact split ▸ headers addr inside

theorem first_look {fuel cleaned seen addr total : Nat} {reads : List Nat}
    (completed : cleanupReads mailbox fuel cleaned seen addr = .ok (total, reads)) : addr ∈ reads := by
  cases fuel with
  | zero => cases completed
  | succ fuel =>
      rw [cleanupReads] at completed
      obtain ⟨header, _, completed⟩ := Trap.bind_eq_ok.1 completed
      split_ifs at completed with goesOn
      · obtain ⟨⟨_, later⟩, _, same⟩ := Trap.bind_eq_ok.1 completed
        cases same
        exact List.mem_cons_self
      · cases completed
        exact List.mem_singleton_self addr

/-- Of two places in one list, the one that lies further is behind the other's message. -/
theorem split_behind {front back other later : List Slot} {slot next : Slot} {counted : Nat}
    (same : front ++ slot :: back = other ++ next :: later)
    (further : totalSize other = totalSize front + (counted + slot.size)) :
    ∃ gap, other = front ++ slot :: gap ∧ back = gap ++ next :: later ∧ totalSize gap = counted := by
  have positive := size_positive slot
  rcases List.append_eq_append_iff.1 same with ⟨gap, isOther, joined⟩ | ⟨gap, isFront, _⟩
  · rw [isOther, total_size_append] at further
    cases gap with
    | nil =>
        rw [total_size_nil] at further
        omega
    | cons first gap =>
        obtain ⟨rfl, isBack⟩ := List.cons.inj joined
        rw [total_size_cons] at further
        exact ⟨gap, isOther, isBack, by omega⟩
  · rw [isFront, total_size_append] at further
    omega

/-- A clean-up whose looks are all at messages counts the read ones among them. -/
theorem looks_of_reads {fuel counted total : Nat} {front back : List Slot} {slot : Slot} {reads : List Nat}
    (stores : Stores mailbox (front ++ slot :: back)) (behind : counted ≤ totalSize front)
    (completed : cleanupReads mailbox fuel counted (totalSize front) (mailbox.head + totalSize front) =
      .ok (total, reads))
    (headers : ∀ addr ∈ reads, HeaderAt mailbox (front ++ slot :: back) addr) :
    ∃ visited, Looks counted (slot :: back) visited ∧ total = counted + totalSize visited := by
  induction fuel generalizing counted front slot back reads with
  | zero => cases completed
  | succ fuel ih =>
      rw [look_at_message stores fuel behind] at completed
      split_ifs at completed with taken
      · obtain ⟨⟨cleaned, others⟩, onward, same⟩ := Trap.bind_eq_ok.1 completed
        cases same
        obtain ⟨other, next, later, split, place⟩ := headers _ (List.mem_cons_of_mem _ (first_look onward))
        have further : totalSize other = totalSize front + (counted + slot.size) := by omega
        obtain ⟨gap, rfl, rfl, apart⟩ := split_behind split further
        rw [split] at stores headers
        rw [← further] at onward
        obtain ⟨visited, looks, isTotal⟩ := ih stores (by omega) onward
          fun addr member => headers addr (List.mem_cons_of_mem _ member)
        refine ⟨slot :: visited, .read taken apart looks, ?_⟩
        rw [total_size_cons, isTotal]
        omega
      · cases completed
        exact ⟨[], .unread (Bool.eq_false_iff.2 taken), rfl⟩

/-- Behind an unread message at the head nothing is looked at. -/
theorem looks_right_of_unread {first : Slot} {later : List Slot} (unread : first.taken = false) :
    LooksRight (first :: later) := by
  refine ⟨[], .unread unread, ?_⟩
  rw [List.takeWhile_cons, unread]
  rfl

/-- A read message at the head leads to the one behind it. -/
theorem looks_right_of_one {first second : Slot} {later : List Slot} (taken : first.taken = true)
    (unread : second.taken = false) : LooksRight (first :: second :: later) := by
  have looks : Looks 0 (first :: ([] ++ second :: later)) [first] := .read taken rfl (.unread unread)
  refine ⟨[first], looks, ?_⟩
  rw [List.takeWhile_cons, taken, List.takeWhile_cons, unread]
  rfl

end Both

section Reclaims

variable {mailbox : Mailbox} {slots : List Slot}

/-- For every well-formed mailbox, `message_cleanup` returns the bytes of the read messages at the
head and looks at headers of stored messages only, exactly if the looks happen to be right. -/
theorem reclaims_prefix_iff (stores : Stores mailbox slots) : ReclaimsPrefix mailbox slots ↔ LooksRight slots := by
  constructor
  · rintro ⟨_, returned, cleaned, reads, completed, headers⟩
    cases slots with
    | nil =>
        obtain ⟨front, slot, back, split, _⟩ := headers _ (first_look completed)
        exact absurd split.symm (List.append_ne_nil_of_right_ne_nil _ (List.cons_ne_nil _ _))
    | cons first later =>
        obtain ⟨visited, looks, total⟩ := @looks_of_reads mailbox roundLimit 0 _ [] later first _ stores le_rfl
          completed headers
        rw [messageCleanup, cleanup_reads_result, completed] at returned
        have same : cleaned = totalSize ((first :: later).takeWhile Slot.taken) := Except.ok.inj returned
        exact ⟨visited, looks, by omega⟩
  · rintro ⟨visited, looks, same⟩
    have used := stores_used stores
    have fits := stores.ring.fits
    have few := slots_length_le slots
    rw [image_length] at fits
    have enough : slots.length ≤ roundLimit := by
      rw [roundLimit]
      omega
    obtain ⟨reads, completed, headers⟩ := @reads_of_looks mailbox 0 slots visited looks [] stores le_rfl roundLimit enough
    rw [Nat.zero_add, same] at completed
    refine ⟨?_, ?_, _, reads, completed, headers⟩
    · have split := congrArg totalSize (List.takeWhile_append_dropWhile (p := Slot.taken) (l := slots))
      rw [total_size_append] at split
      omega
    · rw [messageCleanup, cleanup_reads_result]
      change Except.map Prod.fst (cleanupReads mailbox roundLimit 0 (totalSize []) (mailbox.head + totalSize [])) = _
      rw [completed]
      rfl

theorem filled_stores {slots : List Slot} (short : totalSize slots ≤ 4096) (sized : ∀ slot ∈ slots, slot.Sized)
    (sender : ∀ slot ∈ slots, slot.taken = false → slot.message.senderPid ≠ 0) :
    Stores (filled 0 (image slots)) slots :=
  ⟨filled_ring (by decide) (image_length slots ▸ short), sized, sender⟩

/-- One read message is reclaimed, and the unread one behind it is looked at. -/
theorem reclaims_one_message :
    ReclaimsPrefix (filled 0 (image [⟨⟨7, 8, [1, 2]⟩, true⟩, ⟨⟨7, 8, [3]⟩, false⟩]))
      [⟨⟨7, 8, [1, 2]⟩, true⟩, ⟨⟨7, 8, [3]⟩, false⟩] :=
  (reclaims_prefix_iff (filled_stores (by decide) (by decide) (by decide))).2
    (looks_right_of_one rfl rfl)

/-- Of three read messages the clean-up reclaims two: it looks for the third behind the bytes in use. -/
theorem reclaims_two_of_three :
    ¬ ∀ mailbox slots, Stores mailbox slots → ReclaimsPrefix mailbox slots := by
  intro always
  have reclaimed := always _ [⟨⟨7, 8, []⟩, true⟩, ⟨⟨7, 8, []⟩, true⟩, ⟨⟨7, 8, []⟩, true⟩]
    (filled_stores (by decide) (by decide) (by decide))
  have returned : messageCleanup (filled 0 (image [⟨⟨7, 8, []⟩, true⟩, ⟨⟨7, 8, []⟩, true⟩, ⟨⟨7, 8, []⟩, true⟩])) = .ok 18 := by
    decide +kernel
  have other := returned.symm.trans reclaimed.2.1
  revert other
  decide

end Reclaims

end ParadiseOS.MailboxCleanup
