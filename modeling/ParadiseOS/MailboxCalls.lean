import ParadiseOS.MailboxBooks

/-!
# Single calls on a mailbox

On every mailbox that holds whole messages, wherever its head stands, a send appends
one message or changes nothing, and a read finds the first message that its pattern
accepts. The counter of unread bytes is not one of the things a send keeps.
-/

namespace ParadiseOS.MailboxCalls

open MachineWord MailboxModel MailboxRing MailboxRuns MailboxBooks StepRun

set_option autoImplicit false

/-- The bytes in use are those of the messages, tombstones among them, from the head on. -/
structure Holds (mailbox : Mailbox) (slots : List Slot) : Prop where
  ring : Ring mailbox (image slots)
  sized : ∀ slot ∈ slots, slot.Sized

section Sending

variable {mailbox : Mailbox} {slots : List Slot} {senderPid readerPid dataSize : Nat} {data : List UInt8}

theorem holds_append {next : Mailbox} {slot : Slot} (holds : Holds mailbox slots) (sized : slot.Sized)
    (grown : Ring next (image (slots ++ [slot]))) : Holds next (slots ++ [slot]) := by
  refine ⟨grown, ?_⟩
  intro other member
  rcases List.mem_append.1 member with old | new
  · exact holds.sized other old
  · exact List.mem_singleton.1 new ▸ sized

/-- The code copies as many bytes of the payload as the size names. -/
theorem send_takes (mailbox : Mailbox) (senderPid readerPid dataSize : Nat) (data : List UInt8) :
    mailboxSendMessage mailbox senderPid readerPid dataSize data =
      mailboxSendMessage mailbox senderPid readerPid dataSize (data.take dataSize) := by
  rw [mailboxSendMessage, mailboxSendMessage, List.take_take, Nat.min_self]

/-- A send refuses exactly what does not fit, and then nothing changes; what it accepts stands
behind the other messages, whose bytes are the same as before. -/
theorem mailbox_send_appends (mailbox : Mailbox) (slots : List Slot)
    (senderPid readerPid dataSize : Nat) (data : List UInt8) (holds : Holds mailbox slots)
    (senderWord : senderPid < 4294967296) (readerWord : readerPid < 4294967296)
    (small : dataSize ≤ 255) (enough : dataSize ≤ data.length) :
    ((mailboxSendMessage mailbox senderPid readerPid dataSize data).1 = false ↔
        mailbox.usedSize + 9 + dataSize > mailbox.capacity) ∧
      ((mailboxSendMessage mailbox senderPid readerPid dataSize data).1 = false →
        (mailboxSendMessage mailbox senderPid readerPid dataSize data).2 = mailbox) ∧
      ((mailboxSendMessage mailbox senderPid readerPid dataSize data).1 = true →
        Holds (mailboxSendMessage mailbox senderPid readerPid dataSize data).2
            (slots ++ [⟨⟨senderPid, readerPid, data.take dataSize⟩, false⟩]) ∧
          ∀ index < mailbox.usedSize,
            storedByte (mailboxSendMessage mailbox senderPid readerPid dataSize data).2
              (mailbox.head + index) = storedByte mailbox (mailbox.head + index)) := by
  have used := holds.ring.used
  have capacity := holds.ring.capacity
  rw [image_length] at used
  have length : (data.take dataSize).length = dataSize := by
    rw [List.length_take]
    omega
  rw [send_takes]
  by_cases full : mailbox.usedSize + 9 + dataSize > mailbox.capacity
  · have refused : mailboxSendMessage mailbox senderPid readerPid dataSize (data.take dataSize) =
        (false, mailbox) := if_pos full
    rw [refused]
    exact ⟨iff_of_true rfl full, fun _ => rfl, fun accepted => absurd accepted Bool.false_ne_true⟩
  · obtain ⟨next, sent, samePage, grown⟩ := send_ring holds.ring (by omega)
      (rfl : (⟨⟨senderPid, readerPid, data.take dataSize⟩, false⟩ : Slot) = _)
    rw [length] at sent
    rw [sent]
    refine ⟨iff_of_false (Bool.false_ne_true ∘ Eq.symm) full, fun refused => absurd refused.symm Bool.false_ne_true,
      fun _ => ?_⟩
    have sized : Slot.Sized ⟨⟨senderPid, readerPid, data.take dataSize⟩, false⟩ :=
      ⟨senderWord, readerWord, by change (data.take dataSize).length ≤ 255; omega⟩
    refine ⟨holds_append holds sized grown, ?_⟩
    intro index inside
    have sameHead : next.head = mailbox.head := by
      have stored := send_stores holds.ring (by omega)
        (rfl : (⟨⟨senderPid, readerPid, data.take dataSize⟩, false⟩ : Slot) = _)
      rw [length, sent] at stored
      rw [congrArg (fun result => result.2.head) stored]
      exact (store_bytes_fields mailbox mailbox.tail _).head
    have whole : Ring next (image slots ++ image [⟨⟨senderPid, readerPid, data.take dataSize⟩, false⟩]) :=
      image_append _ _ ▸ grown
    have inside : index < (image slots).length := by
      rw [image_length]
      omega
    have after := stored_byte_ring whole (show index < _ by rw [List.length_append]; omega)
    rw [List.getElem_append_left inside, sameHead] at after
    rw [after, stored_byte_ring holds.ring inside]

theorem filled_holds {offset : Nat} (onPage : offset < 4096) (fits : totalSize slots ≤ 4096)
    (sized : ∀ slot ∈ slots, slot.Sized) : Holds (filled offset (image slots)) slots :=
  ⟨filled_ring onPage (image_length slots ▸ fits), sized⟩

/-- A read message and an unread one near the end of the page. -/
def nearEnd : List Slot := [⟨⟨3, 9, [5]⟩, true⟩, ⟨⟨4, 9, []⟩, false⟩]

/-- A message is sent that begins on the first page and ends on the copy page. -/
theorem mailbox_send_appends_first :
    Holds (mailboxSendMessage (filled 4070 (image nearEnd)) 1 9 2 [7, 8, 9]).2
        (nearEnd ++ [⟨⟨1, 9, [7, 8]⟩, false⟩]) ∧
      ∀ index < 19,
        storedByte (mailboxSendMessage (filled 4070 (image nearEnd)) 1 9 2 [7, 8, 9]).2
          (0x40FFE6 + index) = storedByte (filled 4070 (image nearEnd)) (0x40FFE6 + index) :=
  (mailbox_send_appends (filled 4070 (image nearEnd)) nearEnd 1 9 2 [7, 8, 9]
    (filled_holds (by decide) (by decide) (by decide)) (by decide) (by decide) (by decide) (by decide)).2.2 rfl

end Sending

section Cleanup

variable {mailbox : Mailbox}

/-- The places at which the clean-up looks: so many bytes behind the head, with so many bytes
counted. Two zero pids are a read message to it, whatever they are a part of. -/
inductive LooksAt (mailbox : Mailbox) : Nat → Nat → Prop
  | head : LooksAt mailbox 0 0
  | next {seen cleaned dataSize : Nat} (looks : LooksAt mailbox seen cleaned) (inUse : seen < mailbox.usedSize)
      (blank : storedHeader mailbox (u32 (mailbox.head + seen)) = ⟨0, 0, dataSize⟩) :
      LooksAt mailbox (seen + (cleaned + (9 + dataSize))) (cleaned + (9 + dataSize))

/-- No look goes beyond the copy page. -/
def LooksStay (mailbox : Mailbox) : Prop :=
  ∀ seen cleaned, LooksAt mailbox seen cleaned →
    u32 (mailbox.head + seen) + messageHeaderSize ≤ mailbox.copyPage + 4096

/-- The last look lies behind the bytes in use by what was counted before it and one message more. -/
theorem looks_at_bounds {seen cleaned : Nat} (looks : LooksAt mailbox seen cleaned) :
    cleaned ≤ seen ∧ seen ≤ 2 * mailbox.usedSize + 262 := by
  induction looks with
  | head => exact ⟨le_rfl, Nat.zero_le _⟩
  | @next seen cleaned dataSize looks inUse blank ih =>
      have data := header_data_lt mailbox (u32 (mailbox.head + seen))
      rw [blank] at data
      change dataSize < 256 at data
      omega

theorem looks_at_next {seen cleaned : Nat} (looks : LooksAt mailbox seen cleaned) (inUse : seen < mailbox.usedSize)
    (sender : (storedHeader mailbox (u32 (mailbox.head + seen))).senderPid = 0)
    (reader : (storedHeader mailbox (u32 (mailbox.head + seen))).readerPid = 0) :
    LooksAt mailbox
      (seen + (cleaned + (9 + (storedHeader mailbox (u32 (mailbox.head + seen))).dataSize)))
      (cleaned + (9 + (storedHeader mailbox (u32 (mailbox.head + seen))).dataSize)) := by
  have blank : storedHeader mailbox (u32 (mailbox.head + seen)) =
      ⟨(storedHeader mailbox (u32 (mailbox.head + seen))).senderPid,
        (storedHeader mailbox (u32 (mailbox.head + seen))).readerPid,
        (storedHeader mailbox (u32 (mailbox.head + seen))).dataSize⟩ := rfl
  rw [sender, reader] at blank
  exact .next looks inUse blank

/-- At the beginning of a read message the clean-up counts it, and looks next as far behind it as it has
counted. -/
theorem looks_at_read {slots : List Slot} {sizes : List Nat} (ring : Ring mailbox (image slots))
    (sized : ∀ slot ∈ slots, slot.Sized) (cleared : ∀ slot ∈ slots, slot.Cleared)
    (measured : slots.map Slot.size = sizes) {index seen cleaned counted : Nat} (inside : index < sizes.length)
    (place : (sizes.take index).sum = seen) (counts : cleaned + sizes[index] = counted)
    (looks : LooksAt mailbox seen cleaned) : LooksAt mailbox (seen + counted) counted := by
  subst measured
  have listed : index < slots.length := by rwa [List.length_map] at inside
  have member : slots[index] ∈ slots := List.getElem_mem listed
  have split : slots.take index ++ slots[index] :: slots.drop (index + 1) = slots := by
    rw [← List.drop_eq_getElem_cons listed, List.take_append_drop]
  have parts : Ring mailbox (image (slots.take index) ++ (encode slots[index] ++ image (slots.drop (index + 1)))) := by
    rw [← image_cons, ← image_append, split]
    exact ring
  have before : totalSize (slots.take index) = seen := by rw [totalSize, List.map_take, place]
  have header := header_stored (ring_pages ring) (header_at parts (sized _ member) _ rfl).1
  rw [image_length, before, (cleared _ member).1, (cleared _ member).2] at header
  have total := congrArg totalSize split
  rw [total_size_append, total_size_cons, before, Slot.size] at total
  have used := ring.used
  have fits := ring.fits
  have high := ring.headHigh
  have room := ring.addressable
  rw [image_length] at used fits
  have here : u32 (mailbox.head + seen) = mailbox.head + seen := u32_of_lt (by omega)
  rw [← here] at header
  rw [List.getElem_map] at counts
  subst counts
  exact .next looks (by omega) header

/-- One round of the loop, at a place at which it looks: its counters do not wrap. -/
theorem cleanup_round (addressable : mailbox.copyPage + 4096 < 4294967296) (bounded : mailbox.usedSize ≤ 4096)
    {seen cleaned : Nat} (looks : LooksAt mailbox seen cleaned) (fuel : Nat) {header : MailboxMessageHeader}
    (stored : storedHeader mailbox (u32 (mailbox.head + seen)) = header) :
    cleanupLoop mailbox (fuel + 1) cleaned seen (u32 (mailbox.head + seen)) =
      if u32 (mailbox.head + seen) + messageHeaderSize ≤ mailbox.copyPage + 4096 then
        if header.senderPid = 0 ∧ header.readerPid = 0 ∧ seen < mailbox.usedSize then
          cleanupLoop mailbox fuel (cleaned + (9 + header.dataSize)) (seen + (cleaned + (9 + header.dataSize)))
            (u32 (mailbox.head + (seen + (cleaned + (9 + header.dataSize)))))
        else .ok cleaned
      else .error .pageFault := by
  have data := header_data_lt mailbox (u32 (mailbox.head + seen))
  have bounds := looks_at_bounds looks
  rw [stored] at data
  have counted : u16 (cleaned + (messageHeaderSize + header.dataSize)) = cleaned + (9 + header.dataSize) := by
    rw [u16, messageHeaderSize]
    omega
  rw [cleanupLoop, header_eq mailbox _ addressable, stored]
  split_ifs with inside goesOn
  · have passed : u16 (seen + (cleaned + (9 + header.dataSize))) = seen + (cleaned + (9 + header.dataSize)) := by
      rw [u16]
      omega
    have place : u32 (u32 (mailbox.head + seen) + (cleaned + (9 + header.dataSize))) =
        u32 (mailbox.head + (seen + (cleaned + (9 + header.dataSize)))) := by
      rw [u32, u32, u32, Nat.mod_add_mod, Nat.add_assoc]
    rw [Trap.ok_bind, if_pos goesOn]
    simp only [counted, passed, place]
  · rw [Trap.ok_bind, if_neg goesOn]
  · rfl

/-- From any of its looks on the clean-up ends, with a count or with a page fault. -/
theorem cleanup_ends (addressable : mailbox.copyPage + 4096 < 4294967296) (bounded : mailbox.usedSize ≤ 4096)
    {seen cleaned : Nat} (looks : LooksAt mailbox seen cleaned) (fuel : Nat) (enough : 4096 - seen < fuel) :
    (∃ total, cleanupLoop mailbox fuel cleaned seen (u32 (mailbox.head + seen)) = .ok total) ∨
      cleanupLoop mailbox fuel cleaned seen (u32 (mailbox.head + seen)) = .error .pageFault ∧
        ¬ LooksStay mailbox := by
  induction fuel generalizing seen cleaned with
  | zero => omega
  | succ fuel ih =>
      rw [cleanup_round addressable bounded looks fuel rfl]
      split_ifs with inside goesOn
      · exact ih (looks_at_next looks goesOn.2.2 goesOn.1 goesOn.2.1) (by omega)
      · exact .inl ⟨cleaned, rfl⟩
      · exact .inr ⟨rfl, fun stay => inside (stay seen cleaned looks)⟩

/-- A clean-up that returns comes by all its looks, so none of them faults. -/
theorem stays_of_returned (addressable : mailbox.copyPage + 4096 < 4294967296)
    (bounded : mailbox.usedSize ≤ 4096) (below : mailbox.head < 4294967296) {total : Nat}
    (returned : messageCleanup mailbox = .ok total) : LooksStay mailbox := by
  have passes : ∀ {seen cleaned : Nat}, LooksAt mailbox seen cleaned →
      ∃ fuel, cleanupLoop mailbox (fuel + 1) cleaned seen (u32 (mailbox.head + seen)) = .ok total := by
    intro seen cleaned looks
    induction looks with
    | head =>
        rw [messageCleanup] at returned
        rw [Nat.add_zero, u32_of_lt below]
        exact ⟨65535, returned⟩
    | @next seen cleaned dataSize looks inUse blank ih =>
        obtain ⟨fuel, onward⟩ := ih
        rw [cleanup_round addressable bounded looks fuel blank] at onward
        split_ifs at onward with inside goesOn
        · cases fuel with
          | zero => cases onward
          | succ fuel => exact ⟨fuel, onward⟩
        · exact absurd ⟨rfl, rfl, inUse⟩ goesOn
  intro seen cleaned looks
  obtain ⟨fuel, onward⟩ := passes looks
  by_contra beyond
  rw [cleanup_round addressable bounded looks fuel rfl, if_neg beyond] at onward
  cases onward

/-- The clean-up of a mailbox returns exactly if none of its looks goes beyond the copy page; otherwise
the kernel takes a page fault. -/
theorem cleanup_returns_iff (addressable : mailbox.copyPage + 4096 < 4294967296)
    (bounded : mailbox.usedSize ≤ 4096) (below : mailbox.head < 4294967296) :
    (∃ total, messageCleanup mailbox = .ok total) ↔ LooksStay mailbox := by
  constructor
  · rintro ⟨total, returned⟩
    exact stays_of_returned addressable bounded below returned
  · intro stay
    have ends := cleanup_ends addressable bounded .head roundLimit (by rw [roundLimit]; omega)
    rw [Nat.add_zero, u32_of_lt below] at ends
    rcases ends with returned | ⟨_, strays⟩
    · exact returned
    · exact absurd stay strays

/-- No look lies further behind the head than twice the bytes in use and one message. -/
theorem looks_stay_of_room (addressable : mailbox.copyPage + 4096 < 4294967296)
    (room : mailbox.head + 2 * mailbox.usedSize + 271 ≤ mailbox.copyPage + 4096) : LooksStay mailbox := by
  intro seen cleaned looks
  have bounds := looks_at_bounds looks
  rw [u32_of_lt (by omega), messageHeaderSize]
  omega

end Cleanup

section Reading

variable {mailbox : Mailbox} {slots : List Slot} {senderPid readerPid : Nat}

/-- `match_pid` accepts both pids of the stored header. -/
def Accepted (slot : Slot) (senderPid readerPid : Nat) : Prop :=
  matchPid (pidField slot slot.message.senderPid) senderPid = true ∧
    matchPid (pidField slot slot.message.readerPid) readerPid = true

instance (slot : Slot) (senderPid readerPid : Nat) : Decidable (Accepted slot senderPid readerPid) :=
  inferInstanceAs (Decidable (_ ∧ _))

/-- The addresses from which the search loop loads, and those of the message it stops at. -/
def searchReads (mailbox : Mailbox) (senderPid readerPid : Nat) : Nat → Nat → Nat → List Nat
  | 0, _, _ => []
  | fuel + 1, seenSize, currentMessage =>
      if seenSize < mailbox.usedSize then
        let header := storedHeader mailbox currentMessage
        let totalMessageSize := u16 (messageHeaderSize + header.dataSize)
        (List.range messageHeaderSize).map (fun i => u32 (currentMessage + i)) ++
          if matchPid header.senderPid senderPid = true ∧ matchPid header.readerPid readerPid = true then
            (List.range header.dataSize).map fun i => u32 (currentMessage + messageHeaderSize + i)
          else
            searchReads mailbox senderPid readerPid fuel (u16 (seenSize + totalMessageSize))
              (u32 (currentMessage + totalMessageSize))
      else []

/-- Addresses of one message are addresses of bytes in use. -/
theorem message_reads_inside {passed rest : List Slot} {slot : Slot} {count addr : Nat} (low : Nat)
    (ring : Ring mailbox (image (passed ++ slot :: rest))) (inside : low + count ≤ slot.size)
    (member : addr ∈ (List.range count).map fun i => u32 (mailbox.head + totalSize passed + low + i)) :
    ∃ index < mailbox.usedSize, addr = mailbox.head + index := by
  have used := ring.used
  have fits := ring.fits
  have high := ring.headHigh
  have room := ring.addressable
  rw [image_length, total_size_append, total_size_cons] at used fits
  obtain ⟨i, small, isAddr⟩ := List.mem_map.1 member
  rw [List.mem_range] at small
  refine ⟨totalSize passed + low + i, by omega, ?_⟩
  rw [← isAddr, u32_of_lt (by omega)]
  omega

/-- The search stays among the bytes in use, one message after the other. -/
theorem search_reads_inside (senderPid readerPid : Nat) {passed rest : List Slot} {fuel : Nat}
    (ring : Ring mailbox (image (passed ++ rest))) (sized : ∀ slot ∈ rest, slot.Sized) :
    ∀ addr ∈ searchReads mailbox senderPid readerPid fuel (totalSize passed)
        (mailbox.head + totalSize passed),
      ∃ index < mailbox.usedSize, addr = mailbox.head + index := by
  induction rest generalizing passed fuel with
  | nil =>
      have used := ring.used
      rw [List.append_nil, image_length] at used
      intro addr member
      cases fuel with
      | zero => cases member
      | succ fuel =>
          rw [searchReads, if_neg (by omega)] at member
          cases member
  | cons slot rest ih =>
      have used := ring.used
      have fits := ring.fits
      have high := ring.headHigh
      have room := ring.addressable
      have formed := sized slot List.mem_cons_self
      have short := formed.short
      have size : slot.size = 9 + slot.message.data.length := rfl
      rw [image_length, total_size_append, total_size_cons] at used fits
      have atSlot := ring
      rw [image_append, image_cons] at atSlot
      have header := header_stored (ring_pages ring)
        (header_at atSlot formed (mailbox.head + totalSize passed) (by rw [image_length])).1
      intro addr member
      cases fuel with
      | zero => cases member
      | succ fuel =>
          rw [searchReads, if_pos (by omega)] at member
          simp only [header] at member
          rcases List.mem_append.1 member with ofHeader | later
          · exact message_reads_inside 0 ring (by rw [messageHeaderSize]; omega) ofHeader
          · split_ifs at later with accepted
            · exact message_reads_inside messageHeaderSize ring
                (by rw [messageHeaderSize]; omega) later
            · have onward := ring
              rw [List.append_cons] at onward
              have step : u16 (messageHeaderSize + slot.message.data.length) = slot.size := by
                rw [u16, messageHeaderSize]
                omega
              have total : totalSize (passed ++ [slot]) = totalSize passed + slot.size := by
                rw [total_size_append, total_size_cons, total_size_nil, Nat.add_zero]
              have seen : u16 (totalSize passed + slot.size) = totalSize (passed ++ [slot]) := by
                rw [total, u16]
                omega
              have place : u32 (mailbox.head + totalSize passed + slot.size) =
                  mailbox.head + totalSize (passed ++ [slot]) := by
                rw [total, u32_of_lt (by omega)]
                omega
              rw [step, seen, place] at later
              exact ih onward (fun other inside => sized other (List.mem_cons_of_mem _ inside)) addr later

theorem accepted_iff (slot : Slot) (senderPid readerPid : Nat) :
    Accepted slot senderPid readerPid ↔ slot.Matches senderPid readerPid :=
  header_matches slot senderPid readerPid

/-- The counter of unread bytes has no part in a clean-up. -/
theorem cleanup_unread (mailbox : Mailbox) (unreadSize fuel cleaned seen addr : Nat) :
    cleanupLoop { mailbox with unreadSize := unreadSize } fuel cleaned seen addr =
      cleanupLoop mailbox fuel cleaned seen addr := by
  induction fuel generalizing cleaned seen addr with
  | zero => rfl
  | succ fuel ih =>
      have loaded : bytesToMessageHeader { mailbox with unreadSize := unreadSize } addr =
          bytesToMessageHeader mailbox addr := rfl
      rw [cleanupLoop, cleanupLoop, loaded]
      simp only [ih]

theorem message_cleanup_unread (mailbox : Mailbox) (unreadSize : Nat) :
    messageCleanup { mailbox with unreadSize := unreadSize } = messageCleanup mailbox := by
  rw [messageCleanup, messageCleanup]
  exact cleanup_unread mailbox unreadSize roundLimit 0 0 mailbox.head

/-- A read with its outcome: the first accepted message with its data, if the clean-up behind it
returns, or nothing at all. -/
theorem read_cases (holds : Holds mailbox slots) (senderPid readerPid : Nat) (buffer : MailboxMessage) :
    (∃ earlier slot later, ∃ next : Nat → Mailbox, slots = earlier ++ slot :: later ∧
        Accepted slot senderPid readerPid ∧
        (∀ other ∈ earlier, ¬ Accepted other senderPid readerPid) ∧
        mailboxReadMessage mailbox senderPid readerPid buffer =
          (messageCleanup (zeroed mailbox slots senderPid readerPid)).map fun cleaned =>
            (1, ⟨⟨slot.message.senderPid, slot.message.readerPid, slot.message.data.length⟩,
              slot.message.data ++ buffer.data.drop slot.message.data.length⟩, next cleaned)) ∨
      ((∀ slot ∈ slots, ¬ Accepted slot senderPid readerPid) ∧
        ∃ message, mailboxReadMessage mailbox senderPid readerPid buffer = .ok (0, message, mailbox)) := by
  obtain ⟨ring, sized⟩ := holds
  have used := ring.used
  have fits := ring.fits
  have count := slots_length_le slots
  rw [image_length] at used fits
  have enough : slots.length < roundLimit := by
    rw [roundLimit]
    omega
  have whole : Ring mailbox (image ([] ++ slots)) := ring
  obtain ⟨found, searched, outcome⟩ := search_loop_ok senderPid readerPid
    ⟨0, mailbox.head, 0, buffer.header⟩ whole sized enough rfl rfl
  rcases outcome with ⟨nothing, total⟩ | ⟨earlier, slot, later, split, matched, taken, seen, current, unmatched⟩
  · right
    refine ⟨?_, ?_⟩
    · rcases take_first_split slots with
        ⟨_, unmatched⟩ | ⟨earlier, slot, later, _, _, _, taken⟩
      · exact fun slot member => mt (accepted_iff slot _ _).1 (unmatched slot member)
      · rw [nothing] at taken
        cases taken
    · rw [mailboxReadMessage, searched, Trap.ok_bind, total]
      exact ⟨_, if_pos le_rfl⟩
  · left
    have formed := sized slot (by rw [split]; simp)
    have positive : 9 ≤ slot.size := Nat.le_add_right _ _
    rw [List.nil_append] at seen current
    rw [split] at ring used
    rw [total_size_append, total_size_cons] at used
    obtain ⟨left, isLeft⟩ : ∃ left : Mailbox, { zeroed mailbox slots senderPid readerPid with
        unreadSize := u16 (mailbox.unreadSize + 65536 - found.totalMessageSize) } = left := ⟨_, rfl⟩
    have stored : storeBytes { mailbox with
          unreadSize := u16 (mailbox.unreadSize + 65536 - found.totalMessageSize) }
            found.currentMessage (List.replicate 8 0) = left := by
      rw [← isLeft, store_bytes_unread, zeroed, split, before_match matched unmatched, current]
    have cleanup : messageCleanup left = messageCleanup (zeroed mailbox slots senderPid readerPid) := by
      rw [← isLeft]
      exact message_cleanup_unread _ _
    have delivered := message_read { buffer with header := found.header } formed matched.1 ring current
    have returned := read_of_found left searched (by omega) delivered stored
    rw [cleanup] at returned
    exact ⟨earlier, slot, later, _, split, (accepted_iff slot _ _).2 matched,
      fun other member => mt (accepted_iff other _ _).1 (unmatched other member), returned⟩

/-- The first accepted message is one message. -/
theorem first_split_unique {earlier later first last : List Slot} {slot other : Slot}
    (split : slots = earlier ++ slot :: later) (again : slots = first ++ other :: last)
    (accepted : Accepted slot senderPid readerPid) (acceptedAgain : Accepted other senderPid readerPid)
    (none : ∀ before ∈ earlier, ¬ Accepted before senderPid readerPid)
    (noneAgain : ∀ before ∈ first, ¬ Accepted before senderPid readerPid) : slot = other := by
  subst split
  induction earlier generalizing first with
  | nil =>
      cases first with
      | nil => exact (List.cons.inj again).1
      | cons head first =>
          have same := (List.cons.inj again).1
          exact absurd (same ▸ accepted) (noneAgain head List.mem_cons_self)
  | cons head earlier ih =>
      cases first with
      | nil =>
          have same := (List.cons.inj again).1
          exact absurd (same ▸ acceptedAgain) (none head List.mem_cons_self)
      | cons front first =>
          exact ih (fun before member => none before (List.mem_cons_of_mem _ member))
            (fun before member => noneAgain before (List.mem_cons_of_mem _ member))
            (List.cons.inj again).2

/-- A read answers whether a stored message is accepted, delivers the earliest one, and otherwise
leaves the mailbox alone. Its search loads from the bytes in use only. -/
def FindsFirst (mailbox : Mailbox) (slots : List Slot) (senderPid readerPid : Nat)
    (buffer : MailboxMessage) : Prop :=
  ∃ answer message next,
    mailboxReadMessage mailbox senderPid readerPid buffer = .ok (answer, message, next) ∧
    (answer = 1 ↔ ∃ slot ∈ slots, Accepted slot senderPid readerPid) ∧
    (answer = 0 ↔ ∀ slot ∈ slots, ¬ Accepted slot senderPid readerPid) ∧
    (∀ earlier slot later, slots = earlier ++ slot :: later → Accepted slot senderPid readerPid →
      (∀ other ∈ earlier, ¬ Accepted other senderPid readerPid) →
      message.header =
          ⟨slot.message.senderPid, slot.message.readerPid, slot.message.data.length⟩ ∧
        message.data.take message.header.dataSize = slot.message.data) ∧
    (answer = 0 → next = mailbox) ∧
    ∀ addr ∈ searchReads mailbox senderPid readerPid roundLimit 0 mailbox.head,
      ∃ index < mailbox.usedSize, addr = mailbox.head + index

/-- The clean-up of a mailbox whose first match was zeroed returns if no look strays. -/
theorem zeroed_returns_iff (holds : Holds mailbox slots) :
    (∃ total, messageCleanup (zeroed mailbox slots senderPid readerPid) = .ok total) ↔
      LooksStay (zeroed mailbox slots senderPid readerPid) := by
  have fields := store_bytes_fields mailbox
    (mailbox.head + totalSize (slots.takeWhile fun slot => ¬ slot.Matches senderPid readerPid))
    (List.replicate 8 0)
  have room := holds.ring.addressable
  have high := holds.ring.headHigh
  have fits := holds.ring.fits
  apply cleanup_returns_iff
  · rw [zeroed, fields.copyPage]
    exact ring_pages holds.ring
  · rw [zeroed, fields.usedSize, holds.ring.used]
    exact fits
  · rw [zeroed, fields.head]
    omega

/-- With at most 1912 bytes in use no clean-up strays, wherever the head is and whatever was sent. -/
theorem zeroed_stays_of_few (holds : Holds mailbox slots) (few : mailbox.usedSize ≤ 1912) :
    LooksStay (zeroed mailbox slots senderPid readerPid) := by
  have fields := store_bytes_fields mailbox
    (mailbox.head + totalSize (slots.takeWhile fun slot => ¬ slot.Matches senderPid readerPid))
    (List.replicate 8 0)
  have high := holds.ring.headHigh
  have copyPage := holds.ring.copyPage
  apply looks_stay_of_room
  · rw [zeroed, fields.copyPage]
    exact ring_pages holds.ring
  · rw [zeroed, fields.copyPage, fields.head, fields.usedSize]
    omega

/-- For every well-formed mailbox and every pattern, a read finds the first match exactly if nothing
matches or no look of the clean-up goes beyond the copy page, once the first match is zeroed. -/
theorem mailbox_read_first_match_iff (mailbox : Mailbox) (slots : List Slot) (senderPid readerPid : Nat)
    (buffer : MailboxMessage) (holds : Holds mailbox slots) :
    FindsFirst mailbox slots senderPid readerPid buffer ↔
      (∀ slot ∈ slots, ¬ Accepted slot senderPid readerPid) ∨
        LooksStay (zeroed mailbox slots senderPid readerPid) := by
  have whole : Ring mailbox (image ([] ++ slots)) := holds.ring
  have inside : ∀ addr ∈ searchReads mailbox senderPid readerPid roundLimit 0 mailbox.head, _ :=
    search_reads_inside senderPid readerPid whole holds.sized
  rcases read_cases holds senderPid readerPid buffer with
    ⟨earlier, slot, later, next, split, accepted, none, completed⟩ | ⟨none, message, completed⟩
  · have member : slot ∈ slots := by
      rw [split]
      exact List.mem_append_right _ List.mem_cons_self
    rw [← zeroed_returns_iff holds, or_iff_right fun all => all slot member accepted]
    constructor
    · rintro ⟨answer, message, final, returned, _⟩
      rw [completed] at returned
      cases cleanup : messageCleanup (zeroed mailbox slots senderPid readerPid) with
      | error trap =>
          rw [cleanup] at returned
          cases returned
      | ok total => exact ⟨total, rfl⟩
    · rintro ⟨total, cleanup⟩
      rw [cleanup] at completed
      refine ⟨1, _, next total, completed, iff_of_true rfl ⟨slot, member, accepted⟩,
        iff_of_false Nat.one_ne_zero fun all => all slot member accepted, ?_,
        fun zero => absurd zero Nat.one_ne_zero, inside⟩
      intro first other last splitAgain acceptedAgain noneAgain
      have same := first_split_unique split splitAgain accepted acceptedAgain none noneAgain
      rw [← same]
      exact ⟨rfl, List.take_left⟩
  · refine iff_of_true ⟨0, message, mailbox, completed, iff_of_false Nat.zero_ne_one ?_, iff_of_true rfl none, ?_,
      fun _ => rfl, inside⟩ (.inl none)
    · rintro ⟨slot, member, accepted⟩
      exact none slot member accepted
    · intro first other last split accepted _
      exact absurd accepted (none other (by rw [split]; exact List.mem_append_right _ List.mem_cons_self))

/-- A read message, one that nobody asked for and two that match, around the end of the page. -/
def aroundEnd : List Slot :=
  [⟨⟨3, 9, [5]⟩, true⟩, ⟨⟨4, 8, [1, 2, 3]⟩, false⟩, ⟨⟨2, 9, [7]⟩, false⟩, ⟨⟨1, 9, [6]⟩, false⟩]

theorem mailbox_read_first_match_around_end :
    FindsFirst (filled 4070 (image aroundEnd)) aroundEnd 0 9 ⟨⟨0, 0, 0⟩, []⟩ := by
  have holds : Holds (filled 4070 (image aroundEnd)) aroundEnd := filled_holds (by decide) (by decide) (by decide)
  have few : (filled 4070 (image aroundEnd)).usedSize ≤ 1912 := by decide
  exact (mailbox_read_first_match_iff _ _ 0 9 ⟨⟨0, 0, 0⟩, []⟩ holds).2 (.inr (zeroed_stays_of_few holds few))

/-- An unread message and fifteen read ones that fill the page behind it. -/
def fullPage : List Slot :=
  ⟨⟨1, 9, List.replicate 255 7⟩, false⟩ :: (List.replicate 14 ⟨⟨2, 9, List.replicate 255 7⟩, true⟩ ++
    [⟨⟨2, 9, List.replicate 127 7⟩, true⟩])

theorem full_page_sizes : fullPage.map Slot.size = 264 :: (List.replicate 14 264 ++ [136]) := by
  simp only [fullPage, Slot.size, List.map_cons, List.map_append, List.map_replicate, List.map_nil,
    List.length_replicate]

theorem full_page_holds : Holds (filled 2904 (image fullPage)) fullPage := by
  refine filled_holds (by decide) ?_ ?_
  · rw [totalSize, full_page_sizes]
    decide
  · intro slot member
    simp only [fullPage, List.mem_cons, List.mem_append, List.mem_replicate, List.not_mem_nil, or_false] at member
    rcases member with rfl | ⟨_, rfl⟩ | rfl
    all_goals exact ⟨by decide, by decide, List.length_replicate.trans_le (by decide)⟩

/-- The same page once the first message is read as well. -/
def fullPageRead : List Slot := fullPage.map fun slot => { slot with taken := true }

/-- Once the first of them is zeroed, the clean-up passes six messages and looks for the next header behind
the copy page. -/
theorem full_page_strays : ¬ LooksStay (zeroed (filled 2904 (image fullPage)) fullPage 1 9) := by
  have ring : Ring (zeroed (filled 2904 (image fullPage)) fullPage 1 9) (image fullPageRead) :=
    @mark_ring _ [] _ _ rfl full_page_holds.ring
  have sized : ∀ slot ∈ fullPageRead, slot.Sized := by
    intro slot member
    obtain ⟨unread, listed, rfl⟩ := List.mem_map.1 member
    have sized := full_page_holds.sized unread listed
    exact ⟨sized.senderWord, sized.readerWord, sized.short⟩
  have cleared : ∀ slot ∈ fullPageRead, slot.Cleared := by
    intro slot member
    obtain ⟨unread, listed, rfl⟩ := List.mem_map.1 member
    exact ⟨if_pos rfl, if_pos rfl⟩
  have sizes : fullPageRead.map Slot.size = 264 :: (List.replicate 14 264 ++ [136]) := by
    rw [fullPageRead, List.map_map]
    exact full_page_sizes
  have look := @looks_at_read _ _ _ ring sized cleared sizes
  have first := @look 0 0 0 264 (by decide) (by decide) (by decide) .head
  have second := @look 1 264 264 528 (by decide) (by decide) (by decide) first
  have third := @look 3 792 528 792 (by decide) (by decide) (by decide) second
  have fourth := @look 6 1584 792 1056 (by decide) (by decide) (by decide) third
  have fifth := @look 10 2640 1056 1320 (by decide) (by decide) (by decide) fourth
  have last := @look 15 3960 1320 1456 (by decide) (by decide) (by decide) fifth
  intro stay
  exact absurd (stay _ _ last) (by decide)

/-- The first of them is read, and the clean-up takes a page fault behind the copy page. -/
theorem read_faults : ¬ ∀ mailbox slots senderPid readerPid buffer, Holds mailbox slots →
    FindsFirst mailbox slots senderPid readerPid buffer := by
  intro always
  obtain ⟨answer, message, next, completed, _⟩ := always _ fullPage 1 9 ⟨⟨0, 0, 0⟩, []⟩ full_page_holds
  rcases read_cases full_page_holds 1 9 ⟨⟨0, 0, 0⟩, []⟩ with ⟨_, slot, _, _, _, _, _, read⟩ | ⟨none, _, _⟩
  · cases cleanup : messageCleanup (zeroed (filled 2904 (image fullPage)) fullPage 1 9) with
    | error trap =>
        rw [completed, cleanup] at read
        cases read
    | ok total => exact full_page_strays ((zeroed_returns_iff full_page_holds).1 ⟨total, cleanup⟩)
  · exact none _ List.mem_cons_self (by decide)

end Reading

section Unread

/-- The bytes of the messages that were accepted and not read yet, as the answers tell. -/
def unreadBytes : List MailboxCall → List Answer → Int
  | .send _ _ data :: calls, .sent true :: answers => (9 + data.length) + unreadBytes calls answers
  | _ :: calls, .received (some message) :: answers =>
      unreadBytes calls answers - (9 + message.data.length)
  | _ :: calls, _ :: answers => unreadBytes calls answers
  | _, _ => 0

/-- After every call of the run `unread_size` is the number of unread bytes. -/
def CountsUnread (start : Nat) (memory : Nat → UInt8) (calls : List MailboxCall) : Prop :=
  ∀ before after, calls = before ++ after → ∀ answers mailbox,
    run mailboxStep (mailboxInit start memory) before = .ok (answers, mailbox) →
      (mailbox.unreadSize : Int) = unreadBytes before answers

def IsRead : MailboxCall → Prop
  | .send _ _ _ => False
  | .read _ _ _ => True

/-- A read of an empty mailbox finds nothing and changes nothing. -/
theorem read_empty (start : Nat) (memory : Nat → UInt8) {call : MailboxCall} (isRead : IsRead call) :
    mailboxStep (mailboxInit start memory) call = .ok (.received none, mailboxInit start memory) := by
  cases call with
  | send senderPid readerPid data => exact isRead.elim
  | read senderPid readerPid buffer =>
      have searched : searchLoop (mailboxInit start memory) senderPid readerPid roundLimit
          ⟨0, (mailboxInit start memory).head, 0, buffer.header⟩ =
            .ok ⟨0, (mailboxInit start memory).head, 0, buffer.header⟩ := rfl
      rw [mailboxStep, mailboxReadMessage, searched]
      rfl

theorem reads_empty (start : Nat) (memory : Nat → UInt8) {calls : List MailboxCall} (reads : ∀ call ∈ calls, IsRead call) :
    run mailboxStep (mailboxInit start memory) calls =
        .ok (calls.map fun _ => .received none, mailboxInit start memory) ∧
      unreadBytes calls (calls.map fun _ => .received none) = 0 := by
  induction calls with
  | nil => exact ⟨rfl, rfl⟩
  | cons call calls ih =>
      obtain ⟨ran, counted⟩ := ih fun other member => reads other (List.mem_cons_of_mem _ member)
      have isRead := reads call List.mem_cons_self
      refine ⟨run_cons_of_step (read_empty start memory isRead) ran, ?_⟩
      cases call with
      | send senderPid readerPid data => exact isRead.elim
      | read senderPid readerPid buffer => exact counted

/-- The first send is accepted and not counted. -/
theorem send_uncounted (start : Nat) (memory : Nat → UInt8) (senderPid readerPid : Nat)
    {data : List UInt8} (short : data.length ≤ 255) :
    ∃ next, mailboxStep (mailboxInit start memory) (.send senderPid readerPid data) =
        .ok (.sent true, next) ∧ next.unreadSize = 0 := by
  have kept : ∀ (mailbox : Mailbox) addr bytes,
      (storeBytes mailbox addr bytes).unreadSize = mailbox.unreadSize := by
    intro mailbox addr bytes
    induction bytes generalizing mailbox addr with
    | nil => rfl
    | cons byte bytes ih => exact ih (storeByte mailbox addr byte) (u32 (addr + 1))
  have fits : ¬ (mailboxInit start memory).usedSize + messageHeaderSize + data.length >
      (mailboxInit start memory).capacity := by
    change ¬ 0 + 9 + data.length > 4096
    omega
  rw [mailboxStep, mailboxSendMessage, if_neg fits]
  refine ⟨_, rfl, ?_⟩
  simp only [kept]
  rfl

/-- The first call that is not a read, if there is one. -/
theorem first_send (calls : List MailboxCall) :
    (∀ call ∈ calls, IsRead call) ∨
      ∃ before senderPid readerPid data after,
        calls = before ++ [.send senderPid readerPid data] ++ after ∧ ∀ call ∈ before, IsRead call := by
  induction calls with
  | nil => exact .inl (List.forall_mem_nil _)
  | cons call calls ih =>
      cases call with
      | send senderPid readerPid data =>
          exact .inr ⟨[], senderPid, readerPid, data, calls, rfl, List.forall_mem_nil _⟩
      | read senderPid readerPid buffer =>
          rcases ih with reads | ⟨before, sender, reader, data, after, split, reads⟩
          · exact .inl (List.forall_mem_cons.2 ⟨trivial, reads⟩)
          · refine .inr ⟨.read senderPid readerPid buffer :: before, sender, reader, data, after, ?_,
              List.forall_mem_cons.2 ⟨trivial, reads⟩⟩
            rw [split]
            rfl

theorem unread_bytes_append {calls : List MailboxCall} (reads : ∀ call ∈ calls, IsRead call)
    (senderPid readerPid : Nat) (data : List UInt8) :
    unreadBytes (calls ++ [.send senderPid readerPid data])
      ((calls.map fun _ => .received none) ++ [.sent true]) = 9 + data.length := by
  induction calls with
  | nil => exact Int.add_zero _
  | cons call calls ih =>
      have isRead := reads call List.mem_cons_self
      cases call with
      | send sender reader bytes => exact isRead.elim
      | read sender reader buffer =>
          exact ih fun other member => reads other (List.mem_cons_of_mem _ member)

theorem run_snoc {mailbox middle next : Mailbox} {calls : List MailboxCall} {call : MailboxCall}
    {answers : List Answer} {answer : Answer}
    (ran : run mailboxStep mailbox calls = .ok (answers, middle))
    (stepped : mailboxStep middle call = .ok (answer, next)) :
    run mailboxStep mailbox (calls ++ [call]) = .ok (answers ++ [answer], next) := by
  induction calls generalizing mailbox answers with
  | nil =>
      cases ran
      exact run_cons_of_step stepped rfl
  | cons first calls ih =>
      obtain ⟨here, between, later, stepFirst, tail, isAnswers⟩ := run_cons ran
      rw [isAnswers]
      exact run_cons_of_step stepFirst (ih tail)

/-- The counter is right in exactly the runs in which nothing is ever sent. -/
theorem unread_counts_iff (start : Nat) (memory : Nat → UInt8) (calls : List MailboxCall)
    (legal : ∀ call ∈ calls, AnyCall call) :
    CountsUnread start memory calls ↔ ∀ call ∈ calls, IsRead call := by
  constructor
  · intro counts
    rcases first_send calls with reads | ⟨before, senderPid, readerPid, data, after, split, reads⟩
    · exact reads
    · have short : data.length ≤ 255 := by
        have sent := legal (.send senderPid readerPid data) (by rw [split]; simp)
        exact sent.2.2
      obtain ⟨next, stepped, unread⟩ :=
        send_uncounted start memory senderPid readerPid short
      have ran := run_snoc (reads_empty start memory reads).1 stepped
      have counted := counts _ after split _ next ran
      rw [unread, unread_bytes_append reads] at counted
      omega
  · intro reads before after split answers mailbox ran
    obtain ⟨expected, counted⟩ := reads_empty start memory
      fun call (member : call ∈ before) => reads call (by rw [split]; exact List.mem_append_left _ member)
    rw [expected] at ran
    cases ran
    rw [counted]
    rfl

theorem unread_counts_reads :
    CountsUnread 0xC0400000 (fun _ => 0) [.read 0 0 ⟨⟨0, 0, 0⟩, []⟩] :=
  (unread_counts_iff 0xC0400000 (fun _ => 0) [.read 0 0 ⟨⟨0, 0, 0⟩, []⟩] (by decide)).2
    fun _ member => List.mem_singleton.1 member ▸ trivial

/-- One message is sent, and the counter stays at zero. -/
theorem unread_misses_send :
    ¬ ∀ (start : Nat) (memory : Nat → UInt8) (calls : List MailboxCall), start % 4096 = 0 →
      start + 8192 < 4294967296 → (∀ call ∈ calls, AnyCall call) →
      CountsUnread start memory calls := by
  intro always
  obtain ⟨next, stepped, unread⟩ := send_uncounted 0xC0400000 (fun _ => 0) 1 9 (by decide : ([7] : List UInt8).length ≤ 255)
  have counted := always 0xC0400000 (fun _ => 0) [.send 1 9 [7]] (by decide) (by decide) (by decide)
    [.send 1 9 [7]] [] rfl [.sent true] next (run_cons_of_step stepped rfl)
  rw [unread] at counted
  revert counted
  decide

end Unread

end ParadiseOS.MailboxCalls
