import ParadiseOS.MailboxRuns

/-!
# The bookkeeping of a mailbox

Whatever is sent and read, the bytes in use of a mailbox are whole messages and its
counters are those of the messages, as long as the third look of `message_cleanup`
finds no read message: it looks between the messages, where a sender chose the bytes.
-/

namespace ParadiseOS.MailboxBooks

open MachineWord MailboxModel MailboxRing MailboxRuns StepRun

set_option autoImplicit false

section Statement

/-- What a send and a read do to the stored messages. A read reclaims two of them at most. -/
def slotStep (slots : List Slot) : MailboxCall → Answer × List Slot
  | .send senderPid readerPid data =>
      if totalSize slots + (9 + data.length) > 4096 then (.sent false, slots)
      else (.sent true, slots ++ [⟨⟨senderPid, readerPid, data⟩, false⟩])
  | .read senderPid readerPid _ =>
      match takeFirst senderPid readerPid slots with
      | none => (.received none, slots)
      | some (message, marked) => (.received (some message), marked.drop (reclaimed marked).length)

/-- A sender chooses its words and its bytes. -/
def AnyCall : MailboxCall → Prop
  | .send senderPid readerPid data =>
      senderPid < 4294967296 ∧ readerPid < 4294967296 ∧ data.length ≤ 255
  | .read _ _ _ => True

/-- The mailbox with the header of the first match zeroed. -/
def zeroed (mailbox : Mailbox) (slots : List Slot) (senderPid readerPid : Nat) : Mailbox :=
  storeBytes mailbox
    (mailbox.head + totalSize (slots.takeWhile fun slot => ¬ slot.Matches senderPid readerPid))
    (List.replicate 8 0)

/-- The third look of the clean-up of a read, if there is one, finds no read message. -/
def LooksPast (state : Mailbox × List Slot) : MailboxCall → Prop
  | .send _ _ _ => True
  | .read senderPid readerPid _ =>
      ∀ message marked, takeFirst senderPid readerPid state.2 = some (message, marked) →
        LooksClean (zeroed state.1 state.2 senderPid readerPid)
          (marked.takeWhile fun slot => slot.Cleared)

instance : ∀ call, Decidable (AnyCall call)
  | .send _ _ _ => inferInstanceAs (Decidable (_ ∧ _ ∧ _))
  | .read _ _ _ => isTrue trivial

instance (mailbox : Mailbox) : ∀ slots, Decidable (LooksClean mailbox slots)
  | [] => isTrue trivial
  | [_] => isTrue trivial
  | _ :: _ :: _ => inferInstanceAs (Decidable (_ ∨ _))

instance (state : Mailbox × List Slot) : ∀ call, Decidable (LooksPast state call)
  | .send _ _ _ => isTrue trivial
  | .read senderPid readerPid _ =>
      match found : takeFirst senderPid readerPid state.2 with
      | none => isTrue fun _ _ same => by rw [found] at same; cases same
      | some (message, marked) =>
          decidable_of_iff (LooksClean (zeroed state.1 state.2 senderPid readerPid)
              (marked.takeWhile fun slot => slot.Cleared))
            ⟨fun clean _ _ same => by
                rw [found] at same
                cases same
                exact clean,
              fun clean => clean message marked found⟩

/-- The counters and pointers of a mailbox are those of the messages that fill the bytes in use. -/
structure Booked (start : Nat) (mailbox : Mailbox) (slots : List Slot) : Prop where
  used : mailbox.usedSize = totalSize slots
  capacity : mailbox.usedSize ≤ mailbox.capacity
  head : start ≤ mailbox.head ∧ mailbox.head < start + 4096
  tail : start ≤ mailbox.tail ∧ mailbox.tail < start + 4096
  distance : (mailbox.tail + 4096 - mailbox.head) % 4096 = mailbox.usedSize % 4096
  messages : loadBytes mailbox mailbox.head mailbox.usedSize = .ok (image slots)

end Statement

section Steps

variable {mailbox : Mailbox} {slots : List Slot} {start senderPid readerPid : Nat}

structure Books (start : Nat) (mailbox : Mailbox) (slots : List Slot) : Prop where
  ring : Ring mailbox (image slots)
  sized : ∀ slot ∈ slots, slot.Sized
  page : mailbox.firstPage = start

theorem booked_of_books (books : Books start mailbox slots) : Booked start mailbox slots := by
  have ring := books.ring
  have used := ring.used
  have fits := ring.fits
  have low := ring.headLow
  have high := ring.headHigh
  have tail := ring.tail
  have page := books.page
  have copyPage := ring.copyPage
  have stored := stored_bytes_middle [] (image slots) mailbox.head
    (show Ring mailbox ([] ++ (image slots ++ [])) by rw [List.append_nil]; exact ring) rfl
  rw [image_length] at used fits tail
  refine ⟨used, ?_, by omega, by omega, ?_, ?_⟩
  · rw [ring.capacity]
    omega
  · omega
  · rw [load_bytes_ok (ring_pages ring) (by omega), used, ← image_length]
    exact congrArg Except.ok stored

theorem send_books {data : List UInt8} (books : Books start mailbox slots)
    (legal : AnyCall (.send senderPid readerPid data)) :
    ∃ next, mailboxStep mailbox (.send senderPid readerPid data) =
        .ok ((slotStep slots (.send senderPid readerPid data)).1, next) ∧
      Books start next (slotStep slots (.send senderPid readerPid data)).2 := by
  obtain ⟨ring, sized, page⟩ := books
  obtain ⟨senderWord, readerWord, short⟩ := legal
  have used := ring.used
  have capacity := ring.capacity
  rw [image_length] at used
  rw [slotStep, mailboxStep]
  by_cases full : totalSize slots + (9 + data.length) > 4096
  · rw [mailboxSendMessage, messageHeaderSize, if_pos full, if_pos (by omega)]
    exact ⟨mailbox, rfl, ring, sized, page⟩
  · obtain ⟨next, sent, samePage, grown⟩ := send_ring ring (by omega)
      (rfl : (⟨⟨senderPid, readerPid, data⟩, false⟩ : Slot) = _)
    rw [if_neg full, sent]
    refine ⟨next, rfl, grown, ?_, samePage.trans page⟩
    intro other member
    rcases List.mem_append.1 member with old | new
    · exact sized other old
    · rw [List.mem_singleton.1 new]
      exact ⟨senderWord, readerWord, short⟩

theorem store_bytes_unread (mailbox : Mailbox) (unreadSize addr : Nat) (bytes : List UInt8) :
    storeBytes { mailbox with unreadSize := unreadSize } addr bytes =
      { storeBytes mailbox addr bytes with unreadSize := unreadSize } := by
  induction bytes generalizing mailbox addr with
  | nil => rfl
  | cons byte bytes ih => exact ih (storeByte mailbox addr byte) (u32 (addr + 1))

theorem looks_clean_unread (mailbox : Mailbox) (unreadSize : Nat) (read : List Slot) :
    LooksClean { mailbox with unreadSize := unreadSize } read ↔ LooksClean mailbox read := by
  match read with
  | [] => exact Iff.rfl
  | [_] => exact Iff.rfl
  | _ :: _ :: _ => exact Iff.rfl

/-- The messages before the first match. -/
theorem before_match {earlier later : List Slot} {slot : Slot} (matched : slot.Matches senderPid readerPid)
    (unmatched : ∀ other ∈ earlier, ¬ other.Matches senderPid readerPid) :
    ((earlier ++ slot :: later).takeWhile fun other => ¬ other.Matches senderPid readerPid) = earlier := by
  rw [List.takeWhile_append_of_pos (fun other member => decide_eq_true (unmatched other member)),
    List.takeWhile_cons, if_neg (by rw [decide_eq_true_eq, not_not]; exact matched), List.append_nil]

theorem read_books {buffer : MailboxMessage} (books : Books start mailbox slots)
    (clean : LooksPast (mailbox, slots) (.read senderPid readerPid buffer)) :
    ∃ next, mailboxStep mailbox (.read senderPid readerPid buffer) =
        .ok ((slotStep slots (.read senderPid readerPid buffer)).1, next) ∧
      Books start next (slotStep slots (.read senderPid readerPid buffer)).2 := by
  obtain ⟨ring, sized, page⟩ := books
  have used := ring.used
  have fits := ring.fits
  have count := slots_length_le slots
  rw [image_length] at used fits
  have enough : slots.length < roundLimit := by
    rw [roundLimit]
    omega
  have whole : Ring mailbox (image ([] ++ slots)) := ring
  obtain ⟨found, searched, outcome⟩ := search_loop_ok senderPid readerPid
    ⟨0, mailbox.head, 0, buffer.header⟩ whole sized enough rfl rfl
  rw [slotStep]
  rcases outcome with ⟨nothing, total⟩ |
    ⟨earlier, slot, later, split, matched, taken, seen, current, unmatched⟩
  · rw [nothing, mailboxStep, mailboxReadMessage, searched, Trap.ok_bind, total]
    refine ⟨mailbox, ?_, ring, sized, page⟩
    simp
  · have looks := clean _ _ taken
    rw [List.nil_append] at seen current
    rw [taken]
    have formed := sized slot (by rw [split]; simp)
    have slotSize : slot.size = 9 + slot.message.data.length := rfl
    subst split
    rw [total_size_append, total_size_cons] at used
    rw [zeroed, before_match matched unmatched] at looks
    let base : Mailbox := { mailbox with
      unreadSize := u16 (mailbox.unreadSize + 65536 - found.totalMessageSize) }
    obtain ⟨stored, isStored⟩ : ∃ stored, storeBytes base (mailbox.head + totalSize earlier)
        (List.replicate 8 0) = stored := ⟨_, rfl⟩
    have baseRing : Ring base (image (earlier ++ slot :: later)) := ring_unread ring _
    have samePage : stored.firstPage = mailbox.firstPage := by
      rw [← isStored]
      exact (store_bytes_fields base _ _).firstPage
    have marked : Ring stored (image (earlier ++ { slot with taken := true } :: later)) := by
      rw [← isStored]
      exact mark_ring matched.1 baseRing
    have markedSized : ∀ other ∈ earlier ++ { slot with taken := true } :: later, other.Sized := by
      intro other member
      rcases List.mem_append.1 member with before | rest
      · exact sized other (List.mem_append_left _ before)
      · rcases List.mem_cons.1 rest with same | after
        · rw [same]
          exact ⟨formed.senderWord, formed.readerWord, formed.short⟩
        · exact sized other (List.mem_append_right _ (List.mem_cons_of_mem _ after))
    have storedLooks : LooksClean stored
        ((earlier ++ { slot with taken := true } :: later).takeWhile fun other => other.Cleared) := by
      have same : stored = { storeBytes mailbox (mailbox.head + totalSize earlier) (List.replicate 8 0) with
          unreadSize := u16 (mailbox.unreadSize + 65536 - found.totalMessageSize) } := by
        rw [← isStored]
        exact store_bytes_unread mailbox _ _ _
      rw [same, looks_clean_unread]
      exact looks
    have cleanup := cleanup_reclaims marked (by simp) markedSized storedLooks
    -- what is reclaimed is the front of the marked list
    have front : reclaimed (earlier ++ { slot with taken := true } :: later) ++
        (earlier ++ { slot with taken := true } :: later).drop
          (reclaimed (earlier ++ { slot with taken := true } :: later)).length =
        earlier ++ { slot with taken := true } :: later := by
      apply List.prefix_iff_eq_append.1
      exact (List.take_prefix 2 _).trans (List.takeWhile_prefix _)
    rw [← front] at marked
    have kept := reclaim_ring marked
    have delivered := message_read { buffer with header := found.header } formed matched.1 ring current
    have completed := read_of_search stored searched (by omega) delivered (by rw [current]; exact isStored) cleanup
    refine ⟨_, ?_, kept, ?_, ?_⟩
    · rw [mailboxStep, completed, Trap.ok_bind]
      simp only [one_ne_zero, if_false, List.take_left, pure, Except.pure]
    · exact fun other member => markedSized other (List.mem_of_mem_drop member)
    · exact samePage.trans page

end Steps

section Runs

/-- In every run whose clean-ups look past the payloads, the bytes in use of a mailbox are whole
messages, and its counters and pointers are those of these messages. -/
theorem mailbox_books_runs (start : Nat) (memory : Nat → UInt8) (calls : List MailboxCall)
    (aligned : start % 4096 = 0) (addressable : start + 8192 < 4294967296)
    (legal : Allowed (pairedStep mailboxStep slotStep)
      (fun state call => AnyCall call ∧ LooksPast state call) (mailboxInit start memory, []) calls) :
    ∃ final, run mailboxStep (mailboxInit start memory) calls =
        .ok ((observe slotStep [] calls).1, final) ∧
      Booked start final (observe slotStep [] calls).2 := by
  have first : Books start (mailboxInit start memory) [] :=
    ⟨(init_related aligned addressable).ring, List.forall_mem_nil _, rfl⟩
  obtain ⟨final, answered, books⟩ := run_simulates_paired slotStep (Books start)
    (fun mailbox slots call related clean => by
      cases call with
      | send senderPid readerPid data => exact send_books related clean.1
      | read senderPid readerPid buffer => exact read_books related clean.2)
    calls _ _ first legal
  exact ⟨final, answered, booked_of_books books⟩

/-- Two messages read in the wrong order before a third one. -/
def crossedCalls : List MailboxCall :=
  [.send 1 9 [], .send 2 9 [], .send 3 9 [8, 7, 6, 5, 4, 3, 2, 1, 0], .read 2 9 ⟨⟨0, 0, 0⟩, []⟩,
    .read 1 9 ⟨⟨0, 0, 0⟩, []⟩]

/-- The third look of the last clean-up is at the payload of the third message, which is kept. -/
theorem mailbox_books_runs_crossed : ∃ final, run mailboxStep (mailboxInit 0xC0400000 fun _ => 0) crossedCalls =
      .ok ([.sent true, .sent true, .sent true, .received (some ⟨2, 9, []⟩), .received (some ⟨1, 9, []⟩)], final) ∧
    Booked 0xC0400000 final [⟨⟨3, 9, [8, 7, 6, 5, 4, 3, 2, 1, 0]⟩, false⟩] := by
  have legal : Allowed (pairedStep mailboxStep slotStep)
      (fun state call => AnyCall call ∧ LooksPast state call) (mailboxInit 0xC0400000 fun _ => 0, [])
      crossedCalls := by decide +kernel
  exact mailbox_books_runs 0xC0400000 (fun _ => 0) crossedCalls (by decide) (by decide) legal

/-- Two messages read in the wrong order, and a third whose payload looks like a read message. -/
def forgedCalls : List MailboxCall :=
  [.send 1 9 [], .send 2 9 [], .send 3 9 [0, 0, 0, 0, 0, 0, 0, 0, 255], .read 2 9 ⟨⟨0, 0, 0⟩, []⟩,
    .read 1 9 ⟨⟨0, 0, 0⟩, []⟩]

/-- The forged payload makes the size in use wrap. -/
theorem mailbox_books_forged : ¬ ∀ (start : Nat) (memory : Nat → UInt8) (calls : List MailboxCall),
    start % 4096 = 0 → start + 8192 < 4294967296 → (∀ call ∈ calls, AnyCall call) →
    ∃ answers final slots, run mailboxStep (mailboxInit start memory) calls = .ok (answers, final) ∧
      Booked start final slots := by
  intro always
  obtain ⟨answers, final, slots, completed, booked⟩ := always 0xC0400000 (fun _ => 0) forgedCalls
    (by decide) (by decide) (by decide)
  have wrapped : ((run mailboxStep (mailboxInit 0xC0400000 fun _ => 0) forgedCalls).toOption.map fun outcome =>
      decide (outcome.2.usedSize ≤ outcome.2.capacity)) = some false := by decide +kernel
  rw [completed] at wrapped
  have passed : decide (final.usedSize ≤ final.capacity) = false := Option.some.inj wrapped
  exact absurd booked.capacity (of_decide_eq_false passed)

end Runs

end ParadiseOS.MailboxBooks
