import Mathlib.Data.List.Induction

/-!
# Arrays kept in some other form

A representation is read and written at an index. Where its cells are independent,
it is an array: after any run of writes each index reads what was last written
there, and a loop that writes one value changes the indices it visits.
-/

namespace ParadiseOS.WrittenArray

set_option autoImplicit false

variable {Rep Index Value : Type}

/-- The writes of a list, the first one first. -/
def writeAll (write : Rep → Index → Value → Rep) (rep : Rep) (writes : List (Index × Value)) : Rep :=
  writes.foldl (fun rep entry => write rep entry.1 entry.2) rep

theorem write_all_append (write : Rep → Index → Value → Rep) (rep : Rep)
    (writes : List (Index × Value)) (entry : Index × Value) :
    writeAll write rep (writes ++ [entry]) = write (writeAll write rep writes) entry.1 entry.2 := by
  rw [writeAll, List.foldl_append, List.foldl_cons, List.foldl_nil, writeAll]

variable [DecidableEq Index]

/-- What is written at one index is read back there and nowhere else. -/
def Independent (legal : Value → Prop) (read : Rep → Index → Value)
    (write : Rep → Index → Value → Rep) : Prop :=
  ∀ rep index value, legal value → ∀ other,
    read (write rep index value) other = if other = index then value else read rep other

/-- What the last write at the index wrote, if there was one. -/
def lastWritten (writes : List (Index × Value)) (index : Index) : Option Value :=
  writes.reverse.lookup index

section LastWritten

theorem last_written_append (writes : List (Index × Value)) (entry : Index × Value) (index : Index) :
    lastWritten (writes ++ [entry]) index =
      if index = entry.1 then some entry.2 else lastWritten writes index := by
  obtain ⟨written, value⟩ := entry
  rw [lastWritten, List.reverse_append, List.reverse_singleton, List.singleton_append,
    List.lookup_cons, ← lastWritten]
  by_cases same : index = written
  · rw [if_pos same, beq_iff_eq.mpr same]
  · rw [if_neg same, beq_false_of_ne same]

theorem last_written_none {writes : List (Index × Value)} {index : Index}
    (unwritten : ∀ entry ∈ writes, entry.1 ≠ index) : lastWritten writes index = none := by
  induction writes using List.reverseRecOn with
  | nil => rfl
  | append_singleton writes entry ih =>
      have here : index ≠ entry.1 := Ne.symm (unwritten entry (by simp))
      rw [last_written_append, if_neg here]
      exact ih fun earlier member => unwritten earlier (by simp [member])

/-- Where all writes agree on the value, it does not matter which was the last. -/
theorem last_written_same {writes : List (Index × Value)} {index : Index} {value : Value}
    (same : ∀ entry ∈ writes, entry.2 = value) (written : ∃ entry ∈ writes, entry.1 = index) :
    lastWritten writes index = some value := by
  induction writes using List.reverseRecOn with
  | nil => simp at written
  | append_singleton writes entry ih =>
      rw [last_written_append]
      by_cases here : index = entry.1
      · rw [if_pos here, same entry (by simp)]
      · rw [if_neg here]
        obtain ⟨earlier, member, at_index⟩ := written
        have before : earlier ∈ writes := by
          simp only [List.mem_append, List.mem_singleton] at member
          exact member.resolve_right fun last => here (last ▸ at_index.symm)
        exact ih (fun entry member => same entry (by simp [member])) ⟨earlier, before, at_index⟩

end LastWritten

section Runs

variable {legal : Value → Prop} {read : Rep → Index → Value} {write : Rep → Index → Value → Rep}

/-- After a run of legal writes each index reads its last write, or what it read before. -/
theorem read_write_all (independent : Independent legal read write) (rep : Rep)
    {writes : List (Index × Value)} (allLegal : ∀ entry ∈ writes, legal entry.2) (index : Index) :
    read (writeAll write rep writes) index =
      (lastWritten writes index).getD (read rep index) := by
  induction writes using List.reverseRecOn with
  | nil => rfl
  | append_singleton writes entry ih =>
      have earlier := ih fun entry member => allLegal entry (by simp [member])
      rw [write_all_append, independent _ _ _ (allLegal entry (by simp)), last_written_append]
      by_cases here : index = entry.1
      · rw [if_pos here, if_pos here, Option.getD_some]
      · rw [if_neg here, if_neg here]
        exact earlier

/-- The writes of one value at the given indices. -/
def sameWrites (value : Value) (indices : List Index) : List (Index × Value) :=
  indices.map fun index => (index, value)

/-- A loop that writes one value changes exactly the indices it visits. -/
theorem read_same_writes (independent : Independent legal read write) (rep : Rep) {value : Value}
    (isLegal : legal value) (indices : List Index) (index : Index) :
    read (writeAll write rep (sameWrites value indices)) index =
      if index ∈ indices then value else read rep index := by
  have values : ∀ entry ∈ sameWrites value indices, entry.2 = value := by
    intro entry member
    obtain ⟨_, _, rfl⟩ := List.mem_map.mp member
    rfl
  rw [read_write_all independent rep fun entry member => (values entry member).symm ▸ isLegal]
  by_cases visited : index ∈ indices
  · rw [if_pos visited,
      last_written_same values ⟨(index, value), List.mem_map_of_mem visited, rfl⟩, Option.getD_some]
  · rw [if_neg visited, last_written_none, Option.getD_none]
    intro entry member atIndex
    obtain ⟨other, isMember, rfl⟩ := List.mem_map.mp member
    exact visited (atIndex ▸ isMember)

end Runs

end ParadiseOS.WrittenArray
