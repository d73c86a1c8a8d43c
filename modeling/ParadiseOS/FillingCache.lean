/-!
# Caches that may fill at any time

A cache of a table may copy any of its entries whenever it likes, and loses entries
only when it is told to. The largest such cache holds whatever a real one may hold.
It is coherent but for some dirty keys if every other entry of it is still in the table.
-/

namespace ParadiseOS.FillingCache

set_option autoImplicit false

variable {Key Value : Type}

/-- What a table says about a key, or what a cache may hold of it. -/
abbrev Table (Key Value : Type) := Key → Value → Prop

/-- The cache after it may have copied from the table. -/
def fill (cached table : Table Key Value) : Table Key Value :=
  fun key value => cached key value ∨ table key value

/-- The cache without the entries that are gone. -/
def drop (cached gone : Table Key Value) : Table Key Value :=
  fun key value => cached key value ∧ ¬ gone key value

def Coherent (dirty : Key → Prop) (cached table : Table Key Value) : Prop :=
  ∀ key, ¬ dirty key → ∀ value, cached key value → table key value

/-- The second table still has all that the first one had. -/
def Keeps (dirty : Key → Prop) (table next : Table Key Value) : Prop :=
  ∀ key, ¬ dirty key → ∀ value, table key value → next key value

section Rules

variable {dirty more : Key → Prop} {cached table middle next gone : Table Key Value}

theorem keeps_refl (dirty : Key → Prop) (table : Table Key Value) : Keeps dirty table table :=
  fun _ _ _ held => held

theorem keeps_mono (keeps : Keeps dirty table next) (wider : ∀ key, dirty key → more key) :
    Keeps more table next :=
  fun key clean => keeps key fun isDirty => clean (wider key isDirty)

theorem coherent_mono (coherent : Coherent dirty cached table) (wider : ∀ key, dirty key → more key) :
    Coherent more cached table :=
  fun key clean => coherent key fun isDirty => clean (wider key isDirty)

theorem coherent_keeps (coherent : Coherent dirty cached table) (keeps : Keeps dirty table next) :
    Coherent dirty cached next :=
  fun key clean value held => keeps key clean value (coherent key clean value held)

/-- After a change of the table only the keys are dirty whose entries it took away. -/
theorem coherent_fill (coherent : Coherent dirty cached table) (keeps : Keeps dirty table next) :
    Coherent dirty (fill cached next) next := by
  intro key clean value held
  rcases held with old | new
  · exact coherent_keeps coherent keeps key clean value old
  · exact new

/-- A key is clean again once its entries were dropped. -/
theorem coherent_refill (coherent : Coherent more cached table)
    (dropped : ∀ key, ¬ dirty key → more key → ∀ value, gone key value) :
    Coherent dirty (fill (drop cached gone) table) table := by
  intro key clean value held
  rcases held with ⟨old, kept⟩ | new
  · by_cases isDirty : more key
    · exact absurd (dropped key clean isDirty value) kept
    · exact coherent key isDirty value old
  · exact new

/-- A cache that holds an entry the table has lost is not coherent. -/
theorem not_coherent_of_stale {key : Key} {value : Value} (clean : ¬ dirty key) (held : cached key value)
    (lost : ¬ table key value) : ¬ Coherent dirty cached table :=
  fun coherent => lost (coherent key clean value held)

/-- What is not dropped may also be carried over to another table that has it. -/
theorem coherent_switch (coherent : Coherent dirty cached table)
    (carried : ∀ key, ¬ dirty key → ∀ value, table key value → ¬ gone key value → next key value) :
    Coherent dirty (fill (drop cached gone) next) next := by
  intro key clean value held
  rcases held with ⟨old, kept⟩ | new
  · exact carried key clean value (coherent key clean value old) kept
  · exact new

end Rules

end ParadiseOS.FillingCache
