/-!
# Sets of numbers

Tokens, calls, jobs and clients are numbered from zero on, so a set of them is an array of marks,
one for every number up to the greatest in it.

## Main definitions

* `NumberSet`: a finite set of numbers.
* `NumberSet.contains`, `NumberSet.insert`, `NumberSet.insertAll`, `NumberSet.ofList`.

## Main results

* `NumberSet.mem_insert`, `NumberSet.mem_ofList`: who is in a set.
-/

namespace CursorContext

/-- A finite set of numbers. -/
structure NumberSet where
  /-- Which numbers are in it; those without a mark are not. -/
  marks : Array Bool := #[]
  deriving DecidableEq, Repr, Inhabited

namespace NumberSet

/-- The number is in the set. -/
def contains (s : NumberSet) (n : Nat) : Bool := s.marks[n]?.getD false

/-- The set with a number more. -/
def insert (s : NumberSet) (n : Nat) : NumberSet :=
  ⟨(s.marks ++ Array.replicate (n + 1 - s.marks.size) false).setIfInBounds n true⟩

/-- The set with every number of a list. -/
def insertAll (s : NumberSet) (numbers : List Nat) : NumberSet := numbers.foldl insert s

/-- The numbers of a list. -/
def ofList (numbers : List Nat) : NumberSet := insertAll {} numbers

instance : Membership Nat NumberSet := ⟨fun s n => s.contains n = true⟩

instance (n : Nat) (s : NumberSet) : Decidable (n ∈ s) :=
  inferInstanceAs (Decidable (s.contains n = true))

theorem contains_eq_true {s : NumberSet} {n : Nat} : s.contains n = true ↔ n ∈ s := Iff.rfl

@[simp] theorem contains_eq_decide (s : NumberSet) (n : Nat) : s.contains n = decide (n ∈ s) := by
  rw [Bool.eq_iff_iff, contains_eq_true, decide_eq_true_iff]

@[simp] theorem not_mem_empty (n : Nat) : ¬ n ∈ ({} : NumberSet) := by
  simp [← contains_eq_true, contains]

/-- Nothing but the new number is in the set besides. -/
@[simp] theorem mem_insert {s : NumberSet} {n m : Nat} : m ∈ s.insert n ↔ m = n ∨ m ∈ s := by
  rw [← contains_eq_true, ← contains_eq_true]
  simp only [contains, insert]
  by_cases h : m = n
  · subst h
    have hlt : m < (s.marks ++ Array.replicate (m + 1 - s.marks.size) false).size := by
      simp only [Array.size_append, Array.size_replicate]
      omega
    rw [Array.getElem?_setIfInBounds_self, if_pos hlt]
    simp
  · rw [Array.getElem?_setIfInBounds_ne (Ne.symm h), Array.getElem?_append]
    by_cases hm : m < s.marks.size
    · simp [hm, h]
    · rw [if_neg hm, Array.getElem?_eq_none (Nat.le_of_not_lt hm), Array.getElem?_replicate]
      split <;> simp [h]

@[simp] theorem mem_insertAll {s : NumberSet} {numbers : List Nat} {m : Nat} :
    m ∈ s.insertAll numbers ↔ m ∈ numbers ∨ m ∈ s := by
  induction numbers generalizing s with
  | nil => simp [insertAll]
  | cons n rest ih =>
    rw [insertAll, List.foldl_cons, ← insertAll, ih, mem_insert, List.mem_cons]
    constructor
    · rintro (h | h | h)
      · exact .inl (.inr h)
      · exact .inl (.inl h)
      · exact .inr h
    · rintro ((h | h) | h)
      · exact .inr (.inl h)
      · exact .inl h
      · exact .inr (.inr h)

/-- The numbers of a list are those in it. -/
@[simp] theorem mem_ofList {numbers : List Nat} {m : Nat} : m ∈ ofList numbers ↔ m ∈ numbers := by
  simp [ofList]

end NumberSet

end CursorContext
