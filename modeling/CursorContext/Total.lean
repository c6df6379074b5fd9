/-!
# Totals

The total of a measure over a list.

## Main definitions

* `total`: the measures of the members, added up.
-/

namespace CursorContext

/-- The measures of the members of a list, added up. -/
def total {α : Type} (measure : α → Nat) : List α → Nat
  | [] => 0
  | x :: rest => measure x + total measure rest

@[simp] theorem total_nil {α : Type} (measure : α → Nat) : total measure [] = 0 := rfl

@[simp] theorem total_cons {α : Type} (measure : α → Nat) (x : α) (rest : List α) :
    total measure (x :: rest) = measure x + total measure rest := rfl

theorem total_append {α : Type} (measure : α → Nat) (a b : List α) :
    total measure (a ++ b) = total measure a + total measure b := by
  induction a with
  | nil => rw [List.nil_append, total_nil, Nat.zero_add]
  | cons x rest ih => rw [List.cons_append, total_cons, total_cons, ih, Nat.add_assoc]

end CursorContext
