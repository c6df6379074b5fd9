import CursorContext.Item.Basic

/-!
# Merging and cutting lists of items

Two lists of items are merged by keeping, in order, the first item of every symbol and document.  A
budget then keeps the items from the front as long as their lengths together stay within it.

## Main definitions

* `Item.firsts`, `Item.merge`: the first items of each identity, and two lists merged.
* `Item.within`: the items that a budget keeps.
-/

namespace CursorContext.Item

/-- The items whose identity is neither among `seen` nor that of an earlier item. -/
def firsts (seen : List (String × Uri)) : List Item → List Item
  | [] => []
  | i :: rest =>
    if i.identity ∈ seen then firsts seen rest else i :: firsts (i.identity :: seen) rest

@[simp] theorem firsts_nil (seen : List (String × Uri)) : firsts seen [] = [] := rfl

theorem firsts_cons_of_mem {seen : List (String × Uri)} {i : Item} (rest : List Item)
    (h : i.identity ∈ seen) : firsts seen (i :: rest) = firsts seen rest := by
  simp [firsts, h]

theorem firsts_cons_of_not_mem {seen : List (String × Uri)} {i : Item} (rest : List Item)
    (h : i.identity ∉ seen) :
    firsts seen (i :: rest) = i :: firsts (i.identity :: seen) rest := by
  simp [firsts, h]

/-- Both lists in order, each identity once: where it comes first. -/
def merge (previous current : List Item) : List Item := firsts [] (previous ++ current)

/-- The items from the front whose lengths together stay within a budget. -/
def within (budget : Nat) : List Item → List Item
  | [] => []
  | i :: rest => if i.length ≤ budget then i :: within (budget - i.length) rest else []

@[simp] theorem within_nil (budget : Nat) : within budget [] = [] := rfl

theorem within_cons_of_le {budget : Nat} {i : Item} (rest : List Item) (h : i.length ≤ budget) :
    within budget (i :: rest) = i :: within (budget - i.length) rest := by
  simp [within, h]

theorem within_cons_of_lt {budget : Nat} {i : Item} (rest : List Item) (h : budget < i.length) :
    within budget (i :: rest) = [] := by
  simp [within, Nat.not_le.2 h]

end CursorContext.Item
