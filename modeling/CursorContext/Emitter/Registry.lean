/-!
# Registries of listeners

A registry holds listeners in the order in which they subscribed, each under a number of its own
that is never used again.

## Main definitions

* `Registry`: the listeners with their numbers.
* `Registry.subscribe`, `Registry.remove`: a listener more, a listener less.
* `Registry.listeners`, `Registry.ids`, `Registry.count`: who is registered.
-/

namespace CursorContext

/-- Listeners with their numbers, in the order in which they subscribed. -/
structure Registry (α : Type) where
  /-- The number of the next listener. -/
  next : Nat := 0
  /-- The listeners with their numbers. -/
  entries : Array (Nat × α) := #[]
  deriving Repr

namespace Registry

variable {α : Type}

/-- A registry without listeners. -/
def empty : Registry α := {}

/-- A listener more, under the next number. -/
def subscribe (r : Registry α) (listener : α) : Nat × Registry α :=
  (r.next, ⟨r.next + 1, r.entries.push (r.next, listener)⟩)

/-- The listener of a number less, if it is registered. -/
def remove (r : Registry α) (id : Nat) : Registry α :=
  { r with entries := r.entries.filter (·.1 != id) }

/-- The listeners in order. -/
def listeners (r : Registry α) : List α := r.entries.toList.map (·.2)

/-- The numbers of the listeners in order. -/
def ids (r : Registry α) : List Nat := r.entries.toList.map (·.1)

/-- How many listeners there are. -/
def count (r : Registry α) : Nat := r.entries.size

@[simp] theorem listeners_subscribe (r : Registry α) (listener : α) :
    (r.subscribe listener).2.listeners = r.listeners ++ [listener] := by
  simp [subscribe, listeners]

@[simp] theorem ids_subscribe (r : Registry α) (listener : α) :
    (r.subscribe listener).2.ids = r.ids ++ [r.next] := by
  simp [subscribe, ids]

@[simp] theorem ids_remove (r : Registry α) (id : Nat) :
    (r.remove id).ids = r.ids.filter (· != id) := by
  simp [remove, ids, List.filter_map, Function.comp_def]

/-- Removing a listener that is not registered changes nothing. -/
theorem remove_of_not_mem {r : Registry α} {id : Nat} (h : id ∉ r.ids) : r.remove id = r := by
  have hkeeps : ∀ x ∈ r.entries, (x.1 != id) = true := by
    intro x hx
    rw [bne_iff_ne]
    rintro rfl
    exact h (List.mem_map_of_mem (Array.mem_toList_iff.mpr hx))
  rw [remove, Array.filter_eq_self.mpr hkeeps]

@[simp] theorem length_listeners (r : Registry α) : r.listeners.length = r.count := by
  simp [listeners, count]

@[simp] theorem length_ids (r : Registry α) : r.ids.length = r.count := by
  simp [ids, count]

end Registry

end CursorContext
