/-!
# Counters

What has happened to a cache, in five numbers.  A snapshot is a copy of them, and the difference of
two snapshots counts what happened in between.

## Main definitions

* `Counters`, `Tally`: the numbers and what each of them counts.
* `Counters.record`, `Counters.history`: one more of a tally, and one tally after the other.
* `Counters.since`: the difference to an earlier snapshot.
* `Counters.hitRate?`: the share of lookups that were hits.

## Main results

* `Counters.count_getElem?_history`: after any steps, a tally was counted as often as it is among
  them.
-/

namespace CursorContext

/-- What is counted. -/
inductive Tally
  /-- A lookup that found an entry. -/
  | hit
  /-- A lookup that found none. -/
  | miss
  /-- A failed fetch that somebody waited for. -/
  | failure
  /-- The table was cleared. -/
  | invalidation
  /-- A generation of preloads was started. -/
  | generation
  deriving DecidableEq, Repr

/-- The counters of a cache. -/
structure Counters where
  /-- Lookups that found an entry. -/
  hits : Nat := 0
  /-- Lookups that found none. -/
  misses : Nat := 0
  /-- Failed fetches that somebody waited for. -/
  failures : Nat := 0
  /-- How often the table was cleared. -/
  invalidations : Nat := 0
  /-- How many generations of preloads were started. -/
  generations : Nat := 0
  deriving DecidableEq, Repr, Inhabited

namespace Counters

/-- One more of a tally. -/
def record (c : Counters) : Tally → Counters
  | .hit => { c with hits := c.hits + 1 }
  | .miss => { c with misses := c.misses + 1 }
  | .failure => { c with failures := c.failures + 1 }
  | .invalidation => { c with invalidations := c.invalidations + 1 }
  | .generation => { c with generations := c.generations + 1 }

/-- The number of a tally. -/
def count (c : Counters) : Tally → Nat
  | .hit => c.hits
  | .miss => c.misses
  | .failure => c.failures
  | .invalidation => c.invalidations
  | .generation => c.generations

/-- The counters after each of some steps, each of which counts one thing or nothing. -/
def history (c : Counters) : List (Option Tally) → List Counters
  | [] => []
  | some t :: rest => c.record t :: (c.record t).history rest
  | none :: rest => c :: c.history rest

theorem count_record (c : Counters) (t u : Tally) :
    (c.record t).count u = c.count u + if t = u then 1 else 0 := by
  cases t <;> cases u <;> simp [record, count]

/-- **After any steps, a tally was counted as often as it is among them.** -/
theorem count_getElem?_history {c d : Counters} {steps : List (Option Tally)} {i : Nat}
    (h : (c.history steps)[i]? = some d) (t : Tally) :
    d.count t = c.count t + (steps.take (i + 1)).count (some t) := by
  -- every step begins with other counters, so they are not fixed in the induction
  induction steps generalizing c i with
  | nil => simp [history] at h
  | cons step rest ih =>
    obtain ⟨first, hfirst, hhistory⟩ : ∃ first : Counters,
        first.count t = c.count t + [step].count (some t) ∧
        c.history (step :: rest) = first :: first.history rest := by
      cases step with
      | none => exact ⟨c, by simp, rfl⟩
      | some u => exact ⟨c.record u, by rw [count_record]; simp [List.count_singleton], rfl⟩
    rw [hhistory] at h
    cases i with
    | zero =>
      cases h
      simpa using hfirst
    | succ i =>
      rw [List.getElem?_cons_succ] at h
      have hsplit : (step :: rest).take (i + 1 + 1) = [step] ++ rest.take (i + 1) := rfl
      rw [ih h, hfirst, hsplit, List.count_append, Nat.add_assoc]

/-- What was counted after an earlier snapshot; a number that was larger then counts as none. -/
def since (c earlier : Counters) : Counters where
  hits := c.hits - earlier.hits
  misses := c.misses - earlier.misses
  failures := c.failures - earlier.failures
  invalidations := c.invalidations - earlier.invalidations
  generations := c.generations - earlier.generations

theorem count_since (c earlier : Counters) (t : Tally) :
    (c.since earlier).count t = c.count t - earlier.count t := by
  cases t <;> rfl

/-- The five numbers in order. -/
def toList (c : Counters) : List Nat :=
  [c.hits, c.misses, c.failures, c.invalidations, c.generations]

/-- A number of lookups as a float. -/
def toFloat (n : Nat) : Float := (UInt64.ofNat n).toFloat

/-- The share of lookups that were hits, once there was one. -/
def hitRate? (c : Counters) : Option Float :=
  if c.hits + c.misses = 0 then none else some (toFloat c.hits / toFloat (c.hits + c.misses))

end Counters

end CursorContext
