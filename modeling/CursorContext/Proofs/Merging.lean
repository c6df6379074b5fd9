import CursorContext.Item.Merge
import Mathlib.Data.List.Induction
import Mathlib.Data.Nat.Find

/-!
# What merging keeps

Merging two lists keeps items of both by their positions: those at which a symbol stands together
with its document for the first time, counted through the first list and then through the second.
Which positions these are does not depend on the contents of the items, but the items are kept with
theirs; so of two items that are not told apart, the one that comes first is the one that is kept.

## Main definitions

* `Item.Same` — two items are not told apart.
* `Item.FirstAt items n` — the item at position `n` is the same as none before it.
* `Item.FirstsOf items kept` — `kept` are the items at these positions, in order.
* `Item.Merged` — what the merged list of two lists is.

## Main results

* `firstsOf_firsts` — the firsts of a list are the items at these positions.
* `FirstsOf.apart`, `FirstsOf.complete` — no two of them are the same, and none is missing.
* `merge_keeps_firsts` — what merging keeps, and that it may be done in stages.
-/

namespace CursorContext.Item

variable {items kept l : List Item} {i j : Item} {n : Nat} {seen : List (String × Uri)}

/-- Two items are not told apart: they have the same symbol, and the normalised texts of their
documents are the same. -/
def Same (i j : Item) : Prop := i.symbol = j.symbol ∧ i.source.text = j.source.text

theorem same_iff : i.Same j ↔ i.identity = j.identity := by
  obtain ⟨_, _, ⟨_⟩⟩ := i
  obtain ⟨_, _, ⟨_⟩⟩ := j
  simp [Same, identity]

/-- The item at a position is the same as none before it. -/
def FirstAt (items : List Item) (n : Nat) : Prop :=
  ∃ i, items[n]? = some i ∧ ∀ j ∈ items.take n, ¬ j.Same i

/-- `kept` are the items at the positions where one stands that is the same as none before it, in
the order of the positions. -/
def FirstsOf (items kept : List Item) : Prop :=
  ∃ places : List Nat, places.Pairwise (· < ·) ∧ (∀ n, n ∈ places ↔ FirstAt items n) ∧
    kept.map some = places.map (items[·]?)

/-! ### One item after the other -/

/-- A further item changes nothing about the positions before it. -/
theorem firstAt_concat :
    FirstAt (l ++ [i]) n ↔ FirstAt l n ∨ (n = l.length ∧ ∀ j ∈ l, ¬ j.Same i) := by
  rcases Nat.lt_trichotomy n l.length with hn | rfl | hn
  · rw [FirstAt, List.getElem?_append_left hn, List.take_append_of_le_length (Nat.le_of_lt hn)]
    exact ⟨.inl, fun h => h.resolve_right fun h => Nat.ne_of_lt hn h.1⟩
  · simp [FirstAt]
  · have hnone : ¬ FirstAt l n := by
      rintro ⟨_, h, -⟩
      rw [List.getElem?_eq_none (Nat.le_of_lt hn)] at h
      cases h
    have hend : ¬ FirstAt (l ++ [i]) n := by
      rintro ⟨_, h, -⟩
      rw [List.getElem?_eq_none (by simpa using Nat.succ_le_of_lt hn)] at h
      cases h
    exact iff_of_false hend fun h => h.elim hnone fun h => Nat.ne_of_gt hn h.1

theorem FirstAt.lt (h : FirstAt l n) : n < l.length := by
  obtain ⟨_, h, -⟩ := h
  exact (List.getElem?_eq_some_iff.mp h).1

/-- Behind a list, positions of it show the same items. -/
theorem map_getElem?_concat {places : List Nat} (h : ∀ n ∈ places, FirstAt l n) :
    places.map ((l ++ [i])[·]?) = places.map (l[·]?) :=
  List.map_congr_left fun n hn => List.getElem?_append_left (h n hn).lt

/-- An item that is the same as an earlier one is not kept. -/
theorem FirstsOf.concat_old (h : FirstsOf l kept) (hi : ∃ j ∈ l, j.Same i) :
    FirstsOf (l ++ [i]) kept := by
  obtain ⟨places, hsorted, hplaces, hkept⟩ := h
  obtain ⟨j, hj, hsame⟩ := hi
  refine ⟨places, hsorted, fun n => ?_, ?_⟩
  · rw [hplaces, firstAt_concat]
    exact (or_iff_left fun hnew => hnew.2 j hj hsame).symm
  · rw [map_getElem?_concat fun n hn => (hplaces n).mp hn]
    exact hkept

/-- An item that is the same as none before it is kept. -/
theorem FirstsOf.concat_new (h : FirstsOf l kept) (hi : ∀ j ∈ l, ¬ j.Same i) :
    FirstsOf (l ++ [i]) (kept ++ [i]) := by
  obtain ⟨places, hsorted, hplaces, hkept⟩ := h
  have hbelow : ∀ n ∈ places, n < l.length := fun n hn => ((hplaces n).mp hn).lt
  refine ⟨places ++ [l.length], ?_, fun n => ?_, ?_⟩
  · refine List.pairwise_append.mpr ⟨hsorted, List.pairwise_singleton _ _, ?_⟩
    intro n hn m hm
    rw [List.mem_singleton.mp hm]
    exact hbelow n hn
  · rw [List.mem_append, List.mem_singleton, hplaces, firstAt_concat]
    exact or_congr_right (and_iff_left hi).symm
  · rw [List.map_append, List.map_append, hkept,
      map_getElem?_concat fun n hn => (hplaces n).mp hn]
    simp

/-! ### The firsts of a list -/

/-- Of what was seen, only the members matter. -/
theorem firsts_congr {seen' : List (String × Uri)} (h : ∀ x, x ∈ seen ↔ x ∈ seen')
    (l : List Item) : firsts seen l = firsts seen' l := by
  induction l generalizing seen seen' with
  | nil => rfl
  | cons i rest ih =>
    by_cases hi : i.identity ∈ seen
    · rw [firsts_cons_of_mem rest hi, firsts_cons_of_mem rest ((h _).mp hi), ih h]
    · have hcons : ∀ x, x ∈ i.identity :: seen ↔ x ∈ i.identity :: seen' := by simp [h]
      rw [firsts_cons_of_not_mem rest hi, firsts_cons_of_not_mem rest (mt (h _).mpr hi),
        ih hcons]

/-- Behind a list, what stands in the list was seen. -/
theorem firsts_append (seen : List (String × Uri)) (a b : List Item) :
    firsts seen (a ++ b) = firsts seen a ++ firsts (a.map identity ++ seen) b := by
  induction a generalizing seen with
  | nil => rfl
  | cons i rest ih =>
    rw [List.cons_append]
    by_cases hi : i.identity ∈ seen
    · -- the item was seen already, so it adds nothing to what was seen
      have hsame : ∀ x, x ∈ rest.map identity ++ seen
          ↔ x ∈ (i :: rest).map identity ++ seen := by
        intro x
        simp only [List.map_cons, List.cons_append, List.mem_cons, List.mem_append]
        refine ⟨.inr, fun h => h.elim (fun hx => .inr (hx ▸ hi)) id⟩
      rw [firsts_cons_of_mem _ hi, firsts_cons_of_mem _ hi, ih, firsts_congr hsame]
    · have hsame : ∀ x, x ∈ rest.map identity ++ i.identity :: seen
          ↔ x ∈ (i :: rest).map identity ++ seen := by
        intro x
        simp only [List.map_cons, List.cons_append, List.mem_cons, List.mem_append]
        exact or_left_comm
      rw [firsts_cons_of_not_mem _ hi, firsts_cons_of_not_mem _ hi, ih, firsts_congr hsame,
        List.cons_append]

theorem sublist_firsts (seen : List (String × Uri)) (l : List Item) :
    (firsts seen l).Sublist l := by
  induction l generalizing seen with
  | nil => exact List.Sublist.slnil
  | cons i rest ih =>
    by_cases hi : i.identity ∈ seen
    · rw [firsts_cons_of_mem rest hi]
      exact (ih seen).cons i
    · rw [firsts_cons_of_not_mem rest hi]
      exact (ih _).cons_cons i

/-- What was seen is not kept. -/
theorem not_mem_of_mem_firsts (h : i ∈ firsts seen l) : i.identity ∉ seen := by
  induction l generalizing seen with
  | nil => cases h
  | cons j rest ih =>
    by_cases hj : j.identity ∈ seen
    · rw [firsts_cons_of_mem rest hj] at h
      exact ih h
    · rw [firsts_cons_of_not_mem rest hj] at h
      rcases List.mem_cons.mp h with rfl | h
      · exact hj
      · exact fun hi => ih h (List.mem_cons_of_mem _ hi)

/-- A list in which no two items are the same is kept as it is. -/
theorem firsts_eq_self (hseen : ∀ i ∈ l, i.identity ∉ seen)
    (h : l.Pairwise fun i j => ¬ i.Same j) : firsts seen l = l := by
  induction l generalizing seen with
  | nil => rfl
  | cons i rest ih =>
    obtain ⟨hi, hrest⟩ := List.pairwise_cons.mp h
    rw [firsts_cons_of_not_mem rest (hseen i List.mem_cons_self), ih ?_ hrest]
    intro j hj
    have hne : j.identity ≠ i.identity := fun heq => hi j hj (same_iff.mpr heq.symm)
    exact List.not_mem_cons_of_ne_of_not_mem hne (hseen j (List.mem_cons_of_mem i hj))

/-- **The firsts of a list are the items at the positions where one stands that is the same as none
before it.** -/
theorem firstsOf_firsts (l : List Item) : FirstsOf l (firsts [] l) := by
  -- positions count from the front, so the list grows at its end
  induction l using List.reverseRecOn with
  | nil => exact ⟨[], List.Pairwise.nil, fun n => by simp [FirstAt], rfl⟩
  | append_singleton l i ih =>
    rw [firsts_append, List.append_nil]
    by_cases hi : i.identity ∈ l.map identity
    · rw [firsts_cons_of_mem [] hi, firsts_nil, List.append_nil]
      obtain ⟨j, hj, hsame⟩ := List.mem_map.mp hi
      exact ih.concat_old ⟨j, hj, same_iff.mpr hsame⟩
    · rw [firsts_cons_of_not_mem [] hi, firsts_nil]
      refine ih.concat_new fun j hj hsame => hi ?_
      rw [← same_iff.mp hsame]
      exact List.mem_map_of_mem hj

/-! ### What follows from the positions -/

/-- A place in what is kept shows the item at the place that belongs to it. -/
theorem FirstsOf.getElem?_eq {places : List Nat} (h : kept.map some = places.map (items[·]?))
    {a : Nat} (ha : a < kept.length) :
    ∃ hp : a < places.length, items[places[a]]? = some kept[a] := by
  have hlength : kept.length = places.length := by simpa using congrArg List.length h
  refine ⟨hlength ▸ ha, ?_⟩
  have hat := congrArg (·[a]?) h
  simpa [List.getElem?_map, List.getElem?_eq_getElem ha,
    List.getElem?_eq_getElem (hlength ▸ ha)] using hat.symm

/-- No two of the items that are kept are the same. -/
theorem FirstsOf.apart (h : FirstsOf items kept) : kept.Pairwise fun i j => ¬ i.Same j := by
  obtain ⟨places, hsorted, hplaces, hkept⟩ := h
  rw [List.pairwise_iff_getElem]
  intro a b ha hb hab
  obtain ⟨hpa, hia⟩ := FirstsOf.getElem?_eq hkept ha
  obtain ⟨hpb, hib⟩ := FirstsOf.getElem?_eq hkept hb
  obtain ⟨i, hi, hfirst⟩ := (hplaces places[b]).mp (List.getElem_mem hpb)
  have hbefore : places[a] < places[b] := List.pairwise_iff_getElem.mp hsorted a b hpa hpb hab
  -- the earlier of the two stands before the later one in the list
  have hmem : kept[a] ∈ items.take places[b] :=
    List.mem_of_getElem? ((List.getElem?_take_of_lt hbefore).trans hia)
  rw [hib, Option.some.injEq] at hi
  rw [hi]
  exact hfirst _ hmem

/-- Every item of the list is the same as one that is kept. -/
theorem FirstsOf.complete (h : FirstsOf items kept) (hi : i ∈ items) : ∃ k ∈ kept, k.Same i := by
  obtain ⟨places, -, hplaces, hkept⟩ := h
  obtain ⟨m, hm⟩ := List.mem_iff_getElem?.mp hi
  have hex : ∃ n, ∃ k : Item, items[n]? = some k ∧ k.Same i := ⟨m, i, hm, rfl, rfl⟩
  -- of all the items that are the same as this one, the first is kept
  classical
  obtain ⟨k, hk, hsame⟩ := Nat.find_spec hex
  have hfirst : FirstAt items (Nat.find hex) := by
    refine ⟨k, hk, fun j hj hjk => ?_⟩
    obtain ⟨a, ha⟩ := List.mem_iff_getElem?.mp hj
    have hlt : a < Nat.find hex := by
      have := (List.getElem?_eq_some_iff.mp ha).1
      simp only [List.length_take] at this
      omega
    rw [List.getElem?_take_of_lt hlt] at ha
    exact Nat.find_min hex hlt ⟨j, ha, hjk.1.trans hsame.1, hjk.2.trans hsame.2⟩
  have hmem : some k ∈ kept.map some := by
    rw [hkept, ← hk]
    exact List.mem_map_of_mem ((hplaces _).mpr hfirst)
  exact ⟨k, by simpa using hmem, hsame⟩

/-! ### Merging -/

/-- What the merged list of two lists is. -/
structure Merged (previous current kept : List Item) : Prop where
  /-- It has the items at the positions of both lists where one stands that is the same as none
  before it, in order and as they are. -/
  firsts : FirstsOf (previous ++ current) kept
  /-- No two of its items are the same. -/
  apart : kept.Pairwise fun i j => ¬ i.Same j
  /-- Every item of both lists is the same as one of it. -/
  complete : ∀ i ∈ previous ++ current, ∃ k ∈ kept, k.Same i
  /-- Items stand in it as they stand in both lists. -/
  order : kept.Sublist (previous ++ current)
  /-- It begins with what the first list alone would leave; of the second list follow items that
  are the same as none of the first. -/
  wins : ∃ rest, kept = merge previous [] ++ rest ∧ rest.Sublist current ∧
    ∀ k ∈ rest, ∀ i ∈ previous, ¬ i.Same k

theorem merged_merge (previous current : List Item) :
    Merged previous current (merge previous current) := by
  have hfirsts := firstsOf_firsts (previous ++ current)
  refine
    { firsts := hfirsts
      apart := hfirsts.apart
      complete := fun i hi => hfirsts.complete hi
      order := sublist_firsts [] _
      wins := ⟨Item.firsts (previous.map identity) current, ?_, sublist_firsts _ _, ?_⟩ }
  · rw [merge, merge, firsts_append, List.append_nil, List.append_nil]
  · intro k hk i hi hsame
    refine not_mem_of_mem_firsts hk ?_
    rw [← same_iff.mp hsame]
    exact List.mem_map_of_mem hi

/-- A list that was merged shows the same symbols and documents as before. -/
theorem mem_identity_firsts (l : List Item) (x : String × Uri) :
    x ∈ (firsts [] l).map identity ↔ x ∈ l.map identity := by
  constructor
  · exact fun h => ((sublist_firsts [] l).map identity).subset h
  · intro h
    obtain ⟨i, hi, rfl⟩ := List.mem_map.mp h
    obtain ⟨k, hk, hsame⟩ := (firstsOf_firsts l).complete hi
    rw [← same_iff.mp hsame]
    exact List.mem_map_of_mem hk

/-- What was merged needs no merging. -/
theorem firsts_firsts (l : List Item) : firsts [] (firsts [] l) = firsts [] l :=
  firsts_eq_self (fun _ _ => List.not_mem_nil) (firstsOf_firsts l).apart

/-- What follows a list is merged with what the list leaves as with the list itself. -/
theorem firsts_firsts_append (l later : List Item) :
    firsts [] (firsts [] l ++ later) = firsts [] (l ++ later) := by
  have hseen : ∀ x, x ∈ (firsts [] l).map identity ++ [] ↔ x ∈ l.map identity ++ [] := by
    simpa using mem_identity_firsts l
  rw [firsts_append, firsts_append, firsts_firsts, firsts_congr hseen]

/-- **Merging keeps the items at the positions where one stands that is the same as none before
it**, and merging in stages comes to the same as merging at once. -/
theorem merge_keeps_firsts (previous current : List Item) :
    Merged previous current (merge previous current) ∧
    ∀ later, merge (merge previous current) later = merge previous (current ++ later) := by
  refine ⟨merged_merge previous current, fun later => ?_⟩
  rw [merge, merge, merge, firsts_firsts_append, List.append_assoc]

/-- Of two symbols of one document the first is kept; the symbol of another document is another. -/
example :
    let a : Uri := ⟨"file:///a"⟩
    let b : Uri := ⟨"file:///b"⟩
    merge [⟨"foo", ["1"], a⟩, ⟨"bar", ["2"], a⟩] [⟨"foo", ["3"], a⟩, ⟨"foo", ["4"], b⟩]
      = [⟨"foo", ["1"], a⟩, ⟨"bar", ["2"], a⟩, ⟨"foo", ["4"], b⟩] := by decide +kernel

end CursorContext.Item
