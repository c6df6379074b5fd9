import CursorContext.Item.Merge
import Mathlib.Data.List.Basic

/-!
# What a budget keeps

A budget keeps the longest front part of a list that may be handed out with it, and what counts is
what is handed out: the characters of the joined lines.  The lengths of items are found without
joining anything, and the sum of those kept so far is never taken again.

Sums are words of 64 bits.  As long as all items together may be counted in such a word, no sum on
the way is too large for one, whatever the budget is; so the words give what the numbers give.

## Main definitions

* `Item.handedOut` — how many characters are handed out for some items.
* `Item.Longest budget items kept` — `kept` is the longest front part that stays within the budget.
* `addCount`, `Item.lengthWord?`, `Item.withinWords` — the same lengths and the same loop in words,
  with nothing for a sum that is no word.

## Main results

* `Item.longest_within` — a budget keeps the longest front part.
* `Longest.mono` — a larger budget keeps more.
* `Item.withinWords_eq` — in words the loop gives the same.
* `Item.within_is_longest` — all of it.
-/

namespace CursorContext

/-- A count added to a word, unless the sum is too large for a word. -/
def addCount (w : UInt64) (n : Nat) : Option UInt64 :=
  if w.toNat + n < UInt64.size then some (w + UInt64.ofNat n) else none

theorem exists_addCount {w : UInt64} {n : Nat} (h : w.toNat + n < UInt64.size) :
    ∃ s, addCount w n = some s ∧ s.toNat = w.toNat + n := by
  refine ⟨w + UInt64.ofNat n, if_pos h, ?_⟩
  have hn : n < UInt64.size := Nat.lt_of_le_of_lt (Nat.le_add_left _ _) h
  rw [UInt64.toNat_add, UInt64.toNat_ofNat_of_lt' hn]
  exact Nat.mod_eq_of_lt h

namespace Item

variable {items kept kept' : List Item} {i : Item}

/-! ### Lengths -/

/-- Joining puts a line feed between two lines. -/
theorem content_eq (i : Item) : i.content = "\n".intercalate i.lines := by
  have hjoin : ∀ lines : List String,
      joinLines lines = ['\n'].intercalate (lines.map String.toList) := by
    intro lines
    induction lines with
    | nil => rfl
    | cons line rest ih =>
      cases rest with
      | nil => simp [joinLines]
      | cons next rest => simp [joinLines, ih]
  rw [← String.toList_inj, String.toList_intercalate]
  simp [content, hjoin]

/-- How many characters are handed out for some items: those of the contents of their snippets. -/
def handedOut (items : List Item) : Nat := total (·.snippet.content.length) items

@[simp] theorem handedOut_nil : handedOut [] = 0 := rfl

@[simp] theorem handedOut_cons (i : Item) (rest : List Item) :
    handedOut (i :: rest) = i.length + handedOut rest := by
  rw [length_eq]
  rfl

theorem length_le_handedOut (hi : i ∈ items) : i.length ≤ handedOut items := by
  induction items with
  | nil => cases hi
  | cons j rest ih =>
    rw [handedOut_cons]
    rcases List.mem_cons.mp hi with rfl | hi
    · exact Nat.le_add_right _ _
    · exact Nat.le_trans (ih hi) (Nat.le_add_left _ _)

/-- The length of an item as a word: those of its lines added up, and then the line feeds between
them, with nothing if a sum is too large. -/
def lengthWord? (i : Item) : Option UInt64 :=
  (i.lines.foldlM (fun w line => addCount w line.length) 0).bind (addCount · (i.lines.length - 1))

theorem exists_foldlM_addCount (lines : List String) (w : UInt64)
    (h : w.toNat + total String.length lines < UInt64.size) :
    ∃ s, lines.foldlM (fun w line => addCount w line.length) w = some s ∧
      s.toNat = w.toNat + total String.length lines := by
  induction lines generalizing w with
  | nil => exact ⟨w, rfl, rfl⟩
  | cons line rest ih =>
    rw [total_cons] at h ⊢
    obtain ⟨s, hs, hsum⟩ := exists_addCount (w := w) (n := line.length) (by omega)
    obtain ⟨s', hs', hsum'⟩ := ih s (by omega)
    refine ⟨s', ?_, by omega⟩
    rw [List.foldlM_cons, hs]
    exact hs'

/-- The length of an item that may be counted in a word is that of its content. -/
theorem exists_lengthWord? (h : i.length < UInt64.size) :
    ∃ s, i.lengthWord? = some s ∧ s.toNat = i.length := by
  unfold length at h ⊢
  obtain ⟨w, hw, hlines⟩ := exists_foldlM_addCount i.lines 0 (by simp; omega)
  have hzero : w.toNat = total String.length i.lines := by simpa using hlines
  obtain ⟨s, hs, hsum⟩ := exists_addCount (w := w) (n := i.lines.length - 1) (by omega)
  refine ⟨s, ?_, by omega⟩
  rw [lengthWord?, hw]
  exact hs

/-! ### The longest front part -/

/-- Of the front parts of a list, the longest for which no more is handed out than a budget. -/
structure Longest (budget : Nat) (items kept : List Item) : Prop where
  /-- It is a front part. -/
  front : kept <+: items
  /-- No more is handed out for it than the budget. -/
  fits : handedOut kept ≤ budget
  /-- For every longer one, more is handed out. -/
  longest : ∀ more, more <+: items → kept.length < more.length → budget < handedOut more

/-- **A budget keeps the longest front part that stays within it.** -/
theorem longest_within (budget : Nat) (items : List Item) :
    Longest budget items (within budget items) := by
  induction items generalizing budget with
  | nil =>
    refine ⟨List.prefix_refl _, Nat.zero_le _, fun more hmore hlt => ?_⟩
    rw [List.prefix_nil.mp hmore] at hlt
    exact absurd hlt (Nat.lt_irrefl _)
  | cons i rest ih =>
    rcases Nat.lt_or_ge budget i.length with hlt | hle
    · rw [within_cons_of_lt rest hlt]
      refine ⟨List.nil_prefix, Nat.zero_le _, fun more hmore hlonger => ?_⟩
      -- a front part that is longer than none begins with the item that does not fit
      rcases List.prefix_cons_iff.mp hmore with rfl | ⟨t, rfl, -⟩
      · exact absurd hlonger (Nat.lt_irrefl _)
      · rw [handedOut_cons]
        omega
    · obtain ⟨hfront, hfits, hlongest⟩ := ih (budget - i.length)
      rw [within_cons_of_le rest hle]
      refine ⟨(List.prefix_cons_inj i).mpr hfront, ?_, fun more hmore hlonger => ?_⟩
      · rw [handedOut_cons]
        omega
      · rcases List.prefix_cons_iff.mp hmore with rfl | ⟨t, rfl, ht⟩
        · exact absurd hlonger (Nat.not_lt_zero _)
        · have hmore := hlongest t ht (Nat.lt_of_succ_lt_succ hlonger)
          rw [handedOut_cons]
          omega

/-- A larger budget keeps what a smaller one keeps. -/
theorem Longest.mono {budget larger : Nat} (h : Longest budget items kept)
    (h' : Longest larger items kept') (hle : budget ≤ larger) : kept <+: kept' := by
  rcases Nat.lt_or_ge kept'.length kept.length with hlt | hge
  · -- otherwise the one of the smaller budget would not fit the larger one
    have hover := h'.longest kept h.front hlt
    have hfits := h.fits
    omega
  · exact List.prefix_of_prefix_length_le h.front h'.front hge

/-! ### In words -/

/-- The items that a budget keeps, where a word holds the sum of those so far; nothing if a sum is
too large for a word. -/
def withinWords (budget used : UInt64) : List Item → Option (List Item)
  | [] => some []
  | i :: rest =>
    i.lengthWord?.bind fun length =>
      (addCount used length.toNat).bind fun sum =>
        if budget < sum then some [] else (withinWords budget sum rest).map (i :: ·)

/-- **As long as all items may be counted in a word, words give what numbers give.** -/
theorem withinWords_eq {budget used : UInt64} (hused : used ≤ budget)
    (h : used.toNat + handedOut items < UInt64.size) :
    withinWords budget used items = some (within (budget.toNat - used.toNat) items) := by
  induction items generalizing used with
  | nil => rfl
  | cons i rest ih =>
    rw [handedOut_cons] at h
    rw [UInt64.le_iff_toNat_le] at hused
    obtain ⟨length, hlength, hcount⟩ := exists_lengthWord? (i := i) (by omega)
    obtain ⟨sum, hsum, hadded⟩ := exists_addCount (w := used) (n := length.toNat) (by omega)
    rw [withinWords, hlength, Option.bind_some, hsum, Option.bind_some]
    by_cases hover : budget < sum
    · rw [if_pos hover, within_cons_of_lt]
      rw [UInt64.lt_iff_toNat_lt] at hover
      omega
    · have hle : sum.toNat ≤ budget.toNat := Nat.le_of_not_lt hover
      have hrest : budget.toNat - used.toNat - i.length = budget.toNat - sum.toNat := by omega
      rw [if_neg hover, ih hle (by omega), within_cons_of_le rest (by omega), hrest]
      rfl

/-- **A budget keeps the longest front part that stays within it, measured on what is handed out.**
For items that may be counted in a word, whatever the budget is, no sum is too large for a word: not
the length of an item, which is that of its lines joined by line feeds, and not the sum of those so
far.  And a larger budget keeps what a smaller one keeps. -/
theorem within_is_longest (items : List Item) (budget : UInt64)
    (h : handedOut items < UInt64.size) :
    withinWords budget 0 items = some (within budget.toNat items) ∧
    Longest budget.toNat items (within budget.toNat items) ∧
    (∀ larger : UInt64, budget ≤ larger →
      within budget.toNat items <+: within larger.toNat items) ∧
    ∀ i ∈ items, i.snippet.content = "\n".intercalate i.lines ∧
      ∃ length, i.lengthWord? = some length ∧ length.toNat = i.snippet.content.length := by
  have hlongest := longest_within budget.toNat items
  refine ⟨?_, hlongest, fun larger hle => ?_, fun i hi => ⟨content_eq i, ?_⟩⟩
  · have hzero : (0 : UInt64) ≤ budget := UInt64.le_iff_toNat_le.mpr (Nat.zero_le _)
    have hwords : withinWords budget 0 items = some (within (budget.toNat - 0) items) :=
      withinWords_eq hzero (by simpa using h)
    rwa [Nat.sub_zero] at hwords
  · exact hlongest.mono (longest_within larger.toNat items) (UInt64.le_iff_toNat_le.mp hle)
  · obtain ⟨length, hlength, hcount⟩ :=
      exists_lengthWord? (Nat.lt_of_le_of_lt (length_le_handedOut hi) h)
    exact ⟨length, hlength, hcount.trans (length_eq i)⟩

/-- Two lines with nothing in the second, an item without lines, a character of several bytes, and
an item that is too long for what is left. -/
def assorted : List Item :=
  [⟨"a", ["ab", ""], ⟨"file:///a"⟩⟩, ⟨"b", [], ⟨"file:///a"⟩⟩, ⟨"c", ["λ"], ⟨"file:///a"⟩⟩,
    ⟨"d", ["xy"], ⟨"file:///a"⟩⟩, ⟨"e", [], ⟨"file:///a"⟩⟩]

/-- Of a budget of five, four characters are handed out, for nothing is kept behind an item that
does not fit; a budget of six keeps everything. -/
theorem within_is_longest_assorted :
    handedOut assorted < UInt64.size ∧
    within 5 assorted = assorted.take 3 ∧ within 6 assorted = assorted ∧
    withinWords 5 0 assorted = some (assorted.take 3) ∧
    Longest 5 assorted (assorted.take 3) ∧ handedOut (assorted.take 3) = 4 := by
  have hfits : handedOut assorted < UInt64.size := by decide +kernel
  have hkept : within 5 assorted = assorted.take 3 := by decide +kernel
  obtain ⟨hwords, hlongest, -, -⟩ := within_is_longest assorted 5 hfits
  have hfive : (5 : UInt64).toNat = 5 := rfl
  rw [hfive, hkept] at hwords hlongest
  exact ⟨hfits, hkept, by decide +kernel, hwords, hlongest, by decide +kernel⟩

end Item

end CursorContext
