import CursorContext.Key
import CursorContext.Uri.Authority
import Mathlib.Data.List.TakeWhile

/-!
# Printed keys

The printed form of a key is made of its parts and of marks between them, and the document may have
the same marks in it: `file:///a#1..2@0` names a document.  So a printed form is read from its end.
Numbers are printed as digits only; hence the last at sign is the one in front of the depth, and in
what stands before it the last number sign is the one behind the document.

A number is read only from the digits that it is printed with, so no two texts are read as the same
key either.

## Main definitions

* `numeral?` — the number that is printed as some digits.
* `Span.ofChars?`, `Key.ofText?` — spans and keys, read from what they are printed as.

## Main results

* `splitAtMark_eq_iff`, `splitAtLast_eq_iff` — where texts are split at a mark.
* `ofText?_eq_some_iff` — what is read as a key is what the key is printed as.
* `text_identifies` — keys are told apart by what they are printed as.
-/

namespace CursorContext

namespace Authority

variable {mark : Char} {cs front rest : List Char}

theorem ne_mark_of_not_mem (h : mark ∉ front) : ∀ c ∈ front, (c != mark) = true := by
  intro c hc
  rw [bne_iff_ne]
  rintro rfl
  exact h hc

/-- A text is split at a mark in front of which there is no other. -/
theorem splitAtMark_eq_iff :
    splitAtMark mark cs = (front, some rest) ↔ mark ∉ front ∧ cs = front ++ mark :: rest := by
  constructor
  · intro h
    rw [splitAtMark, Prod.mk.injEq] at h
    obtain ⟨hfront, hrest⟩ := h
    have hcs : cs.takeWhile (· != mark) ++ cs.dropWhile (· != mark) = cs :=
      List.takeWhile_append_dropWhile
    cases hdrop : cs.dropWhile (· != mark) with
    | nil =>
      rw [hdrop] at hrest
      cases hrest
    | cons c behind =>
      rw [hdrop] at hrest
      cases hrest
      -- what is dropped begins with a character that is not skipped
      have hmark : c = mark := by
        have hnot := List.head?_dropWhile_not (· != mark) cs
        rw [hdrop] at hnot
        simpa using hnot
      rw [hfront, hdrop, hmark] at hcs
      refine ⟨?_, hcs.symm⟩
      intro hmem
      rw [← hfront] at hmem
      have hne := List.mem_takeWhile_imp hmem
      simp at hne
  · rintro ⟨hmark, rfl⟩
    have hne := ne_mark_of_not_mem hmark
    rw [splitAtMark, List.takeWhile_append_of_pos hne, List.dropWhile_append_of_pos hne]
    simp

/-- The last mark of a text is the first one from its end. -/
theorem splitAtLast_eq_some_iff :
    splitAtLast mark cs = (some front, rest) ↔
      splitAtMark mark cs.reverse = (rest.reverse, some front.reverse) := by
  rw [splitAtLast, splitAtMark]
  cases cs.reverse.dropWhile (· != mark) with
  | nil => simp
  | cons c behind => simp [List.reverse_eq_iff, and_comm]

/-- A text is split at a mark behind which there is no other. -/
theorem splitAtLast_eq_iff :
    splitAtLast mark cs = (some front, rest) ↔ mark ∉ rest ∧ cs = front ++ mark :: rest := by
  rw [splitAtLast_eq_some_iff, splitAtMark_eq_iff, List.mem_reverse]
  have hreverse : (front ++ mark :: rest).reverse = rest.reverse ++ mark :: front.reverse := by simp
  rw [← hreverse, List.reverse_inj]

end Authority

/-! ### Numbers -/

/-- The number below a bound that is printed as some digits. -/
def numeral? (bound : Nat) (cs : List Char) : Option Nat :=
  let n := Nat.ofDigitChars 10 cs 0
  if n < bound ∧ Nat.toDigits 10 n = cs then some n else none

theorem numeral?_eq_some_iff {bound n : Nat} {cs : List Char} :
    numeral? bound cs = some n ↔ n < bound ∧ Nat.toDigits 10 n = cs := by
  rw [numeral?]
  constructor
  · intro h
    split at h
    · next hn =>
      cases h
      exact hn
    · cases h
  · rintro ⟨hn, rfl⟩
    rw [Nat.ofDigitChars_ten_toDigits]
    simp [hn]

/-- A number is printed as digits only. -/
theorem not_mem_toDigits {c : Char} (h : c.isDigit = false) (n : Nat) :
    c ∉ Nat.toDigits 10 n := by
  intro hc
  have hdigit := Nat.isDigit_of_mem_toDigits (by decide) (by decide) hc
  rw [h] at hdigit
  cases hdigit

/-! ### Spans -/

namespace Span

/-- The span that is printed as some characters. -/
def ofChars? (cs : List Char) : Option Span :=
  match Authority.splitAtMark '.' cs with
  | (start, some ('.' :: stop)) =>
    match numeral? UInt32.size start, numeral? UInt32.size stop with
    | some start, some stop => some ⟨UInt32.ofNat start, UInt32.ofNat stop⟩
    | _, _ => none
  | _ => none

theorem toList_text (s : Span) : s.text.toList
    = Nat.toDigits 10 s.start.toNat ++ '.' :: '.' :: Nat.toDigits 10 s.stop.toNat := by
  simp [text]
  rfl

theorem ofChars?_eq_some_iff {s : Span} {cs : List Char} :
    ofChars? cs = some s ↔ s.text.toList = cs := by
  rw [ofChars?, toList_text]
  constructor
  · intro h
    split at h
    · next start stop hsplit =>
      split at h
      · next m n hstart hstop =>
        cases h
        obtain ⟨hm, rfl⟩ := numeral?_eq_some_iff.mp hstart
        obtain ⟨hn, rfl⟩ := numeral?_eq_some_iff.mp hstop
        obtain ⟨-, rfl⟩ := Authority.splitAtMark_eq_iff.mp hsplit
        rw [UInt32.toNat_ofNat_of_lt' hm, UInt32.toNat_ofNat_of_lt' hn]
      · cases h
    · cases h
  · rintro rfl
    have hsplit : Authority.splitAtMark '.'
        (Nat.toDigits 10 s.start.toNat ++ '.' :: '.' :: Nat.toDigits 10 s.stop.toNat)
          = (Nat.toDigits 10 s.start.toNat, some ('.' :: Nat.toDigits 10 s.stop.toNat)) :=
      Authority.splitAtMark_eq_iff.mpr ⟨not_mem_toDigits (by decide) _, rfl⟩
    have hstart := numeral?_eq_some_iff.mpr ⟨s.start.toNat_lt, rfl⟩
    have hstop := numeral?_eq_some_iff.mpr ⟨s.stop.toNat_lt, rfl⟩
    rw [hsplit]
    simp only [hstart, hstop, UInt32.ofNat_toNat]

/-- A span is printed as digits and points only. -/
theorem not_mem_text {c : Char} (hdigit : c.isDigit = false) (hpoint : c ≠ '.') (s : Span) :
    c ∉ s.text.toList := by
  rw [toList_text]
  simp [not_mem_toDigits hdigit, hpoint]

end Span

namespace Depth

/-- The depth that is printed as some characters. -/
def ofChars? (cs : List Char) : Option Depth :=
  (numeral? UInt8.size cs).map fun n => ⟨UInt8.ofNat n⟩

theorem toList_text (d : Depth) : d.text.toList = Nat.toDigits 10 d.hops.toNat := by
  simp [text]

theorem ofChars?_eq_some_iff {d : Depth} {cs : List Char} :
    ofChars? cs = some d ↔ d.text.toList = cs := by
  rw [ofChars?, toList_text, Option.map_eq_some_iff]
  constructor
  · rintro ⟨n, hn, rfl⟩
    obtain ⟨hlt, rfl⟩ := numeral?_eq_some_iff.mp hn
    rw [UInt8.toNat_ofNat_of_lt' hlt]
  · rintro rfl
    refine ⟨d.hops.toNat, numeral?_eq_some_iff.mpr ⟨d.hops.toNat_lt, rfl⟩, ?_⟩
    rw [UInt8.ofNat_toNat]

end Depth

/-! ### Keys -/

namespace Key

variable {k : Key} {s : String}

/-- The key that is printed as a text. -/
def ofText? (s : String) : Option Key :=
  match Authority.splitAtLast '@' s.toList with
  | (some front, depth) =>
    match Authority.splitAtLast '#' front with
    | (some document, span) =>
      match Span.ofChars? span, Depth.ofChars? depth with
      | some span, some depth => some ⟨⟨String.ofList document⟩, span, depth⟩
      | _, _ => none
    | (none, _) => none
  | (none, _) => none

theorem toList_text (k : Key) : k.text.toList
    = (k.document.text.toList ++ '#' :: k.span.text.toList) ++ '@' :: k.depth.text.toList := by
  simp [text]

/-- Whatever the document is, the last at sign is the one in front of the depth. -/
theorem splitAtLast_text (k : Key) : Authority.splitAtLast '@' k.text.toList
    = (some (k.document.text.toList ++ '#' :: k.span.text.toList), k.depth.text.toList) := by
  refine Authority.splitAtLast_eq_iff.mpr ⟨?_, k.toList_text⟩
  rw [Depth.toList_text]
  exact not_mem_toDigits (by decide) _

/-- And in front of it the last number sign is the one behind the document. -/
theorem splitAtLast_front (k : Key) :
    Authority.splitAtLast '#' (k.document.text.toList ++ '#' :: k.span.text.toList)
      = (some k.document.text.toList, k.span.text.toList) :=
  Authority.splitAtLast_eq_iff.mpr ⟨k.span.not_mem_text (by decide) (by decide), rfl⟩

/-- A key is read from what it is printed as. -/
theorem ofText?_text (k : Key) : ofText? k.text = some k := by
  have hspan : Span.ofChars? k.span.text.toList = some k.span :=
    Span.ofChars?_eq_some_iff.mpr rfl
  have hdepth : Depth.ofChars? k.depth.text.toList = some k.depth :=
    Depth.ofChars?_eq_some_iff.mpr rfl
  rw [ofText?, k.splitAtLast_text]
  simp only [k.splitAtLast_front, hspan, hdepth, String.ofList_toList]

/-- And from nothing else. -/
theorem text_eq_of_ofText? (h : ofText? s = some k) : k.text = s := by
  rw [ofText?] at h
  split at h
  · next front depth hback =>
    split at h
    · next document span hfront =>
      split at h
      · next hspan hdepth =>
        cases h
        obtain ⟨-, hs⟩ := Authority.splitAtLast_eq_iff.mp hback
        obtain ⟨-, rfl⟩ := Authority.splitAtLast_eq_iff.mp hfront
        rw [← String.toList_inj, toList_text, hs, Span.ofChars?_eq_some_iff.mp hspan,
          Depth.ofChars?_eq_some_iff.mp hdepth, String.toList_ofList]
      · cases h
    · cases h
  · cases h

theorem ofText?_eq_some_iff : ofText? s = some k ↔ k.text = s := by
  constructor
  · exact text_eq_of_ofText?
  · rintro rfl
    exact k.ofText?_text

/-- **Keys are told apart by what they are printed as.**  A key is printed as its document, the ends
of its span and its depth with fixed marks between them; two keys are printed alike exactly if they
are the same, whatever their documents are; and all four parts are read back from the printed form,
and from no other text. -/
theorem text_identifies :
    (∀ k : Key, k.text = k.document.text ++ "#" ++ toString k.span.start.toNat ++ ".."
      ++ toString k.span.stop.toNat ++ "@" ++ toString k.depth.hops.toNat) ∧
    (∀ a b : Key, a.text = b.text ↔ a = b) ∧
    ∀ (s : String) (k : Key), ofText? s = some k ↔ k.text = s := by
  refine ⟨?_, ?_, ?_⟩
  · intro k
    rw [← String.toList_inj, toList_text, Span.toList_text, Depth.toList_text]
    simp
  · intro a b
    constructor
    · intro h
      have hb := ofText?_eq_some_iff.mpr h
      rw [ofText?_text, Option.some.injEq] at hb
      exact hb.symm
    · rintro rfl
      rfl
  · intro s k
    exact ofText?_eq_some_iff

/-- The document of this key looks like a printed key. -/
example : ofText? "file:///a#1..2@0#3..4@1" = some ⟨⟨"file:///a#1..2@0"⟩, ⟨3, 4⟩, ⟨1⟩⟩ := by
  decide +kernel

end Key

end CursorContext
