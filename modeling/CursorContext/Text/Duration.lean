/-!
# Durations in words

A whole number of milliseconds is shown in the largest of two units that it reaches: seconds with
as many decimals as are needed, otherwise milliseconds.  No time at all is shown in nanoseconds.

Whatever the unit, the text says how long the duration is: it can be read back.

## Main definitions

* `decimals`: the decimals of a number of thousandths, without trailing zeros.
* `milliseconds`: the text of a number of milliseconds.
* `thousandths`, `inUnit`, `read`: a text read back.

## Main results

* `read_milliseconds`: what is read back is what was shown.
* `milliseconds_inj`: durations are told apart by their texts.
-/

namespace CursorContext.Text

/-- The decimals, with their point, of `n < 1000` thousandths; none for zero. -/
def decimals (n : Nat) : String :=
  if n = 0 then ""
  else if n % 100 = 0 then "." ++ toString (n / 100)
  else if n % 10 = 0 then "." ++ toString (n / 100) ++ toString (n / 10 % 10)
  else "." ++ toString (n / 100) ++ toString (n / 10 % 10) ++ toString (n % 10)

/-- The text of a number of milliseconds. -/
def milliseconds (n : Nat) : String :=
  if n = 0 then "0ns"
  else if n < 1000 then toString n ++ "ms"
  else toString (n / 1000) ++ decimals (n % 1000) ++ "s"

/-! ### Reading back -/

/-- The value of decimals with their point: up to three digits, as if zeros followed them. -/
def thousandths (cs : List Char) : Nat :=
  let digits := cs.drop 1
  Nat.ofDigitChars 10 (digits ++ List.replicate (3 - digits.length) '0') 0

/-- The milliseconds of a whole number and what follows it: decimals, if there are any, and the
unit. -/
def inUnit (whole : Nat) : List Char → Nat
  | ['n', 's'] => whole / 1000000
  | ['m', 's'] => whole
  | rest => 1000 * whole + thousandths rest.dropLast

/-- The milliseconds that a text shows. -/
def read (cs : List Char) : Nat :=
  inUnit (Nat.ofDigitChars 10 (cs.takeWhile Char.isDigit) 0) (cs.dropWhile Char.isDigit)

theorem toList_toString {d : Nat} (h : d < 10) : (toString d).toList = [d.digitChar] := by
  simp [Nat.toDigits_of_lt_base h]

theorem ofDigitChars_three {a b c : Nat} (ha : a < 10) (hb : b < 10) (hc : c < 10) :
    Nat.ofDigitChars 10 [a.digitChar, b.digitChar, c.digitChar] 0 = 100 * a + 10 * b + c := by
  rw [Nat.ofDigitChars_cons_digitChar_of_lt_ten ha, Nat.ofDigitChars_cons_digitChar_of_lt_ten hb,
    Nat.ofDigitChars_cons_digitChar_of_lt_ten hc, Nat.ofDigitChars_nil]
  omega

/-- The zeros that are not shown are read back. -/
theorem thousandths_decimals {n : Nat} (h : n < 1000) :
    thousandths (decimals n).toList = n := by
  have hzero : 0 < 10 := by decide
  have hfirst : n / 100 < 10 := Nat.div_lt_of_lt_mul h
  have hsecond : n / 10 % 10 < 10 := Nat.mod_lt _ hzero
  have hthird : n % 10 < 10 := Nat.mod_lt _ hzero
  unfold decimals
  split
  · next hnone =>
    rw [hnone]
    rfl
  · split
    · rw [String.toList_append, toList_toString hfirst]
      refine (ofDigitChars_three hfirst hzero hzero).trans ?_
      omega
    · split
      · rw [String.toList_append, String.toList_append, toList_toString hfirst,
          toList_toString hsecond]
        refine (ofDigitChars_three hfirst hsecond hzero).trans ?_
        omega
      · rw [String.toList_append, String.toList_append, String.toList_append,
          toList_toString hfirst, toList_toString hsecond, toList_toString hthird]
        refine (ofDigitChars_three hfirst hsecond hthird).trans ?_
        omega

/-- Decimals begin with their point. -/
theorem toList_decimals (n : Nat) :
    (decimals n).toList = [] ∨ ∃ ds, (decimals n).toList = '.' :: ds := by
  unfold decimals
  split
  · exact .inl rfl
  · right
    split
    · exact ⟨_, by simp; rfl⟩
    · split
      · exact ⟨_, by simp; rfl⟩
      · exact ⟨_, by simp; rfl⟩

theorem inUnit_point (whole : Nat) (cs : List Char) :
    inUnit whole ('.' :: cs) = 1000 * whole + thousandths ('.' :: cs).dropLast := by
  simp [inUnit]

/-- A number is read up to what follows it. -/
theorem read_append (n : Nat) {c : Char} (hc : c.isDigit = false) (rest : List Char) :
    read (Nat.toDigits 10 n ++ c :: rest) = inUnit n (c :: rest) := by
  have hdigits : ∀ d ∈ Nat.toDigits 10 n, d.isDigit = true :=
    fun d hd => Nat.isDigit_of_mem_toDigits (by decide) (by decide) hd
  rw [read, List.takeWhile_append_of_pos hdigits, List.dropWhile_append_of_pos hdigits]
  simp [hc]

/-- **What is read back is what was shown.** -/
theorem read_milliseconds (n : Nat) : read (milliseconds n).toList = n := by
  unfold milliseconds
  split
  · next h =>
    rw [h]
    decide
  · split
    · have hshown : (toString n ++ "ms").toList = Nat.toDigits 10 n ++ ['m', 's'] := by
        simp
      rw [hshown, read_append n (by decide)]
      rfl
    · have hshown : (toString (n / 1000) ++ decimals (n % 1000) ++ "s").toList
          = Nat.toDigits 10 (n / 1000) ++ ((decimals (n % 1000)).toList ++ ['s']) := by
        simp
      have hvalue := thousandths_decimals (Nat.mod_lt n (by decide : 0 < 1000))
      rw [hshown]
      rcases toList_decimals (n % 1000) with hnone | ⟨ds, hsome⟩
      · rw [hnone] at hvalue ⊢
        rw [List.nil_append, read_append _ (by decide)]
        show 1000 * (n / 1000) + thousandths [] = n
        omega
      · rw [hsome] at hvalue ⊢
        rw [List.cons_append, read_append _ (by decide)]
        have hdrop : ('.' :: (ds ++ ['s'])).dropLast = '.' :: ds := by
          rw [← List.cons_append, List.dropLast_concat]
        rw [inUnit_point, hdrop, hvalue]
        omega

/-- **Durations are told apart by their texts.** -/
theorem milliseconds_inj {m n : Nat} : milliseconds m = milliseconds n ↔ m = n := by
  constructor
  · intro h
    rw [← read_milliseconds m, h, read_milliseconds]
  · rintro rfl
    rfl

end CursorContext.Text
