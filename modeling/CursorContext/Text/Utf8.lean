/-!
# UTF-8 read leniently

Bytes are read as UTF-8.  Where they are not UTF-8, every *maximal invalid part*, the longest run
of bytes that could have begun a character and did not finish it, or else one byte that begins
none, is shown as one replacement character.

The reader is a machine with one state: what is still owed of the character being read.

## Main definitions

* `Owed`: a character begun and not finished.
* `start`, `Owed.push`, `feed`: reading one byte.
* `decode`: reading a list of bytes.

## Main results

* `decode_encoded`: text that is written in UTF-8 reads as it stands.
-/

namespace CursorContext.Text.Utf8

/-- The replacement character, shown for each invalid part. -/
def replacement : Char := Char.ofNat 0xFFFD

/-- What is still owed of a character that has begun: the bits read so far, the number of bytes
missing, and the least and the greatest byte that may come next. -/
structure Owed where
  /-- The bits read so far. -/
  bits : Nat
  /-- How many bytes are missing. -/
  missing : Nat
  /-- The least byte that may come next. -/
  low : Nat
  /-- The greatest byte that may come next. -/
  high : Nat
  deriving DecidableEq, Repr

/-- The state between bytes: between characters, or inside one. -/
abbrev State := Option Owed

/-- Reading the first byte of a character: the characters shown and the state after it. -/
def start (b : Nat) : List Char × State :=
  if b ≤ 0x7F then ([Char.ofNat b], none)
  else if 0xC2 ≤ b ∧ b ≤ 0xDF then ([], some ⟨b - 0xC0, 1, 0x80, 0xBF⟩)
  else if b = 0xE0 then ([], some ⟨0, 2, 0xA0, 0xBF⟩)
  else if b = 0xED then ([], some ⟨0xD, 2, 0x80, 0x9F⟩)
  else if 0xE1 ≤ b ∧ b ≤ 0xEF then ([], some ⟨b - 0xE0, 2, 0x80, 0xBF⟩)
  else if b = 0xF0 then ([], some ⟨0, 3, 0x90, 0xBF⟩)
  else if 0xF1 ≤ b ∧ b ≤ 0xF3 then ([], some ⟨b - 0xF0, 3, 0x80, 0xBF⟩)
  else if b = 0xF4 then ([], some ⟨4, 3, 0x80, 0x8F⟩)
  else ([replacement], none)

/-- Reading a byte that continues a character: the bits it adds finish the character when it was
the last one missing. -/
def Owed.push (o : Owed) (b : Nat) : List Char × State :=
  let bits := o.bits * 64 + (b - 0x80)
  if o.missing ≤ 1 then ([Char.ofNat bits], none)
  else ([], some ⟨bits, o.missing - 1, 0x80, 0xBF⟩)

/-- Reading one byte.  A byte that cannot continue the character being read ends an invalid part
and begins afresh. -/
def feed : State → Nat → List Char × State
  | none, b => start b
  | some o, b =>
    if o.low ≤ b ∧ b ≤ o.high then o.push b
    else (replacement :: (start b).1, (start b).2)

/-- Reading bytes from a state; a character unfinished at the end is an invalid part. -/
def decodeFrom : State → List UInt8 → List Char
  | none, [] => []
  | some _, [] => [replacement]
  | s, b :: bs => (feed s b.toNat).1 ++ decodeFrom (feed s b.toNat).2 bs

/-- The characters that bytes show when they are read leniently. -/
def decode (bytes : List UInt8) : List Char := decodeFrom none bytes

/-! ### First bytes -/

theorem start_one {b : Nat} (h : b ≤ 0x7F) : start b = ([Char.ofNat b], none) := by
  rw [start, if_pos h]

theorem start_two {b : Nat} (h : 0xC2 ≤ b) (h' : b ≤ 0xDF) :
    start b = ([], some ⟨b - 0xC0, 1, 0x80, 0xBF⟩) := by
  rw [start, if_neg (by omega), if_pos ⟨h, h'⟩]

/-- The second byte of three is limited from below after the least first byte, and from above where
there would be half of a pair. -/
theorem start_three {b : Nat} (h : 0xE0 ≤ b) (h' : b ≤ 0xEF) :
    start b = ([], some ⟨b - 0xE0, 2, if b = 0xE0 then 0xA0 else 0x80,
      if b = 0xED then 0x9F else 0xBF⟩) := by
  rw [start, if_neg (by omega), if_neg (by omega)]
  by_cases hlow : b = 0xE0
  · subst hlow
    rfl
  by_cases hhigh : b = 0xED
  · subst hhigh
    rfl
  rw [if_neg hlow, if_neg hhigh, if_pos (by omega), if_neg hlow, if_neg hhigh]

/-- The second byte of four is limited from below after the least first byte, and from above after
the greatest. -/
theorem start_four {b : Nat} (h : 0xF0 ≤ b) (h' : b ≤ 0xF4) :
    start b = ([], some ⟨b - 0xF0, 3, if b = 0xF0 then 0x90 else 0x80,
      if b = 0xF4 then 0x8F else 0xBF⟩) := by
  rw [start, if_neg (by omega), if_neg (by omega), if_neg (by omega), if_neg (by omega),
    if_neg (by omega)]
  by_cases hlow : b = 0xF0
  · subst hlow
    rfl
  by_cases hhigh : b = 0xF4
  · subst hhigh
    rfl
  rw [if_neg hlow, if_pos (by omega), if_neg hlow, if_neg hhigh]

/-! ### Whole characters -/

theorem decodeFrom_none (b : UInt8) (bs : List UInt8) :
    decodeFrom none (b :: bs) = (start b.toNat).1 ++ decodeFrom (start b.toNat).2 bs := rfl

/-- A byte that continues a character and is not the last one. -/
theorem decodeFrom_more {bits missing low high : Nat} {b : UInt8} (bs : List UInt8)
    (h : low ≤ b.toNat) (h' : b.toNat ≤ high) :
    decodeFrom (some ⟨bits, missing + 2, low, high⟩) (b :: bs)
      = decodeFrom (some ⟨bits * 64 + (b.toNat - 0x80), missing + 1, 0x80, 0xBF⟩) bs := by
  simp [decodeFrom, feed, Owed.push, h, h']

/-- The last byte of a character. -/
theorem decodeFrom_last {bits low high : Nat} {b : UInt8} (bs : List UInt8)
    (h : low ≤ b.toNat) (h' : b.toNat ≤ high) :
    decodeFrom (some ⟨bits, 1, low, high⟩) (b :: bs)
      = Char.ofNat (bits * 64 + (b.toNat - 0x80)) :: decodeFrom none bs := by
  simp [decodeFrom, feed, Owed.push, h, h']

/-- A character that is written in UTF-8 is read. -/
theorem decodeFrom_encodeChar (c : Char) (bs : List UInt8) :
    decodeFrom none (String.utf8EncodeChar c ++ bs) = c :: decodeFrom none bs := by
  have hvalid : c.toNat < 0xD800 ∨ 0xDFFF < c.toNat ∧ c.toNat < 0x110000 := c.valid
  have hbyte : ∀ n < 256, (UInt8.ofNat n).toNat = n := fun n hn => UInt8.toNat_ofNat_of_lt' hn
  have hread : ∀ n, n = c.toNat → Char.ofNat n = c := by
    rintro _ rfl
    exact Char.ofNat_toNat c
  have hencode : String.utf8EncodeChar c = if c.toNat ≤ 0x7F then [UInt8.ofNat c.toNat]
    else if c.toNat ≤ 0x7FF then
      [UInt8.ofNat (c.toNat / 64 % 32 + 0xC0), UInt8.ofNat (c.toNat % 64 + 0x80)]
    else if c.toNat ≤ 0xFFFF then
      [UInt8.ofNat (c.toNat / 4096 % 16 + 0xE0), UInt8.ofNat (c.toNat / 64 % 64 + 0x80),
        UInt8.ofNat (c.toNat % 64 + 0x80)]
    else
      [UInt8.ofNat (c.toNat / 262144 % 8 + 0xF0), UInt8.ofNat (c.toNat / 4096 % 64 + 0x80),
        UInt8.ofNat (c.toNat / 64 % 64 + 0x80), UInt8.ofNat (c.toNat % 64 + 0x80)] := rfl
  rw [hencode]
  generalize c.toNat = v at hvalid hread
  split
  · next h =>
    rw [List.singleton_append, decodeFrom_none, hbyte v (by omega), start_one h, hread v rfl]
    rfl
  split
  · next h h' =>
    have hfirst := hbyte (v / 64 % 32 + 0xC0) (by omega)
    have hlast := hbyte (v % 64 + 0x80) (by omega)
    rw [List.cons_append, decodeFrom_none, hfirst, start_two (by omega) (by omega),
      List.nil_append, List.singleton_append, decodeFrom_last bs (by omega) (by omega), hlast,
      hread _ (by omega)]
  split
  · next h h' h'' =>
    have hfirst := hbyte (v / 4096 % 16 + 0xE0) (by omega)
    have hsecond := hbyte (v / 64 % 64 + 0x80) (by omega)
    have hlast := hbyte (v % 64 + 0x80) (by omega)
    rw [List.cons_append, decodeFrom_none, hfirst, start_three (by omega) (by omega),
      List.nil_append, List.cons_append, decodeFrom_more _ (by rw [hsecond]; split <;> omega)
        (by rw [hsecond]; split <;> omega), hsecond, List.singleton_append,
      decodeFrom_last bs (by omega) (by omega), hlast, hread _ (by omega)]
  · next h h' h'' =>
    have hfirst := hbyte (v / 262144 % 8 + 0xF0) (by omega)
    have hsecond := hbyte (v / 4096 % 64 + 0x80) (by omega)
    have hthird := hbyte (v / 64 % 64 + 0x80) (by omega)
    have hlast := hbyte (v % 64 + 0x80) (by omega)
    rw [List.cons_append, decodeFrom_none, hfirst, start_four (by omega) (by omega),
      List.nil_append, List.cons_append, decodeFrom_more _ (by rw [hsecond]; split <;> omega)
        (by rw [hsecond]; split <;> omega), hsecond, List.cons_append,
      decodeFrom_more _ (by omega) (by omega), hthird, List.singleton_append,
      decodeFrom_last bs (by omega) (by omega), hlast, hread _ (by omega)]

/-- **Text that is written in UTF-8 reads as it stands.** -/
theorem decode_encoded (cs : List Char) : decode (cs.flatMap String.utf8EncodeChar) = cs := by
  rw [decode]
  induction cs with
  | nil => rfl
  | cons c cs ih => rw [List.flatMap_cons, decodeFrom_encodeChar, ih]

end CursorContext.Text.Utf8
