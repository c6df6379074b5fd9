/-!
# Percent-encoding

A byte is written as a percent sign and two upper-case hexadecimal digits.  Which characters are
written so depends on the part of a URI; those outside ASCII always are, byte by byte in UTF-8.
Reading turns every `%XX` into its byte and leaves a stray percent sign as it is.

## Main definitions

* `inOpaquePath`, `inFragment`, `inPath`, `inQuery`, `inUserInfo`: what each part encodes.
* `encode`: characters to encoded characters.
* `decode`: encoded characters to bytes.

## Main results

* `decode_encode`: text without percent signs, encoded in any way, stands for its UTF-8.
-/

namespace CursorContext.Percent

/-- A set of ASCII characters to encode. -/
abbrev CharSet := Char → Bool

/-- The control characters and DEL. -/
def inOpaquePath : CharSet := fun c => c.toNat < 0x20 || c.toNat == 0x7F

/-- In a fragment also the blank, the double quote, angle brackets and the backquote. -/
def inFragment : CharSet := fun c =>
  inOpaquePath c || [' ', '\x22', '<', '>', '\x60'].contains c

/-- In a path also the number sign, the question mark and curly brackets. -/
def inPath : CharSet := fun c => inFragment c || ['#', '?', '\x7b', '\x7d'].contains c

/-- In a query the control characters, the blank, the double quote, the number sign and angle
brackets, and in a scheme with known hosts the apostrophe. -/
def inQuery (special : Bool) : CharSet := fun c =>
  inOpaquePath c || [' ', '\x22', '#', '<', '>'].contains c || (special && c == '\x27')

/-- In the user information also everything that separates the parts of a URI. -/
def inUserInfo : CharSet := fun c =>
  inPath c || ['/', ':', ';', '=', '@', '[', '\\', ']', '^', '|'].contains c

/-- An upper-case hexadecimal digit. -/
def digit (n : Nat) : Char :=
  if n < 10 then Char.ofNat (48 + n) else Char.ofNat (55 + n)

/-- The value of a hexadecimal digit in either case. -/
def digitValue? (c : Char) : Option Nat :=
  let n := c.toNat
  if 48 ≤ n ∧ n ≤ 57 then some (n - 48)
  else if 65 ≤ n ∧ n ≤ 70 then some (n - 55)
  else if 97 ≤ n ∧ n ≤ 102 then some (n - 87)
  else none

/-- A byte as a percent sign and two digits. -/
def encodeByte (b : UInt8) : List Char :=
  ['%', digit (b.toNat / 16), digit (b.toNat % 16)]

/-- A character as it is, or byte by byte if it is in the set or outside ASCII. -/
def encodeChar (set : CharSet) (c : Char) : List Char :=
  if set c || 0x80 ≤ c.toNat then (String.utf8EncodeChar c).flatMap encodeByte else [c]

/-- Characters with those of the set, and all outside ASCII, encoded. -/
def encode (set : CharSet) (cs : List Char) : List Char := cs.flatMap (encodeChar set)

@[simp] theorem encode_nil (set : CharSet) : encode set [] = [] := rfl

@[simp] theorem encode_cons (set : CharSet) (c : Char) (cs : List Char) :
    encode set (c :: cs) = encodeChar set c ++ encode set cs := by
  simp [encode]

/-- The bytes that encoded characters stand for. -/
def decode : List Char → List UInt8
  | [] => []
  | '%' :: a :: b :: rest =>
    match digitValue? a, digitValue? b with
    | some x, some y => UInt8.ofNat (16 * x + y) :: decode rest
    | _, _ => 0x25 :: decode (a :: b :: rest)
  | c :: rest => String.utf8EncodeChar c ++ decode rest

/-! ### Reading what was encoded -/

theorem digitValue?_digit : ∀ n < 16, digitValue? (digit n) = some n := by decide

theorem decode_encodeByte (b : UInt8) (rest : List Char) :
    decode (encodeByte b ++ rest) = b :: decode rest := by
  have hb : b.toNat < 256 := b.toNat_lt
  have hhigh := digitValue?_digit (b.toNat / 16) (by omega)
  have hlow := digitValue?_digit (b.toNat % 16) (by omega)
  have hdigits : 16 * (b.toNat / 16) + b.toNat % 16 = b.toNat := by omega
  simp only [encodeByte, List.cons_append, List.nil_append, decode, hhigh, hlow, hdigits,
    UInt8.ofNat_toNat]

theorem decode_encodeBytes (bytes : List UInt8) (rest : List Char) :
    decode (bytes.flatMap encodeByte ++ rest) = bytes ++ decode rest := by
  induction bytes with
  | nil => rfl
  | cons b bytes ih =>
    rw [List.flatMap_cons, List.append_assoc, decode_encodeByte, ih, List.cons_append]

theorem decode_encodeChar (set : CharSet) {c : Char} (h : c ≠ '%') (rest : List Char) :
    decode (encodeChar set c ++ rest) = String.utf8EncodeChar c ++ decode rest := by
  unfold encodeChar
  split
  · exact decode_encodeBytes _ rest
  · rw [List.singleton_append, decode]
    exact fun a b rest' hc _ => h hc

/-- **Whatever is encoded of a text without percent signs, the result stands for its UTF-8.** -/
theorem decode_encode (set : CharSet) {cs : List Char} (h : '%' ∉ cs) :
    decode (encode set cs) = cs.flatMap String.utf8EncodeChar := by
  induction cs with
  | nil => rfl
  | cons c cs ih =>
    have hc : c ≠ '%' := (List.ne_of_not_mem_cons h).symm
    rw [encode_cons, decode_encodeChar set hc, ih (List.not_mem_of_not_mem_cons h),
      List.flatMap_cons]

end CursorContext.Percent
