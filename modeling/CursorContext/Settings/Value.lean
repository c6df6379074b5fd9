/-!
# Values of host settings

Hosts keep their settings as a tree of values.  Numbers are whole or not, and which of the two a
number is shows in how it is written and not in its size.

## Main definitions

* `Value`: a tree of settings.
* `Value.field?`: the value of a field.
* `Value.word?`, `Value.flag?`: a word of 64 bits, a truth value.
-/

namespace CursorContext.Settings

/-- A tree of settings. -/
inductive Value
  /-- Nothing. -/
  | null
  /-- A truth value. -/
  | flag (b : Bool)
  /-- A number written without a point and an exponent. -/
  | whole (n : Int)
  /-- Any other number, as it is written. -/
  | real (digits : String)
  /-- A text. -/
  | text (s : String)
  /-- A list. -/
  | list (items : List Value)
  /-- Named fields. -/
  | record (fields : List (String × Value))
  deriving Repr, Inhabited

namespace Value

/-- The value of a field; other values than records have none. -/
def field? (name : String) : Value → Option Value
  | .record fields => (fields.find? (·.1 == name)).map (·.2)
  | _ => none

/-- A whole number that fits a word of 64 bits. -/
def word? : Value → Option Nat
  | .whole n => if 0 ≤ n ∧ n < 18446744073709551616 then some n.toNat else none
  | _ => none

/-- A truth value. -/
def flag? : Value → Option Bool
  | .flag b => some b
  | _ => none

end Value

end CursorContext.Settings
