import CursorContext.NumberSet

/-!
# Cancellation tokens

Tokens form a tree.  Cancelling a token cancels it and everything below it, now and later; nothing
else cancels it, and a cancelled token stays so.

A token carries its own number and those of the tokens above it, and the tree keeps the numbers
that were cancelled directly.  Whether a token is cancelled is then read off its line of ancestors.

## Main definitions

* `Token`, `TokenTree`: tokens and what is known of them.
* `TokenTree.root`, `TokenTree.child`: new tokens.
* `TokenTree.cancel`, `TokenTree.isCancelled`: cancelling and asking.

## Main results

* `TokenTree.isCancelled_cancel`: who is cancelled by a cancellation.
* `TokenTree.isCancelled_child`: a token below a cancelled one is born cancelled.
-/

namespace CursorContext

/-- A token: its number and the numbers of the tokens above it. -/
structure Token where
  /-- The number of the token. -/
  id : Nat
  /-- The numbers of the tokens above it, nearest first. -/
  above : List Nat
  deriving DecidableEq, Repr, Inhabited

/-- The token and everything above it. -/
def Token.line (t : Token) : List Nat := t.id :: t.above

/-- What is known of all tokens. -/
structure TokenTree where
  /-- How many tokens were made. -/
  issued : Nat := 0
  /-- The numbers of the tokens that were cancelled directly. -/
  cancelled : NumberSet := {}
  deriving DecidableEq, Repr, Inhabited

namespace TokenTree

/-- A token with nothing above it. -/
def root (s : TokenTree) : Token × TokenTree :=
  (⟨s.issued, []⟩, { s with issued := s.issued + 1 })

/-- A token below another one. -/
def child (s : TokenTree) (t : Token) : Token × TokenTree :=
  (⟨s.issued, t.line⟩, { s with issued := s.issued + 1 })

/-- Cancels a token and with it everything below it. -/
def cancel (s : TokenTree) (t : Token) : TokenTree :=
  { s with cancelled := s.cancelled.insert t.id }

/-- A token is cancelled if it, or one above it, was cancelled directly. -/
def isCancelled (s : TokenTree) (t : Token) : Bool := t.line.any s.cancelled.contains

theorem isCancelled_eq_true {s : TokenTree} {t : Token} :
    s.isCancelled t = true ↔ ∃ n ∈ t.line, n ∈ s.cancelled := by
  simp [isCancelled]

/-- Cancelling a token cancels the tokens in whose line it stands, and no others. -/
theorem isCancelled_cancel (s : TokenTree) (t u : Token) :
    (s.cancel t).isCancelled u = true ↔ t.id ∈ u.line ∨ s.isCancelled u = true := by
  simp only [isCancelled_eq_true, cancel, NumberSet.mem_insert]
  constructor
  · rintro ⟨n, hn, rfl | h⟩
    · exact .inl hn
    · exact .inr ⟨n, hn, h⟩
  · rintro (h | ⟨n, hn, h⟩)
    · exact ⟨t.id, h, .inl rfl⟩
    · exact ⟨n, hn, .inr h⟩

@[simp] theorem cancelled_root (s : TokenTree) : s.root.2.cancelled = s.cancelled := rfl

@[simp] theorem cancelled_child (s : TokenTree) (t : Token) :
    (s.child t).2.cancelled = s.cancelled := rfl

/-- A token below another one is born cancelled exactly if that one is cancelled, as long as
numbers are cancelled only once they are issued. -/
theorem isCancelled_child {s : TokenTree} (t : Token) (h : ∀ n ∈ s.cancelled, n < s.issued) :
    (s.child t).2.isCancelled (s.child t).1 = s.isCancelled t := by
  have hfresh : s.issued ∉ s.cancelled := fun hm => Nat.lt_irrefl _ (h _ hm)
  rw [Bool.eq_iff_iff, isCancelled_eq_true, isCancelled_eq_true]
  simp [child, Token.line, hfresh]

end TokenTree

end CursorContext
