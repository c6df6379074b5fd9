import CursorContext.Item.Merge
import CursorContext.Key

/-!
# Plans

The context of a cursor is what the line above it refers to, and what its own line refers to
followed one hop further.  A plan holds the keys of both; there is no line above the first.

## Main definitions

* `Position`: a line and a character in it.
* `Plan`, `Plan.at`, `Plan.keys`: the keys of a cursor position.
* `Plan.answer`: what is handed out for two lists of items.
-/

namespace CursorContext

/-- A place in a document. -/
structure Position where
  /-- The line. -/
  line : UInt32
  /-- The character in the line. -/
  character : UInt32
  deriving DecidableEq, Repr, Inhabited

/-- The keys of a cursor position. -/
structure Plan where
  /-- The line above, unless the cursor is on the first line. -/
  previous : Option Key
  /-- The line of the cursor. -/
  current : Key
  deriving DecidableEq, Repr, Inhabited

namespace Plan

/-- The plan of a position in a document.  The character does not matter. -/
def «at» (document : Uri) (position : Position) : Plan where
  previous := (Span.ofLine position.line).above?.map (⟨document, ·, .direct⟩)
  current := ⟨document, Span.ofLine position.line, .oneHop⟩

/-- The keys, the line above first. -/
def keys (p : Plan) : List Key := p.previous.toList ++ [p.current]

/-- What is handed out for the items of both lines: merged, cut by the budget, and shown. -/
def answer (budget : Nat) (previous current : List Item) : List Snippet :=
  (Item.within budget (Item.merge previous current)).map Item.snippet

@[simp] theorem keys_of_none (current : Key) : keys ⟨none, current⟩ = [current] := rfl

@[simp] theorem keys_of_some (previous current : Key) :
    keys ⟨some previous, current⟩ = [previous, current] := rfl

end Plan

end CursorContext
