import CursorContext.Span
import CursorContext.Uri.Basic

/-!
# Keys

A key names one request for context: a document, a span of its lines, and how far references are
followed from there.  Two requests with the same key have the same answer until a document changes.

## Main definitions

* `Depth`: how far references are followed, `Depth.direct` and `Depth.oneHop`.
* `Key`, `Key.text`: keys and their printed form.
-/

namespace CursorContext

/-- How far references are followed from the lines asked for. -/
structure Depth where
  /-- The number of hops. -/
  hops : UInt8
  deriving DecidableEq, Repr, Inhabited

namespace Depth

/-- The symbols that the lines refer to. -/
def direct : Depth := ⟨0⟩

/-- Also the symbols that those are defined by. -/
def oneHop : Depth := ⟨1⟩

/-- Depths are ordered by their hops. -/
protected def compare (a b : Depth) : Ordering := compareOfLessAndEq a.hops b.hops

/-- The printed form. -/
def text (d : Depth) : String := toString d.hops.toNat

end Depth

/-- One request for context. -/
structure Key where
  /-- The document. -/
  document : Uri
  /-- The lines. -/
  span : Span
  /-- How far references are followed. -/
  depth : Depth
  deriving DecidableEq, Repr, Inhabited

/-- The printed form: document, lines and depth. -/
def Key.text (k : Key) : String := k.document.text ++ "#" ++ k.span.text ++ "@" ++ k.depth.text

end CursorContext
