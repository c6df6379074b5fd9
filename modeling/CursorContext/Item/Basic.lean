import CursorContext.Text.Quoted
import CursorContext.Total
import CursorContext.Uri.FileName

/-!
# Items of context

A fetcher answers with items: a symbol, the lines that show it, and the document they are from.
What is handed out is a snippet: the same with the lines joined and the document shown as a file.

The length of an item is counted in characters of its joined lines, without joining them.

## Main definitions

* `Item`, `Item.content`, `Item.length`: items, their joined lines and their length.
* `Snippet`, `Item.snippet`, `Snippet.json`: what is handed out and its written form.

## Main results

* `Item.length_eq`: the length is the number of characters of the joined lines.
-/

namespace CursorContext

/-- A symbol with the lines that show it. -/
structure Item where
  /-- The name of the symbol. -/
  symbol : String
  /-- The lines that show it. -/
  lines : List String
  /-- The document the lines are from. -/
  source : Uri
  deriving DecidableEq, Repr, Inhabited

/-- An item as it is handed out. -/
structure Snippet where
  /-- The name of the symbol. -/
  symbol : String
  /-- The file it is from. -/
  fileName : String
  /-- The lines that show it, joined. -/
  content : String
  deriving DecidableEq, Repr, Inhabited

namespace Item

/-- Lines with a line feed between them. -/
def joinLines : List String → List Char
  | [] => []
  | [line] => line.toList
  | line :: rest => line.toList ++ '\n' :: joinLines rest

/-- The lines joined the way they are handed out. -/
def content (i : Item) : String := String.ofList (joinLines i.lines)

/-- The number of characters handed out: those of the lines, and a line feed between two. -/
def length (i : Item) : Nat := total String.length i.lines + (i.lines.length - 1)

/-- The symbol and its document, by which items are told apart. -/
def identity (i : Item) : String × Uri := (i.symbol, i.source)

/-- The item as it is handed out. -/
def snippet (i : Item) : Snippet := ⟨i.symbol, i.source.fileName, i.content⟩

private theorem length_joinLines : ∀ lines : List String,
    (joinLines lines).length = total String.length lines + (lines.length - 1)
  | [] => rfl
  | [line] => by simp [joinLines, String.length_toList]
  | line :: next :: rest => by
    have ih := length_joinLines (next :: rest)
    simp only [joinLines, List.length_append, List.length_cons, String.length_toList, ih,
      total_cons]
    omega

/-- The length is the number of characters of the joined lines. -/
theorem length_eq (i : Item) : i.length = i.content.length := by
  simp [length, content, length_joinLines]

end Item

/-- The written form: an object with the symbol, the file and the content. -/
def Snippet.json (s : Snippet) : String :=
  "\x7b\"symbol\":" ++ Text.quote s.symbol ++ ",\"fileName\":" ++ Text.quote s.fileName
    ++ ",\"content\":" ++ Text.quote s.content ++ "\x7d"

end CursorContext
