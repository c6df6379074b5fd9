import CursorContext.Counters
import CursorContext.Key
import CursorContext.Settings.Basic

/-!
# The journal

A cache notes what it does in a journal, one notice for each thing done, and the journal is never
altered.  A host sees the notices as lines of a log; elapsed times are left out of the lines,
with a low line in their place.

## Main definitions

* `Notice`: one thing done.
* `LogLine`: a line of the log.
* `Notice.line?`: the line that shows a notice.
-/

namespace CursorContext

/-- How much a line of the log matters. -/
inductive Level
  /-- Of interest to those who follow every move. -/
  | trace
  /-- Of interest to developers. -/
  | debug
  /-- Of interest to users. -/
  | info
  /-- Something did not go as it should. -/
  | warn
  deriving DecidableEq, Repr

/-- The printed form of a level. -/
def Level.text : Level → String
  | .trace => "TRACE"
  | .debug => "DEBUG"
  | .info => "INFO"
  | .warn => "WARN"

/-- A line of the log. -/
structure LogLine where
  /-- How much it matters. -/
  level : Level
  /-- What it says. -/
  message : String
  deriving DecidableEq, Repr

/-- The printed form of a line. -/
def LogLine.text (l : LogLine) : String := l.level.text ++ " " ++ l.message

/-- One thing that a cache did. -/
inductive Notice
  /-- The cache came into being. -/
  | opened (preloads : Bool) (debounce : Nat)
  /-- The cache was disposed of. -/
  | closed
  /-- A query began to look up the context of a line. -/
  | asked (document : Uri) (line : UInt32)
  /-- A lookup found an entry, made by the fetch of a generation; the call is that of the entry. -/
  | hit (key : Key) (generation call : Nat)
  /-- A lookup found none and started a fetch for a generation; the call is the one it started. -/
  | miss (key : Key) (generation call : Nat)
  /-- A lookup for a plan started a fetch. -/
  | issued (key : Key)
  /-- A fetch was started where nothing can run it in the background. -/
  | undriven (key : Key)
  /-- A failed fetch was seen by somebody who waited for it. -/
  | failed (cause : String)
  /-- The table was cleared of so many entries. -/
  | cleared (entries : Nat)
  /-- A document changed in so many places. -/
  | edited (document : Uri) (changes : Nat)
  /-- A generation took the place of another. -/
  | superseded (old new : Nat)
  /-- Context is loaded ahead for a line. -/
  | preloading (document : Uri) (line : UInt32) (generation : Nat)
  /-- Context is not loaded ahead since the cache is disposed of. -/
  | preloadRefused (document : Uri)
  /-- Context is not loaded ahead where nothing can run in the background. -/
  | preloadSkipped
  /-- A query was answered. -/
  | answered (line : UInt32) (items hits misses : Nat)
  /-- A query was given up. -/
  | abandoned (line : UInt32)
  /-- A query took longer than it should. -/
  | slow (line : UInt32) (threshold misses : Nat)
  deriving DecidableEq, Repr

namespace Notice

/-- On or off. -/
def switch (b : Bool) : String := if b then "on" else "off"

/-- What the line about a query begins with. -/
def queryText (line : UInt32) : String := s!"[PERF] graph context for line {line.toNat}"

/-- The line that shows a notice.  The beginning of a query shows none, and neither does clearing
an empty table. -/
def line? : Notice → Option LogLine
  | .opened preloads debounce =>
    some ⟨.debug, "Graph context cache created (preload " ++ switch preloads
      ++ s!", debounce {debounce}ms)"⟩
  | .closed => some ⟨.debug, "Graph context cache disposed"⟩
  | .asked _ _ => none
  | .hit key generation _ =>
    some ⟨.trace, "Graph context cache hit for " ++ key.text ++ s!" (generation {generation})"⟩
  | .miss key generation _ =>
    some ⟨.trace, "Graph context cache miss for " ++ key.text ++ s!" (generation {generation})"⟩
  | .issued key => some ⟨.trace, "Issued graph context fetch for " ++ key.text⟩
  | .undriven _ =>
    some ⟨.warn, "No tokio runtime; graph context fetch will run only when awaited"⟩
  | .failed cause => some ⟨.warn, "Graph context fetch failed: " ++ cause⟩
  | .cleared 0 => none
  | .cleared (n + 1) => some ⟨.trace, s!"Cleared {n + 1} graph context cache entries"⟩
  | .edited document changes =>
    some ⟨.trace, "Invalidating graph context cache: " ++ document.text
      ++ s!" changed ({changes} content changes)"⟩
  | .superseded old new => some ⟨.trace, s!"Preload generation {old} superseded by {new}"⟩
  | .preloading document line generation =>
    some ⟨.trace, "Preloading graph context for " ++ document.text
      ++ s!":{line.toNat} (generation {generation})"⟩
  | .preloadRefused document =>
    some ⟨.trace, "Skipping graph context preload for " ++ document.text ++ ": disposed"⟩
  | .preloadSkipped => some ⟨.warn, "No tokio runtime; skipping graph context preload"⟩
  | .answered line items hits misses =>
    some ⟨.info, queryText line ++ s!": {items} items, {hits} hits, {misses} misses in _"⟩
  | .abandoned line => some ⟨.info, queryText line ++ " abandoned after _"⟩
  | .slow line threshold misses =>
    some ⟨.warn, queryText line
      ++ s!" exceeded threshold (_ms > {threshold}ms, {misses} misses)"⟩

/-- The lines that show notices, in order. -/
def lines (notices : List Notice) : List LogLine := notices.filterMap line?

end Notice

end CursorContext
