import CursorContext.Journal

/-!
# Timing of queries

Queries are timed when the host asks for it by a word: any word but none, `0` and `false`; the word
`verbose` asks also for a warning about queries that took longer than they should.  Case does not
matter.

## Main definitions

* `Timing`, `Timing.ofWord`: what is asked for.
* `Stopwatch`, `Stopwatch.stop`: a query being timed and what is noted at its end.
* `Timing.trial`: a stopwatch tried out on given counts.
-/

namespace CursorContext

/-- What is asked for. -/
structure Timing where
  /-- Queries are timed. -/
  enabled : Bool
  /-- Slow queries are warned about. -/
  verbose : Bool
  deriving DecidableEq, Repr, Inhabited

/-- A query being timed. -/
structure Stopwatch where
  /-- The line of the query. -/
  line : UInt32
  /-- The counters at its start. -/
  before : Counters
  deriving DecidableEq, Repr

/-- What is noted at the end of a query: with a number of items if it was answered.  The hits and
misses are those since its start. -/
def Stopwatch.stop (w : Stopwatch) (items : Option Nat) (after : Counters) : Notice :=
  match items with
  | some n => .answered w.line n (after.since w.before).hits (after.since w.before).misses
  | none => .abandoned w.line

namespace Timing

/-- What a word asks for; without a word nothing. -/
def ofWord : Option String → Timing
  | none => ⟨false, false⟩
  | some word =>
    ⟨word != "" && word != "0" && word.toLower != "false", word.toLower == "verbose"⟩

/-- The word of some bytes, if they are UTF-8. -/
def wordOfBytes (bytes : List UInt8) : Option String := String.fromUTF8? ⟨bytes.toArray⟩

/-- What is noted about a query on a line that began after some counts, saw others, was answered
with each of some numbers of items in turn, and took some milliseconds. -/
def trial (t : Timing) (line : UInt32) (before during : List Tally) (finish : List Nat)
    (elapsed threshold : Nat) : List Notice :=
  if t.enabled then
    let start := before.foldl Counters.record {}
    let stop := during.foldl Counters.record start
    let watch : Stopwatch := ⟨line, start⟩
    watch.stop finish.getLast? stop ::
      if t.verbose && threshold < elapsed then [.slow line threshold (stop.since start).misses]
      else []
  else []

end Timing

end CursorContext
