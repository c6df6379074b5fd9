import CursorContext.Schedule

/-!
# Reports

After every step of a host there is a report: what the step answered, and what has happened since
the last report.

## Main definitions

* `EntryView`, `Reply`: what a step answers.
* `Reply.refusal?`: why a step was refused.
* `Report`, `Shown`: a report, and what was reported so far.
* `Run.report`: the next report.
-/

namespace CursorContext

/-- An entry as a host sees it. -/
structure EntryView where
  /-- The number under which the host keeps it. -/
  index : Nat
  /-- The generation it was made for. -/
  generation : Nat
  /-- Its token is cancelled. -/
  cancelled : Bool
  /-- How it came out. -/
  outcome : Option Outcome
  deriving Repr

/-- The parts of a cache in words. -/
structure Portrait where
  /-- The table. -/
  table : String
  /-- The entries kept by the host. -/
  entries : List String
  /-- What looks plans up. -/
  queries : String
  /-- What loads ahead. -/
  preloads : String
  /-- What clears the table. -/
  edits : String
  deriving Repr

/-- What a step answers. -/
inductive Reply
  /-- Nothing. -/
  | nothing
  /-- The cache is gone. -/
  | dropped
  /-- The step was refused, since it names a document by what is no URI. -/
  | refused (error : UriError)
  /-- A number. -/
  | number (n : Nat)
  /-- The number under which a generation is kept, and its own. -/
  | stamp (index id : Nat)
  /-- An entry, unless it is missing. -/
  | entry (view : Option EntryView)
  /-- All entries that were ever kept. -/
  | entries (views : List (Option EntryView))
  /-- The entries of a plan. -/
  | plan (previous : Option EntryView) (current : EntryView)
  /-- An entry, and whether it was there before. -/
  | lookup (hit : Bool) (view : EntryView)
  /-- Whether the table has a key, and its entry. -/
  | found (contains : Bool) (view : Option EntryView)
  /-- The answer of a query, unless it was not ready. -/
  | answer (a : Option Answer)
  /-- The start line and the depth of every call. -/
  | calls (places : List (UInt32 × Depth))
  /-- The settings. -/
  | settings (s : Settings)
  /-- A text. -/
  | text (s : String)
  /-- The parts of the cache in words. -/
  | portrait (p : Portrait)
  /-- The replies of several steps. -/
  | each (replies : List Reply)

namespace Reply

mutual

/-- Why a step was refused; of several steps, the first that was. -/
def refusal? : Reply → Option UriError
  | .refused error => some error
  | .each replies => firstRefusal? replies
  | _ => none

/-- The first refusal among replies. -/
def firstRefusal? : List Reply → Option UriError
  | [] => none
  | reply :: rest => reply.refusal?.or (firstRefusal? rest)

end

end Reply

/-- What was reported so far. -/
structure Shown where
  /-- So many calls. -/
  calls : Nat := 0
  /-- So many notices. -/
  notices : Nat := 0
  /-- These clients that were told. -/
  clients : NumberSet := {}
  deriving Repr, Inhabited

/-- What a step answered and what happened since the last report. -/
structure Report where
  /-- What the step answered. -/
  reply : Reply
  /-- The clients that were told, in the order of their numbers. -/
  answers : List (Nat × Answer)
  /-- The calls of the fetcher. -/
  calls : List Key
  /-- The numbers of all calls so far whose token is cancelled. -/
  cancelled : List Nat
  /-- How many calls are on their way and held by somebody. -/
  live : Nat
  /-- The lines of the log in the order of their characters. -/
  lines : List String

namespace Run

variable {F : Fetcher}

/-- The next report; `kept` are the calls held by the host. -/
def report (r : Run F) (kept : List Nat) (shown : Shown) (reply : Reply) : Report × Shown :=
  let e := r.engine
  let answers := e.answers.filter fun a => !shown.clients.contains a.1
  ({ reply, answers
     calls := (e.calls.toList.drop shown.calls).map (·.key)
     cancelled := e.cancelledCalls
     live := (e.live kept).length
     lines := ((Notice.lines (e.journal.toList.drop shown.notices)).map LogLine.text).mergeSort },
   { calls := e.calls.size
     notices := e.journal.size
     clients := shown.clients.insertAll (answers.map (·.1)) })

/-- The start line and the depth of every call. -/
def places (r : Run F) : List (UInt32 × Depth) :=
  r.engine.calls.toList.map fun c => (c.key.span.start, c.key.depth)

end Run

/-- The table of an engine in words. -/
def Engine.tableText {F : Fetcher} (e : Engine F) : String :=
  "CacheStore \x7b len: " ++ toString e.table.length ++ ", .. \x7d"

end CursorContext
