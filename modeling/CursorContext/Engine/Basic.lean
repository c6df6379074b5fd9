import CursorContext.Fetch.Basic
import CursorContext.Generations
import CursorContext.Plan
import CursorContext.Timing

/-!
# The engine: what there is

The engine is a cache of context with everything around it that moves: the fetcher and its calls,
the clock, and the jobs that run in the background.  Its parts are numbered in the order in which
they come to be, calls and jobs each on their own, and none of them is ever taken away: a call
that is back keeps its outcome, and a job that is over stays as a mark.

The table of the cache is a list of entries.  An entry refers to its call by number, so a call
outlives its entry for as long as somebody else refers to it.

## Main definitions

* `Call`, `Entry`: a fetch, and what the table holds for a key.
* `Job`: drivers of calls, timers, queries and those who wait for an entry.
* `Engine`: all of it.
* `Engine.start`, `Engine.opening`: an engine at the beginning, and the same as a host opens it.
-/

namespace CursorContext

/-- Whether a call is back. -/
inductive Status (φ : Type)
  /-- It is on its way. -/
  | pending (flight : φ)
  /-- It is back. -/
  | resolved (outcome : Outcome)
  deriving Repr

/-- The outcome of a call that is back. -/
def Status.outcome? {φ : Type} : Status φ → Option Outcome
  | .pending _ => none
  | .resolved outcome => some outcome

/-- A fetch that was started. -/
structure Call (F : Fetcher) where
  /-- What is asked for. -/
  key : Key
  /-- The stamp of the lookup that started it; the fetcher was given its token. -/
  stamp : Stamp
  /-- Whether it is back. -/
  status : Status F.Flight

/-- What the table holds for a key. -/
structure Entry where
  /-- The number of the call. -/
  call : Nat
  /-- The stamp of the lookup that made the entry. -/
  stamp : Stamp
  deriving DecidableEq, Repr, Inhabited

/-- A query for the context of a position. -/
structure Request where
  /-- The document. -/
  document : Uri
  /-- The position in it. -/
  position : Position
  /-- How many characters may be handed out. -/
  budget : Nat
  deriving DecidableEq, Repr, Inhabited

/-- The plan of a query. -/
def Request.plan (r : Request) : Plan := Plan.at r.document r.position

/-- One of the two fetches of a query. -/
inductive Half
  /-- It is waited for. -/
  | waiting (call : Nat)
  /-- Its items are there. -/
  | settled (items : List Item)
  deriving DecidableEq, Repr, Inhabited

/-- The call that a half waits for. -/
def Half.call? : Half → Option Nat
  | .waiting call => some call
  | .settled _ => none

/-- What a client is told in the end. -/
inductive Answer
  /-- The context of a position. -/
  | snippets (found : List Snippet)
  /-- The cache was disposed of before the query ran. -/
  | disposed
  /-- How an entry came out. -/
  | outcome (outcome : Outcome)
  deriving DecidableEq, Repr, Inhabited

/-- What a client is told when it asks a cache that was disposed of. -/
def Answer.disposedMessage : String := "graph context cache has been disposed"

/-- How far a client is. -/
inductive Stage
  /-- It did not run yet. -/
  | queued
  /-- It waits for its halves; the counters are those from before its lookups. -/
  | waiting (previous current : Half) (before : Counters)
  /-- It was given up, and is over at its next poll; until then it holds on to its calls.  The
  counters are those from before its lookups, if it ran. -/
  | leaving (held : List Nat) (before : Option Counters)
  /-- It was told. -/
  | finished (answer : Answer)
  /-- It was given up and is over. -/
  | abandoned
  deriving DecidableEq, Repr, Inhabited

namespace Stage

/-- It is not over. -/
def isOpen : Stage → Bool
  | .queued => true
  | .waiting _ _ _ => true
  | .leaving _ _ => true
  | .finished _ => false
  | .abandoned => false

/-- What it was told. -/
def answer? : Stage → Option Answer
  | .finished answer => some answer
  | _ => none

/-- The calls it holds on to. -/
def calls : Stage → List Nat
  | .waiting previous current _ => previous.call?.toList ++ current.call?.toList
  | .leaving held _ => held
  | _ => []

/-- The counters from before its lookups, if it ran and is not over. -/
def before? : Stage → Option Counters
  | .waiting _ _ before => some before
  | .leaving _ before => before
  | _ => none

/-- A client that is given up; nothing changes if that was done before, or if it is over. -/
def leave (s : Stage) : Stage :=
  match s with
  | .queued => .leaving [] none
  | .waiting _ _ before => .leaving s.calls (some before)
  | s => s

end Stage

/-- Something that runs in the background. -/
inductive Job
  /-- Polls a call until it is back or the token is cancelled. -/
  | drive (call : Nat) (token : Token)
  /-- Loads the context of a position ahead once it is due, unless the token is cancelled.  When
  that is, is settled at its first poll. -/
  | timer (token : Token) (due : Option Nat) (document : Uri) (position : Position)
  /-- A query of a client. -/
  | query (client : Nat) (request : Request) (stage : Stage)
  /-- A client that waits for a call. -/
  | await (client : Nat) (call : Nat) (stage : Stage)
  /-- A driver or a timer that is over. -/
  | ended
  deriving DecidableEq, Repr, Inhabited

namespace Job

/-- The number of a client and how far it is. -/
def client? : Job → Option (Nat × Stage)
  | .query client _ stage => some (client, stage)
  | .await client _ stage => some (client, stage)
  | _ => none

/-- A query that is not over. -/
def isOpenQuery : Job → Bool
  | .query _ _ stage => stage.isOpen
  | _ => false

/-- The calls that a job holds on to. -/
def calls : Job → List Nat
  | .drive call _ => [call]
  | .query _ _ stage => stage.calls
  | .await _ call stage => if stage.isOpen then [call] else []
  | _ => []

end Job

/-- How an engine is set up. -/
structure Options where
  /-- How long the cursor has to rest before context is loaded ahead, in milliseconds. -/
  debounce : Nat := 100
  /-- Whether context is loaded ahead. -/
  preloads : Bool := true
  /-- Whether generations are counted among the counters of the table. -/
  countsGenerations : Bool := true
  /-- Whether queries are timed. -/
  timing : Bool := false
  deriving DecidableEq, Repr, Inhabited

/-- A cache of context with everything around it that moves. -/
structure Engine (F : Fetcher) where
  /-- How it is set up. -/
  options : Options
  /-- The time. -/
  now : Nat
  /-- What the fetcher keeps. -/
  fetcher : F.State
  /-- What is known of all tokens. -/
  tokens : TokenTree
  /-- The generations of preloads; their root is the token of the cache's whole life. -/
  generations : Generations
  /-- The table, in the order of its entries. -/
  table : List (Key × Entry)
  /-- The calls of the fetcher, in order. -/
  calls : Array (Call F)
  /-- The jobs, in order. -/
  jobs : Array Job
  /-- The token of the timer that was started last, until that timer fires or is stopped. -/
  armed : Option Token
  /-- What was counted. -/
  counters : Counters
  /-- The cache was disposed of. -/
  disposed : Bool
  /-- The host still refers to the cache. -/
  held : Bool
  /-- What was done. -/
  journal : Array Notice

namespace Engine

variable {F : Fetcher}

/-- An engine at the beginning. -/
def start (options : Options) (fetcher : F.State) : Engine F :=
  let (root, tokens) := ({} : TokenTree).root
  let (generations, tokens) := Generations.start root tokens
  { options, fetcher, tokens, generations
    now := 0
    table := []
    calls := #[]
    jobs := #[]
    armed := none
    counters := {}
    disposed := false
    held := true
    journal := #[] }

/-! ### Small steps -/

/-- Notes something in the journal. -/
def note (e : Engine F) (n : Notice) : Engine F := { e with journal := e.journal.push n }

/-- An engine at the beginning, as a host opens one. -/
def opening (options : Options) (fetcher : F.State) : Engine F :=
  (start options fetcher).note (.opened options.preloads options.debounce)

/-- Counts something. -/
def count (e : Engine F) (t : Tally) : Engine F := { e with counters := e.counters.record t }

/-- A job more. -/
def spawn (e : Engine F) (j : Job) : Engine F := { e with jobs := e.jobs.push j }

/-- Puts a job in the place of another. -/
def setJob (e : Engine F) (i : Nat) (j : Job) : Engine F :=
  { e with jobs := e.jobs.setIfInBounds i j }

/-- Changes the status of a call. -/
def setStatus (e : Engine F) (i : Nat) (s : Status F.Flight) : Engine F :=
  { e with calls := e.calls.modify i fun c => { c with status := s } }

/-- Cancels a token. -/
def cancel (e : Engine F) (t : Token) : Engine F := { e with tokens := e.tokens.cancel t }

/-- Cancels the token of the cache's whole life. -/
def cancelRoot (e : Engine F) : Engine F := e.cancel e.generations.root

/-- Tells the fetcher something. -/
def tell (e : Engine F) (order : F.Order) : Engine F :=
  { e with fetcher := F.obey e.fetcher order }

/-- The clock goes on by some milliseconds. -/
def tick (e : Engine F) (ms : Nat) : Engine F := { e with now := e.now + ms }

/-! ### Views -/

/-- A token is cancelled. -/
def isCancelled (e : Engine F) (t : Token) : Bool := e.tokens.isCancelled t

/-- The token of the cache's whole life is cancelled. -/
def isOver (e : Engine F) : Bool := e.isCancelled e.generations.root

/-- The outcome of a call that is back. -/
def outcome? (e : Engine F) (call : Nat) : Option Outcome :=
  e.calls[call]?.bind (·.status.outcome?)

/-- A call is on its way. -/
def isPending (e : Engine F) (call : Nat) : Bool :=
  match e.calls[call]? with
  | some c => c.status.outcome?.isNone
  | none => false

/-- The entry of a key. -/
def find? (e : Engine F) (key : Key) : Option Entry := e.table.lookup key

/-- The calls that the table and the jobs hold on to. -/
def heldCalls (e : Engine F) : List Nat :=
  e.table.map (·.2.call) ++ e.jobs.toList.flatMap Job.calls

/-- The calls that are on their way and somebody holds on to; `kept` are held from outside. -/
def live (e : Engine F) (kept : List Nat) : List Nat :=
  let held := NumberSet.ofList (e.heldCalls ++ kept)
  (List.range e.calls.size).filter fun i => e.isPending i && held.contains i

/-- The calls whose token is cancelled. -/
def cancelledCalls (e : Engine F) : List Nat :=
  (List.range e.calls.size).filter fun i =>
    match e.calls[i]? with
    | some c => e.isCancelled c.stamp.token
    | none => false

/-- A timer is running. -/
def isArmed (e : Engine F) : Bool :=
  match e.armed with
  | some t => !e.isCancelled t
  | none => false

/-- Somebody refers to the cache: the host, or a query that is not over. -/
def isAlive (e : Engine F) : Bool := e.held || e.jobs.toList.any Job.isOpenQuery

/-- The number of the next client. -/
def nextClient (e : Engine F) : Nat := e.jobs.toList.countP (·.client?.isSome)

/-- The clients that were told, with what they were told. -/
def answers (e : Engine F) : List (Nat × Answer) :=
  e.jobs.toList.filterMap fun j => j.client?.bind fun c => c.2.answer?.map (c.1, ·)

end Engine

end CursorContext
