import CursorContext.Engine.Preload

/-!
# The engine: queries

A query runs when it is polled.  At its first poll it looks its plan up in the foreground; from then
on every poll polls both of its calls, the line above first, until both are back.  A call that
failed counts as no items.

A client that is given up is not over at once: it goes on to refer to the cache and to its calls
until it is polled again, and does nothing more then.

## Main definitions

* `Engine.pollCall`: one poll of a call.
* `Engine.begin`, `Engine.resume`: the first poll of a query and the others.
* `Engine.ask`: a query that is polled once.
* `Engine.query`, `Engine.await`, `Engine.abandon`: a client more, and a client given up.
-/

namespace CursorContext.Engine

variable {F : Fetcher}

/-- One poll of a call: its outcome, if it is back then. -/
def pollCall (e : Engine F) (i : Nat) : Engine F × Option Outcome :=
  match e.calls[i]? with
  | none => (e, none)
  | some c =>
    match c.status with
    | .resolved outcome => (e, some outcome)
    | .pending flight =>
      match F.poll e.fetcher e.now (e.isCancelled c.stamp.token) flight with
      | .blocked => (e, none)
      | .moved flight => (e.setStatus i (.pending flight), none)
      | .resolved outcome => (e.setStatus i (.resolved outcome), some outcome)

/-- One poll of a half.  A failure is counted and noted by whoever waited for it. -/
def pollHalf (e : Engine F) : Half → Engine F × Half
  | .settled items => (e, .settled items)
  | .waiting i =>
    match e.pollCall i with
    | (e, none) => (e, .waiting i)
    | (e, some (.items found)) => (e, .settled found)
    | (e, some (.failure cause)) => ((e.count .failure).note (.failed cause), .settled [])

/-- Notes the end of a query, where queries are timed. -/
def stopWatch (e : Engine F) (r : Request) (before : Counters) (items : Option Nat) : Engine F :=
  if e.options.timing then e.note (Stopwatch.stop ⟨r.position.line, before⟩ items e.counters)
  else e

/-- One poll of a query that waits for its halves. -/
def resume (e : Engine F) (r : Request) (previous current : Half) (before : Counters) :
    Engine F × Stage :=
  let (e, previous) := e.pollHalf previous
  let (e, current) := e.pollHalf current
  match previous, current with
  | .settled above, .settled here =>
    let found := Plan.answer r.budget above here
    (e.stopWatch r before (some found.length), .finished (.snippets found))
  | previous, current => (e, .waiting previous current before)

/-- The half of an entry; without an entry there are no items. -/
def half : Option Entry → Half
  | some entry => .waiting entry.call
  | none => .settled []

/-- The first poll of a query. -/
def begin (e : Engine F) (background : Bool) (r : Request) : Engine F × Stage :=
  if e.disposed then (e, .finished .disposed)
  else
    let before := e.counters
    let e := e.note (.asked r.document r.position.line)
    let (e, previous, current) := e.lookupPlan background e.generations.foreground r.plan
    e.resume r (half previous) (half (some current)) before

/-- The end of a query that was given up at a stage; one that ran notes so, where queries are
timed. -/
def giveUp (e : Engine F) (r : Request) (stage : Stage) : Engine F :=
  match stage.before? with
  | some before => e.stopWatch r before none
  | none => e

/-- A query that is polled once, where nothing runs in the background, and given up if it is not
over then. -/
def ask (e : Engine F) (r : Request) : Engine F × Option Answer :=
  let (e, stage) := e.begin false r
  (e.giveUp r stage, stage.answer?)

/-- A query more. -/
def query (e : Engine F) (r : Request) : Engine F := e.spawn (.query e.nextClient r .queued)

/-- A client more that waits for a call. -/
def await (e : Engine F) (call : Nat) : Engine F := e.spawn (.await e.nextClient call .queued)

/-- Gives the client of a job up; its next poll will be its end. -/
def abandonJob (e : Engine F) (job : Nat) : Engine F :=
  match e.jobs[job]? with
  | some (.query client r stage) => e.setJob job (.query client r stage.leave)
  | some (.await client call stage) => e.setJob job (.await client call stage.leave)
  | _ => e

/-- The job of a client. -/
def jobOf? (e : Engine F) (client : Nat) : Option Nat :=
  e.jobs.findIdx? fun j => j.client?.any (·.1 == client)

/-- Gives a client up. -/
def abandon (e : Engine F) (client : Nat) : Engine F :=
  match e.jobOf? client with
  | some job => e.abandonJob job
  | none => e

end CursorContext.Engine
