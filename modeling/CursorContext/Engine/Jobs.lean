import CursorContext.Engine.Query
import CursorContext.Total

/-!
# The engine: jobs

A job does something only when it is polled.  It is ready when a poll would change anything; a job
may be polled at any time, but a poll of one that is not ready does nothing.

A driver polls its call first and looks at its token only then, so a call that can come back does,
even if its token is cancelled by now.  A timer counts from its first poll on, whenever it was
started.

## Main definitions

* `Engine.poll`: one poll of a job.
* `Engine.pollOutside`: one poll of a query where no jobs can be started.
* `Engine.ready`: a poll would change something.
* `Engine.Quiescent`: nothing is ready.
* `Engine.nextAlarm?`: when something may become ready by itself.
-/

namespace CursorContext.Engine

variable {F : Fetcher}

/-! ### Polling -/

/-- One poll of a driver. -/
def pollDriver (e : Engine F) (job call : Nat) (token : Token) : Engine F :=
  let (e, outcome) := e.pollCall call
  if outcome.isSome || e.isCancelled token then e.setJob job .ended else e

/-- The time at which a timer is due.  One that was not polled yet begins to count now. -/
def deadline (e : Engine F) (due : Option Nat) : Nat := due.getD (e.now + e.options.debounce)

@[simp] theorem deadline_some (e : Engine F) (time : Nat) : e.deadline (some time) = time := rfl

theorem deadline_none (e : Engine F) : e.deadline none = e.now + e.options.debounce := rfl

/-- One poll of a timer. -/
def pollTimer (e : Engine F) (job : Nat) (token : Token) (due : Option Nat) (document : Uri)
    (position : Position) : Engine F :=
  if e.isCancelled token || e.deadline due ≤ e.now then e.elapse job token document position
  else e.setJob job (.timer token (some (e.deadline due)) document position)

/-- One poll of a query; `background` says whether jobs can be started. -/
def pollQuery (e : Engine F) (background : Bool) (job client : Nat) (r : Request)
    (stage : Stage) : Engine F :=
  match stage with
  | .queued =>
    let (e, stage) := e.begin background r
    (e.setJob job (.query client r stage)).reap
  | .waiting previous current before =>
    let (e, stage) := e.resume r previous current before
    (e.setJob job (.query client r stage)).reap
  | .leaving _ _ => ((e.giveUp r stage).setJob job (.query client r .abandoned)).reap
  | _ => e

/-- One poll of a client that waits for a call. -/
def pollAwait (e : Engine F) (job client call : Nat) (stage : Stage) : Engine F :=
  match stage with
  | .leaving _ _ => e.setJob job (.await client call .abandoned)
  | .queued =>
    match e.pollCall call with
    | (e, some outcome) => e.setJob job (.await client call (.finished (.outcome outcome)))
    | (e, none) => e
  | _ => e

/-- One poll of a job. -/
def poll (e : Engine F) (job : Nat) : Engine F :=
  match e.jobs[job]? with
  | some (.drive call token) => e.pollDriver job call token
  | some (.timer token due document position) => e.pollTimer job token due document position
  | some (.query client r stage) => e.pollQuery true job client r stage
  | some (.await client call stage) => e.pollAwait job client call stage
  | _ => e

/-- One poll of a query where no jobs can be started.  Nothing else is polled there that would be
polled in another way. -/
def pollOutside (e : Engine F) (job : Nat) : Engine F :=
  match e.jobs[job]? with
  | some (.query client r stage) => e.pollQuery false job client r stage
  | _ => e

/-! ### Readiness -/

/-- A poll of the call would do something. -/
def callReady (e : Engine F) (i : Nat) : Bool :=
  match e.calls[i]? with
  | none => false
  | some c =>
    match c.status with
    | .resolved _ => true
    | .pending flight => !(F.poll e.fetcher e.now (e.isCancelled c.stamp.token) flight).isBlocked

/-- A poll of the half would change something. -/
def halfReady (e : Engine F) : Half → Bool
  | .waiting i => e.callReady i
  | .settled _ => false

/-- A poll of the job would change something. -/
def ready (e : Engine F) (job : Nat) : Bool :=
  match e.jobs[job]? with
  | some (.drive call token) => e.callReady call || e.isCancelled token
  | some (.timer _ none _ _) => true
  | some (.timer token (some due) _ _) => e.isCancelled token || due ≤ e.now
  | some (.query _ _ .queued) => true
  | some (.query _ _ (.waiting previous current _)) => e.halfReady previous || e.halfReady current
  | some (.query _ _ (.leaving _ _)) => true
  | some (.await _ call .queued) => e.callReady call
  | some (.await _ _ (.leaving _ _)) => true
  | _ => false

/-- Nothing can change unless the clock does, or somebody from outside acts. -/
def Quiescent (e : Engine F) : Prop := ∀ job, e.ready job = false

/-- There are no jobs but those that were started. -/
theorem quiescent_iff {e : Engine F} : e.Quiescent ↔ ∀ job < e.jobs.size, e.ready job = false := by
  refine ⟨fun h job _ => h job, fun h job => ?_⟩
  rcases Nat.lt_or_ge job e.jobs.size with hlt | hge
  · exact h job hlt
  · simp only [ready, Array.getElem?_eq_none hge]

instance (e : Engine F) : Decidable e.Quiescent := decidable_of_iff _ quiescent_iff.symm

/-! ### Time -/

/-- The time at which a job wants to be polled. -/
def jobAlarm : Job → Option Nat
  | .timer _ due _ _ => due
  | _ => none

/-- The time at which a call wants to be polled. -/
def callAlarm (c : Call F) : Option Nat :=
  match c.status with
  | .pending flight => F.alarm flight
  | .resolved _ => none

/-- Every time at which something wants to be polled. -/
def alarms (e : Engine F) : List Nat :=
  e.jobs.toList.filterMap jobAlarm ++ e.calls.toList.filterMap callAlarm

/-- The first of them after a time. -/
def nextAlarm? (e : Engine F) (time : Nat) : Option Nat := (e.alarms.filter (time < ·)).min?

/-! ### Work -/

/-- How many polls a job may still use by itself. -/
def jobWork : Job → Nat
  | .drive _ _ => 1
  | .timer _ none _ _ => 2
  | .timer _ (some _) _ _ => 1
  | .query _ _ .queued => 3
  | .query _ _ (.waiting _ _ _) => 2
  | .query _ _ (.leaving _ _) => 1
  | .await _ _ .queued => 1
  | .await _ _ (.leaving _ _) => 1
  | _ => 0

/-- How many changes a call may still go through. -/
def callWork (c : Call F) : Nat :=
  match c.status with
  | .pending flight => F.rank flight + 1
  | .resolved _ => 0

/-- How many changes are possible before something new is started. -/
def work (e : Engine F) : Nat :=
  total jobWork e.jobs.toList + total callWork e.calls.toList

/-- A job that will look something up when it runs. -/
def startsCalls : Job → Bool
  | .timer _ _ _ _ => true
  | .query _ _ .queued => true
  | _ => false

/-- How many jobs will look something up when they run. -/
def starters (e : Engine F) : Nat := e.jobs.toList.countP startsCalls

end CursorContext.Engine
