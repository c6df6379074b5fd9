import CursorContext.Engine.Action

/-!
# The order in which jobs run

Jobs wait in a queue.  A new job goes to its end, and so does a job that becomes ready; the job at
its front is polled next.  After every action from outside the jobs run until the queue is empty,
and while the clock goes on they run at every time at which something was waited for.

## Main definitions

* `Run`: an engine with its queue.
* `Run.perform`: an action.
* `Run.settle`: jobs run until nothing is left to do.
* `Run.advance`: the clock goes on.

## Main results

* `Run.reachable_settle`, `Run.reachable_advance`: whatever the queue does is a run of the engine.
-/

namespace CursorContext

/-- An engine with the queue of its jobs. -/
structure Run (F : Fetcher) where
  /-- The engine. -/
  engine : Engine F
  /-- The jobs that are to be polled, in order. -/
  queue : List Nat

namespace Run

variable {F : Fetcher}

/-- Nothing is queued yet. -/
def start (e : Engine F) : Run F := ⟨e, []⟩

/-- An engine after something happened: jobs that are new since there were `before` of them, and
jobs that are ready, go to the end of the queue if they are not in it. -/
def wake (before : Nat) (queue : List Nat) (e : Engine F) : Run F :=
  let queued := NumberSet.ofList queue
  ⟨e, queue ++ (List.range e.jobs.size).filter fun j =>
    (before ≤ j || e.ready j) && !queued.contains j⟩

/-- Something is done to the engine. -/
def update (r : Run F) (change : Engine F → Engine F) : Run F :=
  wake r.engine.jobs.size r.queue (change r.engine)

/-- An action. -/
def perform (r : Run F) (a : Engine.Action F) : Run F := r.update (·.perform a)

/-- The job at the front of the queue is polled. -/
def step (r : Run F) : Run F :=
  match r.queue with
  | [] => r
  | j :: rest => { r with queue := rest }.perform (.poll j)

/-- So many steps, or fewer if the queue is empty before. -/
def steps : Nat → Run F → Run F
  | 0, r => r
  | n + 1, r => if r.queue.isEmpty then r else steps n r.step

/-- Enough steps to empty the queue, if nothing new is started on the way: every change may bring
each job to the queue once. -/
def round (r : Run F) : Run F :=
  steps ((r.engine.work + 1) * (r.engine.jobs.size + 1) + r.queue.length) r

/-- So many rounds, or fewer if the queue is empty before. -/
def rounds : Nat → Run F → Run F
  | 0, r => r
  | n + 1, r => if r.queue.isEmpty then r else rounds n r.round

/-- Jobs run until the queue is empty.  What is left of it after a round was started by a job of
that round, so there are not more rounds than jobs that can start something. -/
def settle (r : Run F) : Run F := rounds (r.engine.starters + 1) r

/-- The clock goes on to a time, and jobs run. -/
def reach (r : Run F) (time : Nat) : Run F := (r.perform (.tick (time - r.engine.now))).settle

/-- The clock goes from a time on to a target, by way of every time at which something is waited
for. -/
def sweep (target time : Nat) (r : Run F) : Run F :=
  let r := r.reach time
  match r.engine.nextAlarm? time with
  | some next => if time < next ∧ next < target then sweep target next r else r.reach target
  | none => r.reach target
termination_by target - time

/-- The clock goes on by some milliseconds. -/
def advance (r : Run F) (ms : Nat) : Run F := sweep (r.engine.now + ms) r.engine.now r

/-- Clients are given up, one after the other. -/
def abandonEach (r : Run F) : List Nat → Run F
  | [] => r
  | client :: rest => (r.perform (.abandon client)).abandonEach rest

/-- Every client is given up. -/
def abandonAll (r : Run F) : Run F := r.abandonEach (List.range r.engine.nextClient)

/-! ### Runs of the engine -/

@[simp] theorem engine_start (e : Engine F) : (start e).engine = e := rfl

@[simp] theorem engine_wake (before : Nat) (queue : List Nat) (e : Engine F) :
    (wake before queue e).engine = e := rfl

@[simp] theorem engine_update (r : Run F) (change : Engine F → Engine F) :
    (r.update change).engine = change r.engine := rfl

@[simp] theorem engine_perform (r : Run F) (a : Engine.Action F) :
    (r.perform a).engine = r.engine.perform a := rfl

theorem reachable_perform (r : Run F) (a : Engine.Action F) :
    r.engine.Reachable (r.perform a).engine :=
  (Engine.Reachable.refl _).perform a

theorem reachable_step (r : Run F) : r.engine.Reachable r.step.engine := by
  unfold step
  split
  · exact .refl _
  · exact reachable_perform _ _

theorem reachable_steps (n : Nat) (r : Run F) : r.engine.Reachable (steps n r).engine := by
  induction n generalizing r with
  | zero => exact .refl _
  | succ n ih =>
    unfold steps
    split
    · exact .refl _
    · exact r.reachable_step.trans (ih r.step)

theorem reachable_rounds (n : Nat) (r : Run F) : r.engine.Reachable (rounds n r).engine := by
  induction n generalizing r with
  | zero => exact .refl _
  | succ n ih =>
    unfold rounds
    split
    · exact .refl _
    · exact (reachable_steps _ r).trans (ih r.round)

/-- Letting the jobs run is a run of the engine. -/
theorem reachable_settle (r : Run F) : r.engine.Reachable r.settle.engine := reachable_rounds _ r

theorem reachable_reach (r : Run F) (time : Nat) : r.engine.Reachable (r.reach time).engine :=
  (reachable_perform r _).trans (reachable_settle _)

theorem reachable_sweep (target time : Nat) (r : Run F) :
    r.engine.Reachable (sweep target time r).engine := by
  fun_induction sweep target time r with
  | case1 time r r' next _ _ ih => exact (r.reachable_reach time).trans ih
  | case2 time r r' next _ _ => exact (r.reachable_reach time).trans (reachable_reach _ _)
  | case3 time r r' _ => exact (r.reachable_reach time).trans (reachable_reach _ _)

/-- Letting the clock go on is a run of the engine. -/
theorem reachable_advance (r : Run F) (ms : Nat) : r.engine.Reachable (r.advance ms).engine :=
  reachable_sweep _ _ r

theorem reachable_abandonEach (r : Run F) (clients : List Nat) :
    r.engine.Reachable (r.abandonEach clients).engine := by
  induction clients generalizing r with
  | nil => exact .refl _
  | cons client rest ih => exact (reachable_perform r _).trans (ih _)

theorem reachable_abandonAll (r : Run F) : r.engine.Reachable r.abandonAll.engine :=
  reachable_abandonEach r _

end Run

end CursorContext
