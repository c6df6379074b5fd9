import CursorContext.Engine.Jobs

/-!
# The engine: runs

Whatever happens to an engine is one of a few actions, each of which is done without interruption:
what a host does, a poll of one job, and the clock going on.  A run is a list of actions in any
order; every way in which jobs can be interleaved with each other and with the host is a run.

## Main definitions

* `Engine.Action`, `Engine.perform`: the actions.
* `Engine.Action.Polls`: the actions that poll a job.
* `Engine.run`: one action after the other.
* `Engine.Reachable`: what an engine can come to.
-/

namespace CursorContext.Engine

variable {F : Fetcher}

/-- What can happen to an engine; `background` says whether jobs can be started. -/
inductive Action (F : Fetcher)
  /-- The cursor moves. -/
  | move (background : Bool) (document : Uri) (position : Position)
  /-- A document changes. -/
  | edit (document : Uri) (changes : Nat)
  /-- The table is cleared. -/
  | clear
  /-- A query is made. -/
  | query (request : Request)
  /-- A query is made and polled once where no jobs can be started, and then given up. -/
  | ask (request : Request)
  /-- Somebody waits for a call. -/
  | await (call : Nat)
  /-- A client is given up. -/
  | abandon (client : Nat)
  /-- The cache is disposed of. -/
  | dispose
  /-- The host lets go of the cache. -/
  | letGo
  /-- A position is loaded ahead at once. -/
  | warm (background : Bool) (document : Uri) (position : Position)
  /-- The timer that is running is stopped. -/
  | disarm
  /-- The token of the cache's whole life is cancelled. -/
  | cancelRoot
  /-- The fetcher is told something. -/
  | tell (order : F.Order)
  /-- The clock goes on. -/
  | tick (ms : Nat)
  /-- A job is polled. -/
  | poll (job : Nat)
  /-- A query is polled where no jobs can be started. -/
  | pollOutside (job : Nat)

/-- What an action makes of an engine. -/
def perform (e : Engine F) : Action F → Engine F
  | .move background document position => e.move background document position
  | .edit document changes => e.edit document changes
  | .clear => e.clear
  | .query r => e.query r
  | .ask r => (e.ask r).1
  | .await call => e.await call
  | .abandon client => e.abandon client
  | .dispose => e.dispose
  | .letGo => e.letGo
  | .warm background document position => (e.warm background document position).1
  | .disarm => e.disarm
  | .cancelRoot => e.cancelRoot
  | .tell order => e.tell order
  | .tick ms => e.tick ms
  | .poll job => e.poll job
  | .pollOutside job => e.pollOutside job

/-- The action polls a job; `background` says whether jobs can be started there. -/
inductive Action.Polls : Action F → Nat → Bool → Prop
  /-- As the jobs are that run in the background. -/
  | inside (job : Nat) : Polls (.poll job) job true
  /-- As a query is that is waited for elsewhere. -/
  | outside (job : Nat) : Polls (.pollOutside job) job false

/-- One action after the other. -/
def run (e : Engine F) (actions : List (Action F)) : Engine F := actions.foldl perform e

@[simp] theorem run_nil (e : Engine F) : e.run [] = e := rfl

@[simp] theorem run_cons (e : Engine F) (a : Action F) (rest : List (Action F)) :
    e.run (a :: rest) = (e.perform a).run rest := rfl

theorem run_append (e : Engine F) (a b : List (Action F)) : e.run (a ++ b) = (e.run a).run b := by
  simp [run]

/-- What an engine can come to. -/
def Reachable (e e' : Engine F) : Prop := ∃ actions, e.run actions = e'

theorem Reachable.refl (e : Engine F) : e.Reachable e := ⟨[], rfl⟩

theorem Reachable.perform {e e' : Engine F} (h : e.Reachable e') (a : Action F) :
    e.Reachable (e'.perform a) := by
  obtain ⟨actions, rfl⟩ := h
  exact ⟨actions ++ [a], by simp [run]⟩

theorem Reachable.trans {a b c : Engine F} (h : a.Reachable b) (k : b.Reachable c) :
    a.Reachable c := by
  obtain ⟨s, rfl⟩ := h
  obtain ⟨t, rfl⟩ := k
  exact ⟨s ++ t, run_append a s t⟩

end CursorContext.Engine
