import CursorContext.Engine.Table

/-!
# The engine: loading ahead

Every move of the cursor starts a timer in the place of the one before.  When the cursor has rested
long enough the timer goes off: a new generation begins, which cancels the one before, and the plan
of the position is looked up for it.

## Main definitions

* `Engine.move`: a move of the cursor.
* `Engine.nextGeneration`, `Engine.warm`: a new generation, and one that loads a position ahead.
* `Engine.elapse`, `Engine.complete`: the end of a timer, and whether it goes off.
* `Engine.disarm`, `Engine.dispose`: no timer any more, and the end of the cache.
-/

namespace CursorContext.Engine

variable {F : Fetcher}

/-- Begins the next generation; the one before is cancelled first. -/
def nextGeneration (e : Engine F) : Engine F :=
  let (generations, tokens) := e.generations.next e.tokens
  { e with generations, tokens }.note
    (.superseded e.generations.current.id generations.current.id)

/-- Looks up the plan of a position under a stamp and waits for nothing. -/
def preload (e : Engine F) (background : Bool) (stamp : Stamp) (document : Uri)
    (position : Position) : Engine F :=
  (e.lookupPlan background stamp (Plan.at document position)).1

/-- Counts a generation, where the table counts them. -/
def countGeneration (e : Engine F) : Engine F :=
  if e.options.countsGenerations then e.count .generation else e

/-- Begins a new generation for a position and loads it ahead; not after the end of the cache. -/
def warm (e : Engine F) (background : Bool) (document : Uri) (position : Position) :
    Engine F × Option Stamp :=
  if e.isOver then (e.note (.preloadRefused document), none)
  else
    let e := e.nextGeneration.countGeneration
    let stamp := e.generations.current
    let e := e.note (.preloading document position.line stamp.id)
    (e.preload background stamp document position, some stamp)

/-- No timer is running any more. -/
def disarm (e : Engine F) : Engine F :=
  match e.armed with
  | some t => { e with armed := none }.cancel t
  | none => e

/-- Starts a timer in the place of the one that is running.  It does not count before it is
polled. -/
def arm (e : Engine F) (document : Uri) (position : Position) : Engine F :=
  let e := e.disarm
  let (token, tokens) := e.tokens.child e.generations.root
  { e with tokens, armed := some token }.spawn
    (.timer token none document position)

/-- A move of the cursor. -/
def move (e : Engine F) (background : Bool) (document : Uri) (position : Position) : Engine F :=
  if !e.options.preloads || e.isOver then e
  else if background then e.arm document position
  else e.note .preloadSkipped

/-- A timer that was woken is over.  It goes off unless its token is cancelled. -/
def elapse (e : Engine F) (job : Nat) (token : Token) (document : Uri) (position : Position) :
    Engine F :=
  let e := e.setJob job .ended
  if e.isCancelled token then e
  else ({ e with armed := none }.warm true document position).1

/-- A timer that was woken asks whether it goes off.  It does not if its token was cancelled; if it
does, no timer is running any more, whichever one that was. -/
def complete (e : Engine F) (token : Token) : Engine F × Bool :=
  if e.isCancelled token then (e, false) else ({ e with armed := none }, true)

/-- What a timer that was woken asks decides whether it loads its position ahead. -/
theorem elapse_eq (e : Engine F) (job : Nat) (token : Token) (document : Uri)
    (position : Position) :
    e.elapse job token document position =
      let (e, goesOff) := (e.setJob job .ended).complete token
      if goesOff then (e.warm true document position).1 else e := by
  simp only [elapse, complete]
  split <;> rfl

theorem complete_snd (e : Engine F) (token : Token) :
    (e.complete token).2 = !e.isCancelled token := by
  unfold complete
  split
  · next h => rw [h]; rfl
  · next h => rw [Bool.eq_false_iff.mpr h]; rfl

/-- The end of the cache, once: everything is cancelled and the table is empty. -/
def dispose (e : Engine F) : Engine F :=
  if e.disposed then e
  else ({ e with disposed := true }.cancelRoot.disarm.clear).note .closed

/-- The end of a cache that nobody refers to. -/
def reap (e : Engine F) : Engine F := if e.isAlive then e else e.dispose

/-- The host lets go of the cache. -/
def letGo (e : Engine F) : Engine F := { e with held := false }.reap

end CursorContext.Engine
