import CursorContext.Emitter.Script

/-!
# Emitters step by step

What a listener does when it is called need not be written down in advance: it may look around
first, and it may do something else the next time.  So here all that matters about listeners is
what happens, one thing after the other.  Emissions that are going on lie on top of each other, the
innermost first: only the innermost one calls its next listener, and it is over once it called all.

A play is any sequence of such moves.  The script of a listener is left alone here; what scripts do
are some of the plays.

## Main definitions

* `Script.Delivery`, `Script.Play`: an emission that is going on, and a scene with all of them.
* `Script.Move`, `Script.Play.move`, `Script.Play.run`: what can happen, and one thing after the
  other.
* `Script.Play.start`: an emitter without listeners.
-/

namespace CursorContext.Script

/-- An emission that is going on. -/
structure Delivery where
  /-- The place of the mark that it left when it began. -/
  emission : Nat
  /-- Its event. -/
  event : Int
  /-- The listeners that it did not call yet, with their numbers. -/
  waiting : List (Nat × Listener)

/-- All there is, with the emissions that are going on, the innermost first. -/
structure Play where
  /-- All there is. -/
  scene : Scene
  /-- The emissions that are going on. -/
  deliveries : List Delivery

/-- What can happen. -/
inductive Move
  /-- A listener is subscribed. -/
  | subscribe (listener : Listener)
  /-- A handle is unsubscribed and kept. -/
  | unsubscribe (handle : Nat)
  /-- A handle is let go of. -/
  | release (handle : Nat)
  /-- The emitter is let go of. -/
  | close
  /-- An emission begins. -/
  | emit (event : Int)
  /-- The innermost emission calls its next listener, since the one before is done. -/
  | next
  /-- The innermost emission is over, since all its listeners are done. -/
  | finish

namespace Play

/-- An emitter without listeners, and no emission. -/
def start : Play := ⟨.start, []⟩

/-- One move.  Nothing happens if it cannot be made: nobody can emit without an emitter, and no
emission is over that has listeners to call. -/
def move (p : Play) : Move → Play
  | .subscribe listener => { p with scene := p.scene.subscribe listener }
  | .unsubscribe handle => { p with scene := p.scene.detach handle .inactive }
  | .release handle => { p with scene := p.scene.detach handle .released }
  | .close => { p with scene := { p.scene with emitter := none } }
  | .emit event =>
    if p.scene.emitter.isSome then
      ⟨p.scene.mark (.began event (p.scene.audience.map (·.1))),
        ⟨p.scene.marks.size, event, p.scene.audience⟩ :: p.deliveries⟩
    else p
  | .next =>
    match p.deliveries with
    | ⟨emission, event, (id, l) :: rest⟩ :: outer =>
      ⟨p.scene.mark (.called emission id l.name event), ⟨emission, event, rest⟩ :: outer⟩
    | _ => p
  | .finish =>
    match p.deliveries with
    | ⟨_, _, []⟩ :: outer => ⟨p.scene, outer⟩
    | _ => p

/-- One move after the other. -/
def run (p : Play) (moves : List Move) : Play := moves.foldl move p

@[simp] theorem run_nil (p : Play) : p.run [] = p := rfl

@[simp] theorem run_cons (p : Play) (m : Move) (rest : List Move) :
    p.run (m :: rest) = (p.move m).run rest := rfl

theorem run_append (p : Play) (a b : List Move) : p.run (a ++ b) = (p.run a).run b := by
  simp [run]

end Play

end CursorContext.Script
