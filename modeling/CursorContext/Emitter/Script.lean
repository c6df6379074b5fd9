import CursorContext.Emitter.Registry

/-!
# Emitters with scripted listeners

An emitter hands an event to every listener that is registered when the emission begins, in the
order in which they subscribed.  Listeners may do anything meanwhile: subscribe others, let go of
handles, emit again, or let go of the emitter.  A listener here is a script of such actions, so
that all of this is data.

The depth to which emissions are nested is bounded by a given number; an emission that would go
deeper has no result.

Emissions and the calls they make leave marks, in the order in which they happen.  An emission is
known by the place of the mark that it leaves when it begins.

## Main definitions

* `Script.Action`, `Script.Listener`: what listeners do.
* `Script.Handle`, `Script.Mark`, `Script.Scene`: handles of subscriptions, what happened, and all
  there is.
* `Script.emit`, `Script.perform`: emissions and actions.
-/

namespace CursorContext.Script

/-- What can be done. -/
inductive Action
  /-- Subscribe a listener of a name that performs a script. -/
  | subscribe (name : String) (script : List Action)
  /-- Unsubscribe a handle and keep it. -/
  | unsubscribe (handle : Nat)
  /-- Let go of a handle, which unsubscribes it. -/
  | release (handle : Nat)
  /-- Emit an event. -/
  | emit (event : Int)
  /-- Let go of the emitter. -/
  | close
  /-- Hand positive events on, each less by one, at the end of the script it stands in. -/
  | relay
  /-- Nothing. -/
  | idle

/-- The action hands events on. -/
def Action.isRelay : Action → Bool
  | .relay => true
  | _ => false

/-- A listener: the name it is seen under and its script. -/
structure Listener where
  /-- The name it is seen under. -/
  name : String
  /-- What it does when it is called. -/
  script : List Action

/-- A handle of a subscription. -/
inductive Handle
  /-- Its listener is under this number. -/
  | active (id : Nat)
  /-- It was unsubscribed. -/
  | inactive
  /-- It is gone. -/
  | released
  deriving DecidableEq, Repr

/-- What happened. -/
inductive Mark
  /-- An emission of an event began, with listeners registered under these numbers. -/
  | began (event : Int) (ids : List Nat)
  /-- An emission called the listener of a number. -/
  | called (emission : Nat) (id : Nat) (name : String) (event : Int)
  deriving DecidableEq, Repr

/-- The name and the event of a call. -/
def Mark.call? : Mark → Option (String × Int)
  | .began _ _ => none
  | .called _ _ name event => some (name, event)

/-- All there is: the emitter, unless it is gone, the handles, and what happened. -/
structure Scene where
  /-- The listeners of the emitter, unless it is gone. -/
  emitter : Option (Registry Listener)
  /-- The handles, in the order in which they were made. -/
  handles : Array Handle
  /-- What happened. -/
  marks : Array Mark

namespace Scene

/-- An emitter without listeners. -/
def start : Scene := ⟨some .empty, #[], #[]⟩

/-- The listeners that an emission calls, with their numbers. -/
def audience (s : Scene) : List (Nat × Listener) :=
  match s.emitter with
  | some r => r.entries.toList
  | none => []

/-- Leaves a mark. -/
def mark (s : Scene) (m : Mark) : Scene := { s with marks := s.marks.push m }

/-- The calls of listeners: the names and the events. -/
def seen (s : Scene) : List (String × Int) := s.marks.toList.filterMap Mark.call?

/-- Subscribes a listener, unless the emitter is gone. -/
def subscribe (s : Scene) (l : Listener) : Scene :=
  match s with
  | ⟨some r, handles, marks⟩ =>
    let (id, r) := r.subscribe l
    ⟨some r, handles.push (.active id), marks⟩
  | s => s

/-- Takes the listener of a handle away and leaves the handle in a new state. -/
def detach (s : Scene) (handle : Nat) (after : Handle) : Scene :=
  match s.handles[handle]? with
  | some (.active id) =>
    { s with
      emitter := s.emitter.map (·.remove id)
      handles := s.handles.setIfInBounds handle after }
  | some .inactive => { s with handles := s.handles.setIfInBounds handle after }
  | _ => s

/-- How many listeners the emitter has. -/
def count? (s : Scene) : Option Nat := s.emitter.map Registry.count

end Scene

/-- One action; an emission goes by what is given for it. -/
def act (emit : Int → Scene → Option Scene) (a : Action) (s : Scene) : Option Scene :=
  match a with
  | .subscribe name script => some (s.subscribe ⟨name, script⟩)
  | .unsubscribe handle => some (s.detach handle .inactive)
  | .release handle => some (s.detach handle .released)
  | .emit event => if s.emitter.isSome then emit event s else some s
  | .close => some { s with emitter := none }
  | .relay => some s
  | .idle => some s

/-- Actions in order. -/
def actAll (emit : Int → Scene → Option Scene) : List Action → Scene → Option Scene
  | [], s => some s
  | a :: rest, s => (act emit a s).bind (actAll emit rest)

/-- One call of a listener: it leaves a mark, performs its script, and hands a positive event on if
its script says so and the emitter is still there. -/
def call (emit : Int → Scene → Option Scene) (emission : Nat) (event : Int) (id : Nat)
    (l : Listener) (s : Scene) : Option Scene :=
  (actAll emit l.script (s.mark (.called emission id l.name event))).bind fun s =>
    if l.script.any Action.isRelay && 0 < event && s.emitter.isSome then emit (event - 1) s
    else some s

/-- The calls of listeners in order. -/
def callAll (emit : Int → Scene → Option Scene) (emission : Nat) (event : Int) :
    List (Nat × Listener) → Scene → Option Scene
  | [], s => some s
  | (id, l) :: rest, s =>
    (call emit emission event id l s).bind (callAll emit emission event rest)

/-- One emission: the listeners registered at its beginning are called, in order. -/
def emit : Nat → Int → Scene → Option Scene
  | 0, _, _ => none
  | depth + 1, event, s =>
    callAll (emit depth) s.marks.size event s.audience
      (s.mark (.began event (s.audience.map (·.1))))

/-- One action from outside; nothing happens if emissions would be nested too deeply. -/
def perform (depth : Nat) (a : Action) (s : Scene) : Scene := (act (emit depth) a s).getD s

/-- How deeply emissions may be nested unless something else is said. -/
def depthLimit : Nat := 100000

/-- The printed form of the emitter. -/
def Scene.emitterText? (s : Scene) : Option String :=
  s.count?.map fun n => "EventEmitter \x7b listeners: " ++ toString n ++ " \x7d"

/-- Whether a handle is active, unless it is gone. -/
def Handle.active? : Handle → Option Bool
  | .active _ => some true
  | .inactive => some false
  | .released => none

/-- The printed form of a handle that is not gone. -/
def Handle.text? (h : Handle) : Option String :=
  h.active?.map fun b =>
    "Subscription \x7b active: " ++ (if b then "true" else "false") ++ " \x7d"

end CursorContext.Script
