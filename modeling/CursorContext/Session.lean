import CursorContext.Emitter.Registry
import CursorContext.Report

/-!
# Sessions

A session is a cache at work in an editor.  Two emitters tell of moves of the cursor and of changes
of documents; the cache listens to both, and so may the host, before the cache and after it.  The
host may also dispose of the cache, or let go of it, and does so from its listeners if it likes.

Disposing detaches the cache from both emitters.  A leaky emitter pays no attention to that and goes
on telling the cache.

A step that names a document by what is no URI is refused.  A query of a cache that is gone is told
so whatever it names, since nobody looks at the name then.

## Main definitions

* `Session`: a cache on two emitters.
* `Session.emit`: a notification.
* `Session.Step`, `Session.perform`: what the host does.
* `Session.advance`, `Session.trace`: steps with their reports.
* `Session.reports`: the reports of steps none of which was refused.

## Main results

* `Session.reachable_perform`: whatever a host does is a run of the engine.
-/

namespace CursorContext

/-- What a listener of the host does, as long as the host refers to the cache. -/
inductive HostAction
  /-- Dispose of the cache. -/
  | dispose
  /-- Clear the table. -/
  | invalidate
  /-- Let go of the cache. -/
  | letGo
  /-- Nothing. -/
  | nothing
  deriving DecidableEq, Repr

/-- Who listens. -/
inductive Hook
  /-- The cache. -/
  | cache
  /-- The host. -/
  | host (action : HostAction)
  deriving DecidableEq, Repr

/-- What an emitter tells of. -/
inductive Channel
  /-- Moves of the cursor. -/
  | selection
  /-- Changes of documents. -/
  | document
  deriving DecidableEq, Repr

/-- A notification. -/
inductive Event
  /-- The cursor moved; `background` says whether jobs can be started. -/
  | moved (document : Uri) (position : Position) (background : Bool)
  /-- A document changed. -/
  | edited (document : Uri) (changes : Nat)
  deriving DecidableEq, Repr

/-- The channel of a notification. -/
def Event.channel : Event → Channel
  | .moved _ _ _ => .selection
  | .edited _ _ => .document

/-- A cache on two emitters. -/
structure Session (F : Fetcher) where
  /-- The engine of the cache, with its queue. -/
  run : Run F
  /-- The settings of the cache. -/
  settings : Settings
  /-- Who listens to moves of the cursor. -/
  selection : Registry Hook
  /-- Who listens to changes of documents. -/
  document : Registry Hook
  /-- The numbers under which the cache listens to both. -/
  own : Nat × Nat
  /-- The emitters pay no attention to those who want to be detached. -/
  leaky : Bool
  /-- What was reported so far. -/
  shown : Shown

namespace Session

variable {F : Fetcher}

/-- How the engine of a session is set up. -/
def options (s : Settings) : Options where
  debounce := s.debounce
  preloads := s.preloads
  timing := true

/-- The listeners of the host on a channel. -/
def hooks (channel : Channel) (listeners : List (Channel × HostAction)) : List Hook :=
  (listeners.filter (·.1 == channel)).map fun l => .host l.2

/-- A registry of listeners. -/
def subscribeAll (r : Registry Hook) (hooks : List Hook) : Registry Hook :=
  hooks.foldl (fun r hook => (r.subscribe hook).2) r

/-- A session at the beginning, with the listeners of the host that subscribed before the cache and
after it. -/
def start (settings : Settings) (leaky : Bool) (before after : List (Channel × HostAction))
    (world : F.State) : Session F :=
  let register (channel : Channel) : Nat × Registry Hook :=
    let (own, r) := (subscribeAll .empty (hooks channel before)).subscribe .cache
    (own, subscribeAll r (hooks channel after))
  { run := Run.start (Engine.opening (options settings) world)
    settings, leaky
    selection := (register .selection).2
    document := (register .document).2
    own := ((register .selection).1, (register .document).1)
    shown := {} }

/-- The registry of a channel. -/
def registry (s : Session F) : Channel → Registry Hook
  | .selection => s.selection
  | .document => s.document

/-- An action. -/
def act (s : Session F) (a : Engine.Action F) : Session F := { s with run := s.run.perform a }

/-- Detaches a cache that was disposed of from both emitters, unless they are leaky. -/
def detach (s : Session F) : Session F :=
  if s.run.engine.disposed && !s.leaky then
    { s with
      selection := s.selection.remove s.own.1
      document := s.document.remove s.own.2 }
  else s

/-! ### Notifications -/

/-- A listener of the host is called. -/
def hostAct (s : Session F) (a : HostAction) : Session F :=
  if s.run.engine.held then
    match a with
    | .dispose => s.act .dispose
    | .invalidate => s.act .clear
    | .letGo => s.act .letGo
    | .nothing => s
  else s

/-- The cache is told, as long as somebody refers to it. -/
def notify (s : Session F) (event : Event) : Session F :=
  if s.run.engine.isAlive then
    match event with
    | .moved document position background => s.act (.move background document position)
    | .edited document changes => s.act (.edit document changes)
  else s

/-- A listener is called. -/
def call (event : Event) (s : Session F) : Hook → Session F
  | .cache => s.notify event
  | .host a => s.hostAct a

/-- A notification: every listener that is registered at its beginning is called, in order. -/
def emit (s : Session F) (event : Event) : Session F :=
  ((s.registry event.channel).listeners.foldl (call event) s).detach

/-! ### Steps -/

/-- What the host does. -/
inductive Step (F : Fetcher)
  /-- Move the cursor. -/
  | move (document : Uri) (position : Position) (background : Bool)
  /-- Change a document. -/
  | edit (document : Uri) (changes : Nat)
  /-- Ask for the context of a position, by the budget of the settings if none is given. -/
  | query (document : Uri) (position : Position) (budget : Option Nat) (background : Bool)
  /-- Ask for the context of a position in a document whose name is no URI. -/
  | misnamedQuery (error : UriError)
  /-- Do anything else with a document whose name is no URI. -/
  | misnamed (error : UriError)
  /-- Clear the table. -/
  | invalidate
  /-- Dispose of the cache. -/
  | dispose
  /-- Give every client up, let jobs run, and let go of the cache. -/
  | drop
  /-- Show the settings. -/
  | settings
  /-- Show the cache in words. -/
  | portrait
  /-- Give a client up. -/
  | abandon (client : Nat)
  /-- Let the clock go on. -/
  | advance (ms : Nat)
  /-- Tell the fetcher something. -/
  | tell (order : F.Order)
  /-- Show the calls. -/
  | summary
  /-- Several steps with no job running in between. -/
  | batch (steps : List (Step F))

/-- The cache in words. -/
def portrait (s : Session F) : String :=
  "GraphContextCache \x7b config: " ++ s.settings.debugText
    ++ ", store: " ++ s.run.engine.tableText
    ++ ", disposed: " ++ Settings.truth s.run.engine.disposed ++ ", .. \x7d"

/-- Does something as long as the host refers to the cache. -/
def withCache (s : Session F) (action : Session F → Session F × Reply) : Session F × Reply :=
  if s.run.engine.held then action s else (s, .dropped)

/-- Asks for the context of a position. -/
def query (s : Session F) (r : Request) (background : Bool) : Session F × Reply :=
  if background then (s.act (.query r), .number s.run.engine.nextClient)
  else (s.act (.ask r), .answer (s.run.engine.ask r).2)

/-- Gives every client up, lets jobs run, and lets go of the cache. -/
def drop (s : Session F) : Session F :=
  { s with run := s.run.abandonAll.settle.perform .letGo }.detach

mutual

/-- One step and what it answers. -/
def perform (s : Session F) : Step F → Session F × Reply
  | .move document position background => (s.emit (.moved document position background), .nothing)
  | .edit document changes => (s.emit (.edited document changes), .nothing)
  | .query document position budget background =>
    s.withCache (·.query ⟨document, position, budget.getD s.settings.budget⟩ background)
  | .misnamedQuery error => s.withCache fun s => (s, .refused error)
  | .misnamed error => (s, .refused error)
  | .invalidate => s.withCache fun s => (s.act .clear, .nothing)
  | .dispose => s.withCache fun s => ((s.act .dispose).detach, .nothing)
  | .drop => s.withCache fun s => (s.drop, .nothing)
  | .settings => s.withCache fun s => (s, .settings s.settings)
  | .portrait => s.withCache fun s => (s, .text s.portrait)
  | .abandon client => ((s.act (.abandon client)).detach, .nothing)
  | .advance ms => ({ s with run := s.run.advance ms }.detach, .nothing)
  | .tell order => (s.act (.tell order), .nothing)
  | .summary => (s, .calls s.run.places)
  | .batch steps =>
    let (s, replies) := s.performAll steps
    (s, .each replies)

/-- Steps in order and what they answer. -/
def performAll (s : Session F) : List (Step F) → Session F × List Reply
  | [] => (s, [])
  | step :: rest =>
    let (s, reply) := s.perform step
    let (s, replies) := s.performAll rest
    (s, reply :: replies)

end

/-- What is reported besides. -/
structure Status where
  /-- The number of entries, the counters, and whether the cache was disposed of, as long as the
  host refers to it. -/
  cache : Option (Nat × Counters × Bool)
  /-- How many listen to moves of the cursor. -/
  selection : Nat
  /-- How many listen to changes of documents. -/
  document : Nat
  deriving Repr

/-- What is reported besides, now. -/
def status (s : Session F) : Status where
  cache :=
    if s.run.engine.held then
      some (s.run.engine.table.length, s.run.engine.counters, s.run.engine.disposed)
    else none
  selection := s.selection.count
  document := s.document.count

/-- One step, after which the jobs run, and its report. -/
def advance (s : Session F) (step : Step F) : Session F × Report × Status :=
  let (s, reply) := s.perform step
  let s := { s with run := s.run.settle }.detach
  let (report, shown) := s.run.report [] s.shown reply
  ({ s with shown }, report, s.status)

/-- The reports of steps. -/
def trace (s : Session F) : List (Step F) → List (Report × Status)
  | [] => []
  | step :: rest =>
    let (s, report) := s.advance step
    report :: s.trace rest

/-- The reports of steps, unless one of them was refused; the first refusal then stands for all. -/
def reports (s : Session F) (steps : List (Step F)) : Except UriError (List (Report × Status)) :=
  let reports := s.trace steps
  match Reply.firstRefusal? (reports.map (·.1.reply)) with
  | some error => .error error
  | none => .ok reports

/-! ### Runs of the engine -/

@[simp] theorem run_act (s : Session F) (a : Engine.Action F) :
    (s.act a).run = s.run.perform a := rfl

@[simp] theorem run_detach (s : Session F) : s.detach.run = s.run := by
  unfold detach
  split <;> rfl

theorem reachable_act (s : Session F) (a : Engine.Action F) :
    s.run.engine.Reachable (s.act a).run.engine :=
  s.run.reachable_perform a

theorem reachable_call (event : Event) (s : Session F) (hook : Hook) :
    s.run.engine.Reachable (call event s hook).run.engine := by
  cases hook with
  | cache =>
    simp only [call, notify]
    split
    · split <;> exact s.reachable_act _
    · exact .refl _
  | host a =>
    simp only [call, hostAct]
    split
    · cases a
      · exact s.reachable_act _
      · exact s.reachable_act _
      · exact s.reachable_act _
      · exact .refl _
    · exact .refl _

theorem reachable_callAll (event : Event) (hooks : List Hook) (s : Session F) :
    s.run.engine.Reachable (hooks.foldl (call event) s).run.engine := by
  induction hooks generalizing s with
  | nil => exact .refl _
  | cons hook rest ih => exact (reachable_call event s hook).trans (ih _)

theorem reachable_emit (s : Session F) (event : Event) :
    s.run.engine.Reachable (s.emit event).run.engine := by
  simpa [emit] using reachable_callAll event _ s

theorem reachable_withCache (s : Session F) {action : Session F → Session F × Reply}
    (h : s.run.engine.Reachable (action s).1.run.engine) :
    s.run.engine.Reachable (s.withCache action).1.run.engine := by
  unfold withCache
  split
  · exact h
  · exact .refl _

theorem reachable_query (s : Session F) (r : Request) (background : Bool) :
    s.run.engine.Reachable (s.query r background).1.run.engine := by
  unfold query
  split <;> exact s.reachable_act _

theorem reachable_drop (s : Session F) : s.run.engine.Reachable s.drop.run.engine := by
  simpa [drop] using
    ((s.run.reachable_abandonAll.trans (Run.reachable_settle _)).perform .letGo)

mutual

/-- Whatever a host does is a run of the engine. -/
theorem reachable_perform (s : Session F) :
    ∀ step, s.run.engine.Reachable (s.perform step).1.run.engine
  | .move _ _ _ => by simpa only [perform] using s.reachable_emit _
  | .edit _ _ => by simpa only [perform] using s.reachable_emit _
  | .query _ _ _ _ => by
    simpa only [perform] using s.reachable_withCache (s.reachable_query _ _)
  | .misnamedQuery _ => by
    rw [perform]
    exact s.reachable_withCache (.refl _)
  | .misnamed _ => by simpa only [perform] using .refl _
  | .invalidate => by
    rw [perform]
    exact s.reachable_withCache (s.reachable_act .clear)
  | .dispose => by
    rw [perform]
    exact s.reachable_withCache (by simpa using s.reachable_act .dispose)
  | .drop => by
    rw [perform]
    exact s.reachable_withCache s.reachable_drop
  | .settings => by
    rw [perform]
    exact s.reachable_withCache (.refl _)
  | .portrait => by
    rw [perform]
    exact s.reachable_withCache (.refl _)
  | .abandon client => by simpa [perform] using s.reachable_act (.abandon client)
  | .advance ms => by simpa [perform] using s.run.reachable_advance ms
  | .tell order => by simpa only [perform] using s.reachable_act (.tell order)
  | .summary => by simpa only [perform] using .refl _
  | .batch steps => by simpa only [perform] using s.reachable_performAll steps

theorem reachable_performAll (s : Session F) :
    ∀ steps, s.run.engine.Reachable (s.performAll steps).1.run.engine
  | [] => by simpa only [performAll] using .refl _
  | step :: rest => by
    simpa only [performAll] using
      (s.reachable_perform step).trans (reachable_performAll _ rest)

end

end Session

end CursorContext
