import CursorContext.Report
import CursorContext.Text.Duration

/-!
# The workbench

On the workbench an engine is worked part by part: generations and entries are kept by the host
under numbers, lookups are made for any of the generations, and the tokens are cancelled by hand.

## Main definitions

* `Workbench`: an engine with what the host keeps.
* `Workbench.Step`, `Workbench.perform`: what the host does.
* `Workbench.report`, `Workbench.trace`: the reports of a sequence of steps.
-/

namespace CursorContext

/-- An engine with what the host keeps. -/
structure Workbench (F : Fetcher) where
  /-- The engine with its queue. -/
  run : Run F
  /-- The generations that are kept. -/
  stamps : List Stamp
  /-- The entries that are kept; those let go of leave a gap. -/
  kept : List (Option Entry)
  /-- What was reported so far. -/
  shown : Shown

namespace Workbench

variable {F : Fetcher}

/-- What the host does.  A generation is given by its number, and is that of a query in the
foreground if there is none of the number; `background` says whether jobs can be started. -/
inductive Step (F : Fetcher)
  /-- Load a position ahead at once. -/
  | warm (document : Uri) (position : Position) (background : Bool)
  /-- Move the cursor. -/
  | move (document : Uri) (position : Position) (background : Bool)
  /-- Stop the timer that is running. -/
  | disarm
  /-- Cancel the root of all tokens. -/
  | cancelRoot
  /-- Begin a generation. -/
  | nextGeneration
  /-- Keep a generation of a number with a token of its own. -/
  | makeGeneration (id : Nat)
  /-- Cancel the token of a generation. -/
  | cancelGeneration (stamp : Option Nat)
  /-- Look a plan up and keep its entries. -/
  | lookup (document : Uri) (position : Position) (stamp : Option Nat) (background : Bool)
  /-- Look a plan up. -/
  | preload (document : Uri) (position : Position) (stamp : Option Nat) (background : Bool)
  /-- Look a key up and keep its entry. -/
  | obtain (key : Key) (stamp : Option Nat) (background : Bool)
  /-- Keep the entry of a key, if the table has one. -/
  | get (key : Key)
  /-- Show an entry. -/
  | entry (index : Nat)
  /-- Show all entries. -/
  | entries
  /-- Let go of an entry. -/
  | dropEntry (index : Nat)
  /-- Let go of all entries. -/
  | dropEntries
  /-- Wait for an entry. -/
  | await (index : Nat)
  /-- Ask for the context of a position. -/
  | query (request : Request) (background : Bool)
  /-- Clear the table. -/
  | clear
  /-- Change a document. -/
  | edit (document : Uri) (changes : Nat)
  /-- Show the parts in words. -/
  | portrait
  /-- Give a client up. -/
  | abandon (client : Nat)
  /-- Let the clock go on. -/
  | advance (ms : Nat)
  /-- Tell the fetcher something. -/
  | tell (order : F.Order)
  /-- Show the calls. -/
  | summary
  /-- Several steps with no job running in between. -/
  | batch (steps : List (Step F))

/-- An engine on the workbench at the beginning. -/
def start (options : Options) (world : F.State) : Workbench F where
  run := Run.start (Engine.start options world)
  stamps := []
  kept := []
  shown := {}

/-- The generation of a number. -/
def stamp (w : Workbench F) (i : Option Nat) : Stamp :=
  (i.bind fun i => w.stamps[i]?).getD w.run.engine.generations.foreground

/-- An entry as the host sees it. -/
def view (w : Workbench F) (index : Nat) (entry : Entry) : EntryView where
  index
  generation := entry.stamp.id
  cancelled := w.run.engine.isCancelled entry.stamp.token
  outcome := w.run.engine.outcome? entry.call

/-- The entry of a number as the host sees it. -/
def view? (w : Workbench F) (index : Nat) : Option EntryView :=
  (w.kept[index]?.bind id).map (w.view index)

/-- Keeps an entry. -/
def keep (w : Workbench F) (entry : Entry) : Workbench F × EntryView :=
  let w' := { w with kept := w.kept ++ [some entry] }
  (w', w'.view w.kept.length entry)

/-- Keeps a generation. -/
def keepStamp (w : Workbench F) (stamp : Stamp) : Workbench F × Nat :=
  ({ w with stamps := w.stamps ++ [stamp] }, w.stamps.length)

/-- Something is done to the engine. -/
def update (w : Workbench F) (change : Engine F → Engine F) : Workbench F :=
  { w with run := w.run.update change }

/-- An action. -/
def act (w : Workbench F) (a : Engine.Action F) : Workbench F := { w with run := w.run.perform a }

/-- A kept entry in words. -/
def entryText (w : Workbench F) (entry : Entry) : String :=
  "CacheEntry \x7b generation: " ++ toString entry.stamp.id
    ++ ", cancelled: " ++ Settings.truth (w.run.engine.isCancelled entry.stamp.token)
    ++ ", resolved: " ++ Settings.truth (w.run.engine.outcome? entry.call).isSome ++ " \x7d"

/-- The parts in words. -/
def portrait (w : Workbench F) : Portrait :=
  let e := w.run.engine
  { table := e.tableText
    entries := (w.kept.filterMap id).map w.entryText
    queries := "QueryOrchestrator \x7b store: " ++ e.tableText ++ ", .. \x7d"
    preloads := "Preloader \x7b debounce: " ++ Text.milliseconds e.options.debounce
      ++ ", enabled: " ++ Settings.truth e.options.preloads ++ ", .. \x7d"
    edits := "InvalidationListener \x7b store: " ++ e.tableText ++ " \x7d" }

/-- Keeps the entries of a plan, that of the line above first. -/
def keepPlan (w : Workbench F) (previous : Option Entry) (current : Entry) :
    Workbench F × Reply :=
  match previous with
  | some previous =>
    let (w, previous) := w.keep previous
    let (w, current) := w.keep current
    (w, .plan (some previous) current)
  | none =>
    let (w, current) := w.keep current
    (w, .plan none current)

mutual

/-- One step and what it answers. -/
def perform (w : Workbench F) : Step F → Workbench F × Reply
  | .warm document position background =>
    let stamp := (w.run.engine.warm background document position).2
    let w := w.act (.warm background document position)
    match stamp with
    | some stamp =>
      let (w, index) := w.keepStamp stamp
      (w, .stamp index stamp.id)
    | none => (w, .nothing)
  | .move document position background => (w.act (.move background document position), .nothing)
  | .disarm => (w.act .disarm, .nothing)
  | .cancelRoot => (w.act .cancelRoot, .nothing)
  | .nextGeneration =>
    let w := w.update (·.nextGeneration)
    let stamp := w.run.engine.generations.current
    let (w, index) := w.keepStamp stamp
    (w, .stamp index stamp.id)
  | .makeGeneration id =>
    let token := w.run.engine.tokens.root.1
    let w := w.update fun e => { e with tokens := e.tokens.root.2 }
    let (w, index) := w.keepStamp ⟨id, token⟩
    (w, .number index)
  | .cancelGeneration i => (w.update (·.cancel (w.stamp i).token), .nothing)
  | .lookup document position i background =>
    let look (e : Engine F) := e.lookupPlan background (w.stamp i) (Plan.at document position)
    let (_, previous, current) := look w.run.engine
    (w.update fun e => (look e).1).keepPlan previous current
  | .preload document position i background =>
    (w.update (·.preload background (w.stamp i) document position), .nothing)
  | .obtain key i background =>
    let look (e : Engine F) := e.lookup background (w.stamp i) key
    let (_, entry, hit) := look w.run.engine
    let (w, view) := (w.update fun e => (look e).1).keep entry
    (w, .lookup hit view)
  | .get key =>
    match w.run.engine.find? key with
    | some entry =>
      let (w, view) := w.keep entry
      (w, .found true (some view))
    | none => (w, .found false none)
  | .entry i => (w, .entry (w.view? i))
  | .entries => (w, .entries ((List.range w.kept.length).map w.view?))
  | .dropEntry i => ({ w with kept := w.kept.set i none }, .nothing)
  | .dropEntries => ({ w with kept := w.kept.map fun _ => none }, .nothing)
  | .await i =>
    match w.kept[i]?.bind id with
    | some entry => (w.act (.await entry.call), .number w.run.engine.nextClient)
    | none => (w, .nothing)
  | .query r background =>
    if background then (w.act (.query r), .number w.run.engine.nextClient)
    else (w.act (.ask r), .answer (w.run.engine.ask r).2)
  | .clear => (w.act .clear, .nothing)
  | .edit document changes => (w.act (.edit document changes), .nothing)
  | .portrait => (w, .portrait w.portrait)
  | .abandon client => (w.act (.abandon client), .nothing)
  | .advance ms => ({ w with run := w.run.advance ms }, .nothing)
  | .tell order => (w.act (.tell order), .nothing)
  | .summary => (w, .calls w.run.places)
  | .batch steps =>
    let (w, replies) := w.performAll steps
    (w, .each replies)

/-- Steps in order and what they answer. -/
def performAll (w : Workbench F) : List (Step F) → Workbench F × List Reply
  | [] => (w, [])
  | s :: rest =>
    let (w, reply) := w.perform s
    let (w, replies) := w.performAll rest
    (w, reply :: replies)

end

/-- What is reported besides. -/
structure Status where
  /-- The number of entries. -/
  size : Nat
  /-- The counters of the table. -/
  counters : Counters
  /-- A timer is running. -/
  armed : Bool
  /-- The number of the current generation. -/
  generation : Nat
  /-- Its token is cancelled. -/
  generationCancelled : Bool
  /-- The root is cancelled. -/
  rootCancelled : Bool
  deriving Repr

/-- What is reported besides, now. -/
def status (w : Workbench F) : Status :=
  let e := w.run.engine
  { size := e.table.length
    counters := e.counters
    armed := e.isArmed
    generation := e.generations.current.id
    generationCancelled := e.isCancelled e.generations.current.token
    rootCancelled := e.isOver }

/-- One step, after which the jobs run, and its report. -/
def advance (w : Workbench F) (s : Step F) : Workbench F × Report × Status :=
  let (w, reply) := w.perform s
  let w := { w with run := w.run.settle }
  let kept := w.kept.filterMap (·.map Entry.call)
  let (report, shown) := w.run.report kept w.shown reply
  ({ w with shown }, report, w.status)

/-- The reports of steps. -/
def trace (w : Workbench F) : List (Step F) → List (Report × Status)
  | [] => []
  | s :: rest =>
    let (w, report) := w.advance s
    report :: w.trace rest

end Workbench

end CursorContext
