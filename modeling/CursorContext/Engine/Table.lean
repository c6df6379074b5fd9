import CursorContext.Engine.Basic

/-!
# The engine: its table

A lookup finds the entry of a key or makes one, and making one calls the fetcher.  Nothing but a
lookup makes an entry, and nothing but clearing the whole table takes one out; so between two
clearings there is at most one call for every key, however it comes out.

Where jobs can run in the background, a new call is driven there; elsewhere it waits for somebody
who polls it.

## Main definitions

* `Engine.lookup`: the entry of a key, made if there is none.
* `Engine.lookupPlan`: the entries of a plan, the line above first.
* `Engine.clear`, `Engine.edit`: an empty table.
-/

namespace CursorContext.Engine

variable {F : Fetcher}

/-- An entry with a new call of the fetcher under a stamp. -/
def issue (e : Engine F) (background : Bool) (stamp : Stamp) (key : Key) : Engine F × Entry :=
  let entry : Entry := ⟨e.calls.size, stamp⟩
  let call : Call F := ⟨key, stamp, .pending (F.depart e.fetcher key)⟩
  let e := { e with calls := e.calls.push call, table := e.table ++ [(key, entry)] }
  (if background then e.spawn (.drive entry.call stamp.token) else e.note (.undriven key), entry)

/-- The entry of a key, and whether it was there before. -/
def lookup (e : Engine F) (background : Bool) (stamp : Stamp) (key : Key) :
    Engine F × Entry × Bool :=
  match e.find? key with
  | some entry => ((e.count .hit).note (.hit key entry.stamp.id entry.call), entry, true)
  | none =>
    let e := (e.count .miss).note (.miss key stamp.id e.calls.size)
    let (e, entry) := e.issue background stamp key
    (e, entry, false)

/-- A lookup for a plan, which notes the call that it starts. -/
def lookupPlanned (e : Engine F) (background : Bool) (stamp : Stamp) (key : Key) :
    Engine F × Entry :=
  let (e, entry, found) := e.lookup background stamp key
  (if found then e else e.note (.issued key), entry)

/-- The entries of a plan; the line above is looked up first. -/
def lookupPlan (e : Engine F) (background : Bool) (stamp : Stamp) (p : Plan) :
    Engine F × Option Entry × Entry :=
  match p.previous with
  | some key =>
    let (e, previous) := e.lookupPlanned background stamp key
    let (e, current) := e.lookupPlanned background stamp p.current
    (e, some previous, current)
  | none =>
    let (e, current) := e.lookupPlanned background stamp p.current
    (e, none, current)

/-- Takes every entry out of the table; calls go on for those who hold on to them. -/
def clear (e : Engine F) : Engine F :=
  ({ e with table := [] }.count .invalidation).note (.cleared e.table.length)

/-- A document changed: any of its lines, or of the lines that refer to it, may mean something
else now. -/
def edit (e : Engine F) (document : Uri) (changes : Nat) : Engine F :=
  (e.note (.edited document changes)).clear

end CursorContext.Engine
