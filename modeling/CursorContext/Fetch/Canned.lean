import CursorContext.Fetch.Basic

/-!
# A fetcher with canned answers

This fetcher answers from a table of lines and depths, with one item of its own making where the
table is silent, and fails where it was told to.  It can be held: flights of calls made meanwhile
wait until it is released, and one whose token is cancelled by then never comes back.

## Main definitions

* `Canned.State`, `Canned.Order`: what is kept, and what it can be told.
* `Canned.Flight`: a call on its way.
* `Fetcher.canned`: the fetcher.
-/

namespace CursorContext

namespace Canned

/-- A start line and a depth. -/
abbrev Place := UInt32 × Depth

/-- What is kept between calls. -/
structure State where
  /-- The items to answer with, the newest entry of a place first. -/
  answers : List (Place × List Item) := []
  /-- The places to fail at. -/
  failures : List Place := []
  /-- How often the fetcher was held so far. -/
  holds : Nat := 0
  /-- The fetcher is held. -/
  held : Bool := false
  deriving Repr, Inhabited

/-- What the fetcher can be told. -/
inductive Order
  /-- Answer with these items. -/
  | respond (place : Place) (found : List Item)
  /-- Fail. -/
  | fail (place : Place)
  /-- Hold the flights of calls from now on. -/
  | hold
  /-- Let the held flights go. -/
  | release
  deriving Repr

/-- A call on its way. -/
structure Flight where
  /-- The hold that the call waits for, counted from 1. -/
  hold : Option Nat
  /-- What it comes back with. -/
  outcome : Outcome
  /-- It never comes back. -/
  lost : Bool
  deriving Repr

/-- What is kept once something was told; holding a held fetcher changes nothing. -/
def State.obey (s : State) : Order → State
  | .respond place found => { s with answers := (place, found) :: s.answers }
  | .fail place => { s with failures := place :: s.failures }
  | .hold => if s.held then s else { s with holds := s.holds + 1, held := true }
  | .release => { s with held := false }

/-- The item that the fetcher makes for a key. -/
def defaultItem (key : Key) : Item where
  symbol := s!"sym_{key.span.start.toNat}_d{key.depth.hops.toNat}"
  lines := [s!"line {key.span.start.toNat}"]
  source := key.document

/-- What a call comes back with. -/
def State.outcome (s : State) (key : Key) : Outcome :=
  let place := (key.span.start, key.depth)
  if place ∈ s.failures then
    .failure s!"mock fetch failed for line {key.span.start.toNat} depth {key.depth.hops.toNat}"
  else .items ((s.answers.lookup place).getD [defaultItem key])

/-- The flight of a call. -/
def State.depart (s : State) (key : Key) : Flight where
  hold := if s.held then some s.holds else none
  outcome := s.outcome key
  lost := false

/-- The hold is still on. -/
def State.holding (s : State) (hold : Nat) : Bool := s.held && s.holds == hold

/-- One poll: a flight waits for its hold to end, and is lost if its token is cancelled then. -/
def State.poll (s : State) (cancelled : Bool) (f : Flight) : Progress Flight :=
  if f.lost then .blocked
  else
    match f.hold with
    | none => .resolved f.outcome
    | some hold =>
      if s.holding hold then .blocked
      else if cancelled then .moved { f with lost := true }
      else .resolved f.outcome

/-- A flight changes once, when it is lost. -/
def Flight.rank (f : Flight) : Nat := if f.lost then 0 else 1

theorem State.poll_rank_lt {s : State} {cancelled : Bool} {f g : Flight}
    (h : s.poll cancelled f = .moved g) : g.rank < f.rank := by
  unfold State.poll at h
  split at h
  · cases h
  · split at h
    · cases h
    · split at h
      · cases h
      · split at h
        · cases h; simp_all [Flight.rank]
        · cases h

end Canned

/-- The fetcher with canned answers. -/
def Fetcher.canned : Fetcher where
  State := Canned.State
  Order := Canned.Order
  Flight := Canned.Flight
  obey := Canned.State.obey
  depart := Canned.State.depart
  poll s _ cancelled f := s.poll cancelled f
  alarm _ := none
  rank := Canned.Flight.rank
  rank_lt h := Canned.State.poll_rank_lt h

end CursorContext
