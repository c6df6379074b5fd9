import CursorContext.Item.Basic
import CursorContext.Key

/-!
# Fetchers

A fetcher is asked for the items of a key.  Asking only sets off a *flight*; what the flight does,
it does when it is polled, and a poll is told the time and whether the flight's token is cancelled.
What a fetcher makes of a cancelled token is its own affair: a flight may come back with an error,
carry on, or never come back at all.

A flight that is not back yet can change while it is polled, but not without end: every change
lowers its rank.

## Main definitions

* `Outcome`, `Progress`: how a fetch comes out, and what one poll does.
* `Fetcher`: a fetcher, as the engine sees it.
-/

namespace CursorContext

/-- How a fetch comes out. -/
inductive Outcome
  /-- With items. -/
  | items (found : List Item)
  /-- With an error that says so much. -/
  | failure (cause : String)
  deriving DecidableEq, Repr, Inhabited

/-- The failure of a chain of causes, each the cause of the one in front of it. -/
def Outcome.ofCauses (causes : List String) : Outcome := .failure (": ".intercalate causes)

/-- The items of an outcome; a failure counts as none. -/
def Outcome.found : Outcome → List Item
  | .items found => found
  | .failure _ => []

/-- What one poll of a flight does. -/
inductive Progress (φ : Type)
  /-- Nothing. -/
  | blocked
  /-- The flight changes and is not back yet. -/
  | moved (flight : φ)
  /-- The flight is back. -/
  | resolved (outcome : Outcome)
  deriving DecidableEq, Repr

/-- Nothing was done. -/
def Progress.isBlocked {φ : Type} : Progress φ → Bool
  | .blocked => true
  | _ => false

/-- A fetcher, as the engine sees it. -/
structure Fetcher where
  /-- What the fetcher keeps between calls. -/
  State : Type
  /-- What a host can tell the fetcher. -/
  Order : Type
  /-- A fetch that is not back yet. -/
  Flight : Type
  /-- What the fetcher keeps once it was told something. -/
  obey : State → Order → State
  /-- The flight of a call. -/
  depart : State → Key → Flight
  /-- One poll of a flight: at a time, with its token cancelled or not. -/
  poll : State → Nat → Bool → Flight → Progress Flight
  /-- The time at which a flight wants to be polled again, if it waits for one. -/
  alarm : Flight → Option Nat
  /-- How often a flight can still change. -/
  rank : Flight → Nat
  /-- Every change lowers the rank. -/
  rank_lt : ∀ {state now cancelled flight flight'},
    poll state now cancelled flight = .moved flight' → rank flight' < rank flight

end CursorContext
