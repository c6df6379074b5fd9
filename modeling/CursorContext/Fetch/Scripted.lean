import CursorContext.Fetch.Basic

/-!
# A fetcher that follows rules

For every start line and depth this fetcher can be given a rule: a gate to wait for, a time to wait
once the gate is open, what to answer, and what to make of a cancelled token.  Gates are opened for
good.  Without a rule it answers at once, with one item of its own making.

## Main definitions

* `Scripted.Rule`, `Scripted.OnCancel`: rules.
* `Scripted.Flight`: a call on its way, and how far it is.
* `Fetcher.scripted`: the fetcher.
-/

namespace CursorContext

namespace Scripted

/-- What is made of a cancelled token. -/
inductive OnCancel
  /-- Nothing. -/
  | ignore
  /-- As long as the wait is not over, an error. -/
  | fail
  /-- Once the wait is over, silence for ever. -/
  | hang
  deriving DecidableEq, Repr, Inhabited

/-- How calls are answered. -/
structure Rule where
  /-- The gate to wait for. -/
  gate : Option String
  /-- How long to wait behind the gate, in milliseconds. -/
  delay : Nat
  /-- What is made of a cancelled token. -/
  onCancel : OnCancel
  /-- What is answered. -/
  outcome : Outcome
  deriving Repr, Inhabited

/-- A start line and a depth. -/
abbrev Place := UInt32 × Depth

/-- What is kept between calls. -/
structure State where
  /-- The rules, the newest of a place first. -/
  rules : List (Place × Rule) := []
  /-- The gates that were opened. -/
  opened : List String := []
  deriving Repr, Inhabited

/-- What the fetcher can be told. -/
inductive Order
  /-- Follow a rule from now on. -/
  | follow (place : Place) (rule : Rule)
  /-- Open a gate. -/
  | «open» (gate : String)
  deriving Repr

/-- How far a call is. -/
inductive Stage
  /-- Its gate was not seen open yet. -/
  | waiting
  /-- It waits for a time. -/
  | sleeping (wake : Nat)
  /-- It never comes back. -/
  | lost
  deriving DecidableEq, Repr

/-- A call on its way. -/
structure Flight where
  /-- How it is answered. -/
  rule : Rule
  /-- How far it is. -/
  stage : Stage
  deriving Repr

/-- What is kept once something was told. -/
def State.obey (s : State) : Order → State
  | .follow place rule => { s with rules := (place, rule) :: s.rules }
  | .«open» gate => { s with opened := gate :: s.opened }

/-- The item that the fetcher makes for a key. -/
def defaultItem (key : Key) : Item where
  symbol := "def_" ++ key.span.text ++ "_" ++ key.depth.text
  lines := []
  source := key.document

/-- The flight of a call: by the rule of its place, or else answered at once. -/
def State.depart (s : State) (key : Key) : Flight where
  rule := (s.rules.lookup (key.span.start, key.depth)).getD
    ⟨none, 0, .ignore, .items [defaultItem key]⟩
  stage := .waiting

/-- The gate of a rule, if it has one, is open. -/
def State.admits (s : State) (r : Rule) : Bool :=
  match r.gate with
  | none => true
  | some gate => s.opened.contains gate

/-- The wait of a flight is over. -/
def Flight.land (f : Flight) (cancelled : Bool) : Progress Flight :=
  if f.rule.onCancel = .hang ∧ cancelled then .moved { f with stage := .lost }
  else .resolved f.rule.outcome

/-- The wait of a flight is not over; `else` says what the poll did to it otherwise. -/
def Flight.linger (f : Flight) (cancelled : Bool) (otherwise : Progress Flight) :
    Progress Flight :=
  if f.rule.onCancel = .fail ∧ cancelled then .resolved (.failure "cancelled by client")
  else otherwise

/-- One poll. -/
def State.poll (s : State) (now : Nat) (cancelled : Bool) (f : Flight) : Progress Flight :=
  match f.stage with
  | .lost => .blocked
  | .waiting =>
    if s.admits f.rule then
      if f.rule.delay = 0 then f.land cancelled
      else f.linger cancelled (.moved { f with stage := .sleeping (now + f.rule.delay) })
    else f.linger cancelled .blocked
  | .sleeping wake =>
    if wake ≤ now then f.land cancelled else f.linger cancelled .blocked

/-- A flight goes from its gate to its sleep and, at worst, into silence. -/
def Flight.rank (f : Flight) : Nat :=
  match f.stage with
  | .waiting => 2
  | .sleeping _ => 1
  | .lost => 0

/-- The time at which a sleeping flight wakes. -/
def Flight.alarm (f : Flight) : Option Nat :=
  match f.stage with
  | .sleeping wake => some wake
  | _ => none

private theorem Flight.land_moved {f g : Flight} {cancelled : Bool}
    (h : f.land cancelled = .moved g) : g.stage = .lost := by
  unfold Flight.land at h
  split at h <;> cases h
  rfl

private theorem Flight.linger_moved {f g : Flight} {cancelled : Bool} {p : Progress Flight}
    (h : f.linger cancelled p = .moved g) : p = .moved g := by
  unfold Flight.linger at h
  split at h
  · cases h
  · exact h

theorem State.poll_rank_lt {s : State} {now : Nat} {cancelled : Bool} {f g : Flight}
    (h : s.poll now cancelled f = .moved g) : g.rank < f.rank := by
  unfold State.poll at h
  split at h
  · cases h
  · rename_i hstage
    split at h
    · split at h
      · simp [Flight.rank, hstage, Flight.land_moved h]
      · cases Flight.linger_moved h
        simp [Flight.rank, hstage]
    · cases Flight.linger_moved h
  · rename_i hstage
    split at h
    · simp [Flight.rank, hstage, Flight.land_moved h]
    · cases Flight.linger_moved h

end Scripted

/-- The fetcher that follows rules. -/
def Fetcher.scripted : Fetcher where
  State := Scripted.State
  Order := Scripted.Order
  Flight := Scripted.Flight
  obey := Scripted.State.obey
  depart := Scripted.State.depart
  poll := Scripted.State.poll
  alarm := Scripted.Flight.alarm
  rank := Scripted.Flight.rank
  rank_lt h := Scripted.State.poll_rank_lt h

end CursorContext
