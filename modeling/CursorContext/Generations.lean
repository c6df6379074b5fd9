import CursorContext.Journal
import CursorContext.Token

/-!
# Generations of preloads

Loading context ahead goes in generations.  Each has a number and a token below a common root;
beginning the next one cancels the token of the last, so at most one of them is live.  A query in
the foreground is stamped with the number of the current generation but carries the root itself,
which no new generation cancels.

## Main definitions

* `Stamp`, `Generations`: a number with a token, and the current stamp with the root.
* `Generations.start`, `Generations.next`, `Generations.foreground`: the first generation, the next
  one, and the stamp of a query.
* `Lineage`: generations below an outer token, with every stamp that was handed out.
-/

namespace CursorContext

/-- A number and the token that cancels what is started under it. -/
structure Stamp where
  /-- The number of a generation. -/
  id : Nat
  /-- The token. -/
  token : Token
  deriving DecidableEq, Repr, Inhabited

/-- The current generation and the root above all of them. -/
structure Generations where
  /-- The token above all generations. -/
  root : Token
  /-- The current generation. -/
  current : Stamp
  deriving DecidableEq, Repr, Inhabited

namespace Generations

/-- Generation 0 below a root. -/
def start (root : Token) (s : TokenTree) : Generations × TokenTree :=
  let (token, s) := s.child root
  (⟨root, ⟨0, token⟩⟩, s)

/-- The next generation; the current one is cancelled first. -/
def next (g : Generations) (s : TokenTree) : Generations × TokenTree :=
  let (token, s) := (s.cancel g.current.token).child g.root
  ({ g with current := ⟨g.current.id + 1, token⟩ }, s)

/-- The stamp of a query in the foreground. -/
def foreground (g : Generations) : Stamp := ⟨g.current.id, g.root⟩

@[simp] theorem root_next (g : Generations) (s : TokenTree) : (g.next s).1.root = g.root := rfl

@[simp] theorem current_id_next (g : Generations) (s : TokenTree) :
    (g.next s).1.current.id = g.current.id + 1 := rfl

@[simp] theorem cancelled_next (g : Generations) (s : TokenTree) :
    (g.next s).2.cancelled = s.cancelled.insert g.current.token.id := rfl

end Generations

/-! ### Stamps that were handed out -/

/-- Generations below an outer token, with every stamp that was handed out. -/
structure Lineage where
  /-- What is known of all tokens. -/
  tokens : TokenTree
  /-- The token above the root. -/
  outer : Token
  /-- The generations. -/
  generations : Generations
  /-- The stamps that were handed out, the newest last. -/
  stamps : List Stamp := []
  /-- What was done. -/
  journal : List Notice := []
  deriving Repr, Inhabited

namespace Lineage

/-- What can be done with generations. -/
inductive Action
  /-- Begin the next generation and hand out its stamp. -/
  | next
  /-- Hand out the stamp of the current generation. -/
  | current
  /-- Hand out the stamp of a query in the foreground. -/
  | foreground
  /-- Cancel the root. -/
  | cancelRoot
  /-- Cancel the outer token. -/
  | cancelOuter
  /-- Cancel the token of a stamp, counted back from the newest. -/
  | cancelStamp (back : Nat)
  deriving DecidableEq, Repr

/-- Generation 0 below a root below an outer token. -/
def start : Lineage :=
  let (outer, s) := ({} : TokenTree).root
  let (root, s) := s.child outer
  let (generations, s) := Generations.start root s
  { tokens := s, outer, generations }

/-- Doing one thing. -/
def act (l : Lineage) : Action → Lineage
  | .next =>
    let (generations, tokens) := l.generations.next l.tokens
    { l with
      tokens, generations
      stamps := l.stamps ++ [generations.current]
      journal := l.journal ++
        [.superseded l.generations.current.id generations.current.id] }
  | .current => { l with stamps := l.stamps ++ [l.generations.current] }
  | .foreground => { l with stamps := l.stamps ++ [l.generations.foreground] }
  | .cancelRoot => { l with tokens := l.tokens.cancel l.generations.root }
  | .cancelOuter => { l with tokens := l.tokens.cancel l.outer }
  | .cancelStamp back =>
    match l.stamps.reverse[back]? with
    | some stamp => { l with tokens := l.tokens.cancel stamp.token }
    | none => l

/-- Doing one thing after the other. -/
def run (l : Lineage) (actions : List Action) : Lineage := actions.foldl act l

/-- The states after each of the actions. -/
def trace (l : Lineage) : List Action → List Lineage
  | [] => []
  | a :: rest => l.act a :: (l.act a).trace rest

/-- Every stamp with whether its token is cancelled. -/
def view (l : Lineage) : List (Nat × Bool) :=
  l.stamps.map fun stamp => (stamp.id, l.tokens.isCancelled stamp.token)

end Lineage

end CursorContext
