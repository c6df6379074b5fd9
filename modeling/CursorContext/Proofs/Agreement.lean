import CursorContext.Proofs.Extends
import CursorContext.Proofs.Jobs
import Mathlib.Data.List.Induction

/-!
# A cache answers as its fetcher would

Suppose that the answers of the fetcher depend on nothing but the key and the number of changes of
documents that were told before the call.  Then a query that is answered with snippets is answered
as if there were no cache: with what the fetcher would say to its two keys at the moment when the
query looked them up.

The argument looks at a run from its end, where every call came out as it did.  Entries of the table
belong to calls that were made since the last change, so their calls come out as a call would now;
and a query that waits, waits for calls that come out as a call would have at its lookups.

## Main definitions

* `Request.uncached` — what a query is answered without a cache.
* `Engine.edits` — how many changes of documents are among some actions.
* `Engine.AnswersBy` — in a run, calls come out by key and number of changes.
* `Engine.BackAs`, `Half.Yields`, `Stage.Yields` — what a call, a half and a query come to in the
  end, if they do.

## Main results

* `yields_begin`, `yields_resume` — what the polls of a query do to what it comes to.
* `answers_agree` — with a cache, queries are answered as they are without.
-/

namespace CursorContext

/-- What a query is answered without a cache: both lines are asked for, the line above only if there
is one, and a failure counts as no items. -/
def Request.uncached (r : Request) (answer : Key → Outcome) : List Snippet :=
  let line := r.position.line
  let above :=
    if line = 0 then [] else (answer ⟨r.document, Span.ofLine (line - 1), .direct⟩).found
  let here := (answer ⟨r.document, Span.ofLine line, .oneHop⟩).found
  (Item.within r.budget (Item.merge above here)).map Item.snippet

/-- The items of the line above, if there is one. -/
def Plan.above (p : Plan) (answer : Key → Outcome) : List Item :=
  match p.previous with
  | some key => (answer key).found
  | none => []

/-- Without a cache, the plan of a query is all that matters. -/
theorem Request.uncached_eq (r : Request) (answer : Key → Outcome) :
    r.uncached answer
      = Plan.answer r.budget (r.plan.above answer) (answer r.plan.current).found := by
  by_cases h : r.position.line = 0
  · simp [uncached, Plan.answer, Plan.above, plan, Plan.at, h]
  · simp [uncached, Plan.answer, Plan.above, plan, Plan.at, h, Span.above?_ofLine]

namespace Engine

variable {F : Fetcher} {e e' z : Engine F}

/-! ### Calls that come out -/

/-- If the call is back, then with this outcome. -/
def BackAs (z : Engine F) (i : Nat) (o : Outcome) : Prop :=
  ∀ (c : Call F) (o' : Outcome), z.calls[i]? = some c → c.status = .resolved o' → o' = o

/-- A poll that brings a call back leaves it so. -/
theorem resolved_pollCall {i : Nat} {o : Outcome} (h : (e.pollCall i).2 = some o) :
    ∃ c, (e.pollCall i).1.calls[i]? = some c ∧ c.status = .resolved o := by
  cases hc : e.calls[i]? with
  | none =>
    simp only [pollCall, hc] at h
    cases h
  | some c =>
    cases hs : c.status with
    | resolved outcome =>
      simp only [pollCall, hc, hs, Option.some.injEq] at h ⊢
      exact ⟨c, rfl, by rw [hs, h]⟩
    | pending flight =>
      simp only [pollCall, hc, hs] at h ⊢
      cases hp : F.poll e.fetcher e.now (e.isCancelled c.stamp.token) flight with
      | blocked => simp only [hp] at h; cases h
      | moved g => simp only [hp] at h; cases h
      | resolved outcome =>
        simp only [hp, Option.some.injEq] at h ⊢
        exact ⟨{ c with status := .resolved o }, by simp [setStatus, Array.getElem?_modify, hc, h],
          rfl⟩

/-- A call that is back stays so until the end. -/
theorem BackAs.eq_of_poll {i : Nat} {o o' : Outcome} (h : z.BackAs i o)
    (hp : (e.pollCall i).2 = some o') (hz : (e.pollCall i).1.Carries z) : o' = o := by
  obtain ⟨c, hc, hs⟩ := resolved_pollCall hp
  obtain ⟨c', hc', -, hflow⟩ := hz i c hc
  rw [hs] at hflow
  exact h c' o' hc' hflow.of_resolved

end Engine

/-! ### Halves and queries that come out -/

/-- If the half ever has its items, they are these. -/
def Half.Yields {F : Fetcher} (z : Engine F) (items : List Item) : Half → Prop
  | .waiting i => ∃ o, z.BackAs i o ∧ o.found = items
  | .settled found => found = items

/-- The query ran, and was not told of the end of the cache. -/
def Stage.ran : Stage → Bool
  | .waiting _ _ _ => true
  | .finished (.snippets _) => true
  | _ => false

/-- If the query is ever answered with snippets, they are these. -/
def Stage.Yields {F : Fetcher} (z : Engine F) (budget : Nat) (found : List Snippet) : Stage → Prop
  | .waiting previous current _ => ∃ above here, previous.Yields z above ∧ current.Yields z here ∧
      Plan.answer budget above here = found
  | .finished (.snippets given) => given = found
  | _ => True

namespace Engine

variable {F : Fetcher} {e e' z : Engine F}

theorem yields_pollHalf {h : Half} {items : List Item} (hy : h.Yields z items)
    (hz : (e.pollHalf h).1.Carries z) : (e.pollHalf h).2.Yields z items := by
  cases h with
  | settled found => exact hy
  | waiting i =>
    obtain ⟨o, ho, rfl⟩ := hy
    have hback : ∀ o', (e.pollCall i).2 = some o' → (e.pollCall i).1.Carries z → o' = o :=
      fun _ hp hd => ho.eq_of_poll hp hd
    rcases hp : e.pollCall i with ⟨d, outcome⟩
    simp only [pollHalf, hp] at hz hback ⊢
    rcases outcome with _ | ⟨found | cause⟩
    · exact ⟨o, ho, rfl⟩
    · rw [← hback (.items found) rfl hz]
      rfl
    · have hd : d.Carries z := (Carries.of_eq rfl rfl).trans hz
      rw [← hback (.failure cause) rfl hd]
      rfl

/-- Further polls of a query keep what it comes to. -/
theorem yields_resume {r : Request} {previous current : Half} {before : Counters}
    {above here : List Item} (hp : previous.Yields z above) (hc : current.Yields z here)
    (hz : (e.resume r previous current before).1.Carries z) :
    (e.resume r previous current before).2.Yields z r.budget
      (Plan.answer r.budget above here) := by
  -- both halves are polled on the way to `z`, the line above first
  have hcur : (((e.pollHalf previous).1.pollHalf current).1).Carries z := by
    refine Carries.trans ?_ hz
    unfold resume
    dsimp only
    split
    · exact (quiet_stopWatch _ r _ _).carries
    · exact .refl _
  have hprev : (e.pollHalf previous).1.Carries z :=
    (quiet_pollHalf (e.pollHalf previous).1 current).carries.trans hcur
  have hp' := yields_pollHalf hp hprev
  have hc' := yields_pollHalf hc hcur
  unfold resume
  dsimp only
  split
  · next habove hhere =>
    rw [habove] at hp'
    rw [hhere] at hc'
    show Plan.answer r.budget _ _ = _
    rw [show _ = above from hp', show _ = here from hc']
  · exact ⟨above, here, hp', hc', rfl⟩

/-! ### What lookups find -/

/-- Every entry of the table belongs to a call that comes out by its key. -/
def TableYields (z : Engine F) (answer : Key → Outcome) (e : Engine F) : Prop :=
  ∀ x ∈ e.table, z.BackAs x.2.call (answer x.1)

/-- The entry that a lookup returns is in the table from then on. -/
theorem mem_lookupPlanned (e : Engine F) (background : Bool) (stamp : Stamp) (key : Key) :
    (key, (e.lookupPlanned background stamp key).2)
      ∈ (e.lookupPlanned background stamp key).1.table := by
  rw [lookupPlanned_snd]
  exact mem_of_find? (lookup_lookupPlanned e background stamp key).find?

/-- Where the table comes out by its keys, so do the halves of a plan that was looked up. -/
theorem yields_lookupPlan {answer : Key → Outcome} {background : Bool} {stamp : Stamp} {p : Plan}
    (ht : TableYields z answer (e.lookupPlan background stamp p).1) :
    (half (e.lookupPlan background stamp p).2.1).Yields z (p.above answer) ∧
      (half (some (e.lookupPlan background stamp p).2.2)).Yields z (answer p.current).found := by
  obtain ⟨previous, current⟩ := p
  cases previous with
  | none =>
    exact ⟨rfl, _, ht _ (mem_lookupPlanned e background stamp current), rfl⟩
  | some key =>
    have hmem := mem_lookupPlanned e background stamp key
    have hnext := lookup_lookupPlanned (e.lookupPlanned background stamp key).1 background stamp
      current
    exact ⟨⟨_, ht _ (hnext.table_prefix.subset hmem), rfl⟩,
      ⟨_, ht _ (mem_lookupPlanned _ background stamp current), rfl⟩⟩

/-- The calls that were made between `e` and `e'` come out by their keys. -/
def CallsYield (z : Engine F) (answer : Key → Outcome) (e e' : Engine F) : Prop :=
  ∀ (i : Nat) (c : Call F), e.calls.size ≤ i → i < e'.calls.size → z.calls[i]? = some c →
    z.BackAs i (answer c.key)

/-- If the table and the new calls come out by their keys, so does the table later. -/
theorem Extends.tableYields {answer : Key → Outcome} {d : Engine F} (h : e.Extends d)
    (hd : d.Carries e') (hz : e'.Carries z) (hcalls : CallsYield z answer e e')
    (ht : TableYields z answer e) : TableYields z answer d := by
  intro x hx
  rcases h.table x hx with hx | ⟨hsize, c, hc, hid⟩
  · exact ht x hx
  · -- a new entry belongs to a new call, which is for its key until the end
    obtain ⟨c', hc', hid', -⟩ := hd _ c hc
    obtain ⟨c'', hc'', hid'', -⟩ := hz _ c' hc'
    have hkey : c''.key = x.1 := congrArg Prod.fst (hid''.trans (hid'.trans hid))
    rw [← hkey]
    exact hcalls _ c'' hsize (Array.getElem?_eq_some_iff.mp hc').1 hc''

/-- **A query that is polled first comes to what its plan comes to.** -/
theorem yields_begin {answer : Key → Outcome} {background : Bool} {r : Request}
    (hd : (e.begin background r).1.Carries e') (hz : e'.Carries z)
    (hcalls : CallsYield z answer e e') (ht : TableYields z answer e) :
    (e.begin background r).2.Yields z r.budget (r.uncached answer) := by
  rw [Request.uncached_eq]
  by_cases hdisposed : e.disposed = true
  · rw [begin, if_pos hdisposed]
    trivial
  · rw [begin, if_neg hdisposed] at hd ⊢
    dsimp only at hd ⊢
    have hres := (quiet_resume ((e.note (.asked r.document r.position.line)).lookupPlan background
      e.generations.foreground r.plan).1 r _ _ _).carries.trans hd
    have hext : e.Extends ((e.note (.asked r.document r.position.line)).lookupPlan background
        e.generations.foreground r.plan).1 := by
      rw [lookupPlan_fst]
      exact extends_serve e _ background _ r.document r.position
    obtain ⟨habove, hhere⟩ := yields_lookupPlan (hext.tableYields hres hz hcalls ht)
    exact yields_resume habove hhere (hd.trans hz)

/-! ### Runs -/

/-- A document changes. -/
def Action.isEdit : Action F → Bool
  | .edit _ _ => true
  | _ => false

/-- How many changes of documents are among some actions. -/
def edits (actions : List (Action F)) : Nat := actions.countP Action.isEdit

/-- In a run, every call that comes back does so with the answer to its key and to the number of
changes that were told before the action that made it. -/
def AnswersBy (answer : Key → Nat → Outcome) (e : Engine F) (actions : List (Action F)) : Prop :=
  ∀ before a rest, actions = before ++ a :: rest →
    CallsYield (e.run actions) (answer · (edits before)) (e.run before) (e.run (before ++ [a]))

/-- Where the table comes out by its keys and the present number of changes, it does so after any
action. -/
theorem tableYields_perform {answer : Key → Nat → Outcome} {before : List (Action F)} {a : Action F}
    (hz : (e.perform a).Carries z)
    (hcalls : CallsYield z (answer · (edits before)) e (e.perform a))
    (ht : TableYields z (answer · (edits before)) e) :
    TableYields z (answer · (edits (before ++ [a]))) (e.perform a) := by
  cases ha : a.isEdit with
  | true =>
    -- the count goes up, and the table is empty
    cases a <;> try cases ha
    intro x hx
    cases hx
  | false =>
    have hedits : edits (before ++ [a]) = edits before := by simp [edits, ha]
    rw [hedits]
    by_cases horder : ∃ order, a = .tell order
    · obtain ⟨order, rfl⟩ := horder
      exact ht
    · have hext := extends_perform e a (fun order h => horder ⟨order, h⟩)
      exact hext.tableYields (.refl _) hz hcalls ht

/-- At the poll after `before`, inside or outside, a query was polled first; it comes to what it
would have come to then without a cache. -/
structure Asked (answer : Key → Nat → Outcome) (z e : Engine F) (i client : Nat) (r : Request)
    (stage : Stage) (before : List (Action F)) : Prop where
  queued : (e.run before).jobs[i]? = some (.query client r .queued)
  kept : (e.run before).disposed = false
  yields : stage.Yields z r.budget (r.uncached (answer · (edits before)))

/-- In a run that is part of one to `z`, everything comes to what it would come to without a
cache. -/
structure Agrees (answer : Key → Nat → Outcome) (z e : Engine F) (past : List (Action F)) :
    Prop where
  /-- Entries come out as a call would now. -/
  table : TableYields z (answer · (edits past)) (e.run past)
  /-- Queries come out as they would have at their lookups. -/
  queries : ∀ i client r stage, (e.run past).jobs[i]? = some (.query client r stage) →
    stage.ran = true → ∃ before a background rest, past = before ++ a :: rest ∧
      a.Polls i background ∧ Asked answer z e i client r stage before

theorem carries_reap (e : Engine F) : e.Carries e.reap :=
  (phases_reap e).relate Carries.refl Carries.trans Phase.carries

/-- A query that runs at its poll was not refused. -/
theorem disposed_of_ran_begin {background : Bool} {r : Request}
    (h : (e.begin background r).2.ran = true) : e.disposed = false := by
  cases hd : e.disposed with
  | false => rfl
  | true =>
    rw [begin, if_pos hd] at h
    cases h

/-- **What a poll makes of a query that runs after it.** -/
theorem asked_of_polled {answer : Key → Nat → Outcome} {past : List (Action F)} {a : Action F}
    {background : Bool} {i client : Nat} {r : Request} {stage : Stage} {old : Job}
    (h : Agrees answer z e past) (hz : ((e.run past).perform a).Carries z)
    (hcalls : CallsYield z (answer · (edits past)) (e.run past) ((e.run past).perform a))
    (ha : a.Polls i background) (hold : (e.run past).jobs[i]? = some old)
    (hj : Job.query client r stage = (e.run past).polled background old)
    (hran : stage.ran = true) :
    ∃ before b background rest, past ++ [a] = before ++ b :: rest ∧ b.Polls i background ∧
      Asked answer z e i client r stage before := by
  -- what is put back after the poll, and the end of the cache, leave calls alone
  have hkeep : ∀ {d : Engine F} {j : Job}, (e.run past).perform a = (d.setJob i j).reap →
      d.Carries ((e.run past).perform a) := by
    intro d j hd
    rw [hd]
    exact (quiet_setJob d i j).carries.trans (carries_reap _)
  cases old with
  | drive call token =>
    simp only [polled] at hj
    split at hj <;> cases hj
  | timer token due document position =>
    simp only [polled] at hj
    split at hj <;> cases hj
  | ended => cases hj
  | await client' call stage' =>
    cases stage' <;> simp only [polled] at hj
    · split at hj <;> cases hj
    all_goals cases hj
  | query client' r' stage' =>
    cases stage' with
    | queued =>
      -- this is the first poll, so the table is looked at now
      cases hj
      refine ⟨past, a, background, [], rfl, ha, hold, disposed_of_ran_begin hran, ?_⟩
      exact yields_begin (hkeep (ha.perform_query hold)) hz hcalls h.table
    | waiting previous current counters =>
      -- it goes on to come to what it came to at the poll that it remembers
      cases hj
      obtain ⟨before, b, background', rest, rfl, hb, hasked⟩ := h.queries i client r _ hold rfl
      refine ⟨before, b, background', rest ++ [a], by simp, hb, hasked.queued, hasked.kept, ?_⟩
      obtain ⟨above, here, hp, hc, hfound⟩ := hasked.yields
      rw [← hfound]
      exact yields_resume hp hc ((hkeep (ha.perform_query hold)).trans hz)
    | leaving held counters => cases hj; cases hran
    | finished answer' =>
      cases hj
      obtain ⟨before, b, background', rest, rfl, hb, hasked⟩ := h.queries i client r _ hold hran
      exact ⟨before, b, background', rest ++ [a], by simp, hb, hasked⟩
    | abandoned => cases hj; cases hran

/-- **Every action keeps it that everything comes to what it would come to without a cache.** -/
theorem agrees_perform {answer : Key → Nat → Outcome} {past : List (Action F)} {a : Action F}
    (hz : (e.run (past ++ [a])).Carries z)
    (hcalls : CallsYield z (answer · (edits past)) (e.run past) (e.run (past ++ [a])))
    (h : Agrees answer z e past) : Agrees answer z e (past ++ [a]) := by
  have hrun : e.run (past ++ [a]) = (e.run past).perform a := by simp [run_append]
  rw [hrun] at hz hcalls
  refine ⟨?_, ?_⟩
  · rw [hrun]
    exact tableYields_perform hz hcalls h.table
  intro i client r stage hj hran
  rw [hrun] at hj
  have hlater : ∀ {stage'}, (e.run past).jobs[i]? = some (.query client r stage') →
      stage' = stage → ∃ before b background rest, past ++ [a] = before ++ b :: rest ∧
        b.Polls i background ∧ Asked answer z e i client r stage before := by
    intro stage' hold hstage
    subst hstage
    obtain ⟨before, b, background, rest, rfl, hb, hasked⟩ := h.queries i client r _ hold hran
    exact ⟨before, b, background, rest ++ [a], by simp, hb, hasked⟩
  rcases job_perform_cases hj with hold | ⟨-, hfresh⟩ | ⟨_, _, _, htimer, -⟩
    | ⟨old, hold, hleave⟩ | ⟨background, old, ha, hold, -, hpoll⟩
  · exact hlater hold rfl
  · -- a query that is new did not run
    cases stage with
    | queued => cases hran
    | waiting previous current counters => cases hfresh
    | leaving held counters => cases hfresh
    | finished answer' => cases hfresh
    | abandoned => cases hfresh
  · cases htimer
  · -- a query that was given up while it waited does not come to snippets
    cases old with
    | query client' r' stage' =>
      cases hleave
      cases stage' with
      | queued => cases hran
      | waiting previous current counters => cases hran
      | leaving held counters => cases hran
      | finished answer' => exact hlater hold rfl
      | abandoned => cases hran
    | drive call token => cases hleave
    | timer token due document position => cases hleave
    | await client' call stage' => cases hleave
    | ended => cases hleave
  · exact asked_of_polled h hz hcalls ha hold hpoll hran

/-- It is enough that, whenever a call departs, whatever the fetcher is told and however the flight
is polled from then on, cancelled or not, it comes back with the answer. -/
theorem answersBy_of_flow {answer : Key → Nat → Outcome} {actions : List (Action F)}
    (h : ∀ before a rest, actions = before ++ a :: rest → (∀ order, a ≠ .tell order) →
      a.isEdit = false → ∀ (key : Key) (s : F.State) (o : Outcome),
        F.Flow (e.run before).fetcher (.pending (F.depart (e.run before).fetcher key)) s
          (.resolved o) → o = answer key (edits before)) :
    AnswersBy answer e actions := by
  intro before a rest heq i c hge hlt hc c' o hc' ho
  have hcc : c' = c := Option.some.inj (hc'.symm.trans hc)
  subst hcc
  have hrun : e.run (before ++ [a]) = (e.run before).perform a := by simp [run_append]
  rw [hrun] at hlt
  -- a call was made, so the action neither told the fetcher something nor changed a document
  have htell : ∀ order, a ≠ .tell order := by
    rintro order rfl
    exact absurd hlt (Nat.not_lt.mpr hge)
  have hedit : a.isEdit = false := by
    cases a <;> first | rfl | exact absurd hlt (Nat.not_lt.mpr hge)
  -- it departed in that action and flowed on until the end
  have hnew := Array.getElem?_eq_getElem hlt
  have hdepart := (extends_perform (e.run before) a htell).departs i _ hge hnew
  have hcarries : ((e.run before).perform a).Carries (e.run actions) := by
    rw [heq, List.append_cons, run_append, hrun]
    exact carries_run _ rest
  obtain ⟨d, hd, hid, hflow⟩ := hcarries i _ hnew
  have hdc : d = c' := Option.some.inj (hd.symm.trans hc)
  subst hdc
  have hkey : d.key = ((e.run before).perform a).calls[i].key := congrArg Prod.fst hid
  rw [← hkey] at hdepart
  rw [ho, (extends_perform (e.run before) a htell).fetcher] at hflow
  exact h before a rest heq htell hedit d.key _ o (hdepart.trans hflow)

/-- What is true at the end of a run that is part of another. -/
theorem agrees_run (options : Options) (world : F.State) {actions : List (Action F)}
    {answer : Key → Nat → Outcome} (h : AnswersBy answer (opening options world) actions)
    (past : List (Action F)) :
    past <+: actions → Agrees answer ((opening options world).run actions) (opening options world)
      past := by
  -- the run grows at its end, and `actions` stays, since that is where calls come out
  induction past using List.reverseRecOn with
  | nil =>
    intro _
    refine ⟨fun x hx => ?_, fun i client r stage hj => ?_⟩
    · cases hx
    · cases hj
  | append_singleton past a ih =>
    rintro ⟨rest, rfl⟩
    have hcarries : ((opening options world).run (past ++ [a])).Carries
        ((opening options world).run (past ++ [a] ++ rest)) := by
      rw [run_append _ (past ++ [a]) rest]
      exact carries_run _ rest
    have hpast := ih ⟨a :: rest, by simp⟩
    exact agrees_perform hcarries (h past a rest (by simp)) hpast

/-- **With a cache, queries are answered as they are without.**  If the answers of the fetcher
depend on nothing but the key and the number of changes before the call, then a query that came to
snippets at any time of a run was polled first at some time of it, inside or outside, and its
snippets are those that a query without a cache would have come to then; and so are those of a query
that is polled only once. -/
theorem answers_agree (options : Options) (world : F.State) (actions : List (Action F))
    (answer : Key → Nat → Outcome)
    (h : AnswersBy answer (opening options world) actions) :
    (∀ i client r found, ((opening options world).run actions).jobs[i]?
        = some (.query client r (.finished (.snippets found))) →
      ∃ before a background rest, actions = before ++ a :: rest ∧ a.Polls i background ∧
        ((opening options world).run before).jobs[i]? = some (.query client r .queued) ∧
        ((opening options world).run before).disposed = false ∧
        found = r.uncached fun key => answer key (edits before)) ∧
    ∀ before r rest found, actions = before ++ .ask r :: rest →
      (((opening options world).run before).ask r).2 = some (.snippets found) →
      found = r.uncached fun key => answer key (edits before) := by
  constructor
  · intro i client r found hj
    obtain ⟨before, a, background, rest, heq, ha, hasked⟩ :=
      (agrees_run options world h actions (List.prefix_refl _)).queries i client r _ hj rfl
    exact ⟨before, a, background, rest, heq, ha, hasked.queued, hasked.kept, hasked.yields⟩
  · -- a query that is polled only once is no job, so it is followed from its lookups to `z` here
    intro before r rest found heq hask
    have hbefore := agrees_run options world h before ⟨.ask r :: rest, heq.symm⟩
    have hcalls := h before (.ask r) rest heq
    have hperform : (opening options world).run (before ++ [.ask r])
        = (((opening options world).run before).ask r).1 := by
      rw [run_append]
      rfl
    rw [hperform] at hcalls
    have hz : (((opening options world).run before).ask r).1.Carries
        ((opening options world).run actions) := by
      rw [heq, List.append_cons, run_append, hperform]
      exact carries_run _ rest
    have hyields : (((opening options world).run before).begin false r).2.Yields
        ((opening options world).run actions) r.budget (r.uncached (answer · (edits before))) :=
      yields_begin (quiet_giveUp _ r _).carries hz hcalls hbefore.table
    have hstage : (((opening options world).run before).begin false r).2
        = .finished (.snippets found) := by
      rw [ask] at hask
      revert hask
      dsimp only
      cases (((opening options world).run before).begin false r).2 with
      | finished answer' => intro hask; cases hask; rfl
      | queued => intro hask; cases hask
      | waiting previous current counters => intro hask; cases hask
      | leaving held counters => intro hask; cases hask
      | abandoned => intro hask; cases hask
    rw [hstage] at hyields
    exact hyields

/-- A fetcher that knows how often documents changed.  A flight changes once before it is back, and
comes back with what was the answer when it departed. -/
def snapshots (answer : Key → Nat → Outcome) : Fetcher where
  State := Nat
  Order := Unit
  Flight := Bool × Outcome
  obey changes _ := changes + 1
  depart changes key := (true, answer key changes)
  poll _ _ _ flight := if flight.1 then .moved (false, flight.2) else .resolved flight.2
  alarm _ := none
  rank flight := flight.1.toNat
  rank_lt := by
    rintro state now cancelled ⟨fresh, outcome⟩ flight' h
    cases fresh with
    | true => cases h; exact Nat.zero_lt_one
    | false => cases h

/-- A flight comes back with what it departed with. -/
theorem flow_snapshots {answer : Key → Nat → Outcome} {changes changes' : (snapshots answer).State}
    {flight : (snapshots answer).Flight} {c : Status (snapshots answer).Flight}
    (h : (snapshots answer).Flow changes (.pending flight) changes' c) :
    (∃ fresh, c = .pending (fresh, flight.2)) ∨ c = .resolved flight.2 := by
  induction h with
  | refl => exact .inl ⟨flight.1, rfl⟩
  | obey _ _ ih => exact ih
  | moved _ hp ih =>
    rcases ih with ⟨fresh, heq⟩ | heq
    · cases heq
      cases fresh with
      | true => cases hp; exact .inl ⟨false, rfl⟩
      | false => cases hp
    · cases heq
  | resolved _ hp ih =>
    rcases ih with ⟨fresh, heq⟩ | heq
    · cases heq
      cases fresh with
      | true => cases hp
      | false => cases hp; exact .inr rfl
    · cases heq

/-- The changes that the fetcher knows of. -/
def known {answer : Key → Nat → Outcome} (e : Engine (snapshots answer)) : Nat := e.fetcher

/-- Such a fetcher answers as it should, if it knows of every change as long as anything but a
change or a word to the fetcher comes next. -/
theorem answersBy_snapshots {answer : Key → Nat → Outcome} {e : Engine (snapshots answer)}
    {actions : List (Action (snapshots answer))}
    (h : ∀ before a rest, actions = before ++ a :: rest → a ≠ .tell () → a.isEdit = false →
      (e.run before).known = edits before) : AnswersBy answer e actions := by
  refine answersBy_of_flow fun before a rest heq htell hedit key s o hflow => ?_
  rw [← h before a rest heq (htell ()) hedit]
  rcases flow_snapshots hflow with ⟨fresh, hpending⟩ | hback
  · exact absurd hpending (by intro hpending; cases hpending)
  · exact Status.resolved.inj hback

/-- One symbol is found everywhere, and after the first change it is another one. -/
def renamed (key : Key) (changes : Nat) : Outcome :=
  .items [⟨if changes = 0 then "before" else "after", ["it"], key.document⟩]

/-- A query for the fourth line of a document. -/
def fourthLine : Request := ⟨⟨"file:///a"⟩, ⟨3, 0⟩, 10⟩

/-- A query is polled first, the document changes, another query is polled outside and goes on until
it is answered, and only then the first one is polled again. -/
def overtaken : List (Action (snapshots renamed)) :=
  [.query fourthLine, .poll 0, .edit ⟨"file:///a"⟩ 1, .tell (), .query fourthLine, .pollOutside 3,
    .poll 3, .poll 0]

theorem answersBy_overtaken : AnswersBy renamed (opening {} Nat.zero) overtaken := by
  have hknown : ∀ n < 8, n = 3 ∨
      ((opening {} Nat.zero).run (overtaken.take n)).known = edits (overtaken.take n) := by
    decide +kernel
  refine answersBy_snapshots fun before a rest heq htell _ => ?_
  have hbefore : overtaken.take before.length = before := by rw [heq]; simp
  have hlength : before.length < 8 := by
    have hsum := congrArg List.length heq
    simp only [List.length_append, List.length_cons] at hsum
    have height : overtaken.length = 8 := rfl
    omega
  rcases hknown _ hlength with hthree | hfetcher
  · have ha : overtaken[before.length]? = some a := by rw [heq]; simp
    have hat : overtaken[3]? = some (.tell ()) := rfl
    rw [hthree, hat] at ha
    exact absurd (Option.some.inj ha).symm htell
  · rwa [hbefore] at hfetcher

/-- The query that was overtaken by a change is answered as before it, and the other as after it. -/
theorem answers_agree_overtaken :
    (∃ before a background rest, overtaken = before ++ a :: rest ∧ a.Polls 0 background ∧
      ((opening {} Nat.zero).run before).jobs[0]? = some (.query 0 fourthLine .queued) ∧
      ((opening {} Nat.zero).run before).disposed = false ∧
      [⟨"before", "/a", "it"⟩] = fourthLine.uncached fun key => renamed key (edits before)) ∧
    ∃ before a background rest, overtaken = before ++ a :: rest ∧ a.Polls 3 background ∧
      ((opening {} Nat.zero).run before).jobs[3]? = some (.query 1 fourthLine .queued) ∧
      ((opening {} Nat.zero).run before).disposed = false ∧
      [⟨"after", "/a", "it"⟩] = fourthLine.uncached fun key => renamed key (edits before) := by
  have hagree := answers_agree (F := snapshots renamed) {} Nat.zero overtaken renamed
    answersBy_overtaken
  have hfirst : ((opening {} Nat.zero).run overtaken).jobs[0]?
      = some (.query 0 fourthLine (.finished (.snippets [⟨"before", "/a", "it"⟩]))) := by
    decide +kernel
  have hsecond : ((opening {} Nat.zero).run overtaken).jobs[3]?
      = some (.query 1 fourthLine (.finished (.snippets [⟨"after", "/a", "it"⟩]))) := by
    decide +kernel
  exact ⟨hagree.1 0 0 _ _ hfirst, hagree.1 3 1 _ _ hsecond⟩

end Engine

end CursorContext
