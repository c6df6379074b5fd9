import CursorContext.Fetch.Canned
import CursorContext.Proofs.Agreement

/-!
# What a query is answered

A query looks its two fetches up at its first poll, and from then on nothing matters to it but how
these two come out.  While one of them is on its way the query waits; once both are back, the next
poll answers it, with their items merged and cut by its own budget.

The invariant is that a half which waits does so for the call that was looked up, and that a half
which is settled holds what this call came back with.  Since a call that is back never changes, it
does not matter who polled it, or when, or what became of the table in the meantime.

## Main definitions

* `Engine.fetches` — the calls whose entries the lookups of a query return.
* `Engine.found?`, `Engine.Answers` — what fetches came back with, and the answer that follows.
* `Half.Follows`, `Stage.Follows` — a query holds what its fetches say.

## Main results

* `follows_begin`, `follows_resume`, `follows_perform` — polls make a query follow its fetches, and
  every action keeps it so.
* `heard_of_follows`, `heardOf_of_follower` — where nothing is ready, those whose fetches are back
  were told.
* `answer_is_of_fetches` — all of it, for queries, for others who wait, and for outcomes.
-/

namespace CursorContext

/-- It was given up. -/
def Stage.isLeft : Stage → Bool
  | .leaving _ _ => true
  | .abandoned => true
  | _ => false

namespace Engine

variable {F : Fetcher} {e z : Engine F}

/-- The calls whose entries the lookups of a query return now: that of the line above, if there is
one, and that of the line. -/
def fetches (e : Engine F) (background : Bool) (r : Request) : Option Nat × Nat :=
  let (_, previous, current) := (e.note (.asked r.document r.position.line)).lookupPlan background
    e.generations.foreground r.plan
  (previous.map Entry.call, current.call)

/-- The items that a fetch came back with, once it is back; a failure counts as none.  Where there
is no line above there is no fetch for it, and there are no items. -/
def found? (e : Engine F) : Option Nat → Option (List Item)
  | none => some []
  | some call => (e.outcome? call).map Outcome.found

/-- The answer to a query whose fetches are back: their items are merged, cut by the budget of the
query, and shown. -/
def Answers (e : Engine F) (budget : Nat) (f : Option Nat × Nat) (answer : Answer) : Prop :=
  ∃ above here, e.found? f.1 = some above ∧ e.found? (some f.2) = some here ∧
    answer = .snippets ((Item.within budget (Item.merge above here)).map Item.snippet)

/-! ### Calls that are back stay so -/

theorem outcome?_eq_some_iff {i : Nat} {o : Outcome} :
    e.outcome? i = some o ↔ ∃ c, e.calls[i]? = some c ∧ c.status = .resolved o := by
  rw [outcome?, Option.bind_eq_some_iff]
  refine exists_congr fun c => and_congr_right fun _ => ?_
  cases c.status with
  | pending flight => exact iff_of_false (fun h => nomatch h) (fun h => nomatch h)
  | resolved outcome => simp [Status.outcome?]

theorem Carries.outcome? (h : e.Carries z) {i : Nat} {o : Outcome} (ho : e.outcome? i = some o) :
    z.outcome? i = some o := by
  obtain ⟨c, hc, hs⟩ := outcome?_eq_some_iff.mp ho
  obtain ⟨c', hc', -, hflow⟩ := h i c hc
  rw [hs] at hflow
  exact outcome?_eq_some_iff.mpr ⟨c', hc', hflow.of_resolved⟩

theorem Carries.found? (h : e.Carries z) {call? : Option Nat} {items : List Item}
    (hf : e.found? call? = some items) : z.found? call? = some items := by
  cases call? with
  | none => exact hf
  | some call =>
    obtain ⟨o, ho, rfl⟩ := Option.map_eq_some_iff.mp hf
    exact Option.map_eq_some_iff.mpr ⟨o, h.outcome? ho, rfl⟩

theorem Answers.carries {budget : Nat} {f : Option Nat × Nat} {answer : Answer}
    (h : e.Answers budget f answer) (hz : e.Carries z) : z.Answers budget f answer := by
  obtain ⟨above, here, habove, hhere, rfl⟩ := h
  exact ⟨above, here, hz.found? habove, hz.found? hhere, rfl⟩

/-- An answer is there only if every fetch is back. -/
theorem Answers.isSome {budget : Nat} {f : Option Nat × Nat} {answer : Answer}
    (h : e.Answers budget f answer) : ∀ call ∈ f.1.toList ++ [f.2], (e.outcome? call).isSome := by
  obtain ⟨above, here, habove, hhere, -⟩ := h
  have hback : ∀ {call items}, e.found? (some call) = some items → (e.outcome? call).isSome := by
    intro call items hf
    obtain ⟨o, ho, -⟩ := Option.map_eq_some_iff.mp hf
    rw [ho]
    rfl
  intro call hcall
  rcases List.mem_append.mp hcall with hcall | hcall
  · rw [Option.mem_toList] at hcall
    rw [hcall] at habove
    exact hback habove
  · rw [List.mem_singleton.mp hcall]
    exact hback hhere

/-- A poll that finds a call back leaves its outcome behind. -/
theorem outcome?_pollCall {i : Nat} {o : Outcome} (h : (e.pollCall i).2 = some o) :
    (e.pollCall i).1.outcome? i = some o :=
  outcome?_eq_some_iff.mpr (resolved_pollCall h)

/-- Whoever waits for a call that is back has something to do. -/
theorem callReady_of_isSome {i : Nat} (h : (e.outcome? i).isSome) : e.callReady i = true := by
  obtain ⟨o, ho⟩ := Option.isSome_iff_exists.mp h
  obtain ⟨c, hc, hs⟩ := outcome?_eq_some_iff.mp ho
  simp only [callReady, hc, hs]

end Engine

/-! ### Halves and queries that follow their fetches -/

section

variable {F : Fetcher} {e z : Engine F}

/-- A half waits for its fetch, or holds what it came back with. -/
def Half.Follows (e : Engine F) (call? : Option Nat) : Half → Prop
  | .waiting call => call? = some call
  | .settled items => e.found? call? = some items

/-- A query waits for one of its fetches at least, or holds the answer that follows from both. -/
def Stage.Follows (e : Engine F) (budget : Nat) (f : Option Nat × Nat) : Stage → Prop
  | .queued => False
  | .waiting previous current _ => previous.Follows e f.1 ∧ current.Follows e (some f.2) ∧
      (previous.call?.isSome ∨ current.call?.isSome)
  | .finished answer => e.Answers budget f answer
  | .leaving _ _ => True
  | .abandoned => True

theorem Half.Follows.carries {call? : Option Nat} {h : Half} (hf : h.Follows e call?)
    (hz : e.Carries z) : h.Follows z call? := by
  cases h with
  | waiting call => exact hf
  | settled items => exact hz.found? hf

theorem Stage.Follows.carries {budget : Nat} {f : Option Nat × Nat} {stage : Stage}
    (hf : stage.Follows e budget f) (hz : e.Carries z) : stage.Follows z budget f := by
  cases stage with
  | queued => exact hf
  | waiting previous current before => exact ⟨hf.1.carries hz, hf.2.1.carries hz, hf.2.2⟩
  | finished answer => exact Engine.Answers.carries hf hz
  | leaving held before => exact hf
  | abandoned => exact hf

theorem Stage.Follows.leave {budget : Nat} {f : Option Nat × Nat} {stage : Stage}
    (hf : stage.Follows e budget f) : stage.leave.Follows e budget f := by
  cases stage with
  | queued => exact hf.elim
  | waiting previous current before => trivial
  | finished answer => exact hf
  | leaving held before => trivial
  | abandoned => trivial

end

namespace Engine

variable {F : Fetcher} {e : Engine F}

theorem follows_half (e : Engine F) (entry : Option Entry) :
    (half entry).Follows e (entry.map Entry.call) := by
  cases entry with
  | none => rfl
  | some entry => rfl

theorem follows_pollHalf {h : Half} {call? : Option Nat} (hf : h.Follows e call?) :
    (e.pollHalf h).2.Follows (e.pollHalf h).1 call? := by
  cases h with
  | settled items => exact hf
  | waiting call =>
    obtain rfl : call? = some call := hf
    have hback : ∀ o, (e.pollCall call).2 = some o → (e.pollCall call).1.outcome? call = some o :=
      fun _ => outcome?_pollCall
    rcases hp : e.pollCall call with ⟨d, outcome⟩
    rw [hp] at hback
    simp only [pollHalf, hp]
    rcases outcome with _ | ⟨found | cause⟩
    · rfl
    · exact Option.map_eq_some_iff.mpr ⟨_, hback _ rfl, rfl⟩
    · -- counting and noting the failure leaves the outcome as it is
      exact Option.map_eq_some_iff.mpr ⟨_, hback _ rfl, rfl⟩

/-- **A poll of a query makes it hold what its fetches say**, and answers it if both are back. -/
theorem follows_resume {r : Request} {previous current : Half} {before : Counters}
    {f : Option Nat × Nat} (hp : previous.Follows e f.1) (hc : current.Follows e (some f.2)) :
    (e.resume r previous current before).2.Follows (e.resume r previous current before).1
      r.budget f := by
  -- the line above is polled first, and what it came to is still so after the second poll
  have hp' := (follows_pollHalf hp).carries
    (quiet_pollHalf (e.pollHalf previous).1 current).carries
  have hc' := follows_pollHalf (hc.carries (quiet_pollHalf e previous).carries)
  unfold resume
  dsimp only
  split
  · next above here habove hhere =>
    rw [habove] at hp'
    rw [hhere] at hc'
    have hanswers : Answers ((e.pollHalf previous).1.pollHalf current).1 r.budget f
        (.snippets (Plan.answer r.budget above here)) := ⟨above, here, hp', hc', rfl⟩
    exact hanswers.carries (quiet_stopWatch _ r before _).carries
  · next hnot => exact ⟨hp', hc', Half.isSome_or_isSome hnot⟩

/-- From its first poll on, a query follows the fetches that it looks up then. -/
theorem follows_begin (h : e.disposed = false) (background : Bool) (r : Request) :
    (e.begin background r).2.Follows (e.begin background r).1 r.budget
      (e.fetches background r) := by
  rw [begin, h, if_neg Bool.false_ne_true]
  exact follows_resume (follows_half _ _) rfl

/-- **Every action keeps it so**, whatever it does to the calls, the table or the cache. -/
theorem follows_perform {i client : Nat} {r : Request} {stage : Stage} {f : Option Nat × Nat}
    (hj : e.jobs[i]? = some (.query client r stage)) (hf : stage.Follows e r.budget f)
    (a : Action F) :
    ∃ stage', (e.perform a).jobs[i]? = some (.query client r stage') ∧
      stage'.Follows (e.perform a) r.budget f := by
  have hcarries : e.Carries (e.perform a) := carries_run e [a]
  rcases job_perform hj a with h | ⟨-, h⟩ | ⟨background, ha, -, h⟩
  · exact ⟨stage, h, hf.carries hcarries⟩
  · exact ⟨stage.leave, h, hf.leave.carries hcarries⟩
  · cases stage with
    | queued => exact hf.elim
    | waiting previous current before =>
      refine ⟨_, h, (follows_resume hf.1 hf.2.1).carries ?_⟩
      rw [ha.perform_query hj]
      exact (quiet_setJob _ _ _).carries.trans (carries_reap _)
    | leaving held before => exact ⟨.abandoned, h, trivial⟩
    | finished answer => exact ⟨.finished answer, h, hf.carries hcarries⟩
    | abandoned => exact ⟨.abandoned, h, trivial⟩

/-- A query that ran follows its fetches for ever after. -/
theorem follows_run {i client : Nat} {r : Request} {stage : Stage} {f : Option Nat × Nat}
    (hj : e.jobs[i]? = some (.query client r stage)) (hf : stage.Follows e r.budget f)
    (actions : List (Action F)) :
    ∃ stage', (e.run actions).jobs[i]? = some (.query client r stage') ∧
      stage'.Follows (e.run actions) r.budget f := by
  induction actions generalizing e stage with
  | nil => exact ⟨stage, hj, hf⟩
  | cons a rest ih =>
    obtain ⟨stage', hj', hf'⟩ := follows_perform hj hf a
    exact ih hj' hf'

/-- The first poll makes a query follow what it looks up then. -/
theorem Action.Polls.follows {a : Action F} {background : Bool} {i client : Nat} {r : Request}
    (ha : a.Polls i background) (hj : e.jobs[i]? = some (.query client r .queued))
    (hopen : e.disposed = false) :
    ∃ stage, (e.perform a).jobs[i]? = some (.query client r stage) ∧
      stage.Follows (e.perform a) r.budget (e.fetches background r) := by
  refine ⟨(e.begin background r).2, ha.jobs_query hj,
    (follows_begin hopen background r).carries ?_⟩
  rw [ha.perform_query hj]
  exact (quiet_setJob _ _ _).carries.trans (carries_reap _)

/-! ### Who was told -/

/-- What a query that ran was told. -/
structure Heard (e : Engine F) (budget : Nat) (f : Option Nat × Nat) (stage : Stage) : Prop where
  /-- If it was told anything, then what follows from its fetches. -/
  answers : ∀ answer, stage = .finished answer → e.Answers budget f answer
  /-- Where nothing is ready, and unless it was given up, it was told exactly if each of its fetches
  is back. -/
  finished_iff : e.Quiescent → stage.isLeft = false →
    ((∃ answer, stage = .finished answer) ↔
      ∀ call ∈ f.1.toList ++ [f.2], (e.outcome? call).isSome)

/-- A half that waits for a call that is back has something to do. -/
theorem halfReady_of_follows {h : Half} {call? : Option Nat} (hf : h.Follows e call?)
    (hwaits : h.call?.isSome) (hback : ∀ call ∈ call?.toList, (e.outcome? call).isSome) :
    e.halfReady h = true := by
  cases h with
  | waiting call =>
    obtain rfl : call? = some call := hf
    exact callReady_of_isSome (hback call (by simp))
  | settled items => cases hwaits

/-- **A query that follows its fetches was told what they say.** -/
theorem heard_of_follows {i client : Nat} {r : Request} {stage : Stage} {f : Option Nat × Nat}
    (hj : e.jobs[i]? = some (.query client r stage)) (hf : stage.Follows e r.budget f) :
    e.Heard r.budget f stage := by
  refine ⟨fun answer h => by subst h; exact hf, fun hq hleft => ⟨?_, fun hback => ?_⟩⟩
  · rintro ⟨answer, rfl⟩
    exact Answers.isSome hf
  cases stage with
  | finished answer => exact ⟨answer, rfl⟩
  | queued => exact hf.elim
  | leaving held before => cases hleft
  | abandoned => cases hleft
  | waiting previous current before =>
    -- one of its halves waits for a call that is back, so the query would be ready
    obtain ⟨hp, hc, hwaits⟩ := hf
    have hready : (e.halfReady previous || e.halfReady current) = true := by
      rw [Bool.or_eq_true]
      rcases hwaits with hwaits | hwaits
      · exact .inl (halfReady_of_follows hp hwaits fun call hcall =>
          hback call (List.mem_append_left _ hcall))
      · exact .inr (halfReady_of_follows hc hwaits fun call hcall =>
          hback call (List.mem_append_right _ hcall))
    have hnot := hq i
    simp only [ready, hj] at hnot
    rw [hready] at hnot
    cases hnot

/-- What somebody else who waits for a call was told: how the call came out. -/
structure HeardOf (e : Engine F) (call : Nat) (stage : Stage) : Prop where
  answers : ∀ answer, stage = .finished answer →
    ∃ o, e.outcome? call = some o ∧ answer = .outcome o
  finished_iff : e.Quiescent → stage.isLeft = false →
    ((∃ answer, stage = .finished answer) ↔ (e.outcome? call).isSome)

/-- Who waits for a call did not run to its end yet, was told how the call came out, or was given
up. -/
def Follower (e : Engine F) (call : Nat) : Stage → Prop
  | .waiting _ _ _ => False
  | .finished answer => ∃ o, e.outcome? call = some o ∧ answer = .outcome o
  | _ => True

theorem Follower.carries {z : Engine F} {call : Nat} {stage : Stage} (h : e.Follower call stage)
    (hz : e.Carries z) : z.Follower call stage := by
  cases stage with
  | finished answer =>
    obtain ⟨o, ho, rfl⟩ := h
    exact ⟨o, hz.outcome? ho, rfl⟩
  | waiting previous current before => exact h.elim
  | queued => trivial
  | leaving held before => trivial
  | abandoned => trivial

/-- A poll tells whoever waits for a call that comes back. -/
theorem follower_polled {i client call : Nat} {stage : Stage} {old : Job}
    (hold : e.jobs[i]? = some old) (hj : .await client call stage = e.polled true old)
    (h : ∀ client stage, old = .await client call stage → e.Follower call stage) :
    (e.poll i).Follower call stage := by
  have hcarries : e.Carries (e.poll i) := carries_run e [.poll i]
  cases old with
  | await client' call' stage' =>
    cases stage' with
    | queued =>
      have hback : ∀ o, (e.pollCall call').2 = some o →
          (e.pollCall call').1.outcome? call' = some o := fun _ => outcome?_pollCall
      have hpoll : e.poll i = e.pollAwait i client' call' .queued := by rw [poll, hold]
      rcases hp : e.pollCall call' with ⟨d, outcome⟩
      rw [hp] at hback
      simp only [pollAwait, hp] at hpoll
      simp only [polled, hp] at hj
      cases outcome with
      | none => cases hj; trivial
      | some o =>
        cases hj
        rw [hpoll]
        exact ⟨o, hback o rfl, rfl⟩
    | waiting previous current before => cases hj; exact (h _ _ rfl).carries hcarries
    | leaving held before => cases hj; trivial
    | finished answer => cases hj; exact (h _ _ rfl).carries hcarries
    | abandoned => cases hj; trivial
  | query client' r stage' => cases stage' <;> cases hj
  | drive call' token =>
    simp only [polled] at hj
    split at hj <;> cases hj
  | timer token due document position =>
    simp only [polled] at hj
    split at hj <;> cases hj
  | ended => cases hj

/-- At any time, those who wait for calls were told how these came out, if they were told. -/
theorem follower_run (options : Options) (world : F.State) (actions : List (Action F)) :
    ∀ (i client call : Nat) (stage : Stage), ((opening options world).run actions).jobs[i]?
      = some (.await client call stage) →
      ((opening options world).run actions).Follower call stage := by
  -- the run grows at its end, where one job is polled
  induction actions using List.reverseRecOn with
  | nil =>
    intro i client call stage hj
    cases hj
  | append_singleton past a ih =>
    intro i client call stage hj
    rw [run_append] at hj ⊢
    have hcarries := carries_run ((opening options world).run past) [a]
    rcases job_perform_cases hj with hold | ⟨-, hfresh⟩ | ⟨_, _, _, htimer, -⟩
      | ⟨old, hold, hleave⟩ | ⟨background, old, ha, hold, hquery, hpoll⟩
    · exact (ih i client call stage hold).carries hcarries
    · cases stage with
      | queued => trivial
      | _ => cases hfresh
    · cases htimer
    · cases old with
      | await client' call' stage' =>
        cases hleave
        have hf := ih i _ _ stage' hold
        cases stage' with
        | finished answer => exact Follower.carries hf hcarries
        | waiting previous current before => exact hf.elim
        | _ => trivial
      | _ => cases hleave
    · cases ha with
      | inside =>
        exact follower_polled hold hpoll fun client' stage' h => ih i client' call stage' (h ▸ hold)
      | outside =>
        -- a query is no such client
        cases old with
        | query client' r stage' => cases stage' <;> cases hpoll
        | _ => cases hquery rfl

/-- Where nothing is ready, everybody who waits for a call that is back was told. -/
theorem heardOf_of_follower {i client call : Nat} {stage : Stage}
    (hj : e.jobs[i]? = some (.await client call stage)) (hf : e.Follower call stage) :
    e.HeardOf call stage := by
  refine ⟨fun answer h => by subst h; exact hf, fun hq hleft => ⟨?_, fun hback => ?_⟩⟩
  · rintro ⟨answer, rfl⟩
    obtain ⟨o, ho, -⟩ := hf
    rw [ho]
    rfl
  cases stage with
  | finished answer => exact ⟨answer, rfl⟩
  | queued =>
    have hnot := hq i
    simp only [ready, hj] at hnot
    rw [callReady_of_isSome hback] at hnot
    cases hnot
  | waiting previous current before => exact hf.elim
  | leaving held before => cases hleft
  | abandoned => cases hleft

/-- **A query is answered by its two fetches, and by nothing else.**  From its first poll on, and
whatever else happens before or after, it was told something only if both of its fetches are back,
and then their items, merged and cut by its own budget; and where nothing is ready it was told
exactly if they are back.  It does not matter whether the first poll was inside or outside.  So it is
for a query that is polled only once, and for everybody else who waits for a call; and a call that is
back never comes out otherwise. -/
theorem answer_is_of_fetches (options : Options) (world : F.State) (actions : List (Action F)) :
    (∀ before a i background rest client r, actions = before ++ a :: rest →
      a.Polls i background →
      ((opening options world).run before).jobs[i]? = some (.query client r .queued) →
      ((opening options world).run before).disposed = false →
      ∃ stage, ((opening options world).run actions).jobs[i]? = some (.query client r stage) ∧
        ((opening options world).run actions).Heard r.budget
          (((opening options world).run before).fetches background r) stage) ∧
    (∀ before r rest answer, actions = before ++ .ask r :: rest →
      ((opening options world).run before).disposed = false →
      (((opening options world).run before).ask r).2 = some answer →
      ((opening options world).run actions).Answers r.budget
        (((opening options world).run before).fetches false r) answer) ∧
    (∀ (i client call : Nat) (stage : Stage), ((opening options world).run actions).jobs[i]?
        = some (.await client call stage) →
      ((opening options world).run actions).HeardOf call stage) ∧
    ∀ call o later, ((opening options world).run actions).outcome? call = some o →
      (((opening options world).run actions).run later).outcome? call = some o := by
  refine ⟨?_, ?_, ?_, ?_⟩
  · rintro before a i background rest client r rfl ha hqueued hopen
    rw [run_append, run_cons]
    obtain ⟨stage, hj, hf⟩ := ha.follows hqueued hopen
    obtain ⟨stage', hj', hf'⟩ := follows_run hj hf rest
    exact ⟨stage', hj', heard_of_follows hj' hf'⟩
  · rintro before r rest answer rfl hopen hask
    rw [run_append, run_cons]
    have hf := follows_begin hopen false r
    have hgiven : (((opening options world).run before).begin false r).2.answer?
        = some answer := hask
    -- a query that is polled once is no job; what it was told is what its stage says
    cases hstage : (((opening options world).run before).begin false r).2 with
    | finished given =>
      rw [hstage] at hf hgiven
      cases hgiven
      exact (Answers.carries hf (quiet_giveUp _ r _).carries).carries (carries_run _ rest)
    | _ => rw [hstage] at hgiven; cases hgiven
  · exact fun i client call stage hj =>
      heardOf_of_follower hj (follower_run options world actions i client call stage hj)
  · exact fun call o later ho => (carries_run _ later).outcome? ho

/-- A query for the fourth line of a document, with a budget. -/
def lineQuery (budget : Nat) : Request := ⟨⟨"file:///a"⟩, ⟨3, 0⟩, budget⟩

/-- Two queries with different budgets share two calls that are held; the second one is polled
outside first.  The document changes, the calls are let go, and the cache is disposed of while they
come back: one by its driver, the other by the first query. -/
def sharing : List (Action Fetcher.canned) :=
  [.query (lineQuery 100), .poll 0, .query (lineQuery 8), .pollOutside 3, .edit ⟨"file:///a"⟩ 1,
    .tell .release, .poll 1, .poll 0, .dispose, .poll 2, .poll 3]

/-- What becomes of a fetcher that is held at first. -/
def afterHeld (actions : List (Action Fetcher.canned)) : Engine Fetcher.canned :=
  (opening {} ({ held := true } : Canned.State)).run actions

/-- Nothing is left to do, and the second query was told what fits into its own budget. -/
theorem answer_is_of_fetches_sharing :
    (afterHeld sharing).Quiescent ∧
    (afterHeld (sharing.take 3)).fetches false (lineQuery 8) = (some 0, 1) ∧
    (afterHeld sharing).outcome? 1 = some (.items [⟨"sym_3_d1", ["line 3"], ⟨"file:///a"⟩⟩]) ∧
    (afterHeld sharing).Heard 8 (some 0, 1)
      (.finished (.snippets [⟨"sym_2_d0", "/a", "line 2"⟩])) := by
  have hfetches : (afterHeld (sharing.take 3)).fetches false (lineQuery 8) = (some 0, 1) := by
    decide +kernel
  refine ⟨by decide +kernel, hfetches, by decide +kernel, ?_⟩
  obtain ⟨hqueries, -⟩ :=
    answer_is_of_fetches (F := Fetcher.canned) {} ({ held := true } : Canned.State) sharing
  have hqueued : (afterHeld (sharing.take 3)).jobs[3]?
      = some (.query 1 (lineQuery 8) .queued) := by decide +kernel
  have hopen : (afterHeld (sharing.take 3)).disposed = false := by decide +kernel
  obtain ⟨stage, hj, hheard⟩ := hqueries (sharing.take 3) (.pollOutside 3) 3 false (sharing.drop 4)
    1 (lineQuery 8) rfl (.outside 3) hqueued hopen
  have htold : (afterHeld sharing).jobs[3]? = some (.query 1 (lineQuery 8)
      (.finished (.snippets [⟨"sym_2_d0", "/a", "line 2"⟩]))) := by decide +kernel
  have hstage := hj.symm.trans htold
  simp only [Option.some.injEq, Job.query.injEq, true_and] at hstage
  rw [← hfetches, ← hstage]
  exact hheard

end Engine

end CursorContext
