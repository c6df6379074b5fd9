import CursorContext.Proofs.Cancellation
import CursorContext.Proofs.Jobs
import Mathlib.Data.List.Induction

/-!
# The end of the cache

Once the cache was disposed of, nothing begins any more, whatever happens and in whatever order: the
root is cancelled, so neither a timer nor a preload gets anywhere, and a query is refused before it
looks anything up.  What was under way goes on: calls may come back, and queries that ran before may
be answered.

* `Engine.Closed`, `closed_run` — a cache that was disposed of has an empty table, no timer and a
  cancelled root.
* `Engine.Frozen`, `frozen_run` — what never changes from then on.
* `Engine.Timed`, `timed_run` — the tokens of timers hang below the root.
* `Engine.Final`, `final_run` — all that is true for ever after the end of the cache.
-/

namespace CursorContext.Engine

variable {F : Fetcher} {e e' e'' : Engine F}

/-! ### What is shut -/

/-- A cache that was disposed of is shut. -/
def Closed (e : Engine F) : Prop :=
  e.disposed = true → e.isOver = true ∧ e.table = [] ∧ e.armed = none

theorem armed_disarm (e : Engine F) : e.disarm.armed = none := by
  unfold disarm
  split
  · rfl
  · next h => exact h

theorem armed_dispose (h : e.disposed = false) : e.dispose.armed = none := by
  rw [dispose, h]
  exact armed_disarm _

/-- As long as the root is not cancelled, the cache was not disposed of. -/
theorem Closed.disposed_eq_false (h : e.Closed) (ho : e.isOver = false) : e.disposed = false := by
  cases hd : e.disposed with
  | false => rfl
  | true =>
    have hover := (h hd).1
    rw [ho] at hover
    cases hover

theorem Closed.of_disposed_eq_false (h : e.disposed = false) : e.Closed := by
  intro hd
  rw [h] at hd
  cases hd

theorem Phase.closed (hp : e.Phase e') (h : e.Orderly ∧ e.Closed) : e'.Orderly ∧ e'.Closed := by
  obtain ⟨ho, h⟩ := h
  have ha := hp.ages
  refine ⟨ha.orderly ho, ?_⟩
  cases hp with
  | quiet hq =>
    intro hd
    rw [hq.disposed] at hd
    obtain ⟨hover, htable, harmed⟩ := h hd
    exact ⟨ha.isOver hover, hq.table.trans htable, hq.armed.trans harmed⟩
  | clear =>
    intro hd
    obtain ⟨hover, -, harmed⟩ := h hd
    exact ⟨hover, rfl, harmed⟩
  | arm document position hopen =>
    -- a timer is started only while the root is not cancelled, so there is nothing to be shut
    have hd : (e.arm document position).disposed = e.disposed := disposed_disarm e
    exact .of_disposed_eq_false (hd.trans (h.disposed_eq_false hopen))
  | disarm =>
    intro hd
    rw [disposed_disarm] at hd
    obtain ⟨hover, htable, -⟩ := h hd
    exact ⟨ha.isOver hover, (table_disarm e).trans htable, armed_disarm e⟩
  | goOff =>
    intro hd
    obtain ⟨hover, htable, -⟩ := h hd
    exact ⟨hover, htable, rfl⟩
  | query background document position hd =>
    exact .of_disposed_eq_false ((still_serve e _ _ _ document position).disposed.trans hd)
  | preload background document position hopen =>
    have hd := (still_servePreload e background document position).disposed
    exact .of_disposed_eq_false (hd.trans (h.disposed_eq_false hopen))
  | dispose hd =>
    intro _
    exact ⟨isOver_dispose hd ho, table_dispose hd, armed_dispose hd⟩

/-- **At any time, a cache that was disposed of is shut.** -/
theorem closed_run (options : Options) (world : F.State) (actions : List (Action F)) :
    ((opening options world).run actions).Orderly ∧
      ((opening options world).run actions).Closed := by
  refine run_induction Phase.closed ?_ actions _ ?_ ?_
  · intro e order h
    exact ⟨(ages_tell e order).orderly h.1, h.2⟩
  · intro _ e h
    refine ⟨(ages_cancelRoot e).orderly h.1, fun hd => ?_⟩
    obtain ⟨-, htable, harmed⟩ := h.2 hd
    exact ⟨isOver_cancelRoot e, htable, harmed⟩
  · exact ⟨orderly_opening options world, .of_disposed_eq_false rfl⟩

/-! ### What never changes any more -/

/-- What never changes after the end of the cache. -/
structure Frozen (e e' : Engine F) : Prop where
  disposed : e'.disposed = true
  isOver : e'.isOver = true
  idents : e'.idents = e.idents
  generations : e'.generations = e.generations
  hits : e'.counters.hits = e.counters.hits
  misses : e'.counters.misses = e.counters.misses
  preloads : e'.counters.generations = e.counters.generations

theorem Frozen.refl (hd : e.disposed = true) (ho : e.isOver = true) : e.Frozen e :=
  ⟨hd, ho, rfl, rfl, rfl, rfl, rfl⟩

theorem Frozen.trans (h : e.Frozen e') (k : e'.Frozen e'') : e.Frozen e'' where
  disposed := k.disposed
  isOver := k.isOver
  idents := k.idents.trans h.idents
  generations := k.generations.trans h.generations
  hits := k.hits.trans h.hits
  misses := k.misses.trans h.misses
  preloads := k.preloads.trans h.preloads

theorem frozen_disarm (hd : e.disposed = true) (ho : e.isOver = true) : e.Frozen e.disarm := by
  have hcounters : e.disarm.counters = e.counters := by
    unfold disarm
    split <;> rfl
  exact
    { disposed := (disposed_disarm e).trans hd
      isOver := (ages_disarm e).isOver ho
      idents := idents_disarm e
      generations := generations_disarm e
      hits := by rw [hcounters]
      misses := by rw [hcounters]
      preloads := by rw [hcounters] }

/-- After the end of the cache no timer is started, no query is served and no preload begins. -/
theorem Phase.frozen (hp : e.Phase e') (hd : e.disposed = true) (ho : e.isOver = true) :
    e.Frozen e' := by
  cases hp with
  | quiet hq =>
    obtain ⟨n, hn⟩ := hq.counters
    exact
      { disposed := hq.disposed.trans hd
        isOver := hq.still.ages.isOver ho
        idents := hq.idents_eq
        generations := hq.generations
        hits := by rw [hn]
        misses := by rw [hn]
        preloads := by rw [hn] }
  | clear => exact ⟨hd, ho, rfl, rfl, rfl, rfl, rfl⟩
  | arm document position hopen => rw [ho] at hopen; cases hopen
  | disarm => exact frozen_disarm hd ho
  | goOff => exact ⟨hd, ho, rfl, rfl, rfl, rfl, rfl⟩
  | query background document position hopen => rw [hd] at hopen; cases hopen
  | preload background document position hopen => rw [ho] at hopen; cases hopen
  | dispose hopen => rw [hd] at hopen; cases hopen

/-- **After the end of the cache, no run makes a call or begins a generation.** -/
theorem frozen_run (hd : e.disposed = true) (ho : e.isOver = true) (actions : List (Action F)) :
    e.Frozen (e.run actions) := by
  -- the fact that is kept is about the engine of the end, which stays fixed
  refine run_induction ?_ ?_ actions e ?_ (.refl hd ho)
  · intro d d' hp h
    exact h.trans (hp.frozen h.disposed h.isOver)
  · intro d order h
    exact h.trans ⟨h.disposed, h.isOver, rfl, rfl, rfl, rfl, rfl⟩
  · intro _ d h
    exact h.trans ⟨h.disposed, isOver_cancelRoot d, rfl, rfl, rfl, rfl, rfl⟩

theorem Phase.disposed (hp : e.Phase e') (h : e.disposed = true) : e'.disposed = true := by
  cases hp with
  | quiet hq => exact hq.disposed.trans h
  | clear => exact h
  | arm document position _ => exact (disposed_disarm e).trans h
  | disarm => exact (disposed_disarm e).trans h
  | goOff => exact h
  | query background document position _ =>
    exact (still_serve e _ _ _ document position).disposed.trans h
  | preload background document position _ =>
    exact (still_servePreload e background document position).disposed.trans h
  | dispose _ => exact disposed_dispose e

theorem Reachable.disposed (hr : e.Reachable e') (h : e.disposed = true) : e'.disposed = true := by
  obtain ⟨actions, rfl⟩ := hr
  exact run_induction Phase.disposed (fun _ _ hd => hd) actions e (fun _ _ hd => hd) h

/-! ### Timers -/

/-- The tokens of timers hang directly below the root. -/
def Timed (e : Engine F) : Prop :=
  ∀ (i : Nat) (token : Token) (due : Option Nat) (document : Uri) (position : Position),
    e.jobs[i]? = some (.timer token due document position) →
      token.above = [e.generations.root.id]

/-- The only timer that an action adds is the one that is running after it. -/
theorem timed_perform {a : Action F} (ho : (e.perform a).Orderly)
    (ha : (e.perform a).generations.root = e.generations.root) (h : e.Timed) :
    (e.perform a).Timed := by
  intro i token due document position hj
  rw [ha]
  rcases job_perform_cases hj with hold | ⟨-, hfresh⟩ | ⟨t, d, p, htimer, -, harmed⟩
    | ⟨old, hold, hleave⟩ | ⟨_, old, -, hold, -, hpoll⟩
  · exact h i token due document position hold
  · cases hfresh
  · -- the timer that was started is the one that is running, and its token is in order
    cases htimer
    rw [← ha]
    exact (ho.armed token harmed).above
  · rw [Job.eq_of_leave_eq_timer hleave] at hold
    exact h i token due document position hold
  · obtain ⟨due', rfl, -⟩ := polled_eq_timer_iff.mp hpoll.symm
    exact h i token due' document position hold

theorem timed_run (options : Options) (world : F.State) (actions : List (Action F)) :
    ((opening options world).run actions).Timed := by
  induction actions using List.reverseRecOn with
  | nil =>
    intro i token due document position hj
    cases hj
  | append_singleton past a ih =>
    have ho := (attributed_run options world (past ++ [a])).1
    rw [run_append] at ho ⊢
    exact timed_perform ho (ages_run _ [a]).root ih

/-- Once the root is cancelled, so are the tokens of all timers. -/
theorem Timed.isCancelled (h : e.Timed) (ho : e.Orderly) (hover : e.isOver = true) {i : Nat}
    {token : Token} {due : Option Nat} {document : Uri} {position : Position}
    (hj : e.jobs[i]? = some (.timer token due document position)) :
    e.isCancelled token = true := by
  rw [Engine.isCancelled, TokenTree.isCancelled_eq_true]
  refine ⟨e.generations.root.id, ?_, ho.isOver_iff.mp hover⟩
  rw [Token.line, h i token due document position hj]
  exact List.mem_cons_of_mem _ (List.mem_singleton_self _)

/-! ### For ever after -/

/-- A query that is polled first after the end of the cache is refused. -/
theorem begin_of_disposed (h : e.disposed = true) (background : Bool) (r : Request) :
    e.begin background r = (e, .finished .disposed) := by
  rw [begin, if_pos h]

/-- Every token that was handed to the fetcher is cancelled with the root. -/
theorem Suits.isCancelled_of_isOver {g : Nat} {σ : Source} {s : Stamp} (h : e.Suits g σ s)
    (ho : e.Orderly) (hover : e.isOver = true) : e.isCancelled s.token = true := by
  cases σ with
  | query =>
    rw [h.query rfl]
    exact hover
  | preload n => exact ((h.preload n rfl).2.isCancelled_iff ho).mpr (.inr hover)

/-- All that is true at any time `e'` after the end of the cache, which was at `e` or before. -/
structure Final (e e' : Engine F) : Prop where
  /-- The cache stays disposed of. -/
  disposed : e'.disposed = true
  /-- No call is made. -/
  calls : e'.idents = e.idents
  /-- The table is empty. -/
  table : e'.table = []
  /-- No timer is running. -/
  armed : e'.armed = none
  /-- A timer that sleeps is cancelled. -/
  timers : ∀ (i : Nat) (token : Token) (due : Option Nat) (document : Uri) (position : Position),
    e'.jobs[i]? = some (.timer token due document position) → e'.isCancelled token = true
  /-- Every token that was handed to the fetcher is cancelled. -/
  cancelled : ∀ c ∈ e'.calls, e'.isCancelled c.stamp.token = true
  /-- No generation begins. -/
  generation : e'.generations = e.generations
  hits : e'.counters.hits = e.counters.hits
  misses : e'.counters.misses = e.counters.misses
  preloads : e'.counters.generations = e.counters.generations
  /-- A query that was not polled yet is refused at its first poll, inside and outside. -/
  refused : ∀ i client r, e'.jobs[i]? = some (.query client r .queued) →
    ∀ a background, a.Polls i background →
      (e'.perform a).jobs[i]? = some (.query client r (.finished .disposed))
  /-- And so is a query that is polled only once. -/
  refusedOnce : ∀ r, e'.ask r = (e', some .disposed)
  /-- Disposing of the cache again changes nothing at all. -/
  dispose : e'.dispose = e'

/-- **The end of the cache is final.** -/
theorem final_run (options : Options) (world : F.State) (earlier later : List (Action F))
    (h : ((opening options world).run earlier).disposed = true) :
    Final ((opening options world).run earlier)
      (((opening options world).run earlier).run later) := by
  -- what is shut at any time, and what did not change since `earlier`, together say it all
  have hover := ((closed_run options world earlier).2 h).1
  have hfrozen := frozen_run h hover later
  obtain ⟨ho, hclosed⟩ := closed_run options world (earlier ++ later)
  have htimed := timed_run options world (earlier ++ later)
  obtain ⟨-, hattributed⟩ := attributed_run options world (earlier ++ later)
  rw [run_append] at ho hclosed htimed hattributed
  generalize ((opening options world).run earlier).run later = e'
    at hfrozen ho hclosed htimed hattributed
  obtain ⟨-, htable, harmed⟩ := hclosed hfrozen.disposed
  exact
    { disposed := hfrozen.disposed
      calls := hfrozen.idents
      table := htable
      armed := harmed
      timers := fun _ _ _ _ _ hj => htimed.isCancelled ho hfrozen.isOver hj
      cancelled := by
        intro c hc
        obtain ⟨x, hsuits⟩ := hattributed.suits_of_mem hc
        exact hsuits.isCancelled_of_isOver ho hfrozen.isOver
      generation := hfrozen.generations
      hits := hfrozen.hits
      misses := hfrozen.misses
      preloads := hfrozen.preloads
      refused := by
        intro i client r hj a background ha
        have hpolled := ha.jobs_query hj
        simp only [polled, begin_of_disposed hfrozen.disposed] at hpolled
        exact hpolled
      refusedOnce := by
        intro r
        simp only [ask, begin_of_disposed hfrozen.disposed]
        rfl
      dispose := by
        rw [Engine.dispose, if_pos hfrozen.disposed] }

end CursorContext.Engine
