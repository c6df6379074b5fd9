import CursorContext.Proofs.Lookup
import Mathlib.Logic.Relation

/-!
# Phases of actions

Whatever an action does, it does in phases, of which there are few.  Apart from quiet changes these
are: the table is cleared, a timer is started or stopped or goes off, a generation begins, a plan is
looked up for a query or for a preload, and the cache is disposed of.  A fact about engines that
every phase keeps is kept by all runs, and holds in the middle of actions too.

Two actions stand apart, since only a host does them: telling the fetcher something, and cancelling
the token of the cache's whole life without disposing of the cache.

## Main definitions

* `Engine.serveQuery`, `Engine.servePreload` — a plan is looked up for a query, or for a
  generation.
* `Engine.Phase e e'` — `e` becomes `e'` in one phase.
* `Engine.Phases e e'` — and in any number of them.

## Main results

* `perform_cases` — every action is one of the two that stand apart, or goes in phases.
* `run_induction` — what is kept by phases and by both of those actions is kept by runs.
* `carries_run` — runs only add to the calls.
-/

namespace CursorContext.Engine

variable {F : Fetcher} {e e' e'' : Engine F}

/-- A plan is looked up, and a notice tells for whom. -/
def serve (e : Engine F) (notice : Notice) (background : Bool) (stamp : Stamp) (document : Uri)
    (position : Position) : Engine F :=
  (e.note notice).lookupKeys background stamp (Plan.at document position).keys

/-- A plan is looked up for a query. -/
def serveQuery (e : Engine F) (background : Bool) (document : Uri) (position : Position) :
    Engine F :=
  e.serve (.asked document position.line) background e.generations.foreground document position

/-- A plan is looked up for the current generation. -/
def servePreload (e : Engine F) (background : Bool) (document : Uri) (position : Position) :
    Engine F :=
  e.serve (.preloading document position.line e.generations.current.id) background
    e.generations.current document position

/-- One phase of an action. -/
inductive Phase : Engine F → Engine F → Prop
  /-- Nothing but quiet things happen. -/
  | quiet {e e' : Engine F} (h : e.Quiet e') : Phase e e'
  /-- The table is cleared. -/
  | clear (e : Engine F) : Phase e e.clear
  /-- A timer is started in the place of the one before. -/
  | arm (e : Engine F) (document : Uri) (position : Position) (h : e.isOver = false) :
      Phase e (e.arm document position)
  /-- The timer that is running is stopped. -/
  | disarm (e : Engine F) : Phase e e.disarm
  /-- The timer that is running goes off. -/
  | goOff (e : Engine F) : Phase e { e with armed := none }
  /-- A query is served, as long as the cache was not disposed of. -/
  | query (e : Engine F) (background : Bool) (document : Uri) (position : Position)
      (h : e.disposed = false) : Phase e (e.serveQuery background document position)
  /-- The next generation begins and is served, as long as the root is not cancelled. -/
  | preload (e : Engine F) (background : Bool) (document : Uri) (position : Position)
      (h : e.isOver = false) :
      Phase e (e.nextGeneration.countGeneration.servePreload background document position)
  /-- The cache is disposed of. -/
  | dispose (e : Engine F) (h : e.disposed = false) : Phase e e.dispose

/-- Any number of phases. -/
def Phases (e e' : Engine F) : Prop := Relation.ReflTransGen Phase e e'

namespace Phases

theorem refl (e : Engine F) : e.Phases e := Relation.ReflTransGen.refl

theorem trans (h : e.Phases e') (k : e'.Phases e'') : e.Phases e'' :=
  Relation.ReflTransGen.trans h k

theorem single (h : e.Phase e') : e.Phases e' := Relation.ReflTransGen.single h

theorem quiet (h : e.Quiet e') : e.Phases e' := single (.quiet h)

/-- What every phase keeps, any number of them keeps. -/
theorem keep {I : Engine F → Prop} (hI : ∀ {e e' : Engine F}, e.Phase e' → I e → I e')
    (h : e.Phases e') (he : I e) : I e' := by
  induction h with
  | refl => exact he
  | tail _ hp ih => exact hI hp ih

/-- What every phase does to an engine in relation to what it was, any number of them does. -/
theorem relate {R : Engine F → Engine F → Prop} (hrefl : ∀ e, R e e)
    (htrans : ∀ {e e' e''}, R e e' → R e' e'' → R e e'')
    (hR : ∀ {e e' : Engine F}, e.Phase e' → R e e') (h : e.Phases e') : R e e' := by
  induction h with
  | refl => exact hrefl e
  | tail _ hp ih => exact htrans ih (hR hp)

end Phases

/-! ### The end of the cache -/

theorem phases_dispose (e : Engine F) : e.Phases e.dispose := by
  cases h : e.disposed with
  | false => exact .single (.dispose e h)
  | true =>
    rw [dispose, if_pos h]
    exact .refl e

theorem phases_reap (e : Engine F) : e.Phases e.reap := by
  unfold reap
  split
  · exact .refl e
  · exact phases_dispose e

/-! ### Queries -/

theorem phases_begin (e : Engine F) (background : Bool) (r : Request) :
    e.Phases (e.begin background r).1 := by
  unfold begin
  split
  · exact .refl e
  · next h =>
    have hserve := Phase.query e background r.document r.position (by simpa using h)
    rw [serveQuery, serve, ← lookupPlan_fst] at hserve
    exact (Phases.single hserve).trans (.quiet (quiet_resume _ r _ _ _))

theorem phases_ask (e : Engine F) (r : Request) : e.Phases (e.ask r).1 :=
  (phases_begin e false r).trans (.quiet (quiet_giveUp _ r _))

/-- A query is polled in the same way inside and outside, but for what it may start. -/
theorem Action.Polls.perform_query {a : Action F} {background : Bool} {i client : Nat}
    {r : Request} {stage : Stage} (ha : a.Polls i background)
    (h : e.jobs[i]? = some (.query client r stage)) :
    e.perform a = e.pollQuery background i client r stage := by
  cases ha with
  | inside => rw [perform, Engine.poll, h]
  | outside => rw [perform, Engine.pollOutside, h]

/-- The first poll of a query begins it. -/
theorem Action.Polls.perform_queued {a : Action F} {background : Bool} {i client : Nat}
    {r : Request} (ha : a.Polls i background) (h : e.jobs[i]? = some (.query client r .queued)) :
    e.perform a = ((e.begin background r).1.setJob i
      (.query client r (e.begin background r).2)).reap :=
  ha.perform_query h

/-- Every further poll of a query that waits resumes it. -/
theorem Action.Polls.perform_waiting {a : Action F} {background : Bool} {i client : Nat}
    {r : Request} {previous current : Half} {before : Counters} (ha : a.Polls i background)
    (h : e.jobs[i]? = some (.query client r (.waiting previous current before))) :
    e.perform a = ((e.resume r previous current before).1.setJob i
      (.query client r (e.resume r previous current before).2)).reap :=
  ha.perform_query h

/-- Nothing but a query is polled outside. -/
theorem pollOutside_cases (e : Engine F) (i : Nat) :
    e.pollOutside i = e ∨ ∃ client r stage, e.jobs[i]? = some (.query client r stage) := by
  unfold pollOutside
  split
  · next client r stage h => exact .inr ⟨client, r, stage, h⟩
  · exact .inl rfl

theorem phases_pollQuery (e : Engine F) (background : Bool) (job client : Nat) (r : Request)
    (stage : Stage) : e.Phases (e.pollQuery background job client r stage) := by
  have hend : ∀ (d : Engine F) (j : Job), d.Phases (d.setJob job j).reap :=
    fun d j => (Phases.quiet (quiet_setJob d job j)).trans (phases_reap _)
  unfold pollQuery
  split
  · exact (phases_begin e background r).trans (hend _ _)
  · exact (Phases.quiet (quiet_resume e r _ _ _)).trans (hend _ _)
  · exact (Phases.quiet (quiet_giveUp e r _)).trans (hend _ _)
  · exact .refl e

/-! ### Preloads -/

/-- Where the root is not cancelled, a preload is a new generation that is served. -/
theorem warm_of_not_isOver (background : Bool) (document : Uri) (position : Position)
    (h : e.isOver = false) :
    e.warm background document position
      = (e.nextGeneration.countGeneration.servePreload background document position,
          some e.nextGeneration.countGeneration.generations.current) := by
  simp only [warm, h, Bool.false_eq_true, if_false, preload, lookupPlan_fst]
  rfl

theorem phases_warm (e : Engine F) (background : Bool) (document : Uri) (position : Position) :
    e.Phases (e.warm background document position).1 := by
  cases h : e.isOver with
  | true =>
    rw [warm, if_pos h]
    exact .quiet (quiet_note e rfl)
  | false =>
    rw [warm_of_not_isOver background document position h]
    exact .single (.preload e background document position h)

theorem phases_move (e : Engine F) (background : Bool) (document : Uri) (position : Position) :
    e.Phases (e.move background document position) := by
  unfold move
  split
  · exact .refl e
  · next h =>
    have hover : e.isOver = false := by
      cases hover : e.isOver with
      | false => rfl
      | true => simp [hover] at h
    split
    · exact .single (.arm e document position hover)
    · exact .quiet (quiet_note e rfl)

theorem phases_pollTimer (e : Engine F) (job : Nat) (token : Token) (due : Option Nat)
    (document : Uri) (position : Position) :
    e.Phases (e.pollTimer job token due document position) := by
  have hend : e.Phases (e.setJob job .ended) := .quiet (quiet_setJob e job .ended)
  unfold pollTimer elapse
  dsimp only
  split
  · split
    · exact hend
    · exact (hend.trans (.single (.goOff _))).trans (phases_warm _ true document position)
  · exact .quiet (quiet_setJob e job _)

section

variable {i : Nat} {token : Token} {due : Option Nat} {document : Uri} {position : Position}

/-- A timer that was stopped is over at its next poll. -/
theorem poll_timer_stopped (h : e.jobs[i]? = some (.timer token due document position))
    (hc : e.isCancelled token = true) : e.poll i = e.setJob i .ended := by
  have hcancelled : (e.setJob i .ended).isCancelled token = true := hc
  rw [poll, h]
  simp only [pollTimer, hc, Bool.true_or, if_true, elapse, hcancelled]

/-- A timer that is not due waits on, and knows from its first poll on until when. -/
theorem poll_timer_early (h : e.jobs[i]? = some (.timer token due document position))
    (hc : e.isCancelled token = false) (hearly : e.now < e.deadline due) :
    e.poll i = e.setJob i (.timer token (some (e.deadline due)) document position) := by
  have hnot : decide (e.deadline due ≤ e.now) = false := decide_eq_false (Nat.not_le_of_lt hearly)
  rw [poll, h]
  simp only [pollTimer, hc, hnot, Bool.or_self, Bool.false_eq_true, if_false]

/-- So a timer that was stopped or is not due has no part in anything else. -/
theorem poll_timer_rests (h : e.jobs[i]? = some (.timer token due document position))
    (hrests : e.isCancelled token = true ∨ e.now < e.deadline due) :
    ∃ j, e.poll i = e.setJob i j := by
  cases hc : e.isCancelled token with
  | true => exact ⟨_, poll_timer_stopped h hc⟩
  | false =>
    rw [hc] at hrests
    exact ⟨_, poll_timer_early h hc (hrests.resolve_left Bool.false_ne_true)⟩

end

/-! ### Actions -/

theorem phases_edit (e : Engine F) (document : Uri) (changes : Nat) :
    e.Phases (e.edit document changes) :=
  (Phases.quiet (quiet_note e rfl)).trans (.single (.clear _))

theorem phases_poll (e : Engine F) (job : Nat) : e.Phases (e.poll job) := by
  unfold poll
  split
  · exact .quiet (quiet_pollDriver e job _ _)
  · exact phases_pollTimer e job _ _ _ _
  · exact phases_pollQuery e true job _ _ _
  · exact .quiet (quiet_pollAwait e job _ _ _)
  · exact .refl e

theorem phases_pollOutside (e : Engine F) (job : Nat) : e.Phases (e.pollOutside job) := by
  unfold pollOutside
  split
  · exact phases_pollQuery e false job _ _ _
  · exact .refl e

/-- **Every action goes in phases**, but for the two that stand apart. -/
theorem perform_cases (e : Engine F) (a : Action F) :
    (∃ order, a = .tell order) ∨ a = .cancelRoot ∨ e.Phases (e.perform a) := by
  cases a with
  | move background document position => exact .inr (.inr (phases_move e _ _ _))
  | edit document changes => exact .inr (.inr (phases_edit e _ _))
  | clear => exact .inr (.inr (.single (.clear e)))
  | query r => exact .inr (.inr (.quiet (quiet_spawn e _)))
  | ask r => exact .inr (.inr (phases_ask e r))
  | await call => exact .inr (.inr (.quiet (quiet_spawn e _)))
  | abandon client => exact .inr (.inr (.quiet (quiet_abandon e client)))
  | dispose => exact .inr (.inr (phases_dispose e))
  | letGo =>
    -- the host lets go first, and then the cache may come to its end
    have hgone : e.Phases { e with held := false } := .quiet (.background e _ _ _)
    exact .inr (.inr (hgone.trans (phases_reap _)))
  | warm background document position => exact .inr (.inr (phases_warm e _ _ _))
  | disarm => exact .inr (.inr (.single (.disarm e)))
  | cancelRoot => exact .inr (.inl rfl)
  | tell order => exact .inl ⟨order, rfl⟩
  | tick ms => exact .inr (.inr (.quiet (quiet_tick e ms)))
  | poll job => exact .inr (.inr (phases_poll e job))
  | pollOutside job => exact .inr (.inr (phases_pollOutside e job))

/-- **What is kept by phases, by telling the fetcher something and, where that happens, by
cancelling the root is kept by every run.** -/
theorem run_induction {I : Engine F → Prop}
    (hphase : ∀ {e e' : Engine F}, e.Phase e' → I e → I e')
    (htell : ∀ (e : Engine F) (order : F.Order), I e → I (e.tell order)) :
    ∀ (actions : List (Action F)) (e : Engine F),
      (.cancelRoot ∈ actions → ∀ e : Engine F, I e → I e.cancelRoot) → I e →
      I (e.run actions) := by
  intro actions
  -- every action starts from another engine, so the engine is not fixed in the induction
  induction actions with
  | nil => intro e _ he; exact he
  | cons a rest ih =>
    intro e hroot he
    rw [run_cons]
    refine ih _ (fun hmem => hroot (List.mem_cons_of_mem a hmem)) ?_
    rcases e.perform_cases a with ⟨order, rfl⟩ | rfl | h
    · exact htell e order he
    · exact hroot List.mem_cons_self e he
    · exact h.keep hphase he

/-! ### Calls and tables in runs -/

theorem carries_arm (e : Engine F) (document : Uri) (position : Position) :
    e.Carries (e.arm document position) := by
  unfold arm disarm
  split <;> exact .of_eq rfl rfl

theorem carries_disarm (e : Engine F) : e.Carries e.disarm := by
  unfold disarm
  split <;> exact .of_eq rfl rfl

theorem carries_nextGeneration (e : Engine F) :
    e.Carries e.nextGeneration.countGeneration := by
  unfold countGeneration
  split <;> exact .of_eq rfl rfl

theorem carries_serve (e : Engine F) (notice : Notice) (background : Bool) (stamp : Stamp)
    (document : Uri) (position : Position) :
    e.Carries (e.serve notice background stamp document position) :=
  (still_note e notice).carries.trans (still_lookupKeys _ _ _ _).carries

theorem carries_dispose (e : Engine F) : e.Carries e.dispose := by
  unfold dispose
  split
  · exact .refl e
  · have hcancel : e.Carries { e with disposed := true }.cancelRoot := .of_eq rfl rfl
    exact ((hcancel.trans (carries_disarm _)).trans (still_clear _).carries).trans
      (still_note _ .closed).carries

theorem idents_disarm (e : Engine F) : e.disarm.idents = e.idents := by
  unfold disarm
  split <;> rfl

theorem table_disarm (e : Engine F) : e.disarm.table = e.table := by
  unfold disarm
  split <;> rfl

theorem idents_dispose (e : Engine F) : e.dispose.idents = e.idents := by
  unfold dispose
  split
  · rfl
  · exact idents_disarm _

theorem table_dispose (h : e.disposed = false) : e.dispose.table = [] := by
  rw [dispose, h]
  rfl

theorem idents_nextGeneration (e : Engine F) :
    e.nextGeneration.countGeneration.idents = e.idents := by
  unfold countGeneration
  split <;> rfl

theorem table_nextGeneration (e : Engine F) :
    e.nextGeneration.countGeneration.table = e.table := by
  unfold countGeneration
  split <;> rfl

theorem generations_disarm (e : Engine F) : e.disarm.generations = e.generations := by
  unfold disarm
  split <;> rfl

theorem generations_dispose (e : Engine F) : e.dispose.generations = e.generations := by
  unfold dispose
  split
  · rfl
  · exact generations_disarm _

theorem Phase.carries (h : e.Phase e') : e.Carries e' := by
  cases h with
  | quiet h => exact h.carries
  | clear => exact (still_clear e).carries
  | arm document position _ => exact carries_arm e document position
  | disarm => exact carries_disarm e
  | goOff => exact .of_eq rfl rfl
  | query _ document position _ => exact carries_serve e _ _ _ document position
  | preload _ document position _ =>
    exact (carries_nextGeneration e).trans (carries_serve _ _ _ _ document position)
  | dispose _ => exact carries_dispose e

/-- **A run only adds to the calls, and lets those that are there flow on.** -/
theorem carries_run (e : Engine F) (actions : List (Action F)) : e.Carries (e.run actions) :=
  run_induction (fun hp h => h.trans hp.carries) (fun d order h => h.trans (carries_tell d order))
    actions e (fun _ _ h => h.trans (.of_eq rfl rfl)) (.refl e)

end CursorContext.Engine
