import CursorContext.Fetch.Canned
import CursorContext.Proofs.Counts
import CursorContext.Proofs.Timers

/-!
# What the counters account for

A host compares two snapshots of the counters to learn what happened between them.  What happened
can be told from the actions without any counter: which queries ran and which preloads fired, for
which lines, which actions cleared the table, and which failures the queries saw that were polled.
The difference of the snapshots says the same, number by number.

A query sees the failure of a call at the poll at which it stops waiting for it, so it sees each of
them once, whatever becomes of it later.

## Main definitions

* `Engine.trail` — what the actions of a run have to show, in order.
* `Engine.asked`, `Engine.fired`, `Action.empties` — queries that run, preloads that fire, and
  actions that clear the table.
* `Engine.awaited`, `Engine.sighted` — the calls that a query waits for when it is polled, and
  those among them that it sees fail.
* `Engine.Once` — what a query saw, and what it may still see.
* `Engine.Accounts` — what the difference of two snapshots is.

## Main results

* `counted_perform`, `counted_run` — what an action counts, and what a run counts.
* `once_run` — no query sees the same failure twice.
* `snapshots_account` — the difference of two snapshots accounts for what happened in between.
-/

namespace CursorContext

/-- The calls that a query goes on to wait for once it ran. -/
def Job.waits : Job → List Nat
  | .query _ _ (.waiting previous current _) => previous.call?.toList ++ current.call?.toList
  | _ => []

theorem Job.waits_of_isFresh {j : Job} (h : j.isFresh = true) : j.waits = [] := by
  cases j with
  | query client r stage => cases stage <;> first | rfl | cases h
  | _ => rfl

/-- A query that was given up waits for nothing. -/
theorem Job.waits_leave (j : Job) : j.leave.waits = [] := by
  cases j with
  | query client r stage => cases stage <;> rfl
  | _ => rfl

/-- A query that was given up did not do nothing so far. -/
theorem Job.isFresh_of_leave {j : Job} (h : j.leave.isFresh = true) : j.isFresh = true := by
  cases j with
  | query client r stage => cases stage <;> cases h
  | await client call stage => cases stage <;> cases h
  | _ => exact h

namespace Engine

variable {F : Fetcher} {e e' : Engine F}

/-! ### What happens -/

/-- What the actions of a run have to show, in order. -/
def trail {α : Type} (f : Engine F → Action F → List α) (e : Engine F) : List (Action F) → List α
  | [] => []
  | a :: rest => f e a ++ trail f (e.perform a) rest

theorem trail_append {α : Type} (f : Engine F → Action F → List α) (e : Engine F)
    (past rest : List (Action F)) :
    trail f e (past ++ rest) = trail f e past ++ trail f (e.run past) rest := by
  induction past generalizing e with
  | nil => rfl
  | cons a past ih =>
    rw [List.cons_append, trail, trail, ih, run_cons, List.append_assoc]

theorem trail_concat {α : Type} (f : Engine F → Action F → List α) (e : Engine F)
    (past : List (Action F)) (a : Action F) :
    trail f e (past ++ [a]) = trail f e past ++ f (e.run past) a := by
  rw [trail_append, trail, trail, List.append_nil]

/-- The line of a query that runs now, which it does at its first poll unless the cache was disposed
of by then. -/
def asked (e : Engine F) : Action F → List UInt32
  | .ask r => if e.disposed then [] else [r.position.line]
  | .poll job | .pollOutside job =>
    match e.jobs[job]? with
    | some (.query _ r .queued) => if e.disposed then [] else [r.position.line]
    | _ => []
  | _ => []

/-- The line of a preload that fires now, which it does when its timer is due and was not stopped,
or at once. -/
def fired (e : Engine F) : Action F → List UInt32
  | .warm _ _ position => if e.isOver then [] else [position.line]
  | .poll job =>
    match e.jobs[job]? with
    | some (.timer token due _ position) =>
      if !e.isCancelled token && e.deadline due ≤ e.now && !e.isOver then [position.line] else []
    | _ => []
  | _ => []

/-- Whether it empties the table: a change of a document does, and the host may. -/
def Action.empties : Action F → Bool
  | .edit _ _ => true
  | .clear => true
  | _ => false

/-- The calls that a job waits for when it is polled now, if it is a query. -/
def awaitedAt (e : Engine F) (background : Bool) (job : Nat) : List Nat :=
  match e.jobs[job]? with
  | some (.query _ r .queued) => if e.disposed then [] else e.fetched background r
  | some (.query _ _ (.waiting previous current _)) => previous.call?.toList ++ current.call?.toList
  | _ => []

/-- The calls that a query waits for when it is polled now. -/
def awaited (e : Engine F) : Action F → List Nat
  | .ask r => if e.disposed then [] else e.fetched false r
  | .poll job => e.awaitedAt true job
  | .pollOutside job => e.awaitedAt false job
  | _ => []

theorem Action.Polls.awaited {a : Action F} {background : Bool} {job : Nat}
    (ha : a.Polls job background) (e : Engine F) : e.awaited a = e.awaitedAt background job := by
  cases ha <;> rfl

theorem awaitedAt_of_not_isQuery {j : Job} {job : Nat} (h : e.jobs[job]? = some j)
    (hj : j.isQuery = false) (background : Bool) : e.awaitedAt background job = [] := by
  cases j with
  | query client r stage => cases hj
  | _ => simp only [awaitedAt, h]

/-- The calls among them that failed by the end of the poll. -/
def sighted (e : Engine F) (a : Action F) : List Nat := (e.awaited a).filter (e.perform a).failed

/-! ### What an action counts -/

theorem calls_disarm (e : Engine F) : e.disarm.calls = e.calls := by
  unfold disarm
  split <;> rfl

theorem calls_dispose (e : Engine F) : e.dispose.calls = e.calls := by
  unfold dispose
  split
  · rfl
  · exact calls_disarm _

theorem calls_reap (e : Engine F) : e.reap.calls = e.calls := by
  unfold reap
  split
  · rfl
  · exact calls_dispose e

theorem calls_giveUp (e : Engine F) (r : Request) (stage : Stage) :
    (e.giveUp r stage).calls = e.calls := by
  unfold giveUp
  split
  · exact calls_stopWatch e r _ _
  · rfl

/-- Putting a query back does nothing to outcomes, even if the cache comes to its end. -/
theorem outcome?_putBack (e : Engine F) (job : Nat) (j : Job) :
    (e.setJob job j).reap.outcome? = e.outcome? := by
  funext k
  rw [outcome?, calls_reap]
  rfl

theorem failed_of_outcome?_eq (h : e'.outcome? = e.outcome?) : e'.failed = e.failed := by
  funext k
  rw [failed, failed, h]

theorem counted_ask (r : Request) (hne : (e.awaited (.ask r)).Nodup) :
    e.Counted (total Plan.width (e.asked (.ask r))) 0 0 (e.sighted (.ask r)).length
      (e.ask r).1 := by
  cases hd : e.disposed with
  | true =>
    simp only [asked, sighted, awaited, hd, if_true, ask, begin_of_disposed hd]
    exact counted_giveUp e r _
  | false =>
    simp only [awaited, hd, Bool.false_eq_true, if_false] at hne
    have hsame : (e.perform (.ask r)).failed = (e.begin false r).1.failed := by
      refine failed_of_outcome?_eq ?_
      funext k
      rw [outcome?, outcome?]
      exact congrArg (fun calls : Array (Call F) => calls[k]?.bind (·.status.outcome?))
        (calls_giveUp _ r _)
    simp only [asked, sighted, awaited, hd, Bool.false_eq_true, if_false, hsame, total_cons,
      total_nil, ← List.countP_eq_length_filter]
    exact (counted_begin hd hne).before (counted_giveUp _ r _)

theorem counted_pollTimer {job : Nat} {token : Token} {due : Option Nat} {document : Uri}
    {position : Position} (h : e.jobs[job]? = some (.timer token due document position)) :
    e.Counted (total Plan.width (e.fired (.poll job))) 0 (e.fired (.poll job)).length 0
      (e.poll job) := by
  simp only [fired, h]
  cases hc : e.isCancelled token with
  | true =>
    rw [poll_timer_stopped h hc]
    exact counted_setJob e job .ended
  | false =>
    by_cases hdue : e.deadline due ≤ e.now
    · rw [poll_timer_due ⟨h, hc⟩ hdue, decide_eq_true hdue]
      have hdisarmed : e.Counted 0 0 0 0 { e.setJob job .ended with armed := none } :=
        .of_eq rfl rfl rfl rfl rfl (Nat.le_refl _)
      have hsame : { e.setJob job .ended with armed := none }.isOver = e.isOver := rfl
      cases hover : e.isOver with
      | true => exact (counted_warm_refused (hsame.trans hover) _ _ _).after hdisarmed
      | false => exact (counted_warm (hsame.trans hover) _ _ _).after hdisarmed
    · rw [poll_timer_early h hc (Nat.lt_of_not_le hdue), decide_eq_false hdue]
      exact counted_setJob e job _

/-- A query that is polled is put back in the end. -/
theorem counted_putBack {l f : Nat} {d : Engine F} (h : e.Counted l 0 0 f d) (job : Nat)
    (j : Job) : e.Counted l 0 0 f (d.setJob job j).reap :=
  (h.before (counted_setJob d job j)).before (counted_reap _)

theorem counted_pollQuery {a : Action F} {background : Bool} {job client : Nat} {r : Request}
    {stage : Stage} (ha : a.Polls job background)
    (h : e.jobs[job]? = some (.query client r stage)) (hne : (e.awaited a).Nodup) :
    e.Counted (total Plan.width (e.asked a)) 0 0 (e.sighted a).length (e.perform a) := by
  -- only its first poll asks for anything
  have hran : stage ≠ .queued → e.asked a = [] := by
    intro hran
    cases stage with
    | queued => exact absurd rfl hran
    | _ => cases ha <;> simp only [asked, h]
  rw [ha.awaited] at hne
  rw [sighted, ha.awaited]
  cases stage with
  | queued =>
    have hasked : e.asked a = if e.disposed then [] else [r.position.line] := by
      cases ha <;> simp only [asked, h]
    rw [hasked, ha.perform_queued h]
    simp only [awaitedAt, h] at hne ⊢
    cases hd : e.disposed with
    | true =>
      simp only [begin_of_disposed hd, if_true]
      exact counted_putBack (.refl e) _ _
    | false =>
      simp only [hd, Bool.false_eq_true, if_false] at hne ⊢
      rw [failed_of_outcome?_eq (outcome?_putBack _ _ _), total_cons, total_nil,
        ← List.countP_eq_length_filter]
      exact counted_putBack (counted_begin hd hne) _ _
  | waiting previous current before =>
    rw [hran (by simp), ha.perform_waiting h]
    simp only [awaitedAt, h] at hne ⊢
    rw [failed_of_outcome?_eq (outcome?_putBack _ _ _), total_nil, ← List.countP_eq_length_filter]
    exact counted_putBack (counted_resume hne) _ _
  | leaving held before =>
    rw [hran (by simp), ha.perform_query h]
    simp only [awaitedAt, h]
    exact counted_putBack (counted_giveUp e r _) _ _
  | finished answer =>
    rw [hran (by simp), ha.perform_query h]
    simp only [awaitedAt, h]
    exact .refl e
  | abandoned =>
    rw [hran (by simp), ha.perform_query h]
    simp only [awaitedAt, h]
    exact .refl e

/-- What has nothing to show counts nothing. -/
theorem Counted.idle {a : Action F} {d : Engine F} (h : e.Counted 0 0 0 0 d)
    (hperform : e.perform a = d) (hasked : e.asked a = []) (hfired : e.fired a = [])
    (hawaited : e.awaited a = []) :
    e.Counted (total Plan.width (e.asked a ++ e.fired a)) 0 (e.fired a).length (e.sighted a).length
      (e.perform a) := by
  rw [hperform, sighted, hasked, hfired, hawaited]
  exact h

/-- What a poll counts: queries and timers count, and drivers and those who came for an entry do
not. -/
theorem counted_poll {job : Nat} (hne : (e.awaited (.poll job)).Nodup) :
    e.Counted (total Plan.width (e.asked (.poll job) ++ e.fired (.poll job))) 0
      (e.fired (.poll job)).length (e.sighted (.poll job)).length (e.poll job) := by
  cases hj : e.jobs[job]? with
  | none =>
    exact (Counted.refl e).idle (poll_of_none hj) (by simp only [asked, hj])
      (by simp only [fired, hj]) (by simp only [awaited, awaitedAt, hj])
  | some j =>
    cases j with
    | drive call token =>
      exact (counted_pollDriver e job call token).idle (by rw [perform, poll, hj])
        (by simp only [asked, hj]) (by simp only [fired, hj]) (awaitedAt_of_not_isQuery hj rfl true)
    | await client call stage =>
      exact (counted_pollAwait e job client call stage).idle (by rw [perform, poll, hj])
        (by simp only [asked, hj]) (by simp only [fired, hj]) (awaitedAt_of_not_isQuery hj rfl true)
    | ended =>
      exact (Counted.refl e).idle (by rw [perform, poll, hj]) (by simp only [asked, hj])
        (by simp only [fired, hj]) (awaitedAt_of_not_isQuery hj rfl true)
    | timer token due document position =>
      have hasked : e.asked (.poll job) = [] := by simp only [asked, hj]
      have hawaited : e.awaited (.poll job) = [] := awaitedAt_of_not_isQuery hj rfl true
      rw [hasked, sighted, hawaited]
      exact counted_pollTimer hj
    | query client r stage =>
      have hfired : e.fired (.poll job) = [] := by simp only [fired, hj]
      rw [hfired, List.append_nil]
      exact counted_pollQuery (.inside job) hj hne

/-- Outside nothing but queries is polled. -/
theorem counted_pollOutside {job : Nat} (hne : (e.awaited (.pollOutside job)).Nodup) :
    e.Counted (total Plan.width (e.asked (.pollOutside job) ++ e.fired (.pollOutside job))) 0
      (e.fired (.pollOutside job)).length (e.sighted (.pollOutside job)).length
      (e.pollOutside job) := by
  cases hj : e.jobs[job]? with
  | none =>
    exact (Counted.refl e).idle ((Action.Polls.outside job).perform_of_none hj)
      (by simp only [asked, hj]) rfl (by simp only [awaited, awaitedAt, hj])
  | some j =>
    cases j with
    | query client r stage =>
      rw [show e.fired (.pollOutside job) = [] from rfl, List.append_nil]
      exact counted_pollQuery (.outside job) hj hne
    | _ =>
      exact (Counted.refl e).idle (by rw [perform, pollOutside, hj]) (by simp only [asked, hj]) rfl
        (awaitedAt_of_not_isQuery hj rfl false)

/-- **What an action counts.** -/
theorem counted_perform (a : Action F) (hne : (e.awaited a).Nodup) :
    e.Counted (total Plan.width (e.asked a ++ e.fired a)) a.empties.toNat (e.fired a).length
      (e.sighted a).length (e.perform a) := by
  cases a with
  | poll job => exact counted_poll hne
  | pollOutside job => exact counted_pollOutside hne
  | ask r =>
    rw [show e.fired (.ask r) = [] from rfl, List.append_nil]
    exact counted_ask r hne
  | warm background document position =>
    rw [show e.asked (.warm background document position) = [] from rfl, List.nil_append, fired]
    cases hover : e.isOver with
    | true => exact counted_warm_refused hover background document position
    | false => exact counted_warm hover background document position
  | edit document changes => exact (counted_clear _).after (counted_note e _)
  | clear => exact counted_clear e
  | move background document position => exact counted_move e background document position
  | query r => exact .of_eq rfl rfl rfl rfl rfl (Nat.le_refl _)
  | await call => exact .of_eq rfl rfl rfl rfl rfl (Nat.le_refl _)
  | abandon client => exact counted_abandon e client
  | dispose => exact counted_dispose e
  | letGo =>
    exact (counted_reap _).after (.of_eq rfl rfl rfl rfl rfl (Nat.le_refl _))
  | disarm => exact counted_disarm e
  | cancelRoot => exact .of_eq rfl rfl rfl rfl rfl (Nat.le_refl _)
  | tell order => exact .of_eq rfl rfl rfl rfl rfl (Nat.le_refl _)
  | tick ms => exact .of_eq rfl rfl rfl rfl rfl (Nat.le_refl _)

/-! ### What a query sees -/

/-- The failures that a query sees now, if it is polled. -/
def sightedBy (job : Nat) (e : Engine F) : Action F → List Nat
  | .poll k => if k = job then e.sighted (.poll k) else []
  | .pollOutside k => if k = job then e.sighted (.pollOutside k) else []
  | _ => []

theorem Action.Polls.sightedBy {a : Action F} {background : Bool} {job : Nat}
    (ha : a.Polls job background) (e : Engine F) : e.sightedBy job a = e.sighted a := by
  cases ha <;> exact if_pos rfl

theorem sightedBy_of_not_polls {a : Action F} {job : Nat}
    (h : ∀ background, ¬ a.Polls job background) (e : Engine F) : e.sightedBy job a = [] := by
  cases a with
  | poll k =>
    refine if_neg ?_
    rintro rfl
    exact h true (.inside k)
  | pollOutside k =>
    refine if_neg ?_
    rintro rfl
    exact h false (.outside k)
  | _ => rfl

/-- What a query saw so far, and waits for still, is all different; and it saw nothing before it
ran. -/
structure Once (e : Engine F) (job : Nat) (seen : List Nat) : Prop where
  waits : ∀ j, e.jobs[job]? = some j → (seen ++ j.waits).Nodup
  fresh : (∀ j, e.jobs[job]? = some j → j.isFresh = true) → seen = []

/-- A query that was polled waits, or is over. -/
theorem waits_of_resume {client : Nat} {r r' : Request} {previous current : Half}
    {before : Counters} :
    (Job.query client r' (e.resume r previous current before).2).waits
      = (e.resume r previous current before).2.calls := by
  unfold resume
  dsimp only
  split <;> rfl

/-- **A poll leaves a query to wait for what is not back**, and others wait for nothing. -/
theorem Action.Polls.waits_polled {a : Action F} {background : Bool} {job : Nat} {j : Job}
    (ha : a.Polls job background) (h : e.jobs[job]? = some j) (hne : (e.awaited a).Nodup) :
    (e.polled background j).waits
      = (e.awaited a).filter fun k => ((e.perform a).outcome? k).isNone := by
  rw [ha.awaited] at hne ⊢
  -- what waits for nothing before, does not after
  have hnothing : e.awaitedAt background job = [] → (e.polled background j).waits = [] →
      (e.polled background j).waits
        = (e.awaitedAt background job).filter fun k => ((e.perform a).outcome? k).isNone := by
    intro hawaited hwaits
    rw [hawaited, hwaits]
    rfl
  cases j with
  | query client r stage =>
    cases stage with
    | queued =>
      simp only [awaitedAt, h] at hne ⊢
      cases hd : e.disposed with
      | true => simp only [polled, begin_of_disposed hd]; rfl
      | false =>
        simp only [hd, Bool.false_eq_true, if_false] at hne ⊢
        obtain ⟨d, above, here, hbegin, -, -⟩ := e.exists_begin hd background r
        rw [ha.perform_queued h, outcome?_putBack, ← calls_begin hd hne, polled, hbegin,
          waits_of_resume]
    | waiting previous current before =>
      simp only [awaitedAt, h] at hne ⊢
      rw [ha.perform_waiting h, outcome?_putBack, ← calls_resume hne, polled, waits_of_resume]
    | leaving held before => exact hnothing (by simp only [awaitedAt, h]) rfl
    | finished answer => exact hnothing (by simp only [awaitedAt, h]) rfl
    | abandoned => exact hnothing (by simp only [awaitedAt, h]) rfl
  | drive call token =>
    refine hnothing (awaitedAt_of_not_isQuery h rfl background) ?_
    rw [polled]
    split <;> rfl
  | timer token due document position =>
    refine hnothing (awaitedAt_of_not_isQuery h rfl background) ?_
    rw [polled]
    split <;> rfl
  | await client call stage =>
    refine hnothing (awaitedAt_of_not_isQuery h rfl background) ?_
    cases stage <;> simp only [polled]
    · split <;> rfl
    all_goals rfl
  | ended => exact hnothing (awaitedAt_of_not_isQuery h rfl background) rfl

theorem Once.nodup {job : Nat} {seen : List Nat} (h : e.Once job seen) : seen.Nodup := by
  cases hj : e.jobs[job]? with
  | none =>
    rw [h.fresh fun j hj' => by rw [hj] at hj'; cases hj']
    exact List.nodup_nil
  | some j => exact (List.nodup_append.mp (h.waits j hj)).1

/-- What it may see when it is polled next, it did not see before. -/
theorem Once.awaitedAt {job : Nat} {seen : List Nat} (h : e.Once job seen) (hc : e.Coalesced)
    (background : Bool) : (seen ++ e.awaitedAt background job).Nodup := by
  have hnothing : e.awaitedAt background job = [] →
      (seen ++ e.awaitedAt background job).Nodup := by
    intro hawaited
    rw [hawaited, List.append_nil]
    exact h.nodup
  cases hj : e.jobs[job]? with
  | none => exact hnothing (by simp only [Engine.awaitedAt, hj])
  | some j =>
    cases j with
    | query client r stage =>
      cases stage with
      | queued =>
        have hseen : seen = [] := h.fresh fun j hj' => by
          rw [hj, Option.some.injEq] at hj'
          rw [← hj']
          rfl
        simp only [Engine.awaitedAt, hj, hseen, List.nil_append]
        split
        · exact List.nodup_nil
        · exact hc.nodup_fetched background r
      | waiting previous current before =>
        have hwaits := h.waits _ hj
        simp only [Engine.awaitedAt, hj]
        exact hwaits
      | _ => exact hnothing (by simp only [Engine.awaitedAt, hj])
    | _ => exact hnothing (awaitedAt_of_not_isQuery hj rfl background)

/-- What some of it shows, and what the others go on to show, is all different. -/
theorem nodup_filter_append {seen l : List Nat} {p q : Nat → Bool} (h : (seen ++ l).Nodup)
    (hpq : ∀ k, p k = true → q k = false) : (seen ++ l.filter p ++ l.filter q).Nodup := by
  rw [List.append_assoc]
  obtain ⟨hseen, hl, hne⟩ := List.nodup_append.mp h
  have hboth : (l.filter p ++ l.filter q).Nodup := by
    refine List.nodup_append.mpr ⟨hl.filter p, hl.filter q, ?_⟩
    rintro x hx y hy rfl
    have hq := hpq x (List.mem_filter.mp hx).2
    rw [(List.mem_filter.mp hy).2] at hq
    cases hq
  refine List.nodup_append.mpr ⟨hseen, hboth, ?_⟩
  intro x hx y hy
  refine hne x hx y ?_
  rcases List.mem_append.mp hy with hy | hy
  · exact (List.mem_filter.mp hy).1
  · exact (List.mem_filter.mp hy).1

/-- What is fresh after a poll was so before, and is no query. -/
theorem isFresh_of_polled {background : Bool} {j : Job}
    (h : (e.polled background j).isFresh = true) : j.isFresh = true ∧ j.isQuery = false := by
  have hresume : ∀ {d : Engine F} {client : Nat} {r : Request} {above here : Half}
      {before : Counters},
      (Job.query client r (d.resume r above here before).2).isFresh = false := by
    intro d client r above here before
    unfold resume
    dsimp only
    split <;> rfl
  cases j with
  | query client r stage =>
    cases stage with
    | queued =>
      cases hd : e.disposed with
      | true =>
        rw [polled, begin_of_disposed hd] at h
        cases h
      | false =>
        obtain ⟨d, above, here, hbegin, -, -⟩ := e.exists_begin hd background r
        rw [polled, hbegin, hresume] at h
        cases h
    | waiting previous current before =>
      rw [polled, hresume] at h
      cases h
    | _ => cases h
  | timer token due document position =>
    rw [polled] at h
    split at h <;> cases h
  | await client call stage =>
    refine ⟨?_, rfl⟩
    cases stage with
    | queued => rfl
    | _ => cases h
  | drive call token => exact ⟨rfl, rfl⟩
  | ended => cases h

/-- What a query sees at a poll, it does not wait for any more. -/
theorem Once.polls {a : Action F} {background : Bool} {job : Nat} {seen : List Nat}
    (h : e.Once job seen) (hc : e.Coalesced) (ha : a.Polls job background) :
    (e.perform a).Once job (seen ++ e.sighted a) := by
  have hawaited := h.awaitedAt hc background
  rw [← ha.awaited] at hawaited
  -- what has nothing to see leaves everything as it was
  have hidle : e.perform a = e → e.awaitedAt background job = [] →
      (e.perform a).Once job (seen ++ e.sighted a) := by
    intro hsame hnothing
    rw [sighted, ha.awaited, hnothing, hsame, List.filter_nil, List.append_nil]
    exact h
  cases hj : e.jobs[job]? with
  | none => exact hidle (ha.perform_of_none hj) (by simp only [Engine.awaitedAt, hj])
  | some j =>
    rcases ha.jobs_or_idle hj with hpolled | ⟨hsame, hquery⟩
    · constructor
      · intro j' hj'
        rw [hpolled, Option.some.injEq] at hj'
        rw [← hj', ha.waits_polled hj (List.nodup_append.mp hawaited).2.1]
        refine nodup_filter_append hawaited fun k hk => ?_
        -- what failed is back
        rw [failed] at hk
        cases hout : (e.perform a).outcome? k with
        | none =>
          rw [hout] at hk
          cases hk
        | some o => rfl
      · intro hfresh
        obtain ⟨hold, hquery⟩ := isFresh_of_polled (hfresh _ hpolled)
        have hseen : seen = [] := h.fresh fun j' hj' => by
          rw [hj, Option.some.injEq] at hj'
          rw [← hj']
          exact hold
        rw [hseen, sighted, ha.awaited, awaitedAt_of_not_isQuery hj hquery]
        rfl
    · exact hidle hsame (awaitedAt_of_not_isQuery hj hquery background)

theorem Once.perform {job : Nat} {seen : List Nat} (h : e.Once job seen) (hc : e.Coalesced)
    (a : Action F) : (e.perform a).Once job (seen ++ e.sightedBy job a) := by
  by_cases hpoll : ∃ background, a.Polls job background
  · obtain ⟨background, ha⟩ := hpoll
    rw [ha.sightedBy]
    exact h.polls hc ha
  rw [sightedBy_of_not_polls fun background ha => hpoll ⟨background, ha⟩, List.append_nil]
  constructor
  · intro j' hj'
    have hnothing : j'.waits = [] → (seen ++ j'.waits).Nodup := by
      intro hwaits
      rw [hwaits, List.append_nil]
      exact h.nodup
    rcases job_perform_cases hj' with hold | ⟨-, hfresh⟩ | ⟨_, _, _, rfl, -⟩
      | ⟨old, -, rfl⟩ | ⟨background, _, ha, -⟩
    · exact h.waits j' hold
    · exact hnothing (Job.waits_of_isFresh hfresh)
    · exact hnothing rfl
    · exact hnothing (Job.waits_leave old)
    · exact absurd ⟨background, ha⟩ hpoll
  · intro hfresh
    refine h.fresh fun j hj => ?_
    rcases job_perform hj a with hsame | ⟨-, hleave⟩ | ⟨background, ha, -⟩
    · exact hfresh j hsame
    · exact Job.isFresh_of_leave (hfresh _ hleave)
    · exact absurd ⟨background, ha⟩ hpoll

/-- **No query sees the same failure twice.** -/
theorem once_run (options : Options) (world : F.State) (job : Nat) (actions : List (Action F)) :
    ((opening options world).run actions).Once job
      (trail (sightedBy job) (opening options world) actions) := by
  induction actions using List.reverseRecOn with
  | nil => exact ⟨fun j hj => absurd hj (by simp [opening, start, note]), fun _ => rfl⟩
  | append_singleton past a ih =>
    rw [trail_concat, run_append]
    exact ih.perform (coalesced_run options world past) a

/-- What is polled waits for different calls. -/
theorem nodup_awaited (options : Options) (world : F.State) (actions : List (Action F))
    (a : Action F) : (((opening options world).run actions).awaited a).Nodup := by
  have hc := coalesced_run options world actions
  cases a with
  | poll job =>
    have honce := once_run options world job actions
    exact (List.nodup_append.mp (honce.awaitedAt hc true)).2.1
  | pollOutside job =>
    have honce := once_run options world job actions
    exact (List.nodup_append.mp (honce.awaitedAt hc false)).2.1
  | ask r =>
    rw [Engine.awaited]
    split
    · exact List.nodup_nil
    · exact hc.nodup_fetched false r
  | _ => exact List.nodup_nil

/-! ### What a run counts -/

/-- **What a run counts** from some time on. -/
theorem counted_run (options : Options) (world : F.State) (past between : List (Action F)) :
    ((opening options world).run past).Counted
      (total Plan.width (trail asked ((opening options world).run past) between)
        + total Plan.width (trail fired ((opening options world).run past) between))
      (between.countP Action.empties)
      (trail fired ((opening options world).run past) between).length
      (trail sighted ((opening options world).run past) between).length
      (((opening options world).run past).run between) := by
  induction between using List.reverseRecOn with
  | nil => exact .refl _
  | append_singleton between a ih =>
    have hne := nodup_awaited options world (past ++ between) a
    rw [run_append] at hne
    have hboth := ih.trans (counted_perform a hne)
    rw [total_append] at hboth
    have hcleared : [a].countP Action.empties = a.empties.toNat := by
      rw [List.countP_singleton]
      cases a.empties <;> rfl
    simp only [trail_concat, total_append, List.countP_append, List.length_append, run_append,
      hcleared]
    rw [Nat.add_add_add_comm]
    exact hboth

/-- What the difference `d` of two snapshots accounts for, the first of which was taken after
`before` and the second after what happened `between`. -/
structure Accounts (start : Engine F) (before between : List (Action F)) (d : Counters) : Prop where
  /-- Nothing is taken back, so the difference is what was counted. -/
  exact : ∀ t, (start.run before).counters.count t + d.count t
    = (start.run (before ++ between)).counters.count t
  /-- The other way round there is no difference. -/
  backward : ∀ t, ((start.run before).counters.since
    (start.run (before ++ between)).counters).count t = 0
  /-- Hits and misses are the lookups: two for every query that ran and every preload that fired, or
  one on the first line. -/
  lookups : d.hits + d.misses = total Plan.width (trail asked (start.run before) between)
    + total Plan.width (trail fired (start.run before) between)
  /-- Misses are the calls of the fetcher. -/
  misses : (start.run before).calls.size + d.misses = (start.run (before ++ between)).calls.size
  /-- The table was cleared by changes of documents, by the host, and once by the end of the
  cache. -/
  invalidations : d.invalidations = between.countP Action.empties
    + if (start.run before).disposed = false ∧ (start.run (before ++ between)).disposed = true
      then 1 else 0
  /-- Generations are the preloads that fired. -/
  generations : d.generations = (trail fired (start.run before) between).length
  /-- And by so many the current generation is a later one. -/
  generation : (start.run before).generations.current.id + d.generations
    = (start.run (before ++ between)).generations.current.id
  /-- Failures are those that queries saw. -/
  failures : d.failures = (trail sighted (start.run before) between).length
  /-- A query that is polled again and again sees the failure of a call once at most. -/
  once : ∀ job, (trail (sightedBy job) start (before ++ between)).Nodup
  /-- And none sees it twice at one poll. -/
  apart : ∀ past a rest, before ++ between = past ++ a :: rest → ((start.run past).sighted a).Nodup
  /-- Whatever is counted is noted, so no number is larger than the journal. -/
  noted : ∀ t, (start.run (before ++ between)).counters.count t
    ≤ (start.run (before ++ between)).journal.size

/-- Nothing that is counted is ever taken back. -/
theorem Counted.count_le {l c f s : Nat} (h : e.Counted l c f s e')
    (hcounts : e.options.countsGenerations = true) (t : Tally) :
    e.counters.count t ≤ e'.counters.count t := by
  have hmisses := h.misses
  have hcalls := h.calls
  have hinvalidations := h.invalidations
  have hdisposed := h.disposed
  cases t with
  | hit => exact h.hits
  | miss => simp only [Counters.count]; omega
  | failure => simp only [Counters.count, h.failures]; omega
  | invalidation => simp only [Counters.count]; omega
  | generation => simp only [Counters.count, h.generations hcounts]; omega

/-- **The difference of two snapshots accounts for what happened between them.** -/
theorem snapshots_account (options : Options) (world : F.State) (before between : List (Action F))
    (hcounts : options.countsGenerations = true) :
    Accounts (opening options world) before between
      (((opening options world).run (before ++ between)).counters.since
        ((opening options world).run before).counters) := by
  have hcounted := counted_run options world before between
  have hcounts' : ((opening options world).run before).options.countsGenerations = true := by
    rw [options_run]
    exact hcounts
  have hle := hcounted.count_le hcounts'
  have hnoted := (counted_run options world [] (before ++ between)).noted
  rw [← run_append] at hcounted hle
  have hexact : ∀ t, ((opening options world).run before).counters.count t
      + (((opening options world).run (before ++ between)).counters.since
          ((opening options world).run before).counters).count t
      = ((opening options world).run (before ++ between)).counters.count t := by
    intro t
    rw [Counters.count_since]
    exact Nat.add_sub_of_le (hle t)
  refine
    { exact := hexact
      backward := fun t => ?_
      lookups := ?_
      misses := ?_
      invalidations := ?_
      generations := ?_
      generation := ?_
      failures := ?_
      once := fun job => (once_run options world job (before ++ between)).nodup
      apart := ?_
      noted := fun t => ?_ }
  · rw [Counters.count_since]
    exact Nat.sub_eq_zero_of_le (hle t)
  · have hhits := hexact .hit
    have hmisses := hexact .miss
    have hlookups := hcounted.lookups
    simp only [Counters.count] at hhits hmisses
    omega
  · have hmisses := hexact .miss
    have hcalls := hcounted.misses
    simp only [Counters.count] at hmisses
    omega
  · -- the end of the cache is the only clearing that is no action of its own
    have hcount := hexact .invalidation
    have hcleared := hcounted.invalidations
    have hdisposed := hcounted.disposed
    simp only [Counters.count] at hcount
    cases hbefore : ((opening options world).run before).disposed <;>
      cases hafter : ((opening options world).run (before ++ between)).disposed <;>
      simp only [hbefore, hafter, Bool.toNat_true, Bool.toNat_false] at hcleared hdisposed <;>
      simp <;> omega
  · have hcount := hexact .generation
    have hgenerations := hcounted.generations hcounts'
    simp only [Counters.count] at hcount
    omega
  · have hcount := hexact .generation
    have hgenerations := hcounted.generations hcounts'
    have hgeneration := hcounted.generation
    simp only [Counters.count] at hcount
    omega
  · have hcount := hexact .failure
    have hfailures := hcounted.failures
    simp only [Counters.count] at hcount
    omega
  · intro past a rest _
    exact (nodup_awaited options world past a).filter _
  · have hjournal : (opening options world).journal.size = 1 := rfl
    have hcounters : (opening options world).counters.sum = 0 := rfl
    have hsum := Counters.count_le_sum ((opening options world).run (before ++ between)).counters t
    simp only [run_nil] at hnoted
    omega

/-- A query makes two calls that are held, one of which will fail.  The cursor rests there, which
preloads the same line; the document changes, and the calls are let go.  The driver of the one that
fails brings it back before the query is polled, and the cache is disposed of twice in the end. -/
def accounted : List (Action Fetcher.canned) :=
  [.tell (.fail (2, .direct)), .query (lineQuery 100), .poll 0,
    .move true ⟨"file:///a"⟩ ⟨3, 0⟩, .poll 3, .tick 100, .poll 3, .edit ⟨"file:///a"⟩ 1,
    .tell .release, .poll 1, .poll 0, .dispose, .dispose]

/-- From the time at which the query waits to the end, the preload made two hits in its generation,
the failure was seen once, and the table was cleared by the change and by the end of the cache. -/
theorem snapshots_account_shared :
    ({} : Options).countsGenerations = true ∧
    Accounts (opening {} ({ held := true } : Canned.State)) (accounted.take 3) (accounted.drop 3)
      ((afterHeld accounted).counters.since (afterHeld (accounted.take 3)).counters) ∧
    (afterHeld (accounted.take 3)).counters = ⟨0, 2, 0, 0, 0⟩ ∧
    (afterHeld accounted).counters.since (afterHeld (accounted.take 3)).counters
      = ⟨2, 0, 1, 2, 1⟩ ∧
    trail sighted (afterHeld (accounted.take 3)) (accounted.drop 3) = [0] ∧
    (afterHeld accounted).outcome? 0
      = some (.failure "mock fetch failed for line 2 depth 0") :=
  ⟨rfl, snapshots_account _ _ (accounted.take 3) (accounted.drop 3) rfl, by decide +kernel,
    by decide +kernel, by decide +kernel, by decide +kernel⟩

end Engine

end CursorContext
