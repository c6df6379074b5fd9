import CursorContext.Proofs.Phase

/-!
# What happens to jobs

Jobs keep their numbers.  A poll changes the job that is polled, giving a client up changes the job
of that client, and everything else only adds jobs, which did nothing yet.  A timer is added by a
move of the cursor only, and is the one that is running then.

## Main definitions

* `Job.isFresh` — a driver or a client that did nothing yet.
* `Job.isQuery` — a query, which can be polled where no jobs can be started.
* `Grown a b` — `b` has the jobs of `a` and fresh ones behind them.
* `Engine.polled e background j` — what a poll makes of the job `j`.
* `Job.leave` — what giving its client up makes of a job.
* `Job.Unsettled` — a query that waits does so for a call.

## Main results

* `Action.Polls.grown` — a poll changes the job that is polled.
* `job_perform_cases` — the ways in which a job can come to be what it is after an action.
* `job_perform` — what becomes of a job in an action.
* `perform_of_not_ready` — a poll of a job that is not ready changes nothing.
-/

namespace CursorContext

/-- A driver or a client that did nothing yet. -/
def Job.isFresh : Job → Bool
  | .drive _ _ => true
  | .query _ _ .queued => true
  | .await _ _ .queued => true
  | _ => false

/-- A query. -/
def Job.isQuery : Job → Bool
  | .query _ _ _ => true
  | _ => false

/-- What giving its client up makes of a job. -/
def Job.leave : Job → Job
  | .query client r stage => .query client r stage.leave
  | .await client call stage => .await client call stage.leave
  | j => j

/-- Nothing but a timer is a timer after its client was given up. -/
theorem Job.eq_of_leave_eq_timer {token : Token} {due : Option Nat} {document : Uri}
    {position : Position} {j : Job} (h : .timer token due document position = j.leave) :
    j = .timer token due document position := by
  cases j with
  | timer => exact h.symm
  | drive => cases h
  | query => cases h
  | await => cases h
  | ended => cases h

/-- The jobs of `a` with fresh ones behind them. -/
def Grown (a b : Array Job) : Prop :=
  ∃ more : Array Job, b = a ++ more ∧ ∀ j ∈ more, j.isFresh = true

namespace Grown

variable {a b c : Array Job}

theorem refl (a : Array Job) : Grown a a := ⟨#[], by simp, by simp⟩

theorem of_eq (h : b = a) : Grown a b := h ▸ refl a

theorem trans (h : Grown a b) (k : Grown b c) : Grown a c := by
  obtain ⟨more, rfl, hfresh⟩ := h
  obtain ⟨more', rfl, hfresh'⟩ := k
  refine ⟨more ++ more', by rw [Array.append_assoc], ?_⟩
  intro j hj
  rcases Array.mem_append.mp hj with hj | hj
  · exact hfresh j hj
  · exact hfresh' j hj

theorem push {j : Job} (h : j.isFresh = true) (a : Array Job) : Grown a (a.push j) :=
  ⟨#[j], by simp, by simpa using h⟩

theorem setIfInBounds {i : Nat} (h : Grown a b) (hi : i < a.size) (j : Job) :
    Grown (a.setIfInBounds i j) (b.setIfInBounds i j) := by
  obtain ⟨more, rfl, hfresh⟩ := h
  exact ⟨more, Array.setIfInBounds_append_left hi, hfresh⟩

theorem getElem? {i : Nat} (h : Grown a b) (hi : i < a.size) : b[i]? = a[i]? := by
  obtain ⟨more, rfl, -⟩ := h
  exact Array.getElem?_append_left hi

/-- A job is an old one, or a fresh one behind them. -/
theorem cases {i : Nat} {j : Job} (h : Grown a b) (hj : b[i]? = some j) :
    a[i]? = some j ∨ a.size ≤ i ∧ j.isFresh = true := by
  rcases Nat.lt_or_ge i a.size with hi | hi
  · exact .inl (by rw [← h.getElem? hi]; exact hj)
  · obtain ⟨more, rfl, hfresh⟩ := h
    rw [Array.getElem?_append_right hi] at hj
    exact .inr ⟨hi, hfresh j (Array.mem_of_getElem? hj)⟩

end Grown

namespace Engine

variable {F : Fetcher} {e e' : Engine F}

/-! ### What adds no job -/

@[simp] theorem jobs_pollCall (e : Engine F) (i : Nat) : (e.pollCall i).1.jobs = e.jobs := by
  unfold pollCall
  split
  · rfl
  · split
    · rfl
    · split <;> rfl

@[simp] theorem jobs_pollHalf (e : Engine F) (h : Half) : (e.pollHalf h).1.jobs = e.jobs := by
  cases h with
  | settled items => rfl
  | waiting i =>
    have hjobs := jobs_pollCall e i
    rcases hp : e.pollCall i with ⟨e', outcome⟩
    rw [hp] at hjobs
    simp only [pollHalf, hp]
    rcases outcome with _ | ⟨found | cause⟩ <;> exact hjobs

@[simp] theorem jobs_stopWatch (e : Engine F) (r : Request) (before : Counters)
    (items : Option Nat) : (e.stopWatch r before items).jobs = e.jobs := by
  unfold stopWatch
  split <;> rfl

@[simp] theorem jobs_giveUp (e : Engine F) (r : Request) (stage : Stage) :
    (e.giveUp r stage).jobs = e.jobs := by
  unfold giveUp
  split
  · exact jobs_stopWatch e r _ _
  · rfl

@[simp] theorem jobs_resume (e : Engine F) (r : Request) (previous current : Half)
    (before : Counters) : (e.resume r previous current before).1.jobs = e.jobs := by
  unfold resume
  dsimp only
  split <;> simp

@[simp] theorem jobs_disarm (e : Engine F) : e.disarm.jobs = e.jobs := by
  unfold disarm
  split <;> rfl

@[simp] theorem jobs_dispose (e : Engine F) : e.dispose.jobs = e.jobs := by
  unfold dispose
  split
  · rfl
  · show (disarm _).jobs = _
    rw [jobs_disarm]
    rfl

@[simp] theorem jobs_reap (e : Engine F) : e.reap.jobs = e.jobs := by
  unfold reap
  split
  · rfl
  · exact jobs_dispose e

@[simp] theorem jobs_countGeneration (e : Engine F) : e.countGeneration.jobs = e.jobs := by
  unfold countGeneration
  split <;> rfl

/-! ### What adds jobs -/

/-- A lookup adds at most the driver of its call. -/
theorem grown_lookupPlanned (e : Engine F) (background : Bool) (stamp : Stamp) (key : Key) :
    Grown e.jobs (e.lookupPlanned background stamp key).1.jobs := by
  cases h : e.find? key with
  | some entry => simp only [lookupPlanned, lookup_of_some background stamp h]; exact .refl _
  | none =>
    simp only [lookupPlanned, lookup_of_none background stamp h, Bool.false_eq_true, if_false]
    cases background with
    | true => exact .push rfl _
    | false => exact .refl _

theorem grown_lookupKeys (e : Engine F) (background : Bool) (stamp : Stamp) (keys : List Key) :
    Grown e.jobs (e.lookupKeys background stamp keys).jobs := by
  induction keys generalizing e with
  | nil => exact .refl _
  | cons key rest ih =>
    rw [lookupKeys_cons]
    exact (grown_lookupPlanned e background stamp key).trans (ih _)

theorem grown_begin (e : Engine F) (background : Bool) (r : Request) :
    Grown e.jobs (e.begin background r).1.jobs := by
  unfold begin
  split
  · exact .refl _
  · dsimp only
    rw [jobs_resume, lookupPlan_fst]
    exact grown_lookupKeys (e.note _) background _ _

theorem grown_warm (e : Engine F) (background : Bool) (document : Uri) (position : Position) :
    Grown e.jobs (e.warm background document position).1.jobs := by
  cases h : e.isOver with
  | true =>
    rw [warm, if_pos h]
    exact .refl _
  | false =>
    rw [warm_of_not_isOver background document position h]
    have hjobs : e.nextGeneration.countGeneration.jobs = e.jobs := by
      rw [jobs_countGeneration]; rfl
    exact (Grown.of_eq hjobs).trans (grown_lookupKeys (note _ _) background _ _)

/-- A move of the cursor adds the timer that it starts, if it starts one. -/
theorem jobs_move (e : Engine F) (background : Bool) (document : Uri) (position : Position) :
    (e.move background document position).jobs = e.jobs ∨
      background = true ∧ ∃ token, (e.move background document position).armed = some token ∧
        (e.move background document position).jobs
          = e.jobs.push (.timer token none document position) := by
  unfold move
  split
  · exact .inl rfl
  · split
    · have hjobs : (e.arm document position).jobs
          = e.disarm.jobs.push (.timer (e.disarm.tokens.child e.disarm.generations.root).1
              none document position) := rfl
      rw [jobs_disarm] at hjobs
      exact .inr ⟨‹_›, _, rfl, hjobs⟩
    · exact .inl rfl

/-! ### Polls -/

/-- What a poll makes of a job; `background` says whether jobs can be started. -/
def polled (e : Engine F) (background : Bool) : Job → Job
  | .drive call token =>
    if (e.pollCall call).2.isSome || (e.pollCall call).1.isCancelled token then .ended
    else .drive call token
  | .timer token due document position =>
    if e.isCancelled token || e.deadline due ≤ e.now then .ended
    else .timer token (some (e.deadline due)) document position
  | .query client r .queued => .query client r (e.begin background r).2
  | .query client r (.waiting previous current before) =>
    .query client r (e.resume r previous current before).2
  | .query client r (.leaving _ _) => .query client r .abandoned
  | .await client call .queued =>
    match (e.pollCall call).2 with
    | some outcome => .await client call (.finished (.outcome outcome))
    | none => .await client call .queued
  | .await client call (.leaving _ _) => .await client call .abandoned
  | j => j

/-- Nothing but a timer is a timer after a poll, if it was not stopped and is not due; and the time
at which it is due is known then. -/
theorem polled_eq_timer_iff {background : Bool} {token : Token} {due : Option Nat}
    {document : Uri} {position : Position} {j : Job} :
    e.polled background j = .timer token due document position ↔
      ∃ due', j = .timer token due' document position ∧ due = some (e.deadline due') ∧
        ¬ (e.isCancelled token = true ∨ e.deadline due' ≤ e.now) := by
  constructor
  · intro h
    cases j with
    | timer =>
      simp only [polled] at h
      split at h
      · cases h
      · next hnot =>
        cases h
        exact ⟨_, rfl, rfl, by simpa using hnot⟩
    | drive =>
      simp only [polled] at h
      split at h <;> cases h
    | query client r stage => cases stage <;> cases h
    | await client call stage =>
      cases stage <;> simp only [polled] at h
      · split at h <;> cases h
      all_goals cases h
    | ended => cases h
  · rintro ⟨due', rfl, rfl, hnot⟩
    rw [polled, if_neg (by simpa using hnot)]

theorem setIfInBounds_self {a : Array Job} {i : Nat} {j : Job} (h : a[i]? = some j) :
    a.setIfInBounds i j = a := by
  refine Array.ext_getElem? fun k => ?_
  rw [Array.getElem?_setIfInBounds]
  split
  · next hik =>
    subst hik
    rw [if_pos (Array.getElem?_eq_some_iff.mp h).1, h]
  · rfl

theorem getElem?_setIfInBounds_cases {a : Array Job} {i k : Nat} {j x : Job}
    (h : (a.setIfInBounds k x)[i]? = some j) : a[i]? = some j ∨ (k = i ∧ j = x) := by
  rw [Array.getElem?_setIfInBounds] at h
  split at h
  · next hki =>
    split at h
    · exact .inr ⟨hki, (Option.some.inj h).symm⟩
    · cases h
  · exact .inl h

theorem poll_of_none {i : Nat} (h : e.jobs[i]? = none) : e.poll i = e := by
  simp only [poll, h]

/-- A query that is polled is put back as the poll left it, and the cache may come to its end. -/
theorem grown_settle {d : Engine F} {i : Nat} (hi : i < e.jobs.size) (h : Grown e.jobs d.jobs)
    (j : Job) : Grown (e.jobs.setIfInBounds i j) (d.setJob i j).reap.jobs := by
  rw [jobs_reap]
  exact h.setIfInBounds hi j

theorem grown_pollQuery {i client : Nat} {r : Request} {stage : Stage}
    (h : e.jobs[i]? = some (.query client r stage)) (background : Bool) :
    Grown (e.jobs.setIfInBounds i (e.polled background (.query client r stage)))
      (e.pollQuery background i client r stage).jobs := by
  have hi : i < e.jobs.size := (Array.getElem?_eq_some_iff.mp h).1
  cases stage with
  | queued => exact grown_settle hi (grown_begin e background r) _
  | waiting previous current before =>
    exact grown_settle hi (.of_eq (jobs_resume e r previous current before)) _
  | leaving held before => exact grown_settle hi (.of_eq (jobs_giveUp e r _)) _
  | finished answer => exact .of_eq (setIfInBounds_self h).symm
  | abandoned => exact .of_eq (setIfInBounds_self h).symm

theorem grown_pollTimer (e : Engine F) (background : Bool) (i : Nat) (token : Token)
    (due : Option Nat) (document : Uri) (position : Position) :
    Grown (e.jobs.setIfInBounds i (e.polled background (.timer token due document position)))
      (e.pollTimer i token due document position).jobs := by
  simp only [pollTimer, polled]
  by_cases hwoken : (e.isCancelled token || decide (e.deadline due ≤ e.now)) = true
  · rw [if_pos hwoken, if_pos hwoken, elapse]
    split
    · exact .refl _
    · exact grown_warm { e.setJob i .ended with armed := none } true document position
  · rw [if_neg hwoken, if_neg hwoken]
    exact .refl _

theorem jobs_pollDriver {i call : Nat} {token : Token}
    (h : e.jobs[i]? = some (.drive call token)) (background : Bool) :
    (e.pollDriver i call token).jobs
      = e.jobs.setIfInBounds i (e.polled background (.drive call token)) := by
  simp only [pollDriver, polled]
  split
  · show (e.pollCall call).1.jobs.setIfInBounds i .ended = _
    rw [jobs_pollCall]
  · rw [jobs_pollCall, setIfInBounds_self h]

theorem jobs_pollAwait {i client call : Nat} {stage : Stage}
    (h : e.jobs[i]? = some (.await client call stage)) (background : Bool) :
    (e.pollAwait i client call stage).jobs
      = e.jobs.setIfInBounds i (e.polled background (.await client call stage)) := by
  cases stage with
  | queued =>
    have hjobs := jobs_pollCall e call
    rcases hp : e.pollCall call with ⟨d, outcome⟩
    rw [hp] at hjobs
    simp only [pollAwait, polled, hp]
    cases outcome with
    | some outcome =>
      show d.jobs.setIfInBounds i _ = _
      rw [hjobs]
    | none =>
      show d.jobs = _
      rw [hjobs, setIfInBounds_self h]
  | waiting previous current before => exact (setIfInBounds_self h).symm
  | leaving held before => rfl
  | finished answer => exact (setIfInBounds_self h).symm
  | abandoned => exact (setIfInBounds_self h).symm

/-- **A poll changes the job that is polled**, and adds fresh ones. -/
theorem grown_poll {i : Nat} {j : Job} (h : e.jobs[i]? = some j) :
    Grown (e.jobs.setIfInBounds i (e.polled true j)) (e.poll i).jobs := by
  cases j with
  | drive call token => rw [poll, h]; exact .of_eq (jobs_pollDriver h true)
  | timer token due document position => rw [poll, h]; exact grown_pollTimer e true i _ _ _ _
  | query client r stage => rw [poll, h]; exact grown_pollQuery h true
  | await client call stage => rw [poll, h]; exact .of_eq (jobs_pollAwait h true)
  | ended =>
    rw [poll, h]
    exact .of_eq (setIfInBounds_self h).symm

/-- So it is outside, where nothing but queries is polled. -/
theorem Action.Polls.grown {a : Action F} {background : Bool} {i : Nat} {j : Job}
    (ha : a.Polls i background) (h : e.jobs[i]? = some j) :
    e.perform a = e ∨ (background = false → j.isQuery = true) ∧
      Grown (e.jobs.setIfInBounds i (e.polled background j)) (e.perform a).jobs := by
  cases ha with
  | inside => exact .inr ⟨by simp, grown_poll h⟩
  | outside =>
    rcases e.pollOutside_cases i with hsame | ⟨client, r, stage, hj⟩
    · exact .inl hsame
    · right
      rw [h, Option.some.injEq] at hj
      subst hj
      rw [(Action.Polls.outside i).perform_query h]
      exact ⟨fun _ => rfl, grown_pollQuery h false⟩

theorem getElem?_of_grown {i : Nat} {j : Job} {b : Array Job} (hi : i < e.jobs.size)
    (h : Grown (e.jobs.setIfInBounds i j) b) : b[i]? = some j := by
  rw [h.getElem? (by simpa using hi), Array.getElem?_setIfInBounds_self_of_lt hi]

/-- What a poll makes of the job that is polled. -/
theorem jobs_poll {i : Nat} {j : Job} (h : e.jobs[i]? = some j) :
    (e.poll i).jobs[i]? = some (e.polled true j) :=
  getElem?_of_grown (Array.getElem?_eq_some_iff.mp h).1 (grown_poll h)

/-- What a poll makes of a query. -/
theorem Action.Polls.jobs_query {a : Action F} {background : Bool} {i client : Nat} {r : Request}
    {stage : Stage} (ha : a.Polls i background) (h : e.jobs[i]? = some (.query client r stage)) :
    (e.perform a).jobs[i]? = some (e.polled background (.query client r stage)) := by
  rw [ha.perform_query h]
  exact getElem?_of_grown (Array.getElem?_eq_some_iff.mp h).1 (grown_pollQuery h background)

/-- A poll makes the same of a job wherever it is polled, unless it is not polled there. -/
theorem Action.Polls.jobs_or_idle {a : Action F} {background : Bool} {i : Nat} {j : Job}
    (ha : a.Polls i background) (h : e.jobs[i]? = some j) :
    (e.perform a).jobs[i]? = some (e.polled background j) ∨
      e.perform a = e ∧ j.isQuery = false := by
  cases ha with
  | inside => exact .inl (jobs_poll h)
  | outside =>
    cases j with
    | query client r stage => exact .inl ((Action.Polls.outside i).jobs_query h)
    | _ => exact .inr ⟨by rw [perform, Engine.pollOutside, h], rfl⟩

theorem Action.Polls.perform_of_none {a : Action F} {background : Bool} {i : Nat}
    (ha : a.Polls i background) (h : e.jobs[i]? = none) : e.perform a = e := by
  cases ha with
  | inside => exact poll_of_none h
  | outside => simp only [perform, Engine.pollOutside, h]

/-! ### Actions -/

theorem jobs_abandonJob {i : Nat} {j : Job} (h : e.jobs[i]? = some j) :
    (e.abandonJob i).jobs = e.jobs.setIfInBounds i j.leave := by
  cases j with
  | query client r stage => rw [abandonJob, h]; rfl
  | await client call stage => rw [abandonJob, h]; rfl
  | drive call token => rw [abandonJob, h]; exact (setIfInBounds_self h).symm
  | timer token due document position => rw [abandonJob, h]; exact (setIfInBounds_self h).symm
  | ended => rw [abandonJob, h]; exact (setIfInBounds_self h).symm

/-- Every action but polls, giving a client up and moving the cursor only adds fresh jobs. -/
theorem grown_perform (e : Engine F) (a : Action F) (hpoll : ∀ i background, ¬ a.Polls i background)
    (habandon : ∀ client, a ≠ .abandon client)
    (hmove : ∀ background document position, a ≠ .move background document position) :
    Grown e.jobs (e.perform a).jobs := by
  cases a with
  | move background document position => exact absurd rfl (hmove background document position)
  | query r => exact .push rfl _
  | ask r =>
    show Grown e.jobs (e.ask r).1.jobs
    rw [ask]
    dsimp only
    rw [jobs_giveUp]
    exact grown_begin e false r
  | await call => exact .push rfl _
  | abandon client => exact absurd rfl (habandon client)
  | dispose => exact .of_eq (jobs_dispose e)
  | letGo => exact .of_eq (jobs_reap { e with held := false })
  | warm background document position => exact grown_warm e _ _ _
  | disarm => exact .of_eq (jobs_disarm e)
  | poll i => exact absurd (.inside i) (hpoll i true)
  | pollOutside i => exact absurd (.outside i) (hpoll i false)
  | edit _ _ => exact .refl _
  | clear => exact .refl _
  | cancelRoot => exact .refl _
  | tell _ => exact .refl _
  | tick _ => exact .refl _

/-- **The ways in which a job can come to be what it is after an action**: it was so before, it is
new, it is the timer that is running since then, its client was given up, or it was polled. -/
theorem job_perform_cases {a : Action F} {i : Nat} {j : Job}
    (h : (e.perform a).jobs[i]? = some j) :
    e.jobs[i]? = some j ∨
    (e.jobs.size ≤ i ∧ j.isFresh = true) ∨
    (∃ token document position, j = .timer token none document position ∧
      a = .move true document position ∧ (e.perform a).armed = some token) ∨
    (∃ old, e.jobs[i]? = some old ∧ j = old.leave) ∨
    (∃ background old, a.Polls i background ∧ e.jobs[i]? = some old ∧
      (background = false → old.isQuery = true) ∧ j = e.polled background old) := by
  -- three kinds of actions do more than adding fresh jobs, each in its own way
  by_cases hpoll : ∃ k background, a.Polls k background
  · obtain ⟨k, background, ha⟩ := hpoll
    cases hk : e.jobs[k]? with
    | none => exact .inl (by rw [ha.perform_of_none hk] at h; exact h)
    | some old =>
      rcases ha.grown hk with hsame | ⟨hquery, hgrown⟩
      · exact .inl (by rw [hsame] at h; exact h)
      rcases hgrown.cases h with h | ⟨hi, hfresh⟩
      · rcases getElem?_setIfInBounds_cases h with h | ⟨rfl, rfl⟩
        · exact .inl h
        · exact .inr (.inr (.inr (.inr ⟨background, old, ha, hk, hquery, rfl⟩)))
      · exact .inr (.inl ⟨by simpa using hi, hfresh⟩)
  by_cases habandon : ∃ client, a = .abandon client
  · obtain ⟨client, rfl⟩ := habandon
    rw [perform, abandon] at h
    split at h
    · next k _ =>
      cases hk : e.jobs[k]? with
      | none => rw [abandonJob, hk] at h; exact .inl h
      | some old =>
        rw [jobs_abandonJob hk] at h
        rcases getElem?_setIfInBounds_cases h with h | ⟨rfl, rfl⟩
        · exact .inl h
        · exact .inr (.inr (.inr (.inl ⟨old, hk, rfl⟩)))
    · exact .inl h
  by_cases hmove : ∃ background document position, a = .move background document position
  · obtain ⟨background, document, position, rfl⟩ := hmove
    rw [perform] at h ⊢
    rcases jobs_move e background document position with hjobs | ⟨rfl, token, harmed, hjobs⟩
    · rw [hjobs] at h
      exact .inl h
    · rw [hjobs, Array.getElem?_push] at h
      split at h
      · cases h
        exact .inr (.inr (.inl ⟨token, document, position, rfl, rfl, harmed⟩))
      · exact .inl h
  · have hgrown := grown_perform e a (fun k background hk => hpoll ⟨k, background, hk⟩)
      (fun client hc => habandon ⟨client, hc⟩) (fun b d p hm => hmove ⟨b, d, p, hm⟩)
    rcases hgrown.cases h with h | h
    · exact .inl h
    · exact .inr (.inl h)

/-- **What becomes of a job in an action**: it stays as it is, its client is given up, or it is
polled. -/
theorem job_perform {i : Nat} {j : Job} (h : e.jobs[i]? = some j) (a : Action F) :
    (e.perform a).jobs[i]? = some j ∨
    ((∃ client, a = .abandon client) ∧ (e.perform a).jobs[i]? = some j.leave) ∨
    (∃ background, a.Polls i background ∧ (background = false → j.isQuery = true) ∧
      (e.perform a).jobs[i]? = some (e.polled background j)) := by
  have hi : i < e.jobs.size := (Array.getElem?_eq_some_iff.mp h).1
  by_cases hpoll : ∃ k background, a.Polls k background
  · obtain ⟨k, background, ha⟩ := hpoll
    cases hk : e.jobs[k]? with
    | none =>
      left
      rw [ha.perform_of_none hk]
      exact h
    | some other =>
      rcases ha.grown hk with hsame | ⟨hquery, hgrown⟩
      · left
        rw [hsame]
        exact h
      by_cases hki : k = i
      · subst hki
        rw [h, Option.some.injEq] at hk
        subst hk
        exact .inr (.inr ⟨background, ha, hquery, getElem?_of_grown hi hgrown⟩)
      · -- the poll of another job changes that one only
        left
        rw [hgrown.getElem? (by simpa using hi), Array.getElem?_setIfInBounds, if_neg hki]
        exact h
  by_cases habandon : ∃ client, a = .abandon client
  · obtain ⟨client, rfl⟩ := habandon
    rw [perform, abandon]
    split
    · next k _ =>
      cases hk : e.jobs[k]? with
      | none => left; rw [abandonJob, hk]; exact h
      | some other =>
        rw [jobs_abandonJob hk, Array.getElem?_setIfInBounds]
        split
        · next hki =>
          subst hki
          rw [h, Option.some.injEq] at hk
          subst hk
          exact .inr (.inl ⟨⟨client, rfl⟩, if_pos hi⟩)
        · exact .inl h
    · exact .inl h
  by_cases hmove : ∃ background document position, a = .move background document position
  · obtain ⟨background, document, position, rfl⟩ := hmove
    left
    rw [perform]
    rcases jobs_move e background document position with hjobs | ⟨-, token, -, hjobs⟩
    · rw [hjobs]; exact h
    · rw [hjobs, Array.getElem?_push, if_neg (Nat.ne_of_lt hi)]
      exact h
  · left
    have hgrown := grown_perform e a (fun k background hk => hpoll ⟨k, background, hk⟩)
      (fun client hc => habandon ⟨client, hc⟩) (fun b d p hm => hmove ⟨b, d, p, hm⟩)
    rw [hgrown.getElem? hi]
    exact h

end Engine

/-! ### Jobs that are not ready

A job may be polled at any time, also if nothing woke it.  Unless it is ready, nothing comes of
that. -/

/-- A query that waits does so for a call. -/
def Job.Unsettled : Job → Prop
  | .query _ _ (.waiting previous current _) => previous.call?.isSome ∨ current.call?.isSome
  | _ => True

/-- Of two halves one waits, unless both are settled. -/
theorem Half.isSome_or_isSome {previous current : Half}
    (h : ∀ above here, previous = .settled above → current = .settled here → False) :
    previous.call?.isSome ∨ current.call?.isSome := by
  cases previous with
  | waiting call => exact .inl rfl
  | settled above =>
    cases current with
    | waiting call => exact .inr rfl
    | settled here => exact (h above here rfl rfl).elim

theorem Job.unsettled_leave {j : Job} (h : j.Unsettled) : j.leave.Unsettled := by
  cases j with
  | query client r stage =>
    cases stage with
    | waiting previous current before => trivial
    | _ => exact h
  | _ => exact h

theorem Job.unsettled_of_isFresh {j : Job} (h : j.isFresh = true) : j.Unsettled := by
  cases j with
  | query client r stage =>
    cases stage with
    | waiting previous current before => cases h
    | _ => trivial
  | _ => trivial

namespace Engine

variable {F : Fetcher} {e : Engine F}

theorem unsettled_resume (e : Engine F) (client : Nat) (r : Request) (previous current : Half)
    (before : Counters) :
    (Job.query client r (e.resume r previous current before).2).Unsettled := by
  unfold resume
  dsimp only
  split
  · trivial
  · next hnot => exact Half.isSome_or_isSome hnot

theorem unsettled_begin (e : Engine F) (background : Bool) (client : Nat) (r : Request) :
    (Job.query client r (e.begin background r).2).Unsettled := by
  unfold begin
  split
  · trivial
  · exact unsettled_resume _ client r _ _ _

theorem unsettled_polled (e : Engine F) (background : Bool) {j : Job} (h : j.Unsettled) :
    (e.polled background j).Unsettled := by
  cases j with
  | drive call token => simp only [polled]; split <;> trivial
  | timer token due document position => simp only [polled]; split <;> trivial
  | query client r stage =>
    cases stage with
    | queued => exact unsettled_begin e background client r
    | waiting previous current before => exact unsettled_resume e client r previous current before
    | leaving held before => trivial
    | finished answer => exact h
    | abandoned => exact h
  | await client call stage =>
    cases stage with
    | queued => simp only [polled]; split <;> trivial
    | leaving held before => trivial
    | _ => exact h
  | ended => exact h

/-- In every run of an engine without jobs, the queries that wait do so for a call. -/
theorem unsettled_run (hjobs : ∀ (i : Nat) (j : Job), e.jobs[i]? = some j → j.Unsettled)
    (actions : List (Action F)) {i : Nat} {j : Job} (h : (e.run actions).jobs[i]? = some j) :
    j.Unsettled := by
  induction actions generalizing e with
  | nil => exact hjobs i j h
  | cons a rest ih =>
    refine ih (fun i j hj => ?_) h
    rcases job_perform_cases hj with hj | ⟨-, hfresh⟩ | ⟨_, _, _, rfl, -, -⟩ | ⟨old, hold, rfl⟩ |
      ⟨background, old, -, hold, -, rfl⟩
    · exact hjobs i j hj
    · exact Job.unsettled_of_isFresh hfresh
    · trivial
    · exact Job.unsettled_leave (hjobs i old hold)
    · exact unsettled_polled e background (hjobs i old hold)

theorem pollCall_of_not_ready {call : Nat} (h : e.callReady call = false) :
    e.pollCall call = (e, none) := by
  cases hc : e.calls[call]? with
  | none => simp only [pollCall, hc]
  | some c =>
    simp only [callReady, hc] at h
    cases hs : c.status with
    | resolved outcome =>
      rw [hs] at h
      cases h
    | pending flight =>
      simp only [hs] at h
      cases hp : F.poll e.fetcher e.now (e.isCancelled c.stamp.token) flight with
      | blocked => simp only [pollCall, hc, hs, hp]
      | moved flight' =>
        rw [hp] at h
        cases h
      | resolved outcome =>
        rw [hp] at h
        cases h

theorem pollHalf_of_not_ready {half : Half} (h : e.halfReady half = false) :
    e.pollHalf half = (e, half) := by
  cases half with
  | settled items => rfl
  | waiting call => rw [pollHalf, pollCall_of_not_ready h]

theorem setJob_self {i : Nat} {j : Job} (h : e.jobs[i]? = some j) : e.setJob i j = e := by
  rw [setJob, setIfInBounds_self h]

/-- A query that is not over keeps the cache from coming to its end. -/
theorem reap_of_isOpenQuery {i : Nat} {j : Job} (h : e.jobs[i]? = some j)
    (hopen : j.isOpenQuery = true) : e.reap = e := by
  have halive : e.isAlive = true := by
    rw [isAlive, Bool.or_eq_true]
    exact .inr (List.any_eq_true.mpr ⟨j, Array.mem_toList_iff.mpr (Array.mem_of_getElem? h), hopen⟩)
  rw [reap, if_pos halive]

theorem pollQuery_of_not_ready {i client : Nat} {r : Request} {stage : Stage} (background : Bool)
    (hj : e.jobs[i]? = some (.query client r stage))
    (hunsettled : (Job.query client r stage).Unsettled) (h : e.ready i = false) :
    e.pollQuery background i client r stage = e := by
  simp only [ready, hj] at h
  cases stage with
  | queued => cases h
  | leaving held before => cases h
  | finished answer => rfl
  | abandoned => rfl
  | waiting previous current before =>
    obtain ⟨hp, hc⟩ := Bool.or_eq_false_iff.mp h
    have hresume : e.resume r previous current before = (e, .waiting previous current before) := by
      simp only [resume, pollHalf_of_not_ready hp, pollHalf_of_not_ready hc]
      split
      · rcases hunsettled with hcall | hcall <;> cases hcall
      · rfl
    simp only [pollQuery, hresume]
    rw [setJob_self hj, reap_of_isOpenQuery hj rfl]

/-- A poll of a job that is not ready changes nothing, if a query that waits does so for a call. -/
theorem poll_of_not_ready {i : Nat} (hjobs : ∀ j, e.jobs[i]? = some j → j.Unsettled)
    (h : e.ready i = false) : e.poll i = e := by
  cases hj : e.jobs[i]? with
  | none => exact poll_of_none hj
  | some j =>
    cases j with
    | drive call token =>
      simp only [ready, hj, Bool.or_eq_false_iff] at h
      simp only [poll, hj, pollDriver, pollCall_of_not_ready h.1, h.2]
      rfl
    | timer token due document position =>
      cases due with
      | none =>
        simp only [ready, hj] at h
        cases h
      | some time =>
        simp only [ready, hj, Bool.or_eq_false_iff, decide_eq_false_iff_not, Nat.not_le] at h
        rw [poll_timer_early hj h.1 h.2, deadline_some, setJob_self hj]
    | query client r stage =>
      rw [poll, hj]
      exact pollQuery_of_not_ready true hj (hjobs _ hj) h
    | await client call stage =>
      cases stage with
      | queued =>
        simp only [ready, hj] at h
        simp only [poll, hj, pollAwait, pollCall_of_not_ready h]
      | leaving held before =>
        simp only [ready, hj] at h
        cases h
      | _ => rw [poll, hj]; rfl
    | ended => rw [poll, hj]

/-- **In a run, a poll of a job that is not ready changes nothing**, wherever it is made. -/
theorem perform_of_not_ready (options : Options) (world : F.State) (actions : List (Action F))
    {a : Action F} {background : Bool} {i : Nat} (ha : a.Polls i background)
    (h : ((opening options world).run actions).ready i = false) :
    ((opening options world).run actions).perform a = (opening options world).run actions := by
  have hjobs : ∀ j, ((opening options world).run actions).jobs[i]? = some j → j.Unsettled :=
    fun _ => unsettled_run (e := opening options world) (fun _ _ hj => by cases hj) actions
  cases ha with
  | inside => exact poll_of_not_ready hjobs h
  | outside =>
    rw [perform]
    rcases pollOutside_cases ((opening options world).run actions) i with hsame | ⟨_, _, _, hj⟩
    · exact hsame
    · rw [Engine.pollOutside, hj]
      exact pollQuery_of_not_ready false hj (hjobs _ hj) h

end Engine

end CursorContext
