import CursorContext.Proofs.Accounts
import CursorContext.Proofs.Superseded
import CursorContext.Proofs.Unattended

/-!
# Calls that nobody holds on to

A call that is on its way is held by its entry, by its driver, by the queries that wait for it, and
by whoever keeps its entry outside of the cache.  Each of them lets go at a time of its own: the
entry when the table is cleared, the driver when it finds its token cancelled, and a query when the
call is back or when the query is given up.  Where nothing is ready, everybody has let go who will.

The invariant is about the drivers: there is one only for a call that was made where jobs can be
started, and it looks at the token of that call.

## Main definitions

* `Engine.Crewed` — every job from a number on is the driver of a call from a number on.
* `Engine.StartedInside` — a call was made where jobs can be started.
* `Engine.WaitsFor`, `Engine.HeldOutside` — who holds on to a call besides entries and drivers.
* `Engine.Release start actions kept` — which calls are alive after a run.

## Main results

* `new_job_cases` — where new jobs come from.
* `driver_run_origin`, `driven_iff` — what drivers there are in a run.
* `live_iff` — who holds on to a call whose entry is gone.
* `abandoned_calls_are_released` — where nothing is ready, a call is alive exactly if somebody who
  is named holds on to it.
-/

namespace CursorContext

/-- Nothing but a driver is a driver after its client was given up. -/
theorem Job.eq_of_leave_eq_drive {call : Nat} {token : Token} {j : Job}
    (h : .drive call token = j.leave) : j = .drive call token := by
  cases j <;> cases h
  rfl

/-- What a query waits for, it holds on to. -/
theorem Job.waits_subset_calls (j : Job) : j.waits ⊆ j.calls := by
  cases j with
  | query client r stage =>
    cases stage with
    | waiting previous current before => exact List.Subset.refl _
    | _ => exact List.nil_subset _
  | _ => exact List.nil_subset _

namespace Engine

variable {F : Fetcher} {e e' : Engine F} {i job : Nat} {token : Token}

/-! ### Where jobs come from -/

/-- Every job from a number on is the driver of a call from a number on, and there is none where
jobs cannot be started. -/
def Crewed (e : Engine F) (background : Bool) (calls jobs : Nat) : Prop :=
  ∀ (job : Nat) (j : Job), jobs ≤ job → e.jobs[job]? = some j →
    background = true ∧ ∃ i key stamp, j = .drive i stamp.token ∧ calls ≤ i ∧
      e.idents[i]? = some (key, stamp)

namespace Crewed

variable {background : Bool} {calls jobs : Nat}

/-- Where no job is new there is no driver. -/
theorem of_size (h : e.jobs.size ≤ jobs) : e.Crewed background calls jobs := by
  intro job j hle hj
  have hlt := (Array.getElem?_eq_some_iff.mp hj).1
  omega

theorem of_eq (h : e.Crewed background calls jobs) (hi : e'.idents = e.idents)
    (hj : e'.jobs = e.jobs) : e'.Crewed background calls jobs := by
  intro job j hle hjob
  rw [hj] at hjob
  rw [hi]
  exact h job j hle hjob

/-- The jobs that were there before may change. -/
theorem setJob (h : e.Crewed background calls jobs) (hjob : job < jobs) (j : Job) :
    (e.setJob job j).Crewed background calls jobs := by
  intro k j' hle hj
  rcases getElem?_setIfInBounds_cases hj with hj | ⟨rfl, -⟩
  · exact h k j' hle hj
  · omega

/-- A lookup adds the driver of the call that it makes, if any. -/
theorem lookupPlanned (h : e.Crewed background calls jobs) (hcalls : calls ≤ e.calls.size)
    (stamp : Stamp) (key : Key) :
    (e.lookupPlanned background stamp key).1.Crewed background calls jobs := by
  cases hfind : e.find? key with
  | some entry =>
    simp only [Engine.lookupPlanned, lookup_of_some background stamp hfind, if_true]
    exact h.of_eq rfl rfl
  | none =>
    have hidents := getElem?_idents_missed_size e stamp key
    -- the drivers that were there go on to drive calls that are there
    have hold : (e.missed stamp key).Crewed background calls jobs := by
      intro k j hle hj
      obtain ⟨hin, i, key', stamp', rfl, hi, hident⟩ := h k j hle hj
      exact ⟨hin, i, key', stamp', rfl, hi, getElem?_idents_missed hident stamp key⟩
    simp only [Engine.lookupPlanned, lookup_of_none background stamp hfind, Bool.false_eq_true,
      if_false]
    cases background with
    | false => exact hold.of_eq rfl rfl
    | true =>
      intro k j hle hj
      have hj' : (e.jobs.push (.drive e.calls.size stamp.token))[k]? = some j := hj
      rw [Array.getElem?_push] at hj'
      split at hj'
      · cases hj'
        exact ⟨rfl, e.calls.size, key, stamp, rfl, hcalls, hidents⟩
      · exact hold k j hle hj'

theorem lookupKeys (h : e.Crewed background calls jobs) (hcalls : calls ≤ e.calls.size)
    (stamp : Stamp) (keys : List Key) :
    (e.lookupKeys background stamp keys).Crewed background calls jobs := by
  induction keys generalizing e with
  | nil => exact h
  | cons key rest ih =>
    rw [lookupKeys_cons]
    have hgrows := (lookup_lookupPlanned e background stamp key).still.carries.size_le
    exact ih (h.lookupPlanned hcalls stamp key) (Nat.le_trans hcalls hgrows)

end Crewed

theorem crewed_begin (e : Engine F) (background : Bool) (r : Request) :
    (e.begin background r).1.Crewed background e.calls.size e.jobs.size := by
  unfold begin
  split
  · exact .of_size (Nat.le_refl _)
  · dsimp only
    refine Crewed.of_eq ?_ (quiet_resume _ r _ _ _).idents_eq (jobs_resume _ r _ _ _)
    rw [lookupPlan_fst]
    exact Crewed.lookupKeys (.of_size (Nat.le_refl _)) (Nat.le_refl _) _ _

theorem crewed_warm (e : Engine F) (background : Bool) (document : Uri) (position : Position) :
    (e.warm background document position).1.Crewed background e.calls.size e.jobs.size := by
  cases h : e.isOver with
  | true =>
    rw [warm, if_pos h]
    exact .of_size (Nat.le_refl _)
  | false =>
    rw [warm_of_not_isOver background document position h]
    have hcalls := size_of_idents_eq (idents_nextGeneration e)
    have hjobs : e.nextGeneration.countGeneration.jobs = e.jobs := by
      rw [jobs_countGeneration]; rfl
    have hnone : (e.nextGeneration.countGeneration.note (.preloading document position.line
        e.nextGeneration.countGeneration.generations.current.id)).Crewed background
          e.calls.size e.jobs.size :=
      .of_size (Nat.le_of_eq (congrArg Array.size hjobs))
    exact hnone.lookupKeys (Nat.le_of_eq hcalls.symm) _ _

/-- Only the first poll of a query looks anything up. -/
theorem crewed_pollQuery {a : Action F} {background : Bool} {client : Nat} {r : Request}
    {stage : Stage} (ha : a.Polls job background)
    (hj : e.jobs[job]? = some (.query client r stage)) :
    (e.perform a).Crewed background e.calls.size e.jobs.size := by
  have hlt : job < e.jobs.size := (Array.getElem?_eq_some_iff.mp hj).1
  have hput : ∀ (d : Engine F) (j : Job), d.jobs = e.jobs →
      (d.setJob job j).reap.Crewed background e.calls.size e.jobs.size := by
    intro d j hjobs
    refine .of_size (Nat.le_of_eq ?_)
    rw [jobs_reap]
    exact Array.size_setIfInBounds.trans (congrArg Array.size hjobs)
  cases stage with
  | queued =>
    rw [ha.perform_queued hj]
    exact ((crewed_begin e background r).setJob hlt _).of_eq (idents_reap _) (jobs_reap _)
  | waiting previous current before =>
    rw [ha.perform_waiting hj]
    exact hput _ _ (jobs_resume e r previous current before)
  | leaving held before => rw [ha.perform_query hj]; exact hput _ _ (jobs_giveUp e r _)
  | finished answer => rw [ha.perform_query hj]; exact .of_size (Nat.le_refl _)
  | abandoned => rw [ha.perform_query hj]; exact .of_size (Nat.le_refl _)

theorem crewed_pollOutside (e : Engine F) (job : Nat) :
    (e.pollOutside job).Crewed false e.calls.size e.jobs.size := by
  rcases e.pollOutside_cases job with hsame | ⟨client, r, stage, hj⟩
  · rw [hsame]
    exact .of_size (Nat.le_refl _)
  · exact crewed_pollQuery (.outside job) hj

theorem crewed_poll (e : Engine F) (job : Nat) :
    (e.poll job).Crewed true e.calls.size e.jobs.size := by
  cases hj : e.jobs[job]? with
  | none => rw [poll_of_none hj]; exact .of_size (Nat.le_refl _)
  | some j =>
    cases j with
    | drive call token =>
      rw [poll, hj]
      refine .of_size (Nat.le_of_eq ?_)
      rw [jobs_pollDriver hj true, Array.size_setIfInBounds]
    | await client call stage =>
      rw [poll, hj]
      refine .of_size (Nat.le_of_eq ?_)
      rw [jobs_pollAwait hj true, Array.size_setIfInBounds]
    | ended => rw [poll, hj]; exact .of_size (Nat.le_refl _)
    | timer token due document position =>
      rw [poll, hj]
      unfold pollTimer elapse
      dsimp only
      have hput : ∀ j, (e.setJob job j).jobs.size ≤ e.jobs.size :=
        fun j => Nat.le_of_eq Array.size_setIfInBounds
      split
      · split
        · exact .of_size (hput _)
        · have hwarm :=
            crewed_warm { e.setJob job .ended with armed := none } true document position
          simpa only [Engine.setJob, Array.size_setIfInBounds] using hwarm
      · exact .of_size (hput _)
    | query client r stage => exact crewed_pollQuery (.inside job) hj

/-- **Where new jobs come from**: a new job is the driver of a new call, where jobs can be started,
or a client that was just made, or the timer of a move. -/
theorem new_job_cases {a : Action F} {j : Job} (hnew : e.jobs.size ≤ job)
    (hj : (e.perform a).jobs[job]? = some j) :
    (a.isInside = true ∧ ∃ i key stamp, j = .drive i stamp.token ∧ e.calls.size ≤ i ∧
      (e.perform a).idents[i]? = some (key, stamp)) ∨
    (∃ client r, a = .query r ∧ j = .query client r .queued) ∨
    (∃ client call, a = .await call ∧ j = .await client call .queued) ∨
    ∃ token document position, j = .timer token none document position := by
  -- where there are no more jobs than before, none is new
  have hnone : (e.perform a).jobs.size ≤ e.jobs.size → False := by
    intro hsize
    have hlt := (Array.getElem?_eq_some_iff.mp hj).1
    omega
  have hpushed : ∀ {j' : Job}, (e.perform a).jobs = e.jobs.push j' → j = j' := by
    intro j' hjobs
    rw [hjobs, Array.getElem?_push] at hj
    split at hj
    · exact (Option.some.inj hj).symm
    · have hlt := (Array.getElem?_eq_some_iff.mp hj).1
      omega
  cases a with
  | poll k => exact .inl ⟨rfl, (crewed_poll e k job j hnew hj).2⟩
  | pollOutside k => cases (crewed_pollOutside e k job j hnew hj).1
  | warm background document position =>
    exact .inl (crewed_warm e background document position job j hnew hj)
  | ask r =>
    have hasked : (e.ask r).1.Crewed false e.calls.size e.jobs.size :=
      (crewed_begin e false r).of_eq (quiet_giveUp _ r _).idents_eq (jobs_giveUp _ r _)
    cases (hasked job j hnew hj).1
  | query r => exact .inr (.inl ⟨_, r, rfl, hpushed rfl⟩)
  | await call => exact .inr (.inr (.inl ⟨_, call, rfl, hpushed rfl⟩))
  | move background document position =>
    rcases jobs_move e background document position with hjobs | ⟨-, token, -, hjobs⟩
    · exact (hnone (Nat.le_of_eq (congrArg Array.size hjobs))).elim
    · exact .inr (.inr (.inr ⟨token, document, position, hpushed hjobs⟩))
  | abandon client =>
    refine (hnone (Nat.le_of_eq ?_)).elim
    show (e.abandon client).jobs.size = _
    unfold abandon
    split
    · next k _ =>
      cases hk : e.jobs[k]? with
      | none => rw [abandonJob, hk]
      | some old => rw [jobs_abandonJob hk, Array.size_setIfInBounds]
    · rfl
  | dispose => exact (hnone (Nat.le_of_eq (congrArg Array.size (jobs_dispose e)))).elim
  | letGo =>
    exact (hnone (Nat.le_of_eq (congrArg Array.size (jobs_reap { e with held := false })))).elim
  | disarm => exact (hnone (Nat.le_of_eq (congrArg Array.size (jobs_disarm e)))).elim
  | edit _ _ => exact (hnone (Nat.le_refl _)).elim
  | clear => exact (hnone (Nat.le_refl _)).elim
  | cancelRoot => exact (hnone (Nat.le_refl _)).elim
  | tell _ => exact (hnone (Nat.le_refl _)).elim
  | tick _ => exact (hnone (Nat.le_refl _)).elim

/-! ### Where drivers and clients come from -/

/-- Nothing but a driver is a driver after a poll. -/
theorem eq_of_polled_eq_drive {background : Bool} {j : Job}
    (h : .drive i token = e.polled background j) : j = .drive i token := by
  cases j with
  | drive call token' =>
    simp only [polled] at h
    split at h
    · cases h
    · exact h.symm
  | timer =>
    simp only [polled] at h
    split at h <;> cases h
  | query client r stage => cases stage <;> cases h
  | await client call stage =>
    cases stage <;> simp only [polled] at h
    · split at h <;> cases h
    all_goals cases h
  | ended => cases h

/-- Nothing but a client that waits for a call by itself is one after a poll. -/
theorem eq_of_polled_eq_await {background : Bool} {client call : Nat} {stage : Stage} {j : Job}
    (h : .await client call stage = e.polled background j) :
    ∃ stage', j = .await client call stage' := by
  cases j with
  | await client' call' stage' =>
    cases stage' <;> simp only [polled] at h
    · split at h <;> cases h <;> exact ⟨_, rfl⟩
    all_goals cases h; exact ⟨_, rfl⟩
  | drive =>
    simp only [polled] at h
    split at h <;> cases h
  | timer =>
    simp only [polled] at h
    split at h <;> cases h
  | query client r stage => cases stage <;> cases h
  | ended => cases h

/-- The call was made where jobs can be started. -/
def StartedInside (start : Engine F) (actions : List (Action F)) (i : Nat) : Prop :=
  ∃ past a rest, actions = past ++ a :: rest ∧ a.isInside = true ∧
    (start.run past).calls.size ≤ i ∧ i < (start.run (past ++ [a])).calls.size

theorem StartedInside.append {start : Engine F} {actions : List (Action F)}
    (h : start.StartedInside actions i) (more : List (Action F)) :
    start.StartedInside (actions ++ more) i := by
  obtain ⟨past, a, rest, rfl, hin, hold, hnew⟩ := h
  exact ⟨past, a, rest ++ more, by simp, hin, hold, hnew⟩

/-- A driver was there before, or drives a call that is new. -/
theorem driver_perform_origin {a : Action F}
    (h : (e.perform a).jobs[job]? = some (.drive i token)) :
    e.jobs[job]? = some (.drive i token) ∨
      (a.isInside = true ∧ e.calls.size ≤ i ∧ ∃ key stamp,
        (e.perform a).idents[i]? = some (key, stamp) ∧ stamp.token = token) := by
  rcases job_perform_cases h with hold | ⟨hnew, -⟩ | ⟨_, _, _, htimer, -⟩
    | ⟨old, hold, hleave⟩ | ⟨_, old, -, hold, -, hpoll⟩
  · exact .inl hold
  · rcases new_job_cases hnew h with ⟨hin, i', key, stamp, hdrive, hi, hident⟩ | ⟨_, _, _, hq⟩
      | ⟨_, _, _, hw⟩ | ⟨_, _, _, ht⟩
    · cases hdrive
      exact .inr ⟨hin, hi, key, stamp, hident, rfl⟩
    · cases hq
    · cases hw
    · cases ht
  · cases htimer
  · rw [Job.eq_of_leave_eq_drive hleave] at hold
    exact .inl hold
  · rw [eq_of_polled_eq_drive hpoll] at hold
    exact .inl hold

/-- **In a run, a driver is that of a call that was made where jobs can be started**, and looks at
the token of that call. -/
theorem driver_run_origin (options : Options) (world : F.State) (actions : List (Action F)) :
    ∀ (job i : Nat) (token : Token),
      ((opening options world).run actions).jobs[job]? = some (.drive i token) →
      (opening options world).StartedInside actions i ∧ ∃ key stamp,
        ((opening options world).run actions).idents[i]? = some (key, stamp) ∧
          stamp.token = token := by
  induction actions using List.reverseRecOn with
  | nil =>
    intro job i token hj
    cases hj
  | append_singleton past a ih =>
    intro job i token hj
    have hrun : (opening options world).run (past ++ [a])
        = ((opening options world).run past).perform a := run_append _ _ _
    rw [hrun] at hj ⊢
    rcases driver_perform_origin hj with hold | ⟨hin, hi, key, stamp, hident, htoken⟩
    · obtain ⟨hstarted, key, stamp, hident, htoken⟩ := ih job i token hold
      have hident' := (carries_run _ [a]).ident hident
      exact ⟨hstarted.append [a], key, stamp, hident', htoken⟩
    · have hlt := (List.getElem?_eq_some_iff.mp hident).1
      rw [length_idents, ← hrun] at hlt
      exact ⟨⟨past, a, [], rfl, hin, hi, hlt⟩, key, stamp, hident, htoken⟩

/-- Whoever waits for a call by itself was made to do so. -/
theorem await_run_origin (options : Options) (world : F.State) (actions : List (Action F)) :
    ∀ (job client call : Nat) (stage : Stage),
      ((opening options world).run actions).jobs[job]? = some (.await client call stage) →
      .await call ∈ actions := by
  induction actions using List.reverseRecOn with
  | nil =>
    intro job client call stage hj
    cases hj
  | append_singleton past a ih =>
    intro job client call stage hj
    have hmem : (∃ stage' : Stage, ((opening options world).run past).jobs[job]?
        = some (.await client call stage')) → Action.await call ∈ past ++ [a] :=
      fun ⟨stage', hold⟩ => List.mem_append_left _ (ih job client call stage' hold)
    rw [run_append] at hj
    rcases job_perform_cases hj with hold | ⟨hnew, -⟩ | ⟨_, _, _, htimer, -⟩
      | ⟨old, hold, hleave⟩ | ⟨_, old, -, hold, -, hpoll⟩
    · exact hmem ⟨stage, hold⟩
    · rcases new_job_cases hnew hj with ⟨_, _, _, _, hdrive, _⟩ | ⟨_, _, _, hq⟩
        | ⟨_, call', rfl, hw⟩ | ⟨_, _, _, ht⟩
      · cases hdrive
      · cases hq
      · cases hw
        exact List.mem_append_right _ (List.mem_singleton_self _)
      · cases ht
    · cases htimer
    · cases old with
      | await client' call' stage' =>
        cases hleave
        exact hmem ⟨stage', hold⟩
      | _ => cases hleave
    · obtain ⟨stage', rfl⟩ := eq_of_polled_eq_await hpoll
      exact hmem ⟨stage', hold⟩

/-! ### Who waits -/

/-- The job is a query that ran, was not given up, and waits for the call. -/
def WaitsFor (e : Engine F) (job i : Nat) : Prop :=
  ∃ j, e.jobs[job]? = some j ∧ i ∈ j.waits

/-- Somebody outside of the cache holds on to the call: its entry is among those that are kept, or a
client waits for the call by itself. -/
def HeldOutside (e : Engine F) (kept : List Nat) (i : Nat) : Prop :=
  i ∈ kept ∨ ∃ job client : Nat, e.jobs[job]? = some (.await client i .queued)

/-- A poll of a half makes nobody wait who did not wait. -/
theorem call?_pollHalf {h : Half} {call : Nat} (hw : (e.pollHalf h).2.call? = some call) :
    h.call? = some call := by
  cases h with
  | settled items => cases hw
  | waiting i =>
    rcases hp : e.pollCall i with ⟨d, outcome⟩
    simp only [pollHalf, hp] at hw
    rcases outcome with _ | ⟨found | cause⟩
    · exact hw
    · cases hw
    · cases hw

/-- A query waits after a poll only for calls that it waited for before. -/
theorem mem_calls_of_resume {r : Request} {previous current : Half} {before : Counters}
    (h : i ∈ (e.resume r previous current before).2.calls) :
    i ∈ previous.call?.toList ++ current.call?.toList := by
  have hcalls : i ∈ (e.pollHalf previous).2.call?.toList
      ++ ((e.pollHalf previous).1.pollHalf current).2.call?.toList := by
    unfold resume at h
    dsimp only at h
    split at h
    · cases h
    · exact h
  rcases List.mem_append.mp hcalls with hi | hi
  · have hcall := call?_pollHalf (Option.mem_toList.mp hi)
    exact List.mem_append_left _ (Option.mem_toList.mpr hcall)
  · have hcall := call?_pollHalf (Option.mem_toList.mp hi)
    exact List.mem_append_right _ (Option.mem_toList.mpr hcall)

/-- After the end of the cache no poll makes a query wait. -/
theorem mem_waits_of_polled (hd : e.disposed = true) {background : Bool} {j : Job}
    (h : i ∈ (e.polled background j).waits) : i ∈ j.waits := by
  cases j with
  | query client r stage =>
    cases stage with
    | queued =>
      rw [polled, begin_of_disposed hd] at h
      cases h
    | waiting previous current before =>
      rw [polled, waits_of_resume] at h
      exact mem_calls_of_resume h
    | _ => cases h
  | drive call token =>
    rw [polled] at h
    split at h <;> cases h
  | timer token due document position =>
    rw [polled] at h
    split at h <;> cases h
  | await client call stage =>
    cases stage <;> simp only [polled] at h
    · split at h <;> cases h
    all_goals cases h
  | ended => cases h

/-- After the end of the cache nobody begins to wait. -/
theorem waitsFor_of_perform (hd : e.disposed = true) {a : Action F}
    (h : (e.perform a).WaitsFor job i) : e.WaitsFor job i := by
  obtain ⟨j, hj, hi⟩ := h
  rcases job_perform_cases hj with hold | ⟨-, hfresh⟩ | ⟨_, _, _, rfl, -⟩
    | ⟨old, hold, rfl⟩ | ⟨_, old, -, hold, -, rfl⟩
  · exact ⟨j, hold, hi⟩
  · rw [Job.waits_of_isFresh hfresh] at hi
    cases hi
  · cases hi
  · rw [Job.waits_leave] at hi
    cases hi
  · exact ⟨old, hold, mem_waits_of_polled hd hi⟩

theorem waitsFor_of_run (hd : e.disposed = true) {actions : List (Action F)}
    (h : (e.run actions).WaitsFor job i) : e.WaitsFor job i := by
  induction actions generalizing e with
  | nil => exact h
  | cons a rest ih =>
    have hd' := Reachable.disposed ((Reachable.refl e).perform a) hd
    exact waitsFor_of_perform hd (ih hd' h)

/-! ### Who holds on to a call -/

theorem exists_of_isPending (h : e.isPending i = true) : ∃ c, e.calls[i]? = some c := by
  rw [isPending] at h
  split at h
  · next c hc => exact ⟨c, hc⟩
  · cases h

theorem mem_live {kept : List Nat} :
    i ∈ e.live kept ↔ e.isPending i = true ∧ (i ∈ e.heldCalls ∨ i ∈ kept) := by
  have hlt : e.isPending i = true → i < e.calls.size := by
    intro h
    obtain ⟨c, hc⟩ := exists_of_isPending h
    exact (Array.getElem?_eq_some_iff.mp hc).1
  simp only [live, List.mem_filter, List.mem_range, Bool.and_eq_true, NumberSet.contains_eq_true,
    NumberSet.mem_ofList, List.mem_append]
  exact ⟨fun h => h.2, fun h => ⟨hlt h.1, h⟩⟩

theorem mem_heldCalls :
    i ∈ e.heldCalls ↔ (∃ x ∈ e.table, x.2.call = i) ∨
      ∃ (job : Nat) (j : Job), e.jobs[job]? = some j ∧ i ∈ j.calls := by
  have hjobs : (∃ j ∈ e.jobs.toList, i ∈ j.calls) ↔
      ∃ (job : Nat) (j : Job), e.jobs[job]? = some j ∧ i ∈ j.calls := by
    simp only [Array.mem_toList_iff, Array.mem_iff_getElem?]
    exact ⟨fun ⟨j, ⟨job, hj⟩, hi⟩ => ⟨job, j, hj, hi⟩, fun ⟨job, j, hj, hi⟩ => ⟨j, ⟨job, hj⟩, hi⟩⟩
  rw [heldCalls, List.mem_append, List.mem_map, List.mem_flatMap, hjobs]

theorem outcome?_of_isPending (h : e.isPending i = true) : e.outcome? i = none := by
  obtain ⟨c, hc⟩ := exists_of_isPending h
  rw [isPending, hc] at h
  rw [outcome?, hc]
  exact Option.isNone_iff_eq_none.mp h

/-- **Where nothing is ready**, the jobs that hold on to a call are drivers whose token is not
cancelled, queries that wait for it, and clients that wait for it by themselves. -/
theorem Quiescent.held_iff (hq : e.Quiescent)
    (hfollows : ∀ (job client call : Nat) (stage : Stage),
      e.jobs[job]? = some (.await client call stage) →
      e.Follower call stage) :
    (∃ (job : Nat) (j : Job), e.jobs[job]? = some j ∧ i ∈ j.calls) ↔
      (∃ (job : Nat) (token : Token), e.jobs[job]? = some (.drive i token) ∧
        e.isCancelled token = false) ∨
      (∃ job, e.WaitsFor job i) ∨
      ∃ job client : Nat, e.jobs[job]? = some (.await client i .queued) := by
  constructor
  · rintro ⟨job, j, hj, hi⟩
    have hnot := hq job
    rw [ready, hj] at hnot
    cases j with
    | drive call token =>
      rw [List.mem_singleton.mp hi]
      exact .inl ⟨job, token, hj, (Bool.or_eq_false_iff.mp hnot).2⟩
    | query client r stage =>
      cases stage with
      | waiting previous current before =>
        exact .inr (.inl ⟨job, _, hj, hi⟩)
      | leaving held before => cases hnot
      | _ => cases hi
    | await client call stage =>
      cases stage with
      | queued =>
        rw [List.mem_singleton.mp hi]
        exact .inr (.inr ⟨job, client, hj⟩)
      | waiting previous current before => exact (hfollows job client call _ hj).elim
      | leaving held before => cases hnot
      | _ => cases hi
    | _ => cases hi
  · rintro (⟨job, token, hj, -⟩ | ⟨job, j, hj, hi⟩ | ⟨job, client, hj⟩)
    · exact ⟨job, _, hj, List.mem_singleton_self i⟩
    · exact ⟨job, j, hj, Job.waits_subset_calls j hi⟩
    · exact ⟨job, _, hj, List.mem_singleton_self i⟩

/-- Entries are added for new calls only. -/
theorem table_run (e : Engine F) (actions : List (Action F)) :
    ∀ x ∈ (e.run actions).table, x ∈ e.table ∨ e.calls.size ≤ x.2.call := by
  induction actions using List.reverseRecOn with
  | nil => exact fun x hx => .inl hx
  | append_singleton past a ih =>
    intro x hx
    have hrun : e.run (past ++ [a]) = (e.run past).perform a := run_append _ _ _
    rw [hrun] at hx
    by_cases htell : ∃ order, a = .tell order
    · obtain ⟨order, rfl⟩ := htell
      exact ih x hx
    · have hadds := extends_perform (e.run past) a fun order ha => htell ⟨order, ha⟩
      rcases hadds.table x hx with hold | ⟨hnew, -⟩
      · exact ih x hold
      · exact .inr (Nat.le_trans (carries_run e past).size_le hnew)

/-- A call that was made where jobs can be started is driven as long as it is on its way and not
cancelled. -/
theorem StartedInside.driver {start : Engine F} {actions : List (Action F)}
    (h : start.StartedInside actions i) (hpending : (start.run actions).outcome? i = none)
    (hopen : i ∉ (start.run actions).cancelledCalls) :
    ∃ (job : Nat) (token : Token), (start.run actions).jobs[job]? = some (.drive i token) := by
  obtain ⟨past, a, rest, rfl, hin, hold, hnew⟩ := h
  rw [run_append, run_cons] at hpending hopen ⊢
  rw [run_append, run_cons, run_nil, ← length_idents] at hnew
  generalize start.run past = e at hold hnew hpending hopen ⊢
  obtain ⟨⟨key, stamp⟩, hident⟩ : ∃ x, (e.perform a).idents[i]? = some x :=
    ⟨_, List.getElem?_eq_getElem hnew⟩
  obtain ⟨job, -, hj⟩ := manned_perform e hin i key stamp hold hident
  have hlast := isCancelled_of_not_mem ((carries_run _ rest).ident hident) hopen
  -- a token that is not cancelled in the end never was
  have huncancelled : ∀ earlier later, rest = earlier ++ .poll job :: later →
      ((e.perform a).run earlier).jobs[job]? = some (.drive i stamp.token) →
      ((e.perform a).run earlier).isCancelled stamp.token = false := by
    intro earlier later heq _
    rw [heq, run_append] at hlast
    exact (ages_run _ _).isCancelled_eq_false hlast
  rcases driver_run hj huncancelled with hj' | hback
  · exact ⟨job, _, hj'⟩
  · rw [hpending] at hback
    cases hback

/-- **A call that is on its way is driven exactly if it was made where jobs can be started and its
token is not cancelled**, where drivers whose token is cancelled do not count. -/
theorem driven_iff (options : Options) (world : F.State) (actions : List (Action F))
    (hpending : ((opening options world).run actions).isPending i = true) :
    (∃ (job : Nat) (token : Token),
        ((opening options world).run actions).jobs[job]? = some (.drive i token) ∧
          ((opening options world).run actions).isCancelled token = false) ↔
      (opening options world).StartedInside actions i ∧
        i ∉ ((opening options world).run actions).cancelledCalls := by
  have horigin := driver_run_origin options world actions
  constructor
  · rintro ⟨job, token, hj, hopen⟩
    obtain ⟨hstarted, key, stamp, hident, rfl⟩ := horigin job i token hj
    obtain ⟨c, hc, -, rfl⟩ := exists_call hident
    refine ⟨hstarted, fun hcancelled => ?_⟩
    rw [mem_cancelledCalls hc, hopen] at hcancelled
    cases hcancelled
  · rintro ⟨hstarted, hopen⟩
    obtain ⟨job, token, hj⟩ := hstarted.driver (outcome?_of_isPending hpending) hopen
    obtain ⟨-, key, stamp, hident, rfl⟩ := horigin job i token hj
    exact ⟨job, _, hj, isCancelled_of_not_mem hident hopen⟩

/-! ### Calls that are given up -/

theorem table_of_empties {a : Action F} (h : a.empties = true) (e : Engine F) :
    (e.perform a).table = [] := by
  cases a <;> cases h <;> rfl

theorem size_of_empties {a : Action F} (h : a.empties = true) (e : Engine F) :
    (e.perform a).calls.size = e.calls.size := by
  cases a <;> cases h <;> rfl

/-- Which calls are alive after a run, where nothing is ready and the entries of some are kept
outside of the cache. -/
structure Release (start : Engine F) (actions : List (Action F)) (kept : List Nat) : Prop where
  /-- After the end of the cache, a call that is not back is alive exactly if its entry is kept
  outside, or if a query waits for it that did so when the cache came to its end. -/
  disposed : ∀ past rest, actions = past ++ rest → (start.run past).disposed = true →
    ∀ i, i ∈ (start.run actions).live kept ↔ (start.run actions).isPending i = true ∧
      ((start.run actions).HeldOutside kept i ∨
        ∃ job, (start.run past).WaitsFor job i ∧ (start.run actions).WaitsFor job i)
  /-- Once the table was emptied, a call from before that is not back is alive exactly if its entry
  is kept outside, or a query waits for it, or it was made where jobs can be started and its token
  is not cancelled. -/
  emptied : ∀ past a rest, actions = past ++ a :: rest → a.empties = true →
    ∀ i < (start.run past).calls.size,
      (i ∈ (start.run actions).live kept ↔ (start.run actions).isPending i = true ∧
        ((start.run actions).HeldOutside kept i ∨ (∃ job, (start.run actions).WaitsFor job i) ∨
          (start.StartedInside actions i ∧ i ∉ (start.run actions).cancelledCalls)))
  /-- The calls whose token is not cancelled are those of queries and of the current generation, as
  long as the cache is not disposed of. -/
  open_iff : .cancelRoot ∉ actions → ∀ i < (start.run actions).calls.size,
    (i ∉ (start.run actions).cancelledCalls ↔ (start.run actions).disposed = false ∧
      ∃ x ∈ (start.run actions).annals.calls, x.call = i ∧
        (x.source = .query ∨
          x.source = .preload (start.run actions).generations.current.id))
  /-- So a call of a generation that is superseded outlives the next change of a document only for
  those who wait for it, or keep its entry. -/
  superseded : .cancelRoot ∉ actions →
    ∀ past a rest, actions = past ++ a :: rest → a.empties = true →
    ∀ i < (start.run past).calls.size, (start.run actions).Superseded i →
      i ∈ (start.run actions).live kept →
      (start.run actions).HeldOutside kept i ∨ ∃ job, (start.run actions).WaitsFor job i
  /-- Nobody keeps an entry outside who did not come for it. -/
  outside : ∀ i, (start.run actions).HeldOutside kept i → i ∈ kept ∨ .await i ∈ actions

/-- The calls whose token is not cancelled are those of queries and of the current generation. -/
theorem Attributed.not_mem_cancelledCalls_iff (h : e.Attributed) (ho : e.Orderly) (hs : e.Sealed)
    (hi : i < e.calls.size) :
    i ∉ e.cancelledCalls ↔ e.disposed = false ∧ ∃ x ∈ e.annals.calls, x.call = i ∧
      (x.source = .query ∨ x.source = .preload e.generations.current.id) := by
  have hverdict : ∀ x ∈ e.annals.calls, ∃ c, e.Verdict x c ∧
      (x.call ∈ e.cancelledCalls ↔ e.isCancelled c.stamp.token = true) := by
    intro x hx
    obtain ⟨c, hc, hv⟩ := h.verdict ho hs hx
    exact ⟨c, hv, mem_cancelledCalls hc⟩
  constructor
  · intro hopen
    obtain ⟨x, hx, rfl⟩ := h.exists_issue hi
    obtain ⟨c, hv, hc⟩ := hverdict x hx
    rw [hc] at hopen
    cases hsource : x.source with
    | query =>
      rw [hv.query hsource, Bool.not_eq_true] at hopen
      exact ⟨hopen, x, hx, rfl, .inl hsource⟩
    | preload n =>
      obtain ⟨-, hcancelled⟩ := hv.preload n hsource
      rw [hcancelled, not_or, Bool.not_eq_true, Nat.not_lt] at hopen
      -- no generation is ahead of the current one
      obtain ⟨k, s, -, hsuits⟩ := h.suits x hx
      obtain ⟨rfl, hranked⟩ := hsuits.preload n hsource
      have hle := hranked.le
      rw [hsuits.id] at hle
      rw [Nat.le_antisymm hle hopen.2] at hsource
      exact ⟨hopen.1, x, hx, rfl, .inr hsource⟩
  · rintro ⟨hopen, x, hx, rfl, hsource⟩
    obtain ⟨c, hv, hc⟩ := hverdict x hx
    rw [hc]
    rcases hsource with hsource | hsource
    · rw [hv.query hsource, hopen]
      exact Bool.false_ne_true
    · rw [(hv.preload _ hsource).2, hopen]
      rintro (hdisposed | hlt)
      · cases hdisposed
      · exact Nat.lt_irrefl _ hlt

/-- **Where nothing is ready and no entry is left of a call**, it is alive exactly if it is driven,
waited for or kept. -/
theorem live_iff (options : Options) (world : F.State) {actions : List (Action F)}
    (hq : ((opening options world).run actions).Quiescent) {kept : List Nat}
    (hgone : ∀ x ∈ ((opening options world).run actions).table, x.2.call ≠ i) :
    i ∈ ((opening options world).run actions).live kept ↔
      ((opening options world).run actions).isPending i = true ∧
      (((opening options world).run actions).HeldOutside kept i ∨
        (∃ job, ((opening options world).run actions).WaitsFor job i) ∨
        ((opening options world).StartedInside actions i ∧
          i ∉ ((opening options world).run actions).cancelledCalls)) := by
  rw [mem_live, mem_heldCalls, hq.held_iff (follower_run options world actions)]
  refine and_congr_right fun hpending => ?_
  have hnone : ¬ ∃ x ∈ ((opening options world).run actions).table, x.2.call = i :=
    fun ⟨x, hx, hcall⟩ => hgone x hx hcall
  rw [driven_iff options world actions hpending, HeldOutside]
  grind

/-- The calls of generations that are superseded are cancelled. -/
theorem Superseded.mem_cancelledCalls (h : e.Superseded i) (ha : e.Attributed) (ho : e.Orderly)
    (hs : e.Sealed) : i ∈ e.cancelledCalls := by
  obtain ⟨x, hx, rfl, n, hsource, hn⟩ := h
  obtain ⟨c, hc, hverdict⟩ := ha.verdict ho hs hx
  rw [Engine.mem_cancelledCalls hc]
  exact (hverdict.preload n hsource).2.mpr (.inr hn)

/-- **Where nothing is ready, abandoned calls are released**: those that are alive have somebody
who is named to hold on to them. -/
theorem abandoned_calls_are_released (options : Options) (world : F.State)
    (actions : List (Action F)) (hq : ((opening options world).run actions).Quiescent)
    (kept : List Nat) : Release (opening options world) actions kept := by
  have hemptied : ∀ past a rest, actions = past ++ a :: rest → a.empties = true →
      ∀ i < ((opening options world).run past).calls.size,
        (i ∈ ((opening options world).run actions).live kept ↔
          ((opening options world).run actions).isPending i = true ∧
          (((opening options world).run actions).HeldOutside kept i ∨
            (∃ job, ((opening options world).run actions).WaitsFor job i) ∨
            ((opening options world).StartedInside actions i ∧
              i ∉ ((opening options world).run actions).cancelledCalls))) := by
    intro past a rest heq ha i hi
    refine live_iff options world hq ?_
    rw [heq, run_append, run_cons]
    intro x hx hcall
    -- entries are new since the table was emptied
    rcases table_run _ rest x hx with hold | hnew
    · rw [table_of_empties ha] at hold
      cases hold
    · rw [size_of_empties ha, hcall] at hnew
      exact Nat.not_lt_of_le hnew hi
  refine ⟨?_, hemptied, ?_, ?_, ?_⟩
  · rintro past rest heq hdisposed i
    have hfinal := final_run options world past rest hdisposed
    rw [← run_append, ← heq] at hfinal
    have hgone : ∀ x ∈ ((opening options world).run actions).table, x.2.call ≠ i := by
      intro x hx
      rw [hfinal.table] at hx
      cases hx
    rw [live_iff options world hq hgone]
    refine and_congr_right fun hpending => or_congr_right ?_
    constructor
    · rintro (⟨job, hwaits⟩ | ⟨-, hopen⟩)
      · have hlater : (((opening options world).run past).run rest).WaitsFor job i := by
          rw [← run_append, ← heq]
          exact hwaits
        exact ⟨job, waitsFor_of_run hdisposed hlater, hwaits⟩
      · -- every token is cancelled now
        obtain ⟨c, hc⟩ := exists_of_isPending hpending
        have hcancelled := hfinal.cancelled c (Array.mem_of_getElem? hc)
        exact absurd ((mem_cancelledCalls hc).mpr hcancelled) hopen
    · rintro ⟨job, -, hwaits⟩
      exact .inl ⟨job, hwaits⟩
  · intro hroot i hi
    obtain ⟨-, hattributed⟩ := attributed_run options world actions
    obtain ⟨ho, hsealed⟩ := sealed_run options world hroot
    exact hattributed.not_mem_cancelledCalls_iff ho hsealed hi
  · intro hroot past a rest heq ha i hi hsuperseded hlive
    obtain ⟨-, hholder⟩ := (hemptied past a rest heq ha i hi).mp hlive
    rcases hholder with houtside | hwaits | ⟨-, hopen⟩
    · exact .inl houtside
    · exact .inr hwaits
    · obtain ⟨-, hattributed⟩ := attributed_run options world actions
      obtain ⟨ho, hsealed⟩ := sealed_run options world hroot
      exact absurd (hsuperseded.mem_cancelledCalls hattributed ho hsealed) hopen
  · rintro i (hkept | ⟨job, client, hj⟩)
    · exact .inl hkept
    · exact .inr (await_run_origin options world actions job client i _ hj)

/-- The cursor rests, which preloads a line with two calls that are held, and a query joins them.
The document changes and the cursor rests somewhere else, so the drivers of the first two calls let
go.  Then the query is given up, and the cache is disposed of in the end. -/
def released : List (Action Fetcher.canned) :=
  [moveTo 3, .poll 0, .tick 100, .poll 0, .query (lineQuery 100), .poll 3, .edit ⟨"file:///a"⟩ 1,
    moveTo 9, .poll 4, .tick 100, .poll 4, .poll 1, .poll 2, .abandon 0, .poll 3, .dispose, .poll 5,
    .poll 6]

/-- Nothing is ready before the query is given up, nor once it is over, nor in the end.  The calls
that it waits for are alive for as long as it does, and the others until the cache is disposed
of. -/
theorem abandoned_calls_are_released_superseded :
    (∀ n ∈ [13, 15, 18], (afterHeld (released.take n)).Quiescent ∧
      Release (opening {} ({ held := true } : Canned.State)) (released.take n) []) ∧
    (afterHeld (released.take 13)).cancelledCalls = [0, 1] ∧
    (afterHeld (released.take 13)).live [] = [0, 1, 2, 3] ∧
    (afterHeld (released.take 15)).live [] = [2, 3] ∧
    (afterHeld (released.take 18)).disposed = true ∧
    (afterHeld (released.take 18)).live [] = [] := by
  refine ⟨?_, by decide +kernel, by decide +kernel, by decide +kernel, by decide +kernel,
    by decide +kernel⟩
  have hquiescent : ∀ n ∈ [13, 15, 18], (afterHeld (released.take n)).Quiescent := by
    decide +kernel
  exact fun n hn => ⟨hquiescent n hn, abandoned_calls_are_released _ _ _ (hquiescent n hn) []⟩

end Engine

end CursorContext
