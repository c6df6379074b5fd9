import CursorContext.Fetch.Scripted
import CursorContext.Proofs.Disposal
import CursorContext.Proofs.Fetches
import CursorContext.Proofs.Moments

/-!
# Preloads that nobody attends

Where jobs can be started, every new call gets a driver.  A driver looks at its token only when its
call is not back, so a call whose flight is ready comes back even if it is cancelled by then, as
long as the driver did not run into the cancelled token before.

Once both lines of a plan are back, a query for them has nothing to wait for.

## Main definitions

* `Action.isInside` — something that happens where jobs can be started.
* `Engine.Manned` — every call from a number on has a driver.
* `Engine.Loaded` — the entry of a key is there and its call is back.
* `Engine.Spared n e e'` — from `e` to `e'` no call was made or polled; there were `n` hits.
* `Engine.AtOnce` — a query is answered at its first poll.

## Main results

* `manned_perform` — what happens inside leaves no new call without a driver.
* `driver_run`, `promised_run` — what becomes of a driver, and of one whose call is promised.
* `atOnce_of_loaded` — where the keys of its plan are loaded, a query is answered at once.
* `preloads_need_nobody` — both, for every run.
-/

namespace CursorContext

/-- The line of the cursor is always part of its plan. -/
theorem Plan.current_mem_keys (p : Plan) : p.current ∈ p.keys :=
  List.mem_append_right _ (List.mem_singleton_self _)

namespace Engine

variable {F : Fetcher} {e e' e'' : Engine F} {i job : Nat} {token : Token} {o : Outcome}

/-- Something that happens where jobs can be started. -/
def Action.isInside : Action F → Bool
  | .ask _ => false
  | .pollOutside _ => false
  | .warm background _ _ => background
  | _ => true

/-! ### Every new call has a driver -/

/-- Every call from a number on has a driver, among the jobs from a number on. -/
def Manned (e : Engine F) (calls jobs : Nat) : Prop :=
  ∀ (i : Nat) (key : Key) (stamp : Stamp), calls ≤ i → e.idents[i]? = some (key, stamp) →
    ∃ job, jobs ≤ job ∧ e.jobs[job]? = some (.drive i stamp.token)

namespace Manned

variable {calls jobs : Nat}

/-- Where no call is new there is nothing to drive. -/
theorem of_size (h : e.calls.size ≤ calls) : e.Manned calls jobs := by
  intro i key stamp hi hident
  have hlt := (List.getElem?_eq_some_iff.mp hident).1
  rw [length_idents] at hlt
  omega

theorem of_eq (h : e.Manned calls jobs) (hi : e'.idents = e.idents) (hj : e'.jobs = e.jobs) :
    e'.Manned calls jobs := by
  intro i key stamp hle hident
  rw [hi] at hident
  rw [hj]
  exact h i key stamp hle hident

/-- The jobs that were there before may change. -/
theorem setJob (h : e.Manned calls jobs) (hjob : job < jobs) (j : Job) :
    (e.setJob job j).Manned calls jobs := by
  intro i key stamp hle hident
  obtain ⟨driver, hdriver, hj⟩ := h i key stamp hle hident
  refine ⟨driver, hdriver, ?_⟩
  show (e.jobs.setIfInBounds job j)[driver]? = _
  rw [Array.getElem?_setIfInBounds, if_neg (by omega)]
  exact hj

/-- A lookup inside gives the call that it makes a driver. -/
theorem lookupPlanned (h : e.Manned calls jobs) (hjobs : jobs ≤ e.jobs.size) (stamp : Stamp)
    (key : Key) : (e.lookupPlanned true stamp key).1.Manned calls jobs := by
  cases hfind : e.find? key with
  | some entry =>
    simp only [Engine.lookupPlanned, lookup_of_some true stamp hfind, if_true]
    exact h.of_eq rfl rfl
  | none =>
    simp only [Engine.lookupPlanned, lookup_of_none true stamp hfind, Bool.false_eq_true, if_false]
    intro i key' stamp' hle hident
    show ∃ driver, jobs ≤ driver ∧
      (e.jobs.push (.drive e.calls.size stamp.token))[driver]? = some (.drive i stamp'.token)
    have hidents : (e.missed stamp key).idents[i]? = some (key', stamp') := hident
    rw [idents_missed, List.getElem?_append] at hidents
    split at hidents
    · -- a call from before goes on to be driven by the same job
      obtain ⟨driver, hdriver, hj⟩ := h i key' stamp' hle hidents
      have hlt := (Array.getElem?_eq_some_iff.mp hj).1
      exact ⟨driver, hdriver, by rw [Array.getElem?_push, if_neg (Nat.ne_of_lt hlt)]; exact hj⟩
    · next hge =>
      rw [length_idents] at hge hidents
      have hi : i = e.calls.size := by
        have hlt := (List.getElem?_eq_some_iff.mp hidents).1
        simp at hlt
        omega
      subst hi
      rw [Nat.sub_self] at hidents
      cases hidents
      exact ⟨e.jobs.size, hjobs, by rw [Array.getElem?_push, if_pos rfl]⟩

theorem lookupKeys (h : e.Manned calls jobs) (hjobs : jobs ≤ e.jobs.size) (stamp : Stamp)
    (keys : List Key) : (e.lookupKeys true stamp keys).Manned calls jobs := by
  induction keys generalizing e with
  | nil => exact h
  | cons key rest ih =>
    rw [lookupKeys_cons]
    refine ih (h.lookupPlanned hjobs stamp key) (Nat.le_trans hjobs ?_)
    obtain ⟨more, heq, -⟩ := grown_lookupPlanned e true stamp key
    rw [heq, Array.size_append]
    exact Nat.le_add_right _ _

end Manned

theorem manned_begin (e : Engine F) (r : Request) :
    (e.begin true r).1.Manned e.calls.size e.jobs.size := by
  unfold begin
  split
  · exact .of_size (Nat.le_refl _)
  · dsimp only
    refine Manned.of_eq ?_ (quiet_resume _ r _ _ _).idents_eq (jobs_resume _ r _ _ _)
    rw [lookupPlan_fst]
    exact Manned.lookupKeys (.of_size (Nat.le_refl _)) (Nat.le_refl _) _ _

theorem manned_warm (e : Engine F) (document : Uri) (position : Position) :
    (e.warm true document position).1.Manned e.calls.size e.jobs.size := by
  cases h : e.isOver with
  | true =>
    rw [warm, if_pos h]
    exact .of_size (Nat.le_refl _)
  | false =>
    rw [warm_of_not_isOver true document position h]
    have hcalls := size_of_idents_eq (idents_nextGeneration e)
    have hjobs : e.nextGeneration.countGeneration.jobs = e.jobs := by
      rw [jobs_countGeneration]; rfl
    have hnone : (e.nextGeneration.countGeneration.note (.preloading document position.line
        e.nextGeneration.countGeneration.generations.current.id)).Manned e.calls.size e.jobs.size :=
      .of_size (Nat.le_of_eq hcalls)
    exact hnone.lookupKeys (Nat.le_of_eq (congrArg Array.size hjobs.symm)) _ _

theorem idents_reap (e : Engine F) : e.reap.idents = e.idents := by
  unfold reap
  split
  · rfl
  · exact idents_dispose e

theorem manned_poll (e : Engine F) (job : Nat) :
    (e.poll job).Manned e.calls.size e.jobs.size := by
  cases hj : e.jobs[job]? with
  | none => rw [poll_of_none hj]; exact .of_size (Nat.le_refl _)
  | some j =>
    have hlt : job < e.jobs.size := (Array.getElem?_eq_some_iff.mp hj).1
    cases j with
    | drive call token =>
      rw [poll, hj]
      exact .of_size (Nat.le_of_eq (quiet_pollDriver e job call token).size)
    | await client call stage =>
      rw [poll, hj]
      exact .of_size (Nat.le_of_eq (quiet_pollAwait e job client call stage).size)
    | ended => rw [poll, hj]; exact .of_size (Nat.le_refl _)
    | timer token due document position =>
      rw [poll, hj]
      unfold pollTimer elapse
      dsimp only
      split
      · split
        · exact .of_size (Nat.le_refl _)
        · have hwarm := manned_warm { e.setJob job .ended with armed := none } document position
          simpa only [setJob, Array.size_setIfInBounds] using hwarm
      · exact .of_size (Nat.le_refl _)
    | query client r stage =>
      rcases (Action.Polls.inside job).query_cases hj with heq | ⟨d, j, heq, hd⟩
      · rw [perform] at heq
        rw [heq]
        exact .of_size (Nat.le_refl _)
      · rw [perform] at heq
        rw [heq]
        refine Manned.of_eq ?_ (idents_reap _) (jobs_reap _)
        rcases hd with hq | ⟨-, rfl⟩
        · exact .of_size (Nat.le_of_eq hq.size)
        · exact (manned_begin e r).setJob hlt j

/-- **What happens inside leaves no new call without a driver.** -/
theorem manned_perform (e : Engine F) {a : Action F} (h : a.isInside = true) :
    (e.perform a).Manned e.calls.size e.jobs.size := by
  cases a with
  | poll job => exact manned_poll e job
  | warm background document position =>
    obtain rfl : background = true := h
    exact manned_warm e document position
  | ask r => cases h
  | pollOutside job => cases h
  | move background document position =>
    refine .of_size (Nat.le_of_eq (size_of_idents_eq ?_))
    rw [perform, move]
    split
    · rfl
    · split
      · exact idents_disarm e
      · rfl
  | abandon client => exact .of_size (Nat.le_of_eq (quiet_abandon e client).size)
  | dispose => exact .of_size (Nat.le_of_eq (size_of_idents_eq (idents_dispose e)))
  | letGo =>
    have hidents := idents_reap { e with held := false }
    exact .of_size (Nat.le_of_eq (size_of_idents_eq hidents))
  | disarm => exact .of_size (Nat.le_of_eq (size_of_idents_eq (idents_disarm e)))
  | edit _ _ => exact .of_size (Nat.le_refl _)
  | clear => exact .of_size (Nat.le_refl _)
  | query _ => exact .of_size (Nat.le_refl _)
  | await _ => exact .of_size (Nat.le_refl _)
  | cancelRoot => exact .of_size (Nat.le_refl _)
  | tell _ => exact .of_size (Nat.le_refl _)
  | tick _ => exact .of_size (Nat.le_refl _)

/-! ### What becomes of a driver -/

/-- A driver goes on until its call is back, or until it finds its token cancelled first. -/
theorem driver_perform (hj : e.jobs[job]? = some (.drive i token)) (a : Action F) :
    (e.perform a).jobs[job]? = some (.drive i token) ∨
    ((e.perform a).outcome? i).isSome ∨
    (a = .poll job ∧ (e.pollCall i).2 = none ∧ e.isCancelled token = true) := by
  rcases job_perform hj a with h | ⟨-, h⟩ | ⟨background, hpolls, hquery, h⟩
  · exact .inl h
  · exact .inl h
  · obtain rfl : background = true := by
      cases hpolls with
      | inside => rfl
      | outside => cases hquery rfl
    cases hpolls
    rw [perform] at h ⊢
    have hpoll : e.poll job = e.pollDriver job i token := by rw [poll, hj]
    have hcancelled := (quiet_pollCall e i).still.isCancelled_eq token
    cases hback : (e.pollCall i).2 with
    | some o =>
      -- the call is asked first
      have ho := outcome?_pollCall hback
      simp only [pollDriver, hback, Option.isSome_some, Bool.true_or, if_true] at hpoll
      refine .inr (.inl ?_)
      rw [hpoll]
      show ((e.pollCall i).1.outcome? i).isSome = true
      rw [ho]
      rfl
    | none =>
      cases hc : e.isCancelled token with
      | true => exact .inr (.inr ⟨rfl, rfl, rfl⟩)
      | false =>
        simp only [polled, hback, hcancelled, hc, Option.isSome_none, Bool.or_self,
          Bool.false_eq_true, if_false] at h
        exact .inl h

/-- As long as it does not find its token cancelled, a driver goes on until its call is back. -/
theorem driver_run (hj : e.jobs[job]? = some (.drive i token)) {actions : List (Action F)}
    (h : ∀ earlier later, actions = earlier ++ .poll job :: later →
      (e.run earlier).jobs[job]? = some (.drive i token) →
      (e.run earlier).isCancelled token = false) :
    (e.run actions).jobs[job]? = some (.drive i token) ∨ ((e.run actions).outcome? i).isSome := by
  induction actions generalizing e with
  | nil => exact .inl hj
  | cons a rest ih =>
    rw [run_cons]
    rcases driver_perform hj a with hstays | hback | ⟨rfl, -, hc⟩
    · exact ih hstays fun earlier later heq =>
        h (a :: earlier) later (by rw [heq]; rfl)
    · obtain ⟨o, ho⟩ := Option.isSome_iff_exists.mp hback
      rw [(carries_run _ rest).outcome? ho]
      exact .inr rfl
    · rw [show e.isCancelled token = false from h [] rest rfl hj] at hc
      cases hc

theorem Promises.outcome?_eq (hp : e.Promises i o) (h : (e.outcome? i).isSome) :
    e.outcome? i = some o := by
  obtain ⟨c, hc, hback | ⟨flight, hflight, -⟩⟩ := hp
  · exact outcome?_eq_some_iff.mpr ⟨c, hc, hback⟩
  · rw [outcome?, hc, Option.bind_some, hflight] at h
    cases h

/-- The driver of a call that is promised goes on until the call is back, cancelled or not. -/
theorem promised_run (hj : e.jobs[job]? = some (.drive i token)) (hp : e.Promises i o)
    (actions : List (Action F)) :
    (e.run actions).outcome? i = some o ∨
      (e.run actions).jobs[job]? = some (.drive i token) ∧ (e.run actions).Promises i o := by
  induction actions generalizing e with
  | nil => exact .inr ⟨hj, hp⟩
  | cons a rest ih =>
    rw [run_cons]
    have hp' := promises_perform hp a
    rcases driver_perform hj a with hstays | hback | ⟨rfl, hnone, -⟩
    · exact ih hstays hp'
    · exact .inl ((carries_run _ rest).outcome? (hp'.outcome?_eq hback))
    · rw [hp.pollCall] at hnone
      cases hnone

/-- Whoever waits for a call that is promised has something to do. -/
theorem Promises.callReady (hp : e.Promises i o) : e.callReady i = true := by
  obtain ⟨c, hc, hback | ⟨flight, hflight, hready⟩⟩ := hp
  · simp only [Engine.callReady, hc, hback]
  · simp only [Engine.callReady, hc, hflight, hready.poll, Progress.isBlocked, Bool.not_false]

/-- **Where nothing is ready, what a driver was promised has come.** -/
theorem outcome?_of_promised (hj : e.jobs[job]? = some (.drive i token)) (hp : e.Promises i o)
    {actions : List (Action F)} (hq : (e.run actions).Quiescent) :
    (e.run actions).outcome? i = some o := by
  rcases promised_run hj hp actions with hback | ⟨hj', hp'⟩
  · exact hback
  · have hready := hq job
    simp only [ready, hj', hp'.callReady, Bool.true_or] at hready
    cases hready

theorem isCancelled_of_not_mem {key : Key} {stamp : Stamp} (h : e.idents[i]? = some (key, stamp))
    (hi : i ∉ e.cancelledCalls) : e.isCancelled stamp.token = false := by
  obtain ⟨c, hc, -, hstamp⟩ := exists_call h
  rw [Bool.eq_false_iff]
  intro hcancelled
  exact hi ((mem_cancelledCalls hc).mpr (by rw [hstamp]; exact hcancelled))

/-! ### Queries that have nothing to wait for -/

/-- The entry of a key is there and its call is back. -/
def Loaded (e : Engine F) (key : Key) : Prop :=
  ∃ entry, e.find? key = some entry ∧ (e.outcome? entry.call).isSome

/-- No call was made or polled, and of the lookups that were made all were hits. -/
structure Spared (n : Nat) (e e' : Engine F) : Prop where
  calls : e'.calls = e.calls
  hits : e'.counters.hits = e.counters.hits + n
  misses : e'.counters.misses = e.counters.misses

namespace Spared

variable {m n : Nat}

theorem of_eq (hcalls : e'.calls = e.calls) (hhits : e'.counters.hits = e.counters.hits)
    (hmisses : e'.counters.misses = e.counters.misses) : Spared 0 e e' :=
  ⟨hcalls, hhits, hmisses⟩

theorem trans (h : Spared m e e') (k : Spared n e' e'') : Spared (m + n) e e'' where
  calls := k.calls.trans h.calls
  hits := by rw [k.hits, h.hits, Nat.add_assoc]
  misses := k.misses.trans h.misses

theorem outcome?_eq (h : Spared n e e') (call : Nat) : e'.outcome? call = e.outcome? call := by
  rw [outcome?, h.calls, outcome?]

end Spared

/-- A lookup of a key that is loaded returns the entry that is there. -/
theorem spared_lookupPlanned {key : Key} (h : e.Loaded key) (background : Bool) (stamp : Stamp) :
    Spared 1 e (e.lookupPlanned background stamp key).1 ∧
      (e.lookupPlanned background stamp key).1.table = e.table ∧
      (e.outcome? (e.lookupPlanned background stamp key).2.call).isSome := by
  obtain ⟨entry, hfind, hback⟩ := h
  simp only [lookupPlanned, lookup_of_some background stamp hfind, if_true]
  exact ⟨⟨rfl, rfl, rfl⟩, rfl, hback⟩

theorem Loaded.mono {n : Nat} {key : Key} (h : e.Loaded key) (hs : Spared n e e')
    (ht : e'.table = e.table) : e'.Loaded key := by
  obtain ⟨entry, hfind, hback⟩ := h
  refine ⟨entry, ?_, ?_⟩
  · rw [find?, ht]
    exact hfind
  · rw [hs.outcome?_eq]
    exact hback

/-- A poll of a half whose call is back settles it. -/
theorem spared_pollHalf (h : Half) (hback : ∀ call ∈ h.call?, (e.outcome? call).isSome) :
    Spared 0 e (e.pollHalf h).1 ∧ ∃ items, (e.pollHalf h).2 = .settled items := by
  cases h with
  | settled items => exact ⟨.of_eq rfl rfl rfl, items, rfl⟩
  | waiting call =>
    obtain ⟨o, ho⟩ := Option.isSome_iff_exists.mp (hback call rfl)
    obtain ⟨c, hc, hstatus⟩ := outcome?_eq_some_iff.mp ho
    have hpoll : e.pollCall call = (e, some o) := by simp only [pollCall, hc, hstatus]
    simp only [pollHalf, hpoll]
    cases o with
    | items found => exact ⟨.of_eq rfl rfl rfl, found, rfl⟩
    | failure cause => exact ⟨.of_eq rfl rfl rfl, [], rfl⟩

theorem spared_stopWatch (e : Engine F) (r : Request) (before : Counters) (items : Option Nat) :
    Spared 0 e (e.stopWatch r before items) := by
  unfold stopWatch
  split <;> exact .of_eq rfl rfl rfl

/-- A query whose calls are back is answered when it is polled. -/
theorem spared_resume (r : Request) (previous current : Half) (before : Counters)
    (hp : ∀ call ∈ previous.call?, (e.outcome? call).isSome)
    (hc : ∀ call ∈ current.call?, (e.outcome? call).isSome) :
    Spared 0 e (e.resume r previous current before).1 ∧
      ∃ found, (e.resume r previous current before).2 = .finished (.snippets found) := by
  obtain ⟨habove, above, hsettled⟩ := spared_pollHalf previous hp
  have hc' : ∀ call ∈ current.call?, ((e.pollHalf previous).1.outcome? call).isSome := by
    intro call hcall
    rw [habove.outcome?_eq]
    exact hc call hcall
  obtain ⟨hhere, here, hsettled'⟩ := spared_pollHalf current hc'
  have hhalves := habove.trans hhere
  simp only [resume, hsettled, hsettled']
  exact ⟨hhalves.trans (spared_stopWatch _ r before _), _, rfl⟩

/-- The calls of a plan whose keys are loaded are back. -/
theorem spared_lookupPlan {p : Plan} (h : ∀ key ∈ p.keys, e.Loaded key) (background : Bool)
    (stamp : Stamp) :
    Spared p.keys.length e (e.lookupPlan background stamp p).1 ∧
      (∀ call ∈ (half (e.lookupPlan background stamp p).2.1).call?, (e.outcome? call).isSome) ∧
      (e.outcome? (e.lookupPlan background stamp p).2.2.call).isSome := by
  obtain ⟨previous, current⟩ := p
  cases previous with
  | none =>
    obtain ⟨hhit, -, hback⟩ := spared_lookupPlanned (h current (by simp)) background stamp
    exact ⟨hhit, (fun call hcall => nomatch hcall), hback⟩
  | some above =>
    obtain ⟨habove, htable, hback⟩ := spared_lookupPlanned (h above (by simp)) background stamp
    have hcurrent := (h current (by simp)).mono habove htable
    obtain ⟨hhere, -, hback'⟩ := spared_lookupPlanned hcurrent background stamp
    rw [habove.outcome?_eq] at hback'
    refine ⟨habove.trans hhere, fun call hcall => ?_, hback'⟩
    cases hcall
    exact hback

/-- Where the keys of its plan are loaded, the first poll of a query answers it. -/
theorem spared_begin {r : Request} (hopen : e.disposed = false)
    (h : ∀ key ∈ r.plan.keys, e.Loaded key) (background : Bool) :
    Spared r.plan.keys.length e (e.begin background r).1 ∧
      ∃ found, (e.begin background r).2 = .finished (.snippets found) := by
  have hnoted : Spared 0 e (e.note (.asked r.document r.position.line)) := .of_eq rfl rfl rfl
  rw [begin, hopen, if_neg Bool.false_ne_true]
  dsimp only
  have hloaded : ∀ key ∈ r.plan.keys,
      (e.note (.asked r.document r.position.line)).Loaded key :=
    fun key hkey => (h key hkey).mono hnoted rfl
  generalize e.note (.asked r.document r.position.line) = d at hnoted hloaded ⊢
  obtain ⟨hlooked, habove, hhere⟩ :=
    spared_lookupPlan hloaded background d.generations.foreground
  rcases hl : d.lookupPlan background d.generations.foreground r.plan with ⟨d', previous, current⟩
  rw [hl] at hlooked habove hhere
  have habove' : ∀ call ∈ (half previous).call?, (d'.outcome? call).isSome := by
    intro call hcall
    rw [hlooked.outcome?_eq]
    exact habove call hcall
  have hhere' : ∀ call ∈ (half (some current)).call?, (d'.outcome? call).isSome := by
    intro call hcall
    cases hcall
    rw [hlooked.outcome?_eq]
    exact hhere
  obtain ⟨hresumed, found, hanswer⟩ :=
    spared_resume r (half previous) (half (some current)) e.counters habove' hhere'
  have hall := (hnoted.trans hlooked).trans hresumed
  rw [Nat.zero_add] at hall
  exact ⟨hall, found, hanswer⟩

theorem spared_reap (e : Engine F) : Spared 0 e e.reap := by
  have hdisarm : ∀ d : Engine F, Spared 0 d d.disarm := by
    intro d
    unfold disarm
    split <;> exact .of_eq rfl rfl rfl
  unfold reap dispose
  split
  · exact .of_eq rfl rfl rfl
  · split
    · exact .of_eq rfl rfl rfl
    · -- the end of the cache is counted, but not as a lookup
      have h := hdisarm { e with disposed := true }.cancelRoot
      exact .of_eq h.calls h.hits h.misses

/-- A query is answered at its first poll, with a hit for every key of its plan. -/
structure AtOnce (e : Engine F) (r : Request) : Prop where
  /-- As a job, inside and outside. -/
  polled : ∀ i a background client, a.Polls i background →
    e.jobs[i]? = some (.query client r .queued) →
    Spared r.plan.keys.length e (e.perform a) ∧
      ∃ found, (e.perform a).jobs[i]? = some (.query client r (.finished (.snippets found)))
  /-- And where it is polled once and given up. -/
  asked : Spared r.plan.keys.length e (e.ask r).1 ∧ ∃ found, (e.ask r).2 = some (.snippets found)

/-- **Where the keys of its plan are loaded, a query is answered at once.** -/
theorem atOnce_of_loaded {r : Request} (hopen : e.disposed = false)
    (h : ∀ key ∈ r.plan.keys, e.Loaded key) : e.AtOnce r := by
  constructor
  · intro i a background client ha hj
    obtain ⟨hspared, found, hanswer⟩ := spared_begin hopen h background
    have hjob := ha.jobs_query hj
    rw [polled, hanswer] at hjob
    refine ⟨?_, found, hjob⟩
    rw [ha.perform_queued hj]
    have hput : Spared 0 (e.begin background r).1 ((e.begin background r).1.setJob i
        (.query client r (e.begin background r).2)) := .of_eq rfl rfl rfl
    exact (hspared.trans hput).trans (spared_reap _)
  · obtain ⟨hspared, found, hanswer⟩ := spared_begin hopen h false
    refine ⟨?_, found, ?_⟩
    · rw [ask]
      dsimp only
      rw [hanswer]
      exact hspared
    · rw [ask]
      dsimp only
      rw [hanswer]
      rfl

/-! ### Runs -/

/-- A key that was looked up in the present epoch is loaded once its call is back. -/
theorem Coalesced.loaded (h : e.Coalesced) {x : Record} (hx : x ∈ e.annals.epoch.lookups)
    (hback : (e.outcome? x.call).isSome) : e.Loaded x.key := by
  have hmem := h.exact_epoch.lookups x hx
  rw [← h.table] at hmem
  obtain ⟨⟨key, entry⟩, hentry, rfl⟩ := List.mem_map.mp hmem
  exact ⟨entry, h.find?_of_mem hentry, hback⟩

/-- **Preloads need nobody who waits for them, and make queries instant.**  Take a call that was
made where jobs can be started.  If its flight is ready at some time, and its driver did not run
with a cancelled token before that, then the call is back with what its flight was ready with as
soon as nothing is ready any more, whatever else happened to the table, the token or the cache.

And if the keys of a position were looked up in the present epoch and their calls are back, then a
query for that line is answered at its first poll, at any column and with any budget, inside and
outside, without a call and with a hit for every key. -/
theorem preloads_need_nobody (options : Options) (world : F.State) (actions : List (Action F)) :
    (∀ past a between rest i o, actions = past ++ a :: (between ++ rest) → a.isInside = true →
      ((opening options world).run past).calls.size ≤ i →
      i < ((opening options world).run (past ++ [a])).calls.size →
      (∀ earlier job later token, between = earlier ++ .poll job :: later →
        ((opening options world).run (past ++ a :: earlier)).jobs[job]? = some (.drive i token) →
        i ∉ ((opening options world).run (past ++ a :: earlier)).cancelledCalls) →
      ((opening options world).run (past ++ a :: between)).Promises i o →
      ((opening options world).run actions).Quiescent →
      ((opening options world).run actions).outcome? i = some o) ∧
    ∀ document position,
      (∀ key ∈ (Plan.at document position).keys,
        ∃ x ∈ ((opening options world).run actions).annals.epoch.lookups, x.key = key ∧
          (((opening options world).run actions).outcome? x.call).isSome) →
      ∀ column budget,
        ((opening options world).run actions).AtOnce ⟨document, ⟨position.line, column⟩, budget⟩ := by
  constructor
  · intro past a between rest i o heq hinside hold hnew hdriver hpromise hq
    subst heq
    simp only [run_append, run_cons, run_nil] at hnew hdriver hpromise hq ⊢
    generalize (opening options world).run past = e at hold hnew hdriver hpromise hq ⊢
    -- the call has a driver from the beginning
    rw [← length_idents] at hnew
    obtain ⟨⟨key, stamp⟩, hident⟩ : ∃ x, (e.perform a).idents[i]? = some x :=
      ⟨_, List.getElem?_eq_getElem hnew⟩
    obtain ⟨job, -, hj⟩ := manned_perform e hinside i key stamp hold hident
    have huncancelled : ∀ earlier later, between = earlier ++ .poll job :: later →
        ((e.perform a).run earlier).jobs[job]? = some (.drive i stamp.token) →
        ((e.perform a).run earlier).isCancelled stamp.token = false := by
      intro earlier later hbetween hj'
      have hident' := (carries_run (e.perform a) earlier).ident hident
      exact isCancelled_of_not_mem hident' (hdriver earlier job later _ hbetween hj')
    have hruns := driver_run hj huncancelled
    rcases hruns with hj' | hback
    · exact outcome?_of_promised hj' hpromise hq
    · exact (carries_run _ rest).outcome? (hpromise.outcome?_eq hback)
  · intro document position hlooked column budget
    have hcoalesced := coalesced_run options world actions
    obtain ⟨-, hclosed⟩ := closed_run options world actions
    generalize (opening options world).run actions = e at hlooked hcoalesced hclosed ⊢
    have hloaded : ∀ key ∈ (Plan.at document position).keys, e.Loaded key := by
      intro key hkey
      obtain ⟨x, hx, rfl, hback⟩ := hlooked key hkey
      exact hcoalesced.loaded hx hback
    refine atOnce_of_loaded ?_ hloaded
    rw [Bool.eq_false_iff]
    intro hdisposed
    -- a cache that was disposed of holds nothing
    obtain ⟨entry, hfind, -⟩ := hloaded _ (Plan.at document position).current_mem_keys
    have hmem := mem_of_find? hfind
    rw [(hclosed hdisposed).2.1] at hmem
    cases hmem

/-- Behind an open gate, a flight that neither waits nor minds its token is ready. -/
theorem ready_scripted {s : Scripted.State} {rule : Scripted.Rule} {now : Nat}
    (hgate : s.admits rule = true) (hdelay : rule.delay = 0) (hcancel : rule.onCancel = .ignore) :
    Fetcher.scripted.Ready s now ⟨rule, .waiting⟩ rule.outcome := by
  intro orders later cancelled _
  -- gates are opened for good
  have hstays : (orders.foldl Scripted.State.obey s).admits rule = true := by
    induction orders generalizing s with
    | nil => exact hgate
    | cons order rest ih =>
      refine ih (s := s.obey order) ?_
      cases order with
      | follow place other => exact hgate
      | «open» gate =>
        unfold Scripted.State.admits at hgate ⊢
        split at hgate
        · rfl
        · simp only [Scripted.State.obey, List.contains_cons, hgate, Bool.or_true]
  show Scripted.State.poll (orders.foldl Scripted.State.obey s) later cancelled ⟨rule, .waiting⟩
    = .resolved rule.outcome
  simp [Scripted.State.poll, Scripted.Flight.land, hstays, hdelay, hcancel]

/-- A rule that waits for a gate and does not mind its token. -/
def gated : Scripted.Rule := ⟨some "gate", 0, .ignore, .items [⟨"it", ["is here"], ⟨"file:///a"⟩⟩]⟩

/-- The driver of the fourth line runs and finds the gate closed.  The table is cleared and another
line is loaded ahead, which cancels the first preload; then the gate opens, and the drivers run. -/
def overdue : List (Action Fetcher.scripted) :=
  [.poll 1, .clear, .warm true ⟨"file:///a"⟩ ⟨9, 0⟩, .tell (.open "gate"), .poll 0, .poll 1, .poll 2,
    .poll 3]

/-- The fourth line is loaded ahead, and then something else happens. -/
def afterPreload (more : List (Action Fetcher.scripted)) : Engine Fetcher.scripted :=
  (opening {} ({ rules := [((3, .oneHop), gated)] } : Scripted.State)).run
    (.warm true ⟨"file:///a"⟩ ⟨3, 0⟩ :: more)

theorem preloads_need_nobody_overdue :
    (afterPreload overdue).cancelledCalls = [0, 1] ∧
    (afterPreload overdue).outcome? 1 = some gated.outcome ∧
    (afterPreload overdue).AtOnce ⟨⟨"file:///a"⟩, ⟨9, 7⟩, 100⟩ := by
  obtain ⟨hback, hloaded⟩ := preloads_need_nobody (F := Fetcher.scripted) {}
    ({ rules := [((3, .oneHop), gated)] } : Scripted.State)
    (.warm true ⟨"file:///a"⟩ ⟨3, 0⟩ :: overdue)
  refine ⟨by decide +kernel, ?_, ?_⟩
  · have hdriver : ∀ earlier job later token, overdue.take 4 = earlier ++ .poll job :: later →
        (afterPreload earlier).jobs[job]? = some (.drive 1 token) →
        1 ∉ (afterPreload earlier).cancelledCalls := by
      intro earlier job later token heq _
      cases earlier with
      | nil => decide +kernel
      | cons a earlier =>
        -- the driver is polled once before the gate opens
        have hmem : .poll job ∈ (overdue.take 4).tail := by rw [heq]; simp
        simp [overdue] at hmem
    have hpromise : (afterPreload (overdue.take 4)).Promises 1 gated.outcome :=
      ⟨_, rfl, .inr ⟨_, rfl, ready_scripted (by decide +kernel) rfl rfl⟩⟩
    exact hback [] _ (overdue.take 4) (overdue.drop 4) 1 _ rfl rfl (by decide +kernel)
      (by decide +kernel) hdriver hpromise (by decide +kernel)
  · refine hloaded ⟨"file:///a"⟩ ⟨9, 0⟩ ?_ 7 100
    show ∀ key ∈ (Plan.at ⟨"file:///a"⟩ ⟨9, 0⟩).keys,
      ∃ x ∈ (afterPreload overdue).annals.epoch.lookups, x.key = key ∧
        ((afterPreload overdue).outcome? x.call).isSome
    decide +kernel

end Engine

end CursorContext
