import CursorContext.Proofs.Disposal

/-!
# The timer that is running

Every move of the cursor starts a timer and stops the one before, so of all the timers that were
ever started at most one is not stopped.  It begins to count at its first poll and is taken out of
the jobs when it goes off; the others stay until they are polled, and do nothing then.

Everything else leaves timers and generations alone, unless it brings the cache to its end, which
stops all timers for good.

## Main definitions

* `Action.isMove`, `Action.isOrdinary` — moves of the cursor, and what a host of the cache can do.
* `Engine.Pending e i due document position` — the job `i` is a timer that was not stopped.
* `Engine.dueAfter e i due a` — the time at which a timer is due after an action.
* `Engine.Calm`, `Engine.Shuts` — timers and generations are left alone, and the end of the cache.
* `Engine.Effect e a` — what an ordinary action does to timers and generations.
* `Engine.Turn e a` — what any action does to the timer that is running.
* `Engine.Tended`, `Engine.Watched` — there is at most one timer that was not stopped, and it is the
  one that is running; and the root is cancelled only by the end of the cache.

## Main results

* `effect` — an ordinary action does one of four things to timers and generations.
* `timer_perform_iff` — timers come by moves and go by polls.
* `pending_calm`, `pending_arm`, `not_pending_goesOff`, `not_pending_of_disposed` — what is pending
  after each.
* `Tended.turn` — any action does one of four things to the timer that is running.
* `tended_run` — at any time at most one timer is pending.
-/

namespace CursorContext.Engine

variable {F : Fetcher} {e e' e'' : Engine F} {a : Action F} {i : Nat} {token : Token}
  {due : Option Nat} {document : Uri} {position : Position}

/-- A move of the cursor where jobs can be started. -/
def Action.isMove : Action F → Bool
  | .move background _ _ => background
  | _ => false

/-- What a host of the cache can do.  Its parts can do more: load a position ahead at once, stop the
timer, and cancel the root. -/
def Action.isOrdinary : Action F → Bool
  | .warm _ _ _ => false
  | .disarm => false
  | .cancelRoot => false
  | _ => true

/-- A timer that was not stopped. -/
structure Pending (e : Engine F) (i : Nat) (token : Token) (due : Option Nat) (document : Uri)
    (position : Position) : Prop where
  job : e.jobs[i]? = some (.timer token due document position)
  running : e.isCancelled token = false

/-! ### Polls of timers -/

theorem poll_timer_due (h : e.Pending i token due document position)
    (hdue : e.deadline due ≤ e.now) :
    e.poll i = ({ e.setJob i .ended with armed := none }.warm true document position).1 := by
  have hcancelled : (e.setJob i .ended).isCancelled token = false := h.running
  rw [poll, h.job]
  simp only [pollTimer, hdue, decide_true, Bool.or_true, if_true, elapse, hcancelled,
    Bool.false_eq_true, if_false]

/-- The time at which the timer `i` is due after an action that leaves it pending: a poll settles
it, and nothing else does. -/
def dueAfter (e : Engine F) (i : Nat) (due : Option Nat) : Action F → Option Nat
  | .poll k => if k = i then some (e.deadline due) else due
  | _ => due

@[simp] theorem dueAfter_poll (e : Engine F) (i : Nat) (due : Option Nat) :
    e.dueAfter i due (.poll i) = some (e.deadline due) := if_pos rfl

theorem dueAfter_of_ne (h : a ≠ .poll i) : e.dueAfter i due a = due := by
  cases a with
  | poll k => exact if_neg fun hk => h (congrArg _ hk)
  | _ => rfl

/-! ### What ordinary actions do -/

/-- Timers and generations are left alone, and nothing is looked up but for queries. -/
structure Calm (e e' : Engine F) : Prop where
  tokens : e'.tokens = e.tokens
  generations : e'.generations = e.generations
  armed : e'.armed = e.armed
  disposed : e'.disposed = e.disposed
  calls : ∀ x ∈ e'.annals.calls, x ∈ e.annals.calls ∨ x.source = .query

/-- The cache comes to its end, and nothing is looked up but for queries. -/
structure Shuts (e e' : Engine F) : Prop where
  before : e.disposed = false
  after : e'.disposed = true
  generations : e'.generations = e.generations
  calls : ∀ x ∈ e'.annals.calls, x ∈ e.annals.calls ∨ x.source = .query

namespace Calm

theorem refl (e : Engine F) : e.Calm e := ⟨rfl, rfl, rfl, rfl, fun _ h => .inl h⟩

theorem trans (h : e.Calm e') (k : e'.Calm e'') : e.Calm e'' where
  tokens := k.tokens.trans h.tokens
  generations := k.generations.trans h.generations
  armed := k.armed.trans h.armed
  disposed := k.disposed.trans h.disposed
  calls := by
    intro x hx
    rcases k.calls x hx with hx | hx
    · exact h.calls x hx
    · exact .inr hx

theorem of_quiet (h : e.Quiet e') : e.Calm e' := by
  refine ⟨h.tokens, h.generations, h.armed, h.disposed, fun x hx => ?_⟩
  rw [h.annals] at hx
  exact .inl hx

end Calm

theorem calm_clear (e : Engine F) : e.Calm e.clear := by
  refine ⟨rfl, rfl, rfl, rfl, fun x hx => ?_⟩
  rw [annals_clear] at hx
  exact .inl hx

theorem calm_edit (e : Engine F) (document : Uri) (changes : Nat) :
    e.Calm (e.edit document changes) :=
  (Calm.of_quiet (quiet_note e rfl)).trans (calm_clear _)

/-- What a query looks up, it looks up for itself. -/
theorem calm_begin (e : Engine F) (background : Bool) (r : Request) :
    e.Calm (e.begin background r).1 := by
  cases hopen : e.disposed with
  | true =>
    rw [begin_of_disposed hopen]
    exact .refl e
  | false =>
    have hstill := still_begin hopen background r
    exact ⟨hstill.tokens, hstill.generations, hstill.armed, hstill.disposed,
      source_begin e background r⟩

theorem shuts_dispose (hopen : e.disposed = false) : e.Shuts e.dispose := by
  refine ⟨hopen, disposed_dispose e, generations_dispose e, fun x hx => ?_⟩
  rw [annals_dispose hopen] at hx
  exact .inl hx

theorem calm_or_shuts_dispose (e : Engine F) : e.Calm e.dispose ∨ e.Shuts e.dispose := by
  cases hopen : e.disposed with
  | false => exact .inr (shuts_dispose hopen)
  | true =>
    rw [dispose, if_pos hopen]
    exact .inl (.refl e)

theorem calm_or_shuts_reap (h : e.Calm e') : e.Calm e'.reap ∨ e.Shuts e'.reap := by
  unfold reap
  split
  · exact .inl h
  · rcases calm_or_shuts_dispose e' with hcalm | hshuts
    · exact .inl (h.trans hcalm)
    · right
      refine ⟨h.disposed.symm.trans hshuts.before, hshuts.after,
        hshuts.generations.trans h.generations, fun x hx => ?_⟩
      rcases hshuts.calls x hx with hx | hx
      · exact h.calls x hx
      · exact .inr hx

/-- What an ordinary action does to timers and generations. -/
inductive Effect (e : Engine F) : Action F → Prop
  /-- Nothing.  A move does nothing at all then, which is so after the end of the cache, and a poll
  is not that of a timer that is due. -/
  | calm {a : Action F} (h : e.Calm (e.perform a))
      (hmove : a.isMove = true → e.isOver = true ∧ e.perform a = e)
      (hpoll : ∀ i token due document position, a = .poll i →
        e.Pending i token due document position → e.now < e.deadline due) : Effect e a
  /-- It brings the cache to its end. -/
  | shuts {a : Action F} (h : e.Shuts (e.perform a)) : Effect e a
  /-- It starts a timer. -/
  | arms {document : Uri} {position : Position} (hopen : e.isOver = false)
      (h : e.perform (.move true document position) = e.arm document position) :
      Effect e (.move true document position)
  /-- It lets a timer go off. -/
  | goesOff {i : Nat} {token : Token} {due : Option Nat} {document : Uri} {position : Position}
      (hpending : e.Pending i token due document position) (hdue : e.deadline due ≤ e.now)
      (h : e.perform (.poll i)
        = ({ e.setJob i .ended with armed := none }.warm true document position).1) :
      Effect e (.poll i)

theorem effect_of_calm (h : e.Calm (e.perform a)) (hmove : a.isMove = false)
    (hpoll : ∀ i, a ≠ .poll i) : Effect e a :=
  .calm h (fun h => by rw [hmove] at h; cases h) (fun i _ _ _ _ ha => absurd ha (hpoll i))

/-- The poll of a query may bring the cache to its end. -/
theorem effect_query {background : Bool} {client : Nat} {r : Request} {stage : Stage}
    (ha : a.Polls i background) (hj : e.jobs[i]? = some (.query client r stage)) : Effect e a := by
  have hcalm : e.Calm (e.perform a) → Effect e a := by
    intro h
    refine .calm h ?_ ?_
    · intro hmove
      cases ha <;> cases hmove
    · rintro k token due document position rfl hpending
      cases ha
      have hnot := hpending.job
      rw [hj] at hnot
      cases hnot
  rcases ha.query_cases hj with heq | ⟨d, j, heq, hd⟩
  · rw [heq] at hcalm
    exact hcalm (.refl e)
  · have hd : e.Calm (d.setJob i j) := by
      rcases hd with hq | ⟨-, rfl⟩
      · exact (Calm.of_quiet hq).trans (.of_quiet (quiet_setJob d i j))
      · exact (calm_begin e background r).trans (.of_quiet (quiet_setJob _ i j))
    rcases calm_or_shuts_reap hd with hreap | hreap
    · rw [heq] at hcalm
      exact hcalm hreap
    · refine .shuts ?_
      rw [heq]
      exact hreap

theorem effect_poll (e : Engine F) (i : Nat) : Effect e (.poll i) := by
  have hcalm : e.Calm (e.perform (.poll i)) →
      (∀ token due document position, e.jobs[i]? = some (.timer token due document position) →
        e.isCancelled token = false → e.now < e.deadline due) → Effect e (.poll i) := by
    intro h hearly
    refine .calm h ?_ ?_
    · intro hmove
      cases hmove
    · intro k token due document position hk hpending
      cases hk
      exact hearly token due document position hpending.job hpending.running
  cases hj : e.jobs[i]? with
  | none =>
    rw [hj] at hcalm
    refine hcalm ?_ (by simp)
    rw [perform, poll_of_none hj]
    exact .refl e
  | some j =>
    rw [hj] at hcalm
    cases j with
    | drive call token =>
      refine hcalm ?_ (by simp)
      rw [perform, poll, hj]
      exact .of_quiet (quiet_pollDriver e i call token)
    | await client call stage =>
      refine hcalm ?_ (by simp)
      rw [perform, poll, hj]
      exact .of_quiet (quiet_pollAwait e i client call stage)
    | ended =>
      refine hcalm ?_ (by simp)
      rw [perform, poll, hj]
      exact .refl e
    | query client r stage => exact effect_query (.inside i) hj
    | timer token due document position =>
      cases hc : e.isCancelled token with
      | true =>
        refine hcalm ?_ fun token' due' document' position' h hc' => ?_
        · rw [perform, poll_timer_stopped hj hc]
          exact .of_quiet (quiet_setJob e i .ended)
        · cases h
          rw [hc] at hc'
          cases hc'
      | false =>
        rcases Nat.lt_or_ge e.now (e.deadline due) with hearly | hdue
        · refine hcalm ?_ fun token' due' document' position' h _ => ?_
          · rw [perform, poll_timer_early hj hc hearly]
            exact .of_quiet (quiet_setJob e i _)
          · cases h
            exact hearly
        · exact .goesOff ⟨hj, hc⟩ hdue (poll_timer_due ⟨hj, hc⟩ hdue)

/-- **What an ordinary action does to timers and generations**; moves where context is loaded
ahead. -/
theorem effect (e : Engine F) (hpreloads : a.isMove = true → e.options.preloads = true)
    (ha : a.isOrdinary = true) : Effect e a := by
  have hreap : ∀ d : Engine F, e.Calm d → e.perform a = d.reap → a.isMove = false →
      (∀ i, a ≠ .poll i) → Effect e a := by
    intro d hd heq hmove hpoll
    rcases calm_or_shuts_reap hd with h | h
    · exact effect_of_calm (by rw [heq]; exact h) hmove hpoll
    · exact .shuts (by rw [heq]; exact h)
  cases a with
  | move background document position =>
    cases hover : e.isOver with
    | true =>
      have hsame : e.perform (.move background document position) = e := by
        rw [perform, move, hover, Bool.or_true, if_pos rfl]
      refine .calm ?_ (fun _ => ⟨hover, hsame⟩) (by simp)
      rw [hsame]
      exact .refl e
    | false =>
      cases background with
      | true =>
        refine .arms hover ?_
        rw [perform, move, hover, hpreloads rfl]
        rfl
      | false =>
        refine effect_of_calm ?_ rfl (by simp)
        rw [perform, move]
        split
        · exact .refl e
        · exact .of_quiet (quiet_note e rfl)
  | dispose =>
    rcases calm_or_shuts_dispose e with h | h
    · exact effect_of_calm h rfl (by simp)
    · exact .shuts h
  | letGo =>
    have hgone : e.Calm { e with held := false } := .of_quiet (.background e _ _ _)
    exact hreap _ hgone rfl rfl (by simp)
  | ask r =>
    have hask : e.Calm (e.ask r).1 :=
      (calm_begin e false r).trans (.of_quiet (quiet_giveUp _ r _))
    exact effect_of_calm hask rfl (by simp)
  | abandon client =>
    exact effect_of_calm (.of_quiet (quiet_abandon e client)) rfl (by simp)
  | edit document changes =>
    exact effect_of_calm (calm_edit e document changes) rfl (by simp)
  | clear => exact effect_of_calm (calm_clear e) rfl (by simp)
  | query r => exact effect_of_calm (.of_quiet (quiet_spawn e _)) rfl (by simp)
  | await call => exact effect_of_calm (.of_quiet (quiet_spawn e _)) rfl (by simp)
  | tell order =>
    exact effect_of_calm ⟨rfl, rfl, rfl, rfl, fun _ h => .inl h⟩ rfl (by simp)
  | tick ms => exact effect_of_calm (.of_quiet (quiet_tick e ms)) rfl (by simp)
  | poll i => exact effect_poll e i
  | pollOutside i =>
    rcases e.pollOutside_cases i with hsame | ⟨client, r, stage, hj⟩
    · refine effect_of_calm ?_ rfl (by simp)
      rw [perform, hsame]
      exact .refl e
    · exact effect_query (.outside i) hj
  | warm _ _ _ => cases ha
  | disarm => cases ha
  | cancelRoot => cases ha

theorem disposed_move (e : Engine F) (background : Bool) (document : Uri) (position : Position) :
    (e.move background document position).disposed = e.disposed := by
  unfold move
  split
  · rfl
  · split
    · exact disposed_disarm e
    · rfl

/-! ### Timers come by moves and go by polls -/

/-- **But for moves, an action leaves every timer as it is**, unless it polls it: one that was
stopped or is due is over then, and another one knows from then on when it is due. -/
theorem timer_perform_iff (ha : a.isMove = false) :
    (e.perform a).jobs[i]? = some (.timer token due document position) ↔
      ∃ due', e.jobs[i]? = some (.timer token due' document position) ∧
        due = e.dueAfter i due' a ∧
        ¬ (a = .poll i ∧ (e.isCancelled token = true ∨ e.deadline due' ≤ e.now)) := by
  by_cases hpoll : a = .poll i
  · subst hpoll
    simp only [true_and, dueAfter_poll, perform]
    cases hj : e.jobs[i]? with
    | none => simp [poll_of_none hj, hj]
    | some old =>
      rw [jobs_poll hj, Option.some.injEq, polled_eq_timer_iff]
      simp only [Option.some.injEq]
  · simp only [hpoll, false_and, not_false_eq_true, and_true, dueAfter_of_ne hpoll]
    constructor
    · intro h
      refine ⟨due, ?_, rfl⟩
      rcases job_perform_cases h with h | ⟨-, hfresh⟩ | ⟨_, _, _, -, rfl, -⟩ | ⟨old, hold, hleave⟩ |
        ⟨background, old, hpolls, hold, hquery, hpolled⟩
      · exact h
      · cases hfresh
      · cases ha
      · rw [← Job.eq_of_leave_eq_timer hleave]
        exact hold
      · obtain ⟨due', rfl, -⟩ := polled_eq_timer_iff.mp hpolled.symm
        cases hpolls with
        | inside => exact absurd rfl hpoll
        | outside => cases hquery rfl
    · rintro ⟨due', h, rfl⟩
      rcases job_perform h a with h | ⟨-, h⟩ | ⟨background, hpolls, hquery, -⟩
      · exact h
      · exact h
      · cases hpolls with
        | inside => exact absurd rfl hpoll
        | outside => cases hquery rfl

/-! ### What is pending -/

/-- There is at most one timer that was not stopped, and it is the one that is running. -/
structure Tended (e : Engine F) : Prop where
  orderly : e.Orderly
  timed : e.Timed
  armed : ∀ {i token due document position}, e.Pending i token due document position →
    e.armed = some token
  alone : ∀ {i token due document position i' token' due' document' position'},
    e.Pending i token due document position → e.Pending i' token' due' document' position' →
    i = i'
  /-- While a timer is running, there is one. -/
  pending : e.isArmed = true → ∃ i token due document position,
    e.Pending i token due document position

/-- And the root is cancelled only by the end of the cache. -/
structure Watched (e : Engine F) : Prop extends Tended e where
  sealed : e.Sealed

/-- Once the root is cancelled, no timer is pending. -/
theorem not_pending_of_isOver (ho : e.Orderly) (ht : e.Timed) (hover : e.isOver = true) :
    ¬ e.Pending i token due document position := by
  intro hpending
  have hc := ht.isCancelled ho hover hpending.job
  rw [hpending.running] at hc
  cases hc

/-- After the end of the cache no timer is pending. -/
theorem not_pending_of_disposed (ho : e.Orderly) (hs : e.Sealed) (ht : e.Timed)
    (h : e.disposed = true) : ¬ e.Pending i token due document position :=
  not_pending_of_isOver ho ht (hs.trans h)

/-- Calm leaves pending what is pending. -/
theorem pending_calm (h : e.Calm (e.perform a))
    (hmove : a.isMove = true → e.isOver = true ∧ e.perform a = e)
    (hpoll : ∀ i token due document position, a = .poll i →
      e.Pending i token due document position → e.now < e.deadline due) :
    (e.perform a).Pending i token due document position ↔
      ∃ due', e.Pending i token due' document position ∧ due = e.dueAfter i due' a := by
  cases hm : a.isMove with
  | true =>
    rw [(hmove hm).2]
    have hne : a ≠ .poll i := by
      rintro rfl
      cases hm
    simp only [dueAfter_of_ne hne, exists_eq_right']
  | false =>
    have hsame : (e.perform a).isCancelled token = e.isCancelled token := by
      rw [isCancelled, h.tokens, isCancelled]
    constructor
    · intro hpending
      obtain ⟨due', hj, hdue, -⟩ := (timer_perform_iff hm).mp hpending.job
      refine ⟨due', ⟨hj, ?_⟩, hdue⟩
      rw [← hsame]
      exact hpending.running
    · rintro ⟨due', hpending, rfl⟩
      refine ⟨(timer_perform_iff hm).mpr ⟨due', hpending.job, rfl, ?_⟩, ?_⟩
      · rintro ⟨ha, hc | hdue⟩
        · rw [hpending.running] at hc
          cases hc
        · have hearly := hpoll i token due' document position ha hpending
          exact absurd hdue (Nat.not_le_of_lt hearly)
      · rw [hsame]
        exact hpending.running

/-- A token that was not cancelled later was not cancelled before. -/
theorem Ages.isCancelled_eq_false (h : e.Ages e') (ht : e'.isCancelled token = false) :
    e.isCancelled token = false := by
  rw [Bool.eq_false_iff] at ht ⊢
  exact fun hc => ht (h.isCancelled hc)

theorem options_disarm (e : Engine F) : e.disarm.options = e.options := by
  unfold disarm
  split <;> rfl

/-- The timer that was running is stopped. -/
theorem isCancelled_disarm (h : e.armed = some token) : e.disarm.isCancelled token = true := by
  rw [isCancelled, disarm, h]
  exact (TokenTree.isCancelled_cancel e.tokens token token).mpr (.inl List.mem_cons_self)

theorem isCancelled_arm (h : e.armed = some token) (document : Uri) (position : Position) :
    (e.arm document position).isCancelled token = true :=
  isCancelled_disarm h

theorem jobs_arm (e : Engine F) (document : Uri) (position : Position) :
    (e.arm document position).jobs = e.jobs.push
      (.timer (e.disarm.tokens.child e.disarm.generations.root).1 none document position) := by
  have hjobs : (e.arm document position).jobs = e.disarm.jobs.push
      (.timer (e.disarm.tokens.child e.disarm.generations.root).1 none document position) := rfl
  rw [hjobs, jobs_disarm]

/-- **After a move its own timer is pending, and no other**; it did not begin to count yet. -/
theorem pending_arm (h : e.Tended) (hopen : e.isOver = false) {d : Uri} {p : Position} :
    (e.arm d p).Pending i token due document position ↔
      i = e.jobs.size ∧ (e.arm d p).armed = some token ∧ due = none ∧
        document = d ∧ position = p := by
  have hages := ages_arm e d p
  have ho := hages.orderly h.orderly
  constructor
  · intro hpending
    have hj := hpending.job
    rw [jobs_arm, Array.getElem?_push] at hj
    split at hj
    · next hi =>
      cases hj
      exact ⟨hi, rfl, rfl, rfl, rfl⟩
    · -- a timer from before was the one that was running, which is stopped now
      have hbefore : e.Pending i token due document position :=
        ⟨hj, hages.isCancelled_eq_false hpending.running⟩
      have hstopped := isCancelled_arm (h.armed hbefore) d p
      have hrunning := hpending.running
      rw [hstopped] at hrunning
      cases hrunning
  · rintro ⟨rfl, harmed, rfl, rfl, rfl⟩
    have hnew : (e.disarm.tokens.child e.disarm.generations.root).1 = token :=
      Option.some.inj harmed
    refine ⟨?_, ?_⟩
    · rw [jobs_arm, hnew, Array.getElem?_push, if_pos rfl]
    · rw [Bool.eq_false_iff, Ne, (ho.armed token harmed).isCancelled_iff ho, isOver_arm h.orderly,
        hopen]
      rintro (hmem | hover)
      · -- nothing was cancelled that was not made, and this token is new
        have hlt := ((ages_disarm e).orderly h.orderly).cancelled_lt token.id hmem
        rw [← hnew] at hlt
        exact Nat.lt_irrefl _ hlt
      · cases hover

/-- **When the pending timer went off, none is pending.** -/
theorem not_pending_goesOff (h : e.Tended) {k : Nat} {token' : Token} {due' : Option Nat} {d : Uri}
    {p : Position} (hpending : e.Pending k token' due' d p) (hdue : e.deadline due' ≤ e.now) :
    ¬ (e.perform (.poll k)).Pending i token due document position := by
  intro hafter
  obtain ⟨_, hj, -, hnot⟩ := (timer_perform_iff rfl).mp hafter.job
  have hbefore : e.Pending i token _ document position :=
    ⟨hj, (ages_run e [.poll k]).isCancelled_eq_false hafter.running⟩
  obtain rfl := h.alone hbefore hpending
  have hsame := hj.symm.trans hpending.job
  simp only [Option.some.injEq, Job.timer.injEq] at hsame
  obtain ⟨rfl, rfl, rfl, rfl⟩ := hsame
  exact hnot ⟨rfl, .inr hdue⟩

/-! ### What any action does to the timer that is running -/

theorem isArmed_eq_true_iff :
    e.isArmed = true ↔ ∃ t, e.armed = some t ∧ e.isCancelled t = false := by
  unfold isArmed
  split
  · next t ht => simp [ht]
  · next ht => simp [ht]

theorem isArmed_of_none (h : e.armed = none) : e.isArmed = false := by
  rw [isArmed, h]

/-- Once the root is cancelled, no timer is running. -/
theorem isArmed_of_isOver (ho : e.Orderly) (hover : e.isOver = true) : e.isArmed = false := by
  unfold isArmed
  split
  · next t ht =>
    rw [((ho.armed t ht).isCancelled_iff ho).mpr (.inr hover)]
    rfl
  · rfl

/-- What an action does to the timer that is running. -/
inductive Turn (e : Engine F) (a : Action F) : Prop
  /-- Nothing, unless it polls it, which settles when it is due. -/
  | keeps (armed : (e.perform a).armed = e.armed)
      (pending : ∀ {i token due document position},
        (e.perform a).Pending i token due document position ↔
          ∃ due', e.Pending i token due' document position ∧ due = e.dueAfter i due' a)
  /-- It stops it: the cache's part that does so is asked, or the root is cancelled now. -/
  | stops (why : a = .disarm ∨ (e.perform a).isOver = true)
      (idle : (e.perform a).isArmed = false)
      (none : ∀ {i token due document position},
        ¬ (e.perform a).Pending i token due document position)
  /-- It starts another one in its place. -/
  | arms (document : Uri) (position : Position) (ha : a = .move true document position)
      (hopen : e.isOver = false) (h : e.perform a = e.arm document position)
  /-- It lets it go off. -/
  | goesOff {i : Nat} {token : Token} {due : Option Nat} {document : Uri} {position : Position}
      (ha : a = .poll i) (hpending : e.Pending i token due document position)
      (hdue : e.deadline due ≤ e.now) (idle : (e.perform a).armed = none)

theorem armed_warm (e : Engine F) (background : Bool) (document : Uri) (position : Position) :
    (e.warm background document position).1.armed = e.armed := by
  cases hover : e.isOver with
  | true =>
    rw [warm, if_pos hover]
    rfl
  | false =>
    rw [warm_of_not_isOver background document position hover]
    exact (still_servePreload e background document position).armed

/-- A preload cancels the generation before it, and no timer. -/
theorem isCancelled_warm (ho : e.Orderly) (h : e.armed = some token) (background : Bool)
    (document : Uri) (position : Position) :
    (e.warm background document position).1.isCancelled token = e.isCancelled token := by
  cases hover : e.isOver with
  | true =>
    rw [warm, if_pos hover]
    rfl
  | false =>
    rw [warm_of_not_isOver background document position hover]
    dsimp only
    rw [(still_servePreload e background document position).isCancelled_eq]
    have hb := ho.armed token h
    have hne := ho.current.unarmed token h
    have hb' : e.nextGeneration.Below token := hb.mono rfl (Nat.le_succ _)
    rw [Bool.eq_iff_iff, hb'.isCancelled_iff ((ages_nextGeneration e).orderly ho),
      isOver_nextGeneration ho, hb.isCancelled_iff ho]
    have hmem : token.id ∈ e.nextGeneration.tokens.cancelled
        ↔ token.id = e.generations.current.token.id ∨ token.id ∈ e.tokens.cancelled :=
      NumberSet.mem_insert
    rw [hmem, or_iff_right hne]

theorem Tended.turn_warm (h : e.Tended) (background : Bool) (d : Uri) (p : Position) :
    Turn e (.warm background d p) := by
  refine .keeps (armed_warm e background d p) ?_
  intro i token due document position
  constructor
  · intro hpending
    obtain ⟨due', hj, hdue, -⟩ := (timer_perform_iff rfl).mp hpending.job
    exact ⟨due', ⟨hj, (ages_run e [.warm background d p]).isCancelled_eq_false hpending.running⟩,
      hdue⟩
  · rintro ⟨due', hpending, hdue⟩
    refine ⟨(timer_perform_iff rfl).mpr ⟨due', hpending.job, hdue, fun hpoll => nomatch hpoll.1⟩,
      ?_⟩
    have hsame := isCancelled_warm h.orderly (h.armed hpending) background d p
    exact hsame.trans hpending.running

theorem Tended.turn_disarm (h : e.Tended) : Turn e (.disarm : Action F) := by
  refine .stops (.inl rfl) (isArmed_of_none (armed_disarm e)) ?_
  intro i token due document position hpending
  obtain ⟨_, hj, -, -⟩ := (timer_perform_iff rfl).mp hpending.job
  have hbefore : e.Pending i token _ document position :=
    ⟨hj, (ages_disarm e).isCancelled_eq_false hpending.running⟩
  have hrunning : e.disarm.isCancelled token = false := hpending.running
  rw [isCancelled_disarm (h.armed hbefore)] at hrunning
  cases hrunning

/-- Where nothing is loaded ahead, moves do nothing. -/
theorem perform_of_not_preloads (hoff : e.options.preloads = false) (hmove : a.isMove = true) :
    e.perform a = e := by
  cases a with
  | move background document position =>
    rw [perform, move, hoff]
    rfl
  | _ => cases hmove

/-- **Any action leaves the timer that is running, stops it, starts another one in its place or
lets it go off.** -/
theorem Tended.turn (h : e.Tended) (ho : (e.perform a).Orderly) (hc : (e.perform a).Closed)
    (ht : (e.perform a).Timed) : Turn e a := by
  have hend : (e.perform a).isOver = true → Turn e a := fun hover =>
    .stops (.inr hover) (isArmed_of_isOver ho hover) (not_pending_of_isOver ho ht hover)
  by_cases hordinary : a.isOrdinary = true
  · by_cases hpreloads : a.isMove = true → e.options.preloads = true
    · cases effect e hpreloads hordinary with
      | calm hcalm hmove hpoll => exact .keeps hcalm.armed (pending_calm hcalm hmove hpoll)
      | shuts hshuts => exact hend (hc hshuts.after).1
      | arms hopen heq => exact .arms _ _ rfl hopen heq
      | goesOff hpending hdue heq =>
        refine .goesOff rfl hpending hdue ?_
        rw [heq, armed_warm]
    · -- a move where nothing is loaded ahead
      obtain ⟨hmove, hon⟩ := Classical.not_imp.mp hpreloads
      have hsame := perform_of_not_preloads (Bool.eq_false_iff.mpr hon) hmove
      refine .keeps (by rw [hsame]) ?_
      intro i token due document position
      have hne : a ≠ .poll i := by
        rintro rfl
        cases hmove
      simp only [hsame, dueAfter_of_ne hne, exists_eq_right']
  · cases a with
    | warm background document position => exact h.turn_warm background document position
    | disarm => exact h.turn_disarm
    | cancelRoot => exact hend (isOver_cancelRoot e)
    | _ => exact absurd rfl hordinary

theorem Tended.perform (h : e.Tended) (ho : (e.perform a).Orderly) (ht : (e.perform a).Timed)
    (hturn : Turn e a) : (e.perform a).Tended := by
  have hnone : (e.perform a).isArmed = false → (∀ {i token due document position},
      ¬ (e.perform a).Pending i token due document position) → (e.perform a).Tended := by
    intro hidle hnot
    refine ⟨ho, ht, fun hp => absurd hp hnot, fun hp _ => absurd hp hnot, fun hp => ?_⟩
    rw [hidle] at hp
    cases hp
  cases hturn with
  | keeps harmed hpending =>
    refine ⟨ho, ht, fun hp => ?_, fun hp hp' => ?_, ?_⟩
    · obtain ⟨_, hbefore, -⟩ := hpending.mp hp
      rw [harmed]
      exact h.armed hbefore
    · obtain ⟨_, hbefore, -⟩ := hpending.mp hp
      obtain ⟨_, hbefore', -⟩ := hpending.mp hp'
      exact h.alone hbefore hbefore'
    · intro hrunning
      obtain ⟨t, ht, hc⟩ := isArmed_eq_true_iff.mp hrunning
      rw [harmed] at ht
      have hbefore := isArmed_eq_true_iff.mpr
        ⟨t, ht, (ages_run e [a]).isCancelled_eq_false hc⟩
      obtain ⟨i, token, due, document, position, hp⟩ := h.pending hbefore
      exact ⟨i, token, _, document, position, hpending.mpr ⟨due, hp, rfl⟩⟩
  | stops _ hidle hnot => exact hnone hidle hnot
  | goesOff ha hpending hdue hidle =>
    subst ha
    exact hnone (isArmed_of_none hidle) (not_pending_goesOff h hpending hdue)
  | arms d p _ hopen heq =>
    rw [heq] at ho ht ⊢
    have hnew : ∀ {i token due document position},
        (e.arm d p).Pending i token due document position ↔
          i = e.jobs.size ∧ (e.arm d p).armed = some token ∧ due = none ∧ document = d ∧
            position = p := pending_arm h hopen
    refine ⟨ho, ht, fun hp => (hnew.mp hp).2.1, fun hp hp' => ?_, fun _ => ?_⟩
    · rw [(hnew.mp hp).1, (hnew.mp hp').1]
    · exact ⟨_, _, _, _, _, hnew.mpr ⟨rfl, rfl, rfl, rfl, rfl⟩⟩

/-! ### Runs -/

theorem options_dispose (e : Engine F) : e.dispose.options = e.options := by
  unfold dispose
  split
  · rfl
  · exact options_disarm _

theorem Phase.options (h : e.Phase e') : e'.options = e.options := by
  cases h with
  | quiet hq => exact hq.options
  | clear => rfl
  | arm document position _ => exact options_disarm e
  | disarm => exact options_disarm e
  | goOff => rfl
  | query _ document position _ => exact (still_serve e _ _ _ document position).options
  | preload background document position _ =>
    exact (still_servePreload e background document position).options
  | dispose _ => exact options_dispose e

/-- How an engine is set up never changes. -/
theorem options_run (options : Options) (world : F.State) (actions : List (Action F)) :
    ((opening options world).run actions).options = options :=
  run_induction (fun hp h => hp.options.trans h) (fun _ _ h => h) actions _ (fun _ _ h => h) rfl

theorem tended_opening (options : Options) (world : F.State) :
    (opening options world).Tended where
  orderly := orderly_opening options world
  timed := timed_run options world []
  armed hp := nomatch hp.job
  alone hp := nomatch hp.job
  pending hp := nomatch hp

/-- **At any time at most one timer is pending**, and it is the one that is running. -/
theorem tended_run (options : Options) (world : F.State) (actions : List (Action F)) :
    ((opening options world).run actions).Tended := by
  induction actions using List.reverseRecOn with
  | nil => exact tended_opening options world
  | append_singleton past a ih =>
    obtain ⟨ho, hc⟩ := closed_run options world (past ++ [a])
    have ht := timed_run options world (past ++ [a])
    rw [run_append] at ho hc ht ⊢
    exact ih.perform ho ht (ih.turn ho hc ht)

end CursorContext.Engine
