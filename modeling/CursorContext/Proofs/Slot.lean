import CursorContext.Proofs.Debounce

/-!
# The slot of the timer

The cache keeps the token of the timer that was started last, and forgets it when a timer goes off,
without a look at whose token it is.  That is safe because a timer that was not stopped is the only
one, and what the cache keeps is the token of that one: a timer that was superseded finds its own
token cancelled, however late it is woken.

Timers are known by their jobs.  Their history is told by the actions of a run: the move that starts
a timer, the poll that wakes it, and whatever ends its wait in between.

## Main definitions

* `Engine.Starts`, `Engine.Sleeps`, `Engine.Wakes` — a timer is started, sleeps and is woken.
* `Engine.Completes` — a timer is woken and may go off.
* `Engine.Live` — a timer was started, and neither went off nor was stopped.
* `Engine.Halts`, `Engine.Halted` — what ends the wait of the timers that were started before.
* `Engine.OneTimer start actions` — what the slot has to do with the timers of a run.

## Main results

* `Wakes.not_sleeps`, `Starts.eq_iff` — a timer is woken once, and has a job and a token of its own.
* `live_iff_sleeps` — a timer is live exactly if it is there and was not stopped.
* `Attended.isCancelled_iff_halted` — a timer was stopped exactly if something ended its wait.
* `slot_belongs_to_live_timer` — all of it, for every run.
-/

namespace CursorContext.Engine

variable {F : Fetcher} {e e' : Engine F} {a : Action F} {i i' : Nat} {token token' : Token}
  {due : Option Nat} {document : Uri} {position : Position}

theorem Action.exists_of_isMove (h : a.isMove = true) :
    ∃ document position, a = .move true document position := by
  cases a with
  | move background document position =>
    obtain rfl : background = true := h
    exact ⟨document, position, rfl⟩
  | _ => cases h

/-! ### The jobs of timers -/

theorem size_le_perform (e : Engine F) (a : Action F) :
    e.jobs.size ≤ (e.perform a).jobs.size := by
  by_contra hlt
  rw [Nat.not_le] at hlt
  -- the job that would be missing is there before
  have hj := Array.getElem?_eq_getElem hlt
  have hafter : ∃ j, (e.perform a).jobs[(e.perform a).jobs.size]? = some j := by
    rcases job_perform hj a with h | ⟨-, h⟩ | ⟨_, -, -, h⟩
    · exact ⟨_, h⟩
    · exact ⟨_, h⟩
    · exact ⟨_, h⟩
  obtain ⟨j, hj'⟩ := hafter
  rw [Array.getElem?_size] at hj'
  cases hj'

/-- A job that is a timer was so as long as it was there. -/
theorem timer_of_perform (hi : i < e.jobs.size)
    (h : (e.perform a).jobs[i]? = some (.timer token due document position)) :
    ∃ due', e.jobs[i]? = some (.timer token due' document position) := by
  have hj := Array.getElem?_eq_getElem hi
  rcases job_perform hj a with h' | ⟨-, h'⟩ | ⟨background, -, -, h'⟩
  · exact ⟨due, by rw [hj, ← h', h]⟩
  · rw [h, Option.some.injEq] at h'
    exact ⟨due, by rw [hj, Job.eq_of_leave_eq_timer h']⟩
  · rw [h, Option.some.injEq] at h'
    obtain ⟨due', hbefore, -⟩ := polled_eq_timer_iff.mp h'.symm
    exact ⟨due', by rw [hj, hbefore]⟩

theorem move_cases (e : Engine F) (document : Uri) (position : Position) :
    e.move true document position = e ∨
      e.isOver = false ∧ e.move true document position = e.arm document position := by
  unfold move
  split
  · exact .inl rfl
  · next h =>
    right
    simp only [Bool.or_eq_true, not_or, Bool.not_eq_true] at h
    exact ⟨h.2, if_pos rfl⟩

/-- A timer that is new was started by a move, and its job stands behind the others. -/
theorem eq_move_of_new_timer (hnone : e.jobs[i]? = none)
    (hj : (e.perform a).jobs[i]? = some (.timer token due document position)) :
    (∃ d p, a = .move true d p) ∧ i = e.jobs.size ∧ due = none := by
  cases hm : a.isMove with
  | false =>
    obtain ⟨_, hbefore, -⟩ := (timer_perform_iff hm).mp hj
    rw [hnone] at hbefore
    cases hbefore
  | true =>
    obtain ⟨d, p, rfl⟩ := Action.exists_of_isMove hm
    refine ⟨⟨d, p, rfl⟩, ?_⟩
    rw [perform] at hj
    rcases move_cases e d p with hsame | ⟨-, harm⟩
    · rw [hsame, hnone] at hj
      cases hj
    · rw [harm, jobs_arm, Array.getElem?_push] at hj
      split at hj
      · next hnew =>
        cases hj
        exact ⟨hnew, rfl⟩
      · rw [hnone] at hj
        cases hj

/-! ### Tokens are told apart by their numbers -/

theorem issued_disarm (e : Engine F) : e.disarm.tokens.issued = e.tokens.issued := by
  unfold disarm
  split <;> rfl

theorem issued_dispose (e : Engine F) : e.dispose.tokens.issued = e.tokens.issued := by
  unfold dispose
  split
  · rfl
  · exact issued_disarm _

theorem issued_arm (e : Engine F) (document : Uri) (position : Position) :
    (e.arm document position).tokens.issued = e.tokens.issued + 1 :=
  congrArg (· + 1) (issued_disarm e)

/-- Tokens are only added. -/
theorem Phase.issued_le (h : e.Phase e') : e.tokens.issued ≤ e'.tokens.issued := by
  cases h with
  | quiet hq => exact Nat.le_of_eq (by rw [hq.tokens])
  | clear => exact Nat.le_refl _
  | arm document position _ =>
    rw [issued_arm]
    exact Nat.le_succ _
  | disarm => exact Nat.le_of_eq (issued_disarm e).symm
  | goOff => exact Nat.le_refl _
  | query background document position _ =>
    have hstill : e.Still (e.serveQuery background document position) :=
      still_serve e _ _ _ document position
    exact Nat.le_of_eq (by rw [hstill.tokens])
  | preload background document position _ =>
    rw [(still_servePreload e background document position).tokens]
    exact Nat.le_succ _
  | dispose _ => exact Nat.le_of_eq (issued_dispose e).symm

theorem issued_le_run (e : Engine F) (actions : List (Action F)) :
    e.tokens.issued ≤ (e.run actions).tokens.issued :=
  run_induction (fun hp h => Nat.le_trans h hp.issued_le) (fun _ _ h => h) actions e
    (fun _ _ h => h) (Nat.le_refl _)

/-! ### The history of a timer -/

section

variable (start : Engine F) (actions : List (Action F))

/-- The action `k` is a move that starts the timer `i` with a token. -/
structure Starts (k i : Nat) (token : Token) : Prop where
  move : ∃ document position, actions[k]? = some (.move true document position)
  new : i = start.timerOf actions k
  job : ∃ document position,
    (start.upTo actions (k + 1)).jobs[i]? = some (.timer token none document position)

/-- After `n` actions the timer `i` is there, whether it was stopped or not. -/
def Sleeps (n i : Nat) (token : Token) : Prop :=
  ∃ due document position,
    (start.upTo actions n).jobs[i]? = some (.timer token due document position)

/-- The action `n` wakes the timer `i`, which is due or was stopped. -/
structure Wakes (n i : Nat) (token : Token) (document : Uri) (position : Position) : Prop where
  polled : actions[n]? = some (.poll i)
  woken : ∃ due, (start.upTo actions n).jobs[i]? = some (.timer token due document position) ∧
    ((start.upTo actions n).isCancelled token = true ∨
      (start.upTo actions n).deadline due ≤ (start.upTo actions n).now)

/-- The action `n` wakes the timer `i`, which may go off. -/
def Completes (n i : Nat) (token : Token) : Prop :=
  (∃ document position, start.Wakes actions n i token document position) ∧
    ((start.upTo actions n).complete token).2 = true

/-- After `n` actions the timer `i` was started, and neither went off nor was stopped. -/
structure Live (n i : Nat) (token : Token) : Prop where
  started : ∃ k, k < n ∧ start.Starts actions k i token
  uncompleted : ∀ m, m < n → ¬ start.Completes actions m i token
  running : (start.upTo actions n).isCancelled token = false

/-- The action `n` ends the wait of the timers that were started before it. -/
inductive Halts (n : Nat) : Prop
  /-- It starts another timer. -/
  | supersedes {i : Nat} {token : Token} (h : start.Starts actions n i token)
  /-- It stops the timer that is running. -/
  | disarms (h : actions[n]? = some .disarm)
  /-- The root is cancelled when it is done. -/
  | ends (h : (start.upTo actions (n + 1)).isOver = true)

/-- An action between `k` and `n` ended the wait of the timers that were started until `k`. -/
def Halted (k n : Nat) : Prop := ∃ m, k < m ∧ m < n ∧ start.Halts actions m

end

section

variable {start : Engine F} {actions : List (Action F)} {k k' m n : Nat}

theorem halted_succ (hk : k < n) :
    start.Halted actions k (n + 1) ↔ start.Halted actions k n ∨ start.Halts actions n := by
  constructor
  · rintro ⟨m, hm, hlt, h⟩
    rcases Nat.lt_or_eq_of_le (Nat.le_of_lt_succ hlt) with hlt | rfl
    · exact .inl ⟨m, hm, hlt, h⟩
    · exact .inr h
  · rintro (⟨m, hm, hlt, h⟩ | h)
    · exact ⟨m, hm, Nat.lt_succ_of_lt hlt, h⟩
    · exact ⟨n, hk, Nat.lt_succ_self n, h⟩

theorem size_upTo_le (start : Engine F) (actions : List (Action F)) (h : m ≤ n) :
    (start.upTo actions m).jobs.size ≤ (start.upTo actions n).jobs.size := by
  induction n, h using Nat.le_induction with
  | base => exact Nat.le_refl _
  | succ n _ ih =>
    cases ha : actions[n]? with
    | none =>
      rw [upTo_succ_of_none ha]
      exact ih
    | some a =>
      rw [upTo_succ ha]
      exact Nat.le_trans ih (size_le_perform _ a)

theorem Starts.sleeps (h : start.Starts actions k i token) :
    start.Sleeps actions (k + 1) i token := ⟨none, h.job⟩

theorem Sleeps.lt_size (h : start.Sleeps actions n i token) :
    i < (start.upTo actions n).jobs.size := by
  obtain ⟨due, document, position, hj⟩ := h
  exact (Array.getElem?_eq_some_iff.mp hj).1

/-- A timer that is there was there since it was started. -/
theorem Sleeps.of_le (h : start.Sleeps actions n i token)
    (hi : i < (start.upTo actions m).jobs.size) (hm : m ≤ n) :
    start.Sleeps actions m i token := by
  induction n, hm using Nat.le_induction with
  | base => exact h
  | succ n hm ih =>
    apply ih
    obtain ⟨due, document, position, hj⟩ := h
    cases ha : actions[n]? with
    | none =>
      rw [upTo_succ_of_none ha] at hj
      exact ⟨due, document, position, hj⟩
    | some a =>
      rw [upTo_succ ha] at hj
      have hlt := Nat.lt_of_lt_of_le hi (size_upTo_le start actions hm)
      obtain ⟨due', hbefore⟩ := timer_of_perform hlt hj
      exact ⟨due', document, position, hbefore⟩

/-- A timer that is woken is over. -/
theorem Wakes.not_sleeps (h : start.Wakes actions m i token document position)
    (hm : m < n) : ¬ start.Sleeps actions n i token' := by
  intro hsleeps
  obtain ⟨due, hj, hwoken⟩ := h.woken
  have hi := (Array.getElem?_eq_some_iff.mp hj).1
  have hi' := Nat.lt_of_lt_of_le hi (size_upTo_le start actions (Nat.le_succ m))
  obtain ⟨due', d, p, hj'⟩ := hsleeps.of_le hi' hm
  rw [upTo_succ h.polled, perform, jobs_poll hj, Option.some.injEq, polled_eq_timer_iff] at hj'
  obtain ⟨_, hsame, -, hnot⟩ := hj'
  cases hsame
  exact hnot hwoken

/-- What a timer asks when it is woken decides whether it loads its position ahead. -/
theorem Wakes.upTo_succ (h : start.Wakes actions n i token document position) :
    start.upTo actions (n + 1) =
      let (e, goesOff) := ((start.upTo actions n).setJob i .ended).complete token
      if goesOff then (e.warm true document position).1 else e := by
  obtain ⟨due, hj, hwoken⟩ := h.woken
  have hdo : ((start.upTo actions n).isCancelled token
      || decide ((start.upTo actions n).deadline due ≤ (start.upTo actions n).now)) = true := by
    simpa using hwoken
  have hpoll : (start.upTo actions n).poll i
      = (start.upTo actions n).elapse i token document position := by
    rw [poll, hj]
    dsimp only
    rw [pollTimer, if_pos hdo]
  rw [Engine.upTo_succ h.polled, perform, hpoll]
  exact elapse_eq _ i token document position

/-! ### Where timers come from -/

theorem exists_starts_of_arm (hmove : actions[k]? = some (.move true document position))
    (harm : start.upTo actions (k + 1) = (start.upTo actions k).arm document position) :
    ∃ token, start.Starts actions k (start.timerOf actions k) token := by
  have hj : (start.upTo actions (k + 1)).jobs[start.timerOf actions k]? = some (.timer
      ((start.upTo actions k).disarm.tokens.child (start.upTo actions k).disarm.generations.root).1
      none document position) := by
    rw [harm, jobs_arm]
    exact Array.getElem?_push_size
  exact ⟨_, ⟨document, position, hmove⟩, rfl, document, position, hj⟩

/-- A move starts a timer, where context is loaded ahead and the root is not cancelled. -/
theorem exists_starts_of_move (hmove : actions[k]? = some (.move true document position))
    (hpreloads : (start.upTo actions k).options.preloads = true)
    (hopen : (start.upTo actions k).isOver = false) :
    ∃ token, start.Starts actions k (start.timerOf actions k) token := by
  apply exists_starts_of_arm hmove
  rw [upTo_succ hmove, perform, move, hpreloads, hopen]
  rfl

/-- A timer is started in the place of the one that was running. -/
theorem Starts.arms (h : start.Starts actions k i token) :
    (start.upTo actions k).isOver = false ∧ ∃ document position,
      start.upTo actions (k + 1) = (start.upTo actions k).arm document position := by
  obtain ⟨document, position, hmove⟩ := h.move
  obtain ⟨d, p, hj⟩ := h.job
  rw [upTo_succ hmove, perform] at hj ⊢
  rcases move_cases (start.upTo actions k) document position with hsame | ⟨hopen, harm⟩
  · -- there would be no job behind the others
    rw [hsame, h.new, timerOf, Array.getElem?_size] at hj
    cases hj
  · exact ⟨hopen, document, position, harm⟩

/-- Its token is new, and it is the one that is kept. -/
theorem Starts.token_eq (h : start.Starts actions k i token) :
    token.id = (start.upTo actions k).tokens.issued ∧
      (start.upTo actions (k + 1)).armed = some token := by
  obtain ⟨-, document, position, harm⟩ := h.arms
  obtain ⟨d, p, hj⟩ := h.job
  rw [harm, jobs_arm, h.new, timerOf, Array.getElem?_push_size] at hj
  cases hj
  exact ⟨issued_disarm _, by rw [harm]; rfl⟩

/-- Of two timers, the one that was started later has the later job and the later token. -/
theorem Starts.lt_of_lt (h : start.Starts actions k i token)
    (h' : start.Starts actions k' i' token') (hlt : k < k') : i < i' ∧ token.id < token'.id := by
  obtain ⟨-, document, position, harm⟩ := h.arms
  constructor
  · have hsize := size_upTo_le start actions (Nat.succ_le_of_lt hlt)
    rw [harm, jobs_arm, Array.size_push] at hsize
    rw [h.new, h'.new]
    exact hsize
  · obtain ⟨later, hrun⟩ := reachable_upTo start actions (Nat.succ_le_of_lt hlt)
    have hissued := issued_le_run (start.upTo actions (k + 1)) later
    rw [hrun, harm, issued_arm] at hissued
    rw [h.token_eq.1, h'.token_eq.1]
    exact hissued

theorem Starts.token_eq_of_eq (h : start.Starts actions k i token)
    (h' : start.Starts actions k i' token') : token = token' := by
  have harmed := h.token_eq.2
  rw [h'.token_eq.2, Option.some.injEq] at harmed
  exact harmed.symm

/-- Timers are known by their jobs, and by their tokens. -/
theorem Starts.eq_iff (h : start.Starts actions k i token)
    (h' : start.Starts actions k' i' token') : (i = i' ↔ k = k') ∧ (token = token' ↔ k = k') := by
  rcases Nat.lt_trichotomy k k' with hlt | rfl | hlt
  · obtain ⟨hi, ht⟩ := h.lt_of_lt h' hlt
    refine ⟨by omega, ?_⟩
    refine iff_of_false ?_ (Nat.ne_of_lt hlt)
    rintro rfl
    exact Nat.lt_irrefl _ ht
  · have hi := h.new.trans h'.new.symm
    exact ⟨iff_of_true hi rfl, iff_of_true (h.token_eq_of_eq h') rfl⟩
  · obtain ⟨hi, ht⟩ := h'.lt_of_lt h hlt
    refine ⟨by omega, ?_⟩
    refine iff_of_false ?_ (Nat.ne_of_gt hlt)
    rintro rfl
    exact Nat.lt_irrefl _ ht

/-- A timer is not there before the move that starts it was made. -/
theorem Starts.lt_of_sleeps (h : start.Starts actions k i token)
    (hsleeps : start.Sleeps actions n i token) : k < n := by
  by_contra hle
  have hsize := size_upTo_le start actions (Nat.le_of_not_lt hle)
  have hlt := hsleeps.lt_size
  rw [h.new, timerOf] at hlt
  omega

/-- A timer was started by a move. -/
theorem Sleeps.exists_starts (hjobs : start.jobs = #[]) (h : start.Sleeps actions n i token) :
    ∃ k, k < n ∧ start.Starts actions k i token := by
  induction n with
  | zero =>
    obtain ⟨due, document, position, hj⟩ := h
    rw [upTo_zero, hjobs] at hj
    cases hj
  | succ n ih =>
    by_cases hi : i < (start.upTo actions n).jobs.size
    · obtain ⟨k, hk, hstarts⟩ := ih (h.of_le hi (Nat.le_succ n))
      exact ⟨k, Nat.lt_succ_of_lt hk, hstarts⟩
    · -- its job is new, so the action is a move that started it
      obtain ⟨due, document, position, hj⟩ := h
      have hnone : (start.upTo actions n).jobs[i]? = none :=
        Array.getElem?_eq_none (Nat.le_of_not_lt hi)
      cases ha : actions[n]? with
      | none =>
        rw [upTo_succ_of_none ha, hnone] at hj
        cases hj
      | some a =>
        have hafter := hj
        rw [upTo_succ ha] at hafter
        obtain ⟨⟨d, p, rfl⟩, hnew, rfl⟩ := eq_move_of_new_timer hnone hafter
        exact ⟨n, Nat.lt_succ_self n, ⟨d, p, ha⟩, hnew, document, position, hj⟩

/-! ### Who is live -/

theorem isCancelled_upTo (h : m ≤ n) (hn : (start.upTo actions n).isCancelled token = false) :
    (start.upTo actions m).isCancelled token = false := by
  obtain ⟨later, hrun⟩ := reachable_upTo start actions h
  have hages := ages_run (start.upTo actions m) later
  rw [hrun] at hages
  exact hages.isCancelled_eq_false hn

/-- A timer that is not woken goes on to sleep. -/
theorem Sleeps.succ (h : start.Sleeps actions n i token)
    (hnot : ∀ document position, ¬ start.Wakes actions n i token document position) :
    start.Sleeps actions (n + 1) i token := by
  obtain ⟨due, document, position, hj⟩ := h
  cases ha : actions[n]? with
  | none =>
    refine ⟨due, document, position, ?_⟩
    rw [upTo_succ_of_none ha]
    exact hj
  | some a =>
    rcases job_perform hj a with h' | ⟨-, h'⟩ | ⟨background, hpolls, hquery, h'⟩
    · exact ⟨due, document, position, by rw [upTo_succ ha]; exact h'⟩
    · exact ⟨due, document, position, by rw [upTo_succ ha]; exact h'⟩
    · cases hpolls with
      | outside => cases hquery rfl
      | inside =>
        -- it is polled before it is due, and knows the time from then on
        refine ⟨some ((start.upTo actions n).deadline due), document, position, ?_⟩
        rw [upTo_succ ha, h', polled_eq_timer_iff.mpr]
        exact ⟨due, rfl, rfl, fun hwoken => hnot document position ⟨ha, due, hj, hwoken⟩⟩

/-- **A timer is live exactly if it is there and was not stopped.** -/
theorem live_iff_sleeps (hjobs : start.jobs = #[]) :
    start.Live actions n i token ↔
      start.Sleeps actions n i token ∧ (start.upTo actions n).isCancelled token = false := by
  constructor
  · rintro ⟨⟨k, hk, hstarts⟩, hnot, hrunning⟩
    refine ⟨?_, hrunning⟩
    induction n, hk using Nat.le_induction with
    | base => exact hstarts.sleeps
    | succ n hk ih =>
      have hbefore := isCancelled_upTo (Nat.le_succ n) hrunning
      apply (ih (fun m hm => hnot m (Nat.lt_succ_of_lt hm)) hbefore).succ
      intro document position hwakes
      -- it would have gone off
      apply hnot n (Nat.lt_succ_self n)
      refine ⟨⟨document, position, hwakes⟩, ?_⟩
      rw [complete_snd, hbefore]
      rfl
  · rintro ⟨hsleeps, hrunning⟩
    refine ⟨hsleeps.exists_starts hjobs, ?_, hrunning⟩
    rintro m hm ⟨⟨document, position, hwakes⟩, -⟩
    exact hwakes.not_sleeps hm hsleeps

theorem Sleeps.pending (h : start.Sleeps actions n i token)
    (hrunning : (start.upTo actions n).isCancelled token = false) :
    ∃ due document position, (start.upTo actions n).Pending i token due document position := by
  obtain ⟨due, document, position, hj⟩ := h
  exact ⟨due, document, position, hj, hrunning⟩

/-- A timer goes off once at most. -/
theorem Completes.unique (h : start.Completes actions m i token)
    (h' : start.Completes actions n i token') : m = n := by
  have hnot : ∀ {x y t t'}, start.Completes actions x i t → start.Completes actions y i t' →
      ¬ x < y := by
    rintro x y t t' ⟨⟨_, _, hx⟩, -⟩ ⟨⟨d, p, hy⟩, -⟩ hlt
    obtain ⟨due, hj, -⟩ := hy.woken
    exact hx.not_sleeps hlt ⟨due, d, p, hj⟩
  have hle := Nat.le_of_not_lt (hnot h h')
  have hge := Nat.le_of_not_lt (hnot h' h)
  omega

/-! ### What ends the wait of a timer -/

/-- What is needed of a run: at any time one timer is pending at most, and every action does one of
four things to it. -/
structure Attended (start : Engine F) (actions : List (Action F)) : Prop where
  tended : ∀ n, (start.upTo actions n).Tended
  turn : ∀ n a, actions[n]? = some a → Turn (start.upTo actions n) a
  jobs : start.jobs = #[]

theorem attended_opening (options : Options) (world : F.State) (actions : List (Action F)) :
    (opening options world).Attended actions where
  tended n := tended_run options world _
  turn n a ha := by
    obtain ⟨ho, hc⟩ := closed_run options world (actions.take (n + 1))
    have ht := timed_run options world (actions.take (n + 1))
    have hstep := upTo_succ ha (opening options world)
    rw [upTo] at hstep
    rw [hstep] at ho hc ht
    exact (tended_run options world _).turn ho hc ht
  jobs := rfl

/-- A timer that is live is pending. -/
theorem Attended.pending_of_live (h : start.Attended actions)
    (hlive : start.Live actions n i token) : ∃ due document position,
      (start.upTo actions n).Pending i token due document position := by
  obtain ⟨hsleeps, hrunning⟩ := (live_iff_sleeps h.jobs).mp hlive
  exact hsleeps.pending hrunning

/-- After the move that started it, a timer is pending. -/
theorem Attended.pending_of_starts (h : start.Attended actions)
    (hstarts : start.Starts actions k i token) : ∃ due document position,
      (start.upTo actions (k + 1)).Pending i token due document position := by
  obtain ⟨hopen, d, p, heq⟩ := hstarts.arms
  have harmed := hstarts.token_eq.2
  rw [heq] at harmed ⊢
  have hnew := (pending_arm (h.tended k) hopen).mpr ⟨hstarts.new, harmed, rfl, rfl, rfl⟩
  exact ⟨_, _, _, hnew⟩

/-- An action that stops the timer that waits ends its wait. -/
theorem Attended.halts_of_isCancelled (h : start.Attended actions)
    (hp : (start.upTo actions n).Pending i token due document position)
    (hsleeps : start.Sleeps actions (n + 1) i token)
    (hc : (start.upTo actions (n + 1)).isCancelled token = true) : start.Halts actions n := by
  cases ha : actions[n]? with
  | none =>
    rw [upTo_succ_of_none ha, hp.running] at hc
    cases hc
  | some a =>
    have hsucc := upTo_succ ha start
    cases h.turn n a ha with
    | keeps _ hpending =>
      have hrunning := (hpending.mpr ⟨due, hp, rfl⟩).running
      rw [← hsucc, hc] at hrunning
      cases hrunning
    | stops why _ _ =>
      rcases why with rfl | hover
      · exact .disarms ha
      · exact .ends (by rw [hsucc]; exact hover)
    | arms d p hmove _ heq =>
      subst hmove
      obtain ⟨t, hstarts⟩ := exists_starts_of_arm ha (hsucc.trans heq)
      exact .supersedes hstarts
    | @goesOff i' t due' d p hpoll hp' hdue _ =>
      -- the timer that goes off is this one, and would be over
      subst hpoll
      obtain rfl := (h.tended n).alone hp hp'
      have hwakes : start.Wakes actions n i t d p := ⟨ha, due', hp'.job, .inr hdue⟩
      exact absurd hsleeps (hwakes.not_sleeps (Nat.lt_succ_self n))

/-- And whatever ends its wait stops it. -/
theorem Attended.isCancelled_of_halts (h : start.Attended actions)
    (hp : (start.upTo actions n).Pending i token due document position)
    (hsleeps : start.Sleeps actions (n + 1) i token) (hhalts : start.Halts actions n) :
    (start.upTo actions (n + 1)).isCancelled token = true := by
  have harmed := (h.tended n).armed hp
  cases hhalts with
  | supersedes hstarts =>
    obtain ⟨-, d, p, heq⟩ := hstarts.arms
    rw [heq]
    exact isCancelled_arm harmed d p
  | disarms ha =>
    rw [upTo_succ ha]
    exact isCancelled_disarm harmed
  | ends hover =>
    obtain ⟨due', d, p, hj⟩ := hsleeps
    exact (h.tended (n + 1)).timed.isCancelled (h.tended (n + 1)).orderly hover hj

/-- **A timer that is there was stopped exactly if something ended its wait since it was
started.** -/
theorem Attended.isCancelled_iff_halted (h : start.Attended actions)
    (hstarts : start.Starts actions k i token) (hsleeps : start.Sleeps actions n i token) :
    (start.upTo actions n).isCancelled token = true ↔ start.Halted actions k n := by
  induction n, hstarts.lt_of_sleeps hsleeps using Nat.le_induction with
  | base =>
    obtain ⟨due, d, p, hp⟩ := h.pending_of_starts hstarts
    rw [hp.running]
    refine iff_of_false Bool.false_ne_true ?_
    rintro ⟨m, hm, hlt, -⟩
    omega
  | succ n hk ih =>
    have hi : i < (start.upTo actions n).jobs.size :=
      Nat.lt_of_lt_of_le hstarts.sleeps.lt_size (size_upTo_le start actions hk)
    have hbefore := hsleeps.of_le hi (Nat.le_succ n)
    have hhalted : (start.upTo actions n).isCancelled token = true ↔
        start.Halted actions k n := ih hbefore
    rw [halted_succ hk, ← hhalted]
    cases hc : (start.upTo actions n).isCancelled token with
    | true =>
      -- what was stopped stays so
      refine iff_of_true ?_ (.inl rfl)
      by_contra hrunning
      rw [Bool.not_eq_true] at hrunning
      rw [isCancelled_upTo (Nat.le_succ n) hrunning] at hc
      cases hc
    | false =>
      obtain ⟨due, d, p, hp⟩ := hbefore.pending hc
      rw [or_iff_right Bool.false_ne_true]
      exact ⟨h.halts_of_isCancelled hp hsleeps, h.isCancelled_of_halts hp hsleeps⟩

end

/-! ### The slot -/

/-- What the slot has to do with the timers of a run. -/
structure OneTimer (start : Engine F) (actions : List (Action F)) : Prop where
  /-- A move starts a timer, where context is loaded ahead and the root is not cancelled. -/
  starts : ∀ k document position, actions[k]? = some (.move true document position) →
    (start.upTo actions k).options.preloads = true → (start.upTo actions k).isOver = false →
    ∃ token, start.Starts actions k (start.timerOf actions k) token
  /-- Every timer that is there was started by a move. -/
  started : ∀ n i token, start.Sleeps actions n i token →
    ∃ k, k < n ∧ start.Starts actions k i token
  /-- Timers that different moves started have different jobs and different tokens. -/
  apart : ∀ k k' i i' token token', start.Starts actions k i token →
    start.Starts actions k' i' token' → (i = i' ↔ k = k') ∧ (token = token' ↔ k = k')
  /-- At most one timer is live. -/
  alone : ∀ n i i' token token', start.Live actions n i token → start.Live actions n i' token' →
    i = i' ∧ token = token'
  /-- When there is one, its token is kept, and a timer is running. -/
  kept : ∀ n i token, start.Live actions n i token →
    (start.upTo actions n).armed = some token ∧ (start.upTo actions n).isArmed = true
  /-- When there is none, no timer is running. -/
  idle : ∀ n, (∀ i token, ¬ start.Live actions n i token) →
    (start.upTo actions n).isArmed = false
  /-- What a timer asks when it is woken decides whether it loads its position ahead. -/
  woken : ∀ n i token document position, start.Wakes actions n i token document position →
    start.upTo actions (n + 1) =
      let (e, goesOff) := ((start.upTo actions n).setJob i .ended).complete token
      if goesOff then (e.warm true document position).1 else e
  /-- Whenever a timer asks and may go off, the token that is forgotten is its own. -/
  own : ∀ n i token, start.Sleeps actions n i token →
    ((start.upTo actions n).complete token).2 = true →
    (start.upTo actions n).armed = some token ∧
      ((start.upTo actions n).complete token).1.armed = none
  /-- A timer goes off once at most. -/
  once : ∀ m n i token token', start.Completes actions m i token →
    start.Completes actions n i token' → m = n
  /-- Whenever a timer asks, it may not go off exactly if since it was started another one was, or
  it was stopped, or the root was cancelled. -/
  refused : ∀ k n i token, start.Starts actions k i token → start.Sleeps actions n i token →
    (((start.upTo actions n).complete token).2 = false ↔ start.Halted actions k n)

/-- **The slot belongs to the one timer that is live.**  In every run, whatever is done and in
whatever order, at most one timer that was started neither went off nor was stopped, and it is the
one whose token is kept.  So forgetting that token, when a timer goes off, never takes that of
another one: a timer that was superseded or stopped, or that outlived the root, does not go off,
however late it is woken, and no timer goes off twice. -/
theorem slot_belongs_to_live_timer (options : Options) (world : F.State)
    (actions : List (Action F)) : (opening options world).OneTimer actions := by
  have h := attended_opening options world actions
  refine ⟨?_, ?_, ?_, ?_, ?_, ?_, ?_, ?_, ?_, ?_⟩
  · intro k document position hmove hpreloads hopen
    exact exists_starts_of_move hmove hpreloads hopen
  · intro n i token hsleeps
    exact hsleeps.exists_starts h.jobs
  · intro k k' i i' token token' hstarts hstarts'
    exact hstarts.eq_iff hstarts'
  · intro n i i' token token' hlive hlive'
    obtain ⟨due, d, p, hp⟩ := h.pending_of_live hlive
    obtain ⟨due', d', p', hp'⟩ := h.pending_of_live hlive'
    have harmed := (h.tended n).armed hp
    rw [(h.tended n).armed hp', Option.some.injEq] at harmed
    exact ⟨(h.tended n).alone hp hp', harmed.symm⟩
  · intro n i token hlive
    obtain ⟨due, d, p, hp⟩ := h.pending_of_live hlive
    have harmed := (h.tended n).armed hp
    exact ⟨harmed, isArmed_eq_true_iff.mpr ⟨token, harmed, hlive.running⟩⟩
  · intro n hnone
    rw [Bool.eq_false_iff]
    intro harmed
    obtain ⟨i, token, due, d, p, hp⟩ := (h.tended n).pending harmed
    exact hnone i token ((live_iff_sleeps h.jobs).mpr ⟨⟨due, d, p, hp.job⟩, hp.running⟩)
  · intro n i token document position hwakes
    exact hwakes.upTo_succ
  · intro n i token hsleeps hgranted
    rw [complete_snd, Bool.not_eq_true'] at hgranted
    obtain ⟨due, d, p, hp⟩ := hsleeps.pending hgranted
    refine ⟨(h.tended n).armed hp, ?_⟩
    rw [complete, hgranted]
    rfl
  · intro m n i token token' hm hn
    exact hm.unique hn
  · intro k n i token hstarts hsleeps
    rw [complete_snd, Bool.not_eq_false', h.isCancelled_iff_halted hstarts hsleeps]

/-- The timer of the first move is due when the second move comes, and is woken only then.  The
second timer goes off, after a position was loaded ahead at once; the third one outlives the
root. -/
def tardy : List (Action Fetcher.canned) :=
  [.move true ⟨"file:///a"⟩ ⟨3, 0⟩, .poll 0, .tick 100, .move true ⟨"file:///a"⟩ ⟨9, 0⟩, .poll 0,
    .poll 1, .warm true ⟨"file:///a"⟩ ⟨5, 0⟩, .tick 100, .poll 1,
    .move true ⟨"file:///a"⟩ ⟨1, 0⟩, .poll 6, .cancelRoot, .tick 100]

/-- The first timer is refused and leaves the second one alone, which goes off at its time; the
third one is refused too. -/
theorem slot_belongs_to_live_timer_tardy :
    (((opening {} ({} : Canned.State)).upTo tardy 4).complete ⟨2, [0]⟩).2 = false ∧
    ((opening {} ({} : Canned.State)).upTo tardy 5).isArmed = true ∧
    ((opening {} ({} : Canned.State)).upTo tardy 8).armed = some ⟨3, [0]⟩ ∧
    (opening {} ({} : Canned.State)).Completes tardy 8 1 ⟨3, [0]⟩ ∧
    (((opening {} ({} : Canned.State)).upTo tardy 13).complete ⟨6, [0]⟩).2 = false := by
  have hslot := slot_belongs_to_live_timer {} ({} : Canned.State) tardy
  have hfirst : (opening {} ({} : Canned.State)).Starts tardy 0 0 ⟨2, [0]⟩ :=
    ⟨⟨_, _, rfl⟩, rfl, _, _, rfl⟩
  have hsecond : (opening {} ({} : Canned.State)).Starts tardy 3 1 ⟨3, [0]⟩ :=
    ⟨⟨_, _, rfl⟩, by decide +kernel, _, _, rfl⟩
  have hthird : (opening {} ({} : Canned.State)).Starts tardy 9 6 ⟨6, [0]⟩ :=
    ⟨⟨_, _, rfl⟩, by decide +kernel, _, _, rfl⟩
  have hlive : (opening {} ({} : Canned.State)).Live tardy 5 1 ⟨3, [0]⟩ :=
    (live_iff_sleeps rfl).mpr ⟨⟨none, _, _, rfl⟩, by decide +kernel⟩
  have hgranted : (((opening {} ({} : Canned.State)).upTo tardy 8).complete ⟨3, [0]⟩).2 = true := by
    decide +kernel
  refine ⟨?_, (hslot.kept 5 1 _ hlive).2, ?_, ?_, ?_⟩
  · exact (hslot.refused 0 4 0 _ hfirst ⟨some 100, _, _, rfl⟩).mpr
      ⟨3, by decide, by decide, .supersedes hsecond⟩
  · exact (hslot.own 8 1 _ ⟨some 200, _, _, rfl⟩ hgranted).1
  · exact ⟨⟨_, _, rfl, some 200, rfl, .inr (by decide +kernel)⟩, hgranted⟩
  · exact (hslot.refused 9 13 6 _ hthird ⟨some 300, _, _, rfl⟩).mpr
      ⟨11, by decide, by decide, .ends (by decide +kernel)⟩

end CursorContext.Engine
