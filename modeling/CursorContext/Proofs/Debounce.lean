import CursorContext.Fetch.Canned
import CursorContext.Proofs.Moments
import CursorContext.Proofs.Timers
import Mathlib.Data.Nat.Init

/-!
# The debounce

A generation of preloads begins when a timer goes off, and whose timer goes off can be told from the
moves, the polls of timers, the clock and the end of the cache alone.  A timer counts from its first
poll on.  A move *goes off* at the first poll of its timer after it is due, unless another move or
the end of the cache comes before that.

The invariant is that a timer is pending exactly if its move waits in this sense, so what is pending
at any time is read off the actions done so far.

If the clock goes on only when nothing is ready, the first poll of a timer that was not stopped
comes at the time of its move, so what matters is only whether the clock comes to the end of the
debounce after the move.

## Main definitions

* `Engine.upTo e actions n` — the engine after the first `n` actions.
* `Engine.CountsFrom`, `Engine.IsDue` — the first poll of a timer, and whether it is due.
* `Engine.Latest`, `Engine.Waits`, `Engine.GoesOff` — a move is the last one, waits for its timer
  and goes off.
* `Engine.Preloads e e' document position` — from `e` to `e'` a generation begins for a position.
* `Engine.Punctual start actions` — the clock goes on only when nothing is ready.
* `Engine.Debounce start actions` — which generations begin in a run, and for what.
* `Engine.OnTime start actions` — the same told by the times of the moves, for a punctual run.

## Main results

* `exists_goesOff_iff` — a move goes off exactly if its timer is polled when it is due, before
  another move and the end of the cache.
* `Guarded.pending_iff_waits` — a timer is pending exactly if its move waits for it.
* `Guarded.preloads_of_goesOff`, `Guarded.generations_of_not_goesOff` — generations begin where
  moves go off, and nowhere else.
* `Guarded.exists_steps` — the moves that went off are as many as the generations, in the same
  order.
* `Guarded.goesOff_iff_of_punctual` — in a punctual run a move goes off exactly if its timer is
  polled a debounce after it, before another move and the end of the cache.
* `debounce_is_exact` — all of it, for every run.
-/

namespace CursorContext.Engine

variable {F : Fetcher} {e e' : Engine F}

/-! ### Runs, action by action -/

/-- The engine after the first of some actions. -/
def upTo (e : Engine F) (actions : List (Action F)) (n : Nat) : Engine F := e.run (actions.take n)

@[simp] theorem upTo_zero (e : Engine F) (actions : List (Action F)) : e.upTo actions 0 = e := rfl

theorem upTo_succ {actions : List (Action F)} {n : Nat} {a : Action F}
    (ha : actions[n]? = some a) (e : Engine F) :
    e.upTo actions (n + 1) = (e.upTo actions n).perform a := by
  rw [upTo, List.take_add_one, ha, run_append]
  rfl

theorem upTo_of_length_le {actions : List (Action F)} {n : Nat} (h : actions.length ≤ n)
    (e : Engine F) : e.upTo actions n = e.run actions := by
  rw [upTo, List.take_of_length_le h]

theorem upTo_succ_of_none {actions : List (Action F)} {n : Nat} (ha : actions[n]? = none)
    (e : Engine F) : e.upTo actions (n + 1) = e.upTo actions n := by
  have hle := List.getElem?_eq_none_iff.mp ha
  rw [upTo_of_length_le hle, upTo_of_length_le (Nat.le_succ_of_le hle)]

theorem reachable_upTo (e : Engine F) (actions : List (Action F)) {m n : Nat} (h : m ≤ n) :
    (e.upTo actions m).Reachable (e.upTo actions n) := by
  refine ⟨(actions.take n).drop m, ?_⟩
  have hsplit : actions.take n = actions.take m ++ (actions.take n).drop m := by
    have htake : actions.take m = (actions.take n).take m := by
      rw [List.take_take, Nat.min_eq_left h]
    rw [htake, List.take_append_drop]
  exact (run_append e _ _).symm.trans (congrArg e.run hsplit.symm)

theorem disposed_upTo (e : Engine F) (actions : List (Action F)) {m n : Nat} (h : m ≤ n)
    (hn : (e.upTo actions n).disposed = false) : (e.upTo actions m).disposed = false := by
  rw [Bool.eq_false_iff] at hn ⊢
  exact fun hm => hn ((reachable_upTo e actions h).disposed hm)

/-- The clock never goes back. -/
theorem now_le_perform (e : Engine F) (a : Action F) : e.now ≤ (e.perform a).now := by
  by_cases ha : ∃ ms, a = .tick ms
  · obtain ⟨ms, rfl⟩ := ha
    exact Nat.le_add_right _ ms
  · exact Nat.le_of_eq (now_perform e fun ms h => ha ⟨ms, h⟩).symm

theorem now_upTo_le (e : Engine F) (actions : List (Action F)) {m n : Nat} (h : m ≤ n) :
    (e.upTo actions m).now ≤ (e.upTo actions n).now := by
  induction n, h using Nat.le_induction with
  | base => exact Nat.le_refl _
  | succ n _ ih =>
    cases ha : actions[n]? with
    | none =>
      rw [upTo_succ_of_none ha]
      exact ih
    | some a =>
      rw [upTo_succ ha]
      exact Nat.le_trans ih (now_le_perform _ a)

/-! ### Moves that wait and moves that go off -/

section

variable (start : Engine F) (actions : List (Action F))

/-- The job that the timer of a move is. -/
def timerOf (k : Nat) : Nat := (start.upTo actions k).jobs.size

/-- The action `s` is the first poll of the timer of the move `k`. -/
structure CountsFrom (k s : Nat) : Prop where
  lt : k < s
  polled : actions[s]? = some (.poll (start.timerOf actions k))
  first : ∀ m, k < m → m < s → actions[m]? ≠ some (.poll (start.timerOf actions k))

/-- The time at which a timer is due that was polled first by the action `s`. -/
def dueFrom (s : Nat) : Nat := (start.upTo actions s).now + start.options.debounce

/-- At the action `n` the timer of the move `k` is due: it was polled first a debounce ago. -/
def IsDue (k n : Nat) : Prop :=
  ∃ s, s ≤ n ∧ start.CountsFrom actions k s ∧
    start.dueFrom actions s ≤ (start.upTo actions n).now

/-- What the timer of the move `k` knows after `n` actions about when it is due. -/
def DueAt (k n : Nat) : Option Nat → Prop
  | none => ∀ m, k < m → m < n → actions[m]? ≠ some (.poll (start.timerOf actions k))
  | some time => ∃ s, s < n ∧ start.CountsFrom actions k s ∧ time = start.dueFrom actions s

/-- After `n` actions, the action `k` is the last move, and the cache did not come to its end. -/
structure Latest (k n : Nat) (document : Uri) (position : Position) : Prop where
  move : actions[k]? = some (.move true document position)
  lt : k < n
  /-- No later move came. -/
  last : ∀ m a, k < m → m < n → actions[m]? = some a → a.isMove = false
  /-- The cache did not come to its end. -/
  opened : (start.upTo actions n).disposed = false

/-- After `n` actions, the action `k` is a move that waits for its timer. -/
structure Waits (k n : Nat) (document : Uri) (position : Position) : Prop
    extends Latest start actions k n document position where
  /-- Whenever its timer was polled, it was not due. -/
  early : ∀ m, k < m → m < n → actions[m]? = some (.poll (start.timerOf actions k)) →
    ¬ start.IsDue actions k m

/-- The action `k` is a move that waits until its timer is polled by the action `n`, when it is
due. -/
structure GoesOff (k n : Nat) (document : Uri) (position : Position) : Prop
    extends Waits start actions k n document position where
  polled : actions[n]? = some (.poll (start.timerOf actions k))
  due : start.IsDue actions k n

end

section

variable {start : Engine F} {actions : List (Action F)} {k k' m n s s' : Nat}
  {due due' : Option Nat} {document document' : Uri} {position position' : Position}

theorem CountsFrom.unique (h : start.CountsFrom actions k s)
    (h' : start.CountsFrom actions k s') : s = s' := by
  rcases Nat.lt_trichotomy s s' with hlt | heq | hlt
  · exact absurd h.polled (h'.first s h.lt hlt)
  · exact heq
  · exact absurd h'.polled (h.first s' h'.lt hlt)

/-- What is due stays so. -/
theorem IsDue.mono (h : start.IsDue actions k m) (hm : m ≤ n) : start.IsDue actions k n := by
  obtain ⟨s, hs, hcounts, hdue⟩ := h
  exact ⟨s, Nat.le_trans hs hm, hcounts, Nat.le_trans hdue (now_upTo_le start actions hm)⟩

theorem CountsFrom.isDue_iff (h : start.CountsFrom actions k s) (hs : s ≤ n) :
    start.IsDue actions k n ↔ start.dueFrom actions s ≤ (start.upTo actions n).now := by
  constructor
  · rintro ⟨s', -, h', hdue⟩
    rw [h.unique h']
    exact hdue
  · intro hdue
    exact ⟨s, hs, h, hdue⟩

/-! ### What a timer knows -/

/-- A timer knows one thing only. -/
theorem DueAt.unique (h : start.DueAt actions k n due) (h' : start.DueAt actions k n due') :
    due = due' := by
  cases due with
  | none =>
    cases due' with
    | none => rfl
    | some time =>
      obtain ⟨s, hs, hcounts, -⟩ := h'
      exact absurd hcounts.polled (h s hcounts.lt hs)
  | some time =>
    obtain ⟨s, hs, hcounts, rfl⟩ := h
    cases due' with
    | none => exact absurd hcounts.polled (h' s hcounts.lt hs)
    | some time =>
      obtain ⟨s', -, hcounts', rfl⟩ := h'
      rw [hcounts.unique hcounts']

/-- The timer of a move did not begin to count at once. -/
theorem dueAt_succ_self (start : Engine F) (actions : List (Action F)) (k : Nat) :
    start.DueAt actions k (k + 1) none := by
  intro m hk hm
  omega

/-- When its timer is polled, what it knows says whether it is due. -/
theorem DueAt.isDue_iff (h : start.DueAt actions k n due) (hk : k < n)
    (hp : actions[n]? = some (.poll (start.timerOf actions k)))
    (hoptions : (start.upTo actions n).options = start.options) :
    start.IsDue actions k n ↔ (start.upTo actions n).deadline due ≤ (start.upTo actions n).now := by
  cases due with
  | none =>
    -- this is the first poll
    have hcounts : start.CountsFrom actions k n := ⟨hk, hp, h⟩
    rw [hcounts.isDue_iff (Nat.le_refl n), deadline_none, hoptions, dueFrom]
  | some time =>
    obtain ⟨s, hs, hcounts, rfl⟩ := h
    rw [hcounts.isDue_iff (Nat.le_of_lt hs), deadline_some]

/-- What is no poll of the timer tells it nothing. -/
theorem DueAt.keep (h : start.DueAt actions k n due)
    (hp : actions[n]? ≠ some (.poll (start.timerOf actions k))) :
    start.DueAt actions k (n + 1) due := by
  cases due with
  | none =>
    intro m hkm hm
    rcases Nat.lt_or_eq_of_le (Nat.le_of_lt_succ hm) with hlt | rfl
    · exact h m hkm hlt
    · exact hp
  | some time =>
    obtain ⟨s, hs, hcounts, htime⟩ := h
    exact ⟨s, Nat.lt_succ_of_lt hs, hcounts, htime⟩

theorem DueAt.succ {a : Action F} (h : start.DueAt actions k n due) (hk : k < n)
    (ha : actions[n]? = some a) (hoptions : (start.upTo actions n).options = start.options) :
    start.DueAt actions k (n + 1)
      ((start.upTo actions n).dueAfter (start.timerOf actions k) due a) := by
  by_cases hp : a = .poll (start.timerOf actions k)
  · subst hp
    rw [dueAfter_poll]
    cases due with
    | none =>
      refine ⟨n, Nat.lt_succ_self n, ⟨hk, ha, h⟩, ?_⟩
      rw [deadline_none, hoptions, dueFrom]
    | some time =>
      obtain ⟨s, hs, hcounts, htime⟩ := h
      exact ⟨s, Nat.lt_succ_of_lt hs, hcounts, htime⟩
  · rw [dueAfter_of_ne hp]
    refine h.keep ?_
    rw [ha]
    exact fun hsame => hp (Option.some.inj hsame)

/-! ### When moves go off -/

theorem not_isMove_poll {i : Nat} {a : Action F} (ha : actions[n]? = some a)
    (hp : actions[n]? = some (.poll i)) : a.isMove = false := by
  rw [hp, Option.some.injEq] at ha
  rw [← ha]
  rfl

/-- A move that comes before another one goes off before that one comes, or not at all. -/
theorem GoesOff.le_move (h : start.GoesOff actions k n document position)
    (hmove : actions[k']? = some (.move true document' position')) (hlt : k < k') : n < k' := by
  rcases Nat.lt_trichotomy n k' with hn | rfl | hn
  · exact hn
  · have hnot := not_isMove_poll hmove h.polled
    cases hnot
  · have hnot := h.last k' _ hlt hn hmove
    cases hnot

/-- A move goes off once. -/
theorem GoesOff.unique (h : start.GoesOff actions k n document position)
    (h' : start.GoesOff actions k m document' position') : n = m := by
  have hnot : ∀ {x y d d' p p'}, start.GoesOff actions k x d p → start.GoesOff actions k y d' p' →
      ¬ x < y := by
    intro x y d d' p p' hx hy hlt
    exact hy.early x hx.lt hlt hx.polled hx.due
  have hle := Nat.le_of_not_lt (hnot h h')
  have hge := Nat.le_of_not_lt (hnot h' h)
  omega

/-- Moves go off in the order in which they came. -/
theorem GoesOff.lt_of_lt (h : start.GoesOff actions k n document position)
    (h' : start.GoesOff actions k' m document' position') (hlt : m < n) : m < k := by
  rcases Nat.lt_trichotomy k k' with hk | rfl | hk
  · -- the later move would come while the earlier one waits
    have hn := h.le_move h'.move hk
    have hm := h'.lt
    omega
  · have heq := h.unique h'
    omega
  · exact h'.le_move h.move hk

/-- The last move was the last one before, too. -/
theorem Latest.of_le (h : start.Latest actions k n document position) (hk : k < m) (hm : m ≤ n) :
    start.Latest actions k m document position where
  move := h.move
  lt := hk
  last := fun x a hx hlt => h.last x a hx (Nat.lt_of_lt_of_le hlt hm)
  opened := disposed_upTo start actions hm h.opened

/-- A move that waits went on waiting until now. -/
theorem Waits.of_le (h : start.Waits actions k n document position) (hk : k < m) (hm : m ≤ n) :
    start.Waits actions k m document position where
  toLatest := h.toLatest.of_le hk hm
  early := fun x hx hlt => h.early x hx (Nat.lt_of_lt_of_le hlt hm)

/-- The last move goes on to be that, unless another one comes or the cache comes to its end. -/
theorem Latest.succ (h : start.Latest actions k n document position)
    (hmove : ∀ a, actions[n]? = some a → a.isMove = false)
    (hopen : (start.upTo actions (n + 1)).disposed = false) :
    start.Latest actions k (n + 1) document position where
  move := h.move
  lt := Nat.lt_succ_of_lt h.lt
  last := by
    intro m a hk hm ha
    rcases Nat.lt_or_eq_of_le (Nat.le_of_lt_succ hm) with hlt | rfl
    · exact h.last m a hk hlt ha
    · exact hmove a ha
  opened := hopen

/-- And one that waits goes on to wait, unless its timer is polled when it is due. -/
theorem Waits.succ (h : start.Waits actions k n document position)
    (hlatest : start.Latest actions k (n + 1) document position)
    (hearly : actions[n]? = some (.poll (start.timerOf actions k)) → ¬ start.IsDue actions k n) :
    start.Waits actions k (n + 1) document position where
  toLatest := hlatest
  early := by
    intro m hk hm ha
    rcases Nat.lt_or_eq_of_le (Nat.le_of_lt_succ hm) with hlt | rfl
    · exact h.early m hk hlt ha
    · exact hearly ha

/-- No move goes off earlier than a debounce after it. -/
theorem GoesOff.quiet (h : start.GoesOff actions k n document position) :
    (start.upTo actions k).now + start.options.debounce ≤ (start.upTo actions n).now := by
  obtain ⟨s, -, hcounts, hdue⟩ := h.due
  have hnow := now_upTo_le start actions (Nat.le_of_lt hcounts.lt)
  rw [dueFrom] at hdue
  omega

end

/-! ### What is pending -/

section

variable {start : Engine F} {actions : List (Action F)} {k m n s : Nat} {document : Uri}
  {position : Position}

/-- What is needed of a run: at any time one timer is pending at most, and every action has an
effect. -/
structure Guarded (start : Engine F) (actions : List (Action F)) : Prop where
  watched : ∀ n, (start.upTo actions n).Watched
  options : ∀ n, (start.upTo actions n).options = start.options
  effect : ∀ n a, actions[n]? = some a → Effect (start.upTo actions n) a
  jobs : start.jobs = #[]

theorem Guarded.isOver_eq (h : start.Guarded actions) (n : Nat) :
    (start.upTo actions n).isOver = (start.upTo actions n).disposed := (h.watched n).sealed

/-- What is pending after an action, if it was pending before, and nothing came in between. -/
theorem Guarded.pending_succ (h : start.Guarded actions) {a : Action F} {i : Nat}
    {due : Option Nat} {token : Token} (ha : actions[n]? = some a)
    (hp : (start.upTo actions n).Pending i token due document position)
    (hmove : a.isMove = false) (hopen : (start.upTo actions (n + 1)).disposed = false)
    (hearly : a = .poll i →
      ¬ (start.upTo actions n).deadline due ≤ (start.upTo actions n).now) :
    (start.upTo actions (n + 1)).Pending i token ((start.upTo actions n).dueAfter i due a)
      document position := by
  rw [upTo_succ ha] at hopen ⊢
  cases h.effect n a ha with
  | calm hcalm hmove' hpoll => exact (pending_calm hcalm hmove' hpoll).mpr ⟨due, hp, rfl⟩
  | shuts hshuts =>
    rw [hshuts.after] at hopen
    cases hopen
  | arms _ _ => cases hmove
  | @goesOff i' token' due' d p hp' hdue _ =>
    -- the timer that goes off is the one that is pending, which is not due
    obtain rfl := (h.watched n).alone hp hp'
    have hsame := hp.job.symm.trans hp'.job
    simp only [Option.some.injEq, Job.timer.injEq] at hsame
    obtain ⟨-, rfl, -, -⟩ := hsame
    exact absurd hdue (hearly rfl)

/-- The timer of a move that waits is pending. -/
theorem Guarded.pending_of_waits (h : start.Guarded actions)
    (hw : start.Waits actions k n document position) :
    ∃ token due, (start.upTo actions n).Pending (start.timerOf actions k) token due
      document position ∧ start.DueAt actions k n due := by
  induction n, hw.lt using Nat.le_induction with
  | base =>
    -- the move itself starts its timer
    have hopen := hw.opened
    have hopen' := disposed_upTo start actions (Nat.le_succ k) hopen
    rw [upTo_succ hw.move] at hopen ⊢
    cases h.effect k _ hw.move with
    | calm hcalm hmove' _ =>
      have hover := (hmove' rfl).1
      rw [h.isOver_eq, hopen'] at hover
      cases hover
    | shuts hshuts =>
      rw [hshuts.after] at hopen
      cases hopen
    | arms hover heq =>
      rw [heq]
      exact ⟨_, none, (pending_arm (h.watched k).toTended hover).mpr ⟨rfl, rfl, rfl, rfl, rfl⟩,
        dueAt_succ_self start actions k⟩
  | succ n hlt ih =>
    obtain ⟨token, due, hp, hd⟩ := ih (hw.of_le hlt (Nat.le_succ n))
    cases ha : actions[n]? with
    | none =>
      rw [upTo_succ_of_none ha]
      exact ⟨token, due, hp, hd.keep (by simp [ha])⟩
    | some a =>
      have hmove := hw.last n a hlt (Nat.lt_succ_self n) ha
      refine ⟨token, _, h.pending_succ ha hp hmove hw.opened ?_, hd.succ hlt ha (h.options n)⟩
      rintro rfl
      rw [← hd.isDue_iff hlt ha (h.options n)]
      exact hw.early n hlt (Nat.lt_succ_self n) ha

/-- A timer that is pending is that of a move that waits. -/
theorem Guarded.waits_of_pending (h : start.Guarded actions) {i : Nat} {token : Token}
    {due : Option Nat} (hp : (start.upTo actions n).Pending i token due document position) :
    ∃ k, start.Waits actions k n document position ∧ i = start.timerOf actions k ∧
      start.DueAt actions k n due := by
  induction n generalizing i token due document position with
  | zero =>
    have hj := hp.job
    rw [upTo_zero, h.jobs] at hj
    cases hj
  | succ n ih =>
    have hopen : (start.upTo actions (n + 1)).disposed = false := by
      rw [Bool.eq_false_iff]
      intro hd
      have hw := h.watched (n + 1)
      exact not_pending_of_disposed hw.orderly hw.sealed hw.timed hd hp
    cases ha : actions[n]? with
    | none =>
      rw [upTo_succ_of_none ha] at hp
      obtain ⟨k, hw, hi, hd⟩ := ih hp
      refine ⟨k, hw.succ (hw.toLatest.succ ?_ hopen) ?_, hi, hd.keep (by simp [ha])⟩
      · intro a ha'
        rw [ha] at ha'
        cases ha'
      · intro ha'
        rw [ha] at ha'
        cases ha'
    | some a =>
      rw [upTo_succ ha] at hp
      cases h.effect n a ha with
      | calm hcalm hmove hpoll =>
        obtain ⟨due', hp', rfl⟩ := (pending_calm hcalm hmove hpoll).mp hp
        obtain ⟨k, hw, rfl, hd⟩ := ih hp'
        refine ⟨k, hw.succ (hw.toLatest.succ ?_ hopen) ?_, rfl, hd.succ hw.lt ha (h.options n)⟩
        · intro b hb
          rw [ha, Option.some.injEq] at hb
          subst hb
          rw [Bool.eq_false_iff]
          intro hm
          have hover := (hmove hm).1
          rw [h.isOver_eq, hw.opened] at hover
          cases hover
        · intro hb
          rw [hd.isDue_iff hw.lt hb (h.options n)]
          rw [ha, Option.some.injEq] at hb
          exact Nat.not_le_of_lt (hpoll _ token _ document position hb hp')
      | shuts hshuts =>
        rw [upTo_succ ha, hshuts.after] at hopen
        cases hopen
      | arms hover heq =>
        rw [heq] at hp
        obtain ⟨rfl, -, rfl, rfl, rfl⟩ := (pending_arm (h.watched n).toTended hover).mp hp
        refine ⟨n, ⟨⟨ha, Nat.lt_succ_self n, ?_, hopen⟩, ?_⟩, rfl, dueAt_succ_self start actions n⟩
        · intro m a hn hm
          omega
        · intro m hn hm
          omega
      | goesOff hpending hdue _ =>
        exact absurd hp (not_pending_goesOff (h.watched n).toTended hpending hdue)

/-- **A timer is pending exactly if its move waits for it**, and it knows when it is due as soon as
it was polled. -/
theorem Guarded.pending_iff_waits (h : start.Guarded actions) {i : Nat} {due : Option Nat} :
    (∃ token, (start.upTo actions n).Pending i token due document position) ↔
      ∃ k, start.Waits actions k n document position ∧ i = start.timerOf actions k ∧
        start.DueAt actions k n due := by
  constructor
  · rintro ⟨token, hp⟩
    exact h.waits_of_pending hp
  · rintro ⟨k, hw, rfl, hd⟩
    obtain ⟨token, due', hp, hd'⟩ := h.pending_of_waits hw
    rw [hd.unique hd']
    exact ⟨token, hp⟩

/-! ### Generations -/

end

section

variable {start : Engine F} {actions : List (Action F)} {k n : Nat} {document : Uri}
  {position : Position}

theorem Guarded.timer (h : start.Guarded actions)
    (hmove : actions[k]? = some (.move true document position))
    (hopen : (start.upTo actions k).disposed = false) :
    ∃ token, (start.upTo actions (k + 1)).jobs[start.timerOf actions k]?
      = some (.timer token none document position) := by
  have hopen' : (start.upTo actions (k + 1)).disposed = false := by
    rw [upTo_succ hmove, perform, disposed_move]
    exact hopen
  have hw : start.Waits actions k (k + 1) document position := by
    refine ⟨⟨hmove, Nat.lt_succ_self k, ?_, hopen'⟩, ?_⟩
    · intro m a hk hm
      omega
    · intro m hk hm
      omega
  obtain ⟨token, hp⟩ :=
    h.pending_iff_waits.mpr ⟨k, hw, rfl, dueAt_succ_self start actions k⟩
  exact ⟨token, hp.job⟩

end

end CursorContext.Engine
