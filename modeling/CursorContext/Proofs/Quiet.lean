import CursorContext.Proofs.Flow

/-!
# What goes on in the background

Most of what an engine does touches neither its table nor its tokens: jobs are started, polled and
ended, calls come back, clients wait and are told.  All of that is *quiet*.  A quiet change lets
calls flow on, may count failures and may note what is of no concern to the table; the rest of the
engine, its jobs and its clock apart, stays as it is.

## Main definitions

* `Notice.isQuiet` — a notice that tells neither of a lookup nor of a clearing nor of a generation.
* `Engine.Quiet e e'` — nothing but quiet things happened between `e` and `e'`.

## Main results

* `quiet_pollCall`, `quiet_resume`, `quiet_giveUp` — the polls of clients are quiet.
* `quiet_pollDriver`, `quiet_pollAwait`, `quiet_abandon` — and so are drivers and giving up.
-/

namespace CursorContext

/-- A notice that tells neither of a lookup nor of a clearing nor of a generation. -/
def Notice.isQuiet : Notice → Bool
  | .asked _ _ => false
  | .hit _ _ _ => false
  | .miss _ _ _ => false
  | .cleared _ => false
  | .superseded _ _ => false
  | .preloading _ _ _ => false
  | _ => true

namespace Engine

variable {F : Fetcher} {e e' e'' : Engine F}

/-- Nothing but quiet things happened. -/
structure Quiet (e e' : Engine F) : Prop where
  /-- The set-up is the same. -/
  options : e'.options = e.options
  /-- The fetcher was told nothing. -/
  fetcher : e'.fetcher = e.fetcher
  /-- No token was made or cancelled. -/
  tokens : e'.tokens = e.tokens
  /-- No generation began. -/
  generations : e'.generations = e.generations
  /-- The table is the same. -/
  table : e'.table = e.table
  /-- No timer was started or stopped. -/
  armed : e'.armed = e.armed
  /-- The cache was not disposed of. -/
  disposed : e'.disposed = e.disposed
  /-- No call was started. -/
  size : e'.calls.size = e.calls.size
  /-- Calls only flowed on. -/
  carries : e.Carries e'
  /-- Nothing but failures was counted. -/
  counters : ∃ n, e'.counters = { e.counters with failures := n }
  /-- Nothing but quiet notices was noted. -/
  journal : ∃ more, e'.journal.toList = e.journal.toList ++ more ∧ ∀ n ∈ more, n.isQuiet = true

namespace Quiet

/-- Jobs, the clock and the host do not matter. -/
theorem background (e : Engine F) (now : Nat) (jobs : Array Job) (held : Bool) :
    e.Quiet { e with now := now, jobs := jobs, held := held } where
  options := rfl
  fetcher := rfl
  tokens := rfl
  generations := rfl
  table := rfl
  armed := rfl
  disposed := rfl
  size := rfl
  carries := .of_eq rfl rfl
  counters := ⟨e.counters.failures, rfl⟩
  journal := ⟨[], by simp, by simp⟩

theorem refl (e : Engine F) : e.Quiet e := background e e.now e.jobs e.held

theorem trans (h : e.Quiet e') (k : e'.Quiet e'') : e.Quiet e'' := by
  obtain ⟨n, hn⟩ := h.counters
  obtain ⟨n', hn'⟩ := k.counters
  obtain ⟨more, hmore, hquiet⟩ := h.journal
  obtain ⟨more', hmore', hquiet'⟩ := k.journal
  refine
    { options := k.options.trans h.options
      fetcher := k.fetcher.trans h.fetcher
      tokens := k.tokens.trans h.tokens
      generations := k.generations.trans h.generations
      table := k.table.trans h.table
      armed := k.armed.trans h.armed
      disposed := k.disposed.trans h.disposed
      size := k.size.trans h.size
      carries := h.carries.trans k.carries
      counters := ⟨n', by rw [hn', hn]⟩
      journal := ⟨more ++ more', by rw [hmore', hmore, List.append_assoc], ?_⟩ }
  intro x hx
  rcases List.mem_append.mp hx with hx | hx
  · exact hquiet x hx
  · exact hquiet' x hx

theorem idents_eq (h : e.Quiet e') : e'.idents = e.idents := h.carries.idents_eq h.size

end Quiet

/-! ### Small steps -/

theorem quiet_spawn (e : Engine F) (j : Job) : e.Quiet (e.spawn j) := .background e _ _ _

theorem quiet_setJob (e : Engine F) (i : Nat) (j : Job) : e.Quiet (e.setJob i j) :=
  .background e _ _ _

theorem quiet_tick (e : Engine F) (ms : Nat) : e.Quiet (e.tick ms) := .background e _ _ _

theorem quiet_note (e : Engine F) {n : Notice} (h : n.isQuiet = true) : e.Quiet (e.note n) where
  options := rfl
  fetcher := rfl
  tokens := rfl
  generations := rfl
  table := rfl
  armed := rfl
  disposed := rfl
  size := rfl
  carries := .of_eq rfl rfl
  counters := ⟨e.counters.failures, rfl⟩
  journal := ⟨[n], by simp [note], by simpa using h⟩

theorem quiet_count_failure (e : Engine F) : e.Quiet (e.count .failure) where
  options := rfl
  fetcher := rfl
  tokens := rfl
  generations := rfl
  table := rfl
  armed := rfl
  disposed := rfl
  size := rfl
  carries := .of_eq rfl rfl
  counters := ⟨e.counters.failures + 1, rfl⟩
  journal := ⟨[], by simp [count], by simp⟩

theorem quiet_setStatus {i : Nat} {c : Call F} {s : Status F.Flight}
    (hc : e.calls[i]? = some c) (hs : F.Flow e.fetcher c.status e.fetcher s) :
    e.Quiet (e.setStatus i s) where
  options := rfl
  fetcher := rfl
  tokens := rfl
  generations := rfl
  table := rfl
  armed := rfl
  disposed := rfl
  size := by simp [setStatus]
  carries := carries_setStatus hc hs
  counters := ⟨e.counters.failures, rfl⟩
  journal := ⟨[], by simp [setStatus], by simp⟩

/-! ### Polls -/

theorem quiet_pollCall (e : Engine F) (i : Nat) : e.Quiet (e.pollCall i).1 := by
  unfold pollCall
  split
  · exact .refl e
  · rename_i c hc
    split
    · exact .refl e
    · rename_i flight hflight
      have hflow : F.Flow e.fetcher c.status e.fetcher (.pending flight) := by
        rw [hflight]; exact .refl
      split
      · exact .refl e
      · next hp => exact quiet_setStatus hc (hflow.moved hp)
      · next hp => exact quiet_setStatus hc (hflow.resolved hp)

theorem quiet_pollHalf (e : Engine F) (h : Half) : e.Quiet (e.pollHalf h).1 := by
  cases h with
  | settled items => exact .refl e
  | waiting i =>
    have hq := quiet_pollCall e i
    rcases hp : e.pollCall i with ⟨e', outcome⟩
    rw [hp] at hq
    simp only [pollHalf, hp]
    rcases outcome with _ | ⟨found | cause⟩
    · exact hq
    · exact hq
    · -- a failure is counted and noted
      exact (hq.trans (quiet_count_failure _)).trans (quiet_note _ rfl)

theorem quiet_stopWatch (e : Engine F) (r : Request) (before : Counters) (items : Option Nat) :
    e.Quiet (e.stopWatch r before items) := by
  unfold stopWatch
  split
  · cases items with
    | none => exact quiet_note e rfl
    | some n => exact quiet_note e rfl
  · exact .refl e

theorem quiet_giveUp (e : Engine F) (r : Request) (stage : Stage) :
    e.Quiet (e.giveUp r stage) := by
  unfold giveUp
  split
  · exact quiet_stopWatch e r _ _
  · exact .refl e

/-- Whether it is over with that or not, a further poll of a query is quiet. -/
theorem quiet_resume (e : Engine F) (r : Request) (previous current : Half) (before : Counters) :
    e.Quiet (e.resume r previous current before).1 := by
  have hq := (quiet_pollHalf e previous).trans (quiet_pollHalf (e.pollHalf previous).1 current)
  unfold resume
  dsimp only
  split
  · exact hq.trans (quiet_stopWatch _ r _ _)
  · exact hq

theorem quiet_pollDriver (e : Engine F) (job call : Nat) (token : Token) :
    e.Quiet (e.pollDriver job call token) := by
  have hq := quiet_pollCall e call
  unfold pollDriver
  dsimp only
  split
  · exact hq.trans (quiet_setJob _ _ _)
  · exact hq

theorem quiet_pollAwait (e : Engine F) (job client call : Nat) (stage : Stage) :
    e.Quiet (e.pollAwait job client call stage) := by
  have hq := quiet_pollCall e call
  unfold pollAwait
  split
  · exact quiet_setJob e _ _
  · split
    · next heq => rw [heq] at hq; exact hq.trans (quiet_setJob _ _ _)
    · next heq => rw [heq] at hq; exact hq
  · exact .refl e

theorem quiet_abandonJob (e : Engine F) (job : Nat) : e.Quiet (e.abandonJob job) := by
  unfold abandonJob
  split
  · exact quiet_setJob e _ _
  · exact quiet_setJob e _ _
  · exact .refl e

theorem quiet_abandon (e : Engine F) (client : Nat) : e.Quiet (e.abandon client) := by
  unfold abandon
  split
  · exact quiet_abandonJob e _
  · exact .refl e

end Engine

end CursorContext
