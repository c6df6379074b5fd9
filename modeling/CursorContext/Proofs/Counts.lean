import CursorContext.Proofs.Cancellation
import CursorContext.Proofs.Fetches

/-!
# What is counted

Counters are written in five places: by lookups, by whoever sees a failure that it waited for, by
clearing the table, by a generation that begins, and by the end of the cache.  What the parts of an
action count adds up, whatever else they do.

The end of the cache counts as one clearing, and comes at most once; so clearings are compared with
the end of the cache on both sides.

## Main definitions

* `Plan.width` — how many keys a plan for a line has.
* `Engine.Counted` — what was counted between two states.
* `Engine.failed` — a call came back with a failure.

## Main results

* `counted_lookupKeys` — every lookup counts once, and once more if it makes a call.
* `counted_resume` — a poll of a query counts the failures that it sees.
* `calls_resume` — a query goes on to wait for what is not back.
* `counted_begin`, `counted_warm`, `counted_dispose` — what queries, preloads and the end of the
  cache count.
-/

namespace CursorContext

/-- How many keys the plan of a line has: there is no line above the first. -/
def Plan.width (line : UInt32) : Nat := if line = 0 then 1 else 2

theorem Plan.length_keys_at (document : Uri) (position : Position) :
    (Plan.at document position).keys.length = width position.line := by
  by_cases h : position.line = 0
  · simp [Plan.at, keys, width, h]
  · simp [Plan.at, keys, width, h, Span.above?_ofLine h]

/-- It is an error. -/
def Outcome.isFailure : Outcome → Bool
  | .items _ => false
  | .failure _ => true

/-- The five numbers together. -/
def Counters.sum (c : Counters) : Nat :=
  c.hits + c.misses + c.failures + c.invalidations + c.generations

theorem Counters.sum_record (c : Counters) (t : Tally) : (c.record t).sum = c.sum + 1 := by
  cases t <;> simp only [record, sum] <;> omega

theorem Counters.count_le_sum (c : Counters) (t : Tally) : c.count t ≤ c.sum := by
  cases t <;> simp only [count, sum] <;> omega

namespace Engine

variable {F : Fetcher} {e e' e'' : Engine F}

/-- The call came back with a failure. -/
def failed (e : Engine F) (call : Nat) : Bool := (e.outcome? call).any Outcome.isFailure

/-- Between two states some lookups were made, the table was cleared, preloads fired, and failures
were seen by those who waited. -/
structure Counted (e : Engine F) (looked cleared fired seen : Nat) (e' : Engine F) : Prop where
  /-- The set-up is the same. -/
  options : e'.options = e.options
  /-- Every lookup is a hit or a miss. -/
  lookups : e'.counters.hits + e'.counters.misses
    = e.counters.hits + e.counters.misses + looked
  /-- Hits are never taken back. -/
  hits : e.counters.hits ≤ e'.counters.hits
  /-- Every miss makes a call. -/
  misses : e'.counters.misses + e.calls.size = e.counters.misses + e'.calls.size
  /-- Calls stay. -/
  calls : e.calls.size ≤ e'.calls.size
  /-- The end of the cache clears the table, too. -/
  invalidations : e'.counters.invalidations + e.disposed.toNat
    = e.counters.invalidations + cleared + e'.disposed.toNat
  /-- The end of the cache is final. -/
  disposed : e.disposed.toNat ≤ e'.disposed.toNat
  /-- Every preload that fires begins a generation. -/
  generation : e'.generations.current.id = e.generations.current.id + fired
  /-- Generations are counted, where they are. -/
  generations : e.options.countsGenerations = true →
    e'.counters.generations = e.counters.generations + fired
  /-- Failures are counted by those who see them. -/
  failures : e'.counters.failures = e.counters.failures + seen
  /-- For everything that is counted there is a notice. -/
  noted : e'.counters.sum + e.journal.size ≤ e.counters.sum + e'.journal.size

namespace Counted

/-- Where the counters stay as they are, nothing was counted. -/
theorem of_eq (ho : e'.options = e.options) (hc : e'.counters = e.counters)
    (hs : e'.calls.size = e.calls.size) (hd : e'.disposed = e.disposed)
    (hg : e'.generations.current.id = e.generations.current.id)
    (hj : e.journal.size ≤ e'.journal.size) : e.Counted 0 0 0 0 e' where
  options := ho
  lookups := by rw [hc, Nat.add_zero]
  hits := Nat.le_of_eq (by rw [hc])
  misses := by rw [hc, hs]
  calls := Nat.le_of_eq hs.symm
  invalidations := by rw [hc, hd, Nat.add_zero]
  disposed := Nat.le_of_eq (by rw [hd])
  generation := by rw [hg, Nat.add_zero]
  generations := fun _ => by rw [hc, Nat.add_zero]
  failures := by rw [hc, Nat.add_zero]
  noted := by rw [hc]; exact Nat.add_le_add_left hj _

theorem refl (e : Engine F) : e.Counted 0 0 0 0 e := of_eq rfl rfl rfl rfl rfl (Nat.le_refl _)

/-- What is counted adds up. -/
theorem trans {l c f s l' c' f' s' : Nat} (h : e.Counted l c f s e')
    (k : e'.Counted l' c' f' s' e'') :
    e.Counted (l + l') (c + c') (f + f') (s + s') e'' where
  options := k.options.trans h.options
  lookups := by rw [k.lookups, h.lookups, Nat.add_assoc]
  hits := Nat.le_trans h.hits k.hits
  misses := by
    have hm := h.misses
    have km := k.misses
    omega
  calls := Nat.le_trans h.calls k.calls
  invalidations := by
    have hi := h.invalidations
    have ki := k.invalidations
    omega
  disposed := Nat.le_trans h.disposed k.disposed
  generation := by rw [k.generation, h.generation, Nat.add_assoc]
  generations := fun hcounts => by
    have hcounts' : e'.options.countsGenerations = true := by rw [h.options, hcounts]
    rw [k.generations hcounts', h.generations hcounts, Nat.add_assoc]
  failures := by rw [k.failures, h.failures, Nat.add_assoc]
  noted := by
    have hn := h.noted
    have kn := k.noted
    omega

/-- What counts nothing may come before. -/
theorem after {l c f s : Nat} (h : e'.Counted l c f s e'') (hz : e.Counted 0 0 0 0 e') :
    e.Counted l c f s e'' := by
  simpa only [Nat.zero_add] using hz.trans h

/-- And it may come behind. -/
theorem before {l c f s : Nat} (h : e.Counted l c f s e') (hz : e'.Counted 0 0 0 0 e'') :
    e.Counted l c f s e'' := by
  simpa only [Nat.add_zero] using h.trans hz

end Counted

/-! ### What counts nothing -/

theorem counted_note (e : Engine F) (n : Notice) : e.Counted 0 0 0 0 (e.note n) :=
  .of_eq rfl rfl rfl rfl rfl (by rw [note, Array.size_push]; exact Nat.le_succ _)

theorem counted_setJob (e : Engine F) (job : Nat) (j : Job) :
    e.Counted 0 0 0 0 (e.setJob job j) := .of_eq rfl rfl rfl rfl rfl (Nat.le_refl _)

theorem counted_disarm (e : Engine F) : e.Counted 0 0 0 0 e.disarm := by
  unfold disarm
  split
  · exact .of_eq rfl rfl rfl rfl rfl (Nat.le_refl _)
  · exact .refl e

theorem counted_move (e : Engine F) (background : Bool) (document : Uri) (position : Position) :
    e.Counted 0 0 0 0 (e.move background document position) := by
  unfold move
  split
  · exact .refl e
  · split
    · have harmed : e.disarm.Counted 0 0 0 0 (e.arm document position) :=
        .of_eq rfl rfl rfl rfl rfl (Nat.le_refl _)
      exact harmed.after (counted_disarm e)
    · exact counted_note e _

theorem counted_stopWatch (e : Engine F) (r : Request) (before : Counters) (items : Option Nat) :
    e.Counted 0 0 0 0 (e.stopWatch r before items) := by
  unfold stopWatch
  split
  · exact counted_note e _
  · exact .refl e

theorem counted_giveUp (e : Engine F) (r : Request) (stage : Stage) :
    e.Counted 0 0 0 0 (e.giveUp r stage) := by
  unfold giveUp
  split
  · exact counted_stopWatch e r _ _
  · exact .refl e

theorem counted_pollCall (e : Engine F) (i : Nat) : e.Counted 0 0 0 0 (e.pollCall i).1 := by
  have hset : ∀ s, e.Counted 0 0 0 0 (e.setStatus i s) := fun s =>
    .of_eq rfl rfl Array.size_modify rfl rfl (Nat.le_refl _)
  unfold pollCall
  split
  · exact .refl e
  · split
    · exact .refl e
    · split
      · exact .refl e
      · exact hset _
      · exact hset _

theorem counted_pollDriver (e : Engine F) (job call : Nat) (token : Token) :
    e.Counted 0 0 0 0 (e.pollDriver job call token) := by
  unfold pollDriver
  dsimp only
  split
  · exact (counted_setJob _ _ _).after (counted_pollCall e call)
  · exact counted_pollCall e call

theorem counted_pollAwait (e : Engine F) (job client call : Nat) (stage : Stage) :
    e.Counted 0 0 0 0 (e.pollAwait job client call stage) := by
  have hpoll := counted_pollCall e call
  unfold pollAwait
  split
  · exact counted_setJob e _ _
  · split
    · next heq =>
      rw [heq] at hpoll
      exact (counted_setJob _ _ _).after hpoll
    · next heq =>
      rw [heq] at hpoll
      exact hpoll
  · exact .refl e

theorem counted_abandon (e : Engine F) (client : Nat) : e.Counted 0 0 0 0 (e.abandon client) := by
  unfold abandon abandonJob
  split
  · split
    · exact counted_setJob e _ _
    · exact counted_setJob e _ _
    · exact .refl e
  · exact .refl e

/-! ### Lookups -/

theorem counted_hit (e : Engine F) (n : Notice) : e.Counted 1 0 0 0 ((e.count .hit).note n) where
  options := rfl
  lookups := Nat.add_right_comm _ _ _
  hits := Nat.le_succ _
  misses := rfl
  calls := Nat.le_refl _
  invalidations := rfl
  disposed := Nat.le_refl _
  generation := rfl
  generations := fun _ => rfl
  failures := rfl
  noted := by
    have hsum := e.counters.sum_record .hit
    simp only [note, count, Array.size_push]
    omega

theorem counted_missed (e : Engine F) (stamp : Stamp) (key : Key) :
    e.Counted 1 0 0 0 (e.missed stamp key) where
  options := rfl
  lookups := rfl
  hits := Nat.le_refl _
  misses := by simp only [missed, note, count, Counters.record, Array.size_push]; omega
  calls := by simp only [missed, Array.size_push]; omega
  invalidations := rfl
  disposed := Nat.le_refl _
  generation := rfl
  generations := fun _ => rfl
  failures := rfl
  noted := by
    have hsum := e.counters.sum_record .miss
    simp only [missed, note, count, Array.size_push]
    omega

/-- A lookup is a hit, or a miss that makes a call. -/
theorem counted_lookupPlanned (e : Engine F) (background : Bool) (stamp : Stamp) (key : Key) :
    e.Counted 1 0 0 0 (e.lookupPlanned background stamp key).1 := by
  cases hfind : e.find? key with
  | some entry =>
    simp only [lookupPlanned, lookup_of_some background stamp hfind, if_true]
    exact counted_hit e _
  | none =>
    simp only [lookupPlanned, lookup_of_none background stamp hfind, Bool.false_eq_true, if_false]
    refine Counted.before ?_ (counted_note _ _)
    cases background with
    | true =>
      exact (counted_missed e stamp key).before (.of_eq rfl rfl rfl rfl rfl (Nat.le_refl _))
    | false => exact (counted_missed e stamp key).before (counted_note _ _)

/-- **Every lookup counts once**, and once more if it makes a call. -/
theorem counted_lookupKeys (e : Engine F) (background : Bool) (stamp : Stamp) (keys : List Key) :
    e.Counted keys.length 0 0 0 (e.lookupKeys background stamp keys) := by
  induction keys generalizing e with
  | nil => exact .refl e
  | cons key rest ih =>
    rw [lookupKeys_cons, List.length_cons, Nat.add_comm]
    exact (counted_lookupPlanned e background stamp key).trans (ih _)

/-! ### Clearings and generations -/

theorem counted_clear (e : Engine F) : e.Counted 0 1 0 0 e.clear where
  options := rfl
  lookups := rfl
  hits := Nat.le_refl _
  misses := rfl
  calls := Nat.le_refl _
  invalidations := rfl
  disposed := Nat.le_refl _
  generation := rfl
  generations := fun _ => rfl
  failures := rfl
  noted := by
    have hsum := e.counters.sum_record .invalidation
    simp only [clear, note, count, Array.size_push]
    omega

theorem counted_nextGeneration (e : Engine F) :
    e.Counted 0 0 1 0 e.nextGeneration.countGeneration := by
  -- the generation is noted, whether it is counted or not
  have hnoted : e.nextGeneration.journal.size = e.journal.size + 1 := Array.size_push _
  by_cases h : e.options.countsGenerations = true
  · have hcounts : e.nextGeneration.countGeneration = e.nextGeneration.count .generation := if_pos h
    have hsum := e.counters.sum_record .generation
    rw [hcounts]
    exact
      { options := rfl
        lookups := rfl
        hits := Nat.le_refl _
        misses := rfl
        calls := Nat.le_refl _
        invalidations := rfl
        disposed := Nat.le_refl _
        generation := rfl
        generations := fun _ => rfl
        failures := rfl
        noted := by
          show (e.counters.record .generation).sum + _ ≤ _ + e.nextGeneration.journal.size
          omega }
  · have hcounts : e.nextGeneration.countGeneration = e.nextGeneration := if_neg h
    rw [hcounts]
    exact
      { options := rfl
        lookups := rfl
        hits := Nat.le_refl _
        misses := rfl
        calls := Nat.le_refl _
        invalidations := rfl
        disposed := Nat.le_refl _
        generation := rfl
        generations := fun hcounts' => absurd hcounts' h
        failures := rfl
        noted := by
          show e.counters.sum + _ ≤ _ + e.nextGeneration.journal.size
          omega }

/-- A preload that fires begins a generation, and looks its plan up. -/
theorem counted_warm (h : e.isOver = false) (background : Bool) (document : Uri)
    (position : Position) :
    e.Counted (Plan.width position.line) 0 1 0 (e.warm background document position).1 := by
  rw [warm_of_not_isOver background document position h, servePreload, serve,
    ← Plan.length_keys_at document]
  have hnext := (counted_nextGeneration e).before (counted_note _
    (.preloading document position.line e.nextGeneration.countGeneration.generations.current.id))
  have hboth := hnext.trans (counted_lookupKeys _ background
    e.nextGeneration.countGeneration.generations.current (Plan.at document position).keys)
  simpa only [Nat.zero_add, Nat.add_zero] using hboth

theorem counted_warm_refused (h : e.isOver = true) (background : Bool) (document : Uri)
    (position : Position) : e.Counted 0 0 0 0 (e.warm background document position).1 := by
  rw [warm, if_pos h]
  exact counted_note e _

/-- **The end of the cache counts as a clearing**, whether the table was empty or not. -/
theorem counted_dispose (e : Engine F) : e.Counted 0 0 0 0 e.dispose := by
  cases hd : e.disposed with
  | true => rw [dispose, if_pos hd]; exact .refl e
  | false =>
    have hdispose : e.dispose
        = ({ e with disposed := true }.cancelRoot.disarm.clear).note .closed := by
      rw [dispose, if_neg (Bool.eq_false_iff.mp hd)]
    have hcleared := ((counted_disarm { e with disposed := true }.cancelRoot).trans
      (counted_clear _)).before (counted_note _ .closed)
    rw [← hdispose] at hcleared
    have hended : e.dispose.disposed.toNat = 1 := by rw [disposed_dispose]; rfl
    -- that the cache is disposed of by now makes up for the clearing
    exact
      { hcleared with
        invalidations := by
          have hcount : e.dispose.counters.invalidations + 1
              = e.counters.invalidations + (0 + 1) + e.dispose.disposed.toNat :=
            hcleared.invalidations
          rw [hd, Bool.toNat_false]
          omega
        disposed := by
          rw [hd, Bool.toNat_false]
          exact Nat.zero_le _ }

theorem counted_reap (e : Engine F) : e.Counted 0 0 0 0 e.reap := by
  unfold reap
  split
  · exact .refl e
  · exact counted_dispose e

/-! ### Polls of queries -/

theorem outcome?_setStatus {i : Nat} {c : Call F} (hc : e.calls[i]? = some c)
    (s : Status F.Flight) : (e.setStatus i s).outcome? i = s.outcome? := by
  rw [outcome?, setStatus, Array.getElem?_modify, if_pos rfl, hc]
  rfl

/-- After a poll of a call, its outcome is what the poll returned. -/
theorem outcome?_pollCall_self (e : Engine F) (i : Nat) :
    (e.pollCall i).1.outcome? i = (e.pollCall i).2 := by
  unfold pollCall
  split
  · next hc => rw [outcome?, hc]; rfl
  · next c hc =>
    have hout : e.outcome? i = c.status.outcome? := by rw [outcome?, hc]; rfl
    split
    · next hs => rw [hout, hs]; rfl
    · next hs =>
      split
      · rw [hout, hs]; rfl
      · exact outcome?_setStatus hc _
      · exact outcome?_setStatus hc _

/-- A poll of another call does nothing to a call. -/
theorem outcome?_pollCall_of_ne {i k : Nat} (h : i ≠ k) :
    (e.pollCall i).1.outcome? k = e.outcome? k := by
  have hset : ∀ s, (e.setStatus i s).outcome? k = e.outcome? k := by
    intro s
    rw [outcome?, outcome?, setStatus, Array.getElem?_modify, if_neg h]
  unfold pollCall
  split
  · rfl
  · split
    · rfl
    · split
      · rfl
      · exact hset _
      · exact hset _

/-- A half that waits does so for the call that it polls, until this is back. -/
theorem pollHalf_cases (e : Engine F) (i : Nat) :
    ((e.pollCall i).2 = none ∧ e.pollHalf (.waiting i) = ((e.pollCall i).1, .waiting i)) ∨
    (∃ found, (e.pollCall i).2 = some (.items found) ∧
      e.pollHalf (.waiting i) = ((e.pollCall i).1, .settled found)) ∨
    ∃ cause, (e.pollCall i).2 = some (.failure cause) ∧
      e.pollHalf (.waiting i)
        = (((e.pollCall i).1.count .failure).note (.failed cause), .settled []) := by
  rcases hp : e.pollCall i with ⟨d, outcome⟩
  simp only [pollHalf, hp]
  rcases outcome with _ | ⟨found | cause⟩
  · exact .inl ⟨rfl, rfl⟩
  · exact .inr (.inl ⟨found, rfl, rfl⟩)
  · exact .inr (.inr ⟨cause, rfl, rfl⟩)

/-- What a poll of a half does to calls is what a poll of its call does. -/
theorem outcome?_pollHalf (e : Engine F) (i k : Nat) :
    (e.pollHalf (.waiting i)).1.outcome? k = (e.pollCall i).1.outcome? k := by
  rcases e.pollHalf_cases i with ⟨-, h⟩ | ⟨_, -, h⟩ | ⟨_, -, h⟩
  · rw [h]
  · rw [h]
  · rw [h]; rfl

/-- A poll of a half does nothing to calls that it does not wait for. -/
theorem outcome?_pollHalf_of_not_mem {h : Half} {k : Nat} (hk : k ∉ h.call?.toList) :
    (e.pollHalf h).1.outcome? k = e.outcome? k := by
  cases h with
  | settled items => rfl
  | waiting i =>
    have hne : i ≠ k := by
      rintro rfl
      exact hk (List.mem_singleton_self i)
    rw [outcome?_pollHalf, outcome?_pollCall_of_ne hne]

/-- A half goes on to wait as long as its call is not back. -/
theorem toList_call?_pollHalf (e : Engine F) (h : Half) :
    (e.pollHalf h).2.call?.toList
      = h.call?.toList.filter fun i => ((e.pollHalf h).1.outcome? i).isNone := by
  cases h with
  | settled items => rfl
  | waiting i =>
    have hout : (e.pollHalf (.waiting i)).1.outcome? i = (e.pollCall i).2 := by
      rw [outcome?_pollHalf, outcome?_pollCall_self]
    show _ = [i].filter _
    rw [List.filter_singleton, hout]
    rcases e.pollHalf_cases i with ⟨hnone, h⟩ | ⟨_, hsome, h⟩ | ⟨_, hsome, h⟩
    · rw [h, hnone]; rfl
    · rw [h, hsome]; rfl
    · rw [h, hsome]; rfl

theorem counted_failed (e : Engine F) (cause : String) :
    e.Counted 0 0 0 1 ((e.count .failure).note (.failed cause)) where
  options := rfl
  lookups := rfl
  hits := Nat.le_refl _
  misses := rfl
  calls := Nat.le_refl _
  invalidations := rfl
  disposed := Nat.le_refl _
  generation := rfl
  generations := fun _ => rfl
  failures := rfl
  noted := by
    have hsum := e.counters.sum_record .failure
    simp only [note, count, Array.size_push]
    omega

/-- **A half that waits counts the failure that it sees**, once its call is back with one. -/
theorem counted_pollHalf (e : Engine F) (h : Half) :
    e.Counted 0 0 0 (h.call?.toList.countP (e.pollHalf h).1.failed) (e.pollHalf h).1 := by
  cases h with
  | settled items => exact .refl e
  | waiting i =>
    have hout : (e.pollHalf (.waiting i)).1.failed i = (e.pollCall i).2.any Outcome.isFailure := by
      rw [failed, outcome?_pollHalf, outcome?_pollCall_self]
    have hpoll := counted_pollCall e i
    show e.Counted 0 0 0 ([i].countP _) _
    rw [List.countP_singleton, hout]
    rcases e.pollHalf_cases i with ⟨hnone, h⟩ | ⟨_, hsome, h⟩ | ⟨cause, hsome, h⟩
    · rw [h, hnone]; exact hpoll
    · rw [h, hsome]; exact hpoll
    · rw [h, hsome]; exact (counted_failed _ cause).after hpoll

section Resume

variable {r : Request} {previous current : Half} {before : Counters}

theorem calls_stopWatch (e : Engine F) (r : Request) (before : Counters) (items : Option Nat) :
    (e.stopWatch r before items).calls = e.calls := by
  unfold stopWatch
  split <;> rfl

/-- A poll of a query polls one half after the other. -/
theorem outcome?_resume (k : Nat) :
    (e.resume r previous current before).1.outcome? k
      = ((e.pollHalf previous).1.pollHalf current).1.outcome? k := by
  unfold resume
  dsimp only
  split
  · rw [outcome?, calls_stopWatch]; rfl
  · rfl

/-- What the first half waits for is as its own poll leaves it, where the second half waits for
something else. -/
theorem outcome?_resume_of_mem (hne : (previous.call?.toList ++ current.call?.toList).Nodup)
    {k : Nat} (hk : k ∈ previous.call?.toList) :
    (e.resume r previous current before).1.outcome? k = (e.pollHalf previous).1.outcome? k := by
  have hnot : k ∉ current.call?.toList := fun hk' =>
    (List.nodup_append.mp hne).2.2 k hk k hk' rfl
  rw [outcome?_resume, outcome?_pollHalf_of_not_mem hnot]

/-- **A poll of a query counts the failures that it sees**, one for each of its calls. -/
theorem counted_resume (hne : (previous.call?.toList ++ current.call?.toList).Nodup) :
    e.Counted 0 0 0 ((previous.call?.toList ++ current.call?.toList).countP
        (e.resume r previous current before).1.failed)
      (e.resume r previous current before).1 := by
  have hstopped : ((e.pollHalf previous).1.pollHalf current).1.Counted 0 0 0 0
      (e.resume r previous current before).1 := by
    unfold resume
    dsimp only
    split
    · exact counted_stopWatch _ r before _
    · exact .refl _
  have hfirst : previous.call?.toList.countP (e.resume r previous current before).1.failed
      = previous.call?.toList.countP (e.pollHalf previous).1.failed := by
    refine List.countP_congr fun k hk => ?_
    rw [failed, failed, outcome?_resume_of_mem hne hk]
  have hsecond : current.call?.toList.countP (e.resume r previous current before).1.failed
      = current.call?.toList.countP ((e.pollHalf previous).1.pollHalf current).1.failed := by
    refine List.countP_congr fun k _ => ?_
    rw [failed, failed, outcome?_resume]
  rw [List.countP_append, hfirst, hsecond]
  exact ((counted_pollHalf e previous).trans (counted_pollHalf _ current)).before hstopped

/-- **A query goes on to wait for what is not back**, and for nothing else. -/
theorem calls_resume (hne : (previous.call?.toList ++ current.call?.toList).Nodup) :
    (e.resume r previous current before).2.calls
      = (previous.call?.toList ++ current.call?.toList).filter fun k =>
          ((e.resume r previous current before).1.outcome? k).isNone := by
  have hfirst : previous.call?.toList.filter
        (fun k => ((e.resume r previous current before).1.outcome? k).isNone)
      = (e.pollHalf previous).2.call?.toList := by
    rw [toList_call?_pollHalf]
    refine List.filter_congr fun k hk => ?_
    rw [outcome?_resume_of_mem hne hk]
  have hsecond : current.call?.toList.filter
        (fun k => ((e.resume r previous current before).1.outcome? k).isNone)
      = ((e.pollHalf previous).1.pollHalf current).2.call?.toList := by
    rw [toList_call?_pollHalf]
    refine List.filter_congr fun k _ => ?_
    rw [outcome?_resume]
  rw [List.filter_append, hfirst, hsecond]
  unfold resume
  dsimp only
  split
  · next habove hhere => rw [habove, hhere]; rfl
  · rfl

end Resume

/-! ### Queries -/

/-- The entries of a plan that was looked up are in the table under its keys. -/
theorem mem_table_lookupPlan (e : Engine F) (background : Bool) (stamp : Stamp) (p : Plan) :
    (∀ entry ∈ (e.lookupPlan background stamp p).2.1, ∃ key ∈ p.previous,
      (key, entry) ∈ (e.lookupPlan background stamp p).1.table) ∧
    (p.current, (e.lookupPlan background stamp p).2.2)
      ∈ (e.lookupPlan background stamp p).1.table := by
  obtain ⟨previous, current⟩ := p
  cases previous with
  | none =>
    refine ⟨?_, mem_lookupPlanned e background stamp current⟩
    intro entry hentry
    cases hentry
  | some above =>
    have hmem := mem_lookupPlanned e background stamp above
    have hnext := lookup_lookupPlanned (e.lookupPlanned background stamp above).1 background stamp
      current
    refine ⟨?_, mem_lookupPlanned _ background stamp current⟩
    intro entry hentry
    cases hentry
    exact ⟨above, rfl, hnext.table_prefix.subset hmem⟩

/-- The calls that a query fetches from now. -/
def fetched (e : Engine F) (background : Bool) (r : Request) : List Nat :=
  (e.fetches background r).1.toList ++ [(e.fetches background r).2]

/-- A query fetches from two different calls, since its keys are different. -/
theorem Coalesced.nodup_fetched (h : e.Coalesced) (background : Bool) (r : Request) :
    (e.fetched background r).Nodup := by
  have hserve : (e.serve (.asked r.document r.position.line) background e.generations.foreground
      r.document r.position).Coalesced := h.serve rfl rfl
  obtain ⟨habove, hhere⟩ := mem_table_lookupPlan (e.note (.asked r.document r.position.line))
    background e.generations.foreground r.plan
  have hplan := lookupPlan_fst (e.note (.asked r.document r.position.line)) background
    e.generations.foreground r.plan
  have hentries := hserve.entries
  rw [Engine.serve, ← show r.plan = Plan.at r.document r.position from rfl, ← hplan] at hentries
  unfold fetched fetches
  rcases hlooked : (e.note (.asked r.document r.position.line)).lookupPlan background
    e.generations.foreground r.plan with ⟨d, _ | above, here⟩
  · exact List.nodup_singleton _
  · rw [hlooked] at habove hhere hentries
    obtain ⟨key, hkey, hmem⟩ := habove above rfl
    have hne : above.call ≠ here.call := by
      intro heq
      have hident := hentries _ hmem
      rw [heq, hentries _ hhere] at hident
      -- the key of the line above has another depth
      obtain ⟨line, -, rfl⟩ := Option.map_eq_some_iff.mp hkey
      cases hident
    exact List.nodup_cons.mpr ⟨fun h => hne (List.mem_singleton.mp h), List.nodup_singleton _⟩

theorem call?_half (entry : Option Entry) : (half entry).call? = entry.map Entry.call := by
  cases entry <;> rfl

section Begin

variable {background : Bool} {r : Request}

/-- The first poll of a query looks its plan up, and polls both of its halves. -/
theorem exists_begin (e : Engine F) (h : e.disposed = false) (background : Bool) (r : Request) :
    ∃ d above here, e.begin background r = d.resume r above here e.counters ∧
      above.call?.toList ++ here.call?.toList = e.fetched background r ∧
      e.Counted (Plan.width r.position.line) 0 0 0 d := by
  let looked := (e.note (.asked r.document r.position.line)).lookupPlan background
    e.generations.foreground r.plan
  refine ⟨looked.1, half looked.2.1, half (some looked.2.2), ?_, ?_, ?_⟩
  · rw [begin, h, if_neg Bool.false_ne_true]
    rfl
  · rw [call?_half, call?_half]
    rfl
  · have hlooked : looked.1 = _ := lookupPlan_fst _ background e.generations.foreground r.plan
    rw [hlooked, ← Plan.length_keys_at r.document]
    exact (counted_lookupKeys _ background _ r.plan.keys).after (counted_note e _)

/-- **A query counts its lookups**, and the failures that its first poll sees. -/
theorem counted_begin (h : e.disposed = false) (hne : (e.fetched background r).Nodup) :
    e.Counted (Plan.width r.position.line) 0 0
      ((e.fetched background r).countP (e.begin background r).1.failed)
      (e.begin background r).1 := by
  obtain ⟨d, above, here, hbegin, hfetched, hlooked⟩ := e.exists_begin h background r
  rw [← hfetched] at hne ⊢
  rw [hbegin]
  simpa only [Nat.zero_add, Nat.add_zero] using hlooked.trans (counted_resume hne)

/-- From then on it waits for what is not back. -/
theorem calls_begin (h : e.disposed = false) (hne : (e.fetched background r).Nodup) :
    (e.begin background r).2.calls
      = (e.fetched background r).filter fun k =>
          ((e.begin background r).1.outcome? k).isNone := by
  obtain ⟨d, above, here, hbegin, hfetched, -⟩ := e.exists_begin h background r
  rw [← hfetched] at hne ⊢
  rw [hbegin]
  exact calls_resume hne

end Begin

end Engine

end CursorContext
