import CursorContext.Proofs.Cancellation
import CursorContext.Proofs.Disposal
import CursorContext.Proofs.Fetches
import CursorContext.Proofs.Moments

/-!
# What moves of the cursor take away from queries

A query that finds no entry makes a call that no move of the cursor ever cancels.  But an entry that
a preload made stays in the table when its generation is superseded, with the call that is cancelled
then, and a query that finds it depends on that call all the same.  If the fetcher gives such a call
up, the query waits for ever.

This is the only way in which moves get at queries: as long as the cache is not disposed of, a call
is cancelled exactly if it was made for a generation that is superseded, and every other call is
polled as if nothing was ever cancelled.

## Main definitions

* `Fetcher.Undisturbed` — what becomes of a status while its token is not cancelled.
* `Engine.Superseded e i` — the call `i` was made for a generation that is superseded.
* `Engine.Losses start actions` — what queries can lose in a run, and how.

## Main results

* `peaceful_run` — a call that is not cancelled was never told so.
* `queries_lose_superseded_only` — queries lose nothing but superseded calls.
* `superseded_call_is_lost` — a query that waits for such a call is never answered.
-/

namespace CursorContext

/-- What becomes of a status while the fetcher is told things and the flight is polled, and its
token is not cancelled. -/
inductive Fetcher.Undisturbed (F : Fetcher) (s : F.State) (c : Status F.Flight) :
    F.State → Status F.Flight → Prop
  /-- Nothing happens. -/
  | refl : F.Undisturbed s c s c
  /-- The fetcher is told something. -/
  | obey {s' : F.State} {c' : Status F.Flight} (order : F.Order) (h : F.Undisturbed s c s' c') :
      F.Undisturbed s c (F.obey s' order) c'
  /-- The flight is polled at some time, and is not told of a cancelled token. -/
  | polled {s' : F.State} {c' c'' : Status F.Flight} {now : Nat} (h : F.Undisturbed s c s' c')
      (hp : F.Polled s' now false c' c'') : F.Undisturbed s c s' c''

namespace Engine

variable {F : Fetcher} {e e' : Engine F} {i : Nat}

/-! ### Calls that are not cancelled -/

/-- Every call that is not cancelled departed for its key, and was never told of a cancelled
token. -/
def Peaceful (e : Engine F) : Prop :=
  ∀ (i : Nat) (c : Call F), e.calls[i]? = some c → e.isCancelled c.stamp.token = false →
    ∃ s, F.Undisturbed s (.pending (F.depart s c.key)) e.fetcher c.status

theorem Present.peaceful (hp : e.Present e') (h : e.Peaceful) : e'.Peaceful := by
  intro i c hc hrunning
  rcases Nat.lt_or_ge i e.calls.size with hlt | hge
  · have hold := Array.getElem?_eq_getElem hlt
    obtain ⟨c', hc', hident, hpolled⟩ := hp.calls i _ hold
    have hsame : c' = c := Option.some.inj (hc'.symm.trans hc)
    subst hsame
    have hkey : c'.key = e.calls[i].key := congrArg Prod.fst hident
    have hstamp : c'.stamp = e.calls[i].stamp := congrArg Prod.snd hident
    -- what is not cancelled now was not cancelled before
    have hbefore : e.isCancelled e.calls[i].stamp.token = false := by
      rw [Bool.eq_false_iff]
      intro hcancelled
      have hafter := hp.cancelled _ hcancelled
      rw [← hstamp, hrunning] at hafter
      cases hafter
    obtain ⟨s, hs⟩ := h i _ hold hbefore
    rw [← hstamp, hrunning] at hpolled
    exact ⟨s, by rw [hkey, hp.fetcher]; exact hs.polled hpolled⟩
  · have hfresh := hp.fresh i c hge hc
    rw [hrunning] at hfresh
    exact ⟨e.fetcher, by rw [hp.fetcher]; exact .polled .refl hfresh⟩

theorem peaceful_perform (h : e.Peaceful) (a : Action F) : (e.perform a).Peaceful := by
  rcases e.present_cases a with ⟨order, rfl⟩ | ⟨ms, rfl⟩ | hpresent
  · intro i c hc hrunning
    obtain ⟨s, hs⟩ := h i c hc hrunning
    exact ⟨s, hs.obey order⟩
  · exact h
  · exact hpresent.peaceful h

/-- **A call that is not cancelled was never told so.** -/
theorem peaceful_run (options : Options) (world : F.State) (actions : List (Action F)) :
    ((opening options world).run actions).Peaceful := by
  induction actions using List.reverseRecOn with
  | nil =>
    intro i c hc
    cases hc
  | append_singleton past a ih =>
    rw [run_append]
    exact peaceful_perform ih a

/-! ### Calls that are superseded -/

/-- A call that was made for a generation before the current one. -/
def Superseded (e : Engine F) (i : Nat) : Prop :=
  ∃ x ∈ e.annals.calls, x.call = i ∧ ∃ n, x.source = .preload n ∧ n < e.generations.current.id

/-- **As long as the cache is not disposed of, the superseded calls are those that are
cancelled.** -/
theorem Attributed.mem_cancelledCalls_iff (h : e.Attributed) (ho : e.Orderly) (hs : e.Sealed)
    (hopen : e.disposed = false) (hi : i < e.calls.size) :
    i ∈ e.cancelledCalls ↔ e.Superseded i := by
  constructor
  · intro hcancelled
    obtain ⟨x, hx, rfl⟩ := h.exists_issue hi
    obtain ⟨c, hc, hverdict⟩ := h.verdict ho hs hx
    rw [mem_cancelledCalls hc] at hcancelled
    cases hsource : x.source with
    | query =>
      have hdisposed := (hverdict.query hsource).mp hcancelled
      rw [hopen] at hdisposed
      cases hdisposed
    | preload n =>
      rcases (hverdict.preload n hsource).2.mp hcancelled with hdisposed | hn
      · rw [hopen] at hdisposed
        cases hdisposed
      · exact ⟨x, hx, rfl, n, hsource, hn⟩
  · rintro ⟨x, hx, rfl, n, hsource, hn⟩
    obtain ⟨c, hc, hverdict⟩ := h.verdict ho hs hx
    rw [mem_cancelledCalls hc]
    exact (hverdict.preload n hsource).2.mpr (.inr hn)

/-! ### What a query depends on -/

/-- The entries of a plan are in the table once they were looked up. -/
theorem mem_lookupPlan (e : Engine F) (background : Bool) (stamp : Stamp) (p : Plan) :
    (∀ entry ∈ (e.lookupPlan background stamp p).2.1,
      ∃ key, (key, entry) ∈ (e.lookupPlan background stamp p).1.table) ∧
    ∃ key, (key, (e.lookupPlan background stamp p).2.2)
      ∈ (e.lookupPlan background stamp p).1.table := by
  obtain ⟨previous, current⟩ := p
  cases previous with
  | none =>
    refine ⟨?_, current, mem_lookupPlanned e background stamp current⟩
    intro entry hentry
    cases hentry
  | some above =>
    have hmem := mem_lookupPlanned e background stamp above
    have hnext := lookup_lookupPlanned (e.lookupPlanned background stamp above).1 background stamp
      current
    refine ⟨?_, current, mem_lookupPlanned _ background stamp current⟩
    intro entry hentry
    cases hentry
    exact ⟨above, hnext.table_prefix.subset hmem⟩

/-- The fetches of a query are calls that were made. -/
theorem Coalesced.fetches_lt (h : e.Coalesced) (hopen : e.disposed = false) (background : Bool)
    (r : Request) :
    ∀ call ∈ (e.fetches background r).1.toList ++ [(e.fetches background r).2],
      call < (e.begin background r).1.calls.size := by
  have hserve : (e.serve (.asked r.document r.position.line) background e.generations.foreground
      r.document r.position).Coalesced := h.serve rfl rfl
  have hkeys : (Plan.at r.document r.position).keys = r.plan.keys := rfl
  rw [Engine.serve, hkeys, ← lookupPlan_fst] at hserve
  obtain ⟨hprevious, key, hcurrent⟩ := mem_lookupPlan (e.note (.asked r.document r.position.line))
    background e.generations.foreground r.plan
  have hlt : ∀ x ∈ ((e.note (.asked r.document r.position.line)).lookupPlan background
      e.generations.foreground r.plan).1.table, x.2.call < (e.begin background r).1.calls.size := by
    intro x hx
    have hlt := (List.getElem?_eq_some_iff.mp (hserve.entries x hx)).1
    rw [begin, hopen, if_neg Bool.false_ne_true]
    rw [(quiet_resume _ r _ _ _).size, ← length_idents]
    exact hlt
  intro call hcall
  rcases List.mem_append.mp hcall with hcall | hcall
  · obtain ⟨entry, hentry, rfl⟩ := Option.map_eq_some_iff.mp (Option.mem_toList.mp hcall)
    obtain ⟨key', hmem⟩ := hprevious entry hentry
    exact hlt _ hmem
  · rw [List.mem_singleton.mp hcall]
    exact hlt _ hcurrent

/-! ### What a query starts itself -/

/-- Calls know on whose behalf they were made, and the root is cancelled with the end of the cache
only. -/
def Settled (e : Engine F) : Prop := e.Orderly ∧ e.Attributed ∧ e.Sealed

theorem Phase.settled (hp : e.Phase e') (h : e.Settled) : e'.Settled := by
  obtain ⟨ho, ha, hs⟩ := h
  have hattributed := hp.attributed ⟨ho, ha⟩
  have hsealed := hp.sealed ⟨ho, hs⟩
  exact ⟨hattributed.1, hattributed.2, hsealed.2⟩

theorem settled_tell (h : e.Settled) (order : F.Order) : (e.tell order).Settled := by
  obtain ⟨ho, ha, hs⟩ := h
  have hages := ages_tell e order
  exact ⟨hages.orderly ho, ha.of_still ho hages rfl rfl rfl rfl, hs⟩

theorem Settled.run (h : e.Settled) {actions : List (Action F)} (hroot : .cancelRoot ∉ actions) :
    (e.run actions).Settled :=
  run_induction Phase.settled (fun _ order hd => settled_tell hd order) actions e
    (fun hmem => absurd hmem hroot) h

/-- A call that a query makes carries the token of the cache's whole life. -/
theorem token_begin (h : e.Settled) (background : Bool) (r : Request) (hold : e.calls.size ≤ i)
    (hnew : i < (e.begin background r).1.calls.size) :
    ∃ key stamp, (e.begin background r).1.idents[i]? = some (key, stamp) ∧
      stamp.token = e.generations.root := by
  have hbegun : (e.begin background r).1.Settled :=
    (phases_begin e background r).keep Phase.settled h
  obtain ⟨x, hx, rfl⟩ := hbegun.2.1.exists_issue hnew
  obtain ⟨key, stamp, hident, hsuits⟩ := hbegun.2.1.suits x hx
  refine ⟨key, stamp, hident, ?_⟩
  have hroot : (e.begin background r).1.generations.root = e.generations.root := by
    rw [(sameAge_begin e background r).1]
  rcases source_begin e background r x hx with hbefore | hquery
  · -- what was made before has a smaller number
    have hmem : x.call ∈ e.annals.calls.map Issue.call := List.mem_map_of_mem hbefore
    rw [h.2.1.calls, List.mem_range] at hmem
    omega
  · rw [hsuits.query hquery, hroot]

/-- **What a query starts itself is never cancelled**, as long as the cache is not disposed of. -/
theorem not_mem_cancelledCalls_begin (h : e.Settled) (background : Bool) (r : Request)
    {later : List (Action F)} (hroot : .cancelRoot ∉ later)
    (hopen : ((e.begin background r).1.run later).disposed = false) (hold : e.calls.size ≤ i)
    (hnew : i < (e.begin background r).1.calls.size) :
    i ∉ ((e.begin background r).1.run later).cancelledCalls := by
  obtain ⟨key, stamp, hident, htoken⟩ := token_begin h background r hold hnew
  obtain ⟨c, hc, -, hstamp⟩ := exists_call ((carries_run _ later).ident hident)
  have hbegun := (phases_begin e background r).keep Phase.settled h
  have hsealed : ((e.begin background r).1.run later).Sealed := (hbegun.run hroot).2.2
  have hages := (phases_begin e background r).relate Ages.refl Ages.trans Phase.ages
  have hkept : ((e.begin background r).1.run later).generations.root = e.generations.root :=
    (ages_run _ later).root.trans hages.root
  intro hcancelled
  rw [mem_cancelledCalls hc, hstamp, htoken, ← hkept] at hcancelled
  have hdisposed : ((e.begin background r).1.run later).disposed = true :=
    hsealed.symm.trans hcancelled
  rw [hopen] at hdisposed
  cases hdisposed

/-! ### What queries can lose -/

/-- What queries can lose in a run, and how. -/
structure Losses (start : Engine F) (actions : List (Action F)) : Prop where
  /-- The calls that are cancelled are those that are superseded. -/
  cancelled : ∀ i < (start.run actions).calls.size,
    (i ∈ (start.run actions).cancelledCalls ↔ (start.run actions).Superseded i)
  /-- Every other call is on its way, or came back, as if nothing was ever cancelled. -/
  unharmed : ∀ (i : Nat) (c : Call F), (start.run actions).calls[i]? = some c →
    ¬ (start.run actions).Superseded i →
    ∃ s, F.Undisturbed s (.pending (F.depart s c.key)) (start.run actions).fetcher c.status
  /-- What a query does not find and starts itself is not superseded, whatever happens next. -/
  own : ∀ background r later, .cancelRoot ∉ later →
    (((start.run actions).begin background r).1.run later).disposed = false →
    ∀ i, (start.run actions).calls.size ≤ i →
      i < ((start.run actions).begin background r).1.calls.size →
      i ∉ (((start.run actions).begin background r).1.run later).cancelledCalls
  /-- Where nothing is ready and all calls that are not cancelled came back, a query that ran and
  was not given up was answered by its fetches, unless one of them is superseded and did not come
  back. -/
  answered : ∀ past a i background rest client r, actions = past ++ a :: rest →
    a.Polls i background → (start.run past).jobs[i]? = some (.query client r .queued) →
    (start.run actions).Quiescent →
    (∀ call < (start.run actions).calls.size, call ∉ (start.run actions).cancelledCalls →
      ((start.run actions).outcome? call).isSome) →
    ∃ stage, (start.run actions).jobs[i]? = some (.query client r stage) ∧ (stage.isLeft = false →
      (∃ answer, stage = .finished answer ∧
        (start.run actions).Answers r.budget ((start.run past).fetches background r) answer) ∨
      ∃ call ∈ ((start.run past).fetches background r).1.toList
          ++ [((start.run past).fetches background r).2],
        (start.run actions).Superseded call ∧ (start.run actions).outcome? call = none)

/-- A query that was heard is answered, unless one of its fetches is superseded and did not come
back. -/
theorem Heard.answered_or {budget : Nat} {f : Option Nat × Nat} {stage : Stage}
    (h : e.Heard budget f stage) (hq : e.Quiescent) (hleft : stage.isLeft = false)
    (hback : ∀ call ∈ f.1.toList ++ [f.2], ¬ e.Superseded call → (e.outcome? call).isSome) :
    (∃ answer, stage = .finished answer ∧ e.Answers budget f answer) ∨
      ∃ call ∈ f.1.toList ++ [f.2], e.Superseded call ∧ e.outcome? call = none := by
  by_cases hall : ∀ call ∈ f.1.toList ++ [f.2], (e.outcome? call).isSome
  · obtain ⟨answer, hanswer⟩ := (h.finished_iff hq hleft).mpr hall
    exact .inl ⟨answer, hanswer, h.answers answer hanswer⟩
  · push Not at hall
    obtain ⟨call, hcall, hnone⟩ := hall
    refine .inr ⟨call, hcall, ?_, by simpa using hnone⟩
    by_contra hkept
    exact hnone (hback call hcall hkept)

/-- **Queries lose nothing but superseded calls.** -/
theorem queries_lose_superseded_only (options : Options) (world : F.State)
    (actions : List (Action F)) (hroot : .cancelRoot ∉ actions)
    (hopen : ((opening options world).run actions).disposed = false) :
    Losses (opening options world) actions := by
  obtain ⟨ho, hattributed⟩ := attributed_run options world actions
  obtain ⟨-, hsealed⟩ := sealed_run options world hroot
  have hcancelled : ∀ i < ((opening options world).run actions).calls.size,
      (i ∈ ((opening options world).run actions).cancelledCalls ↔
        ((opening options world).run actions).Superseded i) :=
    fun i hi => hattributed.mem_cancelledCalls_iff ho hsealed hopen hi
  refine ⟨hcancelled, ?_, ?_, ?_⟩
  · intro i c hc hkept
    refine peaceful_run options world actions i c hc ?_
    rw [Bool.eq_false_iff]
    intro hyes
    have hlt := (Array.getElem?_eq_some_iff.mp hc).1
    exact hkept ((hcancelled i hlt).mp ((mem_cancelledCalls hc).mpr hyes))
  · intro background r later hlater hstill i hold hnew
    exact not_mem_cancelledCalls_begin ⟨ho, hattributed, hsealed⟩ background r hlater hstill hold
      hnew
  · rintro past a i background rest client r rfl ha hqueued hq hback
    have hbefore : ((opening options world).run past).disposed = false := by
      rw [Bool.eq_false_iff]
      intro hdisposed
      rw [run_append, Reachable.disposed ⟨_, rfl⟩ hdisposed] at hopen
      cases hopen
    obtain ⟨stage, hj, hfollows⟩ := ha.follows hqueued hbefore
    obtain ⟨stage', hj', hfollows'⟩ := follows_run hj hfollows rest
    rw [run_append, run_cons] at hq hback hcancelled ⊢
    refine ⟨stage', hj', fun hleft => ?_⟩
    refine (heard_of_follows hj' hfollows').answered_or hq hleft fun call hcall hkept => ?_
    -- the fetches are calls that were there when the query ran, and are so still
    have hmade := (coalesced_run options world past).fetches_lt hbefore background r call hcall
    have hpolled : (((opening options world).run past).begin background r).1.calls.size
        ≤ (((opening options world).run past).perform a).calls.size := by
      rw [ha.perform_query hqueued]
      exact ((quiet_setJob _ _ _).carries.trans (carries_reap _)).size_le
    have hlater := (carries_run (((opening options world).run past).perform a) rest).size_le
    have hlt := Nat.lt_of_lt_of_le hmade (Nat.le_trans hpolled hlater)
    exact hback call hlt fun hmem => hkept ((hcancelled call hlt).mp hmem)

/-- The cursor moves within a document. -/
def moveTo (line : UInt32) : Action Fetcher.canned := .move true ⟨"file:///a"⟩ ⟨line, 0⟩

/-- A query makes two calls that are held.  The cursor rests in two places after that, so one
generation begins and is superseded.  Then the calls are let go. -/
def kept : List (Action Fetcher.canned) :=
  [.query (lineQuery 100), .poll 0, moveTo 3, .poll 3, .tick 100, .poll 3, moveTo 9, .poll 4,
    .tick 100, .poll 4, .tell .release, .poll 1, .poll 2, .poll 0, .poll 5, .poll 6]

/-- The query is answered by its own calls. -/
theorem queries_lose_superseded_only_kept :
    .cancelRoot ∉ kept ∧ (afterHeld kept).disposed = false ∧
    Losses (opening {} ({ held := true } : Canned.State)) kept ∧
    (afterHeld kept).generations.current.id = 2 ∧ (afterHeld kept).cancelledCalls = [] ∧
    (afterHeld kept).answers = [(0, .snippets [⟨"sym_2_d0", "/a", "line 2"⟩,
      ⟨"sym_3_d1", "/a", "line 3"⟩])] := by
  have hroot : .cancelRoot ∉ kept := by simp [kept, moveTo]
  have hopen : (afterHeld kept).disposed = false := by decide +kernel
  have hlosses := queries_lose_superseded_only (F := Fetcher.canned) {}
    ({ held := true } : Canned.State) kept hroot hopen
  exact ⟨hroot, hopen, hlosses, by decide +kernel, by decide +kernel, by decide +kernel⟩

/-- The cursor rests, which preloads a line with two calls that are held, and a query for this line
joins them.  The cursor moves on and rests again, and what was held is let go. -/
def joined : List (Action Fetcher.canned) :=
  [moveTo 3, .poll 0, .tick 100, .poll 0, .query (lineQuery 100), .poll 3, moveTo 9, .poll 4,
    .tick 100, .poll 4, .poll 1, .poll 2, .tell .release, .poll 3, .poll 5, .poll 6]

/-- The canned fetcher lost a call. -/
def hasLost (e : Engine Fetcher.canned) (i : Nat) : Bool :=
  match e.calls[i]? with
  | some c =>
    match c.status with
    | .pending flight => Canned.Flight.lost flight
    | .resolved _ => false
  | none => false

theorem poll_of_lost (s : Canned.State) (cancelled : Bool) {f : Canned.Flight}
    (h : f.lost = true) : s.poll cancelled f = .blocked := by
  unfold Canned.State.poll
  rw [if_pos h]

theorem flow_of_lost {s s' : Fetcher.canned.State} {f : Canned.Flight}
    {c : Status Fetcher.canned.Flight} (hlost : f.lost = true)
    (h : Fetcher.canned.Flow s (.pending f) s' c) : c = .pending f := by
  have hblocked : ∀ s now cancelled, Fetcher.canned.poll s now cancelled f = .blocked :=
    fun s _ cancelled => poll_of_lost s cancelled hlost
  induction h with
  | refl => rfl
  | obey _ _ ih => exact ih
  | moved _ hp ih =>
    cases ih
    rw [hblocked] at hp
    cases hp
  | resolved _ hp ih =>
    cases ih
    rw [hblocked] at hp
    cases hp

/-- A call that was lost never comes back. -/
theorem outcome?_of_hasLost {e : Engine Fetcher.canned} (h : e.hasLost i = true)
    (actions : List (Action Fetcher.canned)) : (e.run actions).outcome? i = none := by
  unfold hasLost at h
  cases hc : e.calls[i]? with
  | none =>
    rw [hc] at h
    cases h
  | some c =>
    rw [hc] at h
    obtain ⟨c', hc', -, hflow⟩ := carries_run e actions i c hc
    cases hs : c.status with
    | resolved o =>
      simp only [hs] at h
      cases h
    | pending f =>
      simp only [hs] at h
      rw [hs] at hflow
      rw [outcome?, hc', Option.bind_some, flow_of_lost h hflow]
      rfl

/-- As long as one of its fetches is not back, a query is not answered. -/
theorem unanswered_run {a : Action F} {background : Bool} {client : Nat} {r : Request}
    (ha : a.Polls i background) (hj : e.jobs[i]? = some (.query client r .queued))
    (hopen : e.disposed = false) (rest : List (Action F)) {call : Nat}
    (hcall : call ∈ (e.fetches background r).1.toList ++ [(e.fetches background r).2])
    (hout : ((e.perform a).run rest).outcome? call = none) :
    ∃ stage, ((e.perform a).run rest).jobs[i]? = some (.query client r stage) ∧
      ∀ answer, stage ≠ .finished answer := by
  obtain ⟨stage, hj, hf⟩ := ha.follows hj hopen
  obtain ⟨stage', hj', hf'⟩ := follows_run hj hf rest
  refine ⟨stage', hj', ?_⟩
  rintro answer rfl
  have hback := Answers.isSome hf' call hcall
  rw [hout] at hback
  cases hback

/-- **The query is never answered**, whatever happens from then on.  Its calls were not cancelled
when it joined them, and all calls that are not cancelled came back. -/
theorem superseded_call_is_lost :
    (afterHeld joined).disposed = false ∧ (afterHeld joined).Quiescent ∧
    (∀ call < (afterHeld joined).calls.size, call ∉ (afterHeld joined).cancelledCalls →
      ((afterHeld joined).outcome? call).isSome) ∧
    (afterHeld (joined.take 5)).fetches true (lineQuery 100) = (some 0, 1) ∧
    (afterHeld (joined.take 6)).cancelledCalls = [] ∧
    (afterHeld joined).cancelledCalls = [0, 1] ∧
    ∀ later, ∃ stage, ((afterHeld joined).run later).jobs[3]?
      = some (.query 0 (lineQuery 100) stage) ∧ ∀ answer, stage ≠ .finished answer := by
  have hfetches : (afterHeld (joined.take 5)).fetches true (lineQuery 100) = (some 0, 1) := by
    decide +kernel
  refine ⟨by decide +kernel, by decide +kernel, by decide +kernel, hfetches, by decide +kernel,
    by decide +kernel, fun later => ?_⟩
  have hqueued : (afterHeld (joined.take 5)).jobs[3]?
      = some (.query 0 (lineQuery 100) .queued) := by decide +kernel
  have hopen : (afterHeld (joined.take 5)).disposed = false := by decide +kernel
  have hlost : (afterHeld joined).hasLost 0 = true := by decide +kernel
  have hsplit : afterHeld joined
      = ((afterHeld (joined.take 5)).perform (.poll 3)).run (joined.drop 6) := by
    have happend := run_append (opening {} ({ held := true } : Canned.State)) (joined.take 5)
      (.poll 3 :: joined.drop 6)
    rw [run_cons] at happend
    exact happend
  have hnone := outcome?_of_hasLost hlost later
  rw [hsplit, ← run_append] at hnone ⊢
  refine unanswered_run (.inside 3) hqueued hopen _ ?_ hnone
  rw [hfetches]
  exact List.mem_cons_self

end Engine

end CursorContext
