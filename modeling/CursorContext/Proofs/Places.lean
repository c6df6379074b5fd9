import CursorContext.Proofs.Accounts

/-!
# Places and their keys

A place is a line of a document.  All positions on it have the same plan, and no two places have a
key in common: the key of a line is followed one hop and that of the line above is not, so what is
the line above for one place and the line of the cursor for another has two keys.  That is so at the
end of the lines too, where spans are cut short, since their starts still differ.

So a place that is served makes no call for another one, and all its calls are made the first time.
Between two clearings of the table there are as many calls as the places that were served have keys,
each place taken once, in whatever order queries and preloads came to them and however often.

## Main definitions

* `Place`, `Place.keys` — a line of a document, and the keys of its plan.
* `Engine.visited` — the place that an action serves, for a query or for a preload.
* `Engine.clears` — an action clears the table.
* `Stretch`, `Engine.stretch` — what was served since the table was last cleared.

## Main results

* `Plan.mem_keys_at` — which keys a plan has.
* `eraseDups_flatMap_keys` — the keys of places, without the repeats.
* `passes_perform` — what an action serves and clears.
* `calls_count_places` — shared keys, and the calls since the table was last cleared.
-/

namespace CursorContext

/-! ### Keys of plans -/

/-- A line of a document. -/
structure Place where
  /-- The document. -/
  document : Uri
  /-- The line. -/
  line : UInt32
  deriving DecidableEq, Repr

/-- The time since the table was last cleared. -/
structure Stretch where
  /-- How many calls there were when it was cleared. -/
  base : Nat := 0
  /-- The places that were served since, in order. -/
  places : List Place := []
  deriving DecidableEq, Repr

namespace Plan

/-- The character does not matter. -/
theorem at_eq_at (document : Uri) {position position' : Position}
    (h : position.line = position'.line) :
    Plan.at document position = Plan.at document position' := by
  rw [Plan.at, Plan.at, h]

/-- The key of a line is followed one hop, and that of the line above is not. -/
theorem mem_keys_at {document : Uri} {position : Position} {key : Key} :
    key ∈ (Plan.at document position).keys ↔
      key = ⟨document, Span.ofLine position.line, .oneHop⟩ ∨
        (position.line ≠ 0 ∧ key = ⟨document, Span.ofLine (position.line - 1), .direct⟩) := by
  by_cases h : position.line = 0
  · simp [Plan.at, keys, h]
  · simp only [Plan.at, keys, Span.above?_ofLine h, Option.map_some, Option.toList_some,
      List.mem_append, List.mem_singleton, ne_eq, h, not_false_eq_true, true_and]
    exact or_comm

theorem nodup_keys_at (document : Uri) (position : Position) :
    (Plan.at document position).keys.Nodup := by
  have hdepth : Depth.direct ≠ Depth.oneHop := by decide
  by_cases h : position.line = 0
  · simp [Plan.at, keys, h]
  · simp [Plan.at, keys, Span.above?_ofLine h, hdepth]

/-- **Two positions have a key in common exactly if they are on the same line of one document.** -/
theorem exists_mem_keys_iff {document document' : Uri} {position position' : Position} :
    (∃ key ∈ (Plan.at document position).keys, key ∈ (Plan.at document' position').keys) ↔
      document = document' ∧ position.line = position'.line := by
  constructor
  · rintro ⟨key, hkey, hkey'⟩
    rw [mem_keys_at] at hkey hkey'
    have hdepth : Depth.direct ≠ Depth.oneHop := by decide
    rcases hkey with rfl | ⟨-, rfl⟩ <;> rcases hkey' with heq | ⟨-, heq⟩
    · exact ⟨congrArg Key.document heq, congrArg (·.span.start) heq⟩
    · exact absurd (congrArg Key.depth heq) hdepth.symm
    · exact absurd (congrArg Key.depth heq) hdepth
    · -- the lines above start one line before
      have hstart : position.line - 1 = position'.line - 1 := congrArg (·.span.start) heq
      exact ⟨congrArg Key.document heq, UInt32.sub_left_inj 1 |>.mp hstart⟩
  · rintro ⟨rfl, hline⟩
    rw [at_eq_at document hline]
    exact ⟨_, mem_keys_at.mpr (.inl rfl), mem_keys_at.mpr (.inl rfl)⟩

end Plan

namespace Place

/-- The keys of the plan of any position on the line. -/
def keys (p : Place) : List Key := (Plan.at p.document ⟨p.line, 0⟩).keys

theorem nodup_keys (p : Place) : p.keys.Nodup := Plan.nodup_keys_at _ _

/-- No key is that of two places. -/
theorem eq_of_mem_keys {p q : Place} {key : Key} (hp : key ∈ p.keys) (hq : key ∈ q.keys) :
    p = q := by
  obtain ⟨hdocument, hline⟩ := Plan.exists_mem_keys_iff.mp ⟨key, hp, hq⟩
  obtain ⟨_, _⟩ := p
  obtain ⟨_, _⟩ := q
  rw [Place.mk.injEq]
  exact ⟨hdocument, hline⟩

end Place

/-! ### Keys without repeats -/

section

variable {α : Type} [BEq α] [LawfulBEq α] {l more : List α}

theorem eraseDups_append_of_subset (h : ∀ x ∈ more, x ∈ l) :
    (l ++ more).eraseDups = l.eraseDups := by
  induction more generalizing l with
  | nil => rw [List.append_nil]
  | cons k rest ih =>
    have hk : k ∈ l := h k List.mem_cons_self
    rw [List.append_cons, ih fun x hx => List.mem_append_left _ (h x (List.mem_cons_of_mem k hx)),
      eraseDups_concat_of_mem hk]

theorem eraseDups_append_of_disjoint (h : ∀ x ∈ more, x ∉ l) (hne : more.Nodup) :
    (l ++ more).eraseDups = l.eraseDups ++ more := by
  induction more generalizing l with
  | nil => rw [List.append_nil, List.append_nil]
  | cons k rest ih =>
    obtain ⟨hk, hrest⟩ := List.nodup_cons.mp hne
    have hnew : ∀ x ∈ rest, x ∉ l ++ [k] := by
      intro x hx hmem
      rcases List.mem_append.mp hmem with hmem | hmem
      · exact h x (List.mem_cons_of_mem k hx) hmem
      · exact hk (List.mem_singleton.mp hmem ▸ hx)
    rw [List.append_cons, ih hnew hrest, eraseDups_concat_of_not_mem (h k List.mem_cons_self),
      List.append_assoc, List.singleton_append]

end

/-- **The keys of places without the repeats are those of the places without the repeats.** -/
theorem eraseDups_flatMap_keys (places : List Place) :
    (places.flatMap Place.keys).eraseDups = places.eraseDups.flatMap Place.keys := by
  induction places using List.reverseRecOn with
  | nil => rfl
  | append_singleton places p ih =>
    rw [List.flatMap_append, List.flatMap_singleton]
    by_cases hp : p ∈ places
    · rw [eraseDups_append_of_subset, eraseDups_concat_of_mem hp, ih]
      exact fun key hkey => List.mem_flatMap.mpr ⟨p, hp, hkey⟩
    · rw [eraseDups_append_of_disjoint _ p.nodup_keys, eraseDups_concat_of_not_mem hp,
        List.flatMap_append, List.flatMap_singleton, ih]
      -- a key of another place would make it this one
      intro key hkey hmem
      obtain ⟨q, hq, hkeyq⟩ := List.mem_flatMap.mp hmem
      exact hp (Place.eq_of_mem_keys hkey hkeyq ▸ hq)

/-- So many keys as the places have together. -/
theorem length_flatMap_keys (places : List Place) :
    (places.flatMap Place.keys).length = total (fun p => Plan.width p.line) places := by
  induction places with
  | nil => rfl
  | cons p rest ih =>
    rw [List.flatMap_cons, List.length_append, ih, total_cons, Place.keys, Plan.length_keys_at]

namespace Engine

variable {F : Fetcher} {e e' : Engine F}

/-! ### What an action serves -/

/-- The place that an action serves: a query is served at its first poll, unless the cache was
disposed of, and a preload when it fires. -/
def visited (e : Engine F) : Action F → List Place
  | .ask r => if e.disposed then [] else [⟨r.document, r.position.line⟩]
  | .warm _ document position => if e.isOver then [] else [⟨document, position.line⟩]
  | .poll job =>
    match e.jobs[job]? with
    | some (.query _ r .queued) =>
      if e.disposed then [] else [⟨r.document, r.position.line⟩]
    | some (.timer token due document position) =>
      if !e.isCancelled token && e.deadline due ≤ e.now && !e.isOver then
        [⟨document, position.line⟩] else []
    | _ => []
  | .pollOutside job =>
    match e.jobs[job]? with
    | some (.query _ r .queued) =>
      if e.disposed then [] else [⟨r.document, r.position.line⟩]
    | _ => []
  | _ => []

/-- An action clears the table: it is one that does, or it brings the cache to its end. -/
def clears (e : Engine F) (a : Action F) : Bool :=
  a.empties || (!e.disposed && (e.perform a).disposed)

/-- From `e` to `e'` the plans of some places were asked for, and the epoch is the same. -/
structure Serves (e e' : Engine F) (places : List Place) : Prop where
  past : e'.annals.past = e.annals.past
  served : e'.annals.epoch.served = e.annals.epoch.served ++ places.flatMap Place.keys

theorem Serves.of_eq (h : e'.annals = e.annals) : e.Serves e' [] := by
  refine ⟨by rw [h], ?_⟩
  rw [h, List.flatMap_nil, List.append_nil]

/-- What adds nothing to the annals afterwards does not matter. -/
theorem Serves.trans_eq {d : Engine F} {places : List Place} (h : e.Serves d places)
    (hd : e'.annals = d.annals) : e.Serves e' places :=
  ⟨by rw [hd, h.past], by rw [hd, h.served]⟩

/-- A query that is polled first serves its place. -/
theorem serves_begin (h : e.disposed = false) (background : Bool) (r : Request) :
    e.Serves (e.begin background r).1 [⟨r.document, r.position.line⟩] := by
  have hl := looked_begin h background r
  refine ⟨hl.past, ?_⟩
  rw [hl.served, List.flatMap_singleton, Place.keys]
  rfl

/-- A preload serves its place. -/
theorem serves_warm (h : e.isOver = false) (background : Bool) (document : Uri)
    (position : Position) :
    e.Serves (e.warm background document position).1 [⟨document, position.line⟩] := by
  have hl := looked_warm h background document position
  refine ⟨hl.past, ?_⟩
  rw [hl.served, List.flatMap_singleton, Place.keys]
  rfl

theorem disposed_warm (e : Engine F) (background : Bool) (document : Uri) (position : Position) :
    (e.warm background document position).1.disposed = e.disposed := by
  cases h : e.isOver with
  | true => rw [warm, if_pos h]; rfl
  | false =>
    rw [warm_of_not_isOver background document position h]
    exact (still_servePreload e background document position).disposed

theorem annals_move (e : Engine F) (background : Bool) (document : Uri) (position : Position) :
    (e.move background document position).annals = e.annals := by
  unfold move
  split
  · rfl
  · split
    · exact annals_arm e document position
    · exact annals_note e .preloadSkipped

/-! ### Serving, and then perhaps clearing -/

/-- An action serves some places; if it clears the table, a new epoch begins. -/
def Passes (e : Engine F) (a : Action F) (places : List Place) : Prop :=
  if e.clears a then (e.perform a).annals.epoch = {} else e.Serves (e.perform a) places

/-- An action that clears nothing. -/
theorem passes_of_serves {a : Action F} {d : Engine F} {places : List Place}
    (hempties : a.empties = false) (hperform : e.perform a = d)
    (hdisposed : d.disposed = e.disposed) (h : e.Serves d places) : e.Passes a places := by
  subst hperform
  have hclears : e.clears a = false := by
    rw [clears, hempties, hdisposed]
    cases e.disposed <;> rfl
  rw [Passes, hclears]
  exact h

theorem passes_of_quiet {a : Action F} {d : Engine F} (hempties : a.empties = false)
    (hperform : e.perform a = d) (hq : e.Quiet d) : e.Passes a [] :=
  passes_of_serves hempties hperform hq.disposed (.of_eq hq.annals)

/-- The end of the cache, if it is one, clears the table. -/
theorem passes_of_dispose {a : Action F} {d : Engine F} {places : List Place}
    (hempties : a.empties = false) (hperform : e.perform a = d.dispose)
    (hdisposed : d.disposed = e.disposed) (h : e.Serves d places) : e.Passes a places := by
  cases hd : d.disposed with
  | true =>
    refine passes_of_serves hempties ?_ hdisposed h
    rw [hperform, dispose, if_pos hd]
  | false =>
    have hclears : e.clears a = true := by
      rw [clears, hperform, disposed_dispose, ← hdisposed, hd, hempties]
      rfl
    rw [Passes, hclears, if_pos rfl, hperform, annals_dispose hd]
    rfl

/-- A cache that nobody refers to any more comes to its end. -/
theorem passes_of_reap {a : Action F} {d : Engine F} {places : List Place}
    (hempties : a.empties = false) (hperform : e.perform a = d.reap)
    (hdisposed : d.disposed = e.disposed) (h : e.Serves d places) : e.Passes a places := by
  cases halive : d.isAlive with
  | true =>
    refine passes_of_serves hempties ?_ hdisposed h
    rw [hperform, reap, if_pos halive]
  | false =>
    refine passes_of_dispose hempties ?_ hdisposed h
    rw [hperform, reap, halive]
    rfl

/-- A poll of a query serves its place if it is the first one, and may be the end of the cache. -/
theorem passes_pollQuery {a : Action F} {background : Bool} {job client : Nat} {r : Request}
    {stage : Stage} (ha : a.Polls job background)
    (h : e.jobs[job]? = some (.query client r stage)) : e.Passes a (e.visited a) := by
  have hempties : a.empties = false := by cases ha <;> rfl
  -- only its first poll serves its place
  have hran : stage ≠ .queued → e.visited a = [] := by
    intro hran
    cases stage with
    | queued => exact absurd rfl hran
    | _ => cases ha <;> simp only [visited, h]
  cases stage with
  | queued =>
    have hvisited : e.visited a = if e.disposed then [] else [⟨r.document, r.position.line⟩] := by
      cases ha <;> simp only [visited, h]
    rw [hvisited]
    refine passes_of_reap hempties (ha.perform_queued h) (sameAge_begin e background r).2 ?_
    cases hd : e.disposed with
    | true =>
      rw [begin_of_disposed hd]
      exact .of_eq rfl
    | false => exact (serves_begin hd background r).trans_eq rfl
  | waiting previous current before =>
    rw [hran (by simp)]
    have hq := quiet_resume e r previous current before
    exact passes_of_reap hempties (ha.perform_waiting h) hq.disposed (.of_eq hq.annals)
  | leaving held before =>
    rw [hran (by simp)]
    have hq := quiet_giveUp e r (.leaving held before)
    exact passes_of_reap hempties (ha.perform_query h) hq.disposed (.of_eq hq.annals)
  | finished answer =>
    rw [hran (by simp)]
    exact passes_of_quiet hempties (ha.perform_query h) (.refl e)
  | abandoned =>
    rw [hran (by simp)]
    exact passes_of_quiet hempties (ha.perform_query h) (.refl e)

/-- A poll of a timer serves its place if the timer goes off. -/
theorem passes_pollTimer {job : Nat} {token : Token} {due : Option Nat} {document : Uri}
    {position : Position} (h : e.jobs[job]? = some (.timer token due document position)) :
    e.Passes (.poll job) (e.visited (.poll job)) := by
  simp only [visited, h]
  cases hc : e.isCancelled token with
  | true =>
    exact passes_of_quiet rfl (poll_timer_stopped h hc) (quiet_setJob e job .ended)
  | false =>
    by_cases hdue : e.deadline due ≤ e.now
    · have hsame : { e.setJob job .ended with armed := none }.isOver = e.isOver := rfl
      refine passes_of_serves rfl (poll_timer_due ⟨h, hc⟩ hdue)
        (disposed_warm _ true document position) ?_
      rw [decide_eq_true hdue]
      cases hover : e.isOver with
      | true =>
        rw [warm, if_pos (hsame.trans hover)]
        exact .of_eq (annals_note _ _)
      | false =>
        have hserves := serves_warm (hsame.trans hover) true document position
        exact ⟨hserves.past, hserves.served⟩
    · rw [decide_eq_false hdue]
      exact passes_of_quiet rfl (poll_timer_early h hc (Nat.lt_of_not_le hdue)) (quiet_setJob e job _)

theorem passes_poll (e : Engine F) (job : Nat) : e.Passes (.poll job) (e.visited (.poll job)) := by
  cases hj : e.jobs[job]? with
  | none =>
    simp only [visited, hj]
    exact passes_of_quiet rfl (poll_of_none hj) (.refl e)
  | some j =>
    cases j with
    | query client r stage => exact passes_pollQuery (.inside job) hj
    | timer token due document position => exact passes_pollTimer hj
    | drive call token =>
      simp only [visited, hj]
      exact passes_of_quiet rfl (by rw [perform, poll, hj]) (quiet_pollDriver e job call token)
    | await client call stage =>
      simp only [visited, hj]
      exact passes_of_quiet rfl (by rw [perform, poll, hj]) (quiet_pollAwait e job client call stage)
    | ended =>
      simp only [visited, hj]
      exact passes_of_quiet rfl (by rw [perform, poll, hj]) (.refl e)

theorem passes_pollOutside (e : Engine F) (job : Nat) :
    e.Passes (.pollOutside job) (e.visited (.pollOutside job)) := by
  have hidle : e.pollOutside job = e → e.Passes (.pollOutside job) [] :=
    fun hsame => passes_of_quiet rfl hsame (.refl e)
  cases hj : e.jobs[job]? with
  | none =>
    simp only [visited, hj]
    exact hidle ((Action.Polls.outside job).perform_of_none hj)
  | some j =>
    cases j with
    | query client r stage => exact passes_pollQuery (.outside job) hj
    | _ =>
      simp only [visited, hj]
      exact hidle (by rw [pollOutside, hj])

/-- **An action asks for the plan of the place that it serves, and for nothing else**, and then it
may clear the table. -/
theorem passes_perform (e : Engine F) (a : Action F) : e.Passes a (e.visited a) := by
  cases a with
  | poll job => exact passes_poll e job
  | pollOutside job => exact passes_pollOutside e job
  | ask r =>
    refine passes_of_serves rfl rfl (sameAge_ask e r).2 ?_
    have hgiven : (e.perform (.ask r)).annals = (e.begin false r).1.annals :=
      (quiet_giveUp _ r _).annals
    rw [visited]
    cases hd : e.disposed with
    | true =>
      rw [begin_of_disposed hd] at hgiven
      exact .of_eq hgiven
    | false => exact (serves_begin hd false r).trans_eq hgiven
  | warm background document position =>
    refine passes_of_serves rfl rfl (disposed_warm e background document position) ?_
    rw [visited, perform]
    cases hover : e.isOver with
    | true =>
      rw [warm, if_pos hover]
      exact .of_eq (annals_note e _)
    | false => exact serves_warm hover background document position
  | edit document changes =>
    show (e.note (.edited document changes)).clear.annals.epoch = {}
    rw [annals_clear]
    rfl
  | clear =>
    show e.clear.annals.epoch = {}
    rw [annals_clear]
    rfl
  | move background document position =>
    exact passes_of_serves rfl rfl (disposed_move e background document position)
      (.of_eq (annals_move e background document position))
  | query r => exact passes_of_quiet rfl rfl (quiet_spawn e _)
  | await call => exact passes_of_quiet rfl rfl (quiet_spawn e _)
  | abandon client => exact passes_of_quiet rfl rfl (quiet_abandon e client)
  | dispose => exact passes_of_dispose rfl rfl rfl (.of_eq rfl)
  | letGo => exact passes_of_reap rfl rfl rfl (.of_eq rfl)
  | disarm => exact passes_of_serves rfl rfl (disposed_disarm e) (.of_eq (annals_disarm e))
  | cancelRoot => exact passes_of_serves rfl rfl rfl (.of_eq rfl)
  | tell order => exact passes_of_serves rfl rfl rfl (.of_eq rfl)
  | tick ms => exact passes_of_quiet rfl rfl (quiet_tick e ms)

/-! ### Stretches -/

/-- The stretch after an action: the next one, if the table is cleared. -/
def stretchAfter (e : Engine F) (a : Action F) (s : Stretch) : Stretch :=
  if e.clears a then { base := (e.perform a).calls.size }
  else { s with places := s.places ++ e.visited a }

/-- The stretch at the end of a run that begins in a stretch. -/
def stretch (e : Engine F) (s : Stretch) : List (Action F) → Stretch
  | [] => s
  | a :: rest => (e.perform a).stretch (e.stretchAfter a s) rest

theorem stretch_concat (e : Engine F) (s : Stretch) (past : List (Action F)) (a : Action F) :
    e.stretch s (past ++ [a]) = (e.run past).stretchAfter a (e.stretch s past) := by
  induction past generalizing e s with
  | nil => rfl
  | cons b past ih =>
    rw [List.cons_append, stretch, ih, stretch, run_cons]

/-- The present epoch is a stretch: its plans are those of the places that were served, and the
calls of the epochs before were there when it began. -/
structure Spans (e : Engine F) (s : Stretch) : Prop where
  served : e.annals.epoch.served = s.places.flatMap Place.keys
  base : (e.annals.past.flatMap Epoch.issues).length = s.base

/-- The calls of all epochs are the calls of the fetcher. -/
theorem Coalesced.size_eq (h : e.Coalesced) :
    e.calls.size = (e.annals.past.flatMap Epoch.issues).length + e.annals.epoch.issues.length := by
  have hcalls := congrArg List.length h.calls
  rw [List.length_map, List.length_range, Annals.epochs, List.flatMap_append,
    List.flatMap_singleton, List.length_append] at hcalls
  exact hcalls.symm

/-- Every action goes on with the stretch, or begins the next one. -/
theorem Spans.perform {s : Stretch} (h : e.Spans s) (a : Action F)
    (hc : (e.perform a).Coalesced) : (e.perform a).Spans (e.stretchAfter a s) := by
  have hpasses := passes_perform e a
  unfold Passes at hpasses
  unfold stretchAfter
  split at hpasses
  · next hclears =>
    rw [if_pos hclears]
    refine ⟨by rw [hpasses]; rfl, ?_⟩
    have hsize := hc.size_eq
    rw [hpasses] at hsize
    exact hsize.symm
  · next hclears =>
    rw [if_neg hclears]
    refine ⟨?_, by rw [hpasses.past]; exact h.base⟩
    rw [hpasses.served, h.served, List.flatMap_append]

/-- **The present epoch is the stretch since the table was last cleared.** -/
theorem spans_run (options : Options) (world : F.State) (actions : List (Action F)) :
    ((opening options world).run actions).Spans ((opening options world).stretch {} actions) := by
  induction actions using List.reverseRecOn with
  | nil => exact ⟨rfl, rfl⟩
  | append_singleton past a ih =>
    have hc := coalesced_run options world (past ++ [a])
    rw [run_append] at hc ⊢
    rw [stretch_concat]
    exact ih.perform a hc

/-- **Since the table was last cleared, as many calls were made as the places that were served have
keys, each place taken once.** -/
theorem size_run (options : Options) (world : F.State) (actions : List (Action F)) :
    ((opening options world).run actions).calls.size
      = ((opening options world).stretch {} actions).base
        + total (fun p => Plan.width p.line)
          ((opening options world).stretch {} actions).places.eraseDups := by
  have hspans := spans_run options world actions
  have hc := coalesced_run options world actions
  have hissues := (ledger_run options world actions).issues _ (Annals.epoch_mem_epochs _)
  rw [hspans.served, eraseDups_flatMap_keys] at hissues
  have hlength := congrArg List.length hissues
  rw [List.length_map, length_flatMap_keys] at hlength
  rw [hc.size_eq, hspans.base, hlength]

/-- **Positions share keys exactly on one line, and a line makes its calls once.**  Two positions
have a key in common exactly if they are on the same line of one document, and have the same plan
then; and the keys of a plan are different.  At any time of a run, as many calls were made since the
table was last cleared as the places that were served since have keys, each place taken once. -/
theorem calls_count_places (options : Options) (world : F.State) (actions : List (Action F)) :
    (∀ document document' position position',
      ((∃ key ∈ (Plan.at document position).keys, key ∈ (Plan.at document' position').keys) ↔
        document = document' ∧ position.line = position'.line) ∧
      (document = document' ∧ position.line = position'.line →
        Plan.at document position = Plan.at document' position') ∧
      (Plan.at document position).keys.Nodup) ∧
    ((opening options world).run actions).calls.size
      = ((opening options world).stretch {} actions).base
        + total (fun p => Plan.width p.line)
          ((opening options world).stretch {} actions).places.eraseDups := by
  refine ⟨?_, size_run options world actions⟩
  intro document document' position position'
  refine ⟨Plan.exists_mem_keys_iff, ?_, Plan.nodup_keys_at document position⟩
  rintro ⟨rfl, hline⟩
  exact Plan.at_eq_at document hline

/-- A query runs, the line below it is preloaded, and another position of the query's line is asked
for.  Then the document changes, and the first line and the last are asked for, the first twice. -/
def neighbouring : List (Action Fetcher.canned) :=
  let r (line character : UInt32) : Request := ⟨⟨"file:///a"⟩, ⟨line, character⟩, 100⟩
  [.query (r 3 0), .poll 0, .warm true ⟨"file:///a"⟩ ⟨4, 1⟩, .ask (r 3 7),
    .edit ⟨"file:///a"⟩ 1, .ask (r 0 0), .ask (r 4294967295 0), .ask (r 0 5)]

/-- Neighbouring lines share no keys, so four calls were made before the change; and since then the
first line made one and the last line two. -/
theorem calls_count_places_neighbouring :
    (opening {} ({} : Canned.State)).stretch {} (neighbouring.take 4)
      = ⟨0, [⟨⟨"file:///a"⟩, 3⟩, ⟨⟨"file:///a"⟩, 4⟩, ⟨⟨"file:///a"⟩, 3⟩]⟩ ∧
    (opening {} ({} : Canned.State)).stretch {} neighbouring
      = ⟨4, [⟨⟨"file:///a"⟩, 0⟩, ⟨⟨"file:///a"⟩, 4294967295⟩, ⟨⟨"file:///a"⟩, 0⟩]⟩ ∧
    ((opening {} ({} : Canned.State)).run neighbouring).calls.size = 4 + (1 + 2) ∧
    Plan.at ⟨"file:///a"⟩ ⟨3, 0⟩ = Plan.at ⟨"file:///a"⟩ ⟨3, 7⟩ := by
  have hstretch : (opening {} ({} : Canned.State)).stretch {} neighbouring
      = ⟨4, [⟨⟨"file:///a"⟩, 0⟩, ⟨⟨"file:///a"⟩, 4294967295⟩, ⟨⟨"file:///a"⟩, 0⟩]⟩ := by
    decide +kernel
  obtain ⟨hplans, hsize⟩ :=
    calls_count_places (F := Fetcher.canned) {} ({} : Canned.State) neighbouring
  refine ⟨by decide +kernel, hstretch, ?_, ?_⟩
  · rw [hsize, hstretch]
    decide +kernel
  · exact (hplans ⟨"file:///a"⟩ ⟨"file:///a"⟩ ⟨3, 0⟩ ⟨3, 7⟩).2.1 ⟨rfl, rfl⟩

end Engine

end CursorContext
