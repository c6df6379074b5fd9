import CursorContext.Proofs.Ages
import CursorContext.Proofs.Jobs

/-!
# What becomes of a call in one action

An action is done at one time.  Unless it is the clock that goes on or the fetcher that is told
something, the fetcher stays as it is meanwhile, and nothing happens to calls but that they depart
and are polled at that time.  A flight that is polled learns that its token is cancelled only if
that is so.

A flight is ready once its polls bring it back, whatever else happens: a call with such a flight
goes on to have it until somebody polls it, and is back then.

## Main definitions

* `Fetcher.Polled F s now cancelled c c'` — polls of the status `c` at the time `now` lead to `c'`;
  they were told of a cancelled token only where `cancelled` holds.
* `Fetcher.Ready F s now f o` — from `now` on, every poll of the flight `f` brings it back with `o`.
* `Engine.Present e e'` — from `e` to `e'` calls only depart and are polled.
* `Engine.Promises e i o` — the call `i` is back with `o`, or is about to be.

## Main results

* `present_perform` — every action but `tell` and `tick` is done at one time.
* `promises_perform` — what is promised stays promised.
-/

namespace CursorContext

/-- What polls at one time make of a status, where the token may be cancelled or not. -/
inductive Fetcher.Polled (F : Fetcher) (s : F.State) (now : Nat) (cancelled : Bool)
    (c : Status F.Flight) : Status F.Flight → Prop
  /-- Nothing is polled. -/
  | refl : F.Polled s now cancelled c c
  /-- A poll changes the flight. -/
  | moved {f g : F.Flight} {told : Bool} (h : F.Polled s now cancelled c (.pending f))
      (hp : F.poll s now told f = .moved g) (ht : told = true → cancelled = true) :
      F.Polled s now cancelled c (.pending g)
  /-- A poll brings the flight back. -/
  | resolved {f : F.Flight} {o : Outcome} {told : Bool}
      (h : F.Polled s now cancelled c (.pending f)) (hp : F.poll s now told f = .resolved o)
      (ht : told = true → cancelled = true) : F.Polled s now cancelled c (.resolved o)

/-- From some time on every poll brings a flight back with the same outcome, whatever the fetcher is
told meanwhile and whatever becomes of the token. -/
def Fetcher.Ready (F : Fetcher) (s : F.State) (now : Nat) (f : F.Flight) (o : Outcome) : Prop :=
  ∀ (orders : List F.Order) (later : Nat) (cancelled : Bool), now ≤ later →
    F.poll (orders.foldl F.obey s) later cancelled f = .resolved o

namespace Fetcher

variable {F : Fetcher} {s : F.State} {now : Nat} {cancelled : Bool} {c c' c'' : Status F.Flight}
  {f : F.Flight} {o : Outcome}

theorem Polled.trans (h : F.Polled s now cancelled c c') (k : F.Polled s now cancelled c' c'') :
    F.Polled s now cancelled c c'' := by
  induction k with
  | refl => exact h
  | moved _ hp ht ih => exact ih.moved hp ht
  | resolved _ hp ht ih => exact ih.resolved hp ht

theorem Polled.mono {later : Bool} (h : F.Polled s now cancelled c c')
    (hle : cancelled = true → later = true) : F.Polled s now later c c' := by
  induction h with
  | refl => exact .refl
  | moved _ hp ht ih => exact ih.moved hp fun h => hle (ht h)
  | resolved _ hp ht ih => exact ih.resolved hp fun h => hle (ht h)

theorem Polled.of_resolved (h : F.Polled s now cancelled (.resolved o) c) : c = .resolved o := by
  induction h with
  | refl => rfl
  | moved _ _ _ ih => cases ih
  | resolved _ _ _ ih => cases ih

theorem Ready.poll (h : F.Ready s now f o) (cancelled : Bool) :
    F.poll s now cancelled f = .resolved o :=
  h [] now cancelled (Nat.le_refl now)

/-- A flight that is ready is polled at most once. -/
theorem Ready.polled (h : F.Ready s now f o) (hp : F.Polled s now cancelled (.pending f) c) :
    c = .pending f ∨ c = .resolved o := by
  induction hp with
  | refl => exact .inl rfl
  | moved _ hp _ ih =>
    rcases ih with heq | heq
    · cases heq
      rw [h.poll] at hp
      cases hp
    · cases heq
  | resolved _ hp _ ih =>
    rcases ih with heq | heq
    · cases heq
      rw [h.poll] at hp
      cases hp
      exact .inr rfl
    · cases heq

theorem Ready.obey (h : F.Ready s now f o) (order : F.Order) : F.Ready (F.obey s order) now f o :=
  fun orders => h (order :: orders)

theorem Ready.mono {later : Nat} (h : F.Ready s now f o) (hle : now ≤ later) :
    F.Ready s later f o :=
  fun orders time cancelled htime => h orders time cancelled (Nat.le_trans hle htime)

end Fetcher

namespace Engine

variable {F : Fetcher} {e e' e'' : Engine F}

/-- From `e` to `e'` no time goes by and the fetcher is told nothing; calls depart and are polled. -/
structure Present (e e' : Engine F) : Prop where
  /-- The fetcher was told nothing. -/
  fetcher : e'.fetcher = e.fetcher
  /-- No time went by. -/
  now : e'.now = e.now
  /-- What is cancelled stays so. -/
  cancelled : ∀ t, e.isCancelled t = true → e'.isCancelled t = true
  /-- Calls that were there were polled. -/
  calls : ∀ (i : Nat) (c : Call F), e.calls[i]? = some c →
    ∃ c', e'.calls[i]? = some c' ∧ c'.ident = c.ident ∧
      F.Polled e.fetcher e.now (e'.isCancelled c.stamp.token) c.status c'.status
  /-- Calls that are new departed and were polled. -/
  fresh : ∀ (i : Nat) (c : Call F), e.calls.size ≤ i → e'.calls[i]? = some c →
    F.Polled e.fetcher e.now (e'.isCancelled c.stamp.token) (.pending (F.depart e.fetcher c.key))
      c.status

namespace Present

/-- Where calls are the same, tokens may be cancelled. -/
theorem of_ages (ha : e.Ages e') (hf : e'.fetcher = e.fetcher) (hn : e'.now = e.now)
    (hc : e'.calls = e.calls) : e.Present e' := by
  refine ⟨hf, hn, fun t => ha.isCancelled, fun i c h => ⟨c, ?_, rfl, .refl⟩, fun i c hi h => ?_⟩
  · rw [hc]; exact h
  · have hlt := (Array.getElem?_eq_some_iff.mp h).1
    rw [hc] at hlt
    omega

/-- Where tokens and calls are the same, nothing else matters. -/
theorem of_eq (hf : e'.fetcher = e.fetcher) (hn : e'.now = e.now) (ht : e'.tokens = e.tokens)
    (hc : e'.calls = e.calls) : e.Present e' := by
  refine ⟨hf, hn, fun t h => ?_, fun i c h => ⟨c, ?_, rfl, .refl⟩, fun i c hi h => ?_⟩
  · rw [isCancelled, ht]; exact h
  · rw [hc]; exact h
  · have hlt := (Array.getElem?_eq_some_iff.mp h).1
    rw [hc] at hlt
    omega

theorem refl (e : Engine F) : e.Present e := of_eq rfl rfl rfl rfl

theorem trans (h : e.Present e') (k : e'.Present e'') : e.Present e'' := by
  refine ⟨k.fetcher.trans h.fetcher, k.now.trans h.now,
    fun t ht => k.cancelled t (h.cancelled t ht), fun i c hc => ?_, fun i c hi hc => ?_⟩
  · obtain ⟨c', hc', hident, hpolled⟩ := h.calls i c hc
    obtain ⟨c'', hc'', hident', hpolled'⟩ := k.calls i c' hc'
    have hstamp : c'.stamp = c.stamp := congrArg Prod.snd hident
    rw [h.fetcher, h.now, hstamp] at hpolled'
    exact ⟨c'', hc'', hident'.trans hident, (hpolled.mono (k.cancelled _)).trans hpolled'⟩
  · rcases Nat.lt_or_ge i e'.calls.size with hlt | hge
    · -- the call departed in the first part, and was polled on in the second one
      obtain ⟨c'', hc'', hident, hpolled⟩ := k.calls i _ (Array.getElem?_eq_getElem hlt)
      have hsame : c'' = c := Option.some.inj (hc''.symm.trans hc)
      subst hsame
      have hkey : e'.calls[i].key = c''.key := congrArg Prod.fst hident.symm
      have hstamp : e'.calls[i].stamp = c''.stamp := congrArg Prod.snd hident.symm
      have hdeparted := h.fresh i _ hi (Array.getElem?_eq_getElem hlt)
      rw [hkey, hstamp] at hdeparted
      rw [h.fetcher, h.now, hstamp] at hpolled
      exact (hdeparted.mono (k.cancelled _)).trans hpolled
    · have hfresh := k.fresh i c hge hc
      rwa [h.fetcher, h.now] at hfresh

/-- It does not matter what else changed before. -/
theorem after (h : e'.Present e'') (hf : e'.fetcher = e.fetcher) (hn : e'.now = e.now)
    (ht : e'.tokens = e.tokens) (hc : e'.calls = e.calls) : e.Present e'' :=
  (of_eq hf hn ht hc).trans h

end Present

/-! ### Polls -/

theorem present_setStatus {i : Nat} {c : Call F} {s : Status F.Flight}
    (hc : e.calls[i]? = some c)
    (hs : F.Polled e.fetcher e.now (e.isCancelled c.stamp.token) c.status s) :
    e.Present (e.setStatus i s) := by
  refine ⟨rfl, rfl, fun _ h => h, fun j d hd => ?_, fun j d hj hd => ?_⟩
  · by_cases hij : i = j
    · subst hij
      rw [hc, Option.some.injEq] at hd
      subst hd
      exact ⟨{ c with status := s }, by simp [setStatus, Array.getElem?_modify, hc], rfl, hs⟩
    · exact ⟨d, by simp [setStatus, Array.getElem?_modify, hij, hd], rfl, .refl⟩
  · have hlt := (Array.getElem?_eq_some_iff.mp hd).1
    simp only [setStatus, Array.size_modify] at hlt
    omega

theorem present_pollCall (e : Engine F) (i : Nat) : e.Present (e.pollCall i).1 := by
  unfold pollCall
  split
  · exact .refl e
  · rename_i c hc
    split
    · exact .refl e
    · rename_i flight hflight
      have hpolled : F.Polled e.fetcher e.now (e.isCancelled c.stamp.token) c.status
          (.pending flight) := by
        rw [hflight]; exact .refl
      split
      · exact .refl e
      · next hp => exact present_setStatus hc (hpolled.moved hp id)
      · next hp => exact present_setStatus hc (hpolled.resolved hp id)

theorem present_pollHalf (e : Engine F) (h : Half) : e.Present (e.pollHalf h).1 := by
  cases h with
  | settled items => exact .refl e
  | waiting i =>
    have hpresent := present_pollCall e i
    rcases hp : e.pollCall i with ⟨d, outcome⟩
    rw [hp] at hpresent
    simp only [pollHalf, hp]
    rcases outcome with _ | ⟨found | cause⟩
    · exact hpresent
    · exact hpresent
    · exact hpresent.trans (.of_eq rfl rfl rfl rfl)

theorem present_stopWatch (e : Engine F) (r : Request) (before : Counters) (items : Option Nat) :
    e.Present (e.stopWatch r before items) := by
  unfold stopWatch
  split <;> exact .of_eq rfl rfl rfl rfl

theorem present_giveUp (e : Engine F) (r : Request) (stage : Stage) :
    e.Present (e.giveUp r stage) := by
  unfold giveUp
  split
  · exact present_stopWatch e r _ _
  · exact .refl e

theorem present_resume (e : Engine F) (r : Request) (previous current : Half)
    (before : Counters) : e.Present (e.resume r previous current before).1 := by
  have hhalves :=
    (present_pollHalf e previous).trans (present_pollHalf (e.pollHalf previous).1 current)
  unfold resume
  dsimp only
  split
  · exact hhalves.trans (present_stopWatch _ r _ _)
  · exact hhalves

/-! ### Lookups -/

/-- A lookup only adds a call. -/
theorem present_lookupPlanned (e : Engine F) (background : Bool) (stamp : Stamp) (key : Key) :
    e.Present (e.lookupPlanned background stamp key).1 := by
  cases h : e.find? key with
  | some entry =>
    simp only [lookupPlanned, lookup_of_some background stamp h, if_true]
    exact .of_eq rfl rfl rfl rfl
  | none =>
    simp only [lookupPlanned, lookup_of_none background stamp h, Bool.false_eq_true, if_false]
    have hmissed : e.Present (e.missed stamp key) := by
      refine ⟨rfl, rfl, fun _ h => h, fun i c hc => ⟨c, ?_, rfl, .refl⟩, fun i c hi hc => ?_⟩
      · have hlt := (Array.getElem?_eq_some_iff.mp hc).1
        show (e.calls.push _)[i]? = some c
        rw [Array.getElem?_push, if_neg (Nat.ne_of_lt hlt)]
        exact hc
      · have hpush : (e.calls.push ⟨key, stamp, .pending (F.depart e.fetcher key)⟩)[i]? = some c :=
          hc
        rw [Array.getElem?_push] at hpush
        split at hpush
        · cases hpush
          exact .refl
        · have hlt := (Array.getElem?_eq_some_iff.mp hpush).1
          omega
    refine hmissed.trans ?_
    cases background <;> exact .of_eq rfl rfl rfl rfl

theorem present_lookupKeys (e : Engine F) (background : Bool) (stamp : Stamp) (keys : List Key) :
    e.Present (e.lookupKeys background stamp keys) := by
  induction keys generalizing e with
  | nil => exact .refl e
  | cons key rest ih =>
    rw [lookupKeys_cons]
    exact (present_lookupPlanned e background stamp key).trans (ih _)

theorem present_begin (e : Engine F) (background : Bool) (r : Request) :
    e.Present (e.begin background r).1 := by
  unfold begin
  split
  · exact .refl e
  · dsimp only
    refine Present.trans ?_ (present_resume _ r _ _ _)
    rw [lookupPlan_fst]
    exact (present_lookupKeys (e.note _) background _ _).after rfl rfl rfl rfl

theorem present_warm (e : Engine F) (background : Bool) (document : Uri) (position : Position) :
    e.Present (e.warm background document position).1 := by
  cases h : e.isOver with
  | true =>
    rw [warm, if_pos h]
    exact .of_eq rfl rfl rfl rfl
  | false =>
    rw [warm_of_not_isOver background document position h]
    have hnext : e.Present e.nextGeneration :=
      .of_ages (ages_nextGeneration e) rfl rfl rfl
    have hcount : e.nextGeneration.Present e.nextGeneration.countGeneration := by
      unfold countGeneration
      split <;> exact .of_eq rfl rfl rfl rfl
    exact (hnext.trans hcount).trans
      ((present_lookupKeys (note _ _) background _ _).after rfl rfl rfl rfl)

/-! ### Actions -/

theorem present_disarm (e : Engine F) : e.Present e.disarm := by
  refine .of_ages (ages_disarm e) ?_ ?_ ?_ <;> unfold disarm <;> split <;> rfl

theorem present_move (e : Engine F) (background : Bool) (document : Uri) (position : Position) :
    e.Present (e.move background document position) := by
  unfold move
  split
  · exact .refl e
  · split
    · refine .of_ages (ages_arm e document position) ?_ ?_ ?_ <;> unfold arm disarm <;>
        split <;> rfl
    · exact .of_eq rfl rfl rfl rfl

theorem present_dispose (e : Engine F) : e.Present e.dispose := by
  unfold dispose
  split
  · exact .refl e
  · have hclosed : e.Ages { e with disposed := true } := .of_eq rfl rfl rfl
    have hroot : e.Present { e with disposed := true }.cancelRoot :=
      .of_ages (hclosed.trans (ages_cancelRoot _)) rfl rfl rfl
    exact (hroot.trans (present_disarm _)).trans (.of_eq rfl rfl rfl rfl)

theorem present_reap (e : Engine F) : e.Present e.reap := by
  unfold reap
  split
  · exact .refl e
  · exact present_dispose e

theorem present_abandonJob (e : Engine F) (job : Nat) : e.Present (e.abandonJob job) := by
  unfold abandonJob
  split <;> exact .of_eq rfl rfl rfl rfl

theorem present_pollTimer (e : Engine F) (job : Nat) (token : Token) (due : Option Nat)
    (document : Uri) (position : Position) :
    e.Present (e.pollTimer job token due document position) := by
  have hend : e.Present (e.setJob job .ended) := .of_eq rfl rfl rfl rfl
  unfold pollTimer elapse
  dsimp only
  split
  · split
    · exact hend
    · exact (present_warm _ true document position).after rfl rfl rfl rfl
  · exact .of_eq rfl rfl rfl rfl

theorem present_pollQuery (e : Engine F) (background : Bool) (job client : Nat) (r : Request)
    (stage : Stage) : e.Present (e.pollQuery background job client r stage) := by
  have hend : ∀ (d : Engine F) (j : Job), d.Present (d.setJob job j).reap :=
    fun d j => (present_reap (d.setJob job j)).after rfl rfl rfl rfl
  unfold pollQuery
  split
  · exact (present_begin e background r).trans (hend _ _)
  · exact (present_resume e r _ _ _).trans (hend _ _)
  · exact (present_giveUp e r _).trans (hend _ _)
  · exact .refl e

theorem present_poll (e : Engine F) (job : Nat) : e.Present (e.poll job) := by
  unfold poll
  split
  · next call token _ =>
    refine (present_pollCall e call).trans ?_
    unfold pollDriver
    dsimp only
    split <;> exact .of_eq rfl rfl rfl rfl
  · exact present_pollTimer e job _ _ _ _
  · exact present_pollQuery e true job _ _ _
  · next call stage _ =>
    unfold pollAwait
    split
    · exact .of_eq rfl rfl rfl rfl
    · refine (present_pollCall e call).trans ?_
      split <;> next hp => rw [hp]; exact .of_eq rfl rfl rfl rfl
    · exact .refl e
  · exact .refl e

theorem present_pollOutside (e : Engine F) (job : Nat) : e.Present (e.pollOutside job) := by
  unfold pollOutside
  split
  · exact present_pollQuery e false job _ _ _
  · exact .refl e

/-- **Every action is done at one time**, but for telling the fetcher something and waiting. -/
theorem present_perform (e : Engine F) (a : Action F) (htell : ∀ order, a ≠ .tell order)
    (htick : ∀ ms, a ≠ .tick ms) : e.Present (e.perform a) := by
  cases a with
  | move background document position => exact present_move e _ _ _
  | ask r => exact (present_begin e false r).trans (present_giveUp _ r _)
  | abandon client =>
    rw [perform, abandon]
    split
    · exact present_abandonJob e _
    · exact .refl e
  | dispose => exact present_dispose e
  | letGo => exact (present_reap { e with held := false }).after rfl rfl rfl rfl
  | warm background document position => exact present_warm e _ _ _
  | disarm => exact present_disarm e
  | poll job => exact present_poll e job
  | pollOutside job => exact present_pollOutside e job
  | tell order => exact absurd rfl (htell order)
  | tick ms => exact absurd rfl (htick ms)
  | edit _ _ => exact .of_eq rfl rfl rfl rfl
  | clear => exact .of_eq rfl rfl rfl rfl
  | query _ => exact .of_eq rfl rfl rfl rfl
  | await _ => exact .of_eq rfl rfl rfl rfl
  | cancelRoot => exact .of_ages (ages_cancelRoot e) rfl rfl rfl

theorem present_cases (e : Engine F) (a : Action F) :
    (∃ order, a = .tell order) ∨ (∃ ms, a = .tick ms) ∨ e.Present (e.perform a) := by
  by_cases htell : ∃ order, a = .tell order
  · exact .inl htell
  by_cases htick : ∃ ms, a = .tick ms
  · exact .inr (.inl htick)
  · exact .inr (.inr (present_perform e a (fun order h => htell ⟨order, h⟩)
      (fun ms h => htick ⟨ms, h⟩)))

/-- Nothing but the clock itself moves the clock. -/
theorem now_perform {a : Action F} (e : Engine F) (ha : ∀ ms, a ≠ .tick ms) :
    (e.perform a).now = e.now := by
  rcases e.present_cases a with ⟨order, rfl⟩ | ⟨ms, rfl⟩ | h
  · rfl
  · exact absurd rfl (ha ms)
  · exact h.now

/-! ### Promises -/

/-- A call is back, or its flight is ready. -/
def Promises (e : Engine F) (i : Nat) (o : Outcome) : Prop :=
  ∃ c, e.calls[i]? = some c ∧ (c.status = .resolved o ∨
    ∃ flight, c.status = .pending flight ∧ F.Ready e.fetcher e.now flight o)

theorem Present.promises (h : e.Present e') {i : Nat} {o : Outcome} (hp : e.Promises i o) :
    e'.Promises i o := by
  obtain ⟨c, hc, hstatus⟩ := hp
  obtain ⟨c', hc', -, hpolled⟩ := h.calls i c hc
  refine ⟨c', hc', ?_⟩
  rcases hstatus with hback | ⟨flight, hflight, hready⟩
  · rw [hback] at hpolled
    exact .inl hpolled.of_resolved
  · rw [hflight] at hpolled
    rcases hready.polled hpolled with hpending | hback
    · exact .inr ⟨flight, hpending, by rw [h.fetcher, h.now]; exact hready⟩
    · exact .inl hback

/-- **What is promised stays promised.** -/
theorem promises_perform {i : Nat} {o : Outcome} (hp : e.Promises i o) (a : Action F) :
    (e.perform a).Promises i o := by
  rcases e.present_cases a with ⟨order, rfl⟩ | ⟨ms, rfl⟩ | h
  · obtain ⟨c, hc, hback | ⟨flight, hflight, hready⟩⟩ := hp
    · exact ⟨c, hc, .inl hback⟩
    · exact ⟨c, hc, .inr ⟨flight, hflight, hready.obey order⟩⟩
  · obtain ⟨c, hc, hback | ⟨flight, hflight, hready⟩⟩ := hp
    · exact ⟨c, hc, .inl hback⟩
    · exact ⟨c, hc, .inr ⟨flight, hflight, hready.mono (Nat.le_add_right _ _)⟩⟩
  · exact h.promises hp

/-- A poll of a promised call keeps the promise. -/
theorem Promises.pollCall {i : Nat} {o : Outcome} (hp : e.Promises i o) :
    (e.pollCall i).2 = some o := by
  obtain ⟨c, hc, hback | ⟨flight, hflight, hready⟩⟩ := hp
  · simp only [Engine.pollCall, hc, hback]
  · simp only [Engine.pollCall, hc, hflight, hready.poll]

end Engine

end CursorContext
