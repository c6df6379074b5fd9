import CursorContext.Proofs.Ages
import CursorContext.Proofs.Coalescing

/-!
# Whose calls are cancelled

A call that was made for a query carries the token of the cache's whole life, and a call that was
made for a preload carries that of its generation; on whose behalf it was made, the annals tell.  So
a call is cancelled exactly if the cache was disposed of, or if it was made for a preload and a
later generation began.

All this is so as long as nobody but the cache cancels tokens.

* `Engine.Suits e g σ s` — in generation `g`, `s` is a stamp for what is looked up on behalf of `σ`.
* `Engine.Attributed` — calls carry stamps that suit those on whose behalf they were made.
* `attributed_run` — that is so at any time.
* `Engine.Sealed`, `sealed_run` — the root is cancelled exactly if the cache was disposed of.
* `Engine.Harmless` — what begins no generation and is not the end of the cache.
* `cancellation_is_exact` — who is cancelled at any time, and when that happens.
-/

namespace CursorContext.Engine

variable {F : Fetcher} {e e' : Engine F} {stamp s : Stamp} {key : Key} {σ : Source} {g : Nat}

/-- A stamp for what is looked up on behalf of somebody. -/
structure Suits (e : Engine F) (g : Nat) (σ : Source) (s : Stamp) : Prop where
  id : s.id = g
  query : σ = .query → s.token = e.generations.root
  preload : ∀ n, σ = .preload n → n = g ∧ e.Ranked s

theorem Suits.ages (h : e.Suits g σ s) (ho : e.Orderly) (ha : e.Ages e') : e'.Suits g σ s where
  id := h.id
  query := by
    intro hσ
    rw [ha.root]
    exact h.query hσ
  preload := by
    intro n hσ
    exact ⟨(h.preload n hσ).1, ha.ranked ho s (h.preload n hσ).2⟩

/-- Calls carry stamps that suit those on whose behalf they were made. -/
structure Attributed (e : Engine F) : Prop where
  /-- The annals know of the current generation. -/
  generation : e.annals.generation = e.generations.current.id
  /-- The annals know of all calls, in order. -/
  calls : e.annals.calls.map Issue.call = List.range e.calls.size
  /-- The stamp of a call suits. -/
  suits : ∀ x ∈ e.annals.calls, ∃ k s, e.idents[x.call]? = some (k, s) ∧
    e.Suits x.generation x.source s

namespace Attributed

/-- Where no call is made, it is enough that the annals keep up with generations. -/
theorem of_ages (h : e.Attributed) (ho : e.Orderly) (ha : e.Ages e') (hc : e'.idents = e.idents)
    (hcalls : e'.annals.calls = e.annals.calls)
    (hg : e'.annals.generation = e'.generations.current.id) : e'.Attributed := by
  have hsize := size_of_idents_eq hc
  refine ⟨hg, ?_, ?_⟩
  · rw [hcalls, hsize]
    exact h.calls
  · intro x hx
    rw [hcalls] at hx
    obtain ⟨k, s, hs, hsuits⟩ := h.suits x hx
    exact ⟨k, s, by rw [hc]; exact hs, hsuits.ages ho ha⟩

/-- Where generations stay as they are, nothing happens. -/
theorem of_still (h : e.Attributed) (ho : e.Orderly) (ha : e.Ages e') (hc : e'.idents = e.idents)
    (hcalls : e'.annals.calls = e.annals.calls)
    (hannals : e'.annals.generation = e.annals.generation)
    (hg : e'.generations = e.generations) : e'.Attributed :=
  h.of_ages ho ha hc hcalls (by rw [hannals, hg]; exact h.generation)

theorem of_quiet (h : e.Attributed) (ho : e.Orderly) (hq : e.Quiet e') : e'.Attributed :=
  h.of_still ho hq.still.ages hq.idents_eq (by rw [hq.annals]) (by rw [hq.annals]) hq.generations

/-- A lookup that finds none makes a call with its own stamp. -/
theorem miss (h : e.Attributed) (ho : e.Orderly)
    (hs : e.Suits e.annals.generation e.annals.source stamp) :
    (e.missed stamp key).Attributed := by
  have ha := annals_missed e stamp key
  have hages := (still_missed e stamp key).ages
  refine ⟨?_, ?_, ?_⟩
  · rw [ha]
    exact h.generation
  · rw [ha]
    show (e.annals.calls ++ [_]).map Issue.call = List.range (e.calls.push _).size
    rw [List.map_append, h.calls, Array.size_push, List.range_succ]
    rfl
  · intro x hx
    rw [ha] at hx
    rcases List.mem_append.mp hx with hx | hx
    · obtain ⟨k, s, hks, hsuits⟩ := h.suits x hx
      exact ⟨k, s, getElem?_idents_missed hks stamp key, hsuits.ages ho hages⟩
    · rw [List.mem_singleton.mp hx]
      exact ⟨key, stamp, getElem?_idents_missed_size e stamp key, hs.ages ho hages⟩

theorem lookup (h : e.Attributed) (ho : e.Orderly)
    (hs : e.Suits e.annals.generation e.annals.source stamp) (hl : Lookup stamp key e e') :
    e'.Attributed := by
  have hages := hl.still.ages
  cases hl with
  | @hit entry hfind =>
    have ha := annals_hit e key entry
    exact h.of_still ho hages rfl (by rw [ha]; rfl) (by rw [ha]; rfl) rfl
  | miss hfind hq =>
    have hom := (still_missed e stamp key).ages.orderly ho
    exact (h.miss ho hs).of_quiet hom hq

theorem lookupKeys (h : e.Attributed) (ho : e.Orderly) {background : Bool} {keys : List Key}
    (hs : e.Suits e.annals.generation e.annals.source stamp) :
    (e.lookupKeys background stamp keys).Attributed := by
  induction keys generalizing e with
  | nil => exact h
  | cons key rest ih =>
    rw [lookupKeys_cons]
    have hl := lookup_lookupPlanned e background stamp key
    -- a lookup changes neither the generation nor on whose behalf the next one is
    refine ih (h.lookup ho hs hl) (hl.still.ages.orderly ho) ?_
    rw [hl.looked.generation, hl.looked.source]
    exact hs.ages ho hl.still.ages

end Attributed

theorem Phase.attributed (hp : e.Phase e') (h : e.Orderly ∧ e.Attributed) :
    e'.Orderly ∧ e'.Attributed := by
  obtain ⟨ho, h⟩ := h
  have ha := hp.ages
  refine ⟨ha.orderly ho, ?_⟩
  cases hp with
  | quiet hq => exact h.of_quiet ho hq
  | clear =>
    have hannals := annals_clear e
    exact h.of_still ho ha rfl (by rw [hannals]; rfl) (by rw [hannals]; rfl) rfl
  | arm document position _ =>
    have hgenerations : (e.arm document position).generations = e.generations :=
      generations_disarm e
    exact h.of_still ho ha (idents_disarm e) (by rw [annals_arm]) (by rw [annals_arm])
      hgenerations
  | disarm =>
    exact h.of_still ho ha (idents_disarm e) (by rw [annals_disarm]) (by rw [annals_disarm])
      (generations_disarm e)
  | goOff => exact h.of_still ho ha rfl rfl rfl rfl
  | query background document position _ =>
    have hnote := annals_note e (.asked document position.line)
    have hnoted : (e.note (.asked document position.line)).Attributed :=
      h.of_still ho (still_note e _).ages rfl (by rw [hnote]; rfl) (by rw [hnote]; rfl) rfl
    refine hnoted.lookupKeys ((still_note e _).ages.orderly ho) ⟨?_, fun _ => rfl, ?_⟩
    · rw [hnote]
      exact h.generation.symm
    · rw [hnote]
      exact fun n hn => nomatch hn
  | preload background document position _ =>
    -- the generation begins, then its preload is noted, and then its keys are looked up
    have hages := (ages_nextGeneration e).trans (still_countGeneration e.nextGeneration).ages
    have hnext := hages.orderly ho
    have hannals := annals_nextGeneration e
    have hid : e.nextGeneration.countGeneration.generations.current.id
        = e.generations.current.id + 1 := by
      rw [(still_countGeneration _).generations]
      rfl
    have hbegan : e.nextGeneration.countGeneration.Attributed :=
      h.of_ages ho hages (idents_nextGeneration e) (by rw [hannals]) (by rw [hannals, hid])
    generalize e.nextGeneration.countGeneration = d at hnext hbegan
    have hnote := annals_note d
      (.preloading document position.line d.generations.current.id)
    have hnoted := (still_note d (.preloading document position.line d.generations.current.id)).ages
    have hbegan' : (d.note (.preloading document position.line
        d.generations.current.id)).Attributed :=
      hbegan.of_still hnext hnoted rfl (by rw [hnote]; rfl) (by rw [hnote]; rfl) rfl
    refine hbegan'.lookupKeys (hnoted.orderly hnext) ⟨?_, ?_, ?_⟩
    · rw [hnote]
      exact hbegan.generation.symm
    · rw [hnote]
      exact fun hn => nomatch hn
    · rw [hnote]
      rintro n ⟨rfl⟩
      exact ⟨hbegan.generation.symm, hnoted.ranked hnext _ hnext.current⟩
  | dispose hd =>
    have hannals := annals_dispose hd
    exact h.of_still ho ha (idents_dispose e) (by rw [hannals]; rfl) (by rw [hannals]; rfl)
      (generations_dispose e)

/-- **At any time, calls carry stamps that suit those on whose behalf they were made.** -/
theorem attributed_run (options : Options) (world : F.State) (actions : List (Action F)) :
    ((opening options world).run actions).Orderly ∧
      ((opening options world).run actions).Attributed := by
  refine run_induction Phase.attributed ?_ actions _ ?_ ?_
  · intro e order h
    have ha := ages_tell e order
    exact ⟨ha.orderly h.1, h.2.of_still h.1 ha rfl rfl rfl rfl⟩
  · intro _ e h
    have ha := ages_cancelRoot e
    exact ⟨ha.orderly h.1, h.2.of_still h.1 ha rfl rfl rfl rfl⟩
  · exact ⟨orderly_opening options world, rfl, rfl, fun _ hx => nomatch hx⟩

/-! ### The root and the end of the cache -/

/-- The root is cancelled exactly if the cache was disposed of. -/
def Sealed (e : Engine F) : Prop := e.isOver = e.disposed

theorem Sealed.of_still (h : e.Sealed) (hs : e.Still e') : e'.Sealed := by
  rw [Sealed, isOver, hs.isCancelled_eq, hs.generations, hs.disposed]
  exact h

/-- Whether the root is cancelled, is a matter of whether it was cancelled directly. -/
theorem isOver_eq (ho : e.Orderly) (ho' : e'.Orderly)
    (h : e'.generations.root.id ∈ e'.tokens.cancelled ↔
      e.generations.root.id ∈ e.tokens.cancelled) : e'.isOver = e.isOver := by
  rw [Bool.eq_iff_iff, ho.isOver_iff, ho'.isOver_iff]
  exact h

theorem isOver_disarm (ho : e.Orderly) : e.disarm.isOver = e.isOver := by
  refine isOver_eq ho ((ages_disarm e).orderly ho) ?_
  unfold disarm
  split
  · next t ht =>
    have hne := (ho.armed t ht).ne
    show e.generations.root.id ∈ e.tokens.cancelled.insert t.id ↔ _
    rw [NumberSet.mem_insert]
    exact or_iff_right hne.symm
  · exact Iff.rfl

theorem isOver_arm (ho : e.Orderly) (document : Uri) (position : Position) :
    (e.arm document position).isOver = e.isOver := by
  rw [← isOver_disarm ho]
  exact isOver_eq ((ages_disarm e).orderly ho) ((ages_arm e document position).orderly ho) Iff.rfl

theorem isOver_nextGeneration (ho : e.Orderly) : e.nextGeneration.isOver = e.isOver := by
  refine isOver_eq ho ((ages_nextGeneration e).orderly ho) ?_
  have hne := ho.current.below.ne
  show e.generations.root.id ∈ e.tokens.cancelled.insert e.generations.current.token.id ↔ _
  rw [NumberSet.mem_insert]
  exact or_iff_right hne.symm

theorem disposed_disarm (e : Engine F) : e.disarm.disposed = e.disposed := by
  unfold disarm
  split <;> rfl

theorem disposed_dispose (e : Engine F) : e.dispose.disposed = true := by
  unfold dispose
  split
  · next h => exact h
  · exact disposed_disarm _

theorem isOver_dispose (h : e.disposed = false) (ho : e.Orderly) : e.dispose.isOver = true := by
  have hclosed : e.Ages { e with disposed := true } := .of_eq rfl rfl rfl
  have hroot := isOver_cancelRoot { e with disposed := true }
  -- the root is cancelled before the timer is stopped, and stopping it does not matter to the root
  have horderly := (ages_cancelRoot _).orderly (hclosed.orderly ho)
  rw [dispose, h, if_neg Bool.false_ne_true]
  show ({ e with disposed := true }.cancelRoot.disarm).isOver = true
  rw [isOver_disarm horderly]
  exact hroot

theorem Phase.sealed (hp : e.Phase e') (h : e.Orderly ∧ e.Sealed) : e'.Orderly ∧ e'.Sealed := by
  obtain ⟨ho, h⟩ := h
  refine ⟨hp.ages.orderly ho, ?_⟩
  cases hp with
  | quiet hq => exact h.of_still hq.still
  | clear => exact h.of_still (still_clear e)
  | arm document position _ =>
    have hdisposed : (e.arm document position).disposed = e.disposed := disposed_disarm e
    rw [Sealed, isOver_arm ho, hdisposed]
    exact h
  | disarm =>
    rw [Sealed, isOver_disarm ho, disposed_disarm]
    exact h
  | goOff => exact h
  | query background document position _ =>
    exact h.of_still (still_serve e _ _ _ document position)
  | preload background document position _ =>
    have hnext : e.nextGeneration.Sealed := by
      rw [Sealed, isOver_nextGeneration ho]
      exact h
    exact hnext.of_still (still_servePreload e background document position)
  | dispose hd =>
    rw [Sealed, isOver_dispose hd ho, disposed_dispose]

/-- **As long as nobody but the cache cancels the root, it is cancelled exactly if the cache was
disposed of.** -/
theorem sealed_run (options : Options) (world : F.State) {actions : List (Action F)}
    (hroot : .cancelRoot ∉ actions) :
    ((opening options world).run actions).Orderly ∧
      ((opening options world).run actions).Sealed := by
  refine run_induction Phase.sealed ?_ actions _ (fun h => absurd h hroot) ?_
  · intro e order h
    exact ⟨(ages_tell e order).orderly h.1, h.2⟩
  · have ho := orderly_opening options world
    refine ⟨ho, ?_⟩
    have hnot : (opening options world).isOver ≠ true := by
      rw [Ne, ho.isOver_iff]
      exact NumberSet.not_mem_empty _
    rw [Sealed, Bool.eq_false_iff.mpr hnot]
    rfl

/-! ### Who is cancelled -/

/-- What is looked up for a query is cancelled with the end of the cache. -/
theorem Suits.isCancelled_query (h : e.Suits g .query s) (hs : e.Sealed) :
    e.isCancelled s.token = true ↔ e.disposed = true := by
  rw [h.query rfl, ← hs]
  exact Iff.rfl

/-- What is looked up for a preload is cancelled when a later generation begins, too. -/
theorem Suits.isCancelled_preload {n : Nat} (h : e.Suits g (.preload n) s) (ho : e.Orderly)
    (hs : e.Sealed) :
    e.isCancelled s.token = true ↔ e.disposed = true ∨ n < e.generations.current.id := by
  obtain ⟨rfl, hranked⟩ := h.preload n rfl
  rw [hranked.isCancelled_iff ho, hs, h.id]
  exact Or.comm

/-- When the next generation begins, all before it are cancelled at once. -/
theorem Ranked.isCancelled_next {d : Engine F} (h : e.Ranked s) (ht : d.tokens = e.tokens)
    (hg : d.generations = e.generations) : d.nextGeneration.isCancelled s.token = true := by
  rw [isCancelled, TokenTree.isCancelled_eq_true]
  refine ⟨s.token.id, List.mem_cons_self, ?_⟩
  show s.token.id ∈ d.tokens.cancelled.insert d.generations.current.token.id
  rw [ht, hg, NumberSet.mem_insert]
  rcases Nat.lt_or_eq_of_le h.le with hlt | heq
  · exact .inr (h.cancelled.mpr hlt)
  · exact .inl (by rw [h.eq_current heq])

/-- Actions that begin no generation and do not dispose of the cache, unless they are the last poll
of the last who referred to it: changes of documents, clearing, moves of the cursor, clients that
come, are polled and go, polls of drivers, polls of timers that are not due or were stopped, telling
the fetcher something, and waiting. -/
inductive Harmless (e : Engine F) : Action F → Prop
  | edit (document : Uri) (changes : Nat) : Harmless e (.edit document changes)
  | clear : Harmless e .clear
  | move (background : Bool) (document : Uri) (position : Position) :
      Harmless e (.move background document position)
  | query (r : Request) : Harmless e (.query r)
  | ask (r : Request) : Harmless e (.ask r)
  | await (call : Nat) : Harmless e (.await call)
  | abandon (client : Nat) : Harmless e (.abandon client)
  | disarm : Harmless e .disarm
  | tell (order : F.Order) : Harmless e (.tell order)
  | tick (ms : Nat) : Harmless e (.tick ms)
  | poll {i : Nat} {j : Job} (h : e.jobs[i]? = some j)
      (hj : ∀ token due document position, j = .timer token due document position →
        e.isCancelled token = true ∨ e.now < e.deadline due) : Harmless e (.poll i)
  | pollOutside (i : Nat) : Harmless e (.pollOutside i)

/-- Generations and the end of the cache stay as they are. -/
def SameAge (e e' : Engine F) : Prop :=
  e'.generations = e.generations ∧ e'.disposed = e.disposed

theorem Still.sameAge (h : e.Still e') : e.SameAge e' := ⟨h.generations, h.disposed⟩

theorem SameAge.trans {e'' : Engine F} (h : e.SameAge e') (k : e'.SameAge e'') : e.SameAge e'' :=
  ⟨k.1.trans h.1, k.2.trans h.2⟩

/-- A query that runs only looks something up. -/
theorem still_begin (h : e.disposed = false) (background : Bool) (r : Request) :
    e.Still (e.begin background r).1 := by
  have hserve := still_serve e (.asked r.document r.position.line) background
    e.generations.foreground r.document r.position
  rw [serve, ← lookupPlan_fst] at hserve
  rw [begin, h, if_neg Bool.false_ne_true]
  exact hserve.trans (quiet_resume _ r _ _ _).still

theorem sameAge_begin (e : Engine F) (background : Bool) (r : Request) :
    e.SameAge (e.begin background r).1 := by
  cases h : e.disposed with
  | true =>
    rw [begin, if_pos h]
    exact ⟨rfl, rfl⟩
  | false => exact (still_begin h background r).sameAge

theorem sameAge_ask (e : Engine F) (r : Request) : e.SameAge (e.ask r).1 :=
  (sameAge_begin e false r).trans (quiet_giveUp _ r _).still.sameAge

/-- The last poll of the last who referred to the cache brings it to its end. -/
theorem sameAge_reap (e : Engine F) :
    e.SameAge e.reap ∨ (e.disposed = false ∧ e.reap.disposed = true) := by
  unfold reap
  split
  · exact .inl ⟨rfl, rfl⟩
  · cases h : e.disposed with
    | true => exact .inl ⟨generations_dispose e, by rw [disposed_dispose, h]⟩
    | false => exact .inr ⟨rfl, disposed_dispose e⟩

theorem Action.Polls.sameAge_query {a : Action F} {background : Bool} {i client : Nat}
    {r : Request} {stage : Stage} (ha : a.Polls i background)
    (h : e.jobs[i]? = some (.query client r stage)) :
    e.SameAge (e.perform a) ∨ e.EndsCache a := by
  rcases ha.query_cases h with heq | ⟨d, j, heq, hd⟩
  · left
    rw [heq]
    exact ⟨rfl, rfl⟩
  · have hsame : e.SameAge d := by
      rcases hd with hq | ⟨-, rfl⟩
      · exact hq.still.sameAge
      · exact sameAge_begin e background r
    rcases sameAge_reap (d.setJob i j) with hreap | hend
    · left
      rw [heq]
      exact (hsame.trans (quiet_setJob d i j).still.sameAge).trans hreap
    · exact .inr (.of_reap ha h heq hsame.2 hend)

theorem Harmless.sameAge {a : Action F} (h : e.Harmless a) :
    e.SameAge (e.perform a) ∨ e.EndsCache a := by
  cases h with
  | edit document changes => exact .inl ⟨rfl, rfl⟩
  | clear => exact .inl ⟨rfl, rfl⟩
  | move background document position =>
    left
    show e.SameAge (e.move background document position)
    unfold Engine.move
    split
    · exact ⟨rfl, rfl⟩
    · split
      · exact ⟨generations_disarm e, disposed_disarm e⟩
      · exact ⟨rfl, rfl⟩
  | query r => exact .inl ⟨rfl, rfl⟩
  | ask r => exact .inl (sameAge_ask e r)
  | await call => exact .inl ⟨rfl, rfl⟩
  | abandon client => exact .inl (quiet_abandon e client).still.sameAge
  | disarm => exact .inl ⟨generations_disarm e, disposed_disarm e⟩
  | tell order => exact .inl ⟨rfl, rfl⟩
  | tick ms => exact .inl ⟨rfl, rfl⟩
  | @poll i j h hj =>
    cases j with
    | drive call token =>
      left
      rw [perform, Engine.poll, h]
      exact (quiet_pollDriver e i call token).still.sameAge
    | timer token due document position =>
      left
      obtain ⟨j, hpoll⟩ := poll_timer_rests h (hj token due document position rfl)
      rw [perform, hpoll]
      exact ⟨rfl, rfl⟩
    | query client r stage => exact (Action.Polls.inside i).sameAge_query h
    | await client call stage =>
      left
      rw [perform, Engine.poll, h]
      exact (quiet_pollAwait e i client call stage).still.sameAge
    | ended => left; rw [perform, Engine.poll, h]; exact ⟨rfl, rfl⟩
  | pollOutside i =>
    rcases e.pollOutside_cases i with hsame | ⟨client, r, stage, hj⟩
    · left
      rw [perform, hsame]
      exact ⟨rfl, rfl⟩
    · exact (Action.Polls.outside i).sameAge_query hj

/-- What the one on whose behalf a call was made says of its token. -/
structure Verdict (e : Engine F) (x : Issue) (c : Call F) : Prop where
  generation : c.stamp.id = x.generation
  query : x.source = .query → (e.isCancelled c.stamp.token = true ↔ e.disposed = true)
  preload : ∀ n, x.source = .preload n → n = x.generation ∧
    (e.isCancelled c.stamp.token = true ↔ e.disposed = true ∨ n < e.generations.current.id)

/-- Who is cancelled at the end of a run, and when that happens. -/
structure Cancellation (start : Engine F) (actions : List (Action F)) : Prop where
  /-- The annals know of the current generation. -/
  generation : (start.run actions).annals.generation
    = (start.run actions).generations.current.id
  /-- The annals know of all calls, in order. -/
  calls : (start.run actions).annals.calls.map Issue.call
    = List.range (start.run actions).calls.size
  /-- What a query looks up when it runs is looked up on behalf of a query. -/
  asked : ∀ background r, ∀ x ∈ ((start.run actions).begin background r).1.annals.calls,
    x ∈ (start.run actions).annals.calls ∨ x.source = .query
  /-- And what a preload looks up, on behalf of the generation that it begins. -/
  preloaded : ∀ background document position,
    ∀ x ∈ ((start.run actions).warm background document position).1.annals.calls,
      x ∈ (start.run actions).annals.calls ∨
        x.source = .preload ((start.run actions).generations.current.id + 1)
  /-- A call carries the number of the generation in which it was made, and those on whose behalf it
  was made decide whether it is cancelled. -/
  verdict : ∀ x ∈ (start.run actions).annals.calls, ∃ c,
    (start.run actions).calls[x.call]? = some c ∧ (start.run actions).Verdict x c
  /-- An entry carries the stamp of its call. -/
  entries : ∀ y ∈ (start.run actions).table, ∃ c,
    (start.run actions).calls[y.2.call]? = some c ∧ c.stamp = y.2.stamp
  /-- No stamp ever changes. -/
  stamps : ∀ later, (start.run actions).idents <+: ((start.run actions).run later).idents
  /-- The token of a generation is cancelled exactly if a later one began, or with the end of the
  cache. -/
  generations : ∀ before rest, actions = before ++ rest →
    ((start.run actions).isCancelled (start.run before).generations.current.token = true ↔
      (start.run actions).disposed = true ∨
        (start.run before).generations.current.id < (start.run actions).generations.current.id)
  /-- So at most one of these tokens is not cancelled. -/
  single : ∀ before rest, actions = before ++ rest →
    (start.run actions).isCancelled (start.run before).generations.current.token = false →
    (start.run before).generations.current = (start.run actions).generations.current
  /-- When a preload fires now, its generation begins, which cancels all that came before, and only
  then its plan is looked up. -/
  next : ∀ d : Engine F, d.tokens = (start.run actions).tokens →
    d.generations = (start.run actions).generations → d.isOver = false →
    ∀ background document position, ∃ n : Engine F,
      (d.warm background document position).1 = n.servePreload background document position ∧
      n.calls = d.calls ∧
      n.generations.current.id = (start.run actions).generations.current.id + 1 ∧
      ∀ before rest, actions = before ++ rest →
        n.isCancelled (start.run before).generations.current.token = true
  /-- A harmless action cancels no call, unless it is the poll that brings the cache to its end. -/
  harmless : ∀ a, (start.run actions).Harmless a →
    (∀ c ∈ (start.run actions).calls,
      ((start.run actions).perform a).isCancelled c.stamp.token
        = (start.run actions).isCancelled c.stamp.token) ∨
    (start.run actions).EndsCache a

theorem source_begin (e : Engine F) (background : Bool) (r : Request) :
    ∀ x ∈ (e.begin background r).1.annals.calls, x ∈ e.annals.calls ∨ x.source = .query := by
  intro x hx
  cases hd : e.disposed with
  | true =>
    rw [begin, if_pos hd] at hx
    exact .inl hx
  | false =>
    rcases (looked_begin hd background r).calls x hx with hx | ⟨-, hsource⟩
    · exact .inl hx
    · exact .inr hsource

theorem source_warm (e : Engine F) (background : Bool) (document : Uri) (position : Position) :
    ∀ x ∈ (e.warm background document position).1.annals.calls,
      x ∈ e.annals.calls ∨ x.source = .preload (e.generations.current.id + 1) := by
  intro x hx
  cases ho : e.isOver with
  | true =>
    rw [warm, if_pos ho, annals_note] at hx
    exact .inl hx
  | false =>
    rcases (looked_warm ho background document position).calls x hx with hx | ⟨-, hsource⟩
    · exact .inl hx
    · exact .inr hsource

/-- Every call has somebody on whose behalf it was made. -/
theorem Attributed.exists_issue (h : e.Attributed) {i : Nat} (hi : i < e.calls.size) :
    ∃ x ∈ e.annals.calls, x.call = i := by
  have hmem : i ∈ e.annals.calls.map Issue.call := by
    rw [h.calls]
    exact List.mem_range.mpr hi
  exact List.mem_map.mp hmem

/-- The stamp of a call suits those on whose behalf it was made. -/
theorem Attributed.suits_of_mem (h : e.Attributed) {c : Call F} (hc : c ∈ e.calls) :
    ∃ x : Issue, e.Suits x.generation x.source c.stamp := by
  obtain ⟨i, hi, rfl⟩ := Array.mem_iff_getElem.mp hc
  obtain ⟨x, hx, hcall⟩ := h.exists_issue hi
  obtain ⟨k, s, hks, hsuits⟩ := h.suits x hx
  obtain ⟨d, hd, -, rfl⟩ := exists_call hks
  rw [hcall, Array.getElem?_eq_getElem hi, Option.some.injEq] at hd
  subst hd
  exact ⟨x, hsuits⟩

/-- Those on whose behalf a call was made decide whether it is cancelled. -/
theorem Attributed.verdict (h : e.Attributed) (ho : e.Orderly) (hs : e.Sealed) {x : Issue}
    (hx : x ∈ e.annals.calls) : ∃ c, e.calls[x.call]? = some c ∧ e.Verdict x c := by
  obtain ⟨k, s, hks, hsuits⟩ := h.suits x hx
  obtain ⟨c, hc, -, rfl⟩ := exists_call hks
  refine ⟨c, hc, hsuits.id, ?_, ?_⟩
  · intro hquery
    rw [hquery] at hsuits
    exact hsuits.isCancelled_query hs
  · intro n hpreload
    rw [hpreload] at hsuits
    exact ⟨(hsuits.preload n rfl).1, hsuits.isCancelled_preload ho hs⟩

/-- Whoever a stamp suits, its token is cancelled before exactly if it is after, as long as
generations and the end of the cache stay as they are. -/
theorem Suits.isCancelled_eq (h : e.Suits g σ s) (ho : e.Orderly) (hs : e.Sealed) (ha : e.Ages e')
    (hs' : e'.Sealed) (hsame : e.SameAge e') : e'.isCancelled s.token = e.isCancelled s.token := by
  have h' := h.ages ho ha
  rw [Bool.eq_iff_iff]
  cases σ with
  | query => rw [h.isCancelled_query hs, h'.isCancelled_query hs', hsame.2]
  | preload n =>
    rw [h.isCancelled_preload ho hs, h'.isCancelled_preload (ha.orderly ho) hs', hsame.2, hsame.1]

/-- A harmless action cancels no call, unless it is the poll that brings the cache to its end. -/
theorem Attributed.harmless (h : e.Attributed) (ho : e.Orderly) (hs : e.Sealed) {a : Action F}
    (ha : e.Harmless a) (hages : e.Ages (e.perform a)) (hs' : (e.perform a).Sealed) :
    (∀ c ∈ e.calls, (e.perform a).isCancelled c.stamp.token = e.isCancelled c.stamp.token) ∨
      e.EndsCache a := by
  rcases ha.sameAge with hsame | hend
  · left
    intro c hc
    obtain ⟨x, hsuits⟩ := h.suits_of_mem hc
    exact hsuits.isCancelled_eq ho hs hages hs' hsame
  · exact .inr hend

/-- Generations that began in a run go on to be ranked. -/
theorem ranked_run (options : Options) (world : F.State) (before rest : List (Action F)) :
    ((opening options world).run (before ++ rest)).Ranked
      ((opening options world).run before).generations.current := by
  have hbefore := (attributed_run options world before).1
  rw [run_append]
  exact (ages_run _ rest).ranked hbefore _ hbefore.current

/-- A generation that is not cancelled is the current one. -/
theorem Ranked.eq_current_of_not_isCancelled (h : e.Ranked s) (ho : e.Orderly)
    (hopen : e.isCancelled s.token = false) : s = e.generations.current := by
  refine h.eq_current ?_
  rcases Nat.lt_or_eq_of_le h.le with hlt | hid
  · have hc := (h.isCancelled_iff ho).mpr (.inl hlt)
    rw [hopen] at hc
    cases hc
  · exact hid

/-- **It is exactly known who is cancelled, and when.** -/
theorem cancellation_is_exact (options : Options) (world : F.State) (actions : List (Action F))
    (hroot : .cancelRoot ∉ actions) : Cancellation (opening options world) actions := by
  have hcoalesced := coalesced_run options world actions
  obtain ⟨-, hattributed⟩ := attributed_run options world actions
  obtain ⟨ho, hsealed⟩ := sealed_run options world hroot
  have hranked : ∀ before rest, actions = before ++ rest →
      ((opening options world).run actions).Ranked
        ((opening options world).run before).generations.current := by
    rintro before rest rfl
    exact ranked_run options world before rest
  refine ⟨hattributed.generation, hattributed.calls, ?_, ?_, ?_, ?_, ?_, ?_, ?_, ?_, ?_⟩
  · exact fun background r x hx => source_begin _ background r x hx
  · exact fun background document position x hx => source_warm _ background document position x hx
  · exact fun x hx => hattributed.verdict ho hsealed hx
  · intro y hy
    obtain ⟨c, hc, -, hstamp⟩ := exists_call (hcoalesced.entries y hy)
    exact ⟨c, hc, hstamp⟩
  · intro later
    exact (carries_run _ later).idents
  · intro before rest heq
    rw [(hranked before rest heq).isCancelled_iff ho, hsealed]
    exact Or.comm
  · intro before rest heq hopen
    exact (hranked before rest heq).eq_current_of_not_isCancelled ho hopen
  · -- the engine between the beginning of the generation and its lookups
    intro d ht hg hopen background document position
    refine ⟨d.nextGeneration.countGeneration, ?_, ?_, ?_, ?_⟩
    · rw [warm_of_not_isOver background document position hopen]
    · unfold countGeneration
      split <;> rfl
    · rw [(still_countGeneration _).generations, ← hg]
      rfl
    · intro before rest heq
      rw [(still_countGeneration _).isCancelled_eq]
      exact (hranked before rest heq).isCancelled_next ht hg
  · intro a ha
    have hnot : .cancelRoot ∉ actions ++ [a] := by
      intro hmem
      rcases List.mem_append.mp hmem with hmem | hmem
      · exact hroot hmem
      · cases List.mem_singleton.mp hmem
        cases ha
    have hsealed' := (sealed_run options world hnot).2
    rw [run_append] at hsealed'
    exact hattributed.harmless ho hsealed ha (ages_run _ [a]) hsealed'

/-- A cache with a fetcher that is held. -/
def heldBack : Engine Fetcher.canned := opening {} ({ held := true } : Canned.State)

/-- A preload, a query that runs, and another preload, all of other lines. -/
def overlapping : List (Action Fetcher.canned) :=
  let document : Uri := ⟨"file:///a"⟩
  [.warm true document ⟨3, 0⟩, .query ⟨document, ⟨7, 0⟩, 100⟩, .poll 2, .warm true document ⟨9, 0⟩]

/-- The calls of the first preload are cancelled, and nobody else's. -/
theorem cancellation_is_exact_overlapping :
    .cancelRoot ∉ overlapping ∧ Cancellation heldBack overlapping ∧
    (heldBack.run overlapping).annals.calls.map Issue.source
      = [.preload 1, .preload 1, .query, .query, .preload 2, .preload 2] ∧
    (heldBack.run overlapping).cancelledCalls = [0, 1] := by
  have hroot : .cancelRoot ∉ overlapping := by simp [overlapping]
  refine ⟨hroot, ?_, by decide +kernel, by decide +kernel⟩
  exact cancellation_is_exact (F := Fetcher.canned) {} ({ held := true } : Canned.State)
    overlapping hroot

end CursorContext.Engine
