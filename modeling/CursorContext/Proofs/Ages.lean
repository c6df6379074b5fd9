import CursorContext.Proofs.Phase

/-!
# Tokens and generations in runs

All tokens of an engine hang below the token of its whole life, the root.  Those of generations and
those of timers are different tokens, so stopping a timer cancels no generation; and since beginning
a generation cancels exactly the one before, a generation's token is cancelled exactly if a later
generation began or the root is cancelled.

## Main definitions

* `Engine.Below e t` — `t` was made directly below the root.
* `Engine.Ranked e s` — `s` is the stamp of a generation that began, with all that says of it.
* `Engine.Orderly e` — the tokens of the engine are in order.
* `Engine.Ages e e'` — from `e` to `e'` tokens and generations only went on.

## Main results

* `Ranked.isCancelled_iff` — the token of a generation is cancelled exactly if the generation is not
  the current one or the root is cancelled.
* `ages_run` — in runs tokens and generations only go on, and stay in order.
-/

namespace CursorContext.Engine

variable {F : Fetcher} {e e' e'' : Engine F} {s : Stamp} {t : Token}

/-- A token that was made directly below the root. -/
structure Below (e : Engine F) (t : Token) : Prop where
  /-- Nothing but the root is above it. -/
  above : t.above = [e.generations.root.id]
  /-- It is not the root. -/
  ne : t.id ≠ e.generations.root.id
  /-- It was made. -/
  lt : t.id < e.tokens.issued

/-- The stamp of a generation that began. -/
structure Ranked (e : Engine F) (s : Stamp) : Prop where
  /-- Its token is below the root. -/
  below : e.Below s.token
  /-- It did not begin after the current one. -/
  le : s.id ≤ e.generations.current.id
  /-- Generations are known by their numbers. -/
  eq_current : s.id = e.generations.current.id → s = e.generations.current
  /-- It was cancelled directly exactly if it is over. -/
  cancelled : s.token.id ∈ e.tokens.cancelled ↔ s.id < e.generations.current.id
  /-- Its token is not that of a timer. -/
  unarmed : ∀ t, e.armed = some t → t.id ≠ s.token.id

/-- The tokens of an engine are in order. -/
structure Orderly (e : Engine F) : Prop where
  /-- Nothing is above the root. -/
  root_above : e.generations.root.above = []
  /-- The root was made. -/
  root_lt : e.generations.root.id < e.tokens.issued
  /-- Nothing was cancelled that was not made. -/
  cancelled_lt : ∀ n ∈ e.tokens.cancelled, n < e.tokens.issued
  /-- The token of the timer is below the root. -/
  armed : ∀ t, e.armed = some t → e.Below t
  /-- The current generation began. -/
  current : e.Ranked e.generations.current

/-- From `e` to `e'` tokens and generations only went on. -/
structure Ages (e e' : Engine F) : Prop where
  /-- The root stays. -/
  root : e'.generations.root = e.generations.root
  /-- Generations go up. -/
  id_le : e.generations.current.id ≤ e'.generations.current.id
  /-- What is cancelled stays so. -/
  cancelled : ∀ n ∈ e.tokens.cancelled, n ∈ e'.tokens.cancelled
  /-- Tokens stay in order. -/
  orderly : e.Orderly → e'.Orderly
  /-- A generation that began goes on to be one. -/
  ranked : e.Orderly → ∀ s, e.Ranked s → e'.Ranked s

namespace Ages

theorem refl (e : Engine F) : e.Ages e := ⟨rfl, Nat.le_refl _, fun _ h => h, id, fun _ _ h => h⟩

theorem trans (h : e.Ages e') (k : e'.Ages e'') : e.Ages e'' where
  root := k.root.trans h.root
  id_le := Nat.le_trans h.id_le k.id_le
  cancelled := fun n hn => k.cancelled n (h.cancelled n hn)
  orderly := fun ho => k.orderly (h.orderly ho)
  ranked := fun ho s hs => k.ranked (h.orderly ho) s (h.ranked ho s hs)

theorem isCancelled (h : e.Ages e') (ht : e.isCancelled t = true) : e'.isCancelled t = true := by
  rw [Engine.isCancelled, TokenTree.isCancelled_eq_true] at ht ⊢
  obtain ⟨n, hn, hmem⟩ := ht
  exact ⟨n, hn, h.cancelled n hmem⟩

theorem isOver (h : e.Ages e') (ho : e.isOver = true) : e'.isOver = true := by
  rw [Engine.isOver, h.root]
  exact h.isCancelled ho

end Ages

/-! ### Who is cancelled -/

theorem Orderly.isOver_iff (h : e.Orderly) :
    e.isOver = true ↔ e.generations.root.id ∈ e.tokens.cancelled := by
  rw [isOver, isCancelled, TokenTree.isCancelled_eq_true]
  simp [Token.line, h.root_above]

theorem Below.isCancelled_iff (h : e.Below t) (ho : e.Orderly) :
    e.isCancelled t = true ↔ t.id ∈ e.tokens.cancelled ∨ e.isOver = true := by
  rw [ho.isOver_iff, isCancelled, TokenTree.isCancelled_eq_true]
  simp [Token.line, h.above]

/-- **The token of a generation is cancelled exactly if a later generation began or the root is
cancelled.** -/
theorem Ranked.isCancelled_iff (h : e.Ranked s) (ho : e.Orderly) :
    e.isCancelled s.token = true ↔ s.id < e.generations.current.id ∨ e.isOver = true := by
  rw [h.below.isCancelled_iff ho, h.cancelled]

/-! ### What happens to tokens -/

/-- A token stays below the root while others are made. -/
theorem Below.mono (h : e.Below t) (hroot : e'.generations.root = e.generations.root)
    (hle : e.tokens.issued ≤ e'.tokens.issued) : e'.Below t where
  above := by rw [hroot]; exact h.above
  ne := by rw [hroot]; exact h.ne
  lt := Nat.lt_of_lt_of_le h.lt hle

/-- A child of the root is below it. -/
theorem Orderly.above_child (h : e.Orderly) :
    (e.tokens.child e.generations.root).1.above = [e.generations.root.id] := by
  show e.generations.root.id :: e.generations.root.above = [e.generations.root.id]
  rw [h.root_above]

/-- Where neither tokens nor generations nor timers are touched, nothing changes. -/
theorem Ages.of_eq (ht : e'.tokens = e.tokens) (hg : e'.generations = e.generations)
    (ha : e'.armed = e.armed) : e.Ages e' := by
  have hbelow : ∀ t, e.Below t → e'.Below t := fun t hb =>
    hb.mono (by rw [hg]) (Nat.le_of_eq (by rw [ht]))
  have hranked : ∀ s, e.Ranked s → e'.Ranked s := fun s hs =>
    { below := hbelow _ hs.below
      le := by rw [hg]; exact hs.le
      eq_current := by rw [hg]; exact hs.eq_current
      cancelled := by rw [ht, hg]; exact hs.cancelled
      unarmed := by rw [ha]; exact hs.unarmed }
  refine
    { root := by rw [hg]
      id_le := Nat.le_of_eq (by rw [hg])
      cancelled := fun n hn => by rw [ht]; exact hn
      orderly := fun ho => ?_
      ranked := fun _ => hranked }
  have hcurrent := hranked _ ho.current
  exact
    { root_above := by rw [hg]; exact ho.root_above
      root_lt := by rw [hg, ht]; exact ho.root_lt
      cancelled_lt := by rw [ht]; exact ho.cancelled_lt
      armed := fun t h => hbelow t (ho.armed t (by rw [← ha]; exact h))
      current := by rwa [hg] }

theorem Still.ages (h : e.Still e') : e.Ages e' := .of_eq h.tokens h.generations h.armed

/-- A timer that goes off is no longer the one that is running. -/
theorem ages_goOff (e : Engine F) : e.Ages { e with armed := none } := by
  have hranked : ∀ s, e.Ranked s → Ranked { e with armed := none } s := by
    intro s hs
    exact ⟨hs.below.mono rfl (Nat.le_refl _), hs.le, hs.eq_current, hs.cancelled,
      fun t ht => nomatch ht⟩
  refine ⟨rfl, Nat.le_refl _, fun _ hn => hn, fun ho => ?_, fun _ => hranked⟩
  exact ⟨ho.root_above, ho.root_lt, ho.cancelled_lt, (fun t ht => nomatch ht),
    hranked _ ho.current⟩

/-- Cancelling a token that is neither the root nor that of a generation leaves generations and the
root as they are. -/
theorem ages_cancel_armed (ht : e.armed = some t) : e.Ages (e.cancel t) := by
  have hmem : ∀ n, n ∈ (e.cancel t).tokens.cancelled ↔ n = t.id ∨ n ∈ e.tokens.cancelled :=
    fun n => NumberSet.mem_insert
  have hranked : ∀ s, e.Ranked s → (e.cancel t).Ranked s := by
    intro s hs
    refine ⟨hs.below.mono rfl (Nat.le_refl _), hs.le, hs.eq_current, ?_, hs.unarmed⟩
    -- a timer's token is that of no generation
    rw [hmem]
    exact (or_iff_right (hs.unarmed t ht).symm).trans hs.cancelled
  refine ⟨rfl, Nat.le_refl _, fun n hn => (hmem n).mpr (.inr hn), fun ho => ?_, fun _ => hranked⟩
  refine ⟨ho.root_above, ho.root_lt, ?_, ?_, hranked _ ho.current⟩
  · intro n hn
    rcases (hmem n).mp hn with rfl | hn
    · exact (ho.armed t ht).lt
    · exact ho.cancelled_lt n hn
  · intro u hu
    exact (ho.armed u hu).mono rfl (Nat.le_refl _)

theorem ages_disarm (e : Engine F) : e.Ages e.disarm := by
  unfold disarm
  split
  · next t ht => exact (ages_cancel_armed ht).trans (ages_goOff (e.cancel t))
  · exact .refl e

/-- A token more, for a timer. -/
theorem ages_child (e : Engine F) :
    e.Ages { e with
      tokens := (e.tokens.child e.generations.root).2
      armed := some (e.tokens.child e.generations.root).1 } := by
  have hranked : ∀ s, e.Ranked s → Ranked
      { e with
        tokens := (e.tokens.child e.generations.root).2
        armed := some (e.tokens.child e.generations.root).1 } s := by
    intro s hs
    refine ⟨hs.below.mono rfl (Nat.le_succ _), hs.le, hs.eq_current, hs.cancelled, ?_⟩
    -- its number is new, so it is not that of a generation
    rintro t ⟨rfl⟩
    exact Nat.ne_of_gt hs.below.lt
  refine ⟨rfl, Nat.le_refl _, fun _ hn => hn, fun ho => ?_, fun _ => hranked⟩
  refine ⟨ho.root_above, Nat.lt_succ_of_lt ho.root_lt,
    fun n hn => Nat.lt_succ_of_lt (ho.cancelled_lt n hn), ?_, hranked _ ho.current⟩
  rintro t ⟨rfl⟩
  exact ⟨ho.above_child, Nat.ne_of_gt ho.root_lt, Nat.lt_succ_self _⟩

theorem ages_arm (e : Engine F) (document : Uri) (position : Position) :
    e.Ages (e.arm document position) :=
  ((ages_disarm e).trans (ages_child e.disarm)).trans (quiet_spawn _ _).still.ages

/-- The next generation takes the place of the current one, which is cancelled. -/
theorem ages_nextGeneration (e : Engine F) : e.Ages e.nextGeneration := by
  have hmem : ∀ n, n ∈ e.nextGeneration.tokens.cancelled
      ↔ n = e.generations.current.token.id ∨ n ∈ e.tokens.cancelled :=
    fun n => NumberSet.mem_insert
  have hranked : ∀ s, e.Ranked s → e.nextGeneration.Ranked s := by
    intro s hs
    refine ⟨hs.below.mono rfl (Nat.le_succ _), Nat.le_succ_of_le hs.le, fun h => ?_, ?_, hs.unarmed⟩
    · exact absurd (h ▸ hs.le) (Nat.not_succ_le_self _)
    · -- either it was over before, or it is the one that was current until now
      rw [hmem]
      refine iff_of_true ?_ (Nat.lt_succ_of_le hs.le)
      rcases Nat.lt_or_eq_of_le hs.le with hlt | heq
      · exact .inr (hs.cancelled.mpr hlt)
      · exact .inl (by rw [hs.eq_current heq])
  refine ⟨rfl, Nat.le_succ _, fun n hn => (hmem n).mpr (.inr hn), fun ho => ?_, fun _ => hranked⟩
  have hnew : e.nextGeneration.Below e.nextGeneration.generations.current.token :=
    ⟨ho.above_child, Nat.ne_of_gt ho.root_lt, Nat.lt_succ_self _⟩
  have hlt : ∀ n ∈ e.nextGeneration.tokens.cancelled, n < e.tokens.issued := by
    intro n hn
    rcases (hmem n).mp hn with rfl | hn
    · exact ho.current.below.lt
    · exact ho.cancelled_lt n hn
  refine ⟨ho.root_above, Nat.lt_succ_of_lt ho.root_lt, fun n hn => Nat.lt_succ_of_lt (hlt n hn),
    ?_, hnew, Nat.le_refl _, fun _ => rfl, ?_, ?_⟩
  · intro t ht
    exact (ho.armed t ht).mono rfl (Nat.le_succ _)
  · -- neither side is true of the new one: no token of its number was cancelled
    exact iff_of_false (fun hn => Nat.lt_irrefl _ (hlt _ hn)) (Nat.lt_irrefl _)
  · intro t ht
    exact Nat.ne_of_lt (ho.armed t ht).lt

theorem ages_cancelRoot (e : Engine F) : e.Ages e.cancelRoot := by
  have hmem : ∀ n, n ∈ e.cancelRoot.tokens.cancelled
      ↔ n = e.generations.root.id ∨ n ∈ e.tokens.cancelled := fun n => NumberSet.mem_insert
  have hranked : ∀ s, e.Ranked s → e.cancelRoot.Ranked s := by
    intro s hs
    refine ⟨hs.below.mono rfl (Nat.le_refl _), hs.le, hs.eq_current, ?_, hs.unarmed⟩
    -- the root is no generation
    rw [hmem]
    exact (or_iff_right hs.below.ne).trans hs.cancelled
  refine ⟨rfl, Nat.le_refl _, fun n hn => (hmem n).mpr (.inr hn), fun ho => ?_, fun _ => hranked⟩
  refine ⟨ho.root_above, ho.root_lt, ?_, ?_, hranked _ ho.current⟩
  · intro n hn
    rcases (hmem n).mp hn with rfl | hn
    · exact ho.root_lt
    · exact ho.cancelled_lt n hn
  · intro t ht
    exact (ho.armed t ht).mono rfl (Nat.le_refl _)

theorem isOver_cancelRoot (e : Engine F) : e.cancelRoot.isOver = true := by
  have hcancelled := TokenTree.isCancelled_cancel e.tokens e.generations.root e.generations.root
  exact hcancelled.mpr (.inl List.mem_cons_self)

theorem still_countGeneration (e : Engine F) : e.Still e.countGeneration := by
  unfold countGeneration
  split
  · exact ⟨rfl, rfl, rfl, rfl, rfl, rfl, .of_eq rfl rfl⟩
  · exact .refl e

theorem still_serve (e : Engine F) (notice : Notice) (background : Bool) (stamp : Stamp)
    (document : Uri) (position : Position) :
    e.Still (e.serve notice background stamp document position) :=
  (still_note e notice).trans (still_lookupKeys _ _ _ _)

/-- Once the next generation began, the rest of a preload only looks something up. -/
theorem still_servePreload (e : Engine F) (background : Bool) (document : Uri)
    (position : Position) : e.nextGeneration.Still
      (e.nextGeneration.countGeneration.servePreload background document position) :=
  (still_countGeneration e.nextGeneration).trans (still_serve _ _ _ _ document position)

theorem ages_dispose (e : Engine F) : e.Ages e.dispose := by
  unfold dispose
  split
  · exact .refl e
  · have hclosed : e.Ages { e with disposed := true } := .of_eq rfl rfl rfl
    exact (((hclosed.trans (ages_cancelRoot _)).trans (ages_disarm _)).trans
      (still_clear _).ages).trans (still_note _ .closed).ages

/-! ### Runs -/

theorem Phase.ages (h : e.Phase e') : e.Ages e' := by
  cases h with
  | quiet h => exact h.still.ages
  | clear => exact (still_clear e).ages
  | arm document position _ => exact ages_arm e document position
  | disarm => exact ages_disarm e
  | goOff => exact ages_goOff e
  | query _ document position _ => exact (still_serve e _ _ _ document position).ages
  | preload background document position _ =>
    exact (ages_nextGeneration e).trans (still_servePreload e background document position).ages
  | dispose _ => exact ages_dispose e

theorem ages_tell (e : Engine F) (order : F.Order) : e.Ages (e.tell order) := .of_eq rfl rfl rfl

/-- **In runs, tokens and generations only go on.** -/
theorem ages_run (e : Engine F) (actions : List (Action F)) : e.Ages (e.run actions) :=
  run_induction (fun hp h => h.trans hp.ages)
    (fun d order h => h.trans (ages_tell d order)) actions e
    (fun _ d h => h.trans (ages_cancelRoot d)) (.refl e)

theorem orderly_opening (options : Options) (world : F.State) :
    (opening options world).Orderly := by
  refine ⟨rfl, (show 0 < 2 by decide), fun n hn => absurd hn (NumberSet.not_mem_empty n),
    (fun t ht => nomatch ht), ?_⟩
  refine ⟨⟨rfl, (show 1 ≠ 0 by decide), (show 1 < 2 by decide)⟩, Nat.le_refl _, fun _ => rfl, ?_,
    fun t ht => nomatch ht⟩
  exact iff_of_false (NumberSet.not_mem_empty _) (Nat.lt_irrefl _)

end CursorContext.Engine
