import CursorContext.Emitter.Play
import Mathlib.Data.List.Induction

/-!
# Plays

Scripts of listeners are plays: whatever is performed on an emitter with scripted listeners can be
made move by move, and an emission is the move by which it begins and some moves after that.  So
what holds of every play, whoever makes the moves and however deep emissions are nested, holds of
scripts, in the middle of an emission too.

Then: what each move can do, and what can be read off from the moves alone, without the scene.  The
emitter is there until somebody lets go of it, and its numbers count the subscriptions.

## Main definitions

* `Script.Scene.Leads`, `Script.ByMoves`: one scene leads to another by moves.
* `Script.Move.delivers`, `Script.Move.subscribes`: kinds of moves.
* `Script.Scene.next?`: the number of the next listener.

## Main results

* `Script.byMoves_emit`, `Script.leads_performAll`: scripts are plays.
* `Script.Play.next?_eq_some_iff`, `Script.Play.isSome_run_iff`: the next number, and whether the
  emitter is there, by what was done.
* `Script.Play.since_iff`: what begins at some moves and goes on as long as later moves keep it.
-/

namespace CursorContext.Script

/-! ### Scripts are plays -/

/-- Some moves lead from one scene to another, whatever emissions are going on meanwhile, and leave
these alone. -/
def Scene.Leads (s s' : Scene) : Prop :=
  ∀ outer, ∃ moves, (⟨s, outer⟩ : Play).run moves = ⟨s', outer⟩

namespace Scene.Leads

variable {s s' s'' : Scene}

theorem refl (s : Scene) : s.Leads s := fun _ => ⟨[], rfl⟩

theorem trans (h : s.Leads s') (k : s'.Leads s'') : s.Leads s'' := by
  intro outer
  obtain ⟨moves, hmoves⟩ := h outer
  obtain ⟨more, hmore⟩ := k outer
  exact ⟨moves ++ more, by rw [Play.run_append, hmoves, hmore]⟩

/-- One move that has nothing to do with emissions. -/
theorem single (m : Move) (h : ∀ outer, (⟨s, outer⟩ : Play).move m = ⟨s', outer⟩) : s.Leads s' :=
  fun outer => ⟨[m], h outer⟩

end Scene.Leads

section

variable {emit : Int → Scene → Option Scene} {s s' : Scene}

/-- An emission is by moves, where there is an emitter: it begins, and then it comes to its end. -/
def ByMoves (emit : Int → Scene → Option Scene) : Prop :=
  ∀ (event : Int) (s s' : Scene), s.emitter.isSome = true → emit event s = some s' →
    ∀ outer, ∃ during, (⟨s, outer⟩ : Play).run (.emit event :: during) = ⟨s', outer⟩

theorem ByMoves.leads (he : ByMoves emit) {event : Int} (hsome : s.emitter.isSome = true)
    (h : emit event s = some s') : s.Leads s' := by
  intro outer
  obtain ⟨during, hduring⟩ := he event s s' hsome h outer
  exact ⟨.emit event :: during, hduring⟩

theorem ByMoves.act (he : ByMoves emit) {a : Action} (h : act emit a s = some s') :
    s.Leads s' := by
  cases a with
  | subscribe name script =>
    cases h
    exact .single (.subscribe ⟨name, script⟩) fun _ => rfl
  | unsubscribe handle =>
    cases h
    exact .single (.unsubscribe handle) fun _ => rfl
  | release handle =>
    cases h
    exact .single (.release handle) fun _ => rfl
  | emit event =>
    simp only [Script.act] at h
    split at h
    · next hsome => exact he.leads hsome h
    · cases h
      exact .refl _
  | close =>
    cases h
    exact .single .close fun _ => rfl
  | relay => cases h; exact .refl _
  | idle => cases h; exact .refl _

theorem ByMoves.actAll (he : ByMoves emit) {actions : List Action} {s : Scene}
    (h : actAll emit actions s = some s') : s.Leads s' := by
  induction actions generalizing s with
  | nil => cases h; exact .refl _
  | cons a rest ih =>
    obtain ⟨middle, ha, hrest⟩ := Option.bind_eq_some_iff.mp h
    exact (he.act ha).trans (ih hrest)

/-- What a listener does once it is called. -/
theorem ByMoves.call (he : ByMoves emit) {emission id : Nat} {event : Int} {l : Listener}
    (h : call emit emission event id l s = some s') :
    (s.mark (.called emission id l.name event)).Leads s' := by
  obtain ⟨middle, hscript, hrelay⟩ := Option.bind_eq_some_iff.mp h
  refine (he.actAll hscript).trans ?_
  split at hrelay
  · next hcond =>
    rw [Bool.and_eq_true] at hcond
    exact he.leads hcond.2 hrelay
  · cases hrelay
    exact .refl _

/-- The innermost emission calls those that wait, one after the other. -/
theorem ByMoves.callAll (he : ByMoves emit) {emission : Nat} {event : Int}
    {waiting : List (Nat × Listener)} {s : Scene}
    (h : callAll emit emission event waiting s = some s') (outer : List Delivery) :
    ∃ moves, (⟨s, ⟨emission, event, waiting⟩ :: outer⟩ : Play).run moves
      = ⟨s', ⟨emission, event, []⟩ :: outer⟩ := by
  induction waiting generalizing s with
  | nil => cases h; exact ⟨[], rfl⟩
  | cons x rest ih =>
    obtain ⟨id, l⟩ := x
    obtain ⟨middle, hcall, hrest⟩ := Option.bind_eq_some_iff.mp h
    obtain ⟨moves, hmoves⟩ := he.call hcall (⟨emission, event, rest⟩ :: outer)
    obtain ⟨more, hmore⟩ := ih hrest
    refine ⟨.next :: (moves ++ more), ?_⟩
    rw [Play.run_cons, Play.run_append, ← hmore, ← hmoves]
    rfl

end

/-- **Emissions of scripted listeners are plays.** -/
theorem byMoves_emit (depth : Nat) : ByMoves (emit depth) := by
  induction depth with
  | zero =>
    intro event s s' _ h
    cases h
  | succ depth ih =>
    intro event s s' hsome h outer
    obtain ⟨moves, hmoves⟩ := ih.callAll h outer
    refine ⟨moves ++ [.finish], ?_⟩
    have hbegin : (⟨s, outer⟩ : Play).move (.emit event)
        = ⟨s.mark (.began event (s.audience.map (·.1))),
            ⟨s.marks.size, event, s.audience⟩ :: outer⟩ := if_pos hsome
    rw [Play.run_cons, Play.run_append, hbegin, hmoves]
    rfl

/-- Whatever is done to an emitter with scripted listeners is a play. -/
theorem leads_perform (depth : Nat) (a : Action) (s : Scene) : s.Leads (perform depth a s) := by
  unfold perform
  cases h : act (emit depth) a s with
  | none => exact .refl s
  | some s' => exact (byMoves_emit depth).act h

theorem leads_performAll (depth : Nat) (actions : List Action) (s : Scene) :
    s.Leads (actions.foldl (fun s a => perform depth a s) s) := by
  induction actions generalizing s with
  | nil => exact .refl s
  | cons a rest ih => exact (leads_perform depth a s).trans (ih _)

/-! ### Moves -/

/-- Whether it is part of an emission. -/
def Move.delivers : Move → Bool
  | .emit _ => true
  | .next => true
  | .finish => true
  | _ => false

/-- Whether it is a subscription. -/
def Move.subscribes : Move → Bool
  | .subscribe _ => true
  | _ => false

/-- The number of the next listener, as long as the emitter is there. -/
def Scene.next? (s : Scene) : Option Nat := s.emitter.map (·.next)

theorem Scene.next?_eq_none_iff {s : Scene} : s.next? = none ↔ s.emitter = none :=
  Option.map_eq_none_iff

theorem Scene.next?_detach (s : Scene) (handle : Nat) (after : Handle) :
    (s.detach handle after).next? = s.next? := by
  unfold detach
  split
  · exact Option.map_map _ _ _
  · rfl
  · rfl

namespace Play

variable {p : Play}

/-- An emission that begins leaves a mark, and has yet to call all listeners that are registered. -/
theorem move_emit (hsome : p.scene.emitter.isSome = true) (event : Int) :
    p.move (.emit event)
      = ⟨p.scene.mark (.began event (p.scene.audience.map (·.1))),
          ⟨p.scene.marks.size, event, p.scene.audience⟩ :: p.deliveries⟩ := if_pos hsome

/-- Whoever emits without an emitter does nothing. -/
theorem emit_cases (p : Play) (event : Int) :
    (p.scene.emitter = none ∧ p.move (.emit event) = p) ∨
    ∃ r, p.scene.emitter = some r ∧ p.move (.emit event)
      = ⟨p.scene.mark (.began event (p.scene.audience.map (·.1))),
          ⟨p.scene.marks.size, event, p.scene.audience⟩ :: p.deliveries⟩ := by
  cases hr : p.scene.emitter with
  | none => exact .inl ⟨rfl, by rw [move, hr]; rfl⟩
  | some r => exact .inr ⟨r, rfl, move_emit (by rw [hr]; rfl) event⟩

/-- The innermost emission calls its next listener, if there is one. -/
theorem next_cases (p : Play) :
    p.move .next = p ∨ ∃ emission event id l rest outer,
      p.deliveries = ⟨emission, event, (id, l) :: rest⟩ :: outer ∧
      p.move .next
        = ⟨p.scene.mark (.called emission id l.name event), ⟨emission, event, rest⟩ :: outer⟩ := by
  obtain ⟨scene, _ | ⟨⟨emission, event, _ | ⟨⟨id, l⟩, rest⟩⟩, outer⟩⟩ := p
  · exact .inl rfl
  · exact .inl rfl
  · exact .inr ⟨emission, event, id, l, rest, outer, rfl, rfl⟩

/-- The innermost emission is over, if no listener is left. -/
theorem finish_cases (p : Play) :
    p.move .finish = p ∨ ∃ emission event outer,
      p.deliveries = ⟨emission, event, []⟩ :: outer ∧ p.move .finish = ⟨p.scene, outer⟩ := by
  obtain ⟨scene, _ | ⟨⟨emission, event, _ | ⟨x, rest⟩⟩, outer⟩⟩ := p
  · exact .inl rfl
  · exact .inr ⟨emission, event, outer, rfl, rfl⟩
  · exact .inl rfl

/-- Emissions leave the emitter and the handles to the listeners. -/
theorem scene_of_delivers {m : Move} (h : m.delivers = true) :
    (p.move m).scene.emitter = p.scene.emitter ∧ (p.move m).scene.handles = p.scene.handles := by
  cases m with
  | emit event =>
    rcases p.emit_cases event with ⟨-, hmove⟩ | ⟨r, -, hmove⟩ <;> rw [hmove] <;> exact ⟨rfl, rfl⟩
  | next =>
    rcases p.next_cases with hmove | ⟨_, _, _, _, _, _, -, hmove⟩ <;> rw [hmove] <;>
      exact ⟨rfl, rfl⟩
  | finish =>
    rcases p.finish_cases with hmove | ⟨_, _, _, -, hmove⟩ <;> rw [hmove] <;> exact ⟨rfl, rfl⟩
  | _ => cases h

/-- One subscription takes one number. -/
theorem next?_move (p : Play) {m : Move} (hm : m ≠ .close) :
    (p.move m).scene.next? = p.scene.next?.map (· + [m].countP Move.subscribes) := by
  have hsame : (p.move m).scene.next? = p.scene.next? → m.subscribes = false →
      (p.move m).scene.next? = p.scene.next?.map (· + [m].countP Move.subscribes) := by
    intro hnext hother
    rw [hnext, List.countP_singleton, hother]
    exact Option.map_id'.symm
  have hdelivers : m.delivers = true → (p.move m).scene.next? = p.scene.next? := by
    intro hd
    rw [Scene.next?, Scene.next?, (scene_of_delivers hd).1]
  cases m with
  | subscribe l => obtain ⟨⟨_ | r, handles, marks⟩, deliveries⟩ := p <;> rfl
  | unsubscribe handle => exact hsame (Scene.next?_detach _ handle _) rfl
  | release handle => exact hsame (Scene.next?_detach _ handle _) rfl
  | close => exact absurd rfl hm
  | emit event => exact hsame (hdelivers rfl) rfl
  | next => exact hsame (hdelivers rfl) rfl
  | finish => exact hsame (hdelivers rfl) rfl

/-- Numbers only grow. -/
theorem next?_move_le {m : Move} {b : Nat} (h : (p.move m).scene.next? = some b) :
    ∃ a, p.scene.next? = some a ∧ a ≤ b := by
  have hm : m ≠ .close := by
    rintro rfl
    cases h
  rw [next?_move p hm] at h
  obtain ⟨a, ha, rfl⟩ := Option.map_eq_some_iff.mp h
  exact ⟨a, ha, Nat.le_add_right _ _⟩

/-- As long as the emitter is there, the next number is how many subscriptions there were. -/
theorem next?_run {moves : List Move} (h : Move.close ∉ moves) :
    (start.run moves).scene.next? = some (moves.countP Move.subscribes) := by
  induction moves using List.reverseRecOn with
  | nil => rfl
  | append_singleton moves m ih =>
    obtain ⟨hrest, hm⟩ := not_or.mp (mt List.mem_append.mpr h)
    have hother : m ≠ .close := fun heq => hm (heq ▸ List.mem_singleton_self m)
    rw [run_append, run_cons, run_nil, next?_move _ hother, ih hrest, List.countP_append]
    rfl

/-- An emitter that is gone never comes back. -/
theorem emitter_move (h : p.scene.emitter = none) (m : Move) :
    (p.move m).scene.emitter = none := by
  rw [← Scene.next?_eq_none_iff] at h ⊢
  by_cases hm : m = .close
  · rw [hm]
    rfl
  · rw [next?_move p hm, h]
    rfl

theorem emitter_run (h : p.scene.emitter = none) (moves : List Move) :
    (p.run moves).scene.emitter = none := by
  induction moves generalizing p with
  | nil => exact h
  | cons m rest ih => exact ih (emitter_move h m)

/-- The emitter is there until somebody lets go of it. -/
theorem isSome_run_iff (moves : List Move) :
    (start.run moves).scene.emitter.isSome = true ↔ Move.close ∉ moves := by
  constructor
  · rintro hsome hmem
    obtain ⟨past, rest, rfl⟩ := List.append_of_mem hmem
    have hclosed : ((start.run past).move .close).scene.emitter = none := rfl
    rw [run_append, run_cons, emitter_run hclosed] at hsome
    cases hsome
  · intro h
    have hnext : (start.run moves).scene.emitter.map (·.next) = _ := next?_run h
    obtain ⟨r, hr, -⟩ := Option.map_eq_some_iff.mp hnext
    rw [hr]
    rfl

/-- The next number, read off from what was done. -/
theorem next?_eq_some_iff (moves : List Move) (k : Nat) :
    (start.run moves).scene.next? = some k ↔
      Move.close ∉ moves ∧ moves.countP Move.subscribes = k := by
  constructor
  · intro h
    have hopen : Move.close ∉ moves := by
      rw [← isSome_run_iff, ← Option.isSome_map, ← Scene.next?, h]
      rfl
    rw [next?_run hopen] at h
    exact ⟨hopen, Option.some.inj h⟩
  · rintro ⟨hopen, rfl⟩
    exact next?_run hopen

/-! ### What begins and goes on -/

/-- What begins at some moves, and goes on as long as later moves keep it. -/
theorem since_iff {P : List Move → Prop} {begins : List Move → Move → Prop} {keeps : Move → Prop}
    (hnil : ¬ P [])
    (hstep : ∀ past m, P (past ++ [m]) ↔ (P past ∧ keeps m) ∨ begins past m) (moves : List Move) :
    P moves ↔ ∃ past m rest, moves = past ++ m :: rest ∧ begins past m ∧ ∀ x ∈ rest, keeps x := by
  induction moves using List.reverseRecOn with
  | nil =>
    refine ⟨fun h => absurd h hnil, ?_⟩
    rintro ⟨past, m, rest, heq, -⟩
    simp at heq
  | append_singleton moves m ih =>
    rw [hstep, ih]
    constructor
    · rintro (⟨⟨past, m', rest, rfl, hbegins, hkeeps⟩, hm⟩ | hbegins)
      · refine ⟨past, m', rest ++ [m], by simp, hbegins, fun x hx => ?_⟩
        rcases List.mem_append.mp hx with hx | hx
        · exact hkeeps x hx
        · rw [List.mem_singleton.mp hx]
          exact hm
      · exact ⟨moves, m, [], rfl, hbegins, nofun⟩
    · rintro ⟨past, m', rest, heq, hbegins, hkeeps⟩
      rcases List.eq_nil_or_concat rest with rfl | ⟨front, x, rfl⟩
      · obtain ⟨rfl, hm⟩ := List.append_inj' heq rfl
        cases hm
        exact .inr hbegins
      · rw [List.concat_eq_append] at heq hkeeps
        rw [← List.cons_append, ← List.append_assoc] at heq
        obtain ⟨rfl, hm⟩ := List.append_inj' heq rfl
        cases hm
        refine .inl ⟨⟨past, m', front, rfl, hbegins, fun y hy => ?_⟩, ?_⟩
        · exact hkeeps y (List.mem_append_left _ hy)
        · exact hkeeps m (List.mem_append_right _ (List.mem_singleton_self m))

end Play

end CursorContext.Script
