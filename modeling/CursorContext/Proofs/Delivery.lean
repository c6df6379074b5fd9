import CursorContext.Proofs.Handles

/-!
# Delivery

An emission calls the listeners that are registered when it begins.  Listeners do what they want
meanwhile, so the registry changes while the list is walked, and emissions inside go by a registry
that is not the one outside.

What carries the proofs is the ledger of an emission: the calls that it made, read off from the
marks, followed by those that it has yet to make.  It is empty until the emission begins, it is the
list of those registered when it does, and no move changes it from then on: calling a listener moves
its call from one part to the other, and nothing else touches either.  Who is registered is read off
from what was done before.

## Main definitions

* `Script.Scene.calls`, `Script.Play.outstanding`, `Script.Play.ledger`: the calls of an emission.
* `Script.Move.removes`, `Script.Registered`: who is registered, by what was done.
* `Script.Play.Spent`: a number under which nobody is registered any more.
* `Script.Delivered`, `Script.Exact`: what becomes of an emission, and what is true of all of them.

## Main results

* `Script.Play.ledger_move`, `Script.Play.ledger_run_emit`: the ledger of an emission, move by move
  and at any later time.
* `Script.Play.mem_audience_iff`: who is registered.
* `Script.delivery_is_exact`: emissions call those registered when they begin, each once, and nobody
  else.
-/

namespace CursorContext.Script

/-! ### Calls -/

/-- The number, the name and the event of a call that an emission made. -/
def Mark.callOf? (emission : Nat) : Mark → Option (Nat × String × Int)
  | .began _ _ => none
  | .called by_ id name event => if by_ = emission then some (id, name, event) else none

/-- The calls that an emission made, in order. -/
def Scene.calls (s : Scene) (emission : Nat) : List (Nat × String × Int) :=
  s.marks.toList.filterMap (Mark.callOf? emission)

/-- One call of each listener, with an event. -/
def callsOf (event : Int) (listeners : List (Nat × Listener)) : List (Nat × String × Int) :=
  listeners.map fun x => (x.1, x.2.name, event)

/-- The calls that an emission has yet to make. -/
def Play.outstanding (p : Play) (emission : Nat) : List (Nat × String × Int) :=
  p.deliveries.flatMap fun d => if d.emission = emission then callsOf d.event d.waiting else []

/-- All calls of an emission, those that it made and those that it has yet to make. -/
def Play.ledger (p : Play) (emission : Nat) : List (Nat × String × Int) :=
  p.scene.calls emission ++ p.outstanding emission

namespace Scene

variable {s : Scene}

theorem calls_mark (s : Scene) (m : Mark) (n : Nat) :
    (s.mark m).calls n = s.calls n ++ (m.callOf? n).toList := by
  rw [calls, mark, Array.toList_push, List.filterMap_append]
  cases hm : m.callOf? n with
  | none => rw [List.filterMap_cons_none hm, List.filterMap_nil]; rfl
  | some c => rw [List.filterMap_cons_some hm, List.filterMap_nil]; rfl

theorem marks_subscribe (s : Scene) (l : Listener) : (s.subscribe l).marks = s.marks := by
  obtain ⟨_ | r, handles, marks⟩ := s <;> rfl

theorem marks_detach (s : Scene) (handle : Nat) (after : Handle) :
    (s.detach handle after).marks = s.marks := by
  unfold detach
  split <;> rfl

end Scene

namespace Play

variable {p : Play}

/-- What is not part of an emission leaves no mark. -/
theorem marks_of_not_delivers {m : Move} (h : m.delivers = false) :
    (p.move m).scene.marks = p.scene.marks ∧ (p.move m).deliveries = p.deliveries := by
  cases m with
  | subscribe l => exact ⟨Scene.marks_subscribe _ l, rfl⟩
  | unsubscribe handle => exact ⟨Scene.marks_detach _ handle _, rfl⟩
  | release handle => exact ⟨Scene.marks_detach _ handle _, rfl⟩
  | close => exact ⟨rfl, rfl⟩
  | _ => cases h

/-- A move leaves at most one mark: that of an emission that begins, or that of a call. -/
theorem marks_cases (p : Play) (m : Move) :
    (p.move m).scene.marks = p.scene.marks ∨
    (∃ event, m = .emit event ∧ p.scene.emitter.isSome = true ∧
      (p.move m).scene.marks
        = p.scene.marks.push (.began event (p.scene.audience.map (·.1)))) ∨
    ∃ emission id name event,
      (p.move m).scene.marks = p.scene.marks.push (.called emission id name event) := by
  cases m with
  | emit event =>
    rcases p.emit_cases event with ⟨-, hmove⟩ | ⟨r, hr, hmove⟩
    · exact .inl (by rw [hmove])
    · exact .inr (.inl ⟨event, rfl, by rw [hr]; rfl, by rw [hmove]; rfl⟩)
  | next =>
    rcases p.next_cases with hmove | ⟨emission, event, id, l, _, _, -, hmove⟩
    · exact .inl (by rw [hmove])
    · exact .inr (.inr ⟨emission, id, l.name, event, by rw [hmove]; rfl⟩)
  | finish =>
    rcases p.finish_cases with hmove | ⟨_, _, _, -, hmove⟩ <;> exact .inl (by rw [hmove])
  | _ => exact .inl (marks_of_not_delivers rfl).1

/-- What happened stays. -/
theorem marks_move (p : Play) (m : Move) :
    p.scene.marks.toList <+: (p.move m).scene.marks.toList := by
  rcases p.marks_cases m with hmarks | ⟨_, -, -, hmarks⟩ | ⟨_, _, _, _, hmarks⟩
  · simp only [hmarks, List.prefix_rfl]
  · rw [hmarks, Array.toList_push]
    exact List.prefix_append _ _
  · rw [hmarks, Array.toList_push]
    exact List.prefix_append _ _

theorem marks_run (p : Play) (moves : List Move) :
    p.scene.marks.toList <+: (p.run moves).scene.marks.toList := by
  induction moves generalizing p with
  | nil => exact List.prefix_rfl
  | cons m rest ih => exact (p.marks_move m).trans (ih _)

theorem mark_run {n : Nat} {x : Mark} (h : p.scene.marks[n]? = some x) (moves : List Move) :
    (p.run moves).scene.marks[n]? = some x := by
  obtain ⟨more, hmore⟩ := p.marks_run moves
  rw [← Array.getElem?_toList] at h ⊢
  rw [← hmore, List.getElem?_append_left (List.getElem?_eq_some_iff.mp h).1, h]

/-! ### The calls of an emission -/

/-- There are no calls of emissions that did not begin. -/
def Fresh (p : Play) : Prop := ∀ n ≥ p.scene.marks.size, p.ledger n = []

theorem fresh_start : start.Fresh := fun _ _ => rfl

/-- An emission leaves a mark when it begins, -/
theorem size_marks_emit (hsome : p.scene.emitter.isSome = true) (event : Int) :
    (p.move (.emit event)).scene.marks.size = p.scene.marks.size + 1 := by
  rw [move_emit hsome]
  exact Array.size_push _

/-- which says who is registered, -/
theorem began_emit (hsome : p.scene.emitter.isSome = true) (event : Int) :
    (p.move (.emit event)).scene.marks[p.scene.marks.size]?
      = some (.began event (p.scene.audience.map (·.1))) := by
  rw [move_emit hsome]
  exact Array.getElem?_push_size

/-- and it has yet to call all of them. -/
theorem ledger_emit (h : p.Fresh) (hsome : p.scene.emitter.isSome = true) (event : Int) :
    (p.move (.emit event)).ledger p.scene.marks.size = callsOf event p.scene.audience := by
  have hnone : p.scene.calls p.scene.marks.size = [] ∧ p.outstanding p.scene.marks.size = [] :=
    List.append_eq_nil_iff.mp (h p.scene.marks.size (Nat.le_refl _))
  rw [move_emit hsome, ledger, Scene.calls_mark, hnone.1, outstanding, List.flatMap_cons,
    if_pos rfl]
  exact (congrArg (callsOf event p.scene.audience ++ ·) hnone.2).trans (List.append_nil _)

/-- The calls of an emission stay the same, unless it begins just then: calling a listener is moving
its call from those to be made to those that were made. -/
theorem ledger_move (p : Play) (m : Move) (n : Nat) :
    (p.move m).ledger n = p.ledger n ∨
    ∃ event, m = .emit event ∧ p.scene.emitter.isSome = true ∧ n = p.scene.marks.size := by
  have hrest : m.delivers = false → (p.move m).ledger n = p.ledger n := by
    intro hm
    obtain ⟨hmarks, hdeliveries⟩ := marks_of_not_delivers (p := p) hm
    rw [ledger, ledger, Scene.calls, Scene.calls, outstanding, outstanding, hmarks, hdeliveries]
  cases m with
  | emit event =>
    rcases p.emit_cases event with ⟨-, hmove⟩ | ⟨r, hr, hmove⟩
    · exact .inl (by rw [hmove])
    by_cases hn : p.scene.marks.size = n
    · exact .inr ⟨event, rfl, by rw [hr]; rfl, hn.symm⟩
    · refine .inl ?_
      rw [hmove, ledger, ledger, Scene.calls_mark, outstanding, List.flatMap_cons, if_neg hn]
      exact congrArg (· ++ _) (List.append_nil _)
  | next =>
    rcases p.next_cases with hmove | ⟨emission, event, id, l, rest, outer, hold, hmove⟩
    · exact .inl (by rw [hmove])
    · refine .inl ?_
      rw [hmove, ledger, ledger, Scene.calls_mark, outstanding, outstanding, hold,
        List.flatMap_cons, List.flatMap_cons, Mark.callOf?]
      split
      · exact List.append_assoc _ _ _
      · rw [Option.toList_none, List.append_nil]
  | finish =>
    rcases p.finish_cases with hmove | ⟨emission, event, outer, hold, hmove⟩
    · exact .inl (by rw [hmove])
    · refine .inl ?_
      rw [hmove, ledger, ledger, outstanding, outstanding, hold, List.flatMap_cons]
      split <;> rfl
  | _ => exact .inl (hrest rfl)

theorem fresh_move (h : p.Fresh) (m : Move) : (p.move m).Fresh := by
  intro n hn
  have hold : p.scene.marks.size ≤ n := Nat.le_trans (p.marks_move m).length_le hn
  rcases p.ledger_move m n with hsame | ⟨event, rfl, hsome, rfl⟩
  · rw [hsame, h n hold]
  · rw [size_marks_emit hsome] at hn
    exact absurd hn (Nat.not_succ_le_self _)

theorem fresh_run (h : p.Fresh) (moves : List Move) : (p.run moves).Fresh := by
  induction moves generalizing p with
  | nil => exact h
  | cons m rest ih => exact ih (fresh_move h m)

/-- The calls of an emission that began stay the same. -/
theorem ledger_run {n : Nat} (hn : n < p.scene.marks.size) (moves : List Move) :
    (p.run moves).ledger n = p.ledger n := by
  induction moves generalizing p with
  | nil => rfl
  | cons m rest ih =>
    have hlater : n < (p.move m).scene.marks.size :=
      Nat.lt_of_lt_of_le hn (p.marks_move m).length_le
    rw [run_cons, ih hlater]
    exact (p.ledger_move m n).resolve_right fun ⟨_, _, _, hsize⟩ => Nat.ne_of_lt hn hsize

/-- The calls of an emission, at any time after it began. -/
theorem ledger_run_emit (h : p.Fresh) (hsome : p.scene.emitter.isSome = true) (event : Int)
    (during : List Move) :
    (p.run (.emit event :: during)).ledger p.scene.marks.size
      = callsOf event p.scene.audience := by
  have hlater : p.scene.marks.size < (p.move (.emit event)).scene.marks.size := by
    rw [size_marks_emit hsome]
    exact Nat.lt_succ_self _
  rw [run_cons, ledger_run hlater, ledger_emit h hsome]

/-- An emission that is not going on has no calls to make. -/
theorem outstanding_of_over {n : Nat} (h : ∀ d ∈ p.deliveries, d.emission ≠ n) :
    p.outstanding n = [] :=
  List.flatMap_eq_nil_iff.mpr fun d hd => if_neg (h d hd)

/-- Every call is one of an emission that began. -/
theorem exists_emit_of_mem_ledger (moves : List Move) {n : Nat} {c : Nat × String × Int}
    (hc : c ∈ (start.run moves).ledger n) :
    ∃ past event during, moves = past ++ .emit event :: during ∧
      (start.run past).scene.emitter.isSome = true ∧ n = (start.run past).scene.marks.size := by
  induction moves using List.reverseRecOn with
  | nil => cases hc
  | append_singleton moves m ih =>
    rw [run_append] at hc
    rcases (start.run moves).ledger_move m n with hsame | ⟨event, rfl, hsome, hn⟩
    · obtain ⟨past, event, during, rfl, hbegan⟩ := ih (hsame ▸ hc)
      exact ⟨past, event, during ++ [m], List.append_assoc _ _ _, hbegan⟩
    · exact ⟨moves, event, [], rfl, hsome, hn⟩

end Play

/-! ### Who is registered -/

/-- Whether it takes the listener of a number away. -/
def Move.removes (k : Nat) : Move → Bool
  | .close => true
  | m => m.detaches k

/-- Emissions take nobody away. -/
theorem delivers_of_removes {k : Nat} {m : Move} (h : m.removes k = true) : m.delivers = false := by
  cases m with
  | emit event => cases h
  | next => cases h
  | finish => cases h
  | _ => rfl

/-- Under a number, a listener was subscribed and not taken away since: its number is how many
subscriptions there were before, as long as the emitter was there. -/
def Registered (moves : List Move) (k : Nat) (l : Listener) : Prop :=
  ∃ past rest, moves = past ++ .subscribe l :: rest ∧ .close ∉ past ∧
    past.countP Move.subscribes = k ∧ ∀ x ∈ rest, x.removes k = false

namespace Scene.Mirrors

variable {s : Scene}

/-- Numbers in the order in which they were issued. -/
theorem pairwise_audience (h : s.Mirrors) : (s.audience.map (·.1)).Pairwise (· < ·) := by
  cases hr : s.emitter with
  | none => rw [audience_of_none hr]; exact .nil
  | some r => rw [ids_audience hr]; exact (h.issued hr).2

/-- Whoever is registered has a number that was issued. -/
theorem lt_of_mem (h : s.Mirrors) {x : Nat × Listener} (hx : x ∈ s.audience) {k : Nat}
    (hk : s.next? = some k) : x.1 < k := by
  obtain ⟨r, hr, rfl⟩ := Option.map_eq_some_iff.mp hk
  have hid : x.1 ∈ s.audience.map (·.1) := List.mem_map_of_mem hx
  rw [ids_audience hr] at hid
  exact (h.issued hr).1 x.1 hid

theorem mem_audience_detach (h : s.Mirrors) (handle : Nat) (after : Handle) (x : Nat × Listener) :
    x ∈ (s.detach handle after).audience ↔ x ∈ s.audience ∧ x.1 ≠ handle := by
  rw [h.audience_detach, List.mem_filter, bne_iff_ne]

end Scene.Mirrors

namespace Play

variable {p : Play}

/-- A subscription adds its own listener. -/
theorem mem_audience_subscribe (p : Play) (l : Listener) (x : Nat × Listener) :
    x ∈ (p.move (.subscribe l)).scene.audience ↔
      x ∈ p.scene.audience ∨ (x.2 = l ∧ p.scene.next? = some x.1) := by
  obtain ⟨⟨_ | r, handles, marks⟩, deliveries⟩ := p
  · exact ⟨.inl, fun hx => hx.elim id fun h => nomatch h.2⟩
  · show x ∈ (r.entries.push (r.next, l)).toList ↔
      x ∈ r.entries.toList ∨ (x.2 = l ∧ some r.next = some x.1)
    rw [Array.toList_push, List.mem_append, List.mem_singleton, Option.some_inj, Prod.ext_iff,
      and_comm, eq_comm (b := x.1)]

/-- Other moves add nobody, and take away whom they remove. -/
theorem mem_audience_of_not_subscribes (h : p.scene.Mirrors) {m : Move} (hm : m.subscribes = false)
    (x : Nat × Listener) :
    x ∈ (p.move m).scene.audience ↔ x ∈ p.scene.audience ∧ m.removes x.1 = false := by
  have hdelivers : m.delivers = true →
      (x ∈ (p.move m).scene.audience ↔ x ∈ p.scene.audience) := by
    intro hd
    rw [Scene.audience, Scene.audience, (scene_of_delivers hd).1]
  have hdetach : ∀ (handle : Nat) (after : Handle), x ∈ (p.scene.detach handle after).audience ↔
      x ∈ p.scene.audience ∧ (handle == x.1) = false := by
    intro handle after
    rw [h.mem_audience_detach, beq_eq_false_iff_ne, ne_comm]
  cases m with
  | subscribe l => cases hm
  | unsubscribe handle => exact hdetach handle _
  | release handle => exact hdetach handle _
  | close =>
    constructor
    · intro hx
      cases hx
    · rintro ⟨-, hx⟩
      cases hx
  | emit event => exact (hdelivers rfl).trans (and_iff_left rfl).symm
  | next => exact (hdelivers rfl).trans (and_iff_left rfl).symm
  | finish => exact (hdelivers rfl).trans (and_iff_left rfl).symm

/-- A listener is registered by its subscription, and as long as nothing takes it away. -/
theorem mem_audience_move (h : p.scene.Mirrors) (m : Move) (x : Nat × Listener) :
    x ∈ (p.move m).scene.audience ↔
      (x ∈ p.scene.audience ∧ m.removes x.1 = false) ∨
      (m = .subscribe x.2 ∧ p.scene.next? = some x.1) := by
  have hother : m.subscribes = false → (x ∈ (p.move m).scene.audience ↔
      (x ∈ p.scene.audience ∧ m.removes x.1 = false) ∨
      (m = .subscribe x.2 ∧ p.scene.next? = some x.1)) := by
    intro hm
    rw [mem_audience_of_not_subscribes h hm, or_iff_left]
    rintro ⟨rfl, -⟩
    cases hm
  cases m with
  | subscribe l =>
    rw [mem_audience_subscribe, Move.subscribe.injEq, eq_comm (a := l)]
    exact or_congr_left (and_iff_left rfl).symm
  | _ => exact hother rfl

/-- **Who is registered**, read off from what was done. -/
theorem mem_audience_iff (moves : List Move) (k : Nat) (l : Listener) :
    (k, l) ∈ (start.run moves).scene.audience ↔ Registered moves k l := by
  have hstep : ∀ (past : List Move) (m : Move),
      (k, l) ∈ (start.run (past ++ [m])).scene.audience ↔
        ((k, l) ∈ (start.run past).scene.audience ∧ m.removes k = false) ∨
        (m = .subscribe l ∧ Move.close ∉ past ∧ past.countP Move.subscribes = k) := by
    intro past m
    rw [run_append, run_cons, run_nil, mem_audience_move (mirrors_run Scene.mirrors_start past),
      next?_eq_some_iff]
  rw [since_iff (P := fun moves => (k, l) ∈ (start.run moves).scene.audience)
    (fun h => nomatch h) hstep moves]
  constructor
  · rintro ⟨past, m, rest, hsplit, ⟨rfl, hopen, hk⟩, hkeeps⟩
    exact ⟨past, rest, hsplit, hopen, hk, hkeeps⟩
  · rintro ⟨past, rest, hsplit, hopen, hk, hkeeps⟩
    exact ⟨past, _, rest, hsplit, ⟨rfl, hopen, hk⟩, hkeeps⟩

/-- Emissions can always go on: each calls those that wait, the innermost first, and is over. -/
theorem exists_run_over (deliveries : List Delivery) (s : Scene) :
    ∃ more, ((⟨s, deliveries⟩ : Play).run more).deliveries = [] := by
  induction deliveries generalizing s with
  | nil => exact ⟨[], rfl⟩
  | cons d outer ih =>
    obtain ⟨emission, event, waiting⟩ := d
    induction waiting generalizing s with
    | nil =>
      obtain ⟨more, hmore⟩ := ih s
      exact ⟨.finish :: more, hmore⟩
    | cons x rest ihrest =>
      obtain ⟨more, hmore⟩ := ihrest (s.mark (.called emission x.1 x.2.name event))
      exact ⟨.next :: more, hmore⟩

/-! ### Who is called when -/

/-- Nobody is registered under a number that was issued, and nobody will be. -/
def Spent (k : Nat) (p : Play) : Prop :=
  ∀ next, p.scene.next? = some next → k < next ∧ ∀ x ∈ p.scene.audience, x.1 ≠ k

/-- Numbers are not issued again. -/
theorem Spent.move {k : Nat} (h : p.Spent k) (hp : p.scene.Mirrors) (m : Move) :
    (p.move m).Spent k := by
  intro next hnext
  obtain ⟨before, hbefore, hle⟩ := next?_move_le hnext
  obtain ⟨hlt, hnot⟩ := h before hbefore
  refine ⟨Nat.lt_of_lt_of_le hlt hle, fun x hx => ?_⟩
  rcases (mem_audience_move hp m x).mp hx with ⟨hold, -⟩ | ⟨-, hnew⟩
  · exact hnot x hold
  · rw [hbefore] at hnew
    cases hnew
    exact Nat.ne_of_gt hlt

/-- A number is over once its listener is taken away. -/
theorem spent_of_removes {k : Nat} (hp : p.scene.Mirrors)
    (hk : ∀ next, p.scene.next? = some next → k < next) {m : Move} (hm : m.removes k = true) :
    (p.move m).Spent k := by
  intro next hnext
  obtain ⟨before, hbefore, hle⟩ := next?_move_le hnext
  refine ⟨Nat.lt_of_lt_of_le (hk before hbefore) hle, fun x hx => ?_⟩
  rcases (mem_audience_move hp m x).mp hx with ⟨-, hkeeps⟩ | ⟨rfl, -⟩
  · rintro rfl
    rw [hm] at hkeeps
    cases hkeeps
  · cases hm

/-- No emission that begins from then on calls a listener of that number. -/
theorem not_mem_ledger_of_spent {k : Nat} (hspent : p.Spent k) (hp : p.scene.Mirrors)
    (hfresh : p.Fresh) (moves : List Move) {n : Nat} (hn : p.scene.marks.size ≤ n) :
    ∀ c ∈ (p.run moves).ledger n, c.1 ≠ k := by
  induction moves generalizing p with
  | nil =>
    rw [run_nil, hfresh n hn]
    nofun
  | cons m rest ih =>
    rcases Nat.lt_or_ge n (p.move m).scene.marks.size with hbegan | hlater
    · intro c hc
      rw [run_cons, ledger_run hbegan] at hc
      rcases p.ledger_move m n with hsame | ⟨event, rfl, hsome, rfl⟩
      · rw [hsame, hfresh n hn] at hc
        cases hc
      · rw [ledger_emit hfresh hsome] at hc
        obtain ⟨x, hx, rfl⟩ := List.mem_map.mp hc
        obtain ⟨r, hr⟩ := Option.isSome_iff_exists.mp hsome
        exact (hspent r.next (by rw [Scene.next?, hr]; rfl)).2 x hx
    · exact ih (hspent.move hp m) (mirrors_move hp m) (fresh_move hfresh m) hlater

/-- Emissions call listeners under numbers that were issued. -/
theorem lt_of_mem_ledger (moves : List Move) {n : Nat} {c : Nat × String × Int}
    (hc : c ∈ (start.run moves).ledger n) {k : Nat}
    (hk : (start.run moves).scene.next? = some k) : c.1 < k := by
  induction moves using List.reverseRecOn generalizing k with
  | nil => cases hc
  | append_singleton moves m ih =>
    rw [run_append] at hc hk
    obtain ⟨before, hbefore, hle⟩ := next?_move_le hk
    refine Nat.lt_of_lt_of_le ?_ hle
    rcases (start.run moves).ledger_move m n with hsame | ⟨event, rfl, hsome, rfl⟩
    · exact ih (hsame ▸ hc) hbefore
    · have hledger : c ∈ callsOf event (start.run moves).scene.audience := by
        rw [← ledger_emit (fresh_run fresh_start moves) hsome event]
        exact hc
      obtain ⟨x, hx, rfl⟩ := List.mem_map.mp hledger
      exact (mirrors_run Scene.mirrors_start moves).lt_of_mem hx hbefore

/-- The mark of a beginning is that of an emission that began. -/
theorem exists_emit_of_began (moves : List Move) {n : Nat} {event : Int} {ids : List Nat}
    (h : (start.run moves).scene.marks[n]? = some (.began event ids)) :
    ∃ past event during, moves = past ++ .emit event :: during ∧
      (start.run past).scene.emitter.isSome = true ∧ n = (start.run past).scene.marks.size := by
  induction moves using List.reverseRecOn with
  | nil => cases h
  | append_singleton moves m ih =>
    rw [run_append, run_cons, run_nil] at h
    have hlater : (start.run moves).scene.marks[n]? = some (.began event ids) →
        ∃ past event during, moves ++ [m] = past ++ .emit event :: during ∧
          (start.run past).scene.emitter.isSome = true ∧
          n = (start.run past).scene.marks.size := by
      intro hold
      obtain ⟨past, event, during, rfl, hbegan⟩ := ih hold
      exact ⟨past, event, during ++ [m], List.append_assoc _ _ _, hbegan⟩
    rcases (start.run moves).marks_cases m with
      hmarks | ⟨event', rfl, hsome, hmarks⟩ | ⟨_, _, _, _, hmarks⟩
    · exact hlater (hmarks ▸ h)
    · rw [hmarks, Array.getElem?_push] at h
      split at h
      · next hn =>
        cases h
        exact ⟨moves, _, [], rfl, hsome, hn⟩
      · exact hlater h
    · rw [hmarks, Array.getElem?_push] at h
      split at h
      · cases h
      · exact hlater h

end Play

/-! ### Delivery -/

/-- What becomes of an emission that begins at some time, at a later time. -/
structure Delivered (p : Play) (event : Int) (q : Play) : Prop where
  /-- The mark of its beginning says who was registered. -/
  began : q.scene.marks[p.scene.marks.size]?
    = some (.began event (p.scene.audience.map (·.1)))
  /-- The calls that it made and those that it has yet to make are one for each listener that was
  registered at its beginning, with its event, in order. -/
  ledger : q.scene.calls p.scene.marks.size ++ q.outstanding p.scene.marks.size
    = callsOf event p.scene.audience
  /-- Once it is over, it called all of them. -/
  complete : (∀ d ∈ q.deliveries, d.emission ≠ p.scene.marks.size) →
    q.scene.calls p.scene.marks.size = callsOf event p.scene.audience

/-- What is true of emissions, whatever moves are made. -/
structure Exact (moves : List Move) : Prop where
  /-- Those are registered who were subscribed and not taken away since, -/
  registered : ∀ (k : Nat) (l : Listener),
    (k, l) ∈ (Play.start.run moves).scene.audience ↔ Registered moves k l
  /-- each once, in the order in which they subscribed. -/
  order : ((Play.start.run moves).scene.audience.map (·.1)).Pairwise (· < ·)
  /-- Each emission, whatever others it is nested in, calls those registered at its beginning. -/
  delivered : ∀ past event during, moves = past ++ .emit event :: during → .close ∉ past →
    Delivered (Play.start.run past) event (Play.start.run moves)
  /-- Emissions can always go on until all of them are over. -/
  ends : ∃ more, (Play.start.run (moves ++ more)).deliveries = []
  /-- Calls are made by emissions that began. -/
  origin : ∀ n, ∀ c ∈ (Play.start.run moves).scene.calls n, ∃ past event during,
    moves = past ++ .emit event :: during ∧ .close ∉ past ∧
    n = (Play.start.run past).scene.marks.size
  /-- No emission that begins after a listener was taken away calls it. -/
  removed : ∀ past m rest k, moves = past ++ m :: rest → k < past.countP Move.subscribes →
    m.removes k = true → ∀ n ≥ (Play.start.run past).scene.marks.size,
    ∀ c ∈ (Play.start.run moves).scene.calls n, c.1 ≠ k
  /-- No emission that began before a listener was subscribed calls it, -/
  added : ∀ past l rest, moves = past ++ .subscribe l :: rest → .close ∉ past →
    ∀ n < (Play.start.run past).scene.marks.size,
    ∀ c ∈ (Play.start.run moves).scene.calls n, c.1 ≠ past.countP Move.subscribes
  /-- and every emission that begins from then on does, until it is taken away. -/
  kept : ∀ past l between event during,
    moves = (past ++ .subscribe l :: between) ++ .emit event :: during → .close ∉ past →
    (∀ m ∈ between, m.removes (past.countP Move.subscribes) = false) →
    (past.countP Move.subscribes, l.name, event) ∈ (Play.start.run moves).ledger
      (Play.start.run (past ++ .subscribe l :: between)).scene.marks.size

namespace Play

/-- An emission, at the time of its beginning and at any later time. -/
theorem delivered_run {p : Play} (h : p.Fresh) (hsome : p.scene.emitter.isSome = true)
    (event : Int) (during : List Move) :
    Delivered p event (p.run (.emit event :: during)) := by
  have hledger : (p.run (.emit event :: during)).ledger p.scene.marks.size
      = callsOf event p.scene.audience := ledger_run_emit h hsome event during
  refine ⟨mark_run (began_emit hsome event) during, hledger, fun hover => ?_⟩
  rw [← hledger, ledger, outstanding_of_over hover, List.append_nil]

theorem exact_run (moves : List Move) : Exact moves where
  registered := mem_audience_iff moves
  order := (mirrors_run Scene.mirrors_start moves).pairwise_audience
  delivered := by
    rintro past event during rfl hopen
    rw [run_append]
    exact delivered_run (fresh_run fresh_start past) ((isSome_run_iff past).mpr hopen) event during
  ends := by
    obtain ⟨more, hmore⟩ := exists_run_over (start.run moves).deliveries (start.run moves).scene
    exact ⟨more, by rw [run_append]; exact hmore⟩
  origin := by
    intro n c hc
    obtain ⟨past, event, during, hsplit, hsome, hn⟩ :=
      exists_emit_of_mem_ledger moves (List.mem_append_left _ hc)
    exact ⟨past, event, during, hsplit, (isSome_run_iff past).mp hsome, hn⟩
  removed := by
    rintro past m rest k rfl hk hm n hn c hc
    have hp : (start.run past).scene.Mirrors := mirrors_run Scene.mirrors_start past
    have hissued : ∀ next, (start.run past).scene.next? = some next → k < next := by
      intro next hnext
      rwa [← ((next?_eq_some_iff past next).mp hnext).2]
    have hspent : ((start.run past).move m).Spent k := spent_of_removes hp hissued hm
    have hmarks : ((start.run past).move m).scene.marks.size ≤ n := by
      rw [(marks_of_not_delivers (delivers_of_removes hm)).1]
      exact hn
    rw [run_append, run_cons] at hc
    exact not_mem_ledger_of_spent hspent (mirrors_move hp m)
      (fresh_move (fresh_run fresh_start past) m) rest hmarks c (List.mem_append_left _ hc)
  added := by
    rintro past l rest rfl hopen n hn c hc
    have hledger : c ∈ (start.run past).ledger n := by
      rw [← ledger_run hn (.subscribe l :: rest), ← run_append]
      exact List.mem_append_left _ hc
    exact Nat.ne_of_lt (lt_of_mem_ledger past hledger (next?_run hopen))
  kept := by
    rintro past l between event during rfl hopen hkeeps
    have hregistered : Registered (past ++ .subscribe l :: between)
        (past.countP Move.subscribes) l := ⟨past, between, rfl, hopen, rfl, hkeeps⟩
    have hmem := (mem_audience_iff _ _ l).mpr hregistered
    have hsome : (start.run (past ++ .subscribe l :: between)).scene.emitter.isSome = true := by
      refine (isSome_run_iff _).mpr fun hclose => ?_
      rcases List.mem_append.mp hclose with hmem | hmem
      · exact hopen hmem
      · have hbetween : Move.close ∈ between := (List.mem_cons.mp hmem).resolve_left nofun
        exact nomatch hkeeps _ hbetween
    rw [run_append, ledger_run_emit (fresh_run fresh_start _) hsome]
    exact List.mem_map_of_mem hmem

end Play

/-- **Delivery is exact**, whatever listeners do while they are called: emissions call those that
were registered when they began, each once, in order, with their event, and nobody else.  Emissions
of scripted listeners, nested or not, are among them. -/
theorem delivery_is_exact :
    (∀ moves : List Move, Exact moves) ∧
    (∀ (moves : List Move) (depth : Nat) (event : Int) (s : Scene), .close ∉ moves →
      emit depth event (Play.start.run moves).scene = some s →
      (∃ during : List Move, Play.start.run (moves ++ .emit event :: during)
        = ⟨s, (Play.start.run moves).deliveries⟩) ∧
      s.calls (Play.start.run moves).scene.marks.size
        = callsOf event (Play.start.run moves).scene.audience) ∧
    ∀ (depth : Nat) (actions : List Action) (n : Nat) (event : Int) (ids : List Nat),
      (actions.foldl (fun s a => perform depth a s) Scene.start).marks[n]?
        = some (.began event ids) →
      ((actions.foldl (fun s a => perform depth a s) Scene.start).calls n).map (·.1) = ids ∧
      ids.Pairwise (· < ·) ∧
      ∀ c ∈ (actions.foldl (fun s a => perform depth a s) Scene.start).calls n, c.2.2 = event := by
  refine ⟨Play.exact_run, fun moves depth event s hopen h => ?_,
    fun depth actions n event ids h => ?_⟩
  · have hsome := (Play.isSome_run_iff moves).mpr hopen
    have hfresh := Play.fresh_run Play.fresh_start moves
    obtain ⟨during, hduring⟩ :=
      byMoves_emit depth event _ s hsome h (Play.start.run moves).deliveries
    refine ⟨⟨during, (Play.run_append _ _ _).trans hduring⟩, ?_⟩
    -- the emissions around it are older, so all calls of its own are made
    have houter := (List.append_eq_nil_iff.mp (hfresh _ (Nat.le_refl _))).2
    rw [← Play.ledger_run_emit hfresh hsome event during, hduring]
    exact ((congrArg (s.calls _ ++ ·) houter).trans (List.append_nil _)).symm
  · obtain ⟨moves, hmoves⟩ := leads_performAll depth actions .start []
    generalize actions.foldl (fun s a => perform depth a s) Scene.start = s at h hmoves ⊢
    have hrun : Play.start.run moves = ⟨s, []⟩ := hmoves
    have hbegan : (Play.start.run moves).scene.marks[n]? = some (.began event ids) := by
      rw [hrun]
      exact h
    obtain ⟨past, event', during, rfl, hsome, rfl⟩ := Play.exists_emit_of_began moves hbegan
    have hopen := (Play.isSome_run_iff past).mp hsome
    have hdelivered := (Play.exact_run _).delivered past event' during rfl hopen
    -- its mark says what its event was and who was registered
    rw [hdelivered.began] at hbegan
    cases hbegan
    rw [hrun] at hdelivered
    rw [hdelivered.complete nofun]
    refine ⟨?_, (Play.exact_run past).order, ?_⟩
    · rw [callsOf, List.map_map]
      rfl
    · intro c hc
      obtain ⟨x, -, rfl⟩ := List.mem_map.mp hc
      rfl

/-- A listener that takes another one away, subscribes a third and emits again: the emission that
calls it goes on to the one that was taken away, and the one inside calls the third instead. -/
theorem delivery_is_exact_reentrant :
    let s := [Action.subscribe "a" [.unsubscribe 1, .subscribe "c" [], .relay],
      .subscribe "b" [], .emit 1].foldl (fun s a => perform 3 a s) Scene.start
    (s.calls 0).map (·.1) = [0, 1] ∧ (s.calls 2).map (·.1) = [0, 2] :=
  ⟨(delivery_is_exact.2.2 3 _ 0 1 [0, 1] (by decide +kernel)).1,
    (delivery_is_exact.2.2 3 _ 2 0 [0, 2] (by decide +kernel)).1⟩

end CursorContext.Script
