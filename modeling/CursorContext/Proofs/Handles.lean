import CursorContext.Proofs.Plays

/-!
# Handles and the registry

The registry and the handles are two records of who listens.  A handle takes its listener away when
it is unsubscribed, and again when it is let go of, and it may outlive the emitter.  What ties the
two together is that handles are made one by one, each with the next number: the number of a
listener is the place of its handle, and the registry holds the listeners whose handles are active.

## Main definitions

* `Script.Scene.isActive`, `Script.Move.detaches`: who is subscribed, and what ends it.
* `Script.Scene.Mirrors`: the registry holds those whose handles are active.
* `Script.Roll`: what the registry and the handles have to do with each other.

## Main results

* `Script.Play.mirrors_run`: the registry mirrors the handles at any time.
* `Script.Play.isActive_run`: whose handles are active, by what was done.
* `Script.registry_mirrors_handles`: what this says about numbers, counts, and handles that are
  detached, more than once or without an emitter.
-/

namespace CursorContext.Script

/-! ### Detaching a handle -/

/-- The handle is neither unsubscribed nor gone. -/
def Handle.isActive (h : Handle) : Bool := h.active? == some true

theorem Handle.isActive_iff {h : Handle} : h.isActive = true ↔ ∃ id, h = .active id := by
  cases h with
  | active id => exact ⟨fun _ => ⟨id, rfl⟩, fun _ => rfl⟩
  | inactive => exact ⟨nofun, nofun⟩
  | released => exact ⟨nofun, nofun⟩

namespace Scene

variable {s s' : Scene}

/-- The handle is active, under its own number. -/
def isActive (s : Scene) (handle : Nat) : Bool := s.handles[handle]? == some (.active handle)

theorem isActive_iff {k : Nat} : s.isActive k = true ↔ s.handles[k]? = some (.active k) :=
  beq_iff_eq

section Detach

variable {handle id k : Nat} {after : Handle}

theorem size_detach (s : Scene) (handle : Nat) (after : Handle) :
    (s.detach handle after).handles.size = s.handles.size := by
  unfold detach
  split
  · exact Array.size_setIfInBounds
  · exact Array.size_setIfInBounds
  · rfl

/-- Other handles stay as they are. -/
theorem getElem?_detach_of_ne (s : Scene) (after : Handle) (h : handle ≠ k) :
    (s.detach handle after).handles[k]? = s.handles[k]? := by
  unfold detach
  split
  · exact Array.getElem?_setIfInBounds_ne h
  · exact Array.getElem?_setIfInBounds_ne h
  · rfl

/-- A handle that was detached is not active. -/
theorem not_active_detach (s : Scene) (handle id : Nat) (hafter : ∀ id, after ≠ .active id) :
    (s.detach handle after).handles[handle]? ≠ some (.active id) := by
  have hset : ∀ handles : Array Handle,
      (handles.setIfInBounds handle after)[handle]? ≠ some (.active id) := by
    intro handles
    rw [Array.getElem?_setIfInBounds_self]
    split
    · exact fun h => hafter id (Option.some.inj h)
    · exact nofun
  unfold detach
  split
  · exact hset _
  · exact hset _
  · next hother _ => exact hother id

/-- Detaching makes its own handle inactive, and no other. -/
theorem isActive_detach (s : Scene) (handle : Nat) (hafter : ∀ id, after ≠ .active id) (k : Nat) :
    (s.detach handle after).isActive k = (s.isActive k && k != handle) := by
  by_cases hk : handle = k
  · rw [hk, bne_self_eq_false, Bool.and_false, Bool.eq_false_iff, Ne, isActive_iff]
    exact not_active_detach s k k hafter
  · rw [isActive, isActive, getElem?_detach_of_ne s after hk, bne_iff_ne.mpr (Ne.symm hk),
      Bool.and_true]

/-- Without an emitter, all there is to a handle is its state. -/
theorem detach_of_closed (h : s.emitter = none) {state : Handle}
    (hs : s.handles[handle]? = some state) (hstate : state ≠ .released) (after : Handle) :
    s.detach handle after = { s with handles := s.handles.setIfInBounds handle after } := by
  cases state with
  | active id =>
    rw [detach, hs]
    show (⟨s.emitter.map _, _, _⟩ : Scene) = _
    rw [h]
    rfl
  | inactive => rw [detach, hs]
  | released => exact absurd rfl hstate

end Detach

/-! ### The registry mirrors the handles -/

/-- The registry holds those whose handles are active, under the numbers of these handles. -/
structure Mirrors (s : Scene) : Prop where
  /-- A handle knows its listener by its own number. -/
  own : ∀ handle id : Nat, s.handles[handle]? = some (.active id) → id = handle
  /-- As long as the emitter is there, every subscription makes a handle. -/
  next : ∀ r, s.emitter = some r → r.next = s.handles.size
  /-- Listeners are registered as long as their handles are active. -/
  ids : ∀ r, s.emitter = some r → r.ids = (List.range s.handles.size).filter s.isActive

theorem mirrors_start : start.Mirrors where
  own := fun handle id h => by cases h
  next := fun r hr => by cases hr; rfl
  ids := fun r hr => by cases hr; rfl

namespace Mirrors

variable {r : Registry Listener}

/-- Where neither the emitter nor handles change, nothing does. -/
theorem of_eq (h : s.Mirrors) (he : s'.emitter = s.emitter) (hh : s'.handles = s.handles) :
    s'.Mirrors := by
  have hactive : s'.isActive = s.isActive := by
    funext k
    rw [isActive, isActive, hh]
  refine ⟨?_, ?_, ?_⟩
  · rw [hh]
    exact h.own
  · rw [he, hh]
    exact h.next
  · rw [he, hh, hactive]
    exact h.ids

theorem close (h : s.Mirrors) : ({ s with emitter := none } : Scene).Mirrors where
  own := h.own
  next := fun r hr => by cases hr
  ids := fun r hr => by cases hr

/-- A listener more has a handle that is active. -/
theorem subscribe (h : s.Mirrors) (l : Listener) : (s.subscribe l).Mirrors := by
  obtain ⟨_ | r, handles, marks⟩ := s
  · exact h
  have hnext : r.next = handles.size := h.next r rfl
  have hids : r.ids = (List.range handles.size).filter (isActive ⟨some r, handles, marks⟩) :=
    h.ids r rfl
  have hactive : ∀ k < handles.size,
      (Scene.subscribe ⟨some r, handles, marks⟩ l).isActive k
        = isActive ⟨some r, handles, marks⟩ k := by
    intro k hk
    show ((handles.push (.active r.next))[k]? == some (.active k)) = (handles[k]? == _)
    rw [Array.getElem?_push, if_neg (Nat.ne_of_lt hk)]
  have hlast : (Scene.subscribe ⟨some r, handles, marks⟩ l).isActive handles.size = true := by
    show ((handles.push (.active r.next))[handles.size]? == some (.active handles.size)) = true
    rw [Array.getElem?_push_size, hnext, beq_self_eq_true]
  refine ⟨?_, ?_, ?_⟩
  · intro k id hk
    have hpush : (handles.push (.active r.next))[k]? = some (.active id) := hk
    rw [Array.getElem?_push] at hpush
    split at hpush
    · next heq =>
      cases hpush
      rw [heq, hnext]
    · exact h.own k id hpush
  · intro r' hr'
    cases hr'
    show r.next + 1 = (handles.push _).size
    rw [Array.size_push, hnext]
  · intro r' hr'
    cases hr'
    show (r.subscribe l).2.ids = (List.range (handles.push (.active r.next)).size).filter _
    rw [Registry.ids_subscribe, Array.size_push, List.range_succ, List.filter_append,
      List.filter_cons_of_pos hlast, List.filter_nil, hids, hnext]
    congr 1
    exact List.filter_congr fun k hk => (hactive k (List.mem_range.mp hk)).symm

/-- Detaching a handle takes away the listener of its number: if the handle is not active, there is
none any more. -/
theorem emitter_detach (h : s.Mirrors) (handle : Nat) (after : Handle) :
    (s.detach handle after).emitter = s.emitter.map (·.remove handle) := by
  have hnone : s.isActive handle = false → s.emitter = s.emitter.map (·.remove handle) := by
    intro hnot
    cases hr : s.emitter with
    | none => rfl
    | some r =>
      have hid : handle ∉ r.ids := by
        rw [h.ids r hr, List.mem_filter, hnot]
        exact fun hmem => nomatch hmem.2
      rw [Option.map_some, Registry.remove_of_not_mem hid]
  unfold Scene.detach
  split
  · next id hid => rw [h.own handle id hid]
  · next hid => exact hnone (by rw [isActive, hid]; rfl)
  · next hother _ =>
    exact hnone (Bool.eq_false_iff.mpr fun hactive => hother handle (isActive_iff.mp hactive))

/-- Whoever is detached is out, and nobody else. -/
theorem detach (h : s.Mirrors) (handle : Nat) {after : Handle} (hafter : ∀ id, after ≠ .active id) :
    (s.detach handle after).Mirrors := by
  refine ⟨?_, ?_, ?_⟩
  · intro k id hk
    by_cases heq : handle = k
    · subst heq
      exact absurd hk (not_active_detach s handle id hafter)
    · rw [getElem?_detach_of_ne s after heq] at hk
      exact h.own k id hk
  · intro r' hr'
    rw [h.emitter_detach] at hr'
    obtain ⟨r, hr, rfl⟩ := Option.map_eq_some_iff.mp hr'
    rw [size_detach]
    exact h.next r hr
  · intro r' hr'
    rw [h.emitter_detach] at hr'
    obtain ⟨r, hr, rfl⟩ := Option.map_eq_some_iff.mp hr'
    rw [Registry.ids_remove, h.ids r hr, List.filter_filter, size_detach]
    refine List.filter_congr fun k _ => ?_
    rw [isActive_detach s handle hafter, Bool.and_comm]

/-- Detaching takes its own listener away, and nobody else's. -/
theorem audience_detach (h : s.Mirrors) (handle : Nat) (after : Handle) :
    (s.detach handle after).audience = s.audience.filter (·.1 != handle) := by
  rw [audience, audience, h.emitter_detach]
  cases s.emitter with
  | none => rfl
  | some r => exact Array.toList_filter

/-! ### What is registered -/

theorem ids_audience (hr : s.emitter = some r) : s.audience.map (·.1) = r.ids := by
  rw [audience, hr]
  rfl

theorem audience_of_none (h : s.emitter = none) : s.audience = [] := by
  rw [audience, h]

theorem isActive_of_mem (h : s.Mirrors) {x : Nat × Listener} (hx : x ∈ s.audience) :
    s.isActive x.1 = true := by
  have hid : x.1 ∈ s.audience.map (·.1) := List.mem_map_of_mem hx
  cases hr : s.emitter with
  | none => rw [audience_of_none hr] at hx; cases hx
  | some r =>
    rw [ids_audience hr, h.ids r hr] at hid
    exact (List.mem_filter.mp hid).2

/-- Nobody is taken away by a handle that is not active. -/
theorem audience_detach_of_not_active (h : s.Mirrors) {handle : Nat}
    (hnot : s.isActive handle = false) (after : Handle) :
    (s.detach handle after).audience = s.audience := by
  rw [h.audience_detach, List.filter_eq_self]
  intro x hx
  rw [bne_iff_ne]
  rintro rfl
  rw [h.isActive_of_mem hx] at hnot
  cases hnot

/-- A handle under its own number is one that is neither unsubscribed nor gone. -/
theorem isActive_eq (h : s.Mirrors) (k : Nat) :
    s.isActive k = s.handles.toList[k]?.any Handle.isActive := by
  rw [Array.getElem?_toList, Bool.eq_iff_iff, isActive_iff, Option.any_eq_true]
  constructor
  · intro hk
    exact ⟨_, hk, Handle.isActive_iff.mpr ⟨k, rfl⟩⟩
  · rintro ⟨state, hk, hactive⟩
    obtain ⟨id, rfl⟩ := Handle.isActive_iff.mp hactive
    rw [hk, h.own k id hk]

/-- Counting places is counting what is there. -/
theorem countP_range (l : List Handle) (f : Option Handle → Bool) :
    (List.range l.length).countP (fun k => f l[k]?) = l.countP fun h => f (some h) := by
  induction l using List.reverseRecOn with
  | nil => rfl
  | append_singleton l h ih =>
    rw [List.length_append, List.length_singleton, List.range_succ, List.countP_append,
      List.countP_append, ← ih]
    congr 1
    · refine List.countP_congr fun k hk => ?_
      rw [List.getElem?_append_left (List.mem_range.mp hk)]
    · rw [List.countP_singleton, List.countP_singleton, List.getElem?_concat_length]

/-- There are as many listeners as active handles. -/
theorem count (h : s.Mirrors) (hr : s.emitter = some r) :
    r.count = s.handles.toList.countP Handle.isActive := by
  have hactive : s.isActive = fun k => s.handles.toList[k]?.any Handle.isActive :=
    funext h.isActive_eq
  rw [← Registry.length_ids, h.ids r hr, ← List.countP_eq_length_filter, hactive,
    ← Array.length_toList]
  exact countP_range s.handles.toList (Option.any Handle.isActive)

/-- Registered numbers were issued, and they are in the order in which they were. -/
theorem issued (h : s.Mirrors) (hr : s.emitter = some r) :
    (∀ id ∈ r.ids, id < r.next) ∧ r.ids.Pairwise (· < ·) := by
  rw [h.next r hr, h.ids r hr]
  refine ⟨fun id hid => ?_, List.pairwise_lt_range.filter _⟩
  exact List.mem_range.mp (List.mem_filter.mp hid).1

end Mirrors

end Scene

/-! ### Moves -/

/-- Whether it detaches a handle. -/
def Move.detaches (handle : Nat) : Move → Bool
  | .unsubscribe k => k == handle
  | .release k => k == handle
  | _ => false

namespace Play

variable {p : Play} {m : Move} {k : Nat}

theorem mirrors_move (h : p.scene.Mirrors) (m : Move) : (p.move m).scene.Mirrors := by
  have hdelivers : m.delivers = true → (p.move m).scene.Mirrors := fun hm =>
    h.of_eq (scene_of_delivers hm).1 (scene_of_delivers hm).2
  cases m with
  | subscribe l => exact h.subscribe l
  | unsubscribe handle => exact h.detach handle nofun
  | release handle => exact h.detach handle nofun
  | close => exact h.close
  | _ => exact hdelivers rfl

theorem mirrors_run (h : p.scene.Mirrors) (moves : List Move) : (p.run moves).scene.Mirrors := by
  induction moves generalizing p with
  | nil => exact h
  | cons m rest ih => exact ih (mirrors_move h m)

/-- Moves that are not subscriptions make no handle, and make those inactive that they detach. -/
theorem handles_of_not_subscribes (hm : m.subscribes = false) :
    (p.move m).scene.handles.size = p.scene.handles.size ∧
    ∀ k, (p.move m).scene.isActive k = (p.scene.isActive k && !m.detaches k) := by
  have hdetach : ∀ (handle : Nat) {after : Handle}, (∀ id, after ≠ .active id) →
      (p.scene.detach handle after).handles.size = p.scene.handles.size ∧
      ∀ k, (p.scene.detach handle after).isActive k = (p.scene.isActive k && !(handle == k)) := by
    intro handle after hafter
    refine ⟨Scene.size_detach _ _ _, fun k => ?_⟩
    rw [Scene.isActive_detach _ _ hafter, bne, Bool.beq_comm]
  have hdelivers : m.delivers = true → (p.move m).scene.handles.size = p.scene.handles.size ∧
      ∀ k, (p.move m).scene.isActive k = (p.scene.isActive k && !false) := by
    intro hd
    have hhandles := (scene_of_delivers (p := p) hd).2
    refine ⟨congrArg Array.size hhandles, fun k => ?_⟩
    rw [Scene.isActive, hhandles]
    exact (Bool.and_true _).symm
  cases m with
  | subscribe l => cases hm
  | unsubscribe handle => exact hdetach handle nofun
  | release handle => exact hdetach handle nofun
  | close => exact ⟨rfl, fun k => (Bool.and_true _).symm⟩
  | emit event => exact hdelivers rfl
  | next => exact hdelivers rfl
  | finish => exact hdelivers rfl

/-- A subscription makes one handle, which is active under the next number. -/
theorem handles_subscribe (h : p.scene.Mirrors) (l : Listener) :
    p.scene.handles.size ≤ (p.move (.subscribe l)).scene.handles.size ∧
    ∀ k, (p.move (.subscribe l)).scene.isActive k = true ↔
      p.scene.isActive k = true ∨ p.scene.next? = some k := by
  obtain ⟨⟨_ | r, handles, marks⟩, deliveries⟩ := p
  · exact ⟨Nat.le_refl _, fun k => (or_iff_left nofun).symm⟩
  have hnext : r.next = handles.size := h.next r rfl
  refine ⟨?_, fun k => ?_⟩
  · show handles.size ≤ (handles.push (.active r.next)).size
    rw [Array.size_push]
    exact Nat.le_succ _
  · show ((handles.push (.active r.next))[k]? == some (.active k)) = true ↔
      (handles[k]? == some (.active k)) = true ∨ some r.next = some k
    rw [Array.getElem?_push, Option.some_inj, hnext]
    split
    · next hk =>
      rw [hk, beq_self_eq_true]
      exact ⟨fun _ => .inr rfl, fun _ => rfl⟩
    · next hk => exact (or_iff_left (Ne.symm hk)).symm

/-- Nothing but a subscription makes a handle active, and nothing but detaching it ends that. -/
theorem isActive_move (h : p.scene.Mirrors) (m : Move) (k : Nat) :
    (p.move m).scene.isActive k = true ↔
      (p.scene.isActive k = true ∧ m.detaches k = false) ∨
      (m.subscribes = true ∧ p.scene.next? = some k) := by
  cases hm : m.subscribes with
  | false =>
    rw [(handles_of_not_subscribes hm).2, Bool.and_eq_true, Bool.not_eq_true']
    exact (or_iff_left nofun).symm
  | true =>
    obtain ⟨l, rfl⟩ : ∃ l, m = .subscribe l := by
      cases m with
      | subscribe l => exact ⟨l, rfl⟩
      | _ => cases hm
    rw [(handles_subscribe h l).2]
    exact or_congr (and_iff_left rfl).symm (and_iff_right rfl).symm

/-- **A handle is active from its subscription on**, until it is unsubscribed or let go of. -/
theorem isActive_run (moves : List Move) (k : Nat) :
    (start.run moves).scene.isActive k = true ↔
      ∃ past m rest, moves = past ++ m :: rest ∧
        (m.subscribes = true ∧ Move.close ∉ past ∧ past.countP Move.subscribes = k) ∧
        ∀ x ∈ rest, x.detaches k = false := by
  refine since_iff (P := fun moves => (start.run moves).scene.isActive k = true) nofun ?_ moves
  intro past m
  rw [run_append, ← next?_eq_some_iff]
  exact isActive_move (mirrors_run Scene.mirrors_start past) m k

/-- Handles stay, whatever becomes of them. -/
theorem size_move (h : p.scene.Mirrors) (m : Move) :
    p.scene.handles.size ≤ (p.move m).scene.handles.size := by
  cases m with
  | subscribe l => exact (handles_subscribe h l).1
  | _ => exact Nat.le_of_eq (handles_of_not_subscribes rfl).1.symm

/-- A handle that is not active never is again. -/
theorem not_isActive_run (h : p.scene.Mirrors) (hk : k < p.scene.handles.size)
    (hnot : p.scene.isActive k = false) (moves : List Move) :
    (p.run moves).scene.isActive k = false := by
  induction moves generalizing p with
  | nil => exact hnot
  | cons m rest ih =>
    refine ih (mirrors_move h m) (Nat.lt_of_lt_of_le hk (size_move h m)) ?_
    rw [Bool.eq_false_iff, Ne, isActive_move h]
    rintro (⟨hactive, -⟩ | ⟨-, hnext⟩)
    · rw [hnot] at hactive
      cases hactive
    · -- the number of a new handle was not there before
      obtain ⟨r, hr, rfl⟩ := Option.map_eq_some_iff.mp hnext
      rw [h.next r hr] at hk
      exact Nat.lt_irrefl _ hk

end Play

/-! ### The registry and the handles -/

/-- What the registry and the handles have to do with each other after some moves. -/
structure Roll (p : Play) : Prop where
  /-- A handle knows its listener by its own number, so no number is issued twice. -/
  own : ∀ handle id : Nat, p.scene.handles[handle]? = some (.active id) → id = handle
  /-- As long as the emitter is there, numbers are issued one after the other, one with each
  handle, and those of registered listeners are among them, each once. -/
  numbers : ∀ r, p.scene.emitter = some r → r.next = p.scene.handles.size ∧
    (∀ id ∈ r.ids, id < r.next) ∧ r.ids.Pairwise (· < ·)
  /-- The registered numbers are those of active handles. -/
  ids : ∀ r, p.scene.emitter = some r →
    r.ids = (List.range p.scene.handles.size).filter p.scene.isActive
  /-- So there are as many listeners as active handles. -/
  count : ∀ r, p.scene.emitter = some r →
    r.count = p.scene.handles.toList.countP Handle.isActive
  /-- Detaching a handle takes its own listener away and nobody else's, and makes no other handle
  inactive. -/
  detach : ∀ (handle : Nat) (after : Handle), (∀ id, after ≠ .active id) →
    (p.scene.detach handle after).audience = p.scene.audience.filter (·.1 != handle) ∧
    ∀ k, (p.scene.detach handle after).isActive k = (p.scene.isActive k && k != handle)
  /-- A handle that is not active takes nobody away, -/
  idle : ∀ (handle : Nat) (after : Handle), p.scene.isActive handle = false →
    (p.scene.detach handle after).audience = p.scene.audience
  /-- and it never is active again. -/
  once : ∀ k < p.scene.handles.size, p.scene.isActive k = false →
    ∀ more, (p.run more).scene.isActive k = false
  /-- An emitter that is gone never comes back. -/
  gone : p.scene.emitter = none → ∀ more, (p.run more).scene.emitter = none
  /-- Detaching a handle then changes the state of that handle, and nothing else. -/
  late : p.scene.emitter = none → ∀ (handle : Nat) (state after : Handle),
    p.scene.handles[handle]? = some state → state ≠ .released →
    p.scene.detach handle after
      = { p.scene with handles := p.scene.handles.setIfInBounds handle after }

theorem Play.roll_run (moves : List Move) : Roll (start.run moves) := by
  have hstart : start.scene.Mirrors := Scene.mirrors_start
  have hmirrors : (start.run moves).scene.Mirrors := mirrors_run hstart moves
  exact
    { own := hmirrors.own
      numbers := fun r hr => ⟨hmirrors.next r hr, hmirrors.issued hr⟩
      ids := hmirrors.ids
      count := fun r hr => hmirrors.count hr
      detach := fun handle after hafter =>
        ⟨hmirrors.audience_detach handle after, Scene.isActive_detach _ handle hafter⟩
      idle := fun handle after hnot => hmirrors.audience_detach_of_not_active hnot after
      once := fun k hk hnot => not_isActive_run hmirrors hk hnot
      gone := emitter_run
      late := fun hnone _ _ after hs hstate => Scene.detach_of_closed hnone hs hstate after }

/-- **The registry mirrors the handles** at any time of a play, in the middle of emissions too.
What scripted listeners do are plays, and a handle is active from its subscription on, until it is
unsubscribed or let go of; its number is how many subscriptions there were before. -/
theorem registry_mirrors_handles :
    (∀ moves : List Move, Roll (Play.start.run moves)) ∧
    (∀ (moves : List Move) (k : Nat), (Play.start.run moves).scene.isActive k = true ↔
      ∃ past m rest, moves = past ++ m :: rest ∧
        (m.subscribes = true ∧ Move.close ∉ past ∧ past.countP Move.subscribes = k) ∧
        ∀ x ∈ rest, x.detaches k = false) ∧
    (∀ (depth : Nat) (actions : List Action), ∃ moves : List Move,
      Play.start.run moves = ⟨actions.foldl (fun s a => perform depth a s) .start, []⟩) ∧
    ∀ (depth : Nat) (event : Int) (s s' : Scene), s.emitter.isSome = true →
      emit depth event s = some s' → ∀ outer, ∃ during : List Move,
      (⟨s, outer⟩ : Play).run (.emit event :: during) = ⟨s', outer⟩ :=
  ⟨Play.roll_run, Play.isActive_run,
    fun depth actions => leads_performAll depth actions .start [], byMoves_emit⟩

/-- In the middle of an emission a handle is unsubscribed and then let go of.  The other handle
outlives the emitter. -/
def detached : List Move :=
  [.subscribe ⟨"a", []⟩, .subscribe ⟨"b", []⟩, .emit 1, .next, .unsubscribe 0, .release 0, .next,
    .finish, .close, .unsubscribe 1]

/-- The second listener stays until the emitter is gone, and then its handle is only marked. -/
theorem registry_mirrors_handles_detached :
    Roll (Play.start.run (detached.take 6)) ∧ Roll (Play.start.run detached) ∧
    (Play.start.run (detached.take 6)).scene.emitter.map (·.ids) = some [1] ∧
    (Play.start.run (detached.take 6)).scene.handles = #[.released, .active 1] ∧
    (Play.start.run detached).scene.emitter.map (·.ids) = none ∧
    (Play.start.run detached).scene.handles = #[.released, .inactive] :=
  ⟨registry_mirrors_handles.1 _, registry_mirrors_handles.1 _, by decide +kernel,
    by decide +kernel, by decide +kernel, by decide +kernel⟩

end CursorContext.Script
