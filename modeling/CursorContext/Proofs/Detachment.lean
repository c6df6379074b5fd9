import CursorContext.Proofs.Disposal
import CursorContext.Session

/-!
# Who listens after the end of the cache

A session holds on to its listeners from the beginning: those of the host, with the cache among
them.  Unless the emitters are leaky, disposing of the cache takes the cache out, and nobody else.

* `Registry.Numbered` — no number is handed out twice.
* `Session.Tidy` — the cache listens exactly as long as it was not disposed of.
* `Session.Loose` — the same in the middle of a notification, when the cache may be disposed of and
  still be registered.
* `Session.tidy_perform`, `Session.tidy_advance` — sessions stay tidy with every step.
* `Session.disposal_is_final` — everything that the end of the cache puts an end to.
-/

namespace CursorContext

namespace Registry

variable {α : Type} {r : Registry α} {id : Nat} {listener : α}

/-- No number that was handed out is handed out again. -/
def Numbered (r : Registry α) : Prop := ∀ id ∈ r.ids, id < r.next

theorem numbered_empty : (empty : Registry α).Numbered := fun _ h => nomatch h

theorem Numbered.subscribe (h : r.Numbered) (listener : α) :
    (r.subscribe listener).2.Numbered := by
  intro id hid
  rw [ids_subscribe] at hid
  show id < r.next + 1
  rcases List.mem_append.mp hid with hid | hid
  · have := h id hid
    omega
  · rw [List.mem_singleton.mp hid]
    omega

/-- Removing a number twice is no more than removing it once. -/
theorem remove_remove (r : Registry α) (id : Nat) : (r.remove id).remove id = r.remove id := by
  simp [remove, Array.filter_filter]

theorem listeners_remove_subscribe_of_ne (h : id ≠ r.next) :
    ((r.subscribe listener).2.remove id).listeners = (r.remove id).listeners ++ [listener] := by
  simp [remove, subscribe, listeners, Ne.symm h]

/-- The listener that was registered last can be removed as if it had never been there. -/
theorem listeners_remove_subscribe (h : r.Numbered) :
    ((r.subscribe listener).2.remove r.next).listeners = r.listeners := by
  have hall : ∀ x ∈ r.entries.toList, (x.1 != r.next) = true := by
    intro x hx
    have hlt := h x.1 (List.mem_map_of_mem hx)
    simp only [bne_iff_ne]
    omega
  simp only [remove, subscribe, listeners, Array.toList_filter, Array.toList_push,
    List.filter_append, List.filter_eq_self.mpr hall]
  simp

end Registry

namespace Session

variable {F : Fetcher} {s s' first : Session F}

/-! ### The listeners at the beginning -/

theorem listeners_subscribeAll (r : Registry Hook) (hooks : List Hook) :
    (subscribeAll r hooks).listeners = r.listeners ++ hooks := by
  induction hooks generalizing r with
  | nil => simp [subscribeAll]
  | cons hook rest ih =>
    have hrest := ih (r.subscribe hook).2
    rw [Registry.listeners_subscribe, List.append_assoc] at hrest
    exact hrest

theorem numbered_subscribeAll {r : Registry Hook} (h : r.Numbered) (hooks : List Hook) :
    (subscribeAll r hooks).Numbered := by
  induction hooks generalizing r with
  | nil => exact h
  | cons hook rest ih => exact ih (h.subscribe hook)

/-- Those who subscribe later are not concerned by the removal of an earlier number. -/
theorem listeners_remove_subscribeAll {r : Registry Hook} {id : Nat} (h : id < r.next)
    (hooks : List Hook) :
    ((subscribeAll r hooks).remove id).listeners = (r.remove id).listeners ++ hooks := by
  induction hooks generalizing r with
  | nil => simp [subscribeAll]
  | cons hook rest ih =>
    -- the number that is removed is none of those handed out from here on
    have hlt : id < (r.subscribe hook).2.next := by
      show id < r.next + 1
      omega
    have hrest := ih hlt
    rw [Registry.listeners_remove_subscribe_of_ne (Nat.ne_of_lt h), List.append_assoc] at hrest
    exact hrest

/-- The number of the cache on a channel. -/
def ownOn (s : Session F) : Channel → Nat
  | .selection => s.own.1
  | .document => s.own.2

/-- At the beginning the cache listens between those of the host. -/
theorem listeners_start (settings : Settings) (leaky : Bool)
    (before after : List (Channel × HostAction)) (world : F.State) (c : Channel) :
    ((start settings leaky before after world).registry c).listeners
      = hooks c before ++ [.cache] ++ hooks c after := by
  have hregistry : (start settings leaky before after world).registry c
      = subscribeAll ((subscribeAll .empty (hooks c before)).subscribe .cache).2
          (hooks c after) := by
    cases c <;> rfl
  rw [hregistry, listeners_subscribeAll, Registry.listeners_subscribe, listeners_subscribeAll]
  rfl

/-- Without the cache, exactly those of the host are left. -/
theorem listeners_remove_start (settings : Settings) (leaky : Bool)
    (before after : List (Channel × HostAction)) (world : F.State) (c : Channel) :
    (((start settings leaky before after world).registry c).remove
        ((start settings leaky before after world).ownOn c)).listeners
      = hooks c before ++ hooks c after := by
  have hregistry : ((start settings leaky before after world).registry c).remove
        ((start settings leaky before after world).ownOn c)
      = (subscribeAll ((subscribeAll .empty (hooks c before)).subscribe .cache).2
          (hooks c after)).remove (subscribeAll .empty (hooks c before)).next := by
    cases c <;> rfl
  have hnumbered := numbered_subscribeAll Registry.numbered_empty (hooks c before)
  have hlt : (subscribeAll .empty (hooks c before)).next
      < ((subscribeAll .empty (hooks c before)).subscribe .cache).2.next := Nat.lt_succ_self _
  rw [hregistry, listeners_remove_subscribeAll hlt, Registry.listeners_remove_subscribe hnumbered,
    listeners_subscribeAll]
  rfl

/-! ### Sessions that stay tidy -/

/-- The cache listens exactly as long as it was not disposed of, or for ever if the emitters are
leaky; all others listen as they did at first. -/
structure Tidy (first s : Session F) : Prop where
  own : s.own = first.own
  leaky : s.leaky = first.leaky
  registry : ∀ c, s.registry c =
    if (s.run.engine.disposed && !s.leaky) = true then (first.registry c).remove (first.ownOn c)
    else first.registry c

/-- The same, but that a cache that was disposed of may listen still. -/
structure Loose (first s : Session F) : Prop where
  own : s.own = first.own
  leaky : s.leaky = first.leaky
  registry : (∀ c, s.registry c = first.registry c) ∨
    ((s.run.engine.disposed && !s.leaky) = true ∧
      ∀ c, s.registry c = (first.registry c).remove (first.ownOn c))

theorem Tidy.loose (h : Tidy first s) : Loose first s := by
  refine ⟨h.own, h.leaky, ?_⟩
  cases hd : (s.run.engine.disposed && !s.leaky) with
  | true => exact .inr ⟨rfl, fun c => by rw [h.registry, if_pos hd]⟩
  | false => exact .inl fun c => by rw [h.registry, hd, if_neg Bool.false_ne_true]

theorem registry_detach (s : Session F) (c : Channel) :
    s.detach.registry c =
      if (s.run.engine.disposed && !s.leaky) = true then (s.registry c).remove (s.ownOn c)
      else s.registry c := by
  unfold detach
  split <;> cases c <;> rfl

theorem own_detach (s : Session F) : s.detach.own = s.own := by
  unfold detach
  split <;> rfl

theorem leaky_detach (s : Session F) : s.detach.leaky = s.leaky := by
  unfold detach
  split <;> rfl

/-- Detaching makes a session tidy. -/
theorem Loose.detach (h : Loose first s) : Tidy first s.detach := by
  have hown : ∀ c, s.ownOn c = first.ownOn c := by
    intro c
    cases c <;> simp only [ownOn, h.own]
  refine ⟨(own_detach s).trans h.own, (leaky_detach s).trans h.leaky, fun c => ?_⟩
  rw [registry_detach, run_detach, leaky_detach, hown]
  rcases h.registry with hall | ⟨hd, hall⟩
  · rw [hall]
  · rw [hall, hd, if_pos rfl, if_pos rfl, Registry.remove_remove]

/-- Whatever happens to the engine, nobody listens who did not listen before. -/
theorem Loose.of_reachable (h : Loose first s) (hown : s'.own = s.own) (hleaky : s'.leaky = s.leaky)
    (hregistry : ∀ c, s'.registry c = s.registry c)
    (hr : s.run.engine.Reachable s'.run.engine) : Loose first s' := by
  refine ⟨hown.trans h.own, hleaky.trans h.leaky, ?_⟩
  rcases h.registry with hall | ⟨hd, hall⟩
  · exact .inl fun c => (hregistry c).trans (hall c)
  · -- the cache is out already, and stays disposed of
    rw [Bool.and_eq_true] at hd
    refine .inr ⟨?_, fun c => (hregistry c).trans (hall c)⟩
    rw [hleaky, hr.disposed hd.1, hd.2]
    rfl

/-- An action that does not dispose of the cache. -/
theorem Tidy.act (h : Tidy first s) {a : Engine.Action F}
    (ha : (s.run.engine.perform a).disposed = s.run.engine.disposed) : Tidy first (s.act a) := by
  refine ⟨h.own, h.leaky, fun c => ?_⟩
  have hd : (s.act a).run.engine.disposed = s.run.engine.disposed := ha
  rw [hd]
  have hregistry : (s.act a).registry c = s.registry c := by cases c <;> rfl
  rw [hregistry]
  exact h.registry c

theorem Loose.act (h : Loose first s) (a : Engine.Action F) : Loose first (s.act a) :=
  h.of_reachable rfl rfl (fun c => by cases c <;> rfl) (s.reachable_act a)

theorem Loose.call (h : Loose first s) (event : Event) (hook : Hook) :
    Loose first (call event s hook) := by
  cases hook with
  | cache =>
    simp only [Session.call, notify]
    split
    · cases event with
      | moved document position background => exact h.act _
      | edited document changes => exact h.act _
    · exact h
  | host a =>
    simp only [Session.call, hostAct]
    split
    · cases a with
      | dispose => exact h.act _
      | invalidate => exact h.act _
      | letGo => exact h.act _
      | nothing => exact h
    · exact h

theorem Loose.callAll (h : Loose first s) (event : Event) (hooks : List Hook) :
    Loose first (hooks.foldl (Session.call event) s) := by
  induction hooks generalizing s with
  | nil => exact h
  | cons hook rest ih => exact ih (h.call event hook)

theorem Tidy.emit (h : Tidy first s) (event : Event) : Tidy first (s.emit event) :=
  (h.loose.callAll event _).detach

theorem Tidy.withCache (h : Tidy first s) {action : Session F → Session F × Reply}
    (ha : Tidy first (action s).1) : Tidy first (s.withCache action).1 := by
  unfold Session.withCache
  split
  · exact ha
  · exact h

theorem Tidy.query (h : Tidy first s) (r : Request) (background : Bool) :
    Tidy first (s.query r background).1 := by
  unfold Session.query
  split
  · exact h.act rfl
  · exact h.act (Engine.sameAge_ask s.run.engine r).2

/-- Jobs and the clock go on. -/
theorem Loose.run (h : Loose first s) {r : Run F} (hr : s.run.engine.Reachable r.engine) :
    Loose first { s with run := r } :=
  h.of_reachable rfl rfl (fun c => by cases c <;> rfl) hr

theorem Tidy.drop (h : Tidy first s) : Tidy first s.drop := by
  -- the clients are given up and polled once more, and then the host lets go
  have hr := (s.run.reachable_abandonAll.trans (Run.reachable_settle _)).perform .letGo
  exact (h.loose.run hr).detach

mutual

/-- A step leaves the session tidy. -/
theorem tidy_perform {s : Session F} (h : Tidy first s) : ∀ step, Tidy first (s.perform step).1
  | .move document position background => by rw [perform]; exact h.emit _
  | .edit document changes => by rw [perform]; exact h.emit _
  | .query document position budget background => by
    rw [perform]
    exact h.withCache (h.query _ background)
  | .misnamedQuery error => by rw [perform]; exact h.withCache h
  | .misnamed error => by rw [perform]; exact h
  | .invalidate => by rw [perform]; exact h.withCache (h.act rfl)
  | .dispose => by rw [perform]; exact h.withCache (h.loose.act .dispose).detach
  | .drop => by rw [perform]; exact h.withCache h.drop
  | .settings => by rw [perform]; exact h.withCache h
  | .portrait => by rw [perform]; exact h.withCache h
  | .abandon client => by rw [perform]; exact (h.loose.act (.abandon client)).detach
  | .advance ms => by rw [perform]; exact (h.loose.run (s.run.reachable_advance ms)).detach
  | .tell order => by rw [perform]; exact h.act rfl
  | .summary => by rw [perform]; exact h
  | .batch steps => by rw [perform]; exact tidy_performAll h steps

theorem tidy_performAll {s : Session F} (h : Tidy first s) :
    ∀ steps, Tidy first (s.performAll steps).1
  | [] => by rw [performAll]; exact h
  | step :: rest => by
    rw [performAll]
    exact tidy_performAll (tidy_perform h step) rest

end

/-- And so does letting the jobs run after it. -/
theorem tidy_advance (h : Tidy first s) (step : Step F) : Tidy first (s.advance step).1 := by
  have hrun := (tidy_perform h step).loose.run (s.perform step).1.run.reachable_settle
  exact ⟨hrun.detach.own, hrun.detach.leaky, hrun.detach.registry⟩

/-- Steps in order, after each of which the jobs run. -/
def follow (s : Session F) (steps : List (Step F)) : Session F :=
  steps.foldl (fun s step => (s.advance step).1) s

theorem tidy_follow (h : Tidy first s) (steps : List (Step F)) : Tidy first (s.follow steps) := by
  induction steps generalizing s with
  | nil => exact h
  | cons step rest ih => exact ih (tidy_advance h step)

theorem reachable_stepwise (s : Session F) (step : Step F) :
    s.run.engine.Reachable (s.advance step).1.run.engine := by
  have hsettle := (s.reachable_perform step).trans (s.perform step).1.run.reachable_settle
  show s.run.engine.Reachable
    ({ (s.perform step).1 with run := (s.perform step).1.run.settle }.detach).run.engine
  rw [run_detach]
  exact hsettle

/-- Steps are a run of the engine. -/
theorem reachable_follow (s : Session F) (steps : List (Step F)) :
    s.run.engine.Reachable (s.follow steps).run.engine := by
  induction steps generalizing s with
  | nil => exact .refl _
  | cons step rest ih => exact (s.reachable_stepwise step).trans (ih _)

/-- The session at some time: after steps, and in the middle of a batch. -/
def atTime (s : Session F) (steps batch : List (Step F)) : Session F :=
  ((s.follow steps).performAll batch).1

theorem tidy_atTime (h : Tidy first s) (steps batch : List (Step F)) :
    Tidy first (s.atTime steps batch) :=
  tidy_performAll (tidy_follow h steps) batch

theorem reachable_atTime (s : Session F) (steps batch : List (Step F)) :
    s.run.engine.Reachable (s.atTime steps batch).run.engine :=
  (s.reachable_follow steps).trans (reachable_performAll _ batch)

theorem tidy_start (settings : Settings) (leaky : Bool)
    (before after : List (Channel × HostAction)) (world : F.State) :
    Tidy (start settings leaky before after world) (start settings leaky before after world) :=
  ⟨rfl, rfl, fun _ => rfl⟩

/-- **Disposal is final.**  In every run of the engine, nothing that the end of the cache puts an
end to ever begins again, and so it is in every session, even in the middle of a batch of steps.  In
a session, the cache listens to both emitters until it is disposed of, and from then on exactly the
others do, unless the emitters are leaky. -/
theorem disposal_is_final (options : Options) (settings : Settings) (leaky : Bool)
    (before after : List (Channel × HostAction)) (world : F.State) :
    (∀ earlier later : List (Engine.Action F),
      ((Engine.opening options world).run earlier).disposed = true →
      Engine.Final ((Engine.opening options world).run earlier)
        (((Engine.opening options world).run earlier).run later)) ∧
    (∀ steps later batch,
      ((start settings leaky before after world).follow steps).run.engine.disposed = true →
      Engine.Final ((start settings leaky before after world).follow steps).run.engine
        (((start settings leaky before after world).follow steps).atTime later batch).run.engine) ∧
    ∀ steps batch c,
      (((start settings leaky before after world).atTime steps batch).registry c).listeners
        = if (((start settings leaky before after world).atTime steps batch).run.engine.disposed
            && !leaky) = true
          then hooks c before ++ hooks c after
          else hooks c before ++ [.cache] ++ hooks c after := by
  refine ⟨fun earlier later h => Engine.final_run options world earlier later h, ?_, ?_⟩
  · intro steps later batch h
    obtain ⟨first, hfirst⟩ := (start settings leaky before after world).reachable_follow steps
    obtain ⟨second, hsecond⟩ :=
      ((start settings leaky before after world).follow steps).reachable_atTime later batch
    rw [← hsecond, ← hfirst]
    rw [← hfirst] at h
    exact Engine.final_run (Session.options settings) world first second h
  · intro steps batch c
    have htidy := tidy_atTime (tidy_start settings leaky before after world) steps batch
    have hleaky : ((start settings leaky before after world).atTime steps batch).leaky = leaky :=
      htidy.leaky
    rw [htidy.registry c, hleaky]
    split
    · exact listeners_remove_start settings leaky before after world c
    · exact listeners_start settings leaky before after world c

/-- A session in which a listener of the host disposes of the cache when a document changes, before
the cache is told of that change. -/
def cutShort : Session Fetcher.canned :=
  start default false [(.document, .dispose)] [(.selection, .nothing)]
    ({ held := true } : Canned.State)

/-- A query waits for its calls when the document changes. -/
def interrupted : List (Step Fetcher.canned) :=
  [.query ⟨"file:///a"⟩ ⟨3, 0⟩ none true, .edit ⟨"file:///a"⟩ 1]

/-- The cache is still told of the change, and a query after it is refused. -/
theorem disposal_is_final_interrupted :
    (cutShort.follow interrupted).run.engine.counters.invalidations = 2 ∧
    (cutShort.follow interrupted).run.engine.calls.size = 2 ∧
    Engine.Final (cutShort.follow interrupted).run.engine
      ((cutShort.follow interrupted).follow interrupted).run.engine ∧
    ((cutShort.follow interrupted).registry .document).listeners = [.host .dispose] ∧
    ((cutShort.follow interrupted).registry .selection).listeners = [.host .nothing] := by
  have hdisposed : (cutShort.follow interrupted).run.engine.disposed = true := by decide +kernel
  obtain ⟨-, hfinal, hlisteners⟩ := disposal_is_final (F := Fetcher.canned) {} default false
    [(.document, .dispose)] [(.selection, .nothing)] ({ held := true } : Canned.State)
  have hshut : ((cutShort.follow interrupted).run.engine.disposed && !false) = true := by
    rw [hdisposed]
    rfl
  have hdocument := (hlisteners interrupted [] .document).trans (if_pos hshut)
  have hselection := (hlisteners interrupted [] .selection).trans (if_pos hshut)
  exact ⟨by decide +kernel, by decide +kernel, hfinal interrupted interrupted [] hdisposed,
    hdocument, hselection⟩

end Session

end CursorContext
