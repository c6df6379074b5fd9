import CursorContext.Proofs.Phase

/-!
# What the journal tells

The journal is written by the engine for its host, and everything that was ever looked up can be
read off it: on whose behalf, in which generation, and in which *epoch*, which is the time between
two clearings of the table.

* `Source`, `Issue` — on whose behalf a call was made, and in which generation.
* `Record`, `Epoch` — one lookup, and what was looked up between two clearings.
* `Annals`, `Engine.annals` — all of it, read off a journal.
* `Quiet.annals` — quiet changes add nothing to it.
* `looked_begin`, `looked_warm` — queries and preloads ask for their plans, and look them up.
* `Served`, `served_run` — the lookups of an epoch are for the keys of the plans that were asked for
  in it, in order.
-/

namespace CursorContext

/-- On whose behalf something is looked up. -/
inductive Source
  /-- A query. -/
  | query
  /-- A preload, of a generation. -/
  | preload (generation : Nat)
  deriving DecidableEq, Repr

/-- A call that was made. -/
structure Issue where
  /-- Its number. -/
  call : Nat
  /-- The generation that was the current one. -/
  generation : Nat
  /-- On whose behalf it was made. -/
  source : Source
  deriving DecidableEq, Repr

/-- A lookup, and the call and the generation of the entry that it returned. -/
structure Record where
  key : Key
  generation : Nat
  call : Nat
  deriving DecidableEq, Repr

/-- The time between two clearings. -/
structure Epoch where
  /-- The keys of all plans that were asked for, in order. -/
  served : List Key := []
  /-- The lookups, in order. -/
  lookups : List Record := []
  /-- The lookups among them that started a call. -/
  issues : List Record := []
  deriving DecidableEq, Repr

namespace Epoch

/-- A plan is asked for. -/
def serve (p : Epoch) (keys : List Key) : Epoch := { p with served := p.served ++ keys }

/-- A lookup finds an entry. -/
def hit (p : Epoch) (x : Record) : Epoch := { p with lookups := p.lookups ++ [x] }

/-- A lookup finds none. -/
def miss (p : Epoch) (x : Record) : Epoch :=
  { p with lookups := p.lookups ++ [x], issues := p.issues ++ [x] }

end Epoch

/-- What can be read off a journal. -/
structure Annals where
  /-- The current generation. -/
  generation : Nat := 0
  /-- On whose behalf things are looked up at present. -/
  source : Source := .query
  /-- The calls that were made, in order. -/
  calls : List Issue := []
  /-- The epochs that are over, in order. -/
  past : List Epoch := []
  /-- The present epoch. -/
  epoch : Epoch := {}
  deriving DecidableEq, Repr

namespace Annals

/-- All epochs, the present one last. -/
def epochs (a : Annals) : List Epoch := a.past ++ [a.epoch]

/-- The present epoch is over, and the next one begins. -/
def close (a : Annals) : Annals := { a with past := a.epochs, epoch := {} }

/-- What one notice adds. -/
def read (a : Annals) : Notice → Annals
  -- the plan of a position does not depend on its column, which is not noted
  | .asked document line =>
    { a with source := .query, epoch := a.epoch.serve (Plan.at document ⟨line, 0⟩).keys }
  | .preloading document line generation =>
    { a with
      source := .preload generation
      epoch := a.epoch.serve (Plan.at document ⟨line, 0⟩).keys }
  | .hit key generation call => { a with epoch := a.epoch.hit ⟨key, generation, call⟩ }
  | .miss key generation call =>
    { a with
      calls := a.calls ++ [⟨call, a.generation, a.source⟩]
      epoch := a.epoch.miss ⟨key, generation, call⟩ }
  | .cleared _ => a.close
  | .superseded _ new => { a with generation := new }
  | _ => a

/-- What is true of all epochs stays so, if it is true of the present one, which alone changed. -/
theorem forall_epochs_of_past {P : Epoch → Prop} {a a' : Annals} (h : ∀ p ∈ a.epochs, P p)
    (hpast : a'.past = a.past) (hepoch : P a'.epoch) : ∀ p ∈ a'.epochs, P p := by
  intro p hp
  rcases List.mem_append.mp hp with hp | hp
  · rw [hpast] at hp
    exact h p (List.mem_append_left _ hp)
  · rw [List.mem_singleton.mp hp]
    exact hepoch

/-- And it stays so when the next epoch begins, if it is true at its beginning. -/
theorem forall_epochs_close {P : Epoch → Prop} {a : Annals} (h : ∀ p ∈ a.epochs, P p)
    (hempty : P {}) : ∀ p ∈ a.close.epochs, P p := by
  intro p hp
  rcases List.mem_append.mp hp with hp | hp
  · exact h p hp
  · rw [List.mem_singleton.mp hp]
    exact hempty

theorem epoch_mem_epochs (a : Annals) : a.epoch ∈ a.epochs :=
  List.mem_append_right _ (List.mem_singleton_self _)

/-- The calls of all epochs, where some were made in the present one. -/
theorem issues_epochs_of_past {a a' : Annals} {more : List Record} (hpast : a'.past = a.past)
    (hepoch : a'.epoch.issues = a.epoch.issues ++ more) :
    a'.epochs.flatMap Epoch.issues = a.epochs.flatMap Epoch.issues ++ more := by
  simp [epochs, hpast, hepoch]

/-- When an epoch begins, no call was made in it yet. -/
theorem issues_epochs_close (a : Annals) :
    a.close.epochs.flatMap Epoch.issues = a.epochs.flatMap Epoch.issues := by
  show (a.epochs ++ [({} : Epoch)]).flatMap Epoch.issues = _
  simp

theorem read_of_isQuiet (a : Annals) {n : Notice} (h : n.isQuiet = true) : a.read n = a := by
  cases n <;> first | rfl | cases h

theorem foldl_read_of_isQuiet (a : Annals) {notices : List Notice}
    (h : ∀ n ∈ notices, n.isQuiet = true) : notices.foldl read a = a := by
  induction notices with
  | nil => rfl
  | cons n rest ih =>
    rw [List.foldl_cons, a.read_of_isQuiet (h n List.mem_cons_self)]
    exact ih fun m hm => h m (List.mem_cons_of_mem n hm)

end Annals

namespace Engine

variable {F : Fetcher} {e e' : Engine F} {stamp : Stamp} {key : Key}

/-- What can be read off the journal of an engine. -/
def annals (e : Engine F) : Annals := e.journal.toList.foldl Annals.read {}

@[simp] theorem annals_note (e : Engine F) (n : Notice) :
    (e.note n).annals = e.annals.read n := by
  simp [annals, note]

/-- Quiet changes add nothing. -/
theorem Quiet.annals (h : e.Quiet e') : e'.annals = e.annals := by
  obtain ⟨more, hmore, hquiet⟩ := h.journal
  rw [Engine.annals, hmore, List.foldl_append]
  exact Annals.foldl_read_of_isQuiet _ hquiet

theorem annals_missed (e : Engine F) (stamp : Stamp) (key : Key) :
    (e.missed stamp key).annals = e.annals.read (.miss key stamp.id e.calls.size) :=
  annals_note (e.count .miss) _

theorem annals_hit (e : Engine F) (key : Key) (entry : Entry) :
    ((e.count .hit).note (.hit key entry.stamp.id entry.call)).annals
      = e.annals.read (.hit key entry.stamp.id entry.call) :=
  annals_note (e.count .hit) _

theorem annals_clear (e : Engine F) : e.clear.annals = e.annals.close := by
  rw [clear, annals_note]
  rfl

theorem annals_nextGeneration (e : Engine F) :
    e.nextGeneration.countGeneration.annals
      = { e.annals with generation := e.generations.current.id + 1 } := by
  have hcount : e.nextGeneration.countGeneration.annals = e.nextGeneration.annals := by
    unfold countGeneration
    split <;> rfl
  rw [hcount, nextGeneration, annals_note]
  rfl

@[simp] theorem annals_disarm (e : Engine F) : e.disarm.annals = e.annals := by
  unfold disarm
  split <;> rfl

@[simp] theorem annals_arm (e : Engine F) (document : Uri) (position : Position) :
    (e.arm document position).annals = e.annals :=
  annals_disarm e

theorem annals_dispose (h : e.disposed = false) : e.dispose.annals = e.annals.close := by
  have hdisarm : ({ e with disposed := true }.cancelRoot.disarm).annals = e.annals :=
    annals_disarm _
  rw [dispose, h, if_neg Bool.false_ne_true, annals_note, annals_clear, hdisarm]
  rfl

/-! ### What was looked up -/

/-- Some keys were looked up, and nothing else happened to the annals but that calls were made, all
on behalf of the same one. -/
structure Looked (keys : List Key) (a a' : Annals) : Prop where
  generation : a'.generation = a.generation
  source : a'.source = a.source
  calls : ∀ x ∈ a'.calls, x ∈ a.calls ∨ (x.generation = a.generation ∧ x.source = a.source)
  past : a'.past = a.past
  served : a'.epoch.served = a.epoch.served
  lookups : a'.epoch.lookups.map Record.key = a.epoch.lookups.map Record.key ++ keys

theorem Looked.trans {keys keys' : List Key} {a a' a'' : Annals} (h : Looked keys a a')
    (k : Looked keys' a' a'') : Looked (keys ++ keys') a a'' where
  generation := k.generation.trans h.generation
  source := k.source.trans h.source
  calls := by
    intro x hx
    rcases k.calls x hx with hx | ⟨hgeneration, hsource⟩
    · exact h.calls x hx
    · exact .inr ⟨hgeneration.trans h.generation, hsource.trans h.source⟩
  past := k.past.trans h.past
  served := k.served.trans h.served
  lookups := by rw [k.lookups, h.lookups, List.append_assoc]

theorem Lookup.looked (h : Lookup stamp key e e') : Looked [key] e.annals e'.annals := by
  cases h with
  | hit _ =>
    rw [annals_hit]
    exact ⟨rfl, rfl, fun _ hx => .inl hx, rfl, rfl, List.map_append⟩
  | miss _ hq =>
    rw [hq.annals, annals_missed]
    refine ⟨rfl, rfl, ?_, rfl, rfl, List.map_append⟩
    intro x hx
    rcases List.mem_append.mp hx with hx | hx
    · exact .inl hx
    · rw [List.mem_singleton.mp hx]
      exact .inr ⟨rfl, rfl⟩

theorem looked_lookupKeys (e : Engine F) (background : Bool) (stamp : Stamp) (keys : List Key) :
    Looked keys e.annals (e.lookupKeys background stamp keys).annals := by
  induction keys generalizing e with
  | nil => exact ⟨rfl, rfl, fun _ hx => .inl hx, rfl, rfl, (List.append_nil _).symm⟩
  | cons key rest ih =>
    rw [lookupKeys_cons]
    exact (lookup_lookupPlanned e background stamp key).looked.trans (ih _)

/-- A query that is polled first asks for its plan and looks it up. -/
theorem looked_begin (h : e.disposed = false) (background : Bool) (r : Request) :
    Looked r.plan.keys (e.annals.read (.asked r.document r.position.line))
      (e.begin background r).1.annals := by
  have hl := looked_lookupKeys (e.note (.asked r.document r.position.line)) background
    e.generations.foreground r.plan.keys
  rw [annals_note, ← lookupPlan_fst] at hl
  rw [begin, h, if_neg Bool.false_ne_true]
  dsimp only
  rw [(quiet_resume _ r _ _ _).annals]
  exact hl

/-- A preload asks for the plan of its position, for the generation that it begins. -/
theorem looked_warm (h : e.isOver = false) (background : Bool) (document : Uri)
    (position : Position) :
    Looked (Plan.at document position).keys
      ({ e.annals with generation := e.generations.current.id + 1 }.read
        (.preloading document position.line (e.generations.current.id + 1)))
      (e.warm background document position).1.annals := by
  have hid : e.nextGeneration.countGeneration.generations.current.id
      = e.generations.current.id + 1 := by
    unfold countGeneration
    split <;> rfl
  rw [warm_of_not_isOver background document position h, ← annals_nextGeneration, ← hid,
    ← annals_note]
  exact looked_lookupKeys _ background _ _

/-- In every epoch the lookups are for the keys that were asked for, in order. -/
def Served (e : Engine F) : Prop :=
  ∀ p ∈ e.annals.epochs, p.lookups.map Record.key = p.served

/-- Where the epochs are the same, or a new one begins, nothing changes. -/
theorem Served.close (h : e.Served) (ha : e'.annals = e.annals.close) : e'.Served := by
  rw [Served, ha]
  exact Annals.forall_epochs_close h rfl

theorem Served.of_eq (h : e.Served) (ha : e'.annals.epochs = e.annals.epochs) : e'.Served := by
  rw [Served, ha]
  exact h

/-- A plan that is asked for is looked up. -/
theorem Served.serve (h : e.Served) {notice : Notice} {background : Bool} {document : Uri}
    {position : Position}
    (hpast : (e.annals.read notice).past = e.annals.past)
    (hepoch : (e.annals.read notice).epoch
      = e.annals.epoch.serve (Plan.at document position).keys) :
    (e.serve notice background stamp document position).Served := by
  have hl := looked_lookupKeys (e.note notice) background stamp (Plan.at document position).keys
  rw [annals_note] at hl
  refine Annals.forall_epochs_of_past h (hl.past.trans hpast) ?_
  rw [Engine.serve, hl.lookups, hl.served, hepoch]
  show e.annals.epoch.lookups.map Record.key ++ _ = e.annals.epoch.served ++ _
  rw [h _ e.annals.epoch_mem_epochs]

theorem Phase.served (hp : e.Phase e') (h : e.Served) : e'.Served := by
  cases hp with
  | quiet hq => exact h.of_eq (by rw [hq.annals])
  | clear => exact h.close (annals_clear e)
  | arm document position _ => exact h.of_eq (by rw [annals_arm])
  | disarm => exact h.of_eq (by rw [annals_disarm])
  | goOff => exact h
  | query background document position _ => exact h.serve rfl rfl
  | preload background document position _ =>
    have hnext : e.nextGeneration.countGeneration.Served := by
      refine h.of_eq ?_
      rw [annals_nextGeneration]
      rfl
    exact hnext.serve rfl rfl
  | dispose hd => exact h.close (annals_dispose hd)

/-- **In every epoch of a run, what was looked up is what was asked for.** -/
theorem served_run (options : Options) (world : F.State) (actions : List (Action F)) :
    ((opening options world).run actions).Served := by
  refine run_induction Phase.served (fun _ _ h => h) actions _ (fun _ _ h => h) ?_
  intro p hp
  cases List.mem_singleton.mp hp
  rfl

end Engine

end CursorContext
