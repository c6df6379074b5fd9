import CursorContext.Proofs.Phase

/-!
# What actions add to calls and to the table

As long as the fetcher is told nothing, an action does the following and nothing else to calls and
to the table: calls that are there flow on, new calls depart for the keys that were looked up, and
an entry of the table is an old one or belongs to a new call of its key.

## Main definitions

* `Engine.Extends e e'` — between `e` and `e'` that is what happened.
* `Engine.Departed` — every call departed for its key.

## Main results

* `Phase.extends`, `extends_perform` — it is what happens in a phase, and in an action.
* `departed_run` — calls depart for their keys in all runs.
-/

namespace CursorContext.Engine

variable {F : Fetcher} {e e' e'' : Engine F}

/-- Calls flowed on, new ones departed for what was looked up, and the table gained no entries but
those of new calls. -/
structure Extends (e e' : Engine F) : Prop where
  /-- The fetcher was told nothing. -/
  fetcher : e'.fetcher = e.fetcher
  /-- Calls that were there flowed on. -/
  carries : e.Carries e'
  /-- A new call departed for its key. -/
  departs : ∀ (i : Nat) (c : Call F), e.calls.size ≤ i → e'.calls[i]? = some c →
    F.Flow e.fetcher (.pending (F.depart e.fetcher c.key)) e.fetcher c.status
  /-- An entry is an old one, or that of a new call. -/
  table : ∀ x ∈ e'.table, x ∈ e.table ∨
    (e.calls.size ≤ x.2.call ∧ ∃ c, e'.calls[x.2.call]? = some c ∧ c.ident = (x.1, x.2.stamp))

namespace Extends

theorem trans (h : e.Extends e') (k : e'.Extends e'') : e.Extends e'' where
  fetcher := k.fetcher.trans h.fetcher
  carries := h.carries.trans k.carries
  departs := by
    intro i c hi hc
    rcases Nat.lt_or_ge i e'.calls.size with hlt | hge
    · -- the call was new before and only flowed on since
      have hd := Array.getElem?_eq_getElem hlt
      obtain ⟨c', hc', hid, hflow⟩ := k.carries i _ hd
      rw [hc, Option.some.injEq] at hc'
      subst hc'
      have hkey : c.key = e'.calls[i].key := congrArg Prod.fst hid
      have hdep := h.departs i _ hi hd
      rw [← hkey] at hdep
      rw [k.fetcher, h.fetcher] at hflow
      exact hdep.trans hflow
    · have hdep := k.departs i c hge hc
      rw [h.fetcher] at hdep
      exact hdep
  table := by
    intro x hx
    rcases k.table x hx with hx | ⟨hsize, hcall⟩
    · rcases h.table x hx with hx | ⟨hsize, c, hc, hid⟩
      · exact .inl hx
      · obtain ⟨c', hc', hid', -⟩ := k.carries _ c hc
        exact .inr ⟨hsize, c', hc', hid'.trans hid⟩
    · exact .inr ⟨Nat.le_trans h.carries.size_le hsize, hcall⟩

/-- Where no call is added, entries can only go. -/
theorem of_size (hf : e'.fetcher = e.fetcher) (hc : e.Carries e')
    (hs : e'.calls.size = e.calls.size) (ht : ∀ x ∈ e'.table, x ∈ e.table) : e.Extends e' where
  fetcher := hf
  carries := hc
  departs := by
    intro i c hi hci
    have := (Array.getElem?_eq_some_iff.mp hci).1
    omega
  table := fun x hx => .inl (ht x hx)

theorem of_eq (hf : e'.fetcher = e.fetcher) (hc : e'.calls = e.calls) (ht : e'.table = e.table) :
    e.Extends e' :=
  .of_size hf (.of_eq hc hf) (by rw [hc]) (fun x hx => by rw [← ht]; exact hx)

theorem refl (e : Engine F) : e.Extends e := .of_eq rfl rfl rfl

end Extends

theorem Quiet.extends (h : e.Quiet e') : e.Extends e' :=
  .of_size h.fetcher h.carries h.size (fun x hx => by rw [← h.table]; exact hx)

theorem extends_missed (e : Engine F) (stamp : Stamp) (key : Key) :
    e.Extends (e.missed stamp key) where
  fetcher := rfl
  carries := carries_push rfl rfl
  departs := by
    intro i c hi hc
    have hlt := (Array.getElem?_eq_some_iff.mp hc).1
    simp only [missed, Array.size_push] at hlt
    obtain rfl : i = e.calls.size := by omega
    simp only [missed, Array.getElem?_push_size, Option.some.injEq] at hc
    subst hc
    exact .refl
  table := by
    intro x hx
    rcases List.mem_append.mp hx with hx | hx
    · exact .inl hx
    · rw [List.mem_singleton] at hx
      subst hx
      exact .inr ⟨Nat.le_refl _, ⟨key, stamp, .pending (F.depart e.fetcher key)⟩,
        Array.getElem?_push_size, rfl⟩

theorem Lookup.extends {stamp : Stamp} {key : Key} (h : Lookup stamp key e e') :
    e.Extends e' := by
  cases h with
  | hit _ => exact .of_eq rfl rfl rfl
  | miss _ hq => exact (extends_missed e stamp key).trans hq.extends

theorem extends_lookupKeys (e : Engine F) (background : Bool) (stamp : Stamp) (keys : List Key) :
    e.Extends (e.lookupKeys background stamp keys) := by
  induction keys generalizing e with
  | nil => exact .refl e
  | cons key rest ih =>
    rw [lookupKeys_cons]
    exact (lookup_lookupPlanned e background stamp key).extends.trans (ih _)

theorem extends_serve (e : Engine F) (notice : Notice) (background : Bool) (stamp : Stamp)
    (document : Uri) (position : Position) :
    e.Extends (e.serve notice background stamp document position) := by
  have hnote : e.Extends (e.note notice) := .of_eq rfl rfl rfl
  exact hnote.trans (extends_lookupKeys _ _ _ _)

theorem extends_clear (e : Engine F) : e.Extends e.clear :=
  .of_size rfl (still_clear e).carries rfl (fun _ hx => nomatch hx)

theorem extends_disarm (e : Engine F) : e.Extends e.disarm := by
  unfold disarm
  split <;> exact .of_eq rfl rfl rfl

theorem extends_arm (e : Engine F) (document : Uri) (position : Position) :
    e.Extends (e.arm document position) := by
  have hspawn : e.disarm.Extends (e.arm document position) := .of_eq rfl rfl rfl
  exact (extends_disarm e).trans hspawn

theorem extends_nextGeneration (e : Engine F) :
    e.Extends e.nextGeneration.countGeneration := by
  unfold countGeneration
  split <;> exact .of_eq rfl rfl rfl

theorem extends_dispose (e : Engine F) : e.Extends e.dispose := by
  unfold dispose
  split
  · exact .refl e
  · have hcancel : e.Extends { e with disposed := true }.cancelRoot := .of_eq rfl rfl rfl
    have hclosed := (hcancel.trans (extends_disarm _)).trans (extends_clear _)
    exact hclosed.trans (quiet_note _ rfl).extends

theorem Phase.extends (h : e.Phase e') : e.Extends e' := by
  cases h with
  | quiet h => exact h.extends
  | clear => exact extends_clear e
  | arm document position _ => exact extends_arm e document position
  | disarm => exact extends_disarm e
  | goOff => exact .of_eq rfl rfl rfl
  | query _ document position _ => exact extends_serve e _ _ _ document position
  | preload _ document position _ =>
    exact (extends_nextGeneration e).trans (extends_serve _ _ _ _ document position)
  | dispose _ => exact extends_dispose e

theorem Phases.extends (h : e.Phases e') : e.Extends e' :=
  h.relate Extends.refl Extends.trans Phase.extends

/-- **What an action adds**, unless it tells the fetcher something. -/
theorem extends_perform (e : Engine F) (a : Action F) (h : ∀ order, a ≠ .tell order) :
    e.Extends (e.perform a) := by
  rcases e.perform_cases a with ⟨order, rfl⟩ | rfl | hp
  · exact absurd rfl (h order)
  · exact .of_eq rfl rfl rfl
  · exact hp.extends

/-! ### Departures -/

/-- Every call departed for its key, from what the fetcher was then. -/
def Departed (e : Engine F) : Prop :=
  ∀ (i : Nat) (c : Call F), e.calls[i]? = some c →
    ∃ s, F.Flow s (.pending (F.depart s c.key)) e.fetcher c.status

theorem Extends.departed (hx : e.Extends e') (h : e.Departed) : e'.Departed := by
  intro i c hc
  rcases Nat.lt_or_ge i e.calls.size with hlt | hge
  · have hold := Array.getElem?_eq_getElem hlt
    obtain ⟨c', hc', hid, hflow⟩ := hx.carries i _ hold
    have hcc : c' = c := Option.some.inj (hc'.symm.trans hc)
    subst hcc
    obtain ⟨s, hs⟩ := h i _ hold
    have hkey : c'.key = e.calls[i].key := congrArg Prod.fst hid
    exact ⟨s, by rw [hkey]; exact hs.trans hflow⟩
  · have hdep := hx.departs i c hge hc
    refine ⟨e.fetcher, ?_⟩
    rw [hx.fetcher]
    exact hdep

/-- **A call departs for its key, and nothing else is ever done to it than polls of its flight.** -/
theorem departed_run (options : Options) (world : F.State) (actions : List (Action F)) :
    ((opening options world).run actions).Departed := by
  refine run_induction (fun hp h => hp.extends.departed h) ?_ actions _ (fun _ _ h => h) ?_
  · intro e order h i c hc
    obtain ⟨s, hs⟩ := h i c hc
    exact ⟨s, .obey order hs⟩
  · intro i c hc
    cases hc

end CursorContext.Engine
