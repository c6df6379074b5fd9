import CursorContext.Proofs.Quiet

/-!
# What a lookup does

A lookup either finds the entry of its key and changes nothing but what is counted and noted, or
adds one call and one entry for it.  Whatever else it does, such as starting the job that drives
the call, is quiet.  Looking a plan up is a lookup for each of its keys, in order.

## Main definitions

* `Engine.missed` — the call and the entry that a lookup adds.
* `Engine.Lookup stamp key e e'` — `e` becomes `e'` by a lookup.
* `Engine.lookupKeys` — a lookup for each of some keys.
* `Engine.Still e e'` — neither tokens nor generations, timers, the fetcher and the end of the cache
  were touched.

## Main results

* `lookup_lookupPlanned` — every lookup is one of the two kinds.
* `lookupPlan_fst` — the lookups of a plan are those of its keys.
* `Lookup.find?` — what is found after a lookup.
* `still_lookupKeys` — lookups touch the table, the calls and the counters only.
-/

namespace CursorContext.Engine

variable {F : Fetcher} {e e' e'' : Engine F} {stamp : Stamp} {key : Key}

/-- The call and the entry that a lookup adds, as they are counted and noted. -/
def missed (e : Engine F) (stamp : Stamp) (key : Key) : Engine F :=
  { (e.count .miss).note (.miss key stamp.id e.calls.size) with
    calls := e.calls.push ⟨key, stamp, .pending (F.depart e.fetcher key)⟩
    table := e.table ++ [(key, ⟨e.calls.size, stamp⟩)] }

theorem idents_missed (e : Engine F) (stamp : Stamp) (key : Key) :
    (e.missed stamp key).idents = e.idents ++ [(key, stamp)] := by
  simp [idents, missed, Call.ident]

theorem getElem?_idents_missed {i : Nat} {x : Key × Stamp} (h : e.idents[i]? = some x)
    (stamp : Stamp) (key : Key) : (e.missed stamp key).idents[i]? = some x := by
  have hlt := (List.getElem?_eq_some_iff.mp h).1
  rw [idents_missed, List.getElem?_append_left hlt]
  exact h

theorem getElem?_idents_missed_size (e : Engine F) (stamp : Stamp) (key : Key) :
    (e.missed stamp key).idents[e.calls.size]? = some (key, stamp) := by
  rw [idents_missed, ← length_idents, List.getElem?_concat_length]

/-- One lookup under a stamp. -/
inductive Lookup (stamp : Stamp) (key : Key) (e : Engine F) : Engine F → Prop
  /-- The entry of the key is there. -/
  | hit {entry : Entry} (h : e.find? key = some entry) :
      Lookup stamp key e ((e.count .hit).note (.hit key entry.stamp.id entry.call))
  /-- There is none yet. -/
  | miss {e' : Engine F} (h : e.find? key = none) (hq : (e.missed stamp key).Quiet e') :
      Lookup stamp key e e'

theorem lookup_of_some {entry : Entry} (background : Bool) (stamp : Stamp)
    (h : e.find? key = some entry) :
    e.lookup background stamp key
      = ((e.count .hit).note (.hit key entry.stamp.id entry.call), entry, true) := by
  simp only [lookup, h]

theorem lookup_of_none (background : Bool) (stamp : Stamp) (h : e.find? key = none) :
    e.lookup background stamp key
      = ((((e.count .miss).note (.miss key stamp.id e.calls.size)).issue background stamp key).1,
          ⟨e.calls.size, stamp⟩, false) := by
  simp only [lookup, h]
  rfl

/-- What a lookup adds is a call and an entry, and the rest of it is quiet. -/
theorem quiet_issue (e : Engine F) (background : Bool) (stamp : Stamp) (key : Key) :
    (e.missed stamp key).Quiet
      (((e.count .miss).note (.miss key stamp.id e.calls.size)).issue background stamp key).1 := by
  cases background with
  | true => exact quiet_spawn (e.missed stamp key) (.drive e.calls.size stamp.token)
  | false => exact quiet_note (e.missed stamp key) rfl

/-- The entry that a lookup for a plan returns is the one that is there, or the one it made. -/
theorem lookupPlanned_snd (e : Engine F) (background : Bool) (stamp : Stamp) (key : Key) :
    (e.lookupPlanned background stamp key).2 = (e.find? key).getD ⟨e.calls.size, stamp⟩ := by
  cases h : e.find? key with
  | some entry => simp only [lookupPlanned, lookup_of_some background stamp h, Option.getD_some]
  | none => simp only [lookupPlanned, lookup_of_none background stamp h, Option.getD_none]

theorem lookup_lookupPlanned (e : Engine F) (background : Bool) (stamp : Stamp) (key : Key) :
    Lookup stamp key e (e.lookupPlanned background stamp key).1 := by
  cases h : e.find? key with
  | some entry =>
    simp only [lookupPlanned, lookup_of_some background stamp h, if_true]
    exact .hit h
  | none =>
    simp only [lookupPlanned, lookup_of_none background stamp h, Bool.false_eq_true, if_false]
    -- the call and its entry come first; starting its driver and the notice of it are quiet
    exact .miss h ((quiet_issue e background stamp key).trans (quiet_note _ rfl))

/-- A lookup for each of some keys, in order. -/
def lookupKeys (e : Engine F) (background : Bool) (stamp : Stamp) (keys : List Key) : Engine F :=
  keys.foldl (fun e key => (e.lookupPlanned background stamp key).1) e

@[simp] theorem lookupKeys_nil (e : Engine F) (background : Bool) (stamp : Stamp) :
    e.lookupKeys background stamp [] = e := rfl

@[simp] theorem lookupKeys_cons (e : Engine F) (background : Bool) (stamp : Stamp) (key : Key)
    (keys : List Key) :
    e.lookupKeys background stamp (key :: keys)
      = (e.lookupPlanned background stamp key).1.lookupKeys background stamp keys := rfl

/-- **The lookups of a plan are those of its keys, in order.** -/
theorem lookupPlan_fst (e : Engine F) (background : Bool) (stamp : Stamp) (p : Plan) :
    (e.lookupPlan background stamp p).1 = e.lookupKeys background stamp p.keys := by
  obtain ⟨previous, current⟩ := p
  cases previous with
  | none => rfl
  | some key => rfl

/-! ### What lookups do to the table -/

theorem mem_of_find? {entry : Entry} (h : e.find? key = some entry) : (key, entry) ∈ e.table := by
  obtain ⟨front, back, heq, -⟩ := List.lookup_eq_some_iff.mp h
  rw [heq]
  simp

/-- Lookups take no entry out of the table. -/
theorem Lookup.table_prefix (h : Lookup stamp key e e') : e.table <+: e'.table := by
  cases h with
  | hit _ => exact List.prefix_refl _
  | miss _ hq => rw [hq.table]; exact List.prefix_append _ _

/-- After a lookup, the entry that was there is found, or else the one it made. -/
theorem Lookup.find? (h : Lookup stamp key e e') :
    e'.find? key = some ((e.find? key).getD ⟨e.calls.size, stamp⟩) := by
  cases h with
  | hit hfind =>
    rw [hfind, Option.getD_some]
    exact hfind
  | miss hfind hq =>
    rw [hfind, Option.getD_none, Engine.find?, hq.table]
    show (e.table ++ [(key, _)]).lookup key = _
    rw [List.lookup_append, show e.table.lookup key = none from hfind]
    simp

/-! ### What lookups leave alone -/

/-- Neither tokens nor generations, timers, the fetcher and the end of the cache were touched, and
calls only flowed on. -/
structure Still (e e' : Engine F) : Prop where
  /-- The set-up is the same. -/
  options : e'.options = e.options
  /-- The fetcher was told nothing. -/
  fetcher : e'.fetcher = e.fetcher
  /-- No token was made or cancelled. -/
  tokens : e'.tokens = e.tokens
  /-- No generation began. -/
  generations : e'.generations = e.generations
  /-- No timer was started or stopped. -/
  armed : e'.armed = e.armed
  /-- The cache was not disposed of. -/
  disposed : e'.disposed = e.disposed
  /-- Calls only flowed on. -/
  carries : e.Carries e'

namespace Still

theorem refl (e : Engine F) : e.Still e := ⟨rfl, rfl, rfl, rfl, rfl, rfl, .refl e⟩

theorem trans (h : e.Still e') (k : e'.Still e'') : e.Still e'' where
  options := k.options.trans h.options
  fetcher := k.fetcher.trans h.fetcher
  tokens := k.tokens.trans h.tokens
  generations := k.generations.trans h.generations
  armed := k.armed.trans h.armed
  disposed := k.disposed.trans h.disposed
  carries := h.carries.trans k.carries

theorem isCancelled_eq (h : e.Still e') (t : Token) : e'.isCancelled t = e.isCancelled t := by
  rw [isCancelled, isCancelled, h.tokens]

end Still

theorem Quiet.still (h : e.Quiet e') : e.Still e' :=
  ⟨h.options, h.fetcher, h.tokens, h.generations, h.armed, h.disposed, h.carries⟩

theorem still_note (e : Engine F) (n : Notice) : e.Still (e.note n) :=
  ⟨rfl, rfl, rfl, rfl, rfl, rfl, .of_eq rfl rfl⟩

theorem still_missed (e : Engine F) (stamp : Stamp) (key : Key) : e.Still (e.missed stamp key) :=
  ⟨rfl, rfl, rfl, rfl, rfl, rfl, carries_push rfl rfl⟩

theorem Lookup.still (h : Lookup stamp key e e') : e.Still e' := by
  cases h with
  | hit _ => exact ⟨rfl, rfl, rfl, rfl, rfl, rfl, .of_eq rfl rfl⟩
  | miss _ hq => exact (still_missed e stamp key).trans hq.still

/-- Lookups touch the table, the calls and the counters only. -/
theorem still_lookupKeys (e : Engine F) (background : Bool) (stamp : Stamp) (keys : List Key) :
    e.Still (e.lookupKeys background stamp keys) := by
  induction keys generalizing e with
  | nil => exact .refl e
  | cons key rest ih =>
    rw [lookupKeys_cons]
    exact (lookup_lookupPlanned e background stamp key).still.trans (ih _)

theorem still_clear (e : Engine F) : e.Still e.clear :=
  ⟨rfl, rfl, rfl, rfl, rfl, rfl, .of_eq rfl rfl⟩

end CursorContext.Engine
