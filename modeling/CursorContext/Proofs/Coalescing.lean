import CursorContext.Fetch.Canned
import CursorContext.Proofs.Annals
import CursorContext.Proofs.Extends
import Mathlib.Data.List.Nodup

/-!
# One call for a key in an epoch

In an epoch, the first lookup of a key makes a call and every other one returns the entry of that
call, however it comes out.  So the table always holds the keys that were looked up in the present
epoch, and the calls of an epoch are for the keys that were looked up in it without the repeats.

* `Epoch.Exact` — the calls of an epoch are for its lookups without the repeats.
* `Engine.Coalesced` — the table and the calls are those that the annals tell of.
* `Phase.coalesced`, `coalesced_run` — that is so at any time.
* `Engine.Ledger`, `ledger_run` — what follows for the table, the calls and the lookups.
* `Engine.Aside` — what has nothing to do with the table.
* `coalescing_is_exact` — all of it, with the actions that leave the table alone.
-/

namespace CursorContext

theorem eraseDups_concat_of_mem {α : Type} [BEq α] [LawfulBEq α] {l : List α} {k : α} (h : k ∈ l) :
    (l ++ [k]).eraseDups = l.eraseDups := by
  rw [List.eraseDups_append]
  simp [List.removeAll, h]

theorem eraseDups_concat_of_not_mem {α : Type} [BEq α] [LawfulBEq α] {l : List α} {k : α}
    (h : k ∉ l) : (l ++ [k]).eraseDups = l.eraseDups ++ [k] := by
  rw [List.eraseDups_append]
  simp [List.removeAll, h, List.eraseDups_cons]

namespace Epoch

/-- The calls of an epoch are for the keys that were looked up in it, each where it came first, and
every lookup returned the entry of such a call. -/
structure Exact (p : Epoch) : Prop where
  keys : p.issues.map Record.key = (p.lookups.map Record.key).eraseDups
  nodup : (p.issues.map Record.key).Nodup
  lookups : ∀ x ∈ p.lookups, x ∈ p.issues

theorem exact_empty : Exact {} := ⟨rfl, List.nodup_nil, fun _ hx => nomatch hx⟩

theorem Exact.serve {p : Epoch} (h : p.Exact) (keys : List Key) : (p.serve keys).Exact :=
  ⟨h.keys, h.nodup, h.lookups⟩

/-- A lookup that returns the entry of a call of the epoch. -/
theorem Exact.hit {p : Epoch} {x : Record} (h : p.Exact) (hx : x ∈ p.issues) :
    (p.hit x).Exact where
  keys := by
    have hkey : x.key ∈ p.lookups.map Record.key := by
      rw [← List.mem_eraseDups, ← h.keys]
      exact List.mem_map_of_mem hx
    show p.issues.map Record.key = ((p.lookups ++ [x]).map Record.key).eraseDups
    rw [List.map_append, List.map_singleton, eraseDups_concat_of_mem hkey]
    exact h.keys
  nodup := h.nodup
  lookups := by
    intro y hy
    rcases List.mem_append.mp hy with hy | hy
    · exact h.lookups y hy
    · rw [List.mem_singleton.mp hy]
      exact hx

/-- A lookup that makes a call for a key that is new in the epoch. -/
theorem Exact.miss {p : Epoch} {x : Record} (h : p.Exact) (hx : x.key ∉ p.issues.map Record.key) :
    (p.miss x).Exact where
  keys := by
    have hkey : x.key ∉ p.lookups.map Record.key := by
      rw [← List.mem_eraseDups, ← h.keys]
      exact hx
    show (p.issues ++ [x]).map Record.key = ((p.lookups ++ [x]).map Record.key).eraseDups
    rw [List.map_append, List.map_append, List.map_singleton, eraseDups_concat_of_not_mem hkey,
      h.keys]
  nodup := by
    show ((p.issues ++ [x]).map Record.key).Nodup
    rw [List.map_append, List.map_singleton]
    refine List.Nodup.append h.nodup (List.nodup_singleton _) ?_
    intro k hk hkx
    rw [List.mem_singleton.mp hkx] at hk
    exact hx hk
  lookups := by
    intro y hy
    rcases List.mem_append.mp hy with hy | hy
    · exact List.mem_append_left _ (h.lookups y hy)
    · exact List.mem_append_right _ hy

end Epoch

namespace Engine

variable {F : Fetcher} {e e' : Engine F} {stamp : Stamp} {key : Key}

/-- What the annals keep of an entry. -/
def record (x : Key × Entry) : Record := ⟨x.1, x.2.stamp.id, x.2.call⟩

/-- The table and the calls are those that the annals tell of. -/
structure Coalesced (e : Engine F) : Prop where
  /-- The table holds the calls of the present epoch. -/
  table : e.table.map record = e.annals.epoch.issues
  /-- An entry carries the stamp of its call. -/
  entries : ∀ x ∈ e.table, e.idents[x.2.call]? = some (x.1, x.2.stamp)
  /-- In every epoch, there is one call for a key. -/
  exact : ∀ p ∈ e.annals.epochs, p.Exact
  /-- Every call was made in one epoch, and calls are numbered in the order of epochs. -/
  calls : (e.annals.epochs.flatMap Epoch.issues).map Record.call = List.range e.calls.size
  /-- A call is for its key, and carries the stamp of its generation. -/
  idents : ∀ x ∈ e.annals.epochs.flatMap Epoch.issues,
    ∃ s, e.idents[x.call]? = some (x.key, s) ∧ s.id = x.generation

namespace Coalesced

/-- Where neither the table nor the annals change, nothing does. -/
theorem of_eq (h : e.Coalesced) (ht : e'.table = e.table) (hc : e'.idents = e.idents)
    (ha : e'.annals.epoch = e.annals.epoch) (hp : e'.annals.past = e.annals.past) :
    e'.Coalesced := by
  have hs := size_of_idents_eq hc
  have hepochs : e'.annals.epochs = e.annals.epochs := by rw [Annals.epochs, ha, hp, Annals.epochs]
  refine ⟨?_, ?_, ?_, ?_, ?_⟩
  · rw [ht, ha]; exact h.table
  · rw [ht, hc]; exact h.entries
  · rw [hepochs]; exact h.exact
  · rw [hepochs, hs]; exact h.calls
  · rw [hepochs, hc]; exact h.idents

theorem of_quiet (h : e.Coalesced) (hq : e.Quiet e') : e'.Coalesced :=
  h.of_eq hq.table hq.idents_eq (by rw [hq.annals]) (by rw [hq.annals])

/-- A new epoch begins with an empty table. -/
theorem close (h : e.Coalesced) (ht : e'.table = []) (hc : e'.idents = e.idents)
    (ha : e'.annals = e.annals.close) : e'.Coalesced := by
  have hs := size_of_idents_eq hc
  have hissues : e'.annals.epochs.flatMap Epoch.issues = e.annals.epochs.flatMap Epoch.issues := by
    rw [ha]
    exact e.annals.issues_epochs_close
  refine ⟨?_, ?_, ?_, ?_, ?_⟩
  · rw [ht, ha]; rfl
  · rw [ht]; exact fun _ hx => nomatch hx
  · rw [ha]
    exact Annals.forall_epochs_close h.exact Epoch.exact_empty
  · rw [hissues, hs]; exact h.calls
  · rw [hissues, hc]; exact h.idents

theorem exact_epoch (h : e.Coalesced) : e.annals.epoch.Exact :=
  h.exact _ e.annals.epoch_mem_epochs

/-- The keys of the table are the keys of the calls of the epoch. -/
theorem table_keys (h : e.Coalesced) :
    e.table.map Prod.fst = e.annals.epoch.issues.map Record.key := by
  rw [← h.table, List.map_map]
  rfl

/-- A key that is not in the table was not looked up in the epoch. -/
theorem not_mem_of_find?_eq_none (h : e.Coalesced) (hfind : e.find? key = none) :
    key ∉ e.annals.epoch.issues.map Record.key := by
  rw [← h.table_keys, List.mem_map]
  rintro ⟨x, hx, rfl⟩
  have hne := List.lookup_eq_none_iff.mp hfind x hx
  simp at hne

/-- A lookup that finds an entry. -/
theorem hit (h : e.Coalesced) {entry : Entry} (hfind : e.find? key = some entry) :
    ((e.count .hit).note (.hit key entry.stamp.id entry.call)).Coalesced := by
  have ha := annals_hit e key entry
  have hx : (⟨key, entry.stamp.id, entry.call⟩ : Record) ∈ e.annals.epoch.issues := by
    rw [← h.table]
    exact List.mem_map_of_mem (f := record) (mem_of_find? hfind)
  have hissues : (e.annals.read (.hit key entry.stamp.id entry.call)).epochs.flatMap Epoch.issues
      = e.annals.epochs.flatMap Epoch.issues ++ [] :=
    Annals.issues_epochs_of_past rfl (List.append_nil _).symm
  rw [List.append_nil] at hissues
  refine ⟨?_, h.entries, ?_, ?_, ?_⟩
  · rw [ha]; exact h.table
  · rw [ha]
    exact Annals.forall_epochs_of_past h.exact rfl (h.exact_epoch.hit hx)
  · rw [ha, hissues]; exact h.calls
  · rw [ha, hissues]; exact h.idents

/-- A lookup that finds none. -/
theorem miss (h : e.Coalesced) (hfind : e.find? key = none) : (e.missed stamp key).Coalesced := by
  have ha := annals_missed e stamp key
  have hnew := getElem?_idents_missed_size e stamp key
  -- the new call is the last of all, in the present epoch
  have hissues : (e.annals.read (.miss key stamp.id e.calls.size)).epochs.flatMap Epoch.issues
      = e.annals.epochs.flatMap Epoch.issues ++ [⟨key, stamp.id, e.calls.size⟩] :=
    Annals.issues_epochs_of_past rfl rfl
  refine ⟨?_, ?_, ?_, ?_, ?_⟩
  · rw [ha]
    show (e.table ++ [_]).map record = e.annals.epoch.issues ++ [_]
    rw [List.map_append, h.table]
    rfl
  · intro x hx
    rcases List.mem_append.mp hx with hx | hx
    · exact getElem?_idents_missed (h.entries x hx) stamp key
    · rw [List.mem_singleton.mp hx]
      exact hnew
  · rw [ha]
    have hexact : (e.annals.epoch.miss ⟨key, stamp.id, e.calls.size⟩).Exact :=
      h.exact_epoch.miss (h.not_mem_of_find?_eq_none hfind)
    exact Annals.forall_epochs_of_past h.exact rfl hexact
  · rw [ha, hissues, List.map_append, h.calls]
    show List.range e.calls.size ++ [e.calls.size] = List.range (e.calls.push _).size
    rw [Array.size_push, List.range_succ]
  · rw [ha, hissues]
    intro x hx
    rcases List.mem_append.mp hx with hx | hx
    · obtain ⟨s, hs, hid⟩ := h.idents x hx
      exact ⟨s, getElem?_idents_missed hs stamp key, hid⟩
    · rw [List.mem_singleton.mp hx]
      exact ⟨stamp, hnew, rfl⟩

theorem lookup (h : e.Coalesced) (hl : Lookup stamp key e e') : e'.Coalesced := by
  cases hl with
  | hit hfind => exact h.hit hfind
  | miss hfind hq => exact (h.miss hfind).of_quiet hq

theorem lookupKeys (h : e.Coalesced) (background : Bool) (stamp : Stamp) (keys : List Key) :
    (e.lookupKeys background stamp keys).Coalesced := by
  induction keys generalizing e with
  | nil => exact h
  | cons key rest ih =>
    rw [lookupKeys_cons]
    exact ih (h.lookup (lookup_lookupPlanned e background stamp key))

end Coalesced

/-! ### Runs -/

theorem Coalesced.serve (h : e.Coalesced) {notice : Notice} {background : Bool} {document : Uri}
    {position : Position}
    (hpast : (e.annals.read notice).past = e.annals.past)
    (hepoch : (e.annals.read notice).epoch
      = e.annals.epoch.serve (Plan.at document position).keys) :
    (e.serve notice background stamp document position).Coalesced := by
  have ha := annals_note e notice
  have hissues : (e.annals.read notice).epoch.issues = e.annals.epoch.issues ++ [] := by
    rw [hepoch, List.append_nil]
    rfl
  have hflat := Annals.issues_epochs_of_past hpast hissues
  rw [List.append_nil] at hflat hissues
  have hserved : (e.annals.read notice).epoch.Exact := by
    rw [hepoch]
    exact h.exact_epoch.serve _
  -- nothing was looked up yet, so neither the table nor the calls differ
  have hnoted : (e.note notice).Coalesced := by
    refine ⟨?_, h.entries, ?_, ?_, ?_⟩
    · rw [ha, hissues]
      exact h.table
    · rw [ha]
      exact Annals.forall_epochs_of_past h.exact hpast hserved
    · rw [ha, hflat]; exact h.calls
    · rw [ha, hflat]; exact h.idents
  exact hnoted.lookupKeys background stamp _

theorem Phase.coalesced (hp : e.Phase e') (h : e.Coalesced) : e'.Coalesced := by
  cases hp with
  | quiet hq => exact h.of_quiet hq
  | clear => exact h.close rfl rfl (annals_clear e)
  | arm document position _ =>
    exact h.of_eq (table_disarm e) (idents_disarm e) (by rw [annals_arm]) (by rw [annals_arm])
  | disarm =>
    exact h.of_eq (table_disarm e) (idents_disarm e) (by rw [annals_disarm])
      (by rw [annals_disarm])
  | goOff => exact h.of_eq rfl rfl rfl rfl
  | query background document position _ => exact h.serve rfl rfl
  | preload background document position _ =>
    have ha := annals_nextGeneration e
    have hnext : e.nextGeneration.countGeneration.Coalesced :=
      h.of_eq (table_nextGeneration e) (idents_nextGeneration e) (by rw [ha]) (by rw [ha])
    exact hnext.serve rfl rfl
  | dispose hd => exact h.close (table_dispose hd) (idents_dispose e) (annals_dispose hd)

/-- **The table and the calls are those that the annals tell of, at any time.** -/
theorem coalesced_run (options : Options) (world : F.State) (actions : List (Action F)) :
    ((opening options world).run actions).Coalesced := by
  refine run_induction Phase.coalesced ?_ actions _ ?_ ?_
  · intro e order h
    exact h.of_eq rfl rfl rfl rfl
  · intro _ e h
    exact h.of_eq rfl rfl rfl rfl
  · refine ⟨rfl, (fun _ hx => nomatch hx), fun p hp => ?_, rfl, fun _ hx => nomatch hx⟩
    cases List.mem_singleton.mp hp
    exact Epoch.exact_empty

/-- What the table, the calls and the lookups of all epochs are. -/
structure Ledger (e : Engine F) : Prop where
  /-- A query that runs asks for the keys of its plan, the line above first. -/
  asked : ∀ background r, e.disposed = false →
    (e.begin background r).1.annals.epoch.served = e.annals.epoch.served ++ r.plan.keys
  /-- And so does a preload. -/
  preloaded : ∀ background document position, e.isOver = false →
    (e.warm background document position).1.annals.epoch.served
      = e.annals.epoch.served ++ (Plan.at document position).keys
  /-- The table holds the keys of the present epoch, each where it came first. -/
  table : e.table.map Prod.fst = e.annals.epoch.served.eraseDups
  /-- The lookups of an epoch are for the keys that were asked for in it, in order. -/
  lookups : ∀ p ∈ e.annals.epochs, p.lookups.map Record.key = p.served
  /-- The calls of an epoch are for these keys, each where it came first. -/
  issues : ∀ p ∈ e.annals.epochs, p.issues.map Record.key = p.served.eraseDups
  /-- The calls of the fetcher are those of the epochs, in order. -/
  calls : (e.annals.epochs.flatMap Epoch.issues).map Record.call = List.range e.calls.size
  /-- A call departed for its key, and carries the stamp of its generation. -/
  departs : ∀ p ∈ e.annals.epochs, ∀ x ∈ p.issues, ∃ c, e.calls[x.call]? = some c ∧
    c.key = x.key ∧ c.stamp.id = x.generation ∧
    ∃ s, F.Flow s (.pending (F.depart s x.key)) e.fetcher c.status
  /-- A lookup returned the entry of the call that was made for its key in the epoch. -/
  returns : ∀ p ∈ e.annals.epochs, ∀ x ∈ p.lookups,
    x ∈ p.issues ∧ ∀ y ∈ p.issues, y.key = x.key → y = x
  /-- Any further lookup of such a key in the present epoch returns the same entry, with the stamp
  and the token of the call, and makes no call. -/
  again : ∀ x ∈ e.annals.epoch.lookups, ∃ c, e.calls[x.call]? = some c ∧
    ∀ background stamp, (e.lookup background stamp x.key).2 = (⟨x.call, c.stamp⟩, true) ∧
      (e.lookup background stamp x.key).1.calls = e.calls

/-- The entry of a key is found. -/
theorem Coalesced.find?_of_mem (h : e.Coalesced) {entry : Entry} (hx : (key, entry) ∈ e.table) :
    e.find? key = some entry := by
  cases hfind : e.find? key with
  | none =>
    have hne := List.lookup_eq_none_iff.mp hfind _ hx
    simp at hne
  | some other =>
    -- the table holds no other entry of the key
    have hnodup : (e.table.map Prod.fst).Nodup := by
      rw [h.table_keys]
      exact h.exact_epoch.nodup
    have hsame := List.inj_on_of_nodup_map hnodup (mem_of_find? hfind) hx rfl
    rw [(Prod.mk.inj hsame).2]

/-- Once a key was looked up in the present epoch, every lookup of it finds the entry of that time. -/
theorem Coalesced.again (h : e.Coalesced) {x : Record} (hx : x ∈ e.annals.epoch.lookups) :
    ∃ c, e.calls[x.call]? = some c ∧
      ∀ background stamp, (e.lookup background stamp x.key).2 = (⟨x.call, c.stamp⟩, true) ∧
        (e.lookup background stamp x.key).1.calls = e.calls := by
  have hmem := h.exact_epoch.lookups x hx
  rw [← h.table] at hmem
  obtain ⟨⟨key, entry⟩, hentry, rfl⟩ := List.mem_map.mp hmem
  obtain ⟨c, hcall, -, hstamp⟩ := exists_call (h.entries _ hentry)
  refine ⟨c, hcall, fun background stamp => ?_⟩
  have hlookup := lookup_of_some background stamp (h.find?_of_mem hentry)
  rw [hstamp]
  refine ⟨congrArg Prod.snd hlookup, ?_⟩
  show (e.lookup background stamp key).1.calls = e.calls
  rw [hlookup]
  rfl

/-- **The ledger is in order at any time.** -/
theorem ledger_run (options : Options) (world : F.State) (actions : List (Action F)) :
    ((opening options world).run actions).Ledger := by
  have hc := coalesced_run options world actions
  have hs := served_run options world actions
  have hd := departed_run options world actions
  generalize (opening options world).run actions = e at hc hs hd
  have hissues : ∀ p ∈ e.annals.epochs, p.issues.map Record.key = p.served.eraseDups := by
    intro p hp
    rw [(hc.exact p hp).keys, hs p hp]
  refine ⟨?_, ?_, ?_, hs, hissues, hc.calls, ?_, ?_, ?_⟩
  · exact fun background r hopen => (looked_begin hopen background r).served
  · exact fun background document position hopen =>
      (looked_warm hopen background document position).served
  · rw [hc.table_keys]
    exact hissues _ e.annals.epoch_mem_epochs
  · intro p hp x hx
    obtain ⟨s, hident, hid⟩ := hc.idents x (List.mem_flatMap.mpr ⟨p, hp, hx⟩)
    obtain ⟨c, hcall, hkey, hstamp⟩ := exists_call hident
    obtain ⟨s₀, hflow⟩ := hd x.call c hcall
    rw [hkey] at hflow
    exact ⟨c, hcall, hkey, by rw [hstamp, hid], s₀, hflow⟩
  · intro p hp x hx
    have hmem := (hc.exact p hp).lookups x hx
    exact ⟨hmem, fun y hy hkey => List.inj_on_of_nodup_map (hc.exact p hp).nodup hy hmem hkey⟩
  · exact fun x hx => hc.again hx

/-- Actions by which calls come back, are cancelled or are given up, and others that have nothing to
do with the table: a poll of anything but a timer that goes off or a query that did not run yet,
moving the cursor, clients that come and go, cancelling tokens, telling the fetcher something, and
waiting. -/
inductive Aside (e : Engine F) : Action F → Prop
  | move (background : Bool) (document : Uri) (position : Position) :
      Aside e (.move background document position)
  | query (r : Request) : Aside e (.query r)
  | poll {i : Nat} {j : Job} (h : e.jobs[i]? = some j) (hj : startsCalls j = false) :
      Aside e (.poll i)
  | rests {i : Nat} {token : Token} {due : Option Nat} {document : Uri} {position : Position}
      (h : e.jobs[i]? = some (.timer token due document position))
      (hrests : e.isCancelled token = true ∨ e.now < e.deadline due) : Aside e (.poll i)
  | pollOutside {i : Nat} (h : ∀ client r, e.jobs[i]? ≠ some (.query client r .queued)) :
      Aside e (.pollOutside i)
  | await (call : Nat) : Aside e (.await call)
  | abandon (client : Nat) : Aside e (.abandon client)
  | disarm : Aside e .disarm
  | cancelRoot : Aside e .cancelRoot
  | tell (order : F.Order) : Aside e (.tell order)
  | tick (ms : Nat) : Aside e (.tick ms)

/-- A query that is over may have been the last to refer to the cache, which is then cleared. -/
theorem table_reap (e : Engine F) :
    e.reap.table = e.table ∨ (e.disposed = false ∧ e.reap.disposed = true) := by
  unfold reap
  split
  · exact .inl rfl
  · cases h : e.disposed with
    | true =>
      left
      rw [dispose, if_pos h]
    | false =>
      right
      refine ⟨rfl, ?_⟩
      rw [dispose, h, if_neg Bool.false_ne_true]
      show (disarm _).disposed = true
      unfold disarm
      split <;> rfl

/-- The poll of a query brings the cache to its end. -/
structure EndsCache (e : Engine F) (a : Action F) : Prop where
  query : ∃ i client r stage background, a.Polls i background ∧
    e.jobs[i]? = some (.query client r stage)
  before : e.disposed = false
  after : (e.perform a).disposed = true

/-- A poll of a query does nothing, or puts the query back as it left it and lets the cache come to
its end if nobody refers to it any more. -/
theorem Action.Polls.query_cases {a : Action F} {background : Bool} {i client : Nat} {r : Request}
    {stage : Stage} (ha : a.Polls i background) (h : e.jobs[i]? = some (.query client r stage)) :
    e.perform a = e ∨ ∃ d j, e.perform a = (d.setJob i j).reap ∧
      (e.Quiet d ∨ (stage = .queued ∧ d = (e.begin background r).1)) := by
  rw [ha.perform_query h]
  cases stage with
  | queued => exact .inr ⟨_, _, rfl, .inr ⟨rfl, rfl⟩⟩
  | waiting previous current before =>
    exact .inr ⟨_, _, rfl, .inl (quiet_resume e r previous current before)⟩
  | leaving held before => exact .inr ⟨_, _, rfl, .inl (quiet_giveUp e r (.leaving held before))⟩
  | finished answer => exact .inl rfl
  | abandoned => exact .inl rfl

theorem EndsCache.of_reap {a : Action F} {background : Bool} {d : Engine F} {i client : Nat}
    {j : Job} {r : Request} {stage : Stage} (ha : a.Polls i background)
    (h : e.jobs[i]? = some (.query client r stage)) (hpoll : e.perform a = (d.setJob i j).reap)
    (hd : d.disposed = e.disposed)
    (hend : (d.setJob i j).disposed = false ∧ (d.setJob i j).reap.disposed = true) :
    e.EndsCache a := by
  refine ⟨⟨i, client, r, stage, background, ha, h⟩, hd.symm.trans hend.1, ?_⟩
  rw [hpoll]
  exact hend.2

/-- A query that is polled and ran before leaves the table alone, or brings the cache to its end. -/
theorem Action.Polls.table_query {a : Action F} {background : Bool} {i client : Nat} {r : Request}
    {stage : Stage} (ha : a.Polls i background) (h : e.jobs[i]? = some (.query client r stage))
    (hran : stage ≠ .queued) : (e.perform a).table = e.table ∨ e.EndsCache a := by
  rcases ha.query_cases h with heq | ⟨d, j, heq, hq | ⟨hqueued, -⟩⟩
  · left
    rw [heq]
  · rcases table_reap (d.setJob i j) with htable | hend
    · left
      rw [heq, htable]
      exact hq.table
    · exact .inr (.of_reap ha h heq hq.disposed hend)
  · exact absurd hqueued hran

theorem Aside.table {a : Action F} (h : e.Aside a) :
    (e.perform a).table = e.table ∨ e.EndsCache a := by
  cases h with
  | @poll i j h hj =>
    cases j with
    | drive call token =>
      left
      rw [perform, Engine.poll, h]
      exact (quiet_pollDriver e i call token).table
    | timer token due document position => cases hj
    | query client r stage =>
      refine (Action.Polls.inside i).table_query h ?_
      rintro rfl
      cases hj
    | await client call stage =>
      left
      rw [perform, Engine.poll, h]
      exact (quiet_pollAwait e i client call stage).table
    | ended =>
      left
      rw [perform, Engine.poll, h]
  | rests h hrests =>
    -- a timer that does not go off looks at nothing else
    left
    obtain ⟨j, hpoll⟩ := poll_timer_rests h hrests
    rw [perform, hpoll]
    rfl
  | @pollOutside i hran =>
    rcases e.pollOutside_cases i with hsame | ⟨client, r, stage, hj⟩
    · left
      rw [perform, hsame]
    · refine (Action.Polls.outside i).table_query hj ?_
      rintro rfl
      exact hran client r hj
  | move background document position =>
    left
    show (e.move background document position).table = e.table
    unfold Engine.move
    split
    · rfl
    · split
      · exact table_disarm e
      · rfl
  | query r => exact .inl rfl
  | await call => exact .inl rfl
  | abandon client => exact .inl (quiet_abandon e client).table
  | disarm => exact .inl (table_disarm e)
  | cancelRoot => exact .inl rfl
  | tell order => exact .inl rfl
  | tick ms => exact .inl rfl

/-- **Lookups coalesce exactly within epochs.**  At any time of a run the ledger is in order.  What
has nothing to do with the table leaves it alone, unless it is the poll of a query that was the last
to refer to the cache, which is then disposed of.  And a call goes on to be for its key and to carry
its stamp and its token. -/
theorem coalescing_is_exact (options : Options) (world : F.State) (actions : List (Action F)) :
    ((opening options world).run actions).Ledger ∧
    (∀ a, ((opening options world).run actions).Aside a →
      ((opening options world).run (actions ++ [a])).table
          = ((opening options world).run actions).table ∨
        ((opening options world).run actions).EndsCache a) ∧
    ∀ later, ((opening options world).run actions).idents
      <+: ((opening options world).run (actions ++ later)).idents := by
  refine ⟨ledger_run options world actions, ?_, ?_⟩
  · intro a ha
    rw [run_append]
    exact ha.table
  · intro later
    rw [run_append]
    exact (carries_run _ later).idents

/-- A query runs, the document changes, and the same query runs again. -/
def repeated : List (Action Fetcher.canned) :=
  let r : Request := ⟨⟨"file:///a"⟩, ⟨3, 0⟩, 100⟩
  [.query r, .poll 0, .edit r.document 1, .query r, .poll 3]

/-- What becomes of that, and of more actions behind it. -/
def afterRepeated (more : List (Action Fetcher.canned)) : Engine Fetcher.canned :=
  (opening {} ({} : Canned.State)).run (repeated ++ more)

/-- The driver of a call from before the change comes to its end, and the table stays. -/
theorem coalescing_is_exact_repeated :
    (afterRepeated []).calls.size = 4 ∧
    (afterRepeated []).table.map Prod.fst = (afterRepeated []).annals.epoch.served.eraseDups ∧
    (afterRepeated [.poll 1]).table = (afterRepeated []).table := by
  have hdrive : (afterRepeated []).jobs[1]? = some (.drive 0 ⟨0, []⟩) := by decide +kernel
  have hopen : (afterRepeated [.poll 1]).disposed = false := by decide +kernel
  obtain ⟨hledger, haside, -⟩ :=
    coalescing_is_exact (F := Fetcher.canned) {} ({} : Canned.State) (repeated ++ [])
  refine ⟨by decide +kernel, hledger.table, ?_⟩
  rcases haside (.poll 1) (.poll hdrive rfl) with htable | hend
  · exact htable
  · have hshut : (afterRepeated [.poll 1]).disposed = true := hend.after
    rw [hopen] at hshut
    cases hshut

end Engine

end CursorContext
