import CursorContext.Engine.Action

/-!
# What becomes of a call

A call that was started is never forgotten and never asked for anew.  It keeps its number, its key
and its stamp, and its status changes in no other way than by polls of its flight; once it is back
it stays as it is.

## Main definitions

* `Fetcher.Flow F s c s' c'` — with the fetcher in `s` and the status `c`, orders and polls lead to
  the fetcher in `s'` and the status `c'`.
* `Call.ident` — what a call keeps.
* `Engine.Carries e e'` — every call of `e` is a call of `e'`, and only flowed on.

## Main results

* `Fetcher.Flow.of_resolved` — a call that is back does not flow.
* `Engine.Carries.idents` — the keys and stamps of calls are only added to.
-/

namespace CursorContext

/-- What becomes of a status while the fetcher is told things and the flight is polled, at any
times and with its token cancelled or not. -/
inductive Fetcher.Flow (F : Fetcher) (s : F.State) (c : Status F.Flight) :
    F.State → Status F.Flight → Prop
  /-- Nothing happens. -/
  | refl : F.Flow s c s c
  /-- The fetcher is told something. -/
  | obey {s' : F.State} {c' : Status F.Flight} (order : F.Order) (h : F.Flow s c s' c') :
      F.Flow s c (F.obey s' order) c'
  /-- A poll changes the flight. -/
  | moved {s' : F.State} {f g : F.Flight} {now : Nat} {cancelled : Bool}
      (h : F.Flow s c s' (.pending f)) (hp : F.poll s' now cancelled f = .moved g) :
      F.Flow s c s' (.pending g)
  /-- A poll brings the flight back. -/
  | resolved {s' : F.State} {f : F.Flight} {o : Outcome} {now : Nat} {cancelled : Bool}
      (h : F.Flow s c s' (.pending f)) (hp : F.poll s' now cancelled f = .resolved o) :
      F.Flow s c s' (.resolved o)

namespace Fetcher.Flow

variable {F : Fetcher} {s s' s'' : F.State} {c c' c'' : Status F.Flight}

theorem trans (h : F.Flow s c s' c') (k : F.Flow s' c' s'' c'') : F.Flow s c s'' c'' := by
  induction k with
  | refl => exact h
  | obey order _ ih => exact ih.obey order
  | moved _ hp ih => exact ih.moved hp
  | resolved _ hp ih => exact ih.resolved hp

theorem of_resolved {o : Outcome} (h : F.Flow s (.resolved o) s' c') : c' = .resolved o := by
  induction h with
  | refl => rfl
  | obey _ _ ih => exact ih
  | moved _ _ ih => cases ih
  | resolved _ _ ih => cases ih

end Fetcher.Flow

/-- What a call keeps: its key and its stamp. -/
def Call.ident {F : Fetcher} (c : Call F) : Key × Stamp := (c.key, c.stamp)

namespace Engine

variable {F : Fetcher} {e e' e'' : Engine F}

/-- Every call goes on to be there and only flows on. -/
def Carries (e e' : Engine F) : Prop :=
  ∀ (i : Nat) (c : Call F), e.calls[i]? = some c →
    ∃ c', e'.calls[i]? = some c' ∧ c'.ident = c.ident ∧
      F.Flow e.fetcher c.status e'.fetcher c'.status

/-- Where neither the calls nor the fetcher change, nothing happens to calls. -/
theorem Carries.of_eq (hc : e'.calls = e.calls) (hf : e'.fetcher = e.fetcher) : e.Carries e' := by
  intro i c h
  refine ⟨c, ?_, rfl, ?_⟩
  · rw [hc]; exact h
  · rw [hf]; exact .refl

theorem Carries.refl (e : Engine F) : e.Carries e := .of_eq rfl rfl

theorem Carries.trans (h : e.Carries e') (k : e'.Carries e'') : e.Carries e'' := by
  intro i c hc
  obtain ⟨c', hc', hid, hflow⟩ := h i c hc
  obtain ⟨c'', hc'', hid', hflow'⟩ := k i c' hc'
  exact ⟨c'', hc'', hid'.trans hid, hflow.trans hflow'⟩

theorem carries_tell (e : Engine F) (order : F.Order) : e.Carries (e.tell order) := by
  intro i c h
  exact ⟨c, h, rfl, .obey order .refl⟩

/-- A new call takes nothing from those that are there. -/
theorem carries_push (h : e'.fetcher = e.fetcher) {c : Call F} (hc : e'.calls = e.calls.push c) :
    e.Carries e' := by
  intro i d hd
  have hi : i < e.calls.size := (Array.getElem?_eq_some_iff.mp hd).1
  refine ⟨d, ?_, rfl, ?_⟩
  · rw [hc, Array.getElem?_push, if_neg (by omega)]; exact hd
  · rw [h]; exact .refl

theorem carries_setStatus {i : Nat} {c : Call F} {s : Status F.Flight}
    (hc : e.calls[i]? = some c) (hs : F.Flow e.fetcher c.status e.fetcher s) :
    e.Carries (e.setStatus i s) := by
  intro j d hd
  by_cases hij : i = j
  · subst hij
    have hcd : c = d := Option.some.inj (hc.symm.trans hd)
    subst hcd
    refine ⟨{ c with status := s }, ?_, rfl, hs⟩
    simp [setStatus, Array.getElem?_modify, hc]
  · refine ⟨d, ?_, rfl, .refl⟩
    simp [setStatus, Array.getElem?_modify, hij, hd]

theorem Carries.size_le (h : e.Carries e') : e.calls.size ≤ e'.calls.size := by
  rcases Nat.lt_or_ge e'.calls.size e.calls.size with hlt | hge
  · -- the call of `e` that is the first one missing in `e'` would have to be there
    obtain ⟨c', hc', -⟩ := h e'.calls.size _ (Array.getElem?_eq_getElem hlt)
    have := (Array.getElem?_eq_some_iff.mp hc').1
    omega
  · exact hge

/-- The keys and the stamps of all calls, in order. -/
def idents (e : Engine F) : List (Key × Stamp) := e.calls.toList.map Call.ident

theorem getElem?_idents (e : Engine F) (i : Nat) :
    e.idents[i]? = e.calls[i]?.map Call.ident := by
  simp [idents]

@[simp] theorem length_idents (e : Engine F) : e.idents.length = e.calls.size := by
  simp [idents]

theorem exists_call {i : Nat} {key : Key} {stamp : Stamp} (h : e.idents[i]? = some (key, stamp)) :
    ∃ c, e.calls[i]? = some c ∧ c.key = key ∧ c.stamp = stamp := by
  rw [getElem?_idents, Option.map_eq_some_iff] at h
  obtain ⟨c, hc, hident⟩ := h
  exact ⟨c, hc, congrArg Prod.fst hident, congrArg Prod.snd hident⟩

theorem mem_cancelledCalls {i : Nat} {c : Call F} (hc : e.calls[i]? = some c) :
    i ∈ e.cancelledCalls ↔ e.isCancelled c.stamp.token = true := by
  have hlt := (Array.getElem?_eq_some_iff.mp hc).1
  rw [cancelledCalls, List.mem_filter, List.mem_range]
  simp only [hc, hlt, true_and]

theorem size_of_idents_eq (h : e'.idents = e.idents) : e'.calls.size = e.calls.size := by
  rw [← length_idents, h, length_idents]

/-- **The keys and stamps of calls are only added to.** -/
theorem Carries.idents (h : e.Carries e') : e.idents <+: e'.idents := by
  rw [List.prefix_iff_getElem?]
  intro i hi
  rw [length_idents] at hi
  obtain ⟨c', hc', hid, -⟩ := h i _ (Array.getElem?_eq_getElem hi)
  rw [getElem?_idents, hc', Option.map_some, hid]
  simp [Engine.idents]

/-- A call keeps its key and its stamp. -/
theorem Carries.ident (h : e.Carries e') {i : Nat} {x : Key × Stamp}
    (hx : e.idents[i]? = some x) : e'.idents[i]? = some x := by
  obtain ⟨more, hmore⟩ := h.idents
  have hlt := (List.getElem?_eq_some_iff.mp hx).1
  rw [← hmore, List.getElem?_append_left hlt]
  exact hx

/-- As long as no call is added, nothing but the status of calls changes. -/
theorem Carries.idents_eq (h : e.Carries e') (hs : e'.calls.size = e.calls.size) :
    e'.idents = e.idents :=
  (h.idents.eq_of_length (by simp [hs])).symm

end Engine

end CursorContext
