import Mathlib.Data.List.Induction
import CursorContext.Generations

/-!
# Who cancels a generation

Handles of one generation are the same token, and those of the foreground are the root itself, so
cancelling one handle reaches others.  Whether a token is cancelled can be told from the history: a
generation is cancelled when the next one begins, when one of its handles is cancelled, or with the
root; the root when it is cancelled itself, when a handle of the foreground is, or with the outer
token; and the outer token only by itself.

## Main definitions

* `Handle`, `Lineage.handed` — the stamps that were handed out, as the history tells of them.
* `Lineage.Struck` — a handle was cancelled directly.
* `Lineage.Recorded` — the tokens and stamps of a lineage are those its history tells of.
* `Lineage.Lineal` — what cancels the tokens of a lineage.

## Main results

* `Lineage.mem_cancelled_act` — the tokens that one action cancels directly.
* `Lineage.recorded_run` — the invariant holds after every history.
* `Lineage.lineal_run` — what cancels the tokens of a lineage, after every history.
-/

namespace CursorContext

/-! ### Tokens below a token -/

namespace TokenTree

/-- A token directly below another one is cancelled by itself or with that one. -/
theorem isCancelled_below {s : TokenTree} (n : Nat) (t : Token) :
    s.isCancelled ⟨n, t.line⟩ = true ↔ n ∈ s.cancelled ∨ s.isCancelled t = true := by
  rw [isCancelled_eq_true, isCancelled_eq_true]
  simp [Token.line]

/-- Where more numbers were cancelled, every token that was cancelled is. -/
theorem isCancelled_mono {s s' : TokenTree} (h : ∀ n ∈ s.cancelled, n ∈ s'.cancelled) {t : Token}
    (ht : s.isCancelled t = true) : s'.isCancelled t = true := by
  rw [isCancelled_eq_true] at ht ⊢
  obtain ⟨n, hn, hc⟩ := ht
  exact ⟨n, hn, h n hc⟩

end TokenTree

/-! ### Handles -/

/-- A stamp as the history tells of it: how it was taken, and which generation was current. -/
inductive Handle
  /-- The stamp of a generation, taken when it began or while it was current. -/
  | generation (id : Nat)
  /-- The stamp of a query in the foreground. -/
  | foreground (id : Nat)
  deriving DecidableEq, Repr

namespace Handle

/-- The number on the stamp. -/
def id : Handle → Nat
  | generation id => id
  | foreground id => id

end Handle

namespace Lineage

/-- The token above the root. -/
def outerToken : Token := ⟨0, []⟩

/-- The root. -/
def rootToken : Token := ⟨1, outerToken.line⟩

/-- The token of a generation. -/
def generationToken (n : Nat) : Token := ⟨n + 2, rootToken.line⟩

/-- The token that a handle carries. -/
def token : Handle → Token
  | .generation id => generationToken id
  | .foreground _ => rootToken

/-- The handles that an action hands out while generation `n` is current. -/
def offered (n : Nat) : Action → List Handle
  | .next => [.generation (n + 1)]
  | .current => [.generation n]
  | .foreground => [.foreground n]
  | .cancelRoot => []
  | .cancelOuter => []
  | .cancelStamp _ => []

/-- The handles that were handed out from generation `n` on, the newest last. -/
def handed (n : Nat) : List Action → List Handle
  | [] => []
  | a :: rest => offered n a ++ handed (n + [a].count .next) rest

/-- A handle like this one was cancelled directly, after it was handed out. -/
def Struck (actions : List Action) (h : Handle) : Prop :=
  ∃ past back rest, actions = past ++ .cancelStamp back :: rest ∧
    (handed 0 past).reverse[back]? = some h

theorem generationToken_injective : Function.Injective generationToken := by
  intro n m h
  simpa [generationToken] using h

theorem handed_concat (n : Nat) (past : List Action) (a : Action) :
    handed n (past ++ [a]) = handed n past ++ offered (n + past.count .next) a := by
  induction past generalizing n with
  | nil => simp [handed]
  | cons b past ih =>
    rw [List.cons_append, handed, ih, handed, List.append_assoc, Nat.add_assoc,
      ← List.count_append, List.singleton_append]

theorem struck_concat {past : List Action} {a : Action} {h : Handle} :
    Struck (past ++ [a]) h ↔
      Struck past h ∨ ∃ back, a = .cancelStamp back ∧ (handed 0 past).reverse[back]? = some h := by
  constructor
  · rintro ⟨before, back, rest, hsplit, hback⟩
    -- The cancellation is the last action, or it is one of those before.
    induction rest using List.reverseRecOn with
    | nil =>
      obtain ⟨rfl, ha⟩ := List.append_inj' hsplit rfl
      exact .inr ⟨back, List.singleton_inj.mp ha, hback⟩
    | append_singleton rest b _ =>
      rw [← List.cons_append, ← List.append_assoc] at hsplit
      exact .inl ⟨before, back, rest, (List.append_inj' hsplit rfl).1, hback⟩
  · rintro (⟨before, back, rest, rfl, hback⟩ | ⟨back, rfl, hback⟩)
    · exact ⟨before, back, rest ++ [a], by simp, hback⟩
    · exact ⟨past, back, [], rfl, hback⟩

/-! ### One action -/

variable {l : Lineage} {actions : List Action}

@[simp] theorem run_concat (l : Lineage) (past : List Action) (a : Action) :
    l.run (past ++ [a]) = (l.run past).act a := by
  simp [run]

/-- An action cancels the token with a number directly. -/
def Fells (l : Lineage) (n : Nat) : Action → Prop
  | .next => n = l.generations.current.token.id
  | .current => False
  | .foreground => False
  | .cancelRoot => n = l.generations.root.id
  | .cancelOuter => n = l.outer.id
  | .cancelStamp back => ∃ stamp, l.stamps.reverse[back]? = some stamp ∧ n = stamp.token.id

/-- What was cancelled directly stays so, and an action adds what it cancels. -/
theorem mem_cancelled_act (l : Lineage) (n : Nat) (a : Action) :
    n ∈ (l.act a).tokens.cancelled ↔ l.Fells n a ∨ n ∈ l.tokens.cancelled := by
  cases a with
  | next => exact NumberSet.mem_insert
  | current => exact (or_iff_right id).symm
  | foreground => exact (or_iff_right id).symm
  | cancelRoot => exact NumberSet.mem_insert
  | cancelOuter => exact NumberSet.mem_insert
  | cancelStamp back =>
    simp only [act, Fells]
    split
    · next stamp hstamp => simp [hstamp, TokenTree.cancel]
    · next hnone => simp [hnone]

/-- Cancelling a handle changes which tokens are cancelled, and nothing else. -/
theorem act_cancelStamp (l : Lineage) (back : Nat) :
    ∃ tokens : TokenTree, tokens.issued = l.tokens.issued ∧
      l.act (.cancelStamp back) = { l with tokens } := by
  rw [act]
  split
  · next stamp _ => exact ⟨l.tokens.cancel stamp.token, rfl, rfl⟩
  · exact ⟨l.tokens, rfl, rfl⟩

theorem outer_act (l : Lineage) (a : Action) : (l.act a).outer = l.outer := by
  cases a with
  | cancelStamp back =>
    obtain ⟨tokens, -, hact⟩ := act_cancelStamp l back
    rw [hact]
  | _ => rfl

theorem root_act (l : Lineage) (a : Action) : (l.act a).generations.root = l.generations.root := by
  cases a with
  | cancelStamp back =>
    obtain ⟨tokens, -, hact⟩ := act_cancelStamp l back
    rw [hact]
  | _ => rfl

/-- A cancelled token stays cancelled, whatever is done. -/
theorem isCancelled_run {t : Token} (h : l.tokens.isCancelled t = true) (later : List Action) :
    (l.run later).tokens.isCancelled t = true := by
  induction later using List.reverseRecOn with
  | nil => exact h
  | append_singleton past a ih =>
    rw [run_concat]
    exact TokenTree.isCancelled_mono (fun n hn => (mem_cancelled_act _ n a).mpr (.inr hn)) ih

/-! ### The history tells of all tokens -/

/-- The tokens and stamps of a lineage are those its history tells of. -/
structure Recorded (l : Lineage) (actions : List Action) : Prop where
  /-- The outer token is the first. -/
  outer : l.outer = outerToken
  /-- The root is the second. -/
  root : l.generations.root = rootToken
  /-- Every generation has a token of its own, the current one the newest. -/
  current : l.generations.current = ⟨actions.count .next, generationToken (actions.count .next)⟩
  /-- No other tokens were made. -/
  issued : l.tokens.issued = actions.count .next + 3
  /-- The stamps are those of the handles. -/
  stamps : l.stamps = (handed 0 actions).map fun h => ⟨h.id, token h⟩
  /-- The outer token was cancelled directly if it was asked to be. -/
  outerCancelled : 0 ∈ l.tokens.cancelled ↔ .cancelOuter ∈ actions
  /-- The root was, if it was asked to be, by itself or as a handle of the foreground. -/
  rootCancelled : 1 ∈ l.tokens.cancelled ↔
    .cancelRoot ∈ actions ∨ ∃ n, Struck actions (.foreground n)
  /-- A generation was, if another came after it or a handle of it was cancelled. -/
  generationCancelled : ∀ n, n + 2 ∈ l.tokens.cancelled ↔
    n < actions.count .next ∨ Struck actions (.generation n)

theorem not_struck_nil (h : Handle) : ¬ Struck [] h := by
  rintro ⟨past, back, rest, hsplit, -⟩
  simp at hsplit

theorem recorded_start : start.Recorded [] where
  outer := rfl
  root := rfl
  current := rfl
  issued := rfl
  stamps := rfl
  outerCancelled := by decide
  rootCancelled := by
    simp only [List.not_mem_nil, not_struck_nil, exists_const, or_self, iff_false]
    decide
  generationCancelled n := by
    simp only [List.count_nil, Nat.not_lt_zero, not_struck_nil, or_self, iff_false]
    exact NumberSet.not_mem_empty _

/-- The generation that begins has the next number and a token of its own. -/
theorem Recorded.current_next (h : l.Recorded actions) :
    (l.act .next).generations.current
      = ⟨actions.count .next + 1, generationToken (actions.count .next + 1)⟩ := by
  simp [Lineage.act, Generations.next, TokenTree.child, TokenTree.cancel, h.current, h.root,
    h.issued, generationToken]

/-- The handle that an action cancels is told by the history, like its token. -/
theorem Recorded.fells_cancelStamp (h : l.Recorded actions) {n back : Nat} :
    l.Fells n (.cancelStamp back) ↔
      ∃ handle, (handed 0 actions).reverse[back]? = some handle ∧ n = (token handle).id := by
  simp only [Fells, h.stamps, ← List.map_reverse, List.getElem?_map, Option.map_eq_some_iff]
  constructor
  · rintro ⟨stamp, ⟨handle, hhandle, rfl⟩, rfl⟩
    exact ⟨handle, hhandle, rfl⟩
  · rintro ⟨handle, hhandle, rfl⟩
    exact ⟨_, ⟨handle, hhandle, rfl⟩, rfl⟩

/-- No handle carries the outer token. -/
theorem Recorded.fells_outer (h : l.Recorded actions) {a : Action} :
    l.Fells 0 a ↔ a = .cancelOuter := by
  -- Tokens are told apart by their numbers, and those of handles begin at 1.
  cases a with
  | cancelStamp back =>
    rw [h.fells_cancelStamp]
    simp only [reduceCtorEq, iff_false]
    rintro ⟨handle | handle, -, hn⟩ <;> simp [token, rootToken, generationToken] at hn
  | _ => simp [Fells, h.current, h.root, h.outer, outerToken, rootToken, generationToken]

/-- The handles of the foreground carry the root. -/
theorem Recorded.fells_root (h : l.Recorded actions) {a : Action} :
    l.Fells 1 a ↔ a = .cancelRoot ∨ ∃ n back, a = .cancelStamp back ∧
      (handed 0 actions).reverse[back]? = some (.foreground n) := by
  cases a with
  | cancelStamp back =>
    rw [h.fells_cancelStamp]
    simp only [reduceCtorEq, false_or, Action.cancelStamp.injEq]
    constructor
    · rintro ⟨id | id, hhandle, hn⟩
      · simp [token, generationToken] at hn
      · exact ⟨id, back, rfl, hhandle⟩
    · rintro ⟨id, _, rfl, hhandle⟩
      exact ⟨_, hhandle, rfl⟩
  | _ => simp [Fells, h.current, h.root, h.outer, outerToken, rootToken, generationToken]

/-- The handles of a generation carry its token, which the next generation cancels. -/
theorem Recorded.fells_generation (h : l.Recorded actions) {n : Nat} {a : Action} :
    l.Fells (n + 2) a ↔ (a = .next ∧ n = actions.count .next) ∨ ∃ back, a = .cancelStamp back ∧
      (handed 0 actions).reverse[back]? = some (.generation n) := by
  cases a with
  | cancelStamp back =>
    rw [h.fells_cancelStamp]
    simp only [reduceCtorEq, false_and, false_or, Action.cancelStamp.injEq]
    constructor
    · rintro ⟨id | id, hhandle, hn⟩
      · obtain rfl : n = id := by simpa [token, generationToken] using hn
        exact ⟨back, rfl, hhandle⟩
      · simp [token, rootToken] at hn
    · rintro ⟨_, rfl, hhandle⟩
      exact ⟨_, hhandle, rfl⟩
  | _ => simp [Fells, h.current, h.root, h.outer, outerToken, rootToken, generationToken]

/-- The history goes on telling of all tokens, whatever is done. -/
theorem Recorded.act (h : l.Recorded actions) (a : Action) :
    (l.act a).Recorded (actions ++ [a]) where
  outer := by rw [outer_act, h.outer]
  root := by rw [root_act, h.root]
  current := by
    cases a with
    | next => rw [h.current_next, List.count_append, List.count_singleton_self]
    | cancelStamp back =>
      obtain ⟨tokens, -, hact⟩ := act_cancelStamp l back
      rw [hact]
      simpa using h.current
    | _ => simp [Lineage.act, h.current]
  issued := by
    cases a with
    | next =>
      show l.tokens.issued + 1 = _
      rw [h.issued, List.count_append, List.count_singleton_self, Nat.add_right_comm]
    | cancelStamp back =>
      obtain ⟨tokens, hissued, hact⟩ := act_cancelStamp l back
      rw [hact]
      simpa [hissued] using h.issued
    | _ => simp [Lineage.act, TokenTree.cancel, h.issued]
  stamps := by
    rw [handed_concat, List.map_append, ← h.stamps, Nat.zero_add]
    cases a with
    | next =>
      show l.stamps ++ [(l.act .next).generations.current] = _
      rw [h.current_next]
      rfl
    | current =>
      show l.stamps ++ [l.generations.current] = _
      rw [h.current]
      rfl
    | foreground =>
      show l.stamps ++ [⟨l.generations.current.id, l.generations.root⟩] = _
      rw [h.current, h.root]
      rfl
    | cancelRoot => exact (List.append_nil _).symm
    | cancelOuter => exact (List.append_nil _).symm
    | cancelStamp back =>
      obtain ⟨tokens, -, hact⟩ := act_cancelStamp l back
      rw [hact]
      exact (List.append_nil _).symm
  outerCancelled := by
    rw [mem_cancelled_act, h.fells_outer, h.outerCancelled, List.mem_append, List.mem_singleton,
      or_comm, eq_comm]
  rootCancelled := by
    simp only [mem_cancelled_act, h.fells_root, h.rootCancelled, struck_concat, exists_or,
      List.mem_append, List.mem_singleton]
    rw [or_or_or_comm, eq_comm]
    exact or_congr or_comm or_comm
  generationCancelled n := by
    have hpassed : n < (actions ++ [a]).count .next ↔
        (a = .next ∧ n = actions.count .next) ∨ n < actions.count .next := by
      rw [List.count_append]
      by_cases ha : a = .next
      · subst ha
        rw [List.count_singleton_self, Nat.lt_succ_iff_lt_or_eq, or_comm]
        simp
      · have hnone : [a].count .next = 0 :=
          List.count_eq_zero_of_not_mem (by simpa using Ne.symm ha)
        simp [ha, hnone]
    rw [mem_cancelled_act, h.fells_generation, h.generationCancelled, struck_concat, hpassed,
      or_or_or_comm]
    exact or_congr_right or_comm

/-- **The history tells of all tokens.** -/
theorem recorded_run (actions : List Action) : (start.run actions).Recorded actions := by
  induction actions using List.reverseRecOn with
  | nil => exact recorded_start
  | append_singleton past a ih =>
    rw [run_concat]
    exact ih.act a

/-! ### Who cancels whom -/

/-- A handle has the number of a generation that had begun by then. -/
theorem id_le_of_mem_handed {n : Nat} {h : Handle} (hh : h ∈ handed n actions) :
    h.id ≤ n + actions.count .next := by
  induction actions generalizing n with
  | nil => simp [handed] at hh
  | cons a rest ih =>
    rw [← List.singleton_append, List.count_append, ← Nat.add_assoc]
    rw [handed, List.mem_append] at hh
    rcases hh with hh | hh
    · have hid : h.id ≤ n + [a].count .next := by
        cases a <;> simp [offered] at hh <;> simp [hh, Handle.id]
      omega
    · exact ih hh

/-- The handles that were handed out, each with its stamp. -/
def taken (l : Lineage) (actions : List Action) : List (Handle × Stamp) :=
  (handed 0 actions).zip l.stamps

/-- A handle's stamp has its number and its token. -/
theorem Recorded.stamp_eq (h : l.Recorded actions) {handle : Handle} {stamp : Stamp}
    (hmem : (handle, stamp) ∈ l.taken actions) :
    stamp = ⟨handle.id, token handle⟩ := by
  rw [taken, h.stamps, ← List.map_prod_left_eq_zip, List.mem_map] at hmem
  obtain ⟨handle', -, heq⟩ := hmem
  obtain ⟨rfl, rfl⟩ := Prod.mk.inj heq
  rfl

/-- What cancels the tokens of a lineage after some actions. -/
structure Lineal (l : Lineage) (actions : List Action) : Prop where
  /-- The number of the current generation is how often the next one was begun. -/
  count : l.generations.current.id = actions.count .next
  /-- Every stamp has the number of the generation that was current when it was handed out. -/
  ids : l.stamps.map Stamp.id = (handed 0 actions).map Handle.id
  /-- No stamp has a number above that of the current generation, so a word holds them all as long
  as it can count the beginnings. -/
  bound : ∀ stamp ∈ l.stamps, stamp.id ≤ l.generations.current.id
  /-- Handles of generations have the same token exactly if they are of the same generation. -/
  shared : ∀ n m stamp stamp', (.generation n, stamp) ∈ l.taken actions →
    (.generation m, stamp') ∈ l.taken actions → (stamp.token = stamp'.token ↔ n = m)
  /-- A generation is cancelled by a later one, through one of its handles, or with the root. -/
  generation : ∀ n stamp, (.generation n, stamp) ∈ l.taken actions →
    (l.tokens.isCancelled stamp.token = true ↔ n < l.generations.current.id ∨
      Struck actions (.generation n) ∨ l.tokens.isCancelled l.generations.root = true)
  /-- A query in the foreground is cancelled with the root only. -/
  foreground : ∀ n stamp, (.foreground n, stamp) ∈ l.taken actions →
    (l.tokens.isCancelled stamp.token = true ↔
      l.tokens.isCancelled l.generations.root = true)
  /-- The root is cancelled with the outer token, by itself, or through a query in the
  foreground. -/
  root : l.tokens.isCancelled l.generations.root = true ↔
    .cancelOuter ∈ actions ∨ .cancelRoot ∈ actions ∨ ∃ n, Struck actions (.foreground n)
  /-- The outer token is cancelled by itself only. -/
  outer : l.tokens.isCancelled l.outer = true ↔ .cancelOuter ∈ actions
  /-- What is cancelled stays so. -/
  stays : ∀ t later, l.tokens.isCancelled t = true → (l.run later).tokens.isCancelled t = true
  /-- The next generation is born cancelled exactly if the root is cancelled. -/
  born : (l.act .next).tokens.isCancelled (l.act .next).generations.current.token = true ↔
    l.tokens.isCancelled l.generations.root = true

theorem Recorded.isCancelled_outer (h : l.Recorded actions) :
    l.tokens.isCancelled l.outer = true ↔ .cancelOuter ∈ actions := by
  rw [h.outer, ← h.outerCancelled, TokenTree.isCancelled_eq_true]
  simp [outerToken, Token.line]

theorem Recorded.isCancelled_root (h : l.Recorded actions) :
    l.tokens.isCancelled l.generations.root = true ↔
      .cancelOuter ∈ actions ∨ .cancelRoot ∈ actions ∨ ∃ n, Struck actions (.foreground n) := by
  rw [h.root, rootToken, TokenTree.isCancelled_below, ← h.outer, h.isCancelled_outer,
    h.rootCancelled, or_comm]

theorem Recorded.isCancelled_generation (h : l.Recorded actions) (n : Nat) :
    l.tokens.isCancelled (generationToken n) = true ↔
      n < actions.count .next ∨ Struck actions (.generation n) ∨
        l.tokens.isCancelled l.generations.root = true := by
  rw [generationToken, TokenTree.isCancelled_below, h.generationCancelled, h.root, or_assoc]

/-- No handle of a generation is cancelled before it began. -/
theorem not_struck_of_count_lt {n : Nat} (hn : actions.count .next < n) :
    ¬ Struck actions (.generation n) := by
  rintro ⟨past, back, rest, rfl, hback⟩
  have hmem : Handle.generation n ∈ handed 0 past :=
    List.mem_reverse.mp (List.mem_of_getElem? hback)
  have hle : n ≤ 0 + past.count .next := id_le_of_mem_handed hmem
  rw [List.count_append] at hn
  omega

/-- Nothing is cancelled that was not made. -/
theorem Recorded.cancelled_lt (h : l.Recorded actions) :
    ∀ n ∈ l.tokens.cancelled, n < l.tokens.issued := by
  intro n hn
  rw [h.issued]
  match n, hn with
  | 0, _ => omega
  | 1, _ => omega
  | n + 2, hn =>
    rcases (h.generationCancelled n).mp hn with hlt | hstruck
    · omega
    · by_contra hle
      exact not_struck_of_count_lt (by omega) hstruck

/-- The generation that begins is cancelled by nothing but the root. -/
theorem Recorded.isCancelled_next (h : l.Recorded actions) :
    (l.act .next).tokens.isCancelled (l.act .next).generations.current.token = true ↔
      l.tokens.isCancelled l.generations.root = true := by
  have hcurrent : l.generations.current.token.id < l.tokens.issued := by
    rw [h.current, h.issued, generationToken]
    exact Nat.lt_succ_self _
  have hmade : ∀ n ∈ (l.tokens.cancel l.generations.current.token).cancelled,
      n < l.tokens.issued := by
    intro n hn
    rcases NumberSet.mem_insert.mp hn with rfl | hn
    · exact hcurrent
    · exact h.cancelled_lt n hn
  -- the generation before is no token above the root
  have hroot : l.generations.current.token.id ∉ l.generations.root.line := by
    simp [h.current, h.root, generationToken, rootToken, outerToken, Token.line]
  show ((l.tokens.cancel l.generations.current.token).child l.generations.root).2.isCancelled
    ((l.tokens.cancel l.generations.current.token).child l.generations.root).1 = true ↔ _
  rw [TokenTree.isCancelled_child _ hmade, TokenTree.isCancelled_cancel, or_iff_right hroot]

/-- What the history tells of a lineage settles what cancels its tokens. -/
theorem Recorded.lineal (h : l.Recorded actions) : l.Lineal actions where
  count := by rw [h.current]
  ids := by rw [h.stamps, List.map_map]; rfl
  bound stamp hmem := by
    rw [h.stamps, List.mem_map] at hmem
    obtain ⟨handle, hhandle, rfl⟩ := hmem
    rw [h.current]
    simpa using id_le_of_mem_handed hhandle
  shared n m stamp stamp' hn hm := by
    obtain rfl := h.stamp_eq hn
    obtain rfl := h.stamp_eq hm
    exact generationToken_injective.eq_iff
  generation n stamp hn := by
    obtain rfl := h.stamp_eq hn
    rw [h.current]
    exact h.isCancelled_generation n
  foreground n stamp hn := by
    obtain rfl := h.stamp_eq hn
    rw [h.root]
    rfl
  root := h.isCancelled_root
  outer := h.isCancelled_outer
  stays _ later ht := isCancelled_run ht later
  born := h.isCancelled_next

/-- **Generations are cancelled along their line.**  After every history, the number of the current
generation counts the beginnings, and every stamp has the number that was current when it was handed
out.  The handles of a generation share a token, which is cancelled exactly if the generation is
over, if one of its handles was cancelled, or if the root is; those of the foreground exactly if the
root is; the root exactly if it or the outer token was cancelled, or a handle of the foreground;
and the outer token by itself only.  Nothing cancelled comes back, and a generation that begins
below a cancelled root is born cancelled. -/
theorem lineal_run (actions : List Action) : (start.run actions).Lineal actions :=
  (recorded_run actions).lineal

/-- A handle of the first generation is cancelled and then one of the foreground, which is the
root; the generation begun after that is born cancelled. -/
def tangled : List Action :=
  [.current, .next, .foreground, .current, .cancelStamp 0, .next, .cancelStamp 2, .next]

/-- The handle that was cancelled took the other one of generation 1 with it and nothing else; the
one of the foreground took the root and the two generations below it, and not the outer token. -/
theorem lineal_run_tangled :
    (start.run (tangled.take 5)).view = [(0, true), (1, true), (1, false), (1, true)] ∧
    (start.run tangled).view
      = [(0, true), (1, true), (1, true), (1, true), (2, true), (3, true)] ∧
    (start.run tangled).generations.current.id = 3 ∧
    (start.run (tangled.take 5)).tokens.isCancelled (generationToken 1) = true ∧
    (start.run tangled).tokens.isCancelled rootToken = true ∧
    (start.run tangled).tokens.isCancelled outerToken = false := by
  have hhandle : Struck (tangled.take 5) (.generation 1) :=
    ⟨[.current, .next, .foreground, .current], 0, [], rfl, rfl⟩
  have hforeground : Struck tangled (.foreground 1) :=
    ⟨[.current, .next, .foreground, .current, .cancelStamp 0, .next], 2, [.next], rfl, rfl⟩
  refine ⟨by decide +kernel, by decide +kernel, (lineal_run tangled).count, ?_, ?_, ?_⟩
  · exact ((lineal_run (tangled.take 5)).generation 1 ⟨1, generationToken 1⟩
      (by decide +kernel)).mpr (.inr (.inl hhandle))
  · exact (lineal_run tangled).root.mpr (.inr (.inr ⟨1, hforeground⟩))
  · exact Bool.eq_false_iff.mpr ((lineal_run tangled).outer.not.mpr (by decide))

end Lineage

end CursorContext
