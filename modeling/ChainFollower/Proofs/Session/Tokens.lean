import ChainFollower.Session.Token
import Mathlib.Logic.Relation

/-!
# Which tokens are cancelled

Tokens are made one after the other, each on its own, below another one, or as a copy of one, and in
between any of them may be cancelled.  This history alone tells which tokens are cancelled
(`Tokens.CancelledBy`): those that were cancelled themselves, or by a copy, or by an ancestor.

Tokens know nothing of each other but the signals of their lineages.  The invariant `Tokens.Traced`
says how these come from the history: a child has a fresh signal before the lineage of its parent,
and only copies share their own signal.  So a token's own signal is in the lineage of another one
exactly if it stands above it.

Main statement: `Tokens.cancelled_by_tree`.
-/

namespace ChainFollower

namespace Token

/-! ## Histories -/

/-- Where a token comes from.  Tokens are numbered in the order in which they come. -/
inductive Origin
  | new
  | child (parent : Nat)
  /-- The same token under another number. -/
  | clone (original : Nat)
  deriving DecidableEq

/-- What is done with tokens, which are named by their numbers. -/
inductive Action
  | make (origin : Origin)
  | cancel (token : Nat)
  deriving DecidableEq

/-- The origin of the token that an action makes. -/
def Action.origin? : Action → Option Origin
  | .make origin => some origin
  | .cancel _ => none

/-- A token next to another one, on the same level of the tree or one level higher. -/
inductive Borders (origins : List Origin) : Nat → Nat → Prop
  | parent {p t : Nat} (h : origins[t]? = some (.child p)) : Borders origins p t
  | original {u t : Nat} (h : origins[t]? = some (.clone u)) : Borders origins u t
  | clone {u t : Nat} (h : origins[u]? = some (.clone t)) : Borders origins u t

/-- The first token is the second one, a copy of it or an ancestor of it. -/
abbrev IsAbove (origins : List Origin) : Nat → Nat → Prop :=
  Relation.ReflTransGen (Borders origins)

/-- The token was made as a copy. -/
def IsCopy (origins : List Origin) (t : Nat) : Prop := ∃ u, origins[t]? = some (.clone u)

end Token

open Token (Action Origin Borders IsAbove IsCopy)

/-- Tokens by their numbers, and their signals. -/
structure Tokens where
  held : List Token
  signals : Signals

namespace Tokens

/-- No tokens yet. -/
def empty : Tokens := ⟨[], .empty⟩

/-- One token more. -/
def add (s : Tokens) (made : Token × Signals) : Tokens := ⟨s.held ++ [made.1], made.2⟩

/-- Makes a token, if the one that it is made from is there. -/
def make? (s : Tokens) : Origin → Option Tokens
  | .new => some (s.add s.signals.new)
  | .child parent => (s.held[parent]?).map fun token => s.add (s.signals.child token)
  | .clone original => (s.held[original]?).map fun token => s.add (token, s.signals)

/-- The tokens after an action, if the ones that it names are there. -/
def step? (s : Tokens) : Action → Option Tokens
  | .make origin => s.make? origin
  | .cancel t => (s.held[t]?).map fun token => { s with signals := s.signals.cancel token }

/-- The tokens after several actions, one after the other. -/
def run? (s : Tokens) : List Action → Option Tokens
  | [] => some s
  | action :: rest => (s.step? action).bind fun s' => s'.run? rest

/-- The origins of the tokens that were made, by their numbers. -/
def origins (log : List Action) : List Origin := log.filterMap Action.origin?

/-- By this history a token is cancelled: it was cancelled itself, or a copy or an ancestor of it
was. -/
def CancelledBy (log : List Action) (t : Nat) : Prop :=
  ∃ u, .cancel u ∈ log ∧ IsAbove (origins log) u t

/-! ## Steps -/

variable {s s' : Tokens} {log past rest : List Action} {action : Action} {origin : Origin}
  {token other : Token} {t u : Nat}

theorem origins_append (past rest : List Action) :
    origins (past ++ rest) = origins past ++ origins rest := List.filterMap_append

theorem getElem?_concat_iff {α : Type} {as : List α} {a b : α} {i : Nat} :
    (as ++ [a])[i]? = some b ↔ as[i]? = some b ∨ i = as.length ∧ a = b := by
  rw [List.getElem?_append]
  split
  · next h => simp [Nat.ne_of_lt h]
  · next h =>
    have hnone : as[i]? = none := List.getElem?_eq_none (Nat.le_of_not_lt h)
    rw [hnone, List.getElem?_singleton]
    by_cases hi : i = as.length
    · simp [hi]
    · have hpos : ¬ i - as.length = 0 := by omega
      simp [hi, hpos]

theorem lt_of_getElem? {α : Type} {as : List α} {a : α} {i : Nat} (h : as[i]? = some a) :
    i < as.length := (List.getElem?_eq_some_iff.1 h).1

/-- What a token is by its origin: a child has a signal of its own before the lineage of its parent,
and a copy has the signals of the original. -/
inductive From (held : List Token) (t : Nat) : Origin → Token → Prop
  | new (own : Nat) : From held t .new ⟨own, []⟩
  | child {p own : Nat} {parent : Token} (hlt : p < t) (hparent : held[p]? = some parent)
      (hfresh : own ∉ parent.lineage) : From held t (.child p) ⟨own, parent.lineage⟩
  | clone {u : Nat} {token : Token} (hlt : u < t) (horiginal : held[u]? = some token) :
      From held t (.clone u) token

/-- The tokens are what the history has made of them, and the signals that it has raised are the
own signals of the tokens that it has cancelled. -/
structure Traced (log : List Action) (s : Tokens) : Prop where
  length_eq : s.held.length = (origins log).length
  origin : ∀ {t : Nat} {token : Token}, s.held[t]? = some token →
    ∃ origin, (origins log)[t]? = some origin ∧ From s.held t origin token
  bounded : ∀ token ∈ s.held, ∀ signal ∈ token.lineage, signal < s.signals.count
  /-- Only copies share their own signal. -/
  unique : ∀ {t u : Nat} {token other : Token}, s.held[t]? = some token →
    s.held[u]? = some other → ¬ IsCopy (origins log) t → ¬ IsCopy (origins log) u →
      token.own = other.own → t = u
  known : ∀ t, .cancel t ∈ log → ∃ token, s.held[t]? = some token
  raised : ∀ signal, signal ∈ s.signals.raised ↔
    ∃ t token, .cancel t ∈ log ∧ s.held[t]? = some token ∧ token.own = signal

theorem From.mono {held : List Token} (h : From held t origin token) (added : Token) :
    From (held ++ [added]) t origin token := by
  cases h with
  | new own => exact .new own
  | child hlt hparent hfresh => exact .child hlt (getElem?_concat_iff.2 (.inl hparent)) hfresh
  | clone hlt horiginal => exact .clone hlt (getElem?_concat_iff.2 (.inl horiginal))

theorem traced_empty : Traced [] empty where
  length_eq := rfl
  origin h := nomatch h
  bounded := List.forall_mem_nil _
  unique h := nomatch h
  known t h := absurd h List.not_mem_nil
  raised signal := by simp [empty, Signals.empty]

theorem isCopy_concat_of_lt {os : List Origin} (hlt : t < os.length) :
    IsCopy (os ++ [origin]) t ↔ IsCopy os t := by
  unfold IsCopy
  rw [List.getElem?_append_left hlt]

section Making

variable {one : Token}

theorem Traced.lineage_lt (h : Traced log s) (ht : s.held[t]? = some token) :
    ∀ signal ∈ token.lineage, signal < s.signals.count :=
  h.bounded token (List.mem_of_getElem? ht)

theorem Traced.own_lt (h : Traced log s) (ht : s.held[t]? = some token) :
    token.own < s.signals.count := h.lineage_lt ht _ List.mem_cons_self

/-- With a token that is a copy or has a fresh signal, still only copies share their own signal. -/
theorem Traced.unique_concat (h : Traced log s)
    (hfresh : ¬ IsCopy (origins log ++ [origin]) s.held.length → s.signals.count ≤ token.own)
    (ht : (s.held ++ [token])[t]? = some one) (hu : (s.held ++ [token])[u]? = some other)
    (hone : ¬ IsCopy (origins log ++ [origin]) t) (hother : ¬ IsCopy (origins log ++ [origin]) u)
    (howns : one.own = other.own) : t = u := by
  have hold : ∀ {t : Nat} {other : Token}, s.held[t]? = some other →
      (IsCopy (origins log ++ [origin]) t ↔ IsCopy (origins log) t) := fun ht =>
    isCopy_concat_of_lt (h.length_eq ▸ lt_of_getElem? ht)
  rcases getElem?_concat_iff.1 ht with ht | ⟨rfl, rfl⟩ <;>
    rcases getElem?_concat_iff.1 hu with hu | ⟨rfl, rfl⟩
  · exact h.unique ht hu (mt (hold ht).2 hone) (mt (hold hu).2 hother) howns
  -- An old token owns an old signal and the new one a new signal.
  · have hlt := h.own_lt ht
    have hge := hfresh hother
    omega
  · have hlt := h.own_lt hu
    have hge := hfresh hone
    omega
  · rfl

/-- A token that has been cancelled was there before. -/
theorem Traced.cancelled_concat_iff (h : Traced log s) (ht : .cancel t ∈ log) (added : Token) :
    (s.held ++ [added])[t]? = some token ↔ s.held[t]? = some token := by
  obtain ⟨older, holder⟩ := h.known t ht
  rw [List.getElem?_append_left (lt_of_getElem? holder)]

/-- A token that is made leaves everything else as it is.  If it is no copy, its own signal is
fresh. -/
theorem Traced.make (h : Traced log s) {count : Nat} (hcount : s.signals.count ≤ count)
    (hfrom : From s.held s.held.length origin token)
    (hbound : ∀ signal ∈ token.lineage, signal < count)
    (hfresh : (∀ u, origin ≠ .clone u) → s.signals.count ≤ token.own) :
    Traced (log ++ [.make origin]) ⟨s.held ++ [token], ⟨count, s.signals.raised⟩⟩ := by
  have horigins : origins (log ++ [.make origin]) = origins log ++ [origin] := origins_append _ _
  have hcancel : ∀ t, .cancel t ∈ log ++ [.make origin] ↔ .cancel t ∈ log := by simp
  constructor
  case length_eq => simp [horigins, h.length_eq]
  case origin =>
    intro t other ht
    rw [horigins]
    rcases getElem?_concat_iff.1 ht with ht | ⟨rfl, rfl⟩
    · obtain ⟨o, ho, hother⟩ := h.origin ht
      exact ⟨o, getElem?_concat_iff.2 (.inl ho), hother.mono token⟩
    · exact ⟨origin, getElem?_concat_iff.2 (.inr ⟨h.length_eq, rfl⟩), hfrom.mono token⟩
  case bounded =>
    intro other hother signal hsignal
    rcases List.mem_append.1 hother with hother | hother
    · exact Nat.lt_of_lt_of_le (h.bounded other hother signal hsignal) hcount
    · obtain rfl := List.mem_singleton.1 hother
      exact hbound signal hsignal
  -- A token that is no copy owns a signal nobody owned.
  case unique =>
    rw [horigins]
    refine h.unique_concat fun hcopy => hfresh fun u heq => hcopy ⟨u, ?_⟩
    rw [h.length_eq, heq]
    exact List.getElem?_concat_length
  case known =>
    intro t ht
    obtain ⟨other, hother⟩ := h.known t ((hcancel t).1 ht)
    exact ⟨other, (h.cancelled_concat_iff ((hcancel t).1 ht) token).2 hother⟩
  -- Making a token cancels nothing.
  case raised =>
    intro signal
    refine (h.raised signal).trans (exists₂_congr fun t other => ?_)
    rw [hcancel t]
    exact and_congr_right fun ht => and_congr_left' (h.cancelled_concat_iff ht token).symm

end Making

theorem Traced.cancel (h : Traced log s) (ht : s.held[t]? = some token) :
    Traced (log ++ [.cancel t]) { s with signals := s.signals.cancel token } := by
  have horigins : origins (log ++ [.cancel t]) = origins log :=
    (origins_append _ _).trans (List.append_nil _)
  have hcancel : ∀ u, .cancel u ∈ log ++ [.cancel t] ↔ .cancel u ∈ log ∨ u = t := by simp
  constructor
  case length_eq => rw [horigins, h.length_eq]
  case origin =>
    rw [horigins]
    exact h.origin
  case bounded => exact h.bounded
  case unique =>
    rw [horigins]
    exact h.unique
  case known =>
    intro u hu
    rcases (hcancel u).1 hu with hu | rfl
    · exact h.known u hu
    · exact ⟨token, ht⟩
  -- The signal that is raised is the one the token owns.
  case raised =>
    intro signal
    refine List.mem_cons.trans ?_
    rw [h.raised signal]
    constructor
    · rintro (rfl | ⟨u, other, hu, hother, howns⟩)
      · exact ⟨t, token, (hcancel t).2 (.inr rfl), ht, rfl⟩
      · exact ⟨u, other, (hcancel u).2 (.inl hu), hother, howns⟩
    · rintro ⟨u, other, hu, hother, howns⟩
      rcases (hcancel u).1 hu with hu | rfl
      · exact .inr ⟨u, other, hu, hother, howns⟩
      · obtain rfl : token = other := Option.some.inj (ht.symm.trans hother)
        exact .inl howns.symm

theorem Traced.step (h : Traced log s) (hstep : s.step? action = some s') :
    Traced (log ++ [action]) s' := by
  cases action with
  | cancel t =>
    obtain ⟨token, ht, rfl⟩ := Option.map_eq_some_iff.1 hstep
    exact h.cancel ht
  | make origin =>
    cases origin with
    -- A signal of its own, with no ancestors.
    | new =>
      obtain rfl := Option.some.inj hstep
      refine h.make (Nat.le_succ _) (.new _) ?_ fun _ => Nat.le_refl _
      exact List.forall_mem_singleton.2 (Nat.lt_succ_self _)
    | child p =>
      obtain ⟨parent, hp, rfl⟩ := Option.map_eq_some_iff.1 hstep
      refine h.make (Nat.le_succ _) (.child (lt_of_getElem? hp) hp fun hfresh => ?_) ?_
        fun _ => Nat.le_refl _
      -- The new signal is not among the parent's.
      · exact Nat.lt_irrefl _ (h.lineage_lt hp _ hfresh)
      · refine List.forall_mem_cons.2 ⟨Nat.lt_succ_self _, fun signal hsignal => ?_⟩
        exact Nat.lt_succ_of_lt (h.lineage_lt hp signal hsignal)
    -- A copy has the lineage of its original and no new signal.
    | clone u =>
      obtain ⟨token, hu, rfl⟩ := Option.map_eq_some_iff.1 hstep
      exact h.make (Nat.le_refl _) (.clone (lt_of_getElem? hu) hu) (h.lineage_lt hu)
        fun hcopy => absurd rfl (hcopy u)

theorem Traced.run (h : Traced past s) (hrun : s.run? rest = some s') :
    Traced (past ++ rest) s' := by
  induction rest generalizing past s with
  | nil =>
    obtain rfl := Option.some.inj hrun
    rwa [List.append_nil]
  | cons action rest ih =>
    obtain ⟨mid, hstep, hrun⟩ := Option.bind_eq_some_iff.1 hrun
    rw [List.append_cons]
    exact ih (h.step hstep) hrun

/-! ## Lineages -/

/-- The token that a number stands for in the history. -/
theorem Traced.exists_token (h : Traced log s) (ht : (origins log)[t]? = some origin) :
    ∃ token, s.held[t]? = some token ∧ From s.held t origin token := by
  have hlt : t < s.held.length := h.length_eq ▸ lt_of_getElem? ht
  obtain ⟨o, ho, hfrom⟩ := h.origin (List.getElem?_eq_getElem hlt)
  obtain rfl : o = origin := Option.some.inj (ho.symm.trans ht)
  exact ⟨_, List.getElem?_eq_getElem hlt, hfrom⟩

/-- A child has all signals of its parent, and a copy has the signals of the original. -/
theorem Traced.lineage_of_borders (h : Traced log s) (hborders : Borders (origins log) u t)
    (ht : s.held[t]? = some token) :
    ∃ other, s.held[u]? = some other ∧ ∀ signal ∈ other.lineage, signal ∈ token.lineage := by
  have hsame : ∀ {other : Token}, s.held[t]? = some other → other = token := fun hother =>
    Option.some.inj (hother.symm.trans ht)
  cases hborders with
  -- A child's lineage is its own signal before the parent's.
  | parent horigin =>
    obtain ⟨child, hchild, hfrom⟩ := h.exists_token horigin
    obtain rfl := hsame hchild
    cases hfrom with
    | child hlt hparent hfresh => exact ⟨_, hparent, fun _ => List.mem_cons_of_mem _⟩
  -- A copy and its original share one lineage, either way round.
  | original horigin =>
    obtain ⟨copy, hcopy, hfrom⟩ := h.exists_token horigin
    obtain rfl := hsame hcopy
    cases hfrom with
    | clone hlt horiginal => exact ⟨_, horiginal, fun _ => id⟩
  | clone horigin =>
    obtain ⟨copy, hcopy, hfrom⟩ := h.exists_token horigin
    cases hfrom with
    | clone hlt horiginal =>
      obtain rfl := hsame horiginal
      exact ⟨_, hcopy, fun _ => id⟩

theorem Traced.lineage_of_isAbove (h : Traced log s) (habove : IsAbove (origins log) u t)
    (ht : s.held[t]? = some token) :
    ∃ other, s.held[u]? = some other ∧ ∀ signal ∈ other.lineage, signal ∈ token.lineage := by
  induction habove generalizing token with
  | refl => exact ⟨token, ht, fun _ => id⟩
  | tail _ hborders ih =>
    obtain ⟨middle, hmiddle, hsub⟩ := h.lineage_of_borders hborders ht
    obtain ⟨other, hother, hsub'⟩ := ih hmiddle
    exact ⟨other, hother, fun signal hsignal => hsub signal (hsub' signal hsignal)⟩

/-- Tokens with the same own signal are copies of one another. -/
theorem Traced.isAbove_of_own_eq (h : Traced log s) (ht : s.held[t]? = some token)
    (hcopy : ¬ IsCopy (origins log) t) (hu : s.held[u]? = some other)
    (howns : other.own = token.own) : IsAbove (origins log) u t := by
  -- The originals of copies of copies are followed down to a token that is no copy.
  induction u using Nat.strongRecOn with
  | _ u ih =>
    obtain ⟨origin, horigin, hfrom⟩ := h.origin hu
    by_cases hother : IsCopy (origins log) u
    · obtain ⟨v, hv⟩ := hother
      obtain rfl : origin = .clone v := Option.some.inj (horigin.symm.trans hv)
      cases hfrom with
      | clone hlt horiginal => exact .head (.clone hv) (ih v hlt horiginal)
    · obtain rfl := h.unique hu ht hother hcopy howns
      exact .refl

theorem Traced.isAbove_of_own_mem (h : Traced log s) (ht : s.held[t]? = some token)
    (hu : s.held[u]? = some other) (hmem : other.own ∈ token.lineage) :
    IsAbove (origins log) u t := by
  -- Parents and originals have smaller numbers, and a lineage is the token's own signal and then
  -- the parent's lineage, so the signal is found on the way up.
  induction t using Nat.strongRecOn generalizing token with
  | _ t ih =>
    obtain ⟨origin, horigin, hfrom⟩ := h.origin ht
    have hnot : (∀ v, origin ≠ .clone v) → ¬ IsCopy (origins log) t := by
      rintro hne ⟨v, hv⟩
      exact hne v (Option.some.inj (horigin.symm.trans hv))
    cases hfrom with
    | new own => exact h.isAbove_of_own_eq ht (hnot nofun) hu (List.mem_singleton.1 hmem)
    | child hlt hparent hfresh =>
      rcases List.mem_cons.1 hmem with howns | hmem
      · exact h.isAbove_of_own_eq ht (hnot nofun) hu howns
      · exact .tail (ih _ hlt hparent hmem) (.parent horigin)
    | clone hlt horiginal => exact .tail (ih _ hlt horiginal hmem) (.original horigin)

/-- A token's own signal is in the lineage of the tokens that it is above of, and in no other. -/
theorem Traced.own_mem_lineage_iff (h : Traced log s) (ht : s.held[t]? = some token)
    (hu : s.held[u]? = some other) :
    other.own ∈ token.lineage ↔ IsAbove (origins log) u t := by
  refine ⟨h.isAbove_of_own_mem ht hu, fun habove => ?_⟩
  obtain ⟨same, hsame, hsub⟩ := h.lineage_of_isAbove habove ht
  obtain rfl : same = other := Option.some.inj (hsame.symm.trans hu)
  exact hsub _ List.mem_cons_self

/-! ## Cancelled tokens -/

theorem isCancelled_eq_true_iff {signals : Signals} :
    signals.isCancelled token = true ↔ ∃ signal ∈ token.lineage, signal ∈ signals.raised := by
  simp [Signals.isCancelled, Signals.isRaised]

/-- A wait is over exactly when the token is cancelled. -/
theorem isOver_wait (signals : Signals) :
    token.wait.isOver signals = signals.isCancelled token := by
  rw [Bool.eq_iff_iff, Wait.isOver, Signals.isCancelled, List.find?_isSome, List.any_eq_true]
  rfl

theorem Traced.isCancelled_iff (h : Traced log s) (ht : s.held[t]? = some token) :
    s.signals.isCancelled token = true ↔ CancelledBy log t := by
  rw [isCancelled_eq_true_iff]
  constructor
  · rintro ⟨signal, hmem, hraised⟩
    obtain ⟨u, other, hcancel, hu, rfl⟩ := (h.raised signal).1 hraised
    exact ⟨u, hcancel, (h.own_mem_lineage_iff ht hu).1 hmem⟩
  · rintro ⟨u, hcancel, habove⟩
    obtain ⟨other, hu⟩ := h.known u hcancel
    refine ⟨other.own, (h.own_mem_lineage_iff ht hu).2 habove, ?_⟩
    exact (h.raised _).2 ⟨u, other, hcancel, hu, rfl⟩

/-- With one more cancellation, the tokens below it are cancelled too. -/
theorem cancelledBy_cancel :
    CancelledBy (log ++ [.cancel u]) t ↔ CancelledBy log t ∨ IsAbove (origins log) u t := by
  have horigins : origins (log ++ [.cancel u]) = origins log :=
    (origins_append _ _).trans (List.append_nil _)
  simp [CancelledBy, horigins, or_and_right, exists_or]

/-- Tokens that can be named can be cancelled, and that cancels the tokens below them only. -/
theorem Traced.exists_cancel (h : Traced log s) (ht : s.held[t]? = some token)
    (hu : u < s.held.length) :
    ∃ after, s.step? (.cancel u) = some after ∧ (after.signals.isCancelled token = true ↔
      s.signals.isCancelled token = true ∨ IsAbove (origins log) u t) := by
  have hother : s.held[u]? = some s.held[u] := List.getElem?_eq_getElem hu
  refine ⟨_, congrArg (Option.map _) hother, ?_⟩
  rw [h.isCancelled_iff ht, ← cancelledBy_cancel]
  exact (h.cancel hother).isCancelled_iff ht

/-- A child is cancelled from the start exactly if its parent is. -/
theorem Traced.exists_child (h : Traced log s) (ht : s.held[t]? = some token) :
    ∃ after child, s.step? (.make (.child t)) = some after ∧ after.held = s.held ++ [child] ∧
      after.signals.isCancelled child = s.signals.isCancelled token := by
  refine ⟨_, ⟨s.signals.count, token.lineage⟩, congrArg (Option.map _) ht, rfl, ?_⟩
  -- The signal of the child is fresh, so nobody has raised it.
  have hfresh : s.signals.isRaised s.signals.count = false := by
    refine Bool.eq_false_iff.2 fun hraised => ?_
    obtain ⟨u, other, -, hu, howns⟩ := (h.raised _).1 (List.contains_iff_mem.1 hraised)
    exact Nat.lt_irrefl _ (howns ▸ h.own_lt hu)
  show (s.signals.isRaised s.signals.count || s.signals.isCancelled token) = _
  rw [hfresh, Bool.false_or]

theorem step?_grows (hstep : s.step? action = some s') :
    s.held <+: s'.held ∧ s.signals.raised ⊆ s'.signals.raised := by
  -- Making a token appends it and raises nothing.
  have hadd : ∀ made : Token × Signals, made.2.raised = s.signals.raised →
      s.held <+: (s.add made).held ∧ s.signals.raised ⊆ (s.add made).signals.raised :=
    fun made hraised => ⟨List.prefix_append _ _, hraised ▸ List.Subset.refl _⟩
  cases action with
  | cancel t =>
    obtain ⟨token, -, rfl⟩ := Option.map_eq_some_iff.1 hstep
    exact ⟨List.prefix_refl _, List.subset_cons_self _ _⟩
  | make origin =>
    cases origin with
    | new =>
      obtain rfl := Option.some.inj hstep
      exact hadd _ rfl
    | child p =>
      obtain ⟨parent, -, rfl⟩ := Option.map_eq_some_iff.1 hstep
      exact hadd _ rfl
    | clone u =>
      obtain ⟨token, -, rfl⟩ := Option.map_eq_some_iff.1 hstep
      exact hadd _ rfl

/-- Tokens are kept as they are, and signals stay raised. -/
theorem run?_grows (hrun : s.run? rest = some s') :
    s.held <+: s'.held ∧ s.signals.raised ⊆ s'.signals.raised := by
  induction rest generalizing s with
  | nil =>
    obtain rfl := Option.some.inj hrun
    exact ⟨List.prefix_refl _, List.Subset.refl _⟩
  | cons action rest ih =>
    obtain ⟨mid, hstep, hrun⟩ := Option.bind_eq_some_iff.1 hrun
    obtain ⟨hheld, hraised⟩ := step?_grows hstep
    obtain ⟨hheld', hraised'⟩ := ih hrun
    exact ⟨hheld.trans hheld', List.Subset.trans hraised hraised'⟩

/-! ## Tokens apart -/

theorem not_isCopy_of_child {os : List Origin} {p : Nat} (ht : os[t]? = some (.child p)) :
    ¬ IsCopy os t := by
  rintro ⟨u, hu⟩
  rw [ht] at hu
  cases hu

/-- A child is not above its parent. -/
theorem Traced.not_isAbove_parent (h : Traced log s) {p : Nat}
    (ht : (origins log)[t]? = some (.child p)) : ¬ IsAbove (origins log) t p := by
  obtain ⟨child, hchild, hfrom⟩ := h.exists_token ht
  cases hfrom with
  | child hlt hparent hfresh =>
    -- The signal of the child was fresh, so the parent cannot have it.
    intro habove
    exact hfresh ((h.own_mem_lineage_iff hparent hchild).2 habove)

/-- A child is not above the other children of its parent, nor of any token that is above it. -/
theorem Traced.not_isAbove_sibling (h : Traced log s) {p q : Nat}
    (ht : (origins log)[t]? = some (.child p)) (hu : (origins log)[u]? = some (.child q))
    (hne : u ≠ t) (hq : IsAbove (origins log) q p) : ¬ IsAbove (origins log) t u := by
  intro habove
  obtain ⟨child, hchild, -⟩ := h.exists_token ht
  obtain ⟨sibling, hsibling, hfrom⟩ := h.exists_token hu
  have hmem := (h.own_mem_lineage_iff hsibling hchild).2 habove
  cases hfrom with
  | child hlt hparent hfresh =>
    rcases List.mem_cons.1 hmem with howns | hmem
    · exact hne (h.unique hsibling hchild (not_isCopy_of_child hu) (not_isCopy_of_child ht)
        howns.symm)
    · -- The signal came to the sibling from its parent, which is above the parent of the child.
      have hparent := (h.own_mem_lineage_iff hparent hchild).1 hmem
      exact h.not_isAbove_parent ht (hparent.trans hq)

/-- Whatever is done with tokens, a token is cancelled, and a wait for it is over, however early it
began, exactly if by then the token itself was cancelled, or a copy or an ancestor of it.  So this
is never undone; a child is cancelled from the start exactly if its parent is; and to cancel a token
changes nothing for those that it is not above of, such as its parent and its siblings. -/
theorem cancelled_by_tree (hpast : empty.run? past = some s) (hrest : s.run? rest = some s')
    (ht : s.held[t]? = some token) :
    s'.held[t]? = some token ∧
    (s'.signals.isCancelled token = true ↔ CancelledBy (past ++ rest) t) ∧
    (token.wait.isOver s'.signals = true ↔ CancelledBy (past ++ rest) t) ∧
    (s.signals.isCancelled token = true → s'.signals.isCancelled token = true) ∧
    (∃ after child, s'.step? (.make (.child t)) = some after ∧ after.held = s'.held ++ [child] ∧
      after.signals.isCancelled child = s'.signals.isCancelled token) ∧
    (∀ u < s'.held.length, ∃ after, s'.step? (.cancel u) = some after ∧
      (after.signals.isCancelled token = true ↔
        s'.signals.isCancelled token = true ∨ IsAbove (origins (past ++ rest)) u t)) ∧
    ∀ child, (origins (past ++ rest))[child]? = some (.child t) →
      ¬ IsAbove (origins (past ++ rest)) child t ∧
      ∀ p sibling, IsAbove (origins (past ++ rest)) p t →
        (origins (past ++ rest))[sibling]? = some (.child p) → sibling ≠ child →
          ¬ IsAbove (origins (past ++ rest)) child sibling := by
  have traced : Traced (past ++ rest) s' := (traced_empty.run hpast).run hrest
  obtain ⟨⟨more, hheld⟩, hraised⟩ := run?_grows hrest
  have ht' : s'.held[t]? = some token := by
    rw [← hheld, List.getElem?_append_left (lt_of_getElem? ht), ht]
  have hcancelled := traced.isCancelled_iff ht'
  refine ⟨ht', hcancelled, ?wait, ?kept, traced.exists_child ht',
    fun u hu => traced.exists_cancel ht' hu, fun child hchild => ?apart⟩
  case wait => rwa [isOver_wait]
  case kept =>
    -- The lineage stays what it is, and the signals raised in it stay raised.
    simp only [isCancelled_eq_true_iff]
    rintro ⟨signal, hmem, hsignal⟩
    exact ⟨signal, hmem, hraised hsignal⟩
  case apart =>
    exact ⟨traced.not_isAbove_parent hchild, fun p sibling hp hsibling hne =>
      traced.not_isAbove_sibling hchild hsibling hne hp⟩

/-- A grandchild is waited for, and a copy of the root is cancelled. -/
theorem cancelled_by_tree_through_copy : ∃ s s' token,
    empty.run? [.make .new, .make (.child 0), .make (.clone 0), .make (.child 1)] = some s ∧
    s.run? [.cancel 2] = some s' ∧ s.held[3]? = some token ∧
    s.signals.isCancelled token = false ∧ token.wait.isOver s'.signals = true := by
  have hpast : empty.run? [.make .new, .make (.child 0), .make (.clone 0), .make (.child 1)] =
      some ⟨[⟨0, []⟩, ⟨1, [0]⟩, ⟨0, []⟩, ⟨2, [1, 0]⟩], ⟨3, []⟩⟩ := rfl
  have hrest : run? ⟨[⟨0, []⟩, ⟨1, [0]⟩, ⟨0, []⟩, ⟨2, [1, 0]⟩], ⟨3, []⟩⟩ [.cancel 2] =
      some ⟨[⟨0, []⟩, ⟨1, [0]⟩, ⟨0, []⟩, ⟨2, [1, 0]⟩], ⟨3, [0]⟩⟩ := rfl
  obtain ⟨-, -, hwait, -⟩ := cancelled_by_tree (t := 3) hpast hrest rfl
  refine ⟨_, _, _, hpast, hrest, rfl, rfl, hwait.2 ⟨2, by decide, ?_⟩⟩
  -- From the copy to the root, and down from parent to child twice.
  exact .tail (.tail (.single (.clone rfl)) (.parent (t := 1) rfl)) (.parent rfl)

end Tokens

end ChainFollower
