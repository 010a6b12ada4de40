import Mathlib.Logic.Hydra
import Rolly.Lib.Machine

/-!
# Fair runs

An endless run takes at most one action at each moment. It is fair to some
actions if one of them is taken whenever they stay possible. What each of them
brings nearer happens after a known number of them, and so it happens in every
fair run.
-/

namespace Machine

variable {σ α : Type} {M : Machine σ α} {P : α → Bool} {s t : σ}

/-- An endless run; nothing happens at a moment without an action. -/
structure Run (M : Machine σ α) where
  states : Nat → σ
  actions : Nat → Option α
  init : M.init (states 0)
  next : ∀ n, (actions n).elim (some (states n)) (fun a => M.step a (states n)) =
    some (states (n + 1))

namespace Run

variable {r : M.Run}

theorem next_none (h : r.actions n = none) : r.states (n + 1) = r.states n := by
  have := r.next n
  rw [h] at this
  exact (Option.some.inj this).symm

theorem next_some (h : r.actions n = some a) :
    M.step a (r.states n) = some (r.states (n + 1)) := by
  have := r.next n
  rwa [h] at this

theorem reachable (r : M.Run) (n : Nat) : M.Reachable (r.states n) := by
  induction n with
  | zero => exact .init r.init
  | succ n ih =>
    cases ha : r.actions n with
    | none =>
      rw [next_none ha]
      exact ih
    | some a => exact ih.step (next_some ha)

end Run

-- ---------------------------------------------------------------------------
-- What stays
-- ---------------------------------------------------------------------------

def Stable (M : Machine σ α) (I : σ → Prop) : Prop :=
  ∀ a s t, M.Reachable s → I s → M.step a s = some t → I t

theorem Stable.run {I : σ → Prop} (h : M.Stable I) (hr : M.Reachable s) (hs : I s)
    (ht : M.run as s = some t) : I t :=
  (run_of_steps (R := fun s t => M.Reachable s ∧ I s → M.Reachable t ∧ I t) (fun _ h => h)
    (fun _ _ _ hst htu h => htu (hst h))
    (fun a s t ht hs => ⟨hs.1.step ht, h a s t hs.1 hs.2 ht⟩) ht ⟨hr, hs⟩).2

theorem Stable.later {I : σ → Prop} (h : M.Stable I) {r : M.Run} (hn : I (r.states n))
    (hle : n ≤ m) : I (r.states m) := by
  induction hle with
  | refl => exact hn
  | @step m hle ih =>
    cases ha : r.actions m with
    | none =>
      rw [Run.next_none ha]
      exact ih
    | some a => exact h a _ _ (r.reachable m) ih (Run.next_some ha)

-- ---------------------------------------------------------------------------
-- Fairness
-- ---------------------------------------------------------------------------

def Enabled (M : Machine σ α) (P : α → Bool) (s : σ) : Prop := ∃ a, P a ∧ (M.step a s).isSome

def Run.Takes (r : M.Run) (P : α → Bool) (n : Nat) : Prop :=
  ∃ m, n ≤ m ∧ ∃ a, r.actions m = some a ∧ P a

/-- One of them is taken again and again, if they stay possible. -/
def Run.Fair (r : M.Run) (P : α → Bool) : Prop :=
  ∀ n, (∀ m, n ≤ m → M.Enabled P (r.states m)) → r.Takes P n

/-- One of them is taken again and again, if they become so again and again. -/
def Run.StronglyFair (r : M.Run) (P : α → Bool) : Prop :=
  ∀ n, (∀ k, ∃ m, k ≤ m ∧ M.Enabled P (r.states m)) → r.Takes P n

theorem Run.StronglyFair.fair {r : M.Run} (h : r.StronglyFair P) : r.Fair P :=
  fun n hen => h n fun k => ⟨max k n, Nat.le_max_left _ _, hen _ (Nat.le_max_right _ _)⟩

-- ---------------------------------------------------------------------------
-- Progress
-- ---------------------------------------------------------------------------

/-- A machine that waits goes on waiting until the end: no step takes the end
farther away, and each action in `P` brings it nearer. -/
structure Descends (M : Machine σ α) (P : α → Bool) (waits ended : σ → Prop) (rank : σ → Nat) :
    Prop where
  step : ∀ a s t, M.Reachable s → waits s → M.step a s = some t →
    ended t ∨ waits t ∧ rank t + (P a).toNat ≤ rank s

/-- There is such an action to take until the end. -/
structure Progress (M : Machine σ α) (P : α → Bool) (waits ended : σ → Prop) (rank : σ → Nat) :
    Prop extends Descends M P waits ended rank where
  enabled : ∀ s, M.Reachable s → waits s → M.Enabled P s

section
variable {waits ended : σ → Prop} {rank : σ → Nat}

theorem Descends.run (h : M.Descends P waits ended rank) (hstable : M.Stable ended)
    (hr : M.Reachable s) (hw : waits s) (ht : M.run as s = some t) :
    ended t ∨ waits t ∧ rank t + as.countP P ≤ rank s := by
  induction as generalizing s with
  | nil =>
    rw [run_nil] at ht
    cases ht
    exact .inr ⟨hw, Nat.le_refl _⟩
  | cons a as ih =>
    obtain ⟨u, hu, hrun⟩ := run_cons_some.mp ht
    obtain he | ⟨hwu, hle⟩ := h.step a s u hr hw hu
    · exact .inl (hstable.run (hr.step hu) he hrun)
    · obtain he | ⟨hwt, hle'⟩ := ih (hr.step hu) hwu hrun
      · exact .inl he
      · have hcount : (a :: as).countP P = as.countP P + (P a).toNat := by
          rw [List.countP_cons]
          cases P a <;> rfl
        exact .inr ⟨hwt, by omega⟩

/-- More actions in `P` than the rank, and it has ended, whatever else happened
in between. -/
theorem Descends.bounded (h : M.Descends P waits ended rank) (hstable : M.Stable ended)
    (hr : M.Reachable s) (hw : waits s) (ht : M.run as s = some t)
    (hlt : rank s < as.countP P) : ended t := by
  obtain he | ⟨-, hle⟩ := h.run hstable hr hw ht
  · exact he
  · omega

/-- While a run waits, each action in `P` brings it nearer to the end and no
other takes it back; so it gets there if waiting for good means to take them
again and again. -/
theorem Run.reaches {r : M.Run}
    (hstep : ∀ a s t, M.Reachable s → waits s → M.step a s = some t →
      ended t ∨ waits t ∧ rank t + (P a).toNat ≤ rank s)
    (htakes : ∀ k, (∀ m, k ≤ m → waits (r.states m)) → r.Takes P k)
    (hw : waits (r.states n)) : ∃ m, n ≤ m ∧ ended (r.states m) := by
  -- by induction on the rank; with it, waiting goes on up to the next action in `P`
  induction hk : rank (r.states n) using Nat.strongRecOn generalizing n with
  | ind k ih =>
    by_contra hnever
    have hnot : ∀ m, n ≤ m → ¬ ended (r.states m) := fun m hm he => hnever ⟨m, hm, he⟩
    have hwaits : ∀ m, n ≤ m → waits (r.states m) ∧ rank (r.states m) ≤ k := by
      intro m hm
      induction hm with
      | refl => exact ⟨hw, Nat.le_of_eq hk⟩
      | @step m hm ihm =>
        obtain ⟨hwm, hle⟩ := ihm
        cases ha : r.actions m with
        | none =>
          rw [Run.next_none ha]
          exact ⟨hwm, hle⟩
        | some a =>
          obtain he | ⟨hwm, hle'⟩ := hstep a _ _ (r.reachable m) hwm (Run.next_some ha)
          · exact absurd he (hnot _ (Nat.le_succ_of_le hm))
          · exact ⟨hwm, Nat.le_trans (Nat.le_of_add_right_le hle') hle⟩
    obtain ⟨m, hm, a, ha, hp⟩ := htakes n fun m hm => (hwaits m hm).1
    obtain ⟨hwm, hle⟩ := hwaits m hm
    obtain he | ⟨hwm', hlt⟩ := hstep a _ _ (r.reachable m) hwm (Run.next_some ha)
    · exact hnot _ (Nat.le_succ_of_le hm) he
    · rw [hp, Bool.toNat_true] at hlt
      obtain ⟨m', hm', he⟩ := ih _ (by omega) hwm' rfl
      exact hnot m' (by omega) he

/-- In a fair run it ends. -/
theorem Progress.fair (h : M.Progress P waits ended rank) {r : M.Run} (hfair : r.Fair P)
    (hw : waits (r.states n)) : ∃ m, n ≤ m ∧ ended (r.states m) :=
  Run.reaches h.step
    (fun k hwaits => hfair k fun m hm => h.enabled _ (r.reachable m) (hwaits m hm)) hw

end

-- ---------------------------------------------------------------------------
-- Projection
-- ---------------------------------------------------------------------------

/-- Seen through `proj`, each step of `M` is a step of `N` or none, and a step
in `P` is one in `Q`; `M` can do what is in `Q` when `N` can. -/
structure Projects (M : Machine σ α) (N : Machine τ β) (proj : σ → τ) (P : α → Bool)
    (Q : β → Bool) : Prop where
  init : ∀ s, M.init s → N.Reachable (proj s)
  step : ∀ a s t, M.step a s = some t → proj t = proj s ∧ P a = false ∨
    ∃ b, N.step b (proj s) = some (proj t) ∧ (P a → Q b)
  enabled : ∀ s, N.Enabled Q (proj s) → M.Enabled P s

section
variable {τ β : Type} {N : Machine τ β} {proj : σ → τ} {Q : β → Bool} {waits ended : τ → Prop}
  {rank : τ → Nat}

theorem Projects.reachable (h : M.Projects N proj P Q) (hs : M.Reachable s) :
    N.Reachable (proj s) := by
  refine hs.invariant h.init fun a s t _ hi ht => ?_
  obtain ⟨hsame, -⟩ | ⟨b, hb, -⟩ := h.step a s t ht
  · rwa [hsame]
  · exact hi.step hb

theorem Projects.progress (h : M.Projects N proj P Q) (hp : N.Progress Q waits ended rank) :
    M.Progress P (fun s => waits (proj s)) (fun s => ended (proj s)) (fun s => rank (proj s)) where
  step a s t hs hw ht := by
    obtain ⟨hsame, hnot⟩ | ⟨b, hb, hpq⟩ := h.step a s t ht
    · rw [hsame, hnot]
      exact .inr ⟨hw, Nat.le_refl _⟩
    · refine (hp.step b _ _ (h.reachable hs) hw hb).imp_right fun ⟨hwt, hle⟩ => ⟨hwt, ?_⟩
      have : (P a).toNat ≤ (Q b).toNat := by
        cases ha : P a with
        | true => rw [hpq ha]
        | false => exact Nat.zero_le _
      omega
  enabled s hs hw := h.enabled s (hp.enabled _ (h.reachable hs) hw)

theorem Projects.stable (h : M.Projects N proj P Q) {I : τ → Prop} (hi : N.Stable I) :
    M.Stable fun s => I (proj s) := by
  intro a s t hs hI ht
  obtain ⟨hsame, -⟩ | ⟨b, hb, -⟩ := h.step a s t ht
  · rwa [hsame]
  · exact hi b _ _ (h.reachable hs) hI hb

end

/-- A run that starts where some other run comes to is the end of a run. -/
theorem exists_run {states : Nat → σ} {actions : Nat → Option α} (h0 : M.Reachable (states 0))
    (hnext : ∀ n, (actions n).elim (some (states n)) (fun a => M.step a (states n)) =
      some (states (n + 1))) :
    ∃ (r : M.Run) (k : Nat), ∀ n, r.states (k + n) = states n ∧ r.actions (k + n) = actions n := by
  generalize hs : states 0 = s at h0
  induction h0 generalizing states actions with
  | init h0 =>
    subst hs
    exact ⟨⟨states, actions, h0, hnext⟩, 0, fun n => by simp⟩
  | @step s a t _ _ ht ih =>
    subst hs
    -- one step earlier
    obtain ⟨r, k, hr⟩ := @ih (fun n => n.casesOn s states) (fun n => n.casesOn (some a) actions)
      (fun n => by
        cases n with
        | zero => exact ht
        | succ n => exact hnext n) rfl
    refine ⟨r, k + 1, fun n => ?_⟩
    rw [Nat.add_assoc, Nat.add_comm 1 n]
    exact hr (n + 1)

/-- Seen through `proj`, each step of `M` is a step of `N` or none; `event` tells
which one for some of the actions. -/
structure Follows (M : Machine σ α) (N : Machine τ β) (proj : σ → τ) (event : α → Option β) :
    Prop where
  init : ∀ s, M.init s → N.Reachable (proj s)
  step : ∀ a s t, M.step a s = some t → ∃ o : Option β,
    o.elim (some (proj s)) (fun b => N.step b (proj s)) = some (proj t) ∧
      ∀ b, event a = some b → o = some b

section
variable {τ β : Type} {N : Machine τ β} {proj : σ → τ} {event : α → Option β} {Q : β → Bool}
  {r : M.Run} {r' : N.Run}

/-- From its moment `k` on, `r'` is what `proj` and `event` show of `r`. -/
structure Run.Image (r' : N.Run) (k : Nat) (r : M.Run) (proj : σ → τ) (event : α → Option β) :
    Prop where
  states : ∀ n, r'.states (k + n) = proj (r.states n)
  actions : ∀ n a b, r.actions n = some a → event a = some b → r'.actions (k + n) = some b

theorem Follows.projects (h : M.Follows N proj event)
    (hpq : ∀ a, P a → ∃ b, event a = some b ∧ Q b)
    (hen : ∀ s, N.Enabled Q (proj s) → M.Enabled P s) : M.Projects N proj P Q where
  init := h.init
  step a s t ht := by
    obtain ⟨o, ho, he⟩ := h.step a s t ht
    cases o with
    | none =>
      refine .inl ⟨(Option.some.inj ho).symm, Bool.eq_false_iff.mpr fun hp => ?_⟩
      obtain ⟨b, hb, -⟩ := hpq a hp
      cases he b hb
    | some b =>
      refine .inr ⟨b, ho, fun hp => ?_⟩
      obtain ⟨b', hb, hq⟩ := hpq a hp
      exact Option.some.inj (he b' hb) ▸ hq
  enabled := hen

theorem Follows.image (h : M.Follows N proj event) (r : M.Run) :
    ∃ (r' : N.Run) (k : Nat), r'.Image k r proj event := by
  have hstep (n : Nat) : ∃ o : Option β,
      o.elim (some (proj (r.states n))) (fun b => N.step b (proj (r.states n))) =
        some (proj (r.states (n + 1))) ∧
      ∀ a b, r.actions n = some a → event a = some b → o = some b := by
    cases ha : r.actions n with
    | none =>
      rw [Run.next_none ha]
      exact ⟨none, rfl, fun _ _ h => by cases h⟩
    | some a =>
      obtain ⟨o, ho, he⟩ := h.step a _ _ (Run.next_some ha)
      refine ⟨o, ho, fun a' b ha' hb => he b ?_⟩
      rwa [Option.some.inj ha']
  choose actions hactions hevents using hstep
  obtain ⟨r', k, hr⟩ := exists_run (h.init _ r.init) hactions
  exact ⟨r', k, fun n => (hr n).1, fun n a b ha hb => (hr n).2.trans (hevents n a b ha hb)⟩

theorem Run.Image.takes (h : r'.Image k r proj event) (hpq : ∀ a, P a → ∃ b, event a = some b ∧ Q b)
    (ht : r.Takes P n) : r'.Takes Q n := by
  obtain ⟨m, hm, a, ha, hp⟩ := ht
  obtain ⟨b, hb, hq⟩ := hpq a hp
  exact ⟨k + m, Nat.le_trans hm (Nat.le_add_left m k), b, h.actions m a b ha hb, hq⟩

theorem Run.Image.enabled (h : r'.Image k r proj event)
    (hen : ∀ s, N.Enabled Q (proj s) → M.Enabled P s) (hq : N.Enabled Q (r'.states (k + n))) :
    M.Enabled P (r.states n) :=
  hen _ (h.states n ▸ hq)

/-- The image is as fair as the run. -/
theorem Run.Image.fair (h : r'.Image k r proj event) (hpq : ∀ a, P a → ∃ b, event a = some b ∧ Q b)
    (hen : ∀ s, N.Enabled Q (proj s) → M.Enabled P s) (hfair : r.Fair P) : r'.Fair Q :=
  fun n hq => h.takes hpq (hfair n fun m hm => h.enabled hen (hq (k + m) (by omega)))

theorem Run.Image.stronglyFair (h : r'.Image k r proj event)
    (hpq : ∀ a, P a → ∃ b, event a = some b ∧ Q b)
    (hen : ∀ s, N.Enabled Q (proj s) → M.Enabled P s) (hfair : r.StronglyFair P) :
    r'.StronglyFair Q := by
  refine fun n hq => h.takes hpq (hfair n fun j => ?_)
  obtain ⟨m, hm, hq⟩ := hq (k + j)
  obtain ⟨i, rfl⟩ := Nat.exists_eq_add_of_le (Nat.le_trans (Nat.le_add_right k j) hm)
  exact ⟨i, by omega, h.enabled hen hq⟩

end

-- ---------------------------------------------------------------------------
-- Descent
-- ---------------------------------------------------------------------------

/-- Actions that take a well-founded measure down, where no other action changes
it, are taken only finitely often. -/
theorem Run.ceases (r : M.Run) {lt : β → β → Prop} (hwf : WellFounded lt) (measure : σ → β)
    (hdown : ∀ a s t, M.step a s = some t → P a → lt (measure t) (measure s))
    (hkeep : ∀ a s t, M.step a s = some t → P a = false → measure t = measure s) :
    ∃ n, ¬ r.Takes P n := by
  by_contra hnever
  have htakes : ∀ n, r.Takes P n := fun n => by_contra fun h => hnever ⟨n, h⟩
  have hstay {n m : Nat} (hle : n ≤ m) (hnone : ∀ k, n ≤ k → k < m →
      ∀ a, r.actions k = some a → P a = false) :
      measure (r.states m) = measure (r.states n) := by
    induction hle with
    | refl => rfl
    | @step m hle ih =>
      rw [← ih fun k hk hlt => hnone k hk (Nat.lt_succ_of_lt hlt)]
      cases ha : r.actions m with
      | none => rw [Run.next_none ha]
      | some a => exact hkeep a _ _ (Run.next_some ha) (hnone m hle (Nat.lt_succ_self m) a ha)
  have hbelow (n : Nat) : ∃ m, lt (measure (r.states m)) (measure (r.states n)) := by
    -- the first of the actions from `n` on
    have hex := htakes n
    classical
    obtain ⟨hle, a, ha, hp⟩ := Nat.find_spec hex
    have hfirst := hstay hle fun k hk hlt b hb => by
      by_contra hpb
      exact Nat.find_min hex hlt ⟨hk, b, hb, by simpa using hpb⟩
    refine ⟨Nat.find hex + 1, ?_⟩
    rw [← hfirst]
    exact hdown a _ _ (Run.next_some ha) hp
  have hnone : ∀ x, ∀ n, measure (r.states n) ≠ x := by
    intro x
    induction x using hwf.induction with
    | h x ih =>
      rintro n rfl
      obtain ⟨m, hm⟩ := hbelow n
      exact ih _ hm m rfl
  exact hnone _ 0 rfl

/-- One element of a list makes way for a smaller one. -/
theorem cutExpand_set {lt : β → β → Prop} {as : List β} (hi : as[i]? = some old)
    (hlt : lt new old) :
    Relation.CutExpand lt (as.set i new : Multiset β) (as : Multiset β) := by
  obtain ⟨hlen, rfl⟩ := List.getElem?_eq_some_iff.mp hi
  have hset : (as.set i new : Multiset β) = {new} + (as.eraseIdx i : Multiset β) :=
    Multiset.coe_eq_coe.mpr (List.set_perm_cons_eraseIdx hlen new)
  have hold : (as : Multiset β) = {as[i]} + (as.eraseIdx i : Multiset β) :=
    Multiset.coe_eq_coe.mpr (List.getElem_cons_eraseIdx_perm hlen).symm
  rw [hset, hold]
  exact Relation.cutExpand_single_add hlt _

-- ---------------------------------------------------------------------------
-- Runs that come to rest
-- ---------------------------------------------------------------------------

theorem run_take_succ {as : List α} (h : M.run (as.take n) s = some u) (ha : as[n]? = some a) :
    M.run (as.take (n + 1)) s = M.step a u := by
  rw [List.take_add_one, ha, Option.toList_some, run_append, h, Option.bind_some, run_cons,
    show M.run [] = some from funext fun _ => rfl, Option.bind_fun_some]

theorem run_take_isSome (h : M.run as s = some t) (n : Nat) : (M.run (as.take n) s).isSome := by
  rw [← List.take_append_drop n as] at h
  obtain ⟨u, hu, -⟩ := run_append_some.mp h
  rw [hu]
  rfl

/-- A finite run after which nothing happens. -/
def Run.resting (h0 : M.init s) (h : M.run as s = some t) : M.Run where
  states n := (M.run (as.take n) s).get (run_take_isSome h n)
  actions n := as[n]?
  init := by simpa [run_nil] using h0
  next n := by
    have hn : M.run (as.take n) s = some ((M.run (as.take n) s).get (run_take_isSome h n)) :=
      (Option.some_get _).symm
    cases ha : as[n]? with
    | none =>
      have hlen := List.getElem?_eq_none_iff.mp ha
      simp [List.take_of_length_le hlen, List.take_of_length_le (Nat.le_succ_of_le hlen)]
    | some a =>
      rw [Option.some_get (run_take_isSome h (n + 1)), run_take_succ hn ha]
      rfl

theorem Run.resting_states {h0 : M.init s} {h : M.run as s = some t} (hn : as.length ≤ n) :
    (Run.resting h0 h).states n = t := by
  simp only [resting, List.take_of_length_le hn, h, Option.get_some]

theorem Run.resting_fair {h0 : M.init s} {h : M.run as s = some t} (ht : ¬ M.Enabled P t) :
    (Run.resting h0 h).StronglyFair P := by
  intro n hen
  obtain ⟨m, hm, hp⟩ := hen as.length
  rw [resting_states hm] at hp
  exact absurd hp ht

end Machine
