import Mathlib.Data.List.MinMax

/-!
# Locks

Threads that hold locks, each shared or exclusively, and wait for one lock at a
time. If each waits only for locks above all that it holds, somebody who waits
can go on, even where readers are kept behind waiting writers.
-/

namespace Locks

inductive Mode
  | shared | exclusive
  deriving DecidableEq, Repr

def Mode.compatible : Mode → Mode → Bool
  | .shared, .shared => true
  | _, _ => false

theorem Mode.compatible_comm (m n : Mode) : m.compatible n = n.compatible m := by
  cases m <;> cases n <;> rfl

variable {L : Type}

/-- What a thread holds and what it waits for. -/
structure Use (L : Type) where
  held : List (L × Mode) := []
  wants : Option (L × Mode) := none

/-- Nobody holds the lock in a mode that excludes this one. The locks are not
reentrant, so the thread that asks is no exception. -/
def Granted (uses : List (Use L)) (lock : L) (mode : Mode) : Prop :=
  ∀ use ∈ uses, ∀ held ∈ use.held, held.1 = lock → mode.compatible held.2

/-- A reader that a waiting writer may keep waiting. -/
def HeldUp (uses : List (Use L)) (lock : L) (mode : Mode) : Prop :=
  mode = .shared ∧ ∃ use ∈ uses, use.wants = some (lock, .exclusive)

instance [DecidableEq L] (uses : List (Use L)) (lock : L) (mode : Mode) :
    Decidable (Granted uses lock mode) :=
  inferInstanceAs (Decidable (∀ use ∈ uses, ∀ held ∈ use.held, _ → _))

-- ---------------------------------------------------------------------------
-- What one thread holds
-- ---------------------------------------------------------------------------

section
variable {α : Type} [DecidableEq L]

/-- Runs `body` under the lock. A thread that holds the lock itself, in a mode
that excludes this one, waits for itself: its hold is the error. -/
def locked (held : List (L × Mode)) (lock : L) (mode : Mode)
    (body : List (L × Mode) → Except (L × Mode) α) : Except (L × Mode) α :=
  match held.find? fun hold => hold.1 = lock && !mode.compatible hold.2 with
  | some hold => .error hold
  | none => body ((lock, mode) :: held)

variable {held : List (L × Mode)} {lock : L} {mode : Mode}
  {body : List (L × Mode) → Except (L × Mode) α}

theorem locked_ok {a : α} (h : locked held lock mode body = .ok a) :
    body ((lock, mode) :: held) = .ok a := by
  unfold locked at h
  split at h
  · cases h
  · exact h

theorem locked_free (h : ∀ hold ∈ held, hold.1 ≠ lock) :
    locked held lock mode body = body ((lock, mode) :: held) := by
  have hnone : held.find? (fun hold => hold.1 = lock && !mode.compatible hold.2) = none := by
    rw [List.find?_eq_none]
    intro hold hmem
    simp [h hold hmem]
  rw [locked, hnone]

theorem locked_exclusive :
    locked ((lock, .exclusive) :: held) lock mode body = .error (lock, .exclusive) := by
  have hmode : mode.compatible .exclusive = false := by cases mode <;> rfl
  simp [locked, hmode]

end

-- ---------------------------------------------------------------------------
-- Exclusion
-- ---------------------------------------------------------------------------

def Exclusive (uses : List (Use L)) : Prop :=
  ∀ (i j : Nat) u v, i ≠ j → uses[i]? = some u → uses[j]? = some v →
    ∀ h ∈ u.held, ∀ k ∈ v.held, h.1 = k.1 → h.2.compatible k.2

theorem Exclusive.set {uses : List (Use L)} (h : Exclusive uses) (hi : uses[i]? = some old)
    (hnew : ∀ l ∈ new.held, l ∈ old.held ∨ Granted uses l.1 l.2) :
    Exclusive (uses.set i new) := by
  -- the thread against any other one
  have hone : ∀ j v, i ≠ j → uses[j]? = some v →
      ∀ l ∈ new.held, ∀ k ∈ v.held, l.1 = k.1 → l.2.compatible k.2 := by
    intro j v hne hv l hl k hk heq
    obtain hold | hgranted := hnew l hl
    · exact h i j old v hne hi hv l hold k hk heq
    · exact hgranted v (List.mem_of_getElem? hv) k hk heq.symm
  obtain ⟨hlt, -⟩ := List.getElem?_eq_some_iff.mp hi
  intro a b u v hne hu hv l hl k hk heq
  by_cases ha : i = a
  · subst ha
    rw [List.getElem?_set_self hlt] at hu
    cases hu
    rw [List.getElem?_set_ne hne] at hv
    exact hone b v hne hv l hl k hk heq
  · rw [List.getElem?_set_ne ha] at hu
    by_cases hb : i = b
    · subst hb
      rw [List.getElem?_set_self hlt] at hv
      cases hv
      rw [Mode.compatible_comm]
      exact hone a u ha hu k hk l hl heq.symm
    · rw [List.getElem?_set_ne hb] at hv
      exact h a b u v hne hu hv l hl k hk heq

-- ---------------------------------------------------------------------------
-- Lock order
-- ---------------------------------------------------------------------------

section
variable {κ : Type} [LinearOrder κ] (rank : L → κ)

def Use.Ordered (use : Use L) : Prop :=
  ∀ wanted, use.wants = some wanted → ∀ held ∈ use.held, rank held.1 < rank wanted.1

/-- The wanted lock of the highest rank is free: who held it would wait for one
above it. A writer is the first to get it. -/
theorem exists_granted (uses : List (Use L)) (hordered : ∀ use ∈ uses, use.Ordered rank)
    (hwaits : ∀ use ∈ uses, use.held ≠ [] → use.wants ≠ none)
    (hsome : ∃ use ∈ uses, use.wants ≠ none) :
    ∃ use ∈ uses, ∃ lock mode, use.wants = some (lock, mode) ∧ Granted uses lock mode ∧
      ¬HeldUp uses lock mode := by
  let wanted := uses.filterMap (·.wants)
  have hmem {u : Use L} {w : L × Mode} (hu : u ∈ uses) (hw : u.wants = some w) : w ∈ wanted :=
    List.mem_filterMap.mpr ⟨u, hu, hw⟩
  obtain ⟨top, htop⟩ : ∃ top, wanted.argmax (fun w => rank w.1) = some top := by
    obtain ⟨u, hu, hw⟩ := hsome
    obtain ⟨w, hw⟩ := Option.ne_none_iff_exists'.mp hw
    refine Option.ne_none_iff_exists'.mp fun hnone => ?_
    rw [List.argmax_eq_none] at hnone
    exact absurd (hmem hu hw) (hnone ▸ List.not_mem_nil)
  have hfree : ∀ u ∈ uses, ∀ held ∈ u.held, held.1 ≠ top.1 := by
    intro u hu held hheld heq
    obtain ⟨w, hw⟩ := Option.ne_none_iff_exists'.mp (hwaits u hu (List.ne_nil_of_mem hheld))
    have hlt := hordered u hu w hw held hheld
    have hle := List.le_of_mem_argmax (hmem hu hw) htop
    rw [heq] at hlt
    exact absurd hlt (not_lt.mpr hle)
  have hgranted (mode : Mode) : Granted uses top.1 mode :=
    fun u hu held hheld heq => absurd heq (hfree u hu held hheld)
  by_cases hwriter : ∃ u ∈ uses, u.wants = some (top.1, .exclusive)
  · obtain ⟨u, hu, hw⟩ := hwriter
    exact ⟨u, hu, top.1, .exclusive, hw, hgranted _, fun h => by cases h.1⟩
  · obtain ⟨u, hu, hw⟩ := List.mem_filterMap.mp (List.argmax_mem htop)
    exact ⟨u, hu, top.1, top.2, hw, hgranted _, fun h => hwriter h.2⟩

end

end Locks
