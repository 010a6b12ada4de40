import Rolly.MetricsLinearized

/-!
# A collect under way

What a thread has read and not returned yet is in its hands. The other
threads neither move it nor read in its name.
-/

namespace Rolly.Metrics

def Event.thread : Event → Nat
  | .inserted thread _ _ => thread
  | .returned thread _ _ => thread
  | .recorded thread _ _ => thread
  | .read thread _ _ => thread
  | .collected thread _ => thread

/-- The snapshots that a `collect` has so far. -/
def Pc.inHand : Pc → List MetricSnapshot
  | .collect _ snapshots => snapshots
  | .visit _ _ snapshots => snapshots
  | _ => []

def State.inHand (s : State) (thread : Nat) : List MetricSnapshot :=
  s.threads[thread]?.elim [] Pc.inHand

section
variable {s t : State}

theorem move_getElem? (h : s.threads[thread]? = some old) (pc : Pc) :
    (s.move thread pc).threads[thread]? = some pc := by
  obtain ⟨hlt, -⟩ := List.getElem?_eq_some_iff.mp h
  exact List.getElem?_set_self hlt

theorem inHand_of (h : s.threads[thread]? = some pc) : s.inHand thread = pc.inHand := by
  simp [State.inHand, h]

@[simp] theorem inHand_note : (s.note event).inHand thread = s.inHand thread := rfl

theorem step_own (h : step action s = some t) :
    (∃ pc, t.threads = (s.move action.thread pc).threads) ∧
      ∃ events, t.log = events ++ s.log ∧ ∀ event ∈ events, event.thread = action.thread := by
  cases step_stepped h with
  | @get thread registration hpc =>
    unfold State.get
    split
    · exact ⟨⟨_, rfl⟩, [.returned thread _ _], rfl, by simp [Event.thread, Action.thread]⟩
    · exact ⟨⟨_, rfl⟩, [], rfl, nofun⟩
  | @entry thread registration hpc hr =>
    unfold State.entry
    dsimp only
    split
    · exact ⟨⟨_, rfl⟩, [.returned thread _ _], rfl, by simp [Event.thread, Action.thread]⟩
    · exact ⟨⟨_, rfl⟩, [.returned thread _ _, .inserted thread _ _], rfl,
        by simp [Event.thread, Action.thread]⟩
  | recorded => exact ⟨⟨_, rfl⟩, [_], rfl, by simp [Event.thread, Action.thread]⟩
  | visit => exact ⟨⟨_, rfl⟩, [_], rfl, by simp [Event.thread, Action.thread]⟩
  | returned => exact ⟨⟨_, rfl⟩, [_], rfl, by simp [Event.thread, Action.thread]⟩
  | _ => exact ⟨⟨_, rfl⟩, [], rfl, nofun⟩

theorem step_other (h : step action s = some t) (hne : action.thread ≠ thread) :
    t.threads[thread]? = s.threads[thread]? ∧
      ∀ event ∈ t.log, event.thread = thread → event ∈ s.log := by
  obtain ⟨⟨pc, hthreads⟩, events, hlog, hown⟩ := step_own h
  refine ⟨?_, fun event hm he => ?_⟩
  · rw [hthreads]
    exact List.getElem?_set_ne hne
  · rw [hlog, List.mem_append] at hm
    obtain hm | hm := hm
    · exact absurd ((hown event hm).symm.trans he) hne
    · exact hm

theorem release_returns (hpc : s.threads[thread]? = some (.visit .histogram [] snapshots))
    (h : step (.release thread) s = some t) :
    t = (s.move thread .idle).note (.collected thread snapshots) := by
  simp only [step, hpc, Kind.next, Option.some.injEq] at h
  exact h.symm

theorem inHand_step (h : step action s = some t)
    (hpc : ∀ snapshots, action = .release action.thread →
      s.threads[action.thread]? ≠ some (.visit .histogram [] snapshots)) :
    s.inHand action.thread ⊆ t.inHand action.thread := by
  have hidle {thread : Nat} {old : Pc} (ho : s.threads[thread]? = some old)
      (he : old.inHand = []) : s.inHand thread ⊆ t.inHand thread := by
    rw [inHand_of ho, he]
    exact List.nil_subset _
  have hmove {thread : Nat} {old new : Pc} (ho : s.threads[thread]? = some old)
      (he : old.inHand ⊆ new.inHand) : s.inHand thread ⊆ (s.move thread new).inHand thread := by
    rw [inHand_of ho, inHand_of (move_getElem? ho new)]
    exact he
  cases step_stepped h with
  | register ho | record ho _ | collect ho => exact hidle ho rfl
  | get ho | entry ho _ | recorded ho => exact hidle ho rfl
  | lock ho => exact hmove ho (List.Subset.refl _)
  | visit ho _ _ => exact hmove ho (List.subset_append_left _ _)
  | next ho _ => exact hmove ho (List.Subset.refl _)
  | returned ho => exact absurd ho (hpc _ rfl)

theorem read_step (h : step action s = some t)
    (hm : .read thread handle instrument ∈ t.log) :
    .read thread handle instrument ∈ s.log ∨
      ∀ snapshot, instrument.collect.1 = some snapshot → snapshot ∈ t.inHand thread := by
  cases step_stepped h with
  | get =>
    unfold State.get at hm
    split at hm
    · exact .inl (by simpa [State.note, State.move] using hm)
    · exact .inl hm
  | entry =>
    unfold State.entry at hm
    dsimp only at hm
    split at hm <;> exact .inl (by simpa [State.note, State.move] using hm)
  | recorded => exact .inl (by simpa [State.record, State.note, State.move] using hm)
  | visit ho =>
    obtain he | hm := List.mem_cons.mp hm
    · obtain ⟨rfl, rfl, rfl⟩ := Event.read.inj he
      refine .inr fun snapshot hs => ?_
      rw [inHand_note, inHand_of
        (move_getElem? (s := { s with registry := (s.registry.collectOne handle).2 }) ho _)]
      exact List.mem_append_right _ (Option.mem_toList.mpr hs)
    · exact .inl hm
  | returned => exact .inl (by simpa [State.note, State.move] using hm)
  | _ => exact .inl hm

end

end Rolly.Metrics
