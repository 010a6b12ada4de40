import Rolly.ExporterControl
import Rolly.ExporterDelivery
import Rolly.TelemetryShutdown

/-!
# The drop of the guard returns

The guard waits for a slot, for the answer to its flush, and for a slot again.
The exporter frees slots and answers as long as somebody holds a handle and
nobody has shut it down, and the guard is the one to do either last. Without a
runtime, or inside one, the guard does nothing of all this.
-/

namespace Rolly.Telemetry

open Exporter (Channel ExportMessage drop_channel flush_channel shutdown_channel)
open Machine (Run)

-- ---------------------------------------------------------------------------
-- Where the guard stands
-- ---------------------------------------------------------------------------

/-- The guard polls its own calls, so it is the guard that pushes their messages. -/
def Action.isGuard : Action → Bool
  | .flush | .acknowledge | .shutdown | .release => true
  | .exporter (.call (.push _)) => true
  | _ => false

/-- The drop of the guard waits in its runtime. -/
def Guard.isDropping : Guard → Bool
  | .held | .gone => false
  | _ => true

/-- The message of the guard that is under way, and whether it has asked for the
shutdown. -/
def Guard.Stands (c : Channel) : Guard → Prop
  | .held | .dropping | .acknowledged _ => c.pending = [] ∧ .shutdown ∉ c.accepted
  | .flushing done =>
    (c.pending = [.flush done] ∨ c.pending = [] ∧ .flush done ∈ c.accepted) ∧
      .shutdown ∉ c.accepted
  | .stopping => c.pending = [.shutdown] ∧ .shutdown ∉ c.accepted ∨
    c.pending = [] ∧ .shutdown ∈ c.accepted
  | .gone => c.pending = []

structure Guarded (s : State) : Prop where
  stands : s.guard.Stands s.exporter.channel
  handles : s.guard ≠ .gone → s.users ≤ s.exporter.channel.handles

/-- What a step means to the guard. -/
inductive Acted (s t : State) : Action → Prop
  | other (ha : a.isGuard = false) (hg : t.guard = s.guard)
      (hp : t.exporter.channel.pending = s.exporter.channel.pending)
      (hacc : t.exporter.channel.accepted = s.exporter.channel.accepted ++ added)
      (hd : ∀ msg ∈ added, msg.data?.isSome) : Acted s t a
  | push (hg : t.guard = s.guard) (hm : s.exporter.channel.pending[i]? = some msg)
      (hp : t.exporter.channel.pending = s.exporter.channel.pending.eraseIdx i)
      (hacc : t.exporter.channel.accepted = s.exporter.channel.accepted ++ [msg]) :
      Acted s t (.exporter (.call (.push i)))
  | drop (hg : s.guard = .held) (ht : t.guard = .dropping) (he : t.exporter = s.exporter) :
      Acted s t (.drop true false)
  | dropOnly (hg : s.guard = .held) (ht : t.guard = .gone)
      (hp : t.exporter.channel.pending = s.exporter.channel.pending)
      (hacc : t.exporter.channel.accepted = s.exporter.channel.accepted) :
      Acted s t (.drop runtime inside)
  | flush (hg : s.guard = .dropping) (ht : t.guard = .flushing done)
      (hp : t.exporter.channel.pending = s.exporter.channel.pending ++ [.flush done])
      (hacc : t.exporter.channel.accepted = s.exporter.channel.accepted) : Acted s t .flush
  | acknowledge (hg : s.guard = .flushing done) (hd : done ∈ s.exporter.replies)
      (ht : t.guard = .acknowledged done) (he : t.exporter = s.exporter) : Acted s t .acknowledge
  | shutdown (hg : s.guard = .acknowledged done) (ht : t.guard = .stopping)
      (hp : t.exporter.channel.pending = s.exporter.channel.pending ++ [.shutdown])
      (hacc : t.exporter.channel.accepted = s.exporter.channel.accepted) : Acted s t .shutdown
  | release (hg : s.guard = .stopping) (hn : .shutdown ∉ s.exporter.channel.pending)
      (ht : t.guard = .gone)
      (hp : t.exporter.channel.pending = s.exporter.channel.pending)
      (hacc : t.exporter.channel.accepted = s.exporter.channel.accepted) : Acted s t .release

section
variable {config : TelemetryConfig} {s t : State}

theorem stopping_pending (h : Guarded s)
    (hr : (Exporter.exporter (exporterConfig config)).Reachable s.exporter)
    (hpc : s.exporter.pc = .stopping) : s.exporter.channel.pending = [] := by
  -- either the shutdown was asked for, and no message comes after it, or the guard is gone
  have hshutdown : s.guard ≠ .gone → .shutdown ∈ s.exporter.channel.accepted := by
    intro hgone
    have hpos := Nat.lt_of_lt_of_le users_pos (h.handles hgone)
    have hreceived := (Exporter.stopped hr (.inl hpc)).resolve_right (by omega)
    rw [(Exporter.reachable_inv hr).channel.order, List.append_assoc]
    exact List.mem_append_left _ hreceived
  have hs := h.stands
  cases hg : s.guard with
  | gone => rwa [hg] at hs
  | stopping =>
    rw [hg] at hs hshutdown
    obtain ⟨-, hno⟩ | ⟨hp, -⟩ := hs
    · exact absurd (hshutdown fun h => by cases h) hno
    · exact hp
  | held | dropping | flushing | acknowledged =>
    rw [hg] at hs hshutdown
    exact absurd (hshutdown fun h => by cases h) hs.2

theorem isGuard_exporter {b : Exporter.Action} (h : ∀ i, b ≠ .call (.push i)) :
    Action.isGuard (.exporter b) = false := by
  cases b with
  | call k =>
    cases k with
    | push i => exact absurd rfl (h i)
    | _ => rfl
  | _ => rfl

/-- The guard asks for a release only once its shutdown is in the channel. -/
theorem release_pending (h : step config .release s = some t) :
    .shutdown ∉ s.exporter.channel.pending := by
  simp only [step] at h
  split at h
  · exact (Option.ite_none_left_eq_some.mp h).1
  · cases h

theorem step_acted (h : Guarded s)
    (hr : (Exporter.exporter (exporterConfig config)).Reachable s.exporter)
    (ht : step config a s = some t) : Acted s t a := by
  have hidle {a : Action} {u : State} (ha : a.isGuard = false) (hg : u.guard = s.guard)
      (he : u.exporter = s.exporter) : Acted s u a := by
    have hacc : u.exporter.channel.accepted = s.exporter.channel.accepted ++ [] := by
      rw [he, List.append_nil]
    exact .other ha hg (by rw [he]) hacc (by simp)
  cases step_stepped ht with
  | program | start | tick | collect | skip => exact hidle rfl rfl rfl
  | @exporter b exporter hu hs =>
    have hcall {k : Exporter.Call} (hk : unattended config (.call k) = false) : b ≠ .call k := by
      rintro rfl
      rw [hk] at hu
      cases hu
    have hentered := Exporter.entered_step hs (hcall rfl) (hcall rfl) (fun i => hcall rfl)
      (stopping_pending h hr)
    cases hentered with
    | data hpush hp hacc hd => exact .other (isGuard_exporter hpush) rfl hp hacc hd
    | push hm hp hacc => exact .push rfl hm hp hacc
  | send hl he hs =>
    have hentered := Exporter.entered_step hs (fun h => by cases h) (fun h => by cases h)
      (fun i h => by cases h) (stopping_pending h hr)
    cases hentered with
    | data hpush hp hacc hd => exact .other rfl rfl hp hacc hd
  | panic hl hs =>
    obtain ⟨hp, hacc, -⟩ := drop_channel hs
    exact .other rfl rfl hp (hacc.trans (List.append_nil _).symm) (by simp)
  | drop hg => exact .drop hg rfl rfl
  | dropOnly hg _ hs =>
    obtain ⟨hp, hacc, -⟩ := drop_channel hs
    exact .dropOnly hg rfl hp hacc
  | flush hg hs =>
    obtain ⟨hp, hacc, -⟩ := flush_channel hs
    exact .flush hg rfl hp hacc
  | acknowledge hg hd => exact .acknowledge hg hd rfl rfl
  | shutdown hg hs =>
    obtain ⟨hp, hacc, -⟩ := shutdown_channel hs
    exact .shutdown hg rfl hp hacc
  | release hg hs =>
    obtain ⟨hp, hacc, -⟩ := drop_channel hs
    exact .release hg (release_pending ht) rfl hp hacc

theorem Guard.Stands.other {guard : Guard} {c c' : Channel} (h : guard.Stands c)
    (hp : c'.pending = c.pending) (hacc : c'.accepted = c.accepted ++ added)
    (hd : ∀ msg ∈ added, msg.data?.isSome) : guard.Stands c' := by
  have hshutdown : .shutdown ∈ c'.accepted ↔ .shutdown ∈ c.accepted := by
    rw [hacc, List.mem_append]
    refine or_iff_left fun hm => ?_
    cases hd _ hm
  cases guard with
  | flushing done =>
    obtain ⟨hasked, hno⟩ := h
    refine ⟨hasked.imp (fun h => hp.trans h) fun h => ⟨hp.trans h.1, ?_⟩, fun hm => ?_⟩
    · rw [hacc]
      exact List.mem_append_left _ h.2
    · exact hno (hshutdown.mp hm)
  | stopping =>
    refine h.imp (fun h => ⟨hp.trans h.1, fun hm => h.2 (hshutdown.mp hm)⟩) fun h => ?_
    exact ⟨hp.trans h.1, hshutdown.mpr h.2⟩
  | gone => exact hp.trans h
  | held | dropping | acknowledged => exact ⟨hp.trans h.1, fun hm => h.2 (hshutdown.mp hm)⟩

theorem Guard.Stands.push {guard : Guard} {c c' : Channel} (h : guard.Stands c)
    (hm : c.pending[i]? = some msg) (hp : c'.pending = c.pending.eraseIdx i)
    (hacc : c'.accepted = c.accepted ++ [msg]) : c.pending = [msg] ∧ guard.Stands c' := by
  have hfirst {first : ExportMessage} (hpending : c.pending = [first]) : i = 0 ∧ first = msg := by
    rw [hpending] at hm
    obtain ⟨hlt, hget⟩ := List.getElem?_eq_some_iff.mp hm
    obtain rfl : i = 0 := by simpa using hlt
    exact ⟨rfl, hget⟩
  have hsome : c.pending ≠ [] := by
    intro hnil
    rw [hnil] at hm
    cases hm
  cases guard with
  | flushing done =>
    obtain ⟨hpending | ⟨hnil, -⟩, hno⟩ := h
    · obtain ⟨rfl, rfl⟩ := hfirst hpending
      refine ⟨hpending, .inr ⟨?_, ?_⟩, ?_⟩
      · rw [hp, hpending, List.eraseIdx_zero, List.tail_cons]
      · simp [hacc]
      · simpa [hacc] using hno
    · exact absurd hnil hsome
  | stopping =>
    obtain ⟨hpending, hno⟩ | ⟨hnil, -⟩ := h
    · obtain ⟨rfl, rfl⟩ := hfirst hpending
      refine ⟨hpending, .inr ⟨?_, ?_⟩⟩
      · rw [hp, hpending, List.eraseIdx_zero, List.tail_cons]
      · simp [hacc]
    · exact absurd hnil hsome
  | gone => exact absurd h hsome
  | held | dropping | acknowledged => exact absurd h.1 hsome

theorem replied_pending (h : (Guard.flushing done).Stands s.exporter.channel)
    (hr : (Exporter.exporter (exporterConfig config)).Reachable s.exporter)
    (hd : done ∈ s.exporter.replies) : s.exporter.channel.pending = [] := by
  obtain ⟨hpending | ⟨hnil, -⟩, -⟩ := h
  · have hacc := List.one_le_count_iff.mpr (Exporter.replied_complete hr hd).1
    have honce := (Exporter.reachable_inv hr).channel.once done
    rw [List.count_append, hpending, List.count_singleton_self] at honce
    omega
  · exact hnil

theorem Guarded.stands_step (h : Guarded s)
    (hr : (Exporter.exporter (exporterConfig config)).Reachable s.exporter)
    (ha : Acted s t a) : t.guard.Stands t.exporter.channel := by
  have hs := h.stands
  cases ha with
  | other _ hg hp hacc hd => exact hg ▸ hs.other hp hacc hd
  | push hg hm hp hacc => exact hg ▸ (hs.push hm hp hacc).2
  | drop hg ht he =>
    rw [hg] at hs
    rw [ht, he]
    exact hs
  | dropOnly hg ht hp =>
    rw [hg] at hs
    rw [ht]
    exact hp.trans hs.1
  | flush hg ht hp hacc =>
    rw [hg] at hs
    rw [ht]
    exact ⟨.inl (by rw [hp, hs.1, List.nil_append]), hacc ▸ hs.2⟩
  | acknowledge hg hd ht he =>
    rw [hg] at hs
    rw [ht, he]
    exact ⟨replied_pending hs hr hd, hs.2⟩
  | shutdown hg ht hp hacc =>
    rw [hg] at hs
    rw [ht]
    exact .inl ⟨by rw [hp, hs.1, List.nil_append], hacc ▸ hs.2⟩
  | release hg hn ht hp hacc =>
    rw [hg] at hs
    rw [ht]
    obtain ⟨hpending, -⟩ | ⟨hnil, -⟩ := hs
    · rw [hpending] at hn
      exact absurd List.mem_cons_self hn
    · exact hp.trans hnil

theorem Guarded.handles_step (h : Guarded s) (ht : step config a s = some t)
    (hgone : t.guard ≠ .gone) : t.users ≤ t.exporter.channel.handles := by
  have hkeep {u : State} (hg : u.guard = s.guard ∨ s.guard ≠ .gone)
      (hl : u.loop = .gone ↔ s.loop = .gone) (hu : u.guard ≠ .gone)
      (hle : s.exporter.channel.handles ≤ u.exporter.channel.handles) :
      u.users ≤ u.exporter.channel.handles := by
    have husers : u.users = s.users := by simp only [State.users, hl]
    rw [husers]
    refine Nat.le_trans (h.handles ?_) hle
    obtain heq | hne := hg
    · exact heq ▸ hu
    · exact hne
  cases step_stepped ht with
  | program => exact hkeep (.inl rfl) Iff.rfl hgone (Nat.le_refl _)
  | start hl | tick hl => exact hkeep (.inl rfl) (by simp [hl]) hgone (Nat.le_refl _)
  | collect hl =>
    exact hkeep (.inl rfl) (by simp [hl, afterStep_ne_gone]) hgone (Nat.le_refl _)
  | skip hl => exact hkeep (.inl rfl) (by simp [hl]) hgone (Nat.le_refl _)
  | @exporter b exporter hu hs =>
    refine hkeep (.inl rfl) Iff.rfl hgone (Exporter.handles_step hs ?_)
    rintro rfl
    cases hu
  | send hl he hs =>
    exact hkeep (.inl rfl) (by simp [hl]) hgone (Exporter.handles_step hs fun h => by cases h)
  | panic hl hs =>
    have hle := h.handles hgone
    have hhandles := (drop_channel hs).2.2
    simp only [State.users, hl] at hle ⊢
    simp at hle ⊢
    omega
  | drop hg => exact hkeep (.inr (by simp [hg])) Iff.rfl hgone (Nat.le_refl _)
  | dropOnly | release => exact absurd rfl hgone
  | flush hg hs =>
    exact hkeep (.inr (by simp [hg])) Iff.rfl hgone (Nat.le_of_eq (flush_channel hs).2.2.symm)
  | acknowledge hg => exact hkeep (.inr (by simp [hg])) Iff.rfl hgone (Nat.le_refl _)
  | shutdown hg hs =>
    exact hkeep (.inr (by simp [hg])) Iff.rfl hgone (Nat.le_of_eq (shutdown_channel hs).2.2.symm)

-- ---------------------------------------------------------------------------
-- The exporter in the stack
-- ---------------------------------------------------------------------------

def Action.isExporter : Action → Bool
  | .exporter a => a.isOwn
  | _ => false

def Action.exporter? : Action → Option Exporter.Action
  | .exporter a => some a
  | _ => none

/-- The exporter of the stack is the exporter, whatever else there is. -/
theorem follows_exporter (config : TelemetryConfig) :
    (telemetry config).Follows (Exporter.exporter (exporterConfig config)) State.exporter
      Action.exporter? where
  init := by
    rintro s ⟨threads, h0⟩
    exact (fresh_init h0).1.reachable
  step a s t ht := by
    cases step_stepped ht with
    | exporter _ hs => exact ⟨some _, hs, fun _ h => h⟩
    | send _ _ hs | panic _ hs | dropOnly _ _ hs | flush _ hs | shutdown _ hs | release _ hs =>
      exact ⟨some (.call _), hs, fun _ h => by cases h⟩
    | _ => exact ⟨none, rfl, fun _ h => by cases h⟩

/-- The exporter of the stack takes such an action. -/
def Action.ofExporter (P : Exporter.Action → Bool) (a : Action) : Bool := a.exporter?.any P

theorem ofExporter_exporter {P : Exporter.Action → Bool} (a : Action) (h : a.ofExporter P) :
    ∃ b, a.exporter? = some b ∧ P b := (Option.any_eq_true _ _).mp h

theorem ofExporter_enabled {P : Exporter.Action → Bool} (hcall : ∀ k, P (.call k) = false)
    (s : State) (h : (Exporter.exporter (exporterConfig config)).Enabled P s.exporter) :
    (telemetry config).Enabled (Action.ofExporter P) s := by
  obtain ⟨b, hb, hen⟩ := h
  obtain ⟨exporter, hs⟩ := Option.isSome_iff_exists.mp hen
  have hu : unattended config b = true := by
    cases b with
    | call k =>
      rw [hcall k] at hb
      cases hb
    | _ => rfl
  have hstep : Exporter.step (exporterConfig config) b s.exporter = some exporter := hs
  refine ⟨.exporter b, hb, ?_⟩
  simp [telemetry, step, hu, State.onExporter, hstep]

theorem isExporter_eq : Action.isExporter = Action.ofExporter Exporter.Action.isOwn := by
  funext a
  cases a <;> rfl

theorem projects_exporter (config : TelemetryConfig) :
    (telemetry config).Projects (Exporter.exporter (exporterConfig config)) State.exporter
      Action.isExporter Exporter.Action.isOwn := by
  rw [isExporter_eq]
  exact (follows_exporter config).projects ofExporter_exporter (ofExporter_enabled fun _ => rfl)

theorem reachable_exporter (hr : (telemetry config).Reachable s) :
    (Exporter.exporter (exporterConfig config)).Reachable s.exporter :=
  (projects_exporter config).reachable hr

theorem reachable_guarded (hr : (telemetry config).Reachable s) : Guarded s := by
  refine hr.invariant ?_ fun a s t hr h ht =>
    ⟨h.stands_step (reachable_exporter hr) (step_acted h (reachable_exporter hr) ht),
      h.handles_step ht⟩
  rintro s ⟨threads, h0⟩
  obtain ⟨hf, loop, hs⟩ := fresh_init h0
  have hguard : s.guard = .held := by rw [hs]
  obtain ⟨hacc, hp⟩ := List.append_eq_nil_iff.mp hf.unused
  refine ⟨?_, fun _ => hf.serving.handles⟩
  rw [hguard]
  exact ⟨hp, hacc ▸ List.not_mem_nil⟩

theorem guarded_open (hr : (telemetry config).Reachable s) (hgone : s.guard ≠ .gone)
    (hno : .shutdown ∉ s.exporter.channel.accepted) : s.exporter.channel.closed = false := by
  have hi := Exporter.reachable_inv (reachable_exporter hr)
  rw [Bool.eq_false_iff, Ne, hi.closed]
  intro hpc
  obtain hreceived | hnone := Exporter.stopped (reachable_exporter hr) (.inr hpc)
  · rw [hi.channel.order, List.append_assoc] at hno
    exact hno (List.mem_append_left _ hreceived)
  · have hpos := Nat.lt_of_lt_of_le users_pos ((reachable_guarded hr).handles hgone)
    omega

/-- While the guard is held nobody flushes and nobody shuts the exporter down. -/
theorem held_data (hr : (telemetry config).Reachable s) (hg : s.guard = .held) :
    ∀ msg ∈ s.exporter.channel.accepted, msg.data?.isSome := by
  refine hr.invariant (I := fun s => s.guard = .held →
    ∀ msg ∈ s.exporter.channel.accepted, msg.data?.isSome) ?_ (fun a s t hr hi hstep hg => ?_) hg
  · rintro s ⟨threads, h0⟩ -
    obtain ⟨hf, -⟩ := fresh_init h0
    rw [(List.append_eq_nil_iff.mp hf.unused).1]
    simp
  · have hguarded := reachable_guarded hr
    cases step_acted hguarded (reachable_exporter hr) hstep with
    | other _ hsame _ hacc hd =>
      rw [hacc]
      exact fun msg hm => (List.mem_append.mp hm).elim (hi (hsame ▸ hg) msg) (hd msg)
    | push hsame hm =>
      have hp := hguarded.stands
      rw [hsame.symm.trans hg] at hp
      rw [hp.1] at hm
      cases hm
    | drop _ ht | dropOnly _ ht | flush _ ht | acknowledge _ _ ht | shutdown _ ht
    | release _ _ ht =>
      rw [ht] at hg
      cases hg

theorem reachable_answered (hr : (telemetry config).Reachable s)
    (h : (∃ done, s.guard = .acknowledged done) ∨ s.guard = .stopping ∨
      .shutdown ∈ s.exporter.channel.accepted) : s.exporter.replies ≠ [] := by
  refine hr.invariant (I := fun s => ((∃ done, s.guard = .acknowledged done) ∨
    s.guard = .stopping ∨ .shutdown ∈ s.exporter.channel.accepted) → s.exporter.replies ≠ []) ?_
    (fun a s t hr hi hstep h => ?_) h
  · rintro s ⟨threads, h0⟩ h
    obtain ⟨hf, loop, hs⟩ := fresh_init h0
    have hguard : s.guard = .held := by rw [hs]
    rw [hguard, (List.append_eq_nil_iff.mp hf.unused).1] at h
    obtain ⟨_, h⟩ | h | h := h <;> cases h
  · have hguarded := reachable_guarded hr
    have hkeep (hne : s.exporter.replies ≠ []) : t.exporter.replies ≠ [] := by
      obtain ⟨done, hd⟩ := List.exists_mem_of_ne_nil _ hne
      obtain ⟨hsame, -⟩ | ⟨b, hb, -⟩ := (projects_exporter config).step a s t hstep
      · exact hsame ▸ hne
      · exact List.ne_nil_of_mem (replies_grow hb hd)
    have hshut (hs : .shutdown ∈ s.exporter.channel.accepted) : s.exporter.replies ≠ [] :=
      hi (.inr (.inr hs))
    refine hkeep ?_
    cases step_acted hguarded (reachable_exporter hr) hstep with
    | other _ hsame _ hacc hd =>
      rw [hsame, hacc, List.mem_append] at h
      refine hi (h.imp_right (Or.imp_right (Or.resolve_right · fun hm => ?_)))
      cases hd _ hm
    | push hsame hm hp hacc =>
      rw [hsame, hacc, List.mem_append, List.mem_singleton] at h
      refine hi (h.imp_right fun h => h.elim .inl fun h => h.elim .inr fun hshutdown => ?_)
      -- the message under way is the one the guard waits with
      have hs := hguarded.stands
      have hmem := List.mem_of_getElem? hm
      rw [← hshutdown] at hmem
      cases hg : s.guard with
      | stopping => exact .inl rfl
      | flushing done =>
        rw [hg] at hs
        obtain hpending | ⟨hpending, -⟩ := hs.1 <;> simp [hpending] at hmem
      | gone =>
        rw [hg] at hs
        rw [show s.exporter.channel.pending = [] from hs] at hmem
        cases hmem
      | held | dropping | acknowledged =>
        rw [hg] at hs
        simp [hs.1] at hmem
    | drop _ ht he => exact hshut (by simpa [ht, he] using h)
    | dropOnly _ ht _ hacc | flush _ ht _ hacc => exact hshut (by simpa [ht, hacc] using h)
    | acknowledge _ hd => exact List.ne_nil_of_mem hd
    | shutdown hg => exact hi (.inl ⟨_, hg⟩)
    | release hg => exact hi (.inr (.inl hg))

/-- Only the drop of the guard panics, and the guard is dropped once. -/
theorem panicked_stable (panicked : Bool) :
    (telemetry config).Stable fun s => s.guard ≠ .held ∧ s.panicked = panicked := by
  rintro a s t - ⟨hg, hp⟩ ht
  cases step_stepped ht with
  | drop h | dropOnly h => exact absurd h hg
  | flush | acknowledge | shutdown | release => exact ⟨by simp, hp⟩
  | _ => exact ⟨hg, hp⟩

theorem unpanicked (hr : (telemetry config).Reachable s) (hg : s.guard ≠ .gone) :
    s.panicked = false := by
  refine hr.invariant (I := fun s => s.guard ≠ .gone → s.panicked = false) ?_
    (fun a s t _ hi ht hg => ?_) hg
  · rintro s ⟨threads, h0⟩ -
    obtain ⟨-, loop, hs⟩ := fresh_init h0
    rw [hs]
  · cases step_stepped ht with
    | dropOnly | release => exact absurd rfl hg
    | drop h | flush h | acknowledge h | shutdown h => exact hi (by simp [h])
    | _ => exact hi hg

/-- Once the guard is gone others act, and they send nothing but data. -/
theorem gone_acted (h : Guarded s) (hg : s.guard = .gone) (ha : Acted s t a) :
    a.isGuard = false ∧ t.guard = .gone ∧ ∃ added,
      t.exporter.channel.accepted = s.exporter.channel.accepted ++ added ∧
        ∀ msg ∈ added, msg.data?.isSome := by
  cases ha with
  | other ha hsame _ hacc hd => exact ⟨ha, hsame.trans hg, _, hacc, hd⟩
  | push _ hm =>
    have hp := h.stands
    rw [hg] at hp
    rw [show s.exporter.channel.pending = [] from hp] at hm
    cases hm
  | drop hg' | dropOnly hg' | flush hg' | acknowledge hg' | shutdown hg' | release hg' =>
    rw [hg] at hg'
    cases hg'

theorem gone_stable : (telemetry config).Stable fun s => s.guard = .gone := by
  intro a s t hr hg ht
  have hguarded := reachable_guarded hr
  exact (gone_acted hguarded hg (step_acted hguarded (reachable_exporter hr) ht)).2.1

/-- The guard is gone, and has left nothing but data in the channel. -/
structure State.Abandoned (panicked : Bool) (s : State) : Prop where
  gone : s.guard = .gone
  panicked : s.panicked = panicked
  accepted : ∀ msg ∈ s.exporter.channel.accepted, msg.data?.isSome

theorem abandoned_stable (panicked : Bool) :
    (telemetry config).Stable (State.Abandoned panicked) := by
  intro a s t hr h ht
  have hguarded := reachable_guarded hr
  have hpanicked := (panicked_stable panicked a s t hr ⟨by simp [h.gone], h.panicked⟩ ht).2
  obtain ⟨-, hgone, added, hacc, hd⟩ :=
    gone_acted hguarded h.gone (step_acted hguarded (reachable_exporter hr) ht)
  refine ⟨hgone, hpanicked, fun msg hm => ?_⟩
  rw [hacc] at hm
  exact (List.mem_append.mp hm).elim (h.accepted msg) (hd msg)

-- ---------------------------------------------------------------------------
-- What the guard has left to do
-- ---------------------------------------------------------------------------

def Guard.phase : Guard → Nat
  | .dropping => 4
  | .flushing _ => 3
  | .acknowledged _ => 2
  | .stopping => 1
  | .held | .gone => 0

/-- Two steps for each phase, less the one that is behind a call under way. -/
def State.left (s : State) : Nat := 2 * s.guard.phase + s.exporter.channel.pending.length

def State.Shut (s : State) : Prop :=
  s.guard = .gone ∧ .shutdown ∈ s.exporter.channel.accepted

theorem dropping_step (h : Guarded s) (hd : s.guard.isDropping) (ha : Acted s t a) :
    t.Shut ∨ t.guard.isDropping ∧ t.left + a.isGuard.toNat ≤ s.left := by
  have hs := h.stands
  cases ha with
  | other ha hg hp => exact .inr ⟨hg ▸ hd, by simp [State.left, hg, hp, ha]⟩
  | push hg hm hp hacc =>
    have hlt := (List.getElem?_eq_some_iff.mp hm).1
    refine .inr ⟨hg ▸ hd, ?_⟩
    simp only [State.left, hg, hp, List.length_eraseIdx_of_lt hlt, Action.isGuard, Bool.toNat_true]
    omega
  | drop hg | dropOnly hg =>
    rw [hg] at hd
    cases hd
  | flush hg ht hp =>
    refine .inr ⟨ht ▸ rfl, ?_⟩
    simp only [State.left, hg, ht, hp, Guard.phase, Action.isGuard, Bool.toNat_true,
      List.length_append, List.length_singleton]
    omega
  | acknowledge hg _ ht he =>
    refine .inr ⟨ht ▸ rfl, ?_⟩
    simp only [State.left, hg, ht, he, Guard.phase, Action.isGuard, Bool.toNat_true]
    omega
  | shutdown hg ht hp =>
    refine .inr ⟨ht ▸ rfl, ?_⟩
    simp only [State.left, hg, ht, hp, Guard.phase, Action.isGuard, Bool.toNat_true,
      List.length_append, List.length_singleton]
    omega
  | release hg hn ht hp hacc =>
    rw [hg] at hs
    obtain ⟨hpending, -⟩ | ⟨-, hshutdown⟩ := hs
    · rw [hpending] at hn
      exact absurd List.mem_cons_self hn
    · exact .inl ⟨ht, hacc ▸ hshutdown⟩

theorem call_enabled {k : Exporter.Call}
    (hc : (s.exporter.channel.call (exporterConfig config) k).isSome) :
    (s.onExporter config (.call k)).isSome := by
  simpa [State.onExporter, Exporter.step] using hc

variable (config) in
theorem guard_enabled (h : Guarded s) (hd : s.guard.isDropping) :
    (telemetry config).Enabled Action.isGuard s ∨
      (¬ s.exporter.channel.hasSlot (exporterConfig config) ∧ s.exporter.channel.pending = [] ∧
        .shutdown ∉ s.exporter.channel.accepted) ∨
      ∃ done, s.guard = .flushing done ∧ .flush done ∈ s.exporter.channel.accepted ∧
        .shutdown ∉ s.exporter.channel.accepted := by
  have hs := h.stands
  have hhandles (hgone : s.guard ≠ .gone) : s.exporter.channel.handles ≠ 0 :=
    Nat.ne_of_gt (Nat.lt_of_lt_of_le users_pos (h.handles hgone))
  have hpush {msg : ExportMessage} (hgone : s.guard ≠ .gone)
      (hp : s.exporter.channel.pending = [msg]) : (telemetry config).Enabled Action.isGuard s := by
    refine ⟨.exporter (.call (.push 0)), rfl, ?_⟩
    have hcall : (s.exporter.channel.call (exporterConfig config) (.push 0)).isSome := by
      simp [Channel.call, hhandles hgone, Exporter.push, hp]
    simpa [telemetry, step, unattended] using call_enabled hcall
  cases hg : s.guard with
  | held | gone =>
    rw [hg] at hd
    cases hd
  | dropping =>
    rw [hg] at hs
    by_cases hslot : s.exporter.channel.hasSlot (exporterConfig config)
    · have hcall : (s.exporter.channel.call (exporterConfig config) .flush).isSome := by
        simp [Channel.call, hhandles (by simp [hg]), Exporter.flush, hslot]
      exact .inl ⟨.flush, rfl, by simpa [telemetry, step, hg] using call_enabled hcall⟩
    · exact .inr (.inl ⟨hslot, hs⟩)
  | flushing done =>
    rw [hg] at hs
    obtain ⟨hp | ⟨-, hacc⟩, hno⟩ := hs
    · exact .inl (hpush (by simp [hg]) hp)
    · exact .inr (.inr ⟨done, rfl, hacc, hno⟩)
  | acknowledged done =>
    rw [hg] at hs
    by_cases hslot : s.exporter.channel.hasSlot (exporterConfig config)
    · have hcall : (s.exporter.channel.call (exporterConfig config) .shutdown).isSome := by
        simp [Channel.call, hhandles (by simp [hg]), Exporter.shutdown, hslot]
      exact .inl ⟨.shutdown, rfl, by simpa [telemetry, step, hg] using call_enabled hcall⟩
    · exact .inr (.inl ⟨hslot, hs⟩)
  | stopping =>
    rw [hg] at hs
    obtain ⟨hp, -⟩ | ⟨hp, -⟩ := hs
    · exact .inl (hpush (by simp [hg]) hp)
    · have hcall : (s.exporter.channel.call (exporterConfig config) .drop).isSome := by
        have := hhandles (by simp [hg])
        simp [Channel.call, this, Exporter.dropHandle, hp]
        omega
      exact .inl ⟨.release, rfl, by simpa [telemetry, step, hg, hp] using call_enabled hcall⟩

-- ---------------------------------------------------------------------------
-- Fair runs
-- ---------------------------------------------------------------------------

/-- The exporter is not left out, nor is the guard, which gets its turn among
those who wait for a slot. -/
structure Attended (r : (telemetry config).Run) : Prop where
  exporter : r.Fair Action.isExporter
  guard : r.StronglyFair Action.isGuard

variable {r : (telemetry config).Run}

theorem accepted_served (hfair : r.Fair Action.isExporter)
    (hk : (r.states n).exporter.channel.accepted[k]? = some msg) :
    ∃ m, n ≤ m ∧ Exporter.Served k (some msg) (r.states m).exporter := by
  have hservable : (exporterConfig config).Servable := .inl (Nat.succ_pos 3)
  obtain hd | hw := Exporter.accepted_stands (reachable_exporter (r.reachable n)) hk
  · exact ⟨n, Nat.le_refl n, hd⟩
  · exact ((projects_exporter config).progress (Exporter.awaits_progress hservable k _)).fair
      hfair hw

/-- A full channel gets a slot, if the guard neither has a message under way nor
has asked for the shutdown. -/
theorem slot_frees (hfair : r.Fair Action.isExporter)
    (hopen : ∀ m, n ≤ m → (r.states m).exporter.channel.pending = [] ∧
      (r.states m).exporter.channel.closed = false) :
    ∃ m, n ≤ m ∧ (r.states m).exporter.channel.hasSlot (exporterConfig config) := by
  by_contra hnever
  have hfull (m : Nat) (hm : n ≤ m) :
      ¬ (r.states m).exporter.channel.hasSlot (exporterConfig config) :=
    fun hslot => hnever ⟨m, hm, hslot⟩
  have hqueue (m : Nat) (hm : n ≤ m) : (r.states m).exporter.channel.queue.length =
      (exporterConfig config).channelCapacity := by
    obtain ⟨hp, hc⟩ := hopen m hm
    have hbounded := (Exporter.reachable_inv (reachable_exporter (r.reachable m))).channel.bounded
    have hno := hfull m hm
    rw [Channel.hasSlot, hp, List.length_nil] at hno
    rw [hp, List.length_nil] at hbounded
    have : ¬ _ < _ := fun hlt => hno ⟨hc, hlt⟩
    omega
  have horder (m : Nat) (hm : n ≤ m) : (r.states m).exporter.channel.accepted.length =
      (r.states m).exporter.channel.received.length +
        (r.states m).exporter.channel.queue.length := by
    have hi := (Exporter.reachable_inv (reachable_exporter (r.reachable m))).channel
    rw [hi.order, hi.openLost (hopen m hm).2, List.append_nil, List.length_append]
  -- nothing enters any more
  have hstill (m : Nat) (hm : n ≤ m) : (r.states m).exporter.channel.accepted =
      (r.states n).exporter.channel.accepted := by
    induction hm with
    | refl => rfl
    | @step m hm ih =>
      rw [← ih]
      cases ha : r.actions m with
      | none => rw [Run.next_none ha]
      | some a =>
        obtain ⟨hsame, -⟩ | ⟨b, hb, -⟩ :=
          (projects_exporter config).step a _ _ (Run.next_some ha)
        · rw [hsame]
        · exact Exporter.full_step hb (hfull m hm) (hopen m hm).1
  -- but the loop receives the first message of the queue
  have hcapacity : 0 < (exporterConfig config).channelCapacity := Nat.succ_pos 1023
  have hlt : (r.states n).exporter.channel.received.length <
      (r.states n).exporter.channel.accepted.length := by
    have := horder n (Nat.le_refl n)
    have := hqueue n (Nat.le_refl n)
    omega
  obtain ⟨m, hm, hserved⟩ := accepted_served hfair (List.getElem?_eq_getElem hlt)
  obtain ⟨hc, -⟩ | ⟨hreceived, -⟩ := hserved
  · rw [(hopen m hm).2] at hc
    cases hc
  · have := horder m hm
    have := horder n (Nat.le_refl n)
    have := hqueue m hm
    have := hqueue n (Nat.le_refl n)
    have := congrArg List.length (hstill m hm)
    omega

theorem flush_replied (hfair : r.Fair Action.isExporter)
    (hm : .flush done ∈ (r.states n).exporter.channel.accepted)
    (hopen : ∀ m, n ≤ m → (r.states m).exporter.channel.closed = false) :
    ∃ m, n ≤ m ∧ done ∈ (r.states m).exporter.replies := by
  obtain ⟨k, hk⟩ := List.mem_iff_getElem?.mp hm
  obtain ⟨m, hm, hserved⟩ := accepted_served hfair hk
  obtain ⟨hc, -⟩ | ⟨-, hd⟩ := hserved
  · rw [hopen m hm] at hc
    cases hc
  · exact ⟨m, hm, hd⟩

theorem dropping_not_gone (hd : s.guard.isDropping) : s.guard ≠ .gone := by
  intro hg
  rw [hg] at hd
  cases hd

theorem Acted.waits (ha : Acted s t a) (hd : s.guard.isDropping) (hnot : a.isGuard = false) :
    t.guard = s.guard := by
  cases ha with
  | other _ hg => exact hg
  | drop hg | dropOnly hg =>
    rw [hg] at hd
    cases hd
  | _ => cases hnot

/-- A guard that is dropped does not wait for good. -/
theorem guard_takes (hfair : Attended r) (hd : ∀ m, k ≤ m → (r.states m).guard.isDropping) :
    r.Takes Action.isGuard k := by
  by_contra hnever
  have hnot (m : Nat) (hm : k ≤ m) (a : Action) (ha : r.actions m = some a) :
      a.isGuard = false := by
    by_contra hguard
    exact hnever ⟨m, hm, a, ha, by simpa using hguard⟩
  have hacted (m : Nat) (a : Action) (ha : r.actions m = some a) :
      Acted (r.states m) (r.states (m + 1)) a :=
    step_acted (reachable_guarded (r.reachable m)) (reachable_exporter (r.reachable m))
      (Run.next_some ha)
  have hsame {n m : Nat} (hn : k ≤ n) (hm : n ≤ m) :
      (r.states m).guard = (r.states n).guard := by
    induction hm with
    | refl => rfl
    | @step m hm ih =>
      rw [← ih]
      cases ha : r.actions m with
      | none => rw [Run.next_none ha]
      | some a =>
        have hkm := Nat.le_trans hn hm
        exact (hacted m a ha).waits (hd m hkm) (hnot m hkm a ha)
  obtain ⟨j, hj⟩ : ∃ j, ∀ m, j ≤ m → ¬ (telemetry config).Enabled Action.isGuard (r.states m) := by
    by_contra hno
    refine hnever (hfair.guard k fun j => ?_)
    by_contra hdis
    exact hno ⟨j, fun m hm hen => hdis ⟨m, hm, hen⟩⟩
  have hstuck (m : Nat) (hm : max j k ≤ m) :=
    (guard_enabled config (reachable_guarded (r.reachable m)) (hd m (by omega))).resolve_left
      (hj m (by omega))
  have hopen (m : Nat) (hm : max j k ≤ m) : (r.states m).exporter.channel.closed = false := by
    refine guarded_open (r.reachable m) (dropping_not_gone (hd m (by omega))) ?_
    obtain ⟨-, -, hno⟩ | ⟨done, -, -, hno⟩ := hstuck m hm
    · exact hno
    · exact hno
  by_cases hflush : ∃ m done, max j k ≤ m ∧ (r.states m).guard = .flushing done ∧
      .flush done ∈ (r.states m).exporter.channel.accepted
  · obtain ⟨m, done, hm, hg, hacc⟩ := hflush
    obtain ⟨l, hl, hreplied⟩ := flush_replied hfair.exporter hacc fun l hl => hopen l (by omega)
    have hgl : (r.states l).guard = .flushing done := (hsame (by omega) hl).trans hg
    refine hj l (by omega) ⟨.acknowledge, rfl, ?_⟩
    simp [telemetry, step, hgl, hreplied]
  · have hfull (m : Nat) (hm : max j k ≤ m) :
        ¬ (r.states m).exporter.channel.hasSlot (exporterConfig config) ∧
          (r.states m).exporter.channel.pending = [] := by
      obtain ⟨hno, hp, -⟩ | ⟨done, hg, hacc, -⟩ := hstuck m hm
      · exact ⟨hno, hp⟩
      · exact absurd ⟨m, done, hm, hg, hacc⟩ hflush
    obtain ⟨m, hm, hslot⟩ := slot_frees hfair.exporter fun m hm => ⟨(hfull m hm).2, hopen m hm⟩
    exact (hfull m hm).1 hslot

theorem terminated_rests {P : Exporter.Action → Bool} (hcall : ∀ k, P (.call k) = false)
    (hr : (telemetry config).Reachable s) (hpc : s.exporter.pc = .terminated) :
    ¬ (telemetry config).Enabled (Action.ofExporter P) s := by
  rintro ⟨a, ha, hen⟩
  obtain ⟨t, ht⟩ := Option.isSome_iff_exists.mp hen
  obtain ⟨b, hb, hp⟩ := ofExporter_exporter a ha
  cases step_stepped ht with
  | exporter _ hs =>
    obtain ⟨k, rfl⟩ := Exporter.terminated_rests (reachable_exporter hr) hpc hs
    cases hb
    rw [hcall k] at hp
    cases hp
  | _ => cases hb

theorem dropped_rests (hr : (telemetry config).Reachable s) (hgone : s.guard = .gone)
    (hpc : s.exporter.pc = .terminated) :
    ¬ (telemetry config).Enabled Action.isGuard s ∧
      ¬ (telemetry config).Enabled Action.isExporter s := by
  have hguarded := reachable_guarded hr
  constructor
  · rintro ⟨a, ha, hen⟩
    obtain ⟨t, ht⟩ := Option.isSome_iff_exists.mp hen
    have hnot := (gone_acted hguarded hgone (step_acted hguarded (reachable_exporter hr) ht)).1
    rw [hnot] at ha
    cases ha
  · rw [isExporter_eq]
    exact terminated_rests (fun _ => rfl) hr hpc

/-- The drop is over: its flush was answered, its shutdown was taken, and the loop
of the exporter has stopped. -/
structure State.Returned (s : State) : Prop where
  gone : s.guard = .gone
  panicked : s.panicked = false
  flushed : s.exporter.replies ≠ []
  shutdown : .shutdown ∈ s.exporter.channel.accepted
  terminated : s.exporter.pc = .terminated

theorem dropping_returns (hfair : Attended r) (hd : (r.states n).guard.isDropping) :
    ∃ m, n ≤ m ∧ (r.states m).Returned := by
  have hstep : ∀ a s t, (telemetry config).Reachable s → s.guard.isDropping →
      (telemetry config).step a s = some t →
        t.Shut ∨ t.guard.isDropping ∧ t.left + a.isGuard.toNat ≤ s.left := by
    intro a s t hr hd ht
    have hguarded := reachable_guarded hr
    exact dropping_step hguarded hd (step_acted hguarded (reachable_exporter hr) ht)
  obtain ⟨m, hm, hgone, hshut⟩ := Run.reaches hstep (fun k hd => guard_takes hfair hd) hd
  obtain ⟨k, hk⟩ := List.mem_iff_getElem?.mp hshut
  obtain ⟨l, hl, hserved⟩ := accepted_served hfair.exporter hk
  have hclosed : (r.states l).exporter.channel.closed = true :=
    hserved.elim (fun h => h.1) fun h => h.2
  have hshut : .shutdown ∈ (r.states l).exporter.channel.accepted :=
    (((projects_exporter config).stable (Exporter.accepted_stable _)).later
      (List.prefix_refl _) hl).subset hshut
  have hpanicked : (r.states l).panicked = false := by
    refine ((panicked_stable false).later (n := n) ⟨?_, ?_⟩ (Nat.le_trans hm hl)).2
    · intro hheld
      rw [hheld] at hd
      cases hd
    · exact unpanicked (r.reachable n) (dropping_not_gone hd)
  refine ⟨l, Nat.le_trans hm hl, gone_stable.later hgone hl, hpanicked, ?_, hshut, ?_⟩
  · exact reachable_answered (r.reachable l) (.inr (.inr hshut))
  · exact (Exporter.reachable_inv (reachable_exporter (r.reachable l))).closed.mp hclosed

theorem drop_step (hr : (telemetry config).Reachable s)
    (ht : step config (.drop runtime inside) s = some t) :
    if runtime ∧ !inside then t.guard.isDropping else t.Abandoned runtime := by
  cases step_stepped ht with
  | drop => exact (if_pos ⟨rfl, rfl⟩).mpr rfl
  | dropOnly hg hwaits he =>
    rw [if_neg (by simpa using hwaits)]
    exact ⟨rfl, rfl, (drop_channel he).2.1 ▸ held_data hr hg⟩

/-- The drop of the guard returns from its flush and its shutdown if it has a
runtime to wait in and is inside none. Else it leaves the exporter alone, and
panics if it had a runtime. -/
theorem drop_returns (hfair : Attended r) (hd : r.actions n = some (.drop runtime inside)) :
    if runtime ∧ !inside then ∃ m, n < m ∧ (r.states m).Returned
    else ∀ m, n < m → (r.states m).Abandoned runtime := by
  have hstep := drop_step (r.reachable n) (Run.next_some hd)
  split
  · rename_i hwaits
    rw [if_pos hwaits] at hstep
    obtain ⟨m, hm, hreturned⟩ := dropping_returns hfair hstep
    exact ⟨m, hm, hreturned⟩
  · rename_i hwaits
    rw [if_neg hwaits] at hstep
    exact fun m hm => (abandoned_stable runtime).later hstep hm

end

def dropAtOnce : List Action :=
  [.drop true false, .flush, .exporter (.call (.push 0)), .exporter .recv, .exporter .reply,
    .acknowledge, .shutdown, .exporter (.call (.push 0)), .exporter .recv, .exporter .stop,
    .release]

theorem drop_returns_dropAtOnce : ∃ r : (telemetry metricsOnly).Run, Attended r ∧
    r.actions 0 = some (.drop true false) ∧ ∃ m, 0 < m ∧ (r.states m).Returned := by
  obtain ⟨s, hs⟩ := Option.isSome_iff_exists.mp (show (init metricsOnly 1).isSome by decide)
  have h0 : (telemetry metricsOnly).init s := ⟨1, hs⟩
  obtain ⟨t, ht, hend⟩ := Option.map_eq_some_iff.mp (Machine.of_run hs
    (f := fun s => ((telemetry metricsOnly).run dropAtOnce s).map fun t =>
      (t.guard, t.exporter.pc)) (y := some (.gone, .terminated)) (by decide +kernel))
  obtain ⟨hgone, hpc⟩ := Prod.mk.inj hend
  have hr : (telemetry metricsOnly).Reachable t := Machine.Reachable.run (.init h0) ht
  obtain ⟨hguard, hexporter⟩ := dropped_rests hr hgone hpc
  have hfair : Attended (Run.resting h0 ht) :=
    { exporter := (Run.resting_fair hexporter).fair, guard := Run.resting_fair hguard }
  have hfirst : (Run.resting h0 ht).actions 0 = some (.drop true false) := rfl
  exact ⟨Run.resting h0 ht, hfair, hfirst, by simpa using drop_returns hfair hfirst⟩

end Rolly.Telemetry
