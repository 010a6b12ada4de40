import Rolly.ExporterReplies

/-!
# Control messages on their way

A flush or a shutdown is pending until it is pushed into its slot. The loop
stops for a shutdown that it received, or when the last handle is gone.
-/

namespace Rolly.Exporter

section
variable {config : ExporterConfig} {s t : State}

theorem stopped (hr : (exporter config).Reachable s) (hpc : s.pc = .stopping ∨ s.pc = .terminated) :
    .shutdown ∈ s.channel.received ∨ s.channel.handles = 0 := by
  refine hr.invariant (I := fun s => s.pc = .stopping ∨ s.pc = .terminated →
    .shutdown ∈ s.channel.received ∨ s.channel.handles = 0) (fun s h0 hpc => ?_)
    (fun a s t hr ih ht hpc => ?_) hpc
  · obtain ⟨-, h0⟩ := Option.ite_none_left_eq_some.mp h0
    obtain rfl := Option.some.inj h0
    simp at hpc
  · cases step_stepped ht with
    | call h =>
      obtain ⟨⟨hrec, -⟩, -⟩ := Channel.call_frame h
      obtain hs | hh := ih hpc
      · exact .inl (hrec ▸ hs)
      · -- there is no handle to call
        simp [Channel.call, hh] at h
    | data hpc' hp =>
      rw [receiveData_pc, hpc'] at hpc
      simp at hpc
    | flush => simp at hpc
    | shutdown hpc' hp =>
      obtain ⟨rest, hq, rfl⟩ := pop_eq hp
      exact .inl (by simp)
    | closed _ _ hh => exact .inr (by simpa using hh)
    | tick hpc' =>
      have hc : (reap (flushAll config s)).channel = s.channel := flushAll_channel
      have hp : (reap (flushAll config s)).pc = .head := flushAll_pc.trans hpc'
      simp [hp] at hpc
    | reply => simp [Exporter.reply, reap] at hpc
    | stop hpc' => exact ih (.inl hpc')
    | join | task => exact ih hpc

/-- The messages that wait for their slot and those that were accepted, after a
step that asks for no flush and no shutdown. -/
inductive Entered (s t : State) : Action → Prop
  | data (ha : ∀ i, a ≠ .call (.push i)) (hp : t.channel.pending = s.channel.pending)
      (hacc : t.channel.accepted = s.channel.accepted ++ added)
      (hd : ∀ msg ∈ added, msg.data?.isSome) : Entered s t a
  | push (hm : s.channel.pending[i]? = some msg)
      (hp : t.channel.pending = s.channel.pending.eraseIdx i)
      (hacc : t.channel.accepted = s.channel.accepted ++ [msg]) : Entered s t (.call (.push i))

theorem entered_step (ht : step config a s = some t) (hf : a ≠ .call .flush)
    (hs : a ≠ .call .shutdown) (hc : ∀ i, a ≠ .call (.cancel i))
    (hstop : s.pc = .stopping → s.channel.pending = []) : Entered s t a := by
  have hquiet (ha : ∀ i, a ≠ .call (.push i)) (hp : t.channel.pending = s.channel.pending)
      (hacc : t.channel.accepted = s.channel.accepted) : Entered s t a :=
    .data ha hp (hacc.trans (List.append_nil _).symm) (by simp)
  cases step_stepped ht with
  | call h =>
    cases call_called h with
    | sent hk =>
      refine .data (fun i hi => ?_) rfl rfl (by simp [sends_data hk])
      cases hi
      cases hk
    | refused hk =>
      refine hquiet (fun i hi => ?_) rfl rfl
      cases hi
      cases hk
    | flush => exact absurd rfl hf
    | shutdown => exact absurd rfl hs
    | push hm => exact .push hm rfl rfl
    | cancel => exact absurd rfl (hc _)
    | clone | drop => exact hquiet (fun i hi => by cases hi) rfl rfl
  | data _ hp =>
    obtain ⟨rest, -, rfl⟩ := pop_eq hp
    exact hquiet (fun i hi => by cases hi) (by simp) (by simp)
  | flush _ hp | shutdown _ hp =>
    obtain ⟨rest, -, rfl⟩ := pop_eq hp
    exact hquiet (fun i hi => by cases hi) (by simp) (by simp)
  | closed => exact hquiet (fun i hi => by cases hi) (by simp) (by simp)
  | tick => exact hquiet (fun i hi => by cases hi) (by simp [reap]) (by simp [reap])
  | stop hpc => exact hquiet (fun i hi => by cases hi) (hstop hpc).symm rfl
  | join | reply | task => exact hquiet (fun i hi => by cases hi) rfl rfl

theorem drop_channel (ht : step config (.call .drop) s = some t) :
    t.channel.pending = s.channel.pending ∧ t.channel.accepted = s.channel.accepted ∧
      t.channel.handles = s.channel.handles - 1 := by
  cases step_stepped ht with
  | call h =>
    cases call_called h with
    | sent hk | refused hk => cases hk
    | drop => exact ⟨rfl, rfl, rfl⟩

theorem flush_channel (ht : step config (.call .flush) s = some t) :
    t.channel.pending = s.channel.pending ++ [.flush s.channel.nextDone] ∧
      t.channel.accepted = s.channel.accepted ∧ t.channel.handles = s.channel.handles := by
  cases step_stepped ht with
  | call h =>
    cases call_called h with
    | sent hk | refused hk => cases hk
    | flush => exact ⟨rfl, rfl, rfl⟩

theorem shutdown_channel (ht : step config (.call .shutdown) s = some t) :
    t.channel.pending = s.channel.pending ++ [.shutdown] ∧
      t.channel.accepted = s.channel.accepted ∧ t.channel.handles = s.channel.handles := by
  cases step_stepped ht with
  | call h =>
    cases call_called h with
    | sent hk | refused hk => cases hk
    | shutdown => exact ⟨rfl, rfl, rfl⟩

theorem handles_step (ht : step config a s = some t) (hd : a ≠ .call .drop) :
    s.channel.handles ≤ t.channel.handles := by
  obtain ⟨k, c, rfl, hc, rfl⟩ | ⟨-, hh, -⟩ := channel_step ht
  · obtain hle | ⟨rfl, -⟩ := call_handles hc
    · exact hle
    · exact absurd rfl hd
  · exact Nat.le_of_eq hh.symm

/-- A step that is no call leaves the books of the channel alone. -/
theorem quiet_step (ht : step config a s = some t)
    (ha : ∀ k, a ≠ .call k) : t.channel.accepted = s.channel.accepted ∧
      t.channel.droppedTotal = s.channel.droppedTotal ∧ t.channel.handles = s.channel.handles := by
  cases step_stepped ht with
  | @call k => exact absurd rfl (ha k)
  | data hpc hp | flush hpc hp | shutdown hpc hp =>
    obtain ⟨rest, -, rfl⟩ := pop_eq hp
    simp
  | closed => simp
  | tick => simp [reap]
  | join | task => exact ⟨rfl, rfl, rfl⟩
  | reply => exact ⟨rfl, rfl, rfl⟩
  | stop => exact ⟨rfl, rfl, rfl⟩

theorem full_step (ht : step config a s = some t) (hfull : ¬ s.channel.hasSlot config)
    (hp : s.channel.pending = []) : t.channel.accepted = s.channel.accepted := by
  obtain ⟨k, c, rfl, hc, rfl⟩ | ⟨hacc, -⟩ := channel_step ht
  · cases call_called hc with
    | sent hk hslot => exact absurd hslot hfull
    | push hm =>
      rw [hp] at hm
      cases hm
    | _ => rfl
  · exact hacc

theorem dataOf_step (hi : s.channel.Inv config) (ht : step config a s = some t)
    (ha : ∀ k msg, a = .call k → k.sends? = some msg → dataOf signal [msg] = []) :
    dataOf signal t.channel.accepted = dataOf signal s.channel.accepted ∧
      s.channel.droppedTotal ≤ t.channel.droppedTotal := by
  cases step_stepped ht with
  | call h =>
    cases call_called h with
    | sent hk =>
      refine ⟨?_, Nat.le_refl _⟩
      rw [dataOf_append, ha _ _ rfl hk, List.append_nil]
    | refused => exact ⟨rfl, Nat.le_succ _⟩
    | push hm =>
      -- what was pending is no data
      have hc := hi.control _ (List.mem_of_getElem? hm)
      refine ⟨?_, Nat.le_refl _⟩
      simp [dataOf, hc]
    | flush | shutdown | cancel | clone | drop => exact ⟨rfl, Nat.le_refl _⟩
  | _ =>
    obtain ⟨hacc, hdropped, -⟩ := quiet_step ht (fun _ h => by cases h)
    exact ⟨by rw [hacc], Nat.le_of_eq hdropped.symm⟩

theorem sendMetrics_step (ht : step config (.call (.sendMetrics data)) s = some t) :
    (t.channel.accepted = s.channel.accepted ++ [.metrics data] ∧
      t.channel.droppedTotal = s.channel.droppedTotal) ∨
    (t.channel.accepted = s.channel.accepted ∧
      t.channel.droppedTotal = s.channel.droppedTotal + 1) := by
  cases step_stepped ht with
  | call h =>
    cases call_called h with
    | sent hk =>
      cases hk
      exact .inl ⟨rfl, rfl⟩
    | refused => exact .inr ⟨rfl, rfl⟩

/-- The messages in the POSTs are the first that the channel took. -/
theorem sent_prefix (hr : (exporter config).Reachable s) (hu : config.url signal = some url) :
    sentOf signal s.pool.posts <+: dataOf signal s.channel.accepted := by
  have hi := reachable_inv hr
  have hstreams := hi.balanced.streams signal
  rw [hi.balanced.kept signal url hu, List.append_nil] at hstreams
  rw [hi.channel.order, dataOf_append, dataOf_append, ← hstreams, List.append_assoc,
    List.append_assoc]
  exact List.prefix_append _ _

theorem bodies_eq (hr : (exporter config).Reachable s) :
    (s.pool.posts.filter fun post => post.signal = signal).flatMap Post.data =
      (sentOf signal s.pool.posts).flatten := by
  have hall (posts : List Post) (h : ∀ post ∈ posts, post.data = post.items.flatten) :
      posts.flatMap Post.data = (posts.flatMap Post.items).flatten := by
    induction posts with
    | nil => rfl
    | cons post posts ih =>
      rw [List.flatMap_cons, List.flatMap_cons, List.flatten_append, h post List.mem_cons_self,
        ih fun post hm => h post (List.mem_cons_of_mem _ hm)]
  exact hall _ fun post hm =>
    ((reachable_inv hr).balanced.posts post (List.mem_of_mem_filter hm)).data

end

end Rolly.Exporter
