import Rolly.ExporterConservation

/-!
# What an answered flush stands for

The answer comes once, but what it says stays true: later steps neither
accept anything ahead of the flush nor take back what was posted. Until
someone asks for it the loop does not stop.
-/

namespace Rolly.Exporter

open Proto3 (Bytes)

section
variable {config : ExporterConfig} {c c' : Channel} {s t : State}

-- ---------------------------------------------------------------------------
-- The channel
-- ---------------------------------------------------------------------------

def before (done : Nat) (accepted : List ExportMessage) : List ExportMessage :=
  accepted.takeWhile (· ≠ .flush done)

theorem before_fresh {pre : List ExportMessage} (h : .flush done ∉ pre)
    (added : List ExportMessage) : before done (pre ++ added) = pre ++ before done added := by
  refine List.takeWhile_append_of_pos fun msg hm => ?_
  rw [decide_eq_true_eq]
  rintro rfl
  exact h hm

theorem before_split {pre post : List ExportMessage} (h : .flush done ∉ pre) :
    before done (pre ++ .flush done :: post) = pre := by
  rw [before_fresh h, before, List.takeWhile_cons_of_neg (by simp), List.append_nil]

theorem before_eq (h : .flush done ∈ accepted) :
    ∃ post, accepted = before done accepted ++ .flush done :: post := by
  obtain ⟨pre, post, rfl, hpre⟩ := List.eq_append_cons_of_mem h
  exact ⟨post, by rw [before_split hpre]⟩

theorem before_append (h : .flush done ∈ accepted) (added : List ExportMessage) :
    before done (accepted ++ added) = before done accepted := by
  obtain ⟨pre, post, rfl, hpre⟩ := List.eq_append_cons_of_mem h
  rw [List.append_assoc, List.cons_append, before_split hpre, before_split hpre]

def Call.sends? : Call → Option ExportMessage
  | .sendTraces data => some (.traces data)
  | .sendLogs data => some (.logs data)
  | .sendMetrics data => some (.metrics data)
  | _ => none

inductive Called (config : ExporterConfig) (c : Channel) : Call → Channel → Prop
  | sent (hk : k.sends? = some msg) (hs : c.hasSlot config) : Called config c k { c with
      sends := c.sends + 1, queue := c.queue ++ [msg], accepted := c.accepted ++ [msg] }
  | refused (hk : k.sends? = some msg) (hs : ¬ c.hasSlot config) : Called config c k { c with
      sends := c.sends + 1, droppedTotal := c.droppedTotal + 1 }
  | flush (hs : c.hasSlot config) : Called config c .flush { c with
      pending := c.pending ++ [.flush c.nextDone], nextDone := c.nextDone + 1 }
  | shutdown (hs : c.hasSlot config) : Called config c .shutdown { c with
      pending := c.pending ++ [.shutdown] }
  | push (hm : c.pending[i]? = some msg) : Called config c (.push i) { c with
      pending := c.pending.eraseIdx i, queue := c.queue ++ [msg]
      accepted := c.accepted ++ [msg] }
  | cancel : Called config c (.cancel i) { c with pending := c.pending.eraseIdx i }
  | clone : Called config c .clone { c with handles := c.handles + 1 }
  | drop : Called config c .drop { c with handles := c.handles - 1 }

theorem call_called {k : Call} (h : c.call config k = some c') : Called config c k c' := by
  have hsend {msg : ExportMessage} (hk : k.sends? = some msg) (he : sendData config msg c = c') :
      Called config c k c' := by
    obtain ⟨hs, hc⟩ | ⟨hs, hc⟩ := sendData_cases config msg c
    · rw [← he, hc]
      exact .sent hk hs
    · rw [← he, hc]
      exact .refused hk hs
  unfold Channel.call at h
  split at h
  · cases h
  · cases k with
    | sendTraces data => exact hsend rfl (Option.some.inj h)
    | sendLogs data => exact hsend rfl (Option.some.inj h)
    | sendMetrics data => exact hsend rfl (Option.some.inj h)
    | flush =>
      obtain ⟨hs, rfl⟩ := flush_eq h
      exact .flush hs
    | shutdown =>
      obtain ⟨hs, rfl⟩ := shutdown_eq h
      exact .shutdown hs
    | push i =>
      obtain ⟨msg, hm, rfl⟩ := push_eq h
      exact .push hm
    | cancel i =>
      cases h
      exact .cancel
    | clone =>
      cases h
      exact .clone
    | drop =>
      obtain rfl := dropHandle_eq h
      exact .drop

theorem sends_data {k : Call} (h : k.sends? = some msg) : msg.data?.isSome := by
  cases k with
  | sendTraces data | sendLogs data | sendMetrics data =>
    cases h
    rfl
  | _ => cases h

theorem call_accepted {k : Call} (h : c.call config k = some c') :
    ∃ added, c'.accepted = c.accepted ++ added ∧
      ∀ msg ∈ added, msg.data?.isSome ∨ ∃ i, k = .push i ∧ c.pending[i]? = some msg := by
  cases call_called h with
  | @sent msg _ hk hs => exact ⟨[msg], rfl, by simp [sends_data hk]⟩
  | @push i msg hm => exact ⟨[msg], rfl, by simp [hm]⟩
  | _ => exact ⟨[], by simp, by simp⟩

theorem call_entered {k : Call} (h : c.call config k = some c') : ∃ entered,
    c'.accepted ++ c'.pending ⊆ c.accepted ++ c.pending ++ entered ∧
    c'.queue ++ c'.pending ⊆ c.queue ++ c.pending ++ entered ∧
    ∀ msg ∈ entered, msg.data?.isSome ∨ k = .flush ∧ msg = .flush c.nextDone ∨
      k = .shutdown ∧ msg = .shutdown := by
  cases call_called h with
  | @sent msg _ hk hs =>
    have hmove (l : List ExportMessage) : l ++ [msg] ++ c.pending ⊆ l ++ c.pending ++ [msg] := by
      intro m hm
      simp only [List.mem_append] at hm ⊢
      tauto
    exact ⟨[msg], hmove _, hmove _, by simp [sends_data hk]⟩
  | refused => exact ⟨[], by simp, by simp, by simp⟩
  | flush => exact ⟨[.flush c.nextDone], by simp, by simp, by simp⟩
  | shutdown => exact ⟨[.shutdown], by simp, by simp, by simp⟩
  | @push i msg hm =>
    have hfill (l : List ExportMessage) :
        l ++ [msg] ++ c.pending.eraseIdx i ⊆ l ++ c.pending ++ [] := by
      rw [List.append_nil]
      exact (push_perm l hm).subset
    exact ⟨[], hfill _, hfill _, by simp⟩
  | @cancel i =>
    have hless (l : List ExportMessage) :
        l ++ c.pending.eraseIdx i ⊆ l ++ c.pending ++ [] := by
      rw [List.append_nil]
      exact ((List.eraseIdx_sublist c.pending i).append_left l).subset
    exact ⟨[], hless _, hless _, by simp⟩
  | clone => exact ⟨[], by simp, by simp, by simp⟩
  | drop => exact ⟨[], by simp, by simp, by simp⟩

theorem call_handles {k : Call} (h : c.call config k = some c') :
    c.handles ≤ c'.handles ∨ k = .drop ∧ c'.handles = c.handles - 1 := by
  cases call_called h with
  | drop => exact .inr ⟨rfl, rfl⟩
  | clone => exact .inl (Nat.le_succ _)
  | _ => exact .inl (Nat.le_refl _)

theorem channel_step (ht : step config a s = some t) :
    (∃ k c, a = .call k ∧ s.channel.call config k = some c ∧ t = { s with channel := c }) ∨
    (t.channel.accepted = s.channel.accepted ∧ t.channel.handles = s.channel.handles ∧
      t.channel.queue ⊆ s.channel.queue ∧ t.channel.pending ⊆ s.channel.pending) := by
  have hpop {msg : ExportMessage} {c : Channel} (hp : s.channel.pop = some (msg, c)) :
      c.accepted = s.channel.accepted ∧ c.handles = s.channel.handles ∧
        c.queue ⊆ s.channel.queue ∧ c.pending ⊆ s.channel.pending := by
    obtain ⟨rest, hq, rfl⟩ := pop_eq hp
    exact ⟨rfl, rfl, hq ▸ List.subset_cons_self msg rest, List.Subset.refl _⟩
  cases step_stepped ht with
  | call h => exact .inl ⟨_, _, rfl, h, rfl⟩
  | data hpc hp hm => exact .inr (by simpa using hpop hp)
  | flush hpc hp => exact .inr (by simpa using hpop hp)
  | shutdown hpc hp => exact .inr (by simpa using hpop hp)
  | closed hpc hq hh => exact .inr (by simp)
  | tick hpc hq hh => exact .inr (by simp [reap])
  | join hh hnt hj => exact .inr (by simp)
  | reply hpc hj => exact .inr (by simp [Exporter.reply, reap])
  | stop hpc hj => exact .inr (by simp [Exporter.stop, Channel.close])
  | task h => exact .inr (by simp)

theorem accepted_step (ht : step config a s = some t) :
    ∃ added, t.channel.accepted = s.channel.accepted ++ added ∧
      ∀ msg ∈ added, msg.data?.isSome ∨
        ∃ i, a = .call (.push i) ∧ s.channel.pending[i]? = some msg := by
  obtain ⟨k, c, rfl, hc, rfl⟩ | ⟨ha, -⟩ := channel_step ht
  · simpa using call_accepted hc
  · exact ⟨[], by simp [ha], by simp⟩

theorem flush_step (ht : step config a s = some t) (hf : a ≠ .call .flush)
    (hm : .flush done ∈ t.channel.accepted ++ t.channel.pending) :
    .flush done ∈ s.channel.accepted ++ s.channel.pending := by
  obtain ⟨k, c, rfl, hc, rfl⟩ | ⟨ha, -, -, hp⟩ := channel_step ht
  · obtain ⟨entered, hsub, -, hentered⟩ := call_entered hc
    obtain hold | hnew := List.mem_append.mp (hsub hm)
    · exact hold
    · obtain hdata | ⟨rfl, -⟩ | ⟨-, he⟩ := hentered _ hnew
      · cases hdata
      · exact absurd rfl hf
      · cases he
  · rw [ha] at hm
    obtain hm | hm := List.mem_append.mp hm
    · exact List.mem_append_left _ hm
    · exact List.mem_append_right _ (hp hm)

-- ---------------------------------------------------------------------------
-- The tasks
-- ---------------------------------------------------------------------------

theorem mem_finishedOf {p : Pool} : data ∈ finishedOf signal p ↔
    ∃ task ∈ p.tasks, task.phase.isFinished ∧ task.post.signal = signal ∧
      data ∈ task.post.items := by
  simp only [finishedOf, sentOf, List.mem_flatMap, List.mem_filter, List.mem_map,
    decide_eq_true_eq]
  constructor
  · rintro ⟨_, ⟨⟨task, ⟨hm, hf⟩, rfl⟩, hs⟩, hd⟩
    exact ⟨task, hm, hf, hs, hd⟩
  · rintro ⟨task, hm, hf, hs, hd⟩
    exact ⟨_, ⟨⟨task, ⟨hm, hf⟩, rfl⟩, hs⟩, hd⟩

/-- The old tasks as they were, and then new ones that wait. -/
def Pool.Extends (p p' : Pool) : Prop :=
  ∃ posts : List Post, p'.tasks = p.tasks ++ posts.map fun post => { post, phase := .waiting }

theorem Pool.Extends.refl (p : Pool) : p.Extends p := ⟨[], by simp⟩

theorem Pool.Extends.trans {p q r : Pool} (h : p.Extends q) (h' : q.Extends r) : p.Extends r := by
  obtain ⟨posts, hq⟩ := h
  obtain ⟨posts', hr⟩ := h'
  exact ⟨posts ++ posts', by rw [hr, hq, List.map_append, List.append_assoc]⟩

theorem flushBatch_extends (signal : Signal) (url : Option String) (s : State) :
    s.pool.Extends (flushBatch signal url s).pool := by
  obtain ⟨-, h⟩ | ⟨-, -, h⟩ | ⟨u, -, -, h⟩ := flushBatch_cases signal url s
  · rw [h]
    exact .refl _
  · rw [h, setBatch_pool]
    exact .refl _
  · rw [h]
    exact ⟨[_], rfl⟩

theorem flushAll_extends (s : State) : s.pool.Extends (flushAll config s).pool :=
  ((flushBatch_extends _ _ s).trans (flushBatch_extends _ _ _)).trans (flushBatch_extends _ _ _)

theorem receiveData_extends (s : State) :
    s.pool.Extends (receiveData config signal data s).pool := by
  unfold receiveData
  dsimp only
  split
  · have := flushBatch_extends signal (config.url signal)
      (s.setBatch signal (s.batch signal ++ [data]))
    rwa [setBatch_pool] at this
  · rw [reap, setBatch_pool]
    exact .refl _

theorem step_tasks (ht : step config a s = some t) :
    (∃ i e p, a = .task i e ∧ s.pool.event i e = some p ∧ t = { s with pool := p }) ∨
      (∀ i e, a ≠ .task i e) ∧ s.pool.Extends t.pool := by
  cases step_stepped ht with
  | call => exact .inr ⟨fun _ _ h => (by cases h), .refl _⟩
  | data => exact .inr ⟨fun _ _ h => (by cases h), receiveData_extends _⟩
  | flush => exact .inr ⟨fun _ _ h => (by cases h), flushAll_extends { s with channel := _ }⟩
  | shutdown => exact .inr ⟨fun _ _ h => (by cases h), flushAll_extends { s with channel := _ }⟩
  | closed => exact .inr ⟨fun _ _ h => (by cases h), flushAll_extends s⟩
  | tick => exact .inr ⟨fun _ _ h => (by cases h), flushAll_extends s⟩
  | join _ _ hj =>
    simp only [Pool.join, Option.ite_none_right_eq_some, Option.some.injEq] at hj
    obtain ⟨-, rfl⟩ := hj
    exact .inr ⟨fun _ _ h => (by cases h), .refl _⟩
  | reply => exact .inr ⟨fun _ _ h => (by cases h), .refl _⟩
  | stop => exact .inr ⟨fun _ _ h => (by cases h), .refl _⟩
  | @task i e p h => exact .inl ⟨i, e, p, rfl, h, rfl⟩

theorem finished_step (ht : step config a s = some t) (hm : task ∈ s.pool.tasks)
    (hf : task.phase.isFinished) : task ∈ t.pool.tasks := by
  obtain ⟨i, e, p, -, he, rfl⟩ | ⟨-, posts, htasks⟩ := step_tasks ht
  · obtain ⟨other, phase, ho, hp, rfl⟩ := Pool.event_eq he
    obtain ⟨j, hj⟩ := List.mem_iff_getElem?.mp hm
    have hne : i ≠ j := by
      rintro rfl
      obtain rfl := Option.some.inj (ho.symm.trans hj)
      rw [(Phase.next_some hp).1] at hf
      cases hf
    exact List.mem_of_getElem? ((List.getElem?_set_ne hne).trans hj)
  · rw [htasks]
    exact List.mem_append_left _ hm

theorem finishedOf_step (ht : step config a s = some t) (h : data ∈ finishedOf signal s.pool) :
    data ∈ finishedOf signal t.pool := by
  obtain ⟨task, hm, hf, hs, hd⟩ := mem_finishedOf.mp h
  exact mem_finishedOf.mpr ⟨task, finished_step ht hm hf, hf, hs, hd⟩

-- ---------------------------------------------------------------------------
-- The answers
-- ---------------------------------------------------------------------------

@[simp] theorem setBatch_replies : (s.setBatch signal batch).replies = s.replies := by
  cases signal <;> rfl

@[simp] theorem flushBatch_replies : (flushBatch signal url s).replies = s.replies := by
  obtain ⟨-, h⟩ | ⟨-, -, h⟩ | ⟨u, -, -, h⟩ := flushBatch_cases signal url s <;> simp [h]

@[simp] theorem flushAll_replies : (flushAll config s).replies = s.replies := by
  simp [flushAll]

@[simp] theorem receiveData_replies : (receiveData config signal data s).replies = s.replies := by
  unfold receiveData
  simp only [reap]
  split <;> simp

theorem replies_step (ht : step config a s = some t) : t.replies = s.replies ∨
    ∃ done, s.pc = .flushing done ∧ s.pool.joinSet = [] ∧ t.replies = s.replies ++ [done] := by
  cases step_stepped ht with
  | data => exact .inl receiveData_replies
  | flush => exact .inl flushAll_replies
  | shutdown => exact .inl flushAll_replies
  | closed => exact .inl flushAll_replies
  | tick => exact .inl flushAll_replies
  | reply hpc hj => exact .inr ⟨_, hpc, hj, rfl⟩
  | _ => exact .inl rfl

/-- When a flush was answered, what was accepted before it has been posted until
success or the last failure, if there is a URL. -/
theorem replied_complete (h : (exporter config).Reachable s) (hd : done ∈ s.replies) :
    .flush done ∈ s.channel.accepted ∧ ∀ signal url, config.url signal = some url →
      dataOf signal (before done s.channel.accepted) ⊆ finishedOf signal s.pool := by
  refine h.invariant (I := fun s => ∀ done ∈ s.replies, .flush done ∈ s.channel.accepted ∧
    ∀ signal url, config.url signal = some url →
      dataOf signal (before done s.channel.accepted) ⊆ finishedOf signal s.pool)
    (fun s h0 => ?_) (fun a s t hr ih ht => ?_) done hd
  · simp only [Exporter.exporter, start, Option.ite_none_left_eq_some, Option.some.injEq] at h0
    obtain ⟨-, rfl⟩ := h0
    simp
  · -- what held of an answer before the step
    have hkeep (done : Nat) (hm : .flush done ∈ s.channel.accepted)
        (hs : ∀ signal url, config.url signal = some url →
          dataOf signal (before done s.channel.accepted) ⊆ finishedOf signal s.pool) :
        .flush done ∈ t.channel.accepted ∧ ∀ signal url, config.url signal = some url →
          dataOf signal (before done t.channel.accepted) ⊆ finishedOf signal t.pool := by
      obtain ⟨added, ha, -⟩ := accepted_step ht
      rw [ha, before_append hm]
      exact ⟨List.mem_append_left _ hm, fun signal url hu data hd =>
        finishedOf_step ht (hs signal url hu hd)⟩
    intro done hd
    obtain he | ⟨new, hpc, hj, he⟩ := replies_step ht
    · obtain ⟨hm, hs⟩ := ih done (he ▸ hd)
      exact hkeep done hm hs
    · rw [he, List.mem_append, List.mem_singleton] at hd
      obtain hd | rfl := hd
      · obtain ⟨hm, hs⟩ := ih done hd
        exact hkeep done hm hs
      · obtain ⟨hm, haccounts⟩ := flushing_accounts hr hpc hj
        refine hkeep done hm fun signal url hu => ?_
        obtain ⟨post, hsplit⟩ := before_eq hm
        rw [haccounts _ _ hsplit, (reachable_inv hr).balanced.kept signal url hu, List.append_nil]
        exact List.Subset.refl _

-- ---------------------------------------------------------------------------
-- Until the shutdown
-- ---------------------------------------------------------------------------

/-- At least `users` handles are held and no shutdown was asked for. -/
structure Serving (users : Nat) (s : State) : Prop where
  handles : users ≤ s.channel.handles
  asked : .shutdown ∉ s.channel.queue ++ s.channel.pending
  running : s.pc ≠ .stopping ∧ s.pc ≠ .terminated

theorem Serving.mono (h : Serving users s) (hle : users' ≤ users) : Serving users' s :=
  { h with handles := Nat.le_trans hle h.handles }

theorem Serving.call {k : Call} (h : Serving users s) (hc : s.channel.call config k = some c)
    (hs : k ≠ .shutdown) (hd : k ≠ .drop) : Serving users { s with channel := c } := by
  refine { handles := ?_, asked := fun hm => ?_, running := h.running }
  · obtain hle | ⟨he, -⟩ := call_handles hc
    · exact Nat.le_trans h.handles hle
    · exact absurd he hd
  · obtain ⟨entered, -, hq, hentered⟩ := call_entered hc
    obtain hold | hnew := List.mem_append.mp (hq hm)
    · exact h.asked hold
    · obtain hdata | ⟨-, he⟩ | ⟨he, -⟩ := hentered _ hnew
      · cases hdata
      · cases he
      · exact hs he

theorem Serving.step (h : Serving users s) (hu : 0 < users) (ht : step config a s = some t)
    (hs : a ≠ .call .shutdown) (hd : a ≠ .call .drop) : Serving users t := by
  have hasked {queue pending : List ExportMessage} (hq : queue ⊆ s.channel.queue)
      (hp : pending ⊆ s.channel.pending) : .shutdown ∉ queue ++ pending := by
    intro hm
    refine h.asked ?_
    obtain hm | hm := List.mem_append.mp hm
    · exact List.mem_append_left _ (hq hm)
    · exact List.mem_append_right _ (hp hm)
  cases step_stepped ht with
  | call hc => exact h.call hc (fun he => hs (by rw [he])) (fun he => hd (by rw [he]))
  | data hpc hp hm =>
    obtain ⟨rest, hq, rfl⟩ := pop_eq hp
    refine { handles := ?_, asked := ?_, running := ?_ }
    · simpa using h.handles
    · simpa using hasked (hq ▸ List.subset_cons_self _ rest) (List.Subset.refl _)
    · simp [hpc]
  | flush hpc hp =>
    obtain ⟨rest, hq, rfl⟩ := pop_eq hp
    refine { handles := ?_, asked := ?_, running := ?_ }
    · simpa using h.handles
    · simpa using hasked (hq ▸ List.subset_cons_self _ rest) (List.Subset.refl _)
    · simp
  | shutdown hpc hp =>
    obtain ⟨rest, hq, -⟩ := pop_eq hp
    exact absurd (by simp [hq]) h.asked
  | closed hpc hq hh =>
    have := h.handles
    omega
  | tick hpc hq hh =>
    have hc : (reap (flushAll config s)).channel = s.channel := flushAll_channel
    have hp : (reap (flushAll config s)).pc = .head := flushAll_pc.trans hpc
    exact { handles := hc ▸ h.handles, asked := hc ▸ h.asked, running := by simp [hp] }
  | join => exact { h with }
  | reply => exact { handles := h.handles, asked := h.asked, running := by simp [reply, reap] }
  | stop hpc hj => exact absurd hpc h.running.1
  | task => exact { h with }

theorem Serving.drop (h : Serving (users + 1) s)
    (ht : Exporter.step config (.call .drop) s = some t) : Serving users t := by
  cases step_stepped ht with
  | call hc =>
    cases call_called hc with
    | sent hk | refused hk => cases hk
    | drop => exact { h with handles := Nat.le_sub_one_of_lt h.handles }

theorem Serving.slot (h : Serving users s) (hr : (exporter config).Reachable s)
    (hc : s.channel.queue.length + s.channel.pending.length < config.channelCapacity) :
    s.channel.hasSlot config := by
  refine ⟨?_, hc⟩
  have := (reachable_inv hr).closed
  simpa [h.running.2] using this

end

end Rolly.Exporter
