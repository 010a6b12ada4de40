import Rolly.Exporter

/-!
# What the exporter keeps

The messages a loop has received are, signal by signal and in order, those in
the payloads it spawned or cleared, and then those in its batch. Every step
keeps this, whichever of the five places does the flushing.
-/

namespace Rolly.Exporter

open Proto3 (Bytes)

def ExporterConfig.url (config : ExporterConfig) : Signal → Option String
  | .traces => config.tracesUrl
  | .logs => config.logsUrl
  | .metrics => config.metricsUrl

def sentOf (signal : Signal) (posts : List Post) : List Bytes :=
  (posts.filter fun post => post.signal = signal).flatMap Post.items

def discardedOf (signal : Signal) (discarded : List (Signal × Bytes)) : List Bytes :=
  (discarded.filter fun d => d.1 = signal).map Prod.snd

structure Post.Ok (config : ExporterConfig) (post : Post) : Prop where
  url : config.url post.signal = some post.url
  data : post.data = post.items.flatten
  nonempty : 1 ≤ post.items.length
  size : post.items.length ≤ max config.batchSize 1

/-- The loop's account of the messages `received`. -/
structure Balanced (config : ExporterConfig) (received : List ExportMessage) (s : State) :
    Prop where
  pool : s.pool.Inv config.maxConcurrentExports
  streams : ∀ signal, sentOf signal s.pool.posts ++ discardedOf signal s.discarded ++
    s.batch signal = dataOf signal received
  posts : ∀ post ∈ s.pool.posts, post.Ok config
  kept : ∀ signal url, config.url signal = some url → discardedOf signal s.discarded = []

section
variable {config : ExporterConfig} {received : List ExportMessage} {s s' : State}
  {signal signal' : Signal} {url : Option String}

-- ---------------------------------------------------------------------------
-- Batches
-- ---------------------------------------------------------------------------

theorem batch_setBatch (s : State) (batch : List Bytes) :
    (s.setBatch signal batch).batch signal' =
      if signal' = signal then batch else s.batch signal' := by
  cases signal <;> cases signal' <;> rfl

@[simp] theorem setBatch_channel : (s.setBatch signal batch).channel = s.channel := by
  cases signal <;> rfl

@[simp] theorem setBatch_pool : (s.setBatch signal batch).pool = s.pool := by
  cases signal <;> rfl

@[simp] theorem setBatch_pc : (s.setBatch signal batch).pc = s.pc := by
  cases signal <;> rfl

@[simp] theorem setBatch_discarded : (s.setBatch signal batch).discarded = s.discarded := by
  cases signal <;> rfl

theorem flushBatch_cases (signal : Signal) (url : Option String) (s : State) :
    (s.batch signal = [] ∧ flushBatch signal url s = s) ∨
    (s.batch signal ≠ [] ∧ url = none ∧ flushBatch signal url s = { s.setBatch signal [] with
      discarded := s.discarded ++ (s.batch signal).map fun data => (signal, data) }) ∨
    (∃ u, s.batch signal ≠ [] ∧ url = some u ∧ flushBatch signal url s = { s.setBatch signal [] with
      pool := s.pool.spawn ⟨u, (s.batch signal).flatten, signal, s.batch signal⟩ }) := by
  by_cases hb : s.batch signal = []
  · exact .inl ⟨hb, by simp [flushBatch, hb]⟩
  · cases url with
    | none => exact .inr (.inl ⟨hb, rfl, by simp [flushBatch, hb]⟩)
    | some u => exact .inr (.inr ⟨u, hb, rfl, by simp [flushBatch, hb]⟩)

@[simp] theorem flushBatch_channel : (flushBatch signal url s).channel = s.channel := by
  obtain ⟨-, h⟩ | ⟨-, -, h⟩ | ⟨u, -, -, h⟩ := flushBatch_cases signal url s <;> simp [h]

@[simp] theorem flushBatch_pc : (flushBatch signal url s).pc = s.pc := by
  obtain ⟨-, h⟩ | ⟨-, -, h⟩ | ⟨u, -, -, h⟩ := flushBatch_cases signal url s <;> simp [h]

theorem flushBatch_batch (signal signal' : Signal) (url : Option String) (s : State) :
    (flushBatch signal url s).batch signal' =
      if signal' = signal then [] else s.batch signal' := by
  have hset {s' : State} (h : s'.traceBatch = (s.setBatch signal []).traceBatch ∧
      s'.logBatch = (s.setBatch signal []).logBatch ∧
      s'.metricsBatch = (s.setBatch signal []).metricsBatch) :
      s'.batch signal' = if signal' = signal then [] else s.batch signal' := by
    rw [← batch_setBatch]
    obtain ⟨ht, hl, hm⟩ := h
    cases signal' <;> simp [State.batch, ht, hl, hm]
  obtain ⟨hb, h⟩ | ⟨-, -, h⟩ | ⟨u, -, -, h⟩ := flushBatch_cases signal url s
  · rw [h]
    split
    · rename_i he
      rw [he, hb]
    · rfl
  · rw [h]
    exact hset ⟨rfl, rfl, rfl⟩
  · rw [h]
    exact hset ⟨rfl, rfl, rfl⟩

-- ---------------------------------------------------------------------------
-- Keeping the balance
-- ---------------------------------------------------------------------------

theorem sentOf_append : sentOf signal (posts ++ [post]) =
    sentOf signal posts ++ if post.signal = signal then post.items else [] := by
  unfold sentOf
  by_cases h : post.signal = signal <;> simp [h]

theorem discardedOf_append :
    discardedOf signal (discarded ++ batch.map fun data => (signal', data)) =
      discardedOf signal discarded ++ if signal' = signal then batch else [] := by
  unfold discardedOf
  by_cases h : signal' = signal <;> simp [List.filter_map, Function.comp_def, h]

/-- Flushing a batch of at most the batch size moves its messages from the
batch to a payload, or to those discarded, and nothing else. -/
theorem Balanced.flushBatch (hb : Balanced config received s)
    (hs : (s.batch signal).length ≤ max config.batchSize 1) :
    Balanced config received (flushBatch signal (config.url signal) s) := by
  have hbatch (sig : Signal) := flushBatch_batch signal sig (config.url signal) s
  obtain ⟨-, h⟩ | ⟨hne, hu, h⟩ | ⟨u, hne, hu, h⟩ := flushBatch_cases signal (config.url signal) s
  · rw [h]
    exact hb
  · -- cleared
    refine { hb with pool := ?_, streams := fun sig => ?_, posts := ?_, kept := fun sig v hv => ?_ }
    · simpa [h] using hb.pool
    · rw [hbatch, ← hb.streams sig, h]
      simp only [setBatch_pool, discardedOf_append]
      by_cases he : sig = signal
      · subst he
        simp
      · simp [he, Ne.symm he]
    · simpa [h] using hb.posts
    · rw [h]
      simp only [discardedOf_append, hb.kept sig v hv, List.nil_append, ite_eq_right_iff]
      rintro rfl
      rw [hu] at hv
      cases hv
  · -- spawned
    refine { hb with pool := ?_, streams := fun sig => ?_, posts := ?_, kept := fun sig v hv => ?_ }
    · rw [h]
      exact hb.pool.spawn _
    · rw [hbatch, ← hb.streams sig, h]
      simp only [Pool.posts_spawn, sentOf_append, setBatch_discarded]
      by_cases he : sig = signal
      · subst he
        simp [hb.kept sig u hu]
      · simp [he, Ne.symm he]
    · intro post hm
      rw [h] at hm
      simp only [Pool.posts_spawn, List.mem_append, List.mem_singleton] at hm
      rcases hm with hm | rfl
      · exact hb.posts post hm
      · exact ⟨hu, rfl, List.length_pos_iff.mpr hne, hs⟩
    · rw [h]
      simpa using hb.kept sig v hv

theorem Balanced.reap (hb : Balanced config received s) : Balanced config received (reap s) :=
  { hb with pool := hb.pool.reap }

/-- The tasks move on by themselves; what they were given stays. -/
theorem Balanced.withPool (hb : Balanced config received s) {p : Pool}
    (hp : p.Inv config.maxConcurrentExports) (hposts : p.posts = s.pool.posts) :
    Balanced config received { s with pool := p } :=
  { hb with pool := hp, streams := fun signal => hposts ▸ hb.streams signal,
            posts := fun post hm => hb.posts post (hposts ▸ hm) }

-- ---------------------------------------------------------------------------
-- The arms
-- ---------------------------------------------------------------------------

/-- Between two turns of the loop no batch is full. -/
def Short (config : ExporterConfig) (s : State) : Prop :=
  ∀ signal, (s.batch signal).length < max config.batchSize 1

theorem Short.flushBatch (hs : Short config s) : Short config (flushBatch signal url s) := by
  intro sig
  rw [flushBatch_batch]
  split
  · simp only [List.length_nil]
    omega
  · exact hs sig

/-- The three flushes that a flush, a shutdown, the closed channel and a tick
all begin with. -/
def flushAll (config : ExporterConfig) (s : State) : State :=
  flushBatch .metrics (config.url .metrics) (flushBatch .logs (config.url .logs)
    (flushBatch .traces (config.url .traces) s))

theorem receive_flush : receive config (.flush done) s =
    { flushAll config s with pc := .flushing done } := rfl

theorem shutdownArm_eq : shutdownArm config s = { flushAll config s with pc := .stopping } := rfl

theorem receive_shutdown : receive config .shutdown s =
    { flushAll config s with pc := .stopping } := shutdownArm_eq

theorem tick_eq : tick config s = reap (flushAll config s) := rfl

@[simp] theorem flushAll_channel : (flushAll config s).channel = s.channel := by
  simp [flushAll]

@[simp] theorem flushAll_pc : (flushAll config s).pc = s.pc := by
  simp [flushAll]

theorem flushAll_batch (config : ExporterConfig) (s : State) (signal : Signal) :
    (flushAll config s).batch signal = [] := by
  cases signal <;> simp [flushAll, flushBatch_batch]

theorem Balanced.flushAll (hb : Balanced config received s) (hs : Short config s) :
    Balanced config received (flushAll config s) := by
  have ht := hb.flushBatch (Nat.le_of_lt (hs .traces))
  have hl := ht.flushBatch (Nat.le_of_lt (hs.flushBatch .logs))
  exact hl.flushBatch (Nat.le_of_lt (hs.flushBatch.flushBatch .metrics))

/-- The arm of a data message, with the signal as a parameter. -/
def receiveData (config : ExporterConfig) (signal : Signal) (data : Bytes) (s : State) : State :=
  let s := s.setBatch signal (s.batch signal ++ [data])
  reap (if (s.batch signal).length ≥ config.batchSize then flushBatch signal (config.url signal) s
    else s)

theorem receive_data (h : msg.data? = some (signal, data)) :
    receive config msg s = receiveData config signal data s := by
  cases msg with
  | traces d | logs d | metrics d =>
    cases h
    rfl
  | flush | shutdown => cases h

theorem Balanced.addData (hb : Balanced config received s)
    (h : msg.data? = some (signal, data)) :
    Balanced config (received ++ [msg]) (s.setBatch signal (s.batch signal ++ [data])) := by
  refine { pool := ?_, streams := fun sig => ?_, posts := ?_, kept := ?_ }
  · simpa using hb.pool
  · have hd : dataOf sig [msg] = if signal = sig then [data] else [] := by
      by_cases he : signal = sig <;> simp [dataOf, h, he]
    rw [dataOf_append, hd, ← hb.streams sig, batch_setBatch]
    by_cases he : sig = signal
    · subst he
      simp
    · simp [he, Ne.symm he]
  · simpa using hb.posts
  · simpa using hb.kept

theorem Balanced.receiveData (hb : Balanced config received s) (hs : Short config s)
    (h : msg.data? = some (signal, data)) :
    Balanced config (received ++ [msg]) (receiveData config signal data s) := by
  have ha := hb.addData h
  simp only [Exporter.receiveData]
  split
  · refine (ha.flushBatch ?_).reap
    have := hs signal
    simp only [batch_setBatch, if_true, List.length_append, List.length_singleton]
    omega
  · exact ha.reap

theorem Short.receiveData (hs : Short config s) :
    Short config (receiveData config signal data s) := by
  intro sig
  have := hs sig
  have hreap (t : State) : (Exporter.reap t).batch sig = t.batch sig := by cases sig <;> rfl
  unfold Exporter.receiveData
  simp only [hreap]
  split
  · rw [flushBatch_batch, batch_setBatch]
    split
    · simp only [List.length_nil]
      omega
    · exact this
  · rename_i hlt
    rw [batch_setBatch] at hlt ⊢
    split
    · rename_i he
      subst he
      simp only [if_true] at hlt
      omega
    · exact this

theorem Balanced.control (hb : Balanced config received s) (h : msg.data? = none) :
    Balanced config (received ++ [msg]) s := by
  refine { hb with streams := fun signal => ?_ }
  rw [dataOf_append, ← hb.streams signal]
  simp [dataOf, h]

@[simp] theorem receiveData_channel : (receiveData config signal data s).channel = s.channel := by
  unfold receiveData
  simp only [reap]
  split <;> simp

@[simp] theorem receiveData_pc : (receiveData config signal data s).pc = s.pc := by
  unfold receiveData
  simp only [reap]
  split <;> simp

end

-- ---------------------------------------------------------------------------
-- Steps
-- ---------------------------------------------------------------------------

inductive Stepped (config : ExporterConfig) (s : State) : Action → State → Prop
  | call (h : s.channel.call config k = some c) : Stepped config s (.call k) { s with channel := c }
  | data (hpc : s.pc = .head) (hp : s.channel.pop = some (msg, c))
      (hm : msg.data? = some (signal, data)) :
      Stepped config s .recv (receiveData config signal data { s with channel := c })
  | flush (hpc : s.pc = .head) (hp : s.channel.pop = some (.flush done, c)) :
      Stepped config s .recv
        { flushAll config { s with channel := c } with pc := .flushing done }
  | shutdown (hpc : s.pc = .head) (hp : s.channel.pop = some (.shutdown, c)) :
      Stepped config s .recv { flushAll config { s with channel := c } with pc := .stopping }
  | closed (hpc : s.pc = .head) (hq : s.channel.queue = []) (hh : s.channel.handles = 0) :
      Stepped config s .recv { flushAll config s with pc := .stopping }
  | tick (hpc : s.pc = .head) (hq : s.channel.queue = []) (hh : 0 < s.channel.handles) :
      Stepped config s .tick (reap (flushAll config s))
  | join (hh : s.pc ≠ .head) (ht : s.pc ≠ .terminated) (hj : s.pool.join i = some p) :
      Stepped config s (.join i) { s with pool := p }
  | reply (hpc : s.pc = .flushing done) (hj : s.pool.joinSet = []) :
      Stepped config s .reply (reply done s)
  | stop (hpc : s.pc = .stopping) (hj : s.pool.joinSet = []) : Stepped config s .stop (stop s)
  | task (h : s.pool.event i e = some p) : Stepped config s (.task i e) { s with pool := p }

section
variable {config : ExporterConfig} {s s' : State}

theorem recv_stepped (hpc : s.pc = .head) (h : recv config s = some s') :
    Stepped config s .recv s' := by
  unfold recv at h
  cases hp : s.channel.pop with
  | some p =>
    obtain ⟨msg, c⟩ := p
    simp only [hp, Option.some.injEq] at h
    subst h
    cases hm : msg.data? with
    | some d =>
      rw [receive_data hm]
      exact .data hpc hp hm
    | none =>
      cases msg with
      | flush done =>
        rw [receive_flush]
        exact .flush hpc hp
      | shutdown =>
        rw [receive_shutdown]
        exact .shutdown hpc hp
      | _ => cases hm
  | none =>
    simp only [hp, Option.ite_none_right_eq_some, Option.some.injEq] at h
    obtain ⟨hh, rfl⟩ := h
    rw [shutdownArm_eq]
    refine .closed hpc ?_ hh
    unfold Channel.pop at hp
    split at hp
    · cases hp
    · assumption

theorem step_stepped (h : step config a s = some s') : Stepped config s a s' := by
  unfold step at h
  split at h
  · obtain ⟨c, hc, rfl⟩ := Option.map_eq_some_iff.mp h
    exact .call hc
  · exact recv_stepped ‹_› h
  · simp only [Option.ite_none_right_eq_some, Option.some.injEq] at h
    obtain ⟨⟨hq, hh⟩, rfl⟩ := h
    rw [tick_eq]
    exact .tick ‹_› hq hh
  · rename_i hpc
    obtain ⟨p, hp, rfl⟩ := Option.map_eq_some_iff.mp h
    exact .join (by simp [hpc]) (by simp [hpc]) hp
  · rename_i hpc
    obtain ⟨p, hp, rfl⟩ := Option.map_eq_some_iff.mp h
    exact .join (by simp [hpc]) (by simp [hpc]) hp
  · simp only [Option.ite_none_right_eq_some, Option.some.injEq] at h
    obtain ⟨hj, rfl⟩ := h
    exact .reply ‹_› hj
  · simp only [Option.ite_none_right_eq_some, Option.some.injEq] at h
    obtain ⟨hj, rfl⟩ := h
    exact .stop ‹_› hj
  · obtain ⟨p, hp, rfl⟩ := Option.map_eq_some_iff.mp h
    exact .task hp
  · cases h

-- ---------------------------------------------------------------------------
-- The invariant
-- ---------------------------------------------------------------------------

structure State.Inv (config : ExporterConfig) (s : State) : Prop where
  channel : s.channel.Inv config
  balanced : Balanced config s.channel.received s
  short : Short config s
  closed : s.channel.closed = true ↔ s.pc = .terminated
  drained : s.pc ≠ .head → ∀ signal, s.batch signal = []
  flushing : ∀ done, s.pc = .flushing done → ∃ pre, s.channel.received = pre ++ [.flush done]
  joined : s.pc = .terminated → s.pool.joinSet = []

theorem Balanced.withChannel (hb : Balanced config received s) (c : Channel) :
    Balanced config received { s with channel := c } := { hb with }

theorem Balanced.withPc (hb : Balanced config received s) (pc : Pc) :
    Balanced config received { s with pc } := { hb with }

theorem State.Inv.init (h : start config = some s) : s.Inv config := by
  unfold start at h
  split at h
  · cases h
  · obtain rfl := Option.some.inj h
    refine { channel := .init, balanced := ?_, short := fun signal => ?_, closed := ?_,
             drained := ?_, flushing := ?_, joined := ?_ }
    · exact { pool := .init, streams := fun signal => by cases signal <;> rfl,
              posts := by simp [Pool.posts], kept := by simp [discardedOf] }
    · cases signal <;> simp only [State.batch, List.length_nil] <;> omega
    all_goals simp

theorem State.Inv.flushAll (hi : s.Inv config) (hpc : s.pc = .head) (c : Channel)
    (hc : c.Inv config) (hclosed : c.closed = s.channel.closed)
    (hb : Balanced config c.received s) (pc : Pc) (hnt : pc ≠ .terminated)
    (hf : ∀ done, pc = .flushing done → ∃ pre, c.received = pre ++ [.flush done]) :
    State.Inv config { flushAll config { s with channel := c } with pc } := by
  have hbatch (signal : Signal) := flushAll_batch config { s with channel := c } signal
  have hs : Short config { s with channel := c } := hi.short
  refine { channel := ?_, balanced := ?_, short := fun signal => ?_, closed := ?_,
           drained := fun _ signal => hbatch signal, flushing := ?_
           joined := fun h => absurd h hnt }
  · simpa using hc
  · have := ((hb.withChannel c).flushAll hs).withPc pc
    simpa using this
  · show ((Exporter.flushAll config { s with channel := c }).batch signal).length < _
    rw [hbatch]
    simp only [List.length_nil]
    omega
  · have := hi.closed
    simp [hclosed, hnt, this, hpc]
  · simpa using hf

theorem State.Inv.reap (hi : s.Inv config) (hpc : s.pc ≠ .terminated) :
    (reap s).Inv config :=
  { hi with balanced := hi.balanced.reap, joined := fun h => absurd h hpc }

theorem State.Inv.withPool (hi : s.Inv config) {p : Pool}
    (hp : p.Inv config.maxConcurrentExports) (hposts : p.posts = s.pool.posts)
    (hj : s.pc = .terminated → p.joinSet = []) : State.Inv config { s with pool := p } :=
  { hi with balanced := hi.balanced.withPool hp hposts, joined := hj }

theorem State.Inv.step (hi : s.Inv config) (ht : step config a s = some s') : s'.Inv config := by
  cases step_stepped ht with
  | call h =>
    obtain ⟨⟨hr, hc, -⟩, -⟩ := Channel.call_frame h
    exact { hi with channel := hi.channel.call h
                    balanced := by simpa [hr] using hi.balanced.withChannel _
                    closed := by simpa [hc] using hi.closed
                    flushing := by simpa [hr] using hi.flushing }
  | @data msg c signal data hpc hp hm =>
    obtain ⟨rest, hq, hc⟩ := pop_eq hp
    have hs : Short config { s with channel := c } := hi.short
    refine { channel := ?_, balanced := ?_, short := hs.receiveData, closed := ?_, drained := ?_,
             flushing := ?_, joined := ?_ }
    · simpa using hi.channel.pop hp
    · have := (hi.balanced.withChannel c).receiveData hs hm
      simpa [hc] using this
    · simpa [hc] using hi.closed
    all_goals simp [hpc]
  | @flush c done hpc hp =>
    obtain ⟨rest, hq, hc⟩ := pop_eq hp
    refine hi.flushAll hpc c (hi.channel.pop hp) (by simp [hc]) ?_ _ nofun fun d hd => ?_
    · simpa [hc] using hi.balanced.control (by rfl)
    · cases hd
      exact ⟨s.channel.received, by rw [hc]⟩
  | @shutdown c hpc hp =>
    obtain ⟨rest, hq, hc⟩ := pop_eq hp
    refine hi.flushAll hpc c (hi.channel.pop hp) (by simp [hc]) ?_ _ nofun nofun
    simpa [hc] using hi.balanced.control (by rfl)
  | closed hpc hq hh => exact hi.flushAll hpc s.channel hi.channel rfl hi.balanced _ nofun nofun
  | tick hpc hq hh =>
    have := hi.flushAll hpc s.channel hi.channel rfl hi.balanced .head nofun nofun
    have he : { Exporter.flushAll config s with pc := .head } = Exporter.flushAll config s := by
      rw [← hpc, ← flushAll_pc]
    rw [show { s with channel := s.channel } = s from rfl, he] at this
    exact this.reap (by simp [hpc])
  | join hh hnt hj =>
    exact hi.withPool (hi.balanced.pool.join hj) (Pool.posts_join hj) fun h => absurd h hnt
  | @reply done hpc hj =>
    have hr : State.Inv config { s with pc := .head, replies := s.replies ++ [done] } :=
      { hi with balanced := { hi.balanced with }, closed := by simpa [hpc] using hi.closed
                drained := nofun, flushing := nofun, joined := nofun }
    exact hr.reap nofun
  | stop hpc hj =>
    have hc : s.channel.closed = false := by
      have := hi.closed
      simpa [hpc] using this
    exact { hi with channel := hi.channel.close hc, balanced := (hi.balanced.withChannel _).withPc _
                    closed := by simp [Exporter.stop, Channel.close]
                    drained := fun _ => hi.drained (by simp [hpc])
                    flushing := nofun, joined := fun _ => hj }
  | task h =>
    refine hi.withPool (hi.balanced.pool.event h) (Pool.event_posts h) fun hpc => ?_
    obtain ⟨_, _, _, _, rfl⟩ := Pool.event_eq h
    exact hi.joined hpc

/-- The state after a list of steps from the start, each admitted by `P`. -/
def runBy (config : ExporterConfig) (P : Action → State → Prop) [∀ a s, Decidable (P a s)]
    (actions : List Action) : Option State :=
  (start config).bind (((exporter config).guard P).run actions)

def runFrom (config : ExporterConfig) (actions : List Action) : Option State :=
  runBy config (fun _ _ => True) actions

theorem reachableBy_of_run {P : Action → State → Prop} [∀ a s, Decidable (P a s)]
    {actions : List Action} (h : runBy config P actions = some s) :
    (exporter config).ReachableBy P s := by
  obtain ⟨s₀, h0, hr⟩ := Option.bind_eq_some_iff.mp h
  exact .of_run h0 hr

theorem reachable_of_run {actions : List Action} (h : runFrom config actions = some s) :
    (exporter config).Reachable s :=
  reachableBy_of_run h

theorem reachable_inv (h : (exporter config).Reachable s) : s.Inv config :=
  h.invariant (fun _ h0 => .init h0) fun _ _ _ _ hi hs => hi.step hs

end

end Rolly.Exporter
