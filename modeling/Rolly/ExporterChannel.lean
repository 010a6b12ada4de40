import Rolly.Lib.Proto3

/-!
# The exporter's channel

A bounded FIFO channel between the handles of the exporter and its loop. Data
is sent without waiting; `flush` and `shutdown` wait for a slot, so their
messages may be under way while others are sent.
-/

namespace Rolly.Exporter

open Proto3 (Bytes)

/-- The behaviour when the channel is full; there is only this one. -/
inductive BackpressureStrategy
  | drop
  deriving DecidableEq, Repr

/-- `done` names the one-shot channel of a `flush` call. -/
inductive ExportMessage
  | traces (data : Bytes)
  | logs (data : Bytes)
  | metrics (data : Bytes)
  | flush (done : Nat)
  | shutdown
  deriving DecidableEq, Repr

structure ExporterConfig where
  tracesUrl : Option String
  logsUrl : Option String
  metricsUrl : Option String
  channelCapacity : Nat
  batchSize : Nat
  maxConcurrentExports : Nat
  backpressureStrategy : BackpressureStrategy := .drop

/-- `pending` are the `flush` and `shutdown` calls whose `send` holds a slot it
has not filled yet. `droppedTotal` is the number of increments of a counter that
wraps. The last four fields are history that no step reads. -/
structure Channel where
  queue : List ExportMessage := []
  pending : List ExportMessage := []
  nextDone : Nat := 0
  handles : Nat := 1
  closed : Bool := false
  droppedTotal : Nat := 0
  -- calls of `send_*`; what was accepted, and of that what the loop received
  -- and what was left behind when it dropped the receiver
  sends : Nat := 0
  accepted : List ExportMessage := []
  received : List ExportMessage := []
  lost : List ExportMessage := []
  deriving DecidableEq, Repr

-- ---------------------------------------------------------------------------
-- Handles
-- ---------------------------------------------------------------------------

/-- The channel is open and has a slot that is neither filled nor held. -/
def Channel.hasSlot (config : ExporterConfig) (c : Channel) : Prop :=
  c.closed = false ∧ c.queue.length + c.pending.length < config.channelCapacity

instance (config : ExporterConfig) (c : Channel) : Decidable (c.hasSlot config) :=
  inferInstanceAs (Decidable (_ ∧ _))

def trySend (config : ExporterConfig) (msg : ExportMessage) (c : Channel) : Option Channel :=
  if c.hasSlot config then
    some { c with queue := c.queue ++ [msg], accepted := c.accepted ++ [msg] }
  else none

/-- The body the three `send_*` functions share. -/
def sendData (config : ExporterConfig) (msg : ExportMessage) (c : Channel) : Channel :=
  let c := { c with sends := c.sends + 1 }
  match config.backpressureStrategy with
  | .drop => (trySend config msg c).getD { c with droppedTotal := c.droppedTotal + 1 }

def sendTraces (config : ExporterConfig) (data : Bytes) : Channel → Channel :=
  sendData config (.traces data)

def sendLogs (config : ExporterConfig) (data : Bytes) : Channel → Channel :=
  sendData config (.logs data)

def sendMetrics (config : ExporterConfig) (data : Bytes) : Channel → Channel :=
  sendData config (.metrics data)

/-- `flush` up to the point where its `send` holds a slot. -/
def flush (config : ExporterConfig) (c : Channel) : Option Channel :=
  if c.hasSlot config then
    some { c with pending := c.pending ++ [.flush c.nextDone], nextDone := c.nextDone + 1 }
  else none

def shutdown (config : ExporterConfig) (c : Channel) : Option Channel :=
  if c.hasSlot config then some { c with pending := c.pending ++ [.shutdown] } else none

def push (i : Nat) (c : Channel) : Option Channel := do
  let msg ← c.pending[i]?
  return { c with pending := c.pending.eraseIdx i, queue := c.queue ++ [msg],
                  accepted := c.accepted ++ [msg] }

/-- A pending `send` is dropped and gives its slot back. -/
def cancel (i : Nat) (c : Channel) : Channel :=
  { c with pending := c.pending.eraseIdx i }

/-- A handle goes; a pending call keeps the one it was made on. -/
def dropHandle (c : Channel) : Option Channel :=
  if 1 < c.handles ∨ c.handles = 1 ∧ c.pending = [] then
    some { c with handles := c.handles - 1 }
  else none

/-- What the holders of handles do. -/
inductive Call
  | sendTraces (data : Bytes)
  | sendLogs (data : Bytes)
  | sendMetrics (data : Bytes)
  | flush
  | shutdown
  | push (i : Nat)
  | cancel (i : Nat)
  | clone
  | drop
  deriving DecidableEq, Repr

def Call.isSend : Call → Bool
  | .sendTraces _ => true
  | .sendLogs _ => true
  | .sendMetrics _ => true
  | _ => false

/-- A call needs a handle; one that waits for a slot is not enabled yet. -/
def Channel.call (config : ExporterConfig) (call : Call) (c : Channel) : Option Channel :=
  if c.handles = 0 then none
  else match call with
    | .sendTraces data => some (sendTraces config data c)
    | .sendLogs data => some (sendLogs config data c)
    | .sendMetrics data => some (sendMetrics config data c)
    | .flush => flush config c
    | .shutdown => shutdown config c
    | .push i => push i c
    | .cancel i => some (cancel i c)
    | .clone => some { c with handles := c.handles + 1 }
    | .drop => dropHandle c

-- ---------------------------------------------------------------------------
-- The receiver
-- ---------------------------------------------------------------------------

def Channel.pop (c : Channel) : Option (ExportMessage × Channel) :=
  match c.queue with
  | msg :: rest => some (msg, { c with queue := rest, received := c.received ++ [msg] })
  | [] => none

/-- Dropping the receiver closes the channel and drops what is queued. -/
def Channel.close (c : Channel) : Channel :=
  { c with queue := [], pending := [], closed := true, lost := c.queue }

-- ---------------------------------------------------------------------------
-- Conservation
-- ---------------------------------------------------------------------------

inductive Signal
  | traces | logs | metrics
  deriving DecidableEq, Repr

def ExportMessage.data? : ExportMessage → Option (Signal × Bytes)
  | .traces data => some (.traces, data)
  | .logs data => some (.logs, data)
  | .metrics data => some (.metrics, data)
  | .flush _ => none
  | .shutdown => none

def dataOf (signal : Signal) (msgs : List ExportMessage) : List Bytes :=
  msgs.filterMap fun msg => msg.data?.bind fun (s, data) => if s = signal then some data else none

@[simp] theorem dataOf_append (a b : List ExportMessage) :
    dataOf signal (a ++ b) = dataOf signal a ++ dataOf signal b := List.filterMap_append

def dataCount (msgs : List ExportMessage) : Nat := msgs.countP fun msg => msg.data?.isSome

structure Channel.Inv (config : ExporterConfig) (c : Channel) : Prop where
  counted : c.sends = dataCount c.accepted + c.droppedTotal
  order : c.accepted = c.received ++ c.queue ++ c.lost
  bounded : c.queue.length + c.pending.length ≤ config.channelCapacity
  openLost : c.closed = false → c.lost = []
  closedQueue : c.closed → c.queue = [] ∧ c.pending = []
  control : ∀ msg ∈ c.pending, msg.data? = none
  fresh : ∀ done, .flush done ∈ c.accepted ++ c.pending → done < c.nextDone
  once : ∀ done, (c.accepted ++ c.pending).count (.flush done) ≤ 1

section
variable {config : ExporterConfig} {c c' : Channel}

theorem Channel.Inv.init : ({} : Channel).Inv config := by
  constructor <;> simp [dataCount]

theorem flush_eq (h : flush config c = some c') : c.hasSlot config ∧ c' = { c with
    pending := c.pending ++ [.flush c.nextDone], nextDone := c.nextDone + 1 } := by
  simp only [flush, Option.ite_none_right_eq_some, Option.some.injEq] at h
  obtain ⟨hs, rfl⟩ := h
  exact ⟨hs, rfl⟩

theorem shutdown_eq (h : shutdown config c = some c') :
    c.hasSlot config ∧ c' = { c with pending := c.pending ++ [.shutdown] } := by
  simp only [shutdown, Option.ite_none_right_eq_some, Option.some.injEq] at h
  obtain ⟨hs, rfl⟩ := h
  exact ⟨hs, rfl⟩

theorem push_eq (h : push i c = some c') : ∃ msg, c.pending[i]? = some msg ∧
    c' = { c with pending := c.pending.eraseIdx i, queue := c.queue ++ [msg],
                  accepted := c.accepted ++ [msg] } := by
  obtain ⟨msg, hm, h⟩ := Option.bind_eq_some_iff.mp h
  exact ⟨msg, hm, (Option.some.inj h).symm⟩

theorem dropHandle_eq (h : dropHandle c = some c') :
    c' = { c with handles := c.handles - 1 } := by
  simp only [dropHandle, Option.ite_none_right_eq_some, Option.some.injEq] at h
  obtain ⟨-, rfl⟩ := h
  rfl

theorem sendData_cases (config : ExporterConfig) (msg : ExportMessage) (c : Channel) :
    (c.hasSlot config ∧ sendData config msg c = { c with
      sends := c.sends + 1, queue := c.queue ++ [msg], accepted := c.accepted ++ [msg] }) ∨
    (¬ c.hasSlot config ∧ sendData config msg c = { c with
      sends := c.sends + 1, droppedTotal := c.droppedTotal + 1 }) := by
  by_cases h : c.hasSlot config
  · have h' : Channel.hasSlot config { c with sends := c.sends + 1 } := h
    exact .inl ⟨h, by simp [sendData, trySend, h']⟩
  · have h' : ¬ Channel.hasSlot config { c with sends := c.sends + 1 } := h
    exact .inr ⟨h, by simp [sendData, trySend, h']⟩

theorem Channel.Inv.sendData (hi : c.Inv config) (hm : msg.data?.isSome) :
    (sendData config msg c).Inv config := by
  obtain ⟨⟨ho, hs⟩, h⟩ | ⟨-, h⟩ := sendData_cases config msg c
  · have hl := hi.openLost ho
    have hne (done : Nat) : msg ≠ .flush done := by
      rintro rfl
      cases hm
    rw [h]
    refine { hi with counted := ?_, order := ?_, bounded := ?_, closedQueue := ?_, fresh := ?_,
                     once := ?_ }
    · have := hi.counted
      simp [dataCount, hm] at this ⊢
      omega
    · simp [hi.order, hl]
    · simp only [List.length_append, List.length_singleton]
      omega
    · simp [ho]
    · intro done hd
      refine hi.fresh done ?_
      simpa [(hne done).symm] using hd
    · intro done
      have := hi.once done
      simpa [List.count_append, List.count_singleton, hne done] using this
  · rw [h]
    refine { hi with counted := ?_ }
    have := hi.counted
    simp only
    omega

theorem Channel.Inv.flush (hi : c.Inv config) (h : flush config c = some c') : c'.Inv config := by
  obtain ⟨hs, rfl⟩ := flush_eq h
  refine { hi with bounded := ?_, closedQueue := ?_, control := ?_, fresh := ?_, once := ?_ }
  · have := hs.2
    simp only [List.length_append, List.length_singleton]
    omega
  · simp [hs.1]
  · simpa [or_imp, forall_and, ExportMessage.data?] using hi.control
  · intro done hd
    rw [← List.append_assoc, List.mem_append, List.mem_singleton] at hd
    rcases hd with hd | hd
    · exact Nat.lt_succ_of_lt (hi.fresh done hd)
    · cases hd
      exact Nat.lt_succ_self _
  · intro done
    rw [← List.append_assoc, List.count_append, List.count_singleton]
    have ho := hi.once done
    by_cases hd : done = c.nextDone
    · -- the new id is not in use
      have hz : (c.accepted ++ c.pending).count (.flush done) = 0 := by
        rw [List.count_eq_zero]
        intro hm
        have := hi.fresh done hm
        omega
      simp [hz]
      split <;> omega
    · simpa [Ne.symm hd] using ho

theorem Channel.Inv.shutdown (hi : c.Inv config) (h : shutdown config c = some c') :
    c'.Inv config := by
  obtain ⟨hs, rfl⟩ := shutdown_eq h
  refine { hi with bounded := ?_, closedQueue := ?_, control := ?_, fresh := ?_, once := ?_ }
  · have := hs.2
    simp only [List.length_append, List.length_singleton]
    omega
  · simp [hs.1]
  · simpa [or_imp, forall_and, ExportMessage.data?] using hi.control
  · simpa using hi.fresh
  · simpa [List.count_append, List.count_singleton] using hi.once

/-- Filling a slot only moves the message. -/
theorem push_perm {l : List α} (a : List α) (h : l[i]? = some x) :
    (a ++ [x] ++ l.eraseIdx i).Perm (a ++ l) := by
  have hl : l = l.take i ++ x :: l.drop (i + 1) := by
    conv_lhs => rw [← List.take_append_drop i l, List.drop_eq_getElem?_toList_append, h]
    rfl
  rw [List.append_assoc, List.eraseIdx_eq_take_drop_succ]
  conv_rhs => rw [hl]
  have hm : (l.take i ++ x :: l.drop (i + 1)).Perm (x :: (l.take i ++ l.drop (i + 1))) :=
    List.perm_middle
  exact hm.symm.append_left a

theorem Channel.Inv.push (hi : c.Inv config) (h : push i c = some c') : c'.Inv config := by
  obtain ⟨msg, hm, rfl⟩ := push_eq h
  have hmem : msg ∈ c.pending := List.mem_of_getElem? hm
  have hlen : i < c.pending.length := (List.getElem?_eq_some_iff.mp hm).1
  have hc := hi.control msg hmem
  have hopen : c.closed = false := by
    by_contra hcl
    rw [(hi.closedQueue (by simpa using hcl)).2] at hmem
    cases hmem
  have hp := push_perm c.accepted hm
  refine { hi with counted := ?_, order := ?_, bounded := ?_, closedQueue := ?_, control := ?_,
                   fresh := ?_, once := ?_ }
  · simpa [dataCount, hc] using hi.counted
  · simp [hi.order, hi.openLost hopen]
  · have := hi.bounded
    simp [List.length_eraseIdx_of_lt hlen]
    omega
  · simp [hopen]
  · exact fun m hm => hi.control m (List.mem_of_mem_eraseIdx hm)
  · exact fun done hd => hi.fresh done (hp.mem_iff.mp hd)
  · intro done
    rw [hp.count_eq]
    exact hi.once done

theorem Channel.Inv.cancel (hi : c.Inv config) : (cancel i c).Inv config := by
  have hsub : (c.pending.eraseIdx i).Sublist c.pending := List.eraseIdx_sublist ..
  refine { hi with bounded := ?_, closedQueue := ?_, control := ?_, fresh := ?_, once := ?_ }
  · have := hi.bounded
    have := hsub.length_le
    simp only [Exporter.cancel]
    omega
  · intro hc
    have := hi.closedQueue hc
    simp [Exporter.cancel, this]
  · exact fun m hm => hi.control m (hsub.subset hm)
  · exact fun done hd => hi.fresh done ((hsub.append_left _).subset hd)
  · exact fun done => Nat.le_trans ((hsub.append_left _).count_le _) (hi.once done)

theorem Channel.Inv.dropHandle (hi : c.Inv config) (h : dropHandle c = some c') :
    c'.Inv config := by
  obtain rfl := dropHandle_eq h
  exact { hi with }

theorem call_cases {k : Call} (h : c.call config k = some c') :
    (∃ msg, msg.data?.isSome ∧ k.isSend ∧ c' = sendData config msg c) ∨
    flush config c = some c' ∨ shutdown config c = some c' ∨
    (∃ i, push i c = some c') ∨ (∃ i, c' = cancel i c) ∨
    c' = { c with handles := c.handles + 1 } ∨ dropHandle c = some c' := by
  unfold Channel.call at h
  split at h
  · cases h
  · cases k with
    | sendTraces data => exact .inl ⟨_, rfl, rfl, (Option.some.inj h).symm⟩
    | sendLogs data => exact .inl ⟨_, rfl, rfl, (Option.some.inj h).symm⟩
    | sendMetrics data => exact .inl ⟨_, rfl, rfl, (Option.some.inj h).symm⟩
    | flush => exact .inr (.inl h)
    | shutdown => exact .inr (.inr (.inl h))
    | push i => exact .inr (.inr (.inr (.inl ⟨i, h⟩)))
    | cancel i => exact .inr (.inr (.inr (.inr (.inl ⟨i, (Option.some.inj h).symm⟩))))
    | clone => exact .inr (.inr (.inr (.inr (.inr (.inl (Option.some.inj h).symm)))))
    | drop => exact .inr (.inr (.inr (.inr (.inr (.inr h)))))

theorem Channel.Inv.call {k : Call} (hi : c.Inv config) (h : c.call config k = some c') :
    c'.Inv config := by
  obtain ⟨msg, hm, -, rfl⟩ | h | h | ⟨i, h⟩ | ⟨i, rfl⟩ | rfl | h := call_cases h
  · exact hi.sendData hm
  · exact hi.flush h
  · exact hi.shutdown h
  · exact hi.push h
  · exact hi.cancel
  · exact { hi with }
  · exact hi.dropHandle h

/-- No call touches what the receiver has seen, and a call appends at most one
message to the queue: a pending one, or data for which there was a slot. -/
theorem Channel.call_frame {k : Call} (h : c.call config k = some c') :
    (c'.received = c.received ∧ c'.closed = c.closed ∧ c'.lost = c.lost) ∧
    (c'.queue = c.queue ∨ ∃ msg, c'.queue = c.queue ++ [msg] ∧
      (msg ∈ c.pending ∨ k.isSend ∧ msg.data?.isSome ∧ c.hasSlot config)) := by
  obtain ⟨msg, hm, hk, rfl⟩ | h | h | ⟨i, h⟩ | ⟨i, rfl⟩ | rfl | h := call_cases h
  · obtain ⟨hs, h⟩ | ⟨-, h⟩ := sendData_cases config msg c
    · exact ⟨by simp [h], .inr ⟨msg, by simp [h], .inr ⟨hk, hm, hs⟩⟩⟩
    · exact ⟨by simp [h], .inl (by simp [h])⟩
  · obtain ⟨-, rfl⟩ := flush_eq h
    exact ⟨⟨rfl, rfl, rfl⟩, .inl rfl⟩
  · obtain ⟨-, rfl⟩ := shutdown_eq h
    exact ⟨⟨rfl, rfl, rfl⟩, .inl rfl⟩
  · obtain ⟨msg, hm, rfl⟩ := push_eq h
    exact ⟨⟨rfl, rfl, rfl⟩, .inr ⟨msg, rfl, .inl (List.mem_of_getElem? hm)⟩⟩
  · exact ⟨⟨rfl, rfl, rfl⟩, .inl rfl⟩
  · exact ⟨⟨rfl, rfl, rfl⟩, .inl rfl⟩
  · obtain rfl := dropHandle_eq h
    exact ⟨⟨rfl, rfl, rfl⟩, .inl rfl⟩

theorem pop_eq (h : c.pop = some (msg, c')) : ∃ rest, c.queue = msg :: rest ∧
    c' = { c with queue := rest, received := c.received ++ [msg] } := by
  unfold Channel.pop at h
  split at h
  · rename_i m rest hq
    obtain ⟨rfl, rfl⟩ := by simpa using h
    exact ⟨rest, hq, rfl⟩
  · cases h

theorem Channel.Inv.pop (hi : c.Inv config) (h : c.pop = some (msg, c')) : c'.Inv config := by
  obtain ⟨rest, hq, rfl⟩ := pop_eq h
  refine { hi with order := ?_, bounded := ?_, closedQueue := ?_ }
  · simp [hi.order, hq]
  · have := hi.bounded
    simp [hq] at this
    simp only
    omega
  · intro hc
    simp [(hi.closedQueue hc).1] at hq

theorem Channel.Inv.close (hi : c.Inv config) (h : c.closed = false) : c.close.Inv config := by
  refine { hi with order := ?_, bounded := ?_, openLost := ?_, closedQueue := ?_, control := ?_,
                   fresh := ?_, once := ?_ }
  · simp [Channel.close, hi.order, hi.openLost h]
  · simp [Channel.close]
  · simp [Channel.close]
  · simp [Channel.close]
  · simp [Channel.close]
  · intro done hd
    exact hi.fresh done (List.mem_append_left _ (by simpa [Channel.close] using hd))
  · intro done
    have := hi.once done
    simp [Channel.close, List.count_append] at this ⊢
    omega

end

end Rolly.Exporter
