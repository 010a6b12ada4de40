import Rolly.ExporterTasks
import Rolly.Lib.Machine

/-!
# The exporter

One background loop receives from the channel, batches the messages of each
signal and spawns a task for each POST. The parties move one at a time: a call
of a handle, one turn of the loop, one event of a task. What the loop does
between two awaits is one step.
-/

namespace Rolly.Exporter

open Proto3 (Bytes)

/-- The loop: at the `select!`, waiting for all tasks before it answers a
flush or stops, or gone with its receiver. -/
inductive Pc
  | head
  | flushing (done : Nat)
  | stopping
  | terminated
  deriving DecidableEq, Repr

/-- `discarded` and `replies` are history that no step reads. -/
structure State where
  channel : Channel := {}
  pool : Pool
  pc : Pc := .head
  traceBatch : List Bytes := []
  logBatch : List Bytes := []
  metricsBatch : List Bytes := []
  -- batches cleared for want of a URL, and the flushes that were answered
  discarded : List (Signal × Bytes) := []
  replies : List Nat := []
  deriving DecidableEq, Repr

/-- A channel of capacity zero panics. -/
def start (config : ExporterConfig) : Option State :=
  if config.channelCapacity = 0 then none
  else some { pool := { permits := config.maxConcurrentExports } }

-- ---------------------------------------------------------------------------
-- Flushing a batch
-- ---------------------------------------------------------------------------

def State.batch (s : State) : Signal → List Bytes
  | .traces => s.traceBatch
  | .logs => s.logBatch
  | .metrics => s.metricsBatch

def State.setBatch (s : State) (signal : Signal) (batch : List Bytes) : State :=
  match signal with
  | .traces => { s with traceBatch := batch }
  | .logs => { s with logBatch := batch }
  | .metrics => { s with metricsBatch := batch }

/-- `flush_batch` on the batch of `signal`: all its messages go into one
payload, or nowhere if there is no URL. -/
def flushBatch (signal : Signal) (url : Option String) (s : State) : State :=
  let batch := s.batch signal
  if batch.isEmpty then s
  else match url with
    | none =>
      { s.setBatch signal [] with discarded := s.discarded ++ batch.map fun data => (signal, data) }
    | some url =>
      { s.setBatch signal [] with
        pool := s.pool.spawn { url, data := batch.flatten, signal, items := batch } }

def reap (s : State) : State := { s with pool := s.pool.reap }

-- ---------------------------------------------------------------------------
-- The arms of the loop
-- ---------------------------------------------------------------------------

/-- `Some(ExportMessage::Shutdown) | None`, up to the join loop. -/
def shutdownArm (config : ExporterConfig) (s : State) : State :=
  let s := flushBatch .traces config.tracesUrl s
  let s := flushBatch .logs config.logsUrl s
  let s := flushBatch .metrics config.metricsUrl s
  { s with pc := .stopping }

def receive (config : ExporterConfig) (msg : ExportMessage) (s : State) : State :=
  match msg with
  | .traces data =>
    let s := { s with traceBatch := s.traceBatch ++ [data] }
    reap (if s.traceBatch.length ≥ config.batchSize then flushBatch .traces config.tracesUrl s
      else s)
  | .logs data =>
    let s := { s with logBatch := s.logBatch ++ [data] }
    reap (if s.logBatch.length ≥ config.batchSize then flushBatch .logs config.logsUrl s else s)
  | .metrics data =>
    let s := { s with metricsBatch := s.metricsBatch ++ [data] }
    reap (if s.metricsBatch.length ≥ config.batchSize then flushBatch .metrics config.metricsUrl s
      else s)
  | .flush done =>
    let s := flushBatch .traces config.tracesUrl s
    let s := flushBatch .logs config.logsUrl s
    let s := flushBatch .metrics config.metricsUrl s
    { s with pc := .flushing done }
  | .shutdown => shutdownArm config s

/-- `rx.recv()` is ready: a queued message, or the end of the channel once
every handle is gone. -/
def recv (config : ExporterConfig) (s : State) : Option State :=
  match s.channel.pop with
  | some (msg, channel) => some (receive config msg { s with channel })
  | none => if s.channel.handles = 0 then some (shutdownArm config s) else none

def tick (config : ExporterConfig) (s : State) : State :=
  let s := flushBatch .traces config.tracesUrl s
  let s := flushBatch .logs config.logsUrl s
  let s := flushBatch .metrics config.metricsUrl s
  reap s

/-- The join loop of a flush has ended: `done.send(())`, then the reaping. -/
def reply (done : Nat) (s : State) : State :=
  reap { s with pc := .head, replies := s.replies ++ [done] }

/-- `break`: the receiver goes, and what is still queued goes with it. -/
def stop (s : State) : State :=
  { s with pc := .terminated, channel := s.channel.close }

-- ---------------------------------------------------------------------------
-- The system
-- ---------------------------------------------------------------------------

inductive Action
  | call (k : Call)
  | recv
  | tick
  | join (i : Nat)
  | reply
  | stop
  | task (i : Nat) (e : TaskEvent)
  deriving DecidableEq, Repr

/-- The `select!` is biased: the tick is polled only while `recv` is pending. -/
def step (config : ExporterConfig) (a : Action) (s : State) : Option State :=
  match a, s.pc with
  | .call k, _ => (s.channel.call config k).map fun channel => { s with channel }
  | .recv, .head => recv config s
  | .tick, .head =>
    if s.channel.queue = [] ∧ 0 < s.channel.handles then some (tick config s) else none
  | .join i, .flushing _ => (s.pool.join i).map fun pool => { s with pool }
  | .join i, .stopping => (s.pool.join i).map fun pool => { s with pool }
  | .reply, .flushing done => if s.pool.joinSet = [] then some (reply done s) else none
  | .stop, .stopping => if s.pool.joinSet = [] then some (stop s) else none
  | .task i e, _ => (s.pool.event i e).map fun pool => { s with pool }
  | _, _ => none

def exporter (config : ExporterConfig) : Machine State Action where
  init s := start config = some s
  step := step config

end Rolly.Exporter
