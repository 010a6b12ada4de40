import Rolly.Exporter
import Rolly.Lib.Locks
import Rolly.MetricsThreads
import Rolly.OtlpLayer

/-!
# The locks of the metrics

The threads that share a registry with each lock taken and released in a step
of its own: the lock of the map of a kind, the mutex of an instrument, and what
a warning takes that is raised under that mutex, on its way through the
subscriber that `init` installs. Between two steps of a thread others may run.
-/

namespace Rolly.Locking

open Locks (Mode Use Granted)
open Layer (FieldValue OtlpLayer)
open Metrics (Event Kind MetricsRegistry OverflowWarning Pc RecordCall Registration)

-- ---------------------------------------------------------------------------
-- Programs
-- ---------------------------------------------------------------------------

/-- A finite program. What comes after a call may depend on what it returned; a
handle may also come from another thread. -/
inductive Program
  | done
  | register (registration : Registration) (next : Nat → Program)
  | record (handle : Nat) (call : RecordCall) (next : Program)
  | collect (next : List MetricSnapshot → Program)

/-- What a warning passes: the filter, the layer that prints if there is one,
the layer for OTLP if there is an endpoint for it. -/
structure Subscriber where
  warns : Bool
  logToStderr : Bool
  otlpLayer : Option OtlpLayer
  exporterConfig : Exporter.ExporterConfig

inductive Lock
  | map (kind : Kind)
  | data (handle : Nat)
  | stderr
  | extensions (span : Nat)
  deriving DecidableEq, Repr

/-- Where a thread is, and how it goes on after the call. -/
inductive Thread
  | ready (program : Program)
  -- before and under the read lock of the fast path, the write lock of the slow one
  | get (registration : Registration) (next : Nat → Program)
  | got (registration : Registration) (next : Nat → Program)
  | entry (registration : Registration) (next : Nat → Program)
  | inserting (registration : Registration) (next : Nat → Program)
  -- before and under the mutex of the instrument
  | record (handle : Nat) (call : RecordCall) (next : Program)
  | recording (handle : Nat) (call : RecordCall) (next : Program)
  -- the warning, under the same mutex: printed, then in `on_event` of the layer
  -- before and under the lock of the current span's extensions, then sent
  | print (handle : Nat) (warning : OverflowWarning) (next : Program)
  | printing (handle : Nat) (warning : OverflowWarning) (next : Program)
  | onEvent (layer : OtlpLayer) (handle : Nat) (warning : OverflowWarning) (span : Nat)
      (next : Program)
  | reading (layer : OtlpLayer) (handle : Nat) (warning : OverflowWarning) (span : Nat)
      (next : Program)
  | send (layer : OtlpLayer) (handle : Nat) (log : Option LogData) (next : Program)
  -- before and under the read lock of a map in `collect`, and there before and
  -- under the mutex of one of the instruments that are left
  | collect (kind : Kind) (snapshots : List MetricSnapshot) (next : List MetricSnapshot → Program)
  | visit (kind : Kind) (rest : List Nat) (snapshots : List MetricSnapshot)
      (next : List MetricSnapshot → Program)
  | lock (kind : Kind) (rest : List Nat) (handle : { handle // handle ∈ rest })
      (snapshots : List MetricSnapshot) (next : List MetricSnapshot → Program)
  | visiting (kind : Kind) (rest : List Nat) (handle : { handle // handle ∈ rest })
      (snapshots : List MetricSnapshot) (next : List MetricSnapshot → Program)
  | panicked

namespace Thread

def use : Thread → Use Lock
  | .ready _ => {}
  | .get registration _ => { wants := some (.map registration.kind, .shared) }
  | .got registration _ => { held := [(.map registration.kind, .shared)] }
  | .entry registration _ => { wants := some (.map registration.kind, .exclusive) }
  | .inserting registration _ => { held := [(.map registration.kind, .exclusive)] }
  | .record handle _ _ => { wants := some (.data handle, .exclusive) }
  | .recording handle _ _ => { held := [(.data handle, .exclusive)] }
  | .print handle _ _ =>
    { held := [(.data handle, .exclusive)], wants := some (.stderr, .exclusive) }
  | .printing handle _ _ => { held := [(.stderr, .exclusive), (.data handle, .exclusive)] }
  | .onEvent _ handle _ span _ =>
    { held := [(.data handle, .exclusive)], wants := some (.extensions span, .shared) }
  | .reading _ handle _ span _ =>
    { held := [(.extensions span, .shared), (.data handle, .exclusive)] }
  | .send _ handle _ _ => { held := [(.data handle, .exclusive)] }
  | .collect kind _ _ => { wants := some (.map kind, .shared) }
  | .visit kind _ _ _ => { held := [(.map kind, .shared)] }
  | .lock kind _ handle _ _ =>
    { held := [(.map kind, .shared)], wants := some (.data handle, .exclusive) }
  | .visiting kind _ handle _ _ => { held := [(.data handle, .exclusive), (.map kind, .shared)] }
  | .panicked => {}

/-- The thread with the lock that it waited for. -/
def acquire (registry : MetricsRegistry) : Thread → Thread
  | .get registration next => .got registration next
  | .entry registration next => .inserting registration next
  | .record handle call next => .recording handle call next
  | .print handle warning next => .printing handle warning next
  | .onEvent layer handle warning span next => .reading layer handle warning span next
  | .collect kind snapshots next => .visit kind ((registry.handles kind).map (·.2)) snapshots next
  | .lock kind rest handle snapshots next => .visiting kind rest handle snapshots next
  | thread => thread

def finished : Thread → Bool
  | .ready .done => true
  | .panicked => true
  | _ => false

/-- The thread in `MetricsThreads`, which takes a whole section in one step; a
warning comes after it. -/
def pc : Thread → Pc
  | .get registration _ => .get registration
  | .got registration _ => .get registration
  | .entry registration _ => .entry registration
  | .inserting registration _ => .entry registration
  | .record handle call _ => .record handle call
  | .recording handle call _ => .record handle call
  | .collect kind snapshots _ => .collect kind snapshots
  | .visit kind rest snapshots _ => .visit kind rest snapshots
  | .lock kind rest _ snapshots _ => .visit kind rest snapshots
  | .visiting kind rest _ snapshots _ => .visit kind rest snapshots
  | _ => .idle

end Thread

-- ---------------------------------------------------------------------------
-- States
-- ---------------------------------------------------------------------------

/-- `tracing` are the spans and in which of them each thread is; a program here
neither makes nor enters one. A mutex is poisoned if its holder panicked. `log`
is history, newest first; a handle is in use once it was returned. -/
structure State where
  registry : MetricsRegistry
  threads : List Thread
  tracing : Layer.State
  exporter : Exporter.State
  poisoned : List Nat := []
  log : List Event := []

/-- The fields as the macro `warn!` gives them. -/
def warningFields (warning : OverflowWarning) : List (String × FieldValue) :=
  [("message", .debug "metric cardinality limit reached, dropping new attribute sets"),
    ("metric", .str warning.metric), ("limit", .u64 (UInt64.ofNat warning.limit))]

namespace State

def put (s : State) (thread : Nat) (moved : Thread) : State :=
  { s with threads := s.threads.set thread moved }

def note (s : State) (event : Event) : State :=
  { s with log := event :: s.log }

def uses (s : State) : List (Use Lock) := s.threads.map Thread.use

def sections (s : State) : Metrics.State where
  registry := s.registry
  threads := s.threads.map Thread.pc
  log := s.log

def current (s : State) (thread : Nat) : Option Nat :=
  s.tracing.entered[thread]?.bind Layer.State.current

/-- The warning at the layer for OTLP. There is nothing to lock if logs are not
exported or no span is current. -/
def event (subscriber : Subscriber) (s : State) (thread : Nat) (now : UInt64) (handle : Nat)
    (warning : OverflowWarning) (next : Program) : Thread :=
  match subscriber.otlpLayer with
  | none => .ready next
  | some layer =>
    match if layer.exportLogs then s.current thread else none with
    | some span => .onEvent layer handle warning span next
    | none => .send layer handle (layer.onEvent none .warn (warningFields warning) now) next

/-- The end of the section in `add`, `set` or `observe`. -/
def recorded (subscriber : Subscriber) (s : State) (thread : Nat) (now : UInt64) (handle : Nat)
    (warning : Option OverflowWarning) (next : Program) : Thread :=
  match warning with
  | none => .ready next
  | some warning =>
    if !subscriber.warns then .ready next
    else if subscriber.logToStderr then .print handle warning next
    else s.event subscriber thread now handle warning next

def insert (s : State) (thread : Nat) (registration : Registration) (next : Nat → Program) :
    State :=
  let found := s.registry.get registration.kind registration.name
  let (handle, registry) := s.registry.entry registration.kind registration.name
    (registration.instrument s.registry.defaultMaxCardinality)
  let s := { s with registry := registry }.put thread (.ready (next handle))
  let s := if found.isSome then s else s.note (.inserted thread registration handle)
  s.note (.returned thread registration handle)

/-- `send_logs`, which does not wait. -/
def sendLogs (subscriber : Subscriber) (s : State) (data : Proto3.Bytes) : State :=
  { s with
    exporter := { s.exporter with
      channel := Exporter.sendLogs subscriber.exporterConfig data s.exporter.channel } }

/-- What a thread does without waiting, up to where it waits again or gives a
lock back. `unwrap` panics on a poisoned mutex; a panic gives all locks back. -/
def advance (subscriber : Subscriber) (s : State) (thread : Nat) (now : UInt64) :
    Thread → Option State
  | .ready (.register registration next) => some (s.put thread (.get registration next))
  | .ready (.record handle call next) =>
    -- the types of the handles exclude the last case
    if s.sections.isHandle call.measurement.kind handle then
      some (s.put thread (.record handle call next))
    else some (s.put thread (.ready next))
  | .ready (.collect next) => some (s.put thread (.collect .counter [] next))
  | .got registration next =>
    match s.registry.get registration.kind registration.name with
    | some handle =>
      some ((s.put thread (.ready (next handle))).note (.returned thread registration handle))
    | none => some (s.put thread (.entry registration next))
  | .inserting registration next => some (s.insert thread registration next)
  | .recording handle call next =>
    if handle ∈ s.poisoned then some (s.put thread .panicked)
    else
      let (registry, warning) := s.registry.record handle call
      let moved := s.recorded subscriber thread now handle warning next
      some (({ s with registry := registry }.put thread moved).note (.recorded thread handle call))
  | .printing handle warning next =>
    some (s.put thread (s.event subscriber thread now handle warning next))
  | .reading layer handle warning span next =>
    let log := layer.onEvent s.tracing.spans[span]? .warn (warningFields warning) now
    some (s.put thread (.send layer handle log next))
  | .send layer handle log next =>
    match log with
    | none => some (s.put thread (.ready next))
    | some log =>
      match layer.encode (.logs log) with
      | some data => some ((s.sendLogs subscriber data).put thread (.ready next))
      | none => some ({ s with poisoned := handle :: s.poisoned }.put thread .panicked)
  | .visit kind [] snapshots next =>
    match kind.next with
    | some kind => some (s.put thread (.collect kind snapshots next))
    | none => some ((s.put thread (.ready (next snapshots))).note (.collected thread snapshots))
  | .visiting kind rest handle snapshots next =>
    if handle.val ∈ s.poisoned then some (s.put thread .panicked)
    else
      match s.registry.instruments[handle.val]? with
      | none => none
      | some instrument =>
        let (snapshot, registry) := s.registry.collectOne handle
        let moved := .visit kind (rest.erase handle) (snapshots ++ snapshot.toList) next
        some (({ s with registry := registry }.put thread moved).note
          (.read thread handle instrument))
  | _ => none

end State

-- ---------------------------------------------------------------------------
-- Steps
-- ---------------------------------------------------------------------------

inductive Action
  | advance (thread : Nat) (now : UInt64)
  | acquire (thread : Nat)
  -- `collect` goes on to this instrument
  | next (thread handle : Nat)
  -- what the exporter and its other users do
  | exporter (a : Exporter.Action)
  deriving DecidableEq, Repr

def Action.thread : Action → Option Nat
  | .advance thread _ => some thread
  | .acquire thread => some thread
  | .next thread _ => some thread
  | .exporter _ => none

/-- A lock is given to whoever may have it beside its holders; who has to wait
longer than that is up to the lock. -/
def step (subscriber : Subscriber) : Action → State → Option State
  | .advance thread now, s => s.threads[thread]?.bind (s.advance subscriber thread now)
  | .acquire thread, s => do
    let waiting ← s.threads[thread]?
    let (lock, mode) ← waiting.use.wants
    if Granted s.uses lock mode then some (s.put thread (waiting.acquire s.registry)) else none
  | .next thread handle, s =>
    match s.threads[thread]? with
    | some (.visit kind rest snapshots next) =>
      if h : handle ∈ rest then some (s.put thread (.lock kind rest ⟨handle, h⟩ snapshots next))
      else none
    | _ => none
  | .exporter a, s => (Exporter.step subscriber.exporterConfig a s.exporter).map fun exporter =>
    { s with exporter }

/-- A waiting writer may keep the thread from this step. -/
def State.HeldUp (s : State) (action : Action) : Prop :=
  ∃ thread waiting wanted, action = .acquire thread ∧ s.threads[thread]? = some waiting ∧
    waiting.use.wants = some wanted ∧ Locks.HeldUp s.uses wanted.1 wanted.2

def start (defaultMax : Nat) (programs : List Program) (tracing : Layer.State)
    (exporter : Exporter.State) : State where
  registry := .withMaxCardinality defaultMax
  threads := programs.map .ready
  tracing := tracing
  exporter := exporter

def metricsLocks (subscriber : Subscriber) (defaultMax : Nat) : Machine State Action where
  init s := ∃ programs tracing exporter, s = start defaultMax programs tracing exporter
  step := step subscriber

end Rolly.Locking
