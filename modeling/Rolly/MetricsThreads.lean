import Rolly.MetricsRegistry
import Rolly.Lib.Machine

/-!
# Threads that share a registry

Each step of a thread is what it does between two lock acquisitions. A section
under one lock is atomic; `collect` alone keeps a lock, the read lock of a map,
while it takes others, the mutexes of the instruments. Two readers do not
exclude each other, a reader excludes the writers of its map.
-/

namespace Rolly.Metrics

inductive Pc
  | idle
  -- before the read lock of the fast path, or after it missed
  | get (registration : Registration)
  | entry (registration : Registration)
  -- before the mutex of the instrument
  | record (handle : Nat) (call : RecordCall)
  -- `collect` before the read lock of a map, or holding it with instruments to visit
  | collect (kind : Kind) (snapshots : List MetricSnapshot)
  | visit (kind : Kind) (rest : List Nat) (snapshots : List MetricSnapshot)
  deriving DecidableEq, Repr

inductive Event
  | inserted (thread : Nat) (registration : Registration) (handle : Nat)
  | returned (thread : Nat) (registration : Registration) (handle : Nat)
  | recorded (thread : Nat) (handle : Nat) (call : RecordCall)
  | read (thread : Nat) (handle : Nat) (instrument : Instrument)
  | collected (thread : Nat) (snapshots : List MetricSnapshot)
  deriving DecidableEq, Repr

/-- `log` is history, newest first; a handle is in use once it was returned. -/
structure State where
  registry : MetricsRegistry
  threads : List Pc
  log : List Event := []
  deriving DecidableEq, Repr

namespace State

def move (s : State) (thread : Nat) (pc : Pc) : State :=
  { s with threads := s.threads.set thread pc }

def note (s : State) (event : Event) : State :=
  { s with log := event :: s.log }

def reading (s : State) (kind : Kind) : Bool :=
  s.threads.any fun
    | .visit held _ _ => held = kind
    | _ => false

def isHandle (s : State) (kind : Kind) (handle : Nat) : Bool :=
  s.log.any fun
    | .returned _ registration returned => registration.kind = kind && returned = handle
    | _ => false

/-- The section under the read lock of the fast path. -/
def get (s : State) (thread : Nat) (registration : Registration) : State :=
  match s.registry.get registration.kind registration.name with
  | some handle => (s.move thread .idle).note (.returned thread registration handle)
  | none => s.move thread (.entry registration)

/-- The section under the write lock, which looks again. -/
def entry (s : State) (thread : Nat) (registration : Registration) : State :=
  let found := s.registry.get registration.kind registration.name
  let (handle, registry) := s.registry.entry registration.kind registration.name
    (registration.instrument s.registry.defaultMaxCardinality)
  let s := { s with registry := registry }.move thread .idle
  let s := if found.isSome then s else s.note (.inserted thread registration handle)
  s.note (.returned thread registration handle)

/-- The section under the mutex in `add`, `set` or `observe`. -/
def record (s : State) (thread handle : Nat) (call : RecordCall) : State :=
  ({ s with registry := (s.registry.record handle call).1 }.move thread .idle).note
    (.recorded thread handle call)

/-- The section under the mutex of one instrument in `collect`. -/
def visit (s : State) (thread : Nat) (kind : Kind) (rest : List Nat)
    (snapshots : List MetricSnapshot) (handle : Nat) : Option State :=
  match s.registry.instruments[handle]? with
  | none => none
  | some instrument =>
    let (snapshot, registry) := s.registry.collectOne handle
    let pc := .visit kind (rest.erase handle) (snapshots ++ snapshot.toList)
    some (({ s with registry := registry }.move thread pc).note (.read thread handle instrument))

end State

/-- `collect` reads the counters, then the gauges, then the histograms. -/
def Kind.next : Kind → Option Kind
  | .counter => some .gauge
  | .gauge => some .histogram
  | .histogram => none

inductive Action
  -- calls
  | register (thread : Nat) (registration : Registration)
  | record (thread : Nat) (handle : Nat) (call : RecordCall)
  | collect (thread : Nat)
  -- the lock that the thread waits for, or the mutex of an instrument to visit
  | acquire (thread : Nat)
  | visit (thread : Nat) (handle : Nat)
  | release (thread : Nat)
  deriving DecidableEq, Repr

def Action.thread : Action → Nat
  | .register thread _ => thread
  | .record thread _ _ => thread
  | .collect thread => thread
  | .acquire thread => thread
  | .visit thread _ => thread
  | .release thread => thread

def step : Action → State → Option State
  | .register thread registration, s =>
    match s.threads[thread]? with
    | some .idle => some (s.move thread (.get registration))
    | _ => none
  | .record thread handle call, s =>
    match s.threads[thread]? with
    | some .idle =>
      if s.isHandle call.measurement.kind handle then some (s.move thread (.record handle call))
      else none
    | _ => none
  | .collect thread, s =>
    match s.threads[thread]? with
    | some .idle => some (s.move thread (.collect .counter []))
    | _ => none
  | .acquire thread, s =>
    match s.threads[thread]? with
    | some (.get registration) => some (s.get thread registration)
    | some (.entry registration) =>
      if s.reading registration.kind then none else some (s.entry thread registration)
    | some (.record handle call) => some (s.record thread handle call)
    | some (.collect kind snapshots) =>
      some (s.move thread (.visit kind ((s.registry.handles kind).map (·.2)) snapshots))
    | _ => none
  | .visit thread handle, s =>
    match s.threads[thread]? with
    | some (.visit kind rest snapshots) =>
      if handle ∈ rest then s.visit thread kind rest snapshots handle else none
    | _ => none
  | .release thread, s =>
    match s.threads[thread]? with
    | some (.visit kind [] snapshots) =>
      match kind.next with
      | some next => some (s.move thread (.collect next snapshots))
      | none => some ((s.move thread .idle).note (.collected thread snapshots))
    | _ => none

def start (defaultMax threads : Nat) : State where
  registry := .withMaxCardinality defaultMax
  threads := List.replicate threads .idle

def sharedRegistry (defaultMax : Nat) : Machine State Action where
  init s := ∃ threads, s = start defaultMax threads
  step := step

end Rolly.Metrics
