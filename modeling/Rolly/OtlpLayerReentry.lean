import Rolly.Lib.Locks
import Rolly.OtlpLayer

/-!
# Values that trace while they are formatted

`record_debug` runs the `Debug` of a value, and that code may emit events and
record on the current span itself: the layer is called again, on the same
thread, from inside one of its callbacks. Here the callbacks take the locks of
the spans' extensions in the order of the source. `on_new_span` and `on_event`
visit the values before they take any; `on_record` visits them under the lock
of the span.
-/

namespace Rolly.Layer.Reentry

open Locks (Mode)

-- ---------------------------------------------------------------------------
-- Formatting code
-- ---------------------------------------------------------------------------

mutual
/-- A value that is visited. `formatted` comes through `record_debug`, as text;
its formatting code makes the calls first. -/
inductive Field
  | plain (name : String) (value : FieldValue)
  | formatted (name text : String) (calls : List Call)
/-- What formatting code asks of the layer: `record` is on the span that is
current. Code that opens a span or updates a metric is not covered. -/
inductive Call
  | event (level : Level) (fields : List Field) (now : UInt64)
  | record (values : List Field)
end

def Field.given : Field → String × FieldValue
  | .plain name value => (name, value)
  | .formatted name text _ => (name, .debug text)

def Field.calls : Field → List Call
  | .plain .. => []
  | .formatted _ _ calls => calls

-- ---------------------------------------------------------------------------
-- Callbacks under locks
-- ---------------------------------------------------------------------------

/-- A lock on the extensions of a span. A thread that asks for one that it holds
itself ends with the hold that is in its way. -/
abbrev Hold := Nat × Mode

/-- `extensions().get` of a span, if there is one. -/
def extensions (held : List Hold) (id : Option Nat) (s : State) : Except Hold (Option Span) :=
  match id with
  | none => .ok none
  | some id => Locks.locked held id .shared fun _ => .ok s.spans[id]?

section
variable (layer : OtlpLayer) (held : List Hold)

def onEvent (current : Option Nat) (visit : State → Except Hold State) (level : Level)
    (fields : List Field) (now : UInt64) (s : State) : Except Hold State :=
  if !layer.exportLogs then .ok s
  else do
    let s ← visit s
    let span ← extensions held current s
    return s.send layer current ((layer.onEvent span level (fields.map Field.given) now).map .logs)

def onRecord (id : Nat) (visit : List Hold → State → Except Hold State) (values : List Field)
    (s : State) : Except Hold State :=
  Locks.locked held id .exclusive fun held => do
    -- `ext` is alive until the callback returns
    if (s.spans[id]?.bind (·.fields)).isSome then
      let s ← visit held s
      return { s with
        spans := s.spans.modify id fun span =>
          { span with fields := OtlpLayer.onRecord span.fields (values.map Field.given) } }
    else return s

end

section
variable (layer : OtlpLayer) (current : Option Nat)

mutual
def visit (held : List Hold) : List Field → State → Except Hold State
  | [], s => .ok s
  | .plain _ _ :: fields, s => visit held fields s
  | .formatted _ _ calls :: fields, s => do
    let s ← runCalls held calls s
    visit held fields s
def runCalls (held : List Hold) : List Call → State → Except Hold State
  | [], s => .ok s
  | call :: calls, s => do
    let s ← runCall held call s
    runCalls held calls s
def runCall (held : List Hold) : Call → State → Except Hold State
  | .event level fields now, s =>
    onEvent layer held current (fun s => visit held fields s) level fields now s
  | .record values, s =>
    match current with
    | none => .ok s
    | some id => onRecord held id (fun held s => visit held values s) values s
end

end

/-- An action of the program, whose values have formatting code. -/
inductive Callback
  | newSpan (thread : Nat) (parent : Parent) (name : String) (given : List Field)
      (spanId : SpanId) (now : UInt64)
  | record (thread : Nat) (id : Nat) (values : List Field)
  | enter (thread : Nat) (id : Nat)
  | exit (thread : Nat) (id : Nat)
  | event (thread : Nat) (level : Level) (fields : List Field) (now : UInt64)
  | close (id : Nat) (now : UInt64)

/-- The callback on a thread that holds no lock. -/
def exec (layer : OtlpLayer) : Callback → State → Option (Except Hold State)
  | .newSpan thread parent name given spanId now, s => do
    let stack ← s.entered[thread]?
    let parent ← s.parentOf stack parent
    return do
      let s ← visit layer (State.current stack) [] given s
      let span ← extensions [] parent s
      let given := given.map Field.given
      let (timing, fields) := layer.onNewSpan span given spanId now
      Locks.locked [] s.spans.length .exclusive fun _ =>
        let span := { name, parent, given, timing := some timing, fields := some fields }
        .ok { s with spans := s.spans ++ [span] }
  | .record thread id values, s => do
    let stack ← s.entered[thread]?
    if s.isOpen id then
      return onRecord [] id (fun held s => visit layer (State.current stack) held values s) values s
    else none
  | .enter thread id, s => (step layer (.enter thread id) s).map .ok
  | .exit thread id, s => (step layer (.exit thread id) s).map .ok
  | .event thread level fields now, s => do
    let stack ← s.entered[thread]?
    let current := State.current stack
    return onEvent layer [] current (fun s => visit layer current [] fields s) level fields now s
  | .close id now, s => do
    let span ← s.spans[id]?
    if s.closable id then
      return do
        let s ←
          if !layer.exportTraces then .ok s
          else Locks.locked [] id .shared fun _ =>
            .ok (s.send layer (some id) ((layer.onClose span now).map .traces))
        return { s with spans := s.spans.modify id fun span => { span with closed := true } }
    else none

/-- A thread that never gets its lock makes no step. -/
def reentrant (layer : OtlpLayer) : Machine State Callback where
  init := (tracing layer).init
  step callback s := (exec layer callback s).bind Except.toOption

end Rolly.Layer.Reentry
