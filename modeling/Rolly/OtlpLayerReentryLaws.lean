import Rolly.OtlpLayerForest
import Rolly.OtlpLayerReentry

/-!
# Which callbacks wait for themselves

Each call of the formatting code is an action of its own that comes first, as
long as the thread gets its locks. It gets them all unless a value that is
recorded on the current span has formatting code that asks for the lock of the
current span again.
-/

namespace Rolly.Layer.Reentry

-- ---------------------------------------------------------------------------
-- What the formatting code comes to
-- ---------------------------------------------------------------------------

section
variable (layer : OtlpLayer) (thread : Nat) (current : Option Nat)

mutual
/-- The calls of the values as actions of their own, each after the ones that
its own values make. -/
def fieldsActions : List Field → List Action
  | [] => []
  | .plain _ _ :: fields => fieldsActions fields
  | .formatted _ _ calls :: fields => callsActions calls ++ fieldsActions fields
def callsActions : List Call → List Action
  | [] => []
  | call :: calls => callActions call ++ callsActions calls
def callActions : Call → List Action
  | .event level fields now =>
    if layer.exportLogs then
      fieldsActions fields ++ [.event thread level (fields.map Field.given) now]
    else []
  | .record values =>
    match current with
    | none => []
    | some id => fieldsActions values ++ [.record id (values.map Field.given)]
end

end

def currentOn (s : State) (thread : Nat) : Option Nat :=
  s.entered[thread]?.bind State.current

/-- The callback as actions whose values have no formatting code. -/
def Callback.actions (layer : OtlpLayer) (s : State) : Callback → List Action
  | .newSpan thread parent name given spanId now =>
    fieldsActions layer thread (currentOn s thread) given ++
      [.newSpan thread parent name (given.map Field.given) spanId now]
  | .record thread id values =>
    fieldsActions layer thread (currentOn s thread) values ++
      [.record id (values.map Field.given)]
  | .enter thread id => [.enter thread id]
  | .exit thread id => [.exit thread id]
  | .event thread level fields now =>
    callActions layer thread (currentOn s thread) (.event level fields now)
  | .close id now => [.close id now]

-- ---------------------------------------------------------------------------
-- Formatting code that keeps off the current span
-- ---------------------------------------------------------------------------

section
variable (layer : OtlpLayer) (current : Option Nat)

/-- The call asks for the lock of the current span. -/
def Call.touches : Call → Bool
  | .event .. => layer.exportLogs
  | .record _ => true

/-- No formatting code of the values asks for the lock of the current span. -/
def silent (values : List Field) : Bool :=
  values.all fun value => value.calls.all fun call => !call.touches layer

mutual
/-- At any depth of the values' formatting code, what is recorded on the current
span is silent. -/
def quietFields : List Field → Bool
  | [] => true
  | .plain _ _ :: fields => quietFields fields
  | .formatted _ _ calls :: fields => quietCalls calls && quietFields fields
def quietCalls : List Call → Bool
  | [] => true
  | call :: calls => quietCall call && quietCalls calls
def quietCall : Call → Bool
  | .event _ fields _ => !layer.exportLogs || quietFields fields
  | .record values => current.isNone || silent layer values
end

end

def Callback.quiet (layer : OtlpLayer) (s : State) : Callback → Bool
  | .newSpan thread _ _ given _ _ => quietFields layer (currentOn s thread) given
  | .record thread id values =>
    if currentOn s thread = some id then silent layer values
    else quietFields layer (currentOn s thread) values
  | .event thread level fields now =>
    quietCall layer (currentOn s thread) (.event level fields now)
  | _ => true

-- ---------------------------------------------------------------------------
-- Spans that are entered
-- ---------------------------------------------------------------------------

section
variable {s t : State} {layer : OtlpLayer} {id : Nat}

theorem isOpen_iff : s.isOpen id ↔ s.closings[id]? = some false := by
  rw [State.isOpen, State.closings, List.getElem?_map]
  cases s.spans[id]? with
  | none => simp
  | some span => cases h : span.closed <;> simp [h]

theorem isOpen_record (s : State) (id : Nat) (values : List (String × FieldValue)) (id' : Nat) :
    State.isOpen { s with
      spans := s.spans.modify id fun span =>
        { span with fields := OtlpLayer.onRecord span.fields values } } id' = s.isOpen id' := by
  rw [Bool.eq_iff_iff, isOpen_iff, isOpen_iff]
  exact iff_of_eq (congrArg (fun closings : List Bool => closings[id']? = some false)
    (map_modify_of_same (fun _ => by rfl) s.spans id))

/-- A span that is entered somewhere has not closed. -/
def EnteredOpen (s : State) : Prop :=
  ∀ entries ∈ s.entered, ∀ entry ∈ entries, s.isOpen entry.1

theorem EnteredOpen.of_isOpen (h : EnteredOpen s) (he : t.entered = s.entered)
    (ho : ∀ id, s.isOpen id → t.isOpen id) : EnteredOpen t := by
  intro entries hentries entry hentry
  rw [he] at hentries
  exact ho _ (h entries hentries entry hentry)

theorem EnteredOpen.setEntered (h : EnteredOpen s) (hnew : ∀ entry ∈ entries, s.isOpen entry.1)
    (thread : Nat) : EnteredOpen { s with entered := s.entered.set thread entries } := by
  intro entries' he entry hentry
  obtain he | rfl := List.mem_or_eq_of_mem_set he
  · exact h entries' he entry hentry
  · exact hnew entry hentry

theorem EnteredOpen.step (h : EnteredOpen s) (hs : step layer action s = some t) :
    EnteredOpen t := by
  cases step_stepped hs with
  | newSpan =>
    refine h.of_isOpen rfl fun id ho => ?_
    have hlt := isOpen_lt ho
    simpa [State.isOpen, List.getElem?_append_left hlt] using ho
  | @record values id ho =>
    exact h.of_isOpen rfl fun id' ho' => (isOpen_record s id values id').trans ho'
  | @enter thread entries id he ho =>
    refine h.setEntered (fun entry hentry => ?_) thread
    obtain rfl | hentry := List.mem_cons.mp hentry
    · exact ho
    · exact h entries (List.mem_of_getElem? he) entry hentry
  | @exit thread entries id he =>
    refine h.setEntered (fun entry hentry => ?_) thread
    exact h entries (List.mem_of_getElem? he) entry (List.mem_of_mem_eraseP hentry)
  | event => exact h
  | @close span now id hspan hc =>
    -- a span that closes is entered nowhere
    simp only [State.closable, Bool.and_eq_true, List.all_eq_true, decide_eq_true_eq] at hc
    intro entries hentries entry hentry
    have hne : id ≠ entry.1 := fun heq => hc.1.2 entries hentries entry hentry heq.symm
    have ho := h entries hentries entry hentry
    simpa [State.isOpen, State.send, List.getElem?_modify, hne] using ho

theorem reachable_enteredOpen (h : (tracing layer).Reachable s) : EnteredOpen s := by
  refine h.invariant ?_ fun _ _ _ _ hi hs => hi.step hs
  rintro _ ⟨threads, rfl⟩ entries he entry hentry
  obtain rfl := List.eq_of_mem_replicate he
  cases hentry

theorem current_isOpen {thread : Nat} (h : (tracing layer).Reachable s)
    (he : s.entered[thread]? = some entries) (hc : State.current entries = some id) :
    s.isOpen id := by
  obtain ⟨entry, hentry, rfl⟩ := current_mem hc
  exact reachable_enteredOpen h entries (List.mem_of_getElem? he) entry hentry

theorem reachable_fields (h : (tracing layer).Reachable s) (ho : s.isOpen id) :
    (s.spans[id]?.bind (·.fields)).isSome := by
  have hspan := List.getElem?_eq_getElem (isOpen_lt ho)
  have hread := (reachable_inv h).read (List.mem_map_of_mem (List.getElem_mem (isOpen_lt ho)))
  obtain ⟨f, hf, -⟩ := Option.map_eq_some_iff.mp hread
  simp [hspan, hf]

end

-- ---------------------------------------------------------------------------
-- What the formatting code keeps
-- ---------------------------------------------------------------------------

theorem of_bind_ok {x : Except ε α} {f : α → Except ε β} (h : x >>= f = .ok b) :
    ∃ a, x = .ok a ∧ f a = .ok b := by
  cases x with
  | error e => cases h
  | ok a => exact ⟨a, rfl, h⟩

theorem ok_bind {f : α → Except ε β} : Except.ok a >>= f = f a := rfl

/-- Nobody entered or left a span, and none was made or closed. -/
structure Kept (s t : State) : Prop where
  entered : t.entered = s.entered
  isOpen : ∀ id, t.isOpen id = s.isOpen id

theorem Kept.refl (s : State) : Kept s s := ⟨rfl, fun _ => rfl⟩

theorem Kept.trans {s t u : State} (h : Kept s t) (h' : Kept t u) : Kept s u :=
  ⟨h'.entered.trans h.entered, fun id => (h'.isOpen id).trans (h.isOpen id)⟩

section
variable {layer : OtlpLayer} {held : List Hold} {current : Option Nat} {s t : State}

theorem Kept.onEvent {visit : State → Except Hold State}
    (hv : ∀ t, visit s = .ok t → Kept s t)
    (h : onEvent layer held current visit level fields now s = .ok t) : Kept s t := by
  unfold Reentry.onEvent at h
  split at h
  · cases h
    exact .refl s
  · obtain ⟨u, hu, h⟩ := of_bind_ok h
    obtain ⟨span, -, h⟩ := of_bind_ok h
    cases h
    exact (hv u hu).trans ⟨rfl, fun _ => rfl⟩

theorem Kept.onRecord {id : Nat} {visit : List Hold → State → Except Hold State}
    (hv : ∀ held t, visit held s = .ok t → Kept s t)
    (h : onRecord held id visit values s = .ok t) : Kept s t := by
  have h := Locks.locked_ok h
  split at h
  · obtain ⟨u, hu, h⟩ := of_bind_ok h
    cases h
    exact (hv _ u hu).trans ⟨rfl, isOpen_record u id _⟩
  · cases h
    exact .refl s

mutual
theorem visit_kept : (fields : List Field) → (held : List Hold) → (s t : State) →
    visit layer current held fields s = .ok t → Kept s t
  | [], held, s, t, h => by
    cases h
    exact .refl s
  | .plain _ _ :: fields, held, s, t, h => visit_kept fields held s t h
  | .formatted _ _ calls :: fields, held, s, t, h => by
    obtain ⟨u, hu, h⟩ := of_bind_ok h
    exact (runCalls_kept calls held s u hu).trans (visit_kept fields held u t h)
theorem runCalls_kept : (calls : List Call) → (held : List Hold) → (s t : State) →
    runCalls layer current held calls s = .ok t → Kept s t
  | [], held, s, t, h => by
    cases h
    exact .refl s
  | call :: calls, held, s, t, h => by
    obtain ⟨u, hu, h⟩ := of_bind_ok h
    exact (runCall_kept call held s u hu).trans (runCalls_kept calls held u t h)
theorem runCall_kept : (call : Call) → (held : List Hold) → (s t : State) →
    runCall layer current held call s = .ok t → Kept s t
  | .event level fields now, held, s, t, h => Kept.onEvent (visit_kept fields held s) h
  | .record values, held, s, t, h => by
    have hv := fun held => visit_kept values held s
    unfold runCall at h
    split at h
    · cases h
      exact .refl s
    · exact Kept.onRecord hv h
end

end

-- ---------------------------------------------------------------------------
-- How a callback ends
-- ---------------------------------------------------------------------------

/-- A callback that is quiet ends where the actions lead, and any other one with
a thread that waits for a lock it holds exclusively. -/
inductive Ends (layer : OtlpLayer) (s : State) (actions : List Action) :
    Bool → Except Hold State → Prop
  | ok : (tracing layer).run actions s = some t → Ends layer s actions true (.ok t)
  | stuck (id : Nat) : Ends layer s actions false (.error (id, .exclusive))

section
variable {layer : OtlpLayer} {held : List Hold} {s t : State} {thread id : Nat}

theorem Ends.bind {f : State → Except Hold State} (h : Ends layer s as a r)
    (hf : ∀ t, r = .ok t → (tracing layer).run as s = some t → Ends layer t bs b (f t)) :
    Ends layer s (as ++ bs) (a && b) (r >>= f) := by
  cases h with
  | stuck id => exact .stuck id
  | @ok t ht =>
    have hend := hf t rfl ht
    change Ends layer s (as ++ bs) b (f t)
    generalize f t = r' at hend
    cases hend with
    | ok hu => exact .ok (Machine.run_append_some.mpr ⟨t, ht, hu⟩)
    | stuck id => exact .stuck id

theorem Ends.step (h : Layer.step layer action s = some t) : Ends layer s [action] true (.ok t) :=
  .ok (Machine.run_cons_some.mpr ⟨t, h, rfl⟩)

-- ---------------------------------------------------------------------------
-- Under the lock of the current span
-- ---------------------------------------------------------------------------

theorem extensions_exclusive :
    extensions ((id, .exclusive) :: held) (some id) s = .error (id, .exclusive) := by
  rw [extensions, Locks.locked_exclusive]

theorem onRecord_exclusive {visit : List Hold → State → Except Hold State} :
    onRecord ((id, .exclusive) :: held) id visit values s = .error (id, .exclusive) := by
  rw [onRecord, Locks.locked_exclusive]

theorem onEvent_off {visit : State → Except Hold State} (h : layer.exportLogs = false) :
    onEvent layer held current visit level fields now s = .ok s := by
  rw [onEvent, h]
  rfl

theorem onEvent_logs {visit : State → Except Hold State} (h : layer.exportLogs = true) :
    onEvent layer held current visit level fields now s = do
      let s ← visit s
      let span ← extensions held current s
      return s.send layer current
        ((layer.onEvent span level (fields.map Field.given) now).map .logs) := by
  rw [onEvent, h]
  rfl

theorem silent_plain : silent layer (.plain name value :: fields) = silent layer fields := rfl

theorem silent_formatted : silent layer (.formatted name text calls :: fields) =
    (calls.all (fun call => !call.touches layer) && silent layer fields) := rfl

mutual
theorem visit_exclusive : (fields : List Field) → (held : List Hold) → (s : State) →
    visit layer (some id) ((id, .exclusive) :: held) fields s =
      if silent layer fields then .ok s else .error (id, .exclusive)
  | [], held, s => rfl
  | .plain _ _ :: fields, held, s => by
    rw [visit, silent_plain, visit_exclusive fields held s]
  | .formatted _ _ calls :: fields, held, s => by
    rw [visit, runCalls_exclusive calls held s, silent_formatted]
    cases calls.all fun call => !call.touches layer with
    | false => rfl
    | true => exact visit_exclusive fields held s
theorem runCalls_exclusive : (calls : List Call) → (held : List Hold) → (s : State) →
    runCalls layer (some id) ((id, .exclusive) :: held) calls s =
      if calls.all fun call => !call.touches layer then .ok s else .error (id, .exclusive)
  | [], held, s => rfl
  | call :: calls, held, s => by
    rw [runCalls, runCall_exclusive call held s, List.all_cons]
    cases call.touches layer with
    | true => rfl
    | false => exact runCalls_exclusive calls held s
theorem runCall_exclusive : (call : Call) → (held : List Hold) → (s : State) →
    runCall layer (some id) ((id, .exclusive) :: held) call s =
      if call.touches layer then .error (id, .exclusive) else .ok s
  | .event level fields now, held, s => by
    rw [runCall, Call.touches]
    cases hlogs : layer.exportLogs with
    | false => rw [onEvent_off hlogs, if_neg Bool.false_ne_true]
    | true =>
      -- the event asks for the lock, if its own values have not done so before
      rw [onEvent_logs hlogs, visit_exclusive fields held s]
      cases silent layer fields with
      | false => rfl
      | true =>
        rw [if_pos rfl, ok_bind, extensions_exclusive]
        rfl
  | .record values, held, s => onRecord_exclusive
end

theorem callsActions_silent (h : calls.all fun call => !call.touches layer) :
    callsActions layer thread current calls = [] := by
  induction calls with
  | nil => rfl
  | cons call calls ih =>
    obtain ⟨hcall, hcalls⟩ := Bool.and_eq_true_iff.mp h
    rw [callsActions, ih hcalls, List.append_nil]
    cases call with
    | record => cases hcall
    | event level fields now =>
      have hlogs : layer.exportLogs = false := by simpa [Call.touches] using hcall
      rw [callActions, hlogs, if_neg Bool.false_ne_true]

theorem fieldsActions_silent (h : silent layer fields) :
    fieldsActions layer thread current fields = [] := by
  induction fields with
  | nil => rfl
  | cons field fields ih =>
    cases field with
    | plain name value => exact ih h
    | formatted name text calls =>
      rw [silent_formatted] at h
      obtain ⟨hcalls, hfields⟩ := Bool.and_eq_true_iff.mp h
      rw [fieldsActions, callsActions_silent hcalls, ih hfields]
      rfl

theorem visit_exclusive_ends (fields : List Field) :
    Ends layer s (fieldsActions layer thread (some id) fields) (silent layer fields)
      (visit layer (some id) ((id, .exclusive) :: held) fields s) := by
  rw [visit_exclusive]
  cases h : silent layer fields with
  | false => exact .stuck id
  | true =>
    rw [fieldsActions_silent h]
    exact .ok rfl

-- ---------------------------------------------------------------------------
-- With the current span free
-- ---------------------------------------------------------------------------

def Free (held : List Hold) (span : Option Nat) : Prop :=
  ∀ id, span = some id → ∀ hold ∈ held, hold.1 ≠ id

theorem extensions_free (h : Free held span) :
    extensions held span s = .ok (span.bind (s.spans[·]?)) := by
  cases span with
  | none => rfl
  | some id => rw [extensions, Locks.locked_free (h id rfl), Option.bind_some]

theorem step_event (he : s.entered[thread]? = some stack) :
    Layer.step layer (.event thread level fields now) s =
      some (s.send layer (State.current stack)
        ((layer.onEvent ((State.current stack).bind (s.spans[·]?)) level fields now).map
          .logs)) := by
  rw [Layer.step, he]
  rfl

theorem Ends.onEvent {visit : State → Except Hold State} (he : s.entered[thread]? = some stack)
    (hfree : Free held (State.current stack)) (hk : ∀ t, visit s = .ok t → Kept s t)
    (hv : Ends layer s actions quiet (visit s)) :
    Ends layer s
      (if layer.exportLogs then
        actions ++ [.event thread level (fields.map Field.given) now]
      else [])
      (!layer.exportLogs || quiet)
      (onEvent layer held (State.current stack) visit level fields now s) := by
  cases hlogs : layer.exportLogs with
  | false =>
    rw [onEvent_off hlogs]
    exact .ok rfl
  | true =>
    rw [onEvent_logs hlogs, if_pos rfl, Bool.not_true, Bool.false_or, ← Bool.and_true quiet]
    refine hv.bind fun t ht _ => ?_
    rw [extensions_free hfree]
    exact .step (step_event (by rw [(hk t ht).entered, he]))

theorem Ends.onRecord {visit : List Hold → State → Except Hold State}
    (hs : (tracing layer).Reachable s) (ho : s.isOpen id) (hfree : ∀ hold ∈ held, hold.1 ≠ id)
    (hk : ∀ t, visit ((id, .exclusive) :: held) s = .ok t → Kept s t)
    (hv : Ends layer s actions quiet (visit ((id, .exclusive) :: held) s)) :
    Ends layer s (actions ++ [.record id (values.map Field.given)]) quiet
      (onRecord held id visit values s) := by
  rw [Reentry.onRecord, Locks.locked_free hfree, if_pos (reachable_fields hs ho),
    ← Bool.and_true quiet]
  refine hv.bind fun t ht _ => .step ?_
  rw [Layer.step, (hk t ht).isOpen, if_pos ho]

mutual
theorem visit_ends : (fields : List Field) → (held : List Hold) → (s : State) →
    (tracing layer).Reachable s → s.entered[thread]? = some stack →
    Free held (State.current stack) →
    Ends layer s (fieldsActions layer thread (State.current stack) fields)
      (quietFields layer (State.current stack) fields)
      (visit layer (State.current stack) held fields s)
  | [], held, s, hs, he, hfree => .ok rfl
  | .plain _ _ :: fields, held, s, hs, he, hfree => visit_ends fields held s hs he hfree
  | .formatted _ _ calls :: fields, held, s, hs, he, hfree => by
    refine (runCalls_ends calls held s hs he hfree).bind fun t ht hrun => ?_
    have hk := runCalls_kept calls held s t ht
    exact visit_ends fields held t (hs.run hrun) (by rw [hk.entered, he]) hfree
theorem runCalls_ends : (calls : List Call) → (held : List Hold) → (s : State) →
    (tracing layer).Reachable s → s.entered[thread]? = some stack →
    Free held (State.current stack) →
    Ends layer s (callsActions layer thread (State.current stack) calls)
      (quietCalls layer (State.current stack) calls)
      (runCalls layer (State.current stack) held calls s)
  | [], held, s, hs, he, hfree => .ok rfl
  | call :: calls, held, s, hs, he, hfree => by
    refine (runCall_ends call held s hs he hfree).bind fun t ht hrun => ?_
    have hk := runCall_kept call held s t ht
    exact runCalls_ends calls held t (hs.run hrun) (by rw [hk.entered, he]) hfree
theorem runCall_ends : (call : Call) → (held : List Hold) → (s : State) →
    (tracing layer).Reachable s → s.entered[thread]? = some stack →
    Free held (State.current stack) →
    Ends layer s (callActions layer thread (State.current stack) call)
      (quietCall layer (State.current stack) call)
      (runCall layer (State.current stack) held call s)
  | .event level fields now, held, s, hs, he, hfree =>
    Ends.onEvent he hfree (visit_kept fields held s) (visit_ends fields held s hs he hfree)
  | .record values, held, s, hs, he, hfree => by
    cases hc : State.current stack with
    | none => exact .ok rfl
    | some id =>
      exact Ends.onRecord hs (current_isOpen hs he hc) (hfree id hc)
        (visit_kept values _ s) (visit_exclusive_ends values)
end

-- ---------------------------------------------------------------------------
-- The callbacks
-- ---------------------------------------------------------------------------

theorem free_nil : Free [] span := fun _ _ _ hm => by cases hm

theorem currentOn_eq (he : s.entered[thread]? = some stack) :
    currentOn s thread = State.current stack := by
  rw [currentOn, he]
  rfl

theorem Kept.parentOf (h : Kept s t) : t.parentOf stack parent = s.parentOf stack parent := by
  cases parent with
  | explicit id => rw [State.parentOf, State.parentOf, h.isOpen]
  | _ => rfl

theorem exec_close {out : Except Hold State} (h : exec layer (.close id now) s = some out) :
    ∃ t, Layer.step layer (.close id now) s = some t ∧ out = .ok t := by
  obtain ⟨span, hspan, h⟩ := Option.bind_eq_some_iff.mp h
  obtain ⟨hc, h⟩ := Option.ite_none_right_eq_some.mp h
  obtain rfl := Option.some.inj h
  refine ⟨_, by rw [Layer.step, hspan]; exact if_pos hc, ?_⟩
  cases hexport : layer.exportTraces with
  | false => simp [OtlpLayer.onClose, hexport, State.send, bind, Except.bind, pure, Except.pure]
  | true => rfl

theorem exec_ends {out : Except Hold State} (hs : (tracing layer).Reachable s)
    (h : exec layer callback s = some out) :
    Ends layer s (callback.actions layer s) (callback.quiet layer s) out := by
  cases callback with
  | newSpan thread parent name given spanId now =>
    obtain ⟨stack, he, h⟩ := Option.bind_eq_some_iff.mp h
    obtain ⟨p, hp, h⟩ := Option.bind_eq_some_iff.mp h
    obtain rfl := Option.some.inj h
    rw [Callback.actions, Callback.quiet, currentOn_eq he, ← Bool.and_true (quietFields ..)]
    refine (visit_ends given [] s hs he free_nil).bind fun t ht _ => ?_
    have hk := visit_kept given [] s t ht
    rw [extensions_free free_nil, ok_bind]
    refine .step ?_
    rw [Layer.step, hk.entered, he]
    simp only [Option.bind_eq_bind, Option.bind_some, hk.parentOf, hp]
    rfl
  | record thread id values =>
    obtain ⟨stack, he, h⟩ := Option.bind_eq_some_iff.mp h
    obtain ⟨ho, h⟩ := Option.ite_none_right_eq_some.mp h
    obtain rfl := Option.some.inj h
    rw [Callback.actions, Callback.quiet, currentOn_eq he]
    refine .onRecord hs ho (fun _ hm => by cases hm) (visit_kept values _ s) ?_
    by_cases hc : State.current stack = some id
    · rw [if_pos hc, hc]
      exact visit_exclusive_ends values
    · rw [if_neg hc]
      refine visit_ends values _ s hs he fun current hcurrent hold hm => ?_
      obtain rfl := List.mem_singleton.mp hm
      exact fun heq => hc (hcurrent.trans (congrArg some heq.symm))
  | enter thread id | exit thread id =>
    obtain ⟨t, ht, rfl⟩ := Option.map_eq_some_iff.mp h
    exact .step ht
  | event thread level fields now =>
    obtain ⟨stack, he, h⟩ := Option.bind_eq_some_iff.mp h
    obtain rfl := Option.some.inj h
    rw [Callback.actions, Callback.quiet, currentOn_eq he]
    exact runCall_ends (.event level fields now) [] s hs he free_nil
  | close id now =>
    obtain ⟨t, ht, rfl⟩ := exec_close h
    exact .step ht

-- ---------------------------------------------------------------------------
-- Runs
-- ---------------------------------------------------------------------------

theorem exec_run (hs : (tracing layer).Reachable s) (h : exec layer callback s = some (.ok t)) :
    (tracing layer).run (callback.actions layer s) s = some t := by
  have hend := exec_ends hs h
  generalize callback.quiet layer s = quiet at hend
  cases hend with
  | ok hrun => exact hrun

theorem reentrant_tracing (h : (reentrant layer).Reachable s) : (tracing layer).Reachable s := by
  refine h.invariant (fun _ h0 => .init h0) fun callback s t _ hs ht => ?_
  obtain ⟨out, hout, ht⟩ := Option.bind_eq_some_iff.mp ht
  cases out with
  | error hold => cases ht
  | ok u =>
    obtain rfl := Option.some.inj ht
    exact hs.run (exec_run hs hout)

/-- The thread never asks for a lock that it holds exclusively, unless a value
that is recorded on the current span, by the program or by formatting code, asks
for the lock of the current span while it is formatted. -/
theorem unblocked_iff {out : Except Hold State} (hs : (reentrant layer).Reachable s)
    (h : exec layer callback s = some out) :
    (∀ id, out ≠ .error (id, .exclusive)) ↔ callback.quiet layer s := by
  have hend := exec_ends (reentrant_tracing hs) h
  generalize callback.quiet layer s = quiet at hend ⊢
  cases hend with
  | ok hrun => exact iff_of_true (fun _ he => by cases he) rfl
  | stuck id => exact iff_of_false (fun hne => hne id rfl) Bool.false_ne_true

end

/-- A value whose `Debug` emits an event. -/
def loud : Field := .formatted "job" "Job(7)" [.event .info [.plain "message" (.debug "shown")] 3]

/-- An event on the current span, with such a value. -/
theorem unblocked_event : ∃ s out, (reentrant exportAll).run
      [.newSpan 0 .root "request" [loud] zeroSpanId 1, .enter 0 0] { entered := [[]] } = some s ∧
    exec exportAll (.event 0 .info [loud] 4) s = some out ∧
    ((∀ id, out ≠ .error (id, .exclusive)) ↔
      Callback.quiet exportAll s (.event 0 .info [loud] 4)) := by
  obtain ⟨s, hs, hsome⟩ := Option.map_eq_some_iff.mp (show ((reentrant exportAll).run
      [.newSpan 0 .root "request" [loud] zeroSpanId 1, .enter 0 0] { entered := [[]] }).map
      (fun s => (exec exportAll (.event 0 .info [loud] 4) s).isSome) = some true
    by decide +kernel)
  obtain ⟨out, hout⟩ := Option.isSome_iff_exists.mp hsome
  exact ⟨s, out, hs, hout, unblocked_iff (Machine.Reachable.run (.init ⟨1, rfl⟩) hs) hout⟩

/-- The same value, recorded on the current span: its event waits for the lock
that `on_record` holds. -/
theorem record_blocked : ¬∀ layer s callback (out : Except Hold State),
    (reentrant layer).Reachable s → exec layer callback s = some out →
    ∀ id, out ≠ .error (id, .exclusive) := by
  intro h
  obtain ⟨s, hs, hend⟩ := Option.map_eq_some_iff.mp (show ((reentrant exportAll).run
      [.newSpan 0 .root "request" [] zeroSpanId 1, .enter 0 0] { entered := [[]] }).map
      (fun s => ((exec exportAll (.record 0 0 [loud]) s).isSome,
        Callback.quiet exportAll s (.record 0 0 [loud]))) = some (true, false)
    by decide +kernel)
  obtain ⟨hsome, hquiet⟩ := Prod.mk.inj hend
  obtain ⟨out, hout⟩ := Option.isSome_iff_exists.mp hsome
  have hreach : (reentrant exportAll).Reachable s := Machine.Reachable.run (.init ⟨1, rfl⟩) hs
  have hend := exec_ends (reentrant_tracing hreach) hout
  rw [hquiet] at hend
  cases hend with
  | stuck id => exact h exportAll s _ _ hreach hout id rfl

end Rolly.Layer.Reentry
