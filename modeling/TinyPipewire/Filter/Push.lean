import TinyPipewire.Filter.Port

/-!
# Staging what applications push

`pwf_filter_push_port_data` and `pwf_filter_port_push_event`, split where they take
and drop `push_lock`, and the operations of `pwf_filter_event.c` on the event arrays.
The answers of `malloc` and `realloc` are arguments.
-/

namespace TinyPipewire.Filter

/-- A caller's pointer and size. What is at a non-NULL pointer is its `size` bytes. -/
structure Source where
  data : Option Bytes
  size : Nat
  fits : ∀ bs, data = some bs → bs.length = size

namespace Source

/-- `size > 0 && !data`. -/
def missing (c : Source) : Bool := decide (0 < c.size) && c.data.isNone

/-- The bytes the caller passes. -/
def bytes (c : Source) : Bytes := c.data.getD []

theorem bytes_length {c : Source} (h : c.missing = false) : c.bytes.length = c.size := by
  cases hd : c.data with
  | none => simp_all [missing, bytes]
  | some bs => simpa [bytes, hd] using c.fits bs hd

/-- A source with its bytes in place. -/
def ofBytes (bs : Bytes) : Source := ⟨some bs, bs.length, by simp⟩

end Source

/-- The arguments of `pwf_filter_push_port_data`. -/
structure PortPush where
  src : Source
  pts : Int

/-- The `struct pwf_event` given to `pwf_filter_port_push_event`. -/
structure PushedEvent where
  offset : UInt32
  kind : EventKind
  key : Option String
  src : Source

/-- The event the caller means, by value. -/
def PushedEvent.item (e : PushedEvent) : EventItem :=
  ⟨e.offset, e.kind, e.key, e.src.size, e.src.bytes⟩

/-- An answer of `realloc` or `malloc` the heap can give. -/
def Answer (ok : Loc → Prop) : Option Loc → Prop
  | none => True
  | some l => ok l

instance {ok : Loc → Prop} [DecidablePred ok] : DecidablePred (Answer ok)
  | none => inferInstanceAs (Decidable True)
  | some l => inferInstanceAs (Decidable (ok l))

/-! ### `pwf_filter_push_port_data` -/

/-- The checks of `pwf_filter_push_port_data` on the port and the data. -/
def pushPortDataAccepts (cfg : PortConfig) (c : PortPush) : Bool :=
  cfg.direction == .input && cfg.mediaType != .event && !c.src.missing

/-- `memcpy` to the start of a block. -/
def overwrite (old bs : Bytes) : Bytes := bs ++ old.drop bs.length

/-- `realloc`'s contents: what was there, up to the new size. The bytes past it are
unspecified; here they are zero. -/
def resize (old : Bytes) (size : Nat) : Bytes :=
  old.take size ++ List.replicate (size - old.length) 0

/-- Makes room for `size` bytes at `pushed_data`; `none` when `realloc` fails. -/
def growPushed (h : Heap Bytes) (p : PortData) (size : Nat) (grown : Option Loc) :
    Option (Heap Bytes × PortData) :=
  if size > p.pushedCapacity then
    grown.map fun l =>
      (h.move p.pushedData l (resize ((h.load p.pushedData).getD []) size),
        { p with pushedData := some l, pushedCapacity := size })
  else some (h, p)

/-- The copy into `pushed_data`, and the fields set after it. -/
def fillPushed (h : Heap Bytes) (p : PortData) (c : PortPush) : Heap Bytes × PortData :=
  let h' := match p.pushedData with
    | some l => if c.src.size > 0 then h.store l (overwrite ((h l).getD []) c.src.bytes) else h
    | none => h
  (h', { p with pushedSize := c.src.size, pushedPts := c.pts, pushedPending := true })

/-- `pwf_filter_push_port_data` between the lock and the unlock. -/
def stagePortData (h : Heap Bytes) (p : PortData) (c : PortPush) (grown : Option Loc) :
    Heap Bytes × PortData × PwfError :=
  match growPushed h p c.src.size grown with
  | none => (h, p, .noMemory)
  | some (h1, p1) => ((fillPushed h1 p1 c).1, (fillPushed h1 p1 c).2, .ok)

/-! ### The event arrays -/

/-- The capacity after an append to a full array, and before it otherwise. -/
def grownCapacity (length capacity : Nat) : Nat :=
  if length = capacity then (if capacity = 0 then 4 else capacity * 2) else capacity

/-- `pwf_filter_incoming_event_append`; a full array that cannot grow drops the event. -/
def incomingEventAppend (p : PortData) (e : Event) (grown : Bool) : PortData :=
  if p.incomingEvents.length = p.incomingEventsCapacity ∧ grown = false then p
  else { p with
    incomingEvents := p.incomingEvents ++ [e]
    incomingEventsCapacity := grownCapacity p.incomingEvents.length p.incomingEventsCapacity }

/-- Appends a list of events; `grow k` answers the `realloc` of the `k`-th append, where that
asks for one. -/
def incomingEventsAppend (p : PortData) (grow : Nat → Bool) : List Event → PortData
  | [] => p
  | e :: es => incomingEventsAppend (incomingEventAppend p e (grow 0)) (fun k => grow (k + 1)) es

/-- `port->n_incoming_events = 0`. -/
def clearIncoming (p : PortData) : PortData := { p with incomingEvents := [] }

/-- `pwf_filter_event_take_pending`. -/
def eventTakePending (p : PortData) : PortData :=
  { p with
    deliveringEvents := p.pendingEvents
    deliveringEventsCapacity := p.pendingEventsCapacity
    pendingEvents := []
    pendingEventsCapacity := p.deliveringEventsCapacity }

/-- The incoming event that aliases a staged one's copy. -/
def PendingEvent.incoming (e : PendingEvent) : Event :=
  ⟨e.offset, e.kind, e.key, e.data.map .block, e.size⟩

/-- `pwf_filter_event_load_delivering_as_incoming`. -/
def eventLoadDelivering (p : PortData) (grow : Nat → Bool) : PortData :=
  incomingEventsAppend (clearIncoming p) grow
    (p.deliveringEvents.map PendingEvent.incoming)

/-- `pwf_filter_event_clear_pending`. -/
def eventClearPending (h : Heap Bytes) (p : PortData) : Heap Bytes × PortData :=
  (h.freeAll (eventBlocks p.pendingEvents), { p with pendingEvents := [] })

/-- `pwf_filter_event_clear_delivering`. -/
def eventClearDelivering (h : Heap Bytes) (p : PortData) : Heap Bytes × PortData :=
  (h.freeAll (eventBlocks p.deliveringEvents), { p with deliveringEvents := [] })

/-- The key a staged event keeps: the vocabulary's own name. -/
def stagedKey (e : PushedEvent) : Option String :=
  if e.kind = .property then (propertyFindByName e.key).map (·.name) else none

/-- `pwf_filter_pending_event_append`: `grown` answers the array's `realloc` and `copy`
the `malloc` of the event's own copy, which only a non-empty event asks for. -/
def pendingEventAppend (h : Heap Bytes) (p : PortData) (e : PushedEvent) (grown : Bool)
    (copy : Option Loc) : Heap Bytes × PortData × Bool :=
  if p.pendingEvents.length = p.pendingEventsCapacity ∧ grown = false then (h, p, false)
  else
    let p' := { p with
      pendingEventsCapacity := grownCapacity p.pendingEvents.length p.pendingEventsCapacity }
    let entry (data : Option Loc) : PendingEvent :=
      ⟨e.offset, e.kind, stagedKey e, data, e.src.size⟩
    if e.src.size > 0 then
      match copy with
      | none => (h, p', false)
      | some l => (h.store l e.src.bytes,
          { p' with pendingEvents := p.pendingEvents ++ [entry (some l)] }, true)
    else (h, { p' with pendingEvents := p.pendingEvents ++ [entry none] }, true)

/-- An append fails and stages nothing, or stages the event with a copy of its bytes. -/
theorem pendingEventAppend_cases {h : Heap Bytes} {p : PortData} (e : PushedEvent)
    (grown : Bool) {copy : Option Loc} (ha : Answer h.Fresh copy) :
    (∃ cap, pendingEventAppend h p e grown copy =
      (h, { p with pendingEventsCapacity := cap }, false)) ∨
    ∃ h' cap data, pendingEventAppend h p e grown copy =
        (h', { p with
          pendingEventsCapacity := cap
          pendingEvents := p.pendingEvents ++
            [⟨e.offset, e.kind, stagedKey e, data, e.src.size⟩] }, true) ∧
      (e.src.size = 0 ∧ data = none ∧ h' = h ∨
        ∃ l, h.Fresh l ∧ data = some l ∧ h' = h.store l e.src.bytes) := by
  unfold pendingEventAppend
  split
  · exact Or.inl ⟨_, rfl⟩
  · dsimp only
    split
    · cases copy with
      | none => exact Or.inl ⟨_, rfl⟩
      | some l => exact Or.inr ⟨_, _, _, rfl, Or.inr ⟨l, ha, rfl, rfl⟩⟩
    · exact Or.inr ⟨_, _, _, rfl, Or.inl ⟨by omega, rfl, rfl⟩⟩

/-- `pwf_filter_pending_event_pop_last`. -/
def pendingEventPopLast (h : Heap Bytes) (p : PortData) : Heap Bytes × PortData :=
  (h.freeAll (eventBlocks p.pendingEvents.getLast?.toList),
    { p with pendingEvents := p.pendingEvents.dropLast })

/-! ### `pwf_filter_port_push_event` -/

/-- The checks of `pwf_filter_port_push_event`. -/
def pushEventAccepts (cfg : PortConfig) (e : PushedEvent) : Bool :=
  cfg.mediaType == .event && !e.src.missing && eventKindKeyValid e.kind e.key

/-- Its input branch, between the lock and the unlock. -/
def stageEvent (h : Heap Bytes) (p : PortData) (e : PushedEvent) (grown : Bool)
    (copy : Option Loc) : Heap Bytes × PortData × PwfError :=
  match pendingEventAppend h p e grown copy with
  | (h', p', true) => (h', p', .ok)
  | (h', p', false) => (h', p', .noMemory)

/-- An event as `pwf_filter_event_decode` finds it; its body starts `start` bytes into the block. -/
structure DecodedEvent where
  offset : UInt32
  kind : EventKind
  key : Option String
  start : Nat
  size : Nat
  deriving DecidableEq, Repr

/-- The event with its body where the block is mapped. -/
def DecodedEvent.event (pool base : Nat) (e : DecodedEvent) : Event :=
  ⟨e.offset, e.kind, e.key, some (.mapped pool (base + e.start)), e.size⟩

/-- The control-sequence codec of `pwf_filter_event_decode` and `pwf_filter_event_encode`:
the events a block decodes to, in order, for its content and the chunk's size, and the
bytes a list of events encodes to. -/
structure EventCodec where
  decode : Bytes → Nat → List DecodedEvent
  encode : List EventItem → Bytes

/-- Its output branch: append, then refuse what this cycle's buffer cannot hold. -/
def pushOutputEvent (codec : EventCodec) (h : Heap Bytes) (p : PortData) (e : PushedEvent)
    (grown : Bool) (copy : Option Loc) : Heap Bytes × PortData × PwfError :=
  match pendingEventAppend h p e grown copy with
  | (h', p', false) => (h', p', .noMemory)
  | (h', p', true) =>
    if (codec.encode (p'.pendingEvents.map (·.item h'))).length > p'.eventOutputCapacity then
      ((pendingEventPopLast h' p').1, (pendingEventPopLast h' p').2, .invalidArg)
    else (h', p', .ok)

/-! ### What a push leaves of the port -/

section Frame

variable {h : Heap Bytes} {copy : Option Loc}

theorem stagePortData_frame (h : Heap Bytes) (p : PortData) (c : PortPush)
    (grown : Option Loc) : ∃ data size cap pts pending, (stagePortData h p c grown).2.1 =
      { p with pushedData := data, pushedSize := size, pushedCapacity := cap,
               pushedPts := pts, pushedPending := pending } := by
  unfold stagePortData growPushed
  split
  · exact ⟨_, _, _, _, _, rfl⟩
  · rename_i hg
    split at hg
    · cases grown with
      | none => simp at hg
      | some l =>
        simp only [Option.map_some, Option.some.injEq, Prod.mk.injEq] at hg
        rw [← hg.2]
        exact ⟨_, _, _, _, _, rfl⟩
    · simp only [Option.some.injEq, Prod.mk.injEq] at hg
      rw [← hg.2]
      exact ⟨_, _, _, _, _, rfl⟩

theorem stageEvent_frame (p : PortData) (e : PushedEvent) (grown : Bool)
    (ha : Answer h.Fresh copy) : ∃ es cap, (stageEvent h p e grown copy).2.1 =
      { p with pendingEvents := es, pendingEventsCapacity := cap } := by
  rcases pendingEventAppend_cases (p := p) e grown ha with ⟨cap, hr⟩ | ⟨h', cap, data, hr, hd⟩
  · rw [stageEvent, hr]
    exact ⟨_, _, rfl⟩
  · rw [stageEvent, hr]
    exact ⟨_, _, rfl⟩

theorem pushOutputEvent_frame (codec : EventCodec) (p : PortData) (e : PushedEvent)
    (grown : Bool) (ha : Answer h.Fresh copy) :
    ∃ es cap, (pushOutputEvent codec h p e grown copy).2.1 =
      { p with pendingEvents := es, pendingEventsCapacity := cap } := by
  rcases pendingEventAppend_cases (p := p) e grown ha with ⟨cap, hr⟩ | ⟨h', cap, data, hr, hd⟩
  · rw [pushOutputEvent, hr]
    exact ⟨_, _, rfl⟩
  · rw [pushOutputEvent, hr]
    dsimp only
    split
    · exact ⟨_, _, rfl⟩
    · exact ⟨_, _, rfl⟩

end Frame

end TinyPipewire.Filter
