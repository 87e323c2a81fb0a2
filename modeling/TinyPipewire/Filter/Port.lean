import TinyPipewire.Lib.Heap
import TinyPipewire.Types

/-!
# Filter ports

The data half of `struct pwf_filter_port`: what pushes stage, what the data
thread delivers and what hold retains. Its link half is in `Filter.Link`.
-/

namespace TinyPipewire.Filter

/-- `enum pwf_filter_port_direction`. -/
inductive PortDirection
  | input
  | output
  deriving DecidableEq, Repr

/-- `enum pwf_event_kind`. -/
inductive EventKind
  | midi
  | osc
  | property
  | unknown
  deriving DecidableEq, Repr

/-- What is settled before `pwf_filter_start` and never changes after it. -/
structure PortConfig where
  direction : PortDirection
  mediaType : DataType
  useDmabuf : Bool
  holdEnabled : Bool
  deriving DecidableEq, Repr

/-- What a data pointer handed to the callback points to: a heap block of the
library, or memory PipeWire mapped for a buffer of one of the port's pools. -/
inductive Ptr
  | block (l : Loc)
  | mapped (pool : Nat) (addr : Nat)
  deriving DecidableEq, Repr

/-! ### Buffers of the graph -/

/-- `enum spa_data_type`. -/
inductive SpaDataType
  | invalid
  | memPtr
  | memFd
  | dmaBuf
  | memId
  | syncObj
  deriving DecidableEq, Repr

structure SpaChunk where
  offset : UInt32
  size : UInt32
  stride : Int32
  deriving DecidableEq

/-- `struct spa_data`. `data` is the address PipeWire mapped the block at, `none`
for a NULL pointer, and `content` what the block holds while it is dequeued. -/
structure SpaData where
  type : SpaDataType
  fd : Int64
  mapoffset : UInt32
  maxsize : UInt32
  data : Option Nat
  content : Bytes
  chunk : Option SpaChunk
  deriving DecidableEq

/-- `struct spa_buffer`, with the pool it was allocated for; `pts` is the one of its
`SPA_META_Header`, when it has that metadata. -/
structure SpaBuffer where
  pool : Nat
  datas : List SpaData
  pts : Option Int
  deriving DecidableEq

/-- `struct pw_buffer`. -/
structure PwBuffer where
  id : Nat
  buffer : SpaBuffer
  deriving DecidableEq

/-- `b->buffer->datas[0].data`. A buffer with no block at all counts as NULL. -/
def SpaBuffer.firstData (b : SpaBuffer) : Option Ptr :=
  b.datas.head?.bind fun d => d.data.map (.mapped b.pool)

/-- `pwf_dmabuf_buffer_present`. -/
def dmabufBufferPresent (b : SpaBuffer) : Bool :=
  match b.datas with
  | [] => false
  | d :: _ => d.type == .dmaBuf

/-- `pwf_filter_buffer_pts`. -/
def bufferPts (b : PwBuffer) : Int := b.buffer.pts.getD (-1)

/-- `pwf_filter_input_buffer_present`, for a buffer that was dequeued. -/
def inputBufferPresent (cfg : PortConfig) (b : PwBuffer) : Bool :=
  if b.buffer.datas.isEmpty then false
  else if cfg.useDmabuf then dmabufBufferPresent b.buffer
  else b.buffer.firstData.isSome

/-! ### Events -/

/-- `struct pwf_event`, as it stands in `incoming_events`. -/
structure Event where
  offset : UInt32
  kind : EventKind
  key : Option String
  data : Option Ptr
  size : Nat
  deriving DecidableEq, Repr

/-- `struct pwf_filter_pending_event`; `data` is the owned copy. -/
structure PendingEvent where
  offset : UInt32
  kind : EventKind
  key : Option String
  data : Option Loc
  size : Nat
  deriving DecidableEq, Repr

/-- An event by value: what it says, wherever its bytes are. -/
structure EventItem where
  offset : UInt32
  kind : EventKind
  key : Option String
  size : Nat
  bytes : Bytes
  deriving DecidableEq, Repr

structure PropertyEntry where
  name : String
  spaPropId : UInt32
  deriving DecidableEq, Repr

/-- `pwf_property_table`. -/
def propertyTable : List PropertyEntry :=
  [⟨"volume", 0x10003⟩, ⟨"mute", 0x10004⟩, ⟨"channelVolumes", 0x10008⟩]

/-- `pwf_property_find_by_name`. -/
def propertyFindByName (name : Option String) : Option PropertyEntry :=
  name.bind fun s => propertyTable.find? (·.name == s)

/-- `pwf_event_kind_key_valid`. -/
def eventKindKeyValid : EventKind → Option String → Bool
  | .property, key => (propertyFindByName key).isSome
  | .midi, key | .osc, key => key.isNone
  | .unknown, _ => false

theorem propertyFindByName_name {key : Option String} {e : PropertyEntry}
    (h : propertyFindByName key = some e) : key = some e.name := by
  cases key with
  | none => simp [propertyFindByName] at h
  | some s =>
    have hs := List.find?_some (show propertyTable.find? (·.name == s) = some e from h)
    simp_all

/-! ### The port -/

/-- The fields of `struct pwf_filter_port` the data side reads and writes. The two
event arrays are the entries below their counts; their storage is owned by one
field each, and `take_pending` exchanges it. -/
structure PortData where
  pushedData : Option Loc
  pushedSize : Nat
  pushedCapacity : Nat
  pushedPts : Int
  pushedPending : Bool
  deliveredData : Option Loc
  deliveredCapacity : Nat
  incomingEvents : List Event
  incomingEventsCapacity : Nat
  pendingEvents : List PendingEvent
  pendingEventsCapacity : Nat
  eventOutputCapacity : Nat
  deliveringEvents : List PendingEvent
  deliveringEventsCapacity : Nat
  currentDmabufBuf : Option SpaBuffer
  hasHeld : Bool
  held : Option PwBuffer
  heldDmabufBuf : Option SpaBuffer
  heldData : Option Ptr
  heldSize : Nat
  heldPts : Int
  updateSeq : UInt64
  deriving DecidableEq

/-- A port as `pw_filter_add_port` allocates it: every byte zero. -/
def PortData.zeroed : PortData where
  pushedData := none
  pushedSize := 0
  pushedCapacity := 0
  pushedPts := 0
  pushedPending := false
  deliveredData := none
  deliveredCapacity := 0
  incomingEvents := []
  incomingEventsCapacity := 0
  pendingEvents := []
  pendingEventsCapacity := 0
  eventOutputCapacity := 0
  deliveringEvents := []
  deliveringEventsCapacity := 0
  currentDmabufBuf := none
  hasHeld := false
  held := none
  heldDmabufBuf := none
  heldData := none
  heldSize := 0
  heldPts := 0
  updateSeq := 0

/-- `struct pwf_filter_port_buffer`: the port's entry of one cycle. -/
structure PortBuffer where
  data : Option Ptr
  size : Nat
  capacity : Nat
  pts : Int
  fresh : Bool
  seq : UInt64
  deriving DecidableEq, Repr

/-- The entry as the cycle resets it before it looks for data. -/
def PortBuffer.empty : PortBuffer := ⟨none, 0, 0, -1, false, 0⟩

/-! ### Reading through pointers -/

/-- What the buffer's first block holds from a mapped address on. -/
def SpaBuffer.bytesFrom (b : SpaBuffer) (addr : Nat) : Bytes :=
  match b.datas with
  | [] => []
  | d :: _ => d.content.drop (addr - d.data.getD 0)

/-- The first `size` bytes at a pointer: of a heap block, or of the buffer mapped there. -/
def bytesAt (h : Heap Bytes) (b : Option PwBuffer) (p : Option Ptr) (size : Nat) : Bytes :=
  match p with
  | none => []
  | some (.block l) => ((h l).getD []).take size
  | some (.mapped _ addr) => ((b.map (·.buffer.bytesFrom addr)).getD []).take size

/-- A staged event by value. -/
def PendingEvent.item (h : Heap Bytes) (e : PendingEvent) : EventItem :=
  ⟨e.offset, e.kind, e.key, e.size, ((h.load e.data).getD []).take e.size⟩

/-- An incoming event as the callback reads it through its pointers. -/
def Event.item (h : Heap Bytes) (b : Option PwBuffer) (e : Event) : EventItem :=
  ⟨e.offset, e.kind, e.key, e.size, bytesAt h b e.data e.size⟩

/-- The heap blocks one list of staged events owns. -/
def eventBlocks (es : List PendingEvent) : List Loc := es.filterMap (·.data)

/-- Every heap block the port owns. -/
def PortData.blocks (p : PortData) : List Loc :=
  p.pushedData.toList ++ p.deliveredData.toList ++
    (eventBlocks p.pendingEvents ++ eventBlocks p.deliveringEvents)

/-- The port of a filter with one. -/
def onePort : Fin 1 := 0

end TinyPipewire.Filter
