import TinyPipewire.Lib.PodBuilder
import TinyPipewire.Lib.PodWalk
import TinyPipewire.Filter.EventDelivery
import Mathlib.Data.List.TakeDrop

/-!
# Events as a control sequence

`pwf_filter_event_encode` and `pwf_filter_event_decode`, over a POD builder and the
walk over a POD's entries. A MIDI or OSC event is a control with a Bytes value, a
property event one with a Props object of a single property.
-/

namespace TinyPipewire.Filter

open Pod

/-! ### SPA's numbers -/

/-- `SPA_TYPE_Bytes`. -/
def spaTypeBytes : UInt32 := 9

/-- `SPA_TYPE_Object`. -/
def spaTypeObject : UInt32 := 15

/-- `SPA_TYPE_Sequence`. -/
def spaTypeSequence : UInt32 := 16

/-- `SPA_TYPE_OBJECT_Props`. -/
def spaTypeObjectProps : UInt32 := 0x40002

/-- `SPA_PARAM_Props`. -/
def spaParamProps : UInt32 := 2

/-- `SPA_CONTROL_Properties`. -/
def spaControlProperties : UInt32 := 1

/-- `SPA_CONTROL_Midi`. -/
def spaControlMidi : UInt32 := 2

/-- `SPA_CONTROL_OSC`. -/
def spaControlOSC : UInt32 := 3

/-- `pwf_property_find_by_id`. -/
def propertyFindById (id : UInt32) : Option PropertyEntry :=
  propertyTable.find? (·.spaPropId == id)

/-- No two properties share a number, or a name. -/
theorem propertyFindById_of_name {key : Option String} {e : PropertyEntry}
    (h : propertyFindByName key = some e) : propertyFindById e.spaPropId = some e := by
  have hall : ∀ e ∈ propertyTable, propertyFindById e.spaPropId = some e := by decide
  obtain ⟨s, -, hs⟩ := Option.bind_eq_some_iff.mp h
  exact hall e (List.mem_of_find?_eq_some hs)

/-! ### `pwf_filter_event_encode` -/

/-- An event with the bytes the builder copies from its pointer: as many as its size has in
32 bits. What would be read past the event's own bytes is zero here. -/
def EventItem.cut (e : EventItem) : EventItem :=
  { e with bytes := e.bytes.takeD (UInt32.ofNat e.size).toNat 0 }

/-- One turn of its loop. -/
def encodeEvent (b : Builder) (e : EventItem) : Builder :=
  match e.kind with
  | .midi => (b.entry e.offset spaControlMidi).value spaTypeBytes e.cut.bytes
  | .osc => (b.entry e.offset spaControlOSC).value spaTypeBytes e.cut.bytes
  | .property =>
    match propertyFindByName e.key with
    | none => b
    | some entry =>
      let object := (b.entry e.offset spaControlProperties).push spaTypeObject
        (word spaTypeObjectProps ++ word spaParamProps)
      ((object.entry entry.spaPropId 0).value spaTypeBytes e.cut.bytes).pop
  | .unknown => b

/-- `pwf_filter_event_encode` of these events into the first `maxsize` bytes of a buffer. -/
def eventEncode (items : List EventItem) (buf : Bytes) (maxsize : UInt32)
    (room : maxsize.toNat ≤ buf.length) : Builder :=
  (items.foldl encodeEvent
    ((Builder.init buf maxsize room).push spaTypeSequence (word 0 ++ word 0))).pop

/-- The dry run: a NULL buffer, of size 0. -/
def eventEncodedSize (items : List EventItem) : UInt32 :=
  (eventEncode items [] 0 (Nat.zero_le _)).offset

/-- What `pwf_filter_event_finish_output` leaves: the heap and the port, the buffer, and the
size it reports. -/
structure EventOutput where
  heap : Heap Bytes
  port : PortData
  data : Bytes
  size : UInt32

/-- `pwf_filter_event_finish_output`. -/
def eventFinishOutput (h : Heap Bytes) (p : PortData) (buf : Bytes) (maxsize : UInt32)
    (room : maxsize.toNat ≤ buf.length) : EventOutput :=
  let b := eventEncode (p.pendingEvents.map (·.item h)) buf maxsize room
  ⟨(eventClearPending h p).1, (eventClearPending h p).2, b.data, b.offset⟩

/-! ### `pwf_filter_event_decode` -/

/-- `spa_pod_is_object_type`. -/
def isObjectType (v : Value) (type : UInt32) : Bool :=
  v.type == spaTypeObject && decide (8 ≤ v.body.length) && wordAt v.body 0 == type

/-- `spa_pod_is_sequence`. -/
def isSequence (v : Value) : Bool := v.type == spaTypeSequence && decide (8 ≤ v.body.length)

/-- The events of one control. -/
def controlEvents (c : Entry) : List DecodedEvent :=
  if c.second = spaControlMidi ∨ c.second = spaControlOSC then
    if c.value.type = spaTypeBytes then
      [⟨c.first, if c.second = spaControlMidi then .midi else .osc, none, c.value.start,
        c.value.body.length⟩]
    else []
  else if c.second = spaControlProperties then
    if isObjectType c.value spaTypeObjectProps then
      c.value.entries.filterMap fun p => (propertyFindById p.first).map fun entry =>
        ⟨c.first, .property, some entry.name, p.value.start, p.value.body.length⟩
    else []
  else [⟨c.first, .unknown, none, c.value.start, c.value.body.length⟩]

/-- The events `pwf_filter_event_decode` finds in the first `size` bytes of a block. -/
def decodeEvents (content : Bytes) (size : ℕ) : List DecodedEvent :=
  if size < 8 then []
  else
    match read 0 (content.take size) with
    | none => []
    | some pod => if isSequence pod then pod.entries.flatMap controlEvents else []

/-- The controls `SPA_POD_SEQUENCE_FOREACH` visits in the first `size` bytes of a block. -/
def sequenceControls (content : Bytes) (size : ℕ) : List Entry :=
  if size < 8 then []
  else
    match read 0 (content.take size) with
    | none => []
    | some pod => if isSequence pod then pod.entries else []

theorem decodeEvents_controls (content : Bytes) (size : ℕ) :
    decodeEvents content size = (sequenceControls content size).flatMap controlEvents := by
  unfold decodeEvents sequenceControls
  split
  · rfl
  · cases read 0 (content.take size) with
    | none => rfl
    | some pod => cases h : isSequence pod <;> simp [h]

/-- The codec of `pwf_filter_event.c`: encoding writes what the dry run asks room for. -/
def controlCodec : EventCodec where
  decode := decodeEvents
  encode items :=
    (eventEncode items (List.replicate (eventEncodedSize items).toNat 0) (eventEncodedSize items)
      (by simp)).data

/-! ### The sequence of a list of events -/

/-- The control of one event. An event no push accepts has none. -/
def EventItem.control (e : EventItem) : Option Item :=
  match e.kind with
  | .midi => some ⟨e.offset, spaControlMidi, spaTypeBytes, e.bytes⟩
  | .osc => some ⟨e.offset, spaControlOSC, spaTypeBytes, e.bytes⟩
  | .property => (propertyFindByName e.key).map fun entry =>
      ⟨e.offset, spaControlProperties, spaTypeObject,
        container spaTypeObjectProps spaParamProps [⟨entry.spaPropId, 0, spaTypeBytes, e.bytes⟩]⟩
  | .unknown => none

/-- The control sequence of these events, in full. -/
def eventSequence (items : List EventItem) : Bytes :=
  encode spaTypeSequence (container 0 0 (items.filterMap EventItem.control))

/-- The bytes an event with a payload of `n` takes in a sequence. -/
def controlSize (kind : EventKind) (key : Option String) (n : ℕ) : ℕ :=
  match kind with
  | .midi | .osc => roundUp (16 + n)
  | .property => if (propertyFindByName key).isSome then 24 + roundUp (16 + n) else 0
  | .unknown => 0

/-- The exact size of the control sequence of these events, with their payloads in full. -/
def sequenceSize (items : List EventItem) : ℕ :=
  16 + (items.map fun e => controlSize e.kind e.key e.size).sum

/-- An event as a push that was accepted stages it. -/
structure EventItem.Accepted (e : EventItem) : Prop where
  valid : eventKindKeyValid e.kind e.key = true
  size : e.bytes.length = e.size

/-! ### The encoder writes the sequence -/

section Encode

variable {b b' : Builder} {e : EventItem} {items : List EventItem} {bs : Bytes}

/-- The controls of a list of events, as bytes. -/
def controlBytes (items : List EventItem) : Bytes :=
  (items.filterMap EventItem.control).flatMap Item.bytes

theorem controlBytes_cons :
    controlBytes (e :: items) = e.control.toList.flatMap Item.bytes ++ controlBytes items := by
  cases hc : e.control <;> simp [controlBytes, hc]

theorem control_length : (e.control.toList.flatMap Item.bytes).length =
    controlSize e.kind e.key e.bytes.length := by
  cases hk : e.kind with
  | midi | osc => simp [EventItem.control, controlSize, hk]
  | unknown => simp [EventItem.control, controlSize, hk]
  | property =>
    cases hf : propertyFindByName e.key with
    | none => simp [EventItem.control, controlSize, hk, hf]
    | some entry =>
      have hround : roundUp (16 + (8 + roundUp (16 + e.bytes.length))) =
          24 + roundUp (16 + e.bytes.length) := by
        simp only [roundUp, padding]
        omega
      simp [EventItem.control, controlSize, hk, hf, container_length, hround]

theorem controlBytes_length : (controlBytes items).length =
    (items.map fun e => controlSize e.kind e.key e.bytes.length).sum := by
  induction items with
  | nil => rfl
  | cons e items ih =>
    rw [controlBytes_cons, List.length_append, control_length, ih, List.map_cons, List.sum_cons]

theorem eventSequence_controls :
    (eventSequence items).length = 16 + (controlBytes items).length := by
  rw [eventSequence, encode_length, container_length, controlBytes]
  omega

/-- A header for the sequence, and the controls. -/
theorem eventSequence_length (hs : ∀ e ∈ items, e.bytes.length = e.size) :
    (eventSequence items).length = sequenceSize items := by
  rw [eventSequence_controls, controlBytes_length, sequenceSize]
  congr 2
  apply List.map_congr_left
  intro e he
  rw [hs e he]

theorem controlSize_mod (kind : EventKind) (key : Option String) (n : ℕ) :
    controlSize kind key (n % 2 ^ 32) ≡ controlSize kind key n [MOD 2 ^ 32] := by
  have hround : roundUp (16 + n % 2 ^ 32) ≡ roundUp (16 + n) [MOD 2 ^ 32] := by
    simp only [Nat.ModEq, roundUp, padding]
    omega
  cases kind with
  | midi | osc => exact hround
  | property =>
    simp only [controlSize]
    split
    · exact hround.add_left 24
    · rfl
  | unknown => rfl

/-- Of a payload that does not fit 32 bits the encoder copies a part, and in 32 bits the sizes
are those of the whole. -/
theorem eventSequence_cut :
    (eventSequence (items.map EventItem.cut)).length ≡ sequenceSize items [MOD 2 ^ 32] := by
  rw [eventSequence_controls, controlBytes_length, sequenceSize, List.map_map]
  apply Nat.ModEq.add_left
  induction items with
  | nil => rfl
  | cons e items ih =>
    have hlen : e.cut.bytes.length = e.size % 2 ^ 32 := by
      rw [EventItem.cut, List.takeD_length, UInt32.toNat_ofNat']
    have hhead : controlSize e.kind e.key e.cut.bytes.length ≡
        controlSize e.kind e.key e.size [MOD 2 ^ 32] := by
      rw [hlen]
      exact controlSize_mod e.kind e.key e.size
    exact hhead.add ih

/-- One turn of the encoder's loop writes the event's control. -/
theorem encodeEvent_wrote (ha : b.offset.toNat % 8 = 0) :
    b.Wrote (encodeEvent b e) (e.cut.control.toList.flatMap Item.bytes) := by
  have hkind : e.cut.kind = e.kind := rfl
  have hkey : e.cut.key = e.key := rfl
  have hoffset : e.cut.offset = e.offset := rfl
  cases hk : e.kind with
  | midi | osc =>
    simp only [encodeEvent, EventItem.control, hkind, hk, hoffset]
    simpa using Builder.entry_value_wrote
  | unknown =>
    simp only [encodeEvent, EventItem.control, hkind, hk]
    exact Builder.Wrote.refl
  | property =>
    cases hf : propertyFindByName e.key with
    | none =>
      simp only [encodeEvent, EventItem.control, hkind, hk, hkey, hf]
      exact Builder.Wrote.refl
    | some entry =>
      simp only [encodeEvent, EventItem.control, hkind, hk, hkey, hf, hoffset, Option.map_some,
        Option.toList_some, List.flatMap_singleton, container]
      exact Builder.entry_pop_wrote ha Builder.entry_value_wrote

/-- The loop writes the controls of all events. -/
theorem encodeEvents_wrote (ha : b.offset.toNat % 8 = 0) :
    b.Wrote (items.foldl encodeEvent b) (controlBytes (items.map EventItem.cut)) := by
  induction items generalizing b with
  | nil => exact Builder.Wrote.refl
  | cons e items ih =>
    have he : b.Wrote (encodeEvent b e) (e.cut.control.toList.flatMap Item.bytes) :=
      encodeEvent_wrote ha
    rw [List.map_cons, controlBytes_cons]
    exact he.trans (ih (he.aligned ha flatMap_bytes_mod))

theorem eventSequence_mod : (eventSequence items).length % 8 = 0 := by
  have hb : (controlBytes items).length % 8 = 0 := flatMap_bytes_mod
  rw [eventSequence, encode_length, container_length]
  change (8 + (8 + (controlBytes items).length)) % 8 = 0
  omega

/-- The encoder writes the sequence of the events, of each the bytes it copies. -/
theorem eventEncode_wrote (items : List EventItem) {buf : Bytes} {maxsize : UInt32}
    (room : maxsize.toNat ≤ buf.length) :
    (Builder.init buf maxsize room).Wrote (eventEncode items buf maxsize room)
      (eventSequence (items.map EventItem.cut)) := by
  have hpush : ((Builder.init buf maxsize room).push spaTypeSequence
      (word 0 ++ word 0)).offset.toNat % 8 = 0 := by
    change ((0 : UInt32) + 16).toNat % 8 = 0
    decide
  have hinit : (Builder.init buf maxsize room).offset.toNat % 8 = 0 := rfl
  have hloop : Builder.Wrote _ _ (controlBytes (items.map EventItem.cut)) :=
    encodeEvents_wrote hpush
  have hmod : (eventSequence (items.map EventItem.cut)).length % 8 = 0 := eventSequence_mod
  rw [← padded_eq hmod]
  exact hloop.pop hinit

/-- The reported size is the size of the sequence in 32 bits. -/
theorem eventEncode_offset {buf : Bytes} {maxsize : UInt32} (room : maxsize.toNat ≤ buf.length) :
    (eventEncode items buf maxsize room).offset =
      .ofNat (eventSequence (items.map EventItem.cut)).length := by
  rw [(eventEncode_wrote items room).offset]
  exact UInt32.zero_add _

/-- The dry run has the exact size in 32 bits. -/
theorem eventEncodedSize_eq : eventEncodedSize items = .ofNat (sequenceSize items) := by
  apply UInt32.toNat_inj.mp
  rw [eventEncodedSize, eventEncode_offset, UInt32.toNat_ofNat', UInt32.toNat_ofNat']
  exact eventSequence_cut

theorem controlCodec_length : (controlCodec.encode items).length = sequenceSize items % 2 ^ 32 := by
  have hl : (controlCodec.encode items).length = (eventEncodedSize items).toNat := by
    have room : (eventEncodedSize items).toNat ≤
        (List.replicate (eventEncodedSize items).toNat (0 : UInt8)).length := by simp
    rw [controlCodec, (eventEncode_wrote items room).length]
    simp [Builder.init]
  rw [hl, eventEncodedSize_eq, UInt32.toNat_ofNat']

/-- A sequence that fits is written to the start of the buffer. -/
theorem eventEncode_fits (items : List EventItem) {buf : Bytes} {maxsize : UInt32}
    (room : maxsize.toNat ≤ buf.length)
    (hfit : (eventSequence (items.map EventItem.cut)).length ≤ maxsize.toNat) :
    (eventEncode items buf maxsize room).data =
        write buf 0 (eventSequence (items.map EventItem.cut)) ∧
      (eventEncode items buf maxsize room).offset.toNat =
        (eventSequence (items.map EventItem.cut)).length :=
  (eventEncode_wrote items room).of_init hfit

end Encode

/-! ### The decoder finds the events of the sequence -/

/-- A decoded event by value. -/
def DecodedEvent.item (content : Bytes) (e : DecodedEvent) : EventItem :=
  ⟨e.offset, e.kind, e.key, e.size, (content.drop e.start).take e.size⟩

section Decode

variable {content rest : Bytes} {c : Entry} {v : Value} {e : EventItem} {items : List EventItem}

/-- The event of a value that stands in the block. -/
theorem item_of_prefix {offset : UInt32} {kind : EventKind} {key : Option String}
    (hv : v.body <+: content.drop v.start) :
    DecodedEvent.item content ⟨offset, kind, key, v.start, v.body.length⟩ =
      ⟨offset, kind, key, v.body.length, v.body⟩ := by
  rw [DecodedEvent.item, ← List.prefix_iff_eq_take.mp hv]

theorem isObjectType_container {type id : UInt32} {es : List Item} (ht : v.type = spaTypeObject)
    (hb : v.body = container type id es) : isObjectType v type = true := by
  have hlen : 8 ≤ v.body.length := by
    rw [hb, container_length]
    omega
  have hword : wordAt v.body 0 = type := by
    rw [hb, container, List.append_assoc, wordAt_word]
  simp [isObjectType, ht, hlen, hword]

/-- A control decodes to the event it was made of. -/
theorem controlEvents_item (ha : e.Accepted) (hv : c.value.body <+: content.drop c.value.start)
    (hsize : e.size < 2 ^ 32) (hc : e.control = some c.item) :
    (controlEvents c).map (DecodedEvent.item content) = [e] := by
  obtain ⟨offset, kind, key, size, bytes⟩ := e
  have hvalid : eventKindKeyValid kind key = true := ha.valid
  have hlen : bytes.length = size := ha.size
  subst hlen
  cases kind with
  | midi | osc =>
    obtain rfl : key = none := by simpa [eventKindKeyValid] using hvalid
    simp only [EventItem.control, Entry.item, Option.some.injEq, Item.mk.injEq] at hc
    obtain ⟨rfl, hsecond, htype, rfl⟩ := hc
    rw [controlEvents, ← hsecond, ← htype]
    simp [spaControlMidi, spaControlOSC, item_of_prefix hv]
  | property =>
    obtain ⟨entry, hf⟩ := Option.isSome_iff_exists.mp hvalid
    simp only [EventItem.control, hf, Entry.item, Option.map_some, Option.some.injEq,
      Item.mk.injEq] at hc
    obtain ⟨rfl, hsecond, htype, hbody⟩ := hc
    have hprops : c.value.entries.map Entry.item = [⟨entry.spaPropId, 0, spaTypeBytes, bytes⟩] := by
      apply Value.entries_container hbody.symm
      simpa using hsize
    obtain ⟨p, hp, hitem⟩ := List.map_eq_singleton_iff.mp hprops
    simp only [Entry.item, Item.mk.injEq] at hitem
    obtain ⟨hfirst, -, -, rfl⟩ := hitem
    have hstands : p.value.body <+: content.drop p.value.start :=
      Value.entries_prefix hv p (by simp [hp])
    have hobject : isObjectType c.value spaTypeObjectProps = true :=
      isObjectType_container htype.symm hbody.symm
    have hid : propertyFindById p.first = some entry := by
      rw [hfirst]
      exact propertyFindById_of_name hf
    rw [controlEvents, ← hsecond, hobject, hp]
    simp [spaControlMidi, spaControlOSC, spaControlProperties, hid, item_of_prefix hstands,
      propertyFindByName_name hf]
  | unknown => simp [eventKindKeyValid] at hvalid

/-- Every accepted event has a control. -/
theorem control_isSome (ha : e.Accepted) : ∃ d, e.control = some d := by
  have hvalid := ha.valid
  cases hk : e.kind with
  | midi | osc => exact ⟨_, by rw [EventItem.control, hk]⟩
  | property =>
    rw [hk] at hvalid
    obtain ⟨entry, hf⟩ := Option.isSome_iff_exists.mp hvalid
    exact ⟨_, by rw [EventItem.control, hk, hf]; rfl⟩
  | unknown => simp [hk, eventKindKeyValid] at hvalid

/-- The controls of accepted events decode to the events. -/
theorem controlsEvents_items {cs : List Entry} (ha : ∀ e ∈ items, e.Accepted)
    (hsize : ∀ e ∈ items, e.size < 2 ^ 32)
    (hv : ∀ c ∈ cs, c.value.body <+: content.drop c.value.start)
    (hc : cs.map Entry.item = items.filterMap EventItem.control) :
    (cs.flatMap controlEvents).map (DecodedEvent.item content) = items := by
  induction items generalizing cs with
  | nil =>
    have hcs : cs = [] := by simpa using hc
    rw [hcs]
    rfl
  | cons e items ih =>
    obtain ⟨d, hd⟩ := control_isSome (ha e List.mem_cons_self)
    rw [List.filterMap_cons_some hd] at hc
    obtain ⟨c, cs', rfl, rfl, htail⟩ := List.map_eq_cons_iff.mp hc
    have hhead := controlEvents_item (ha e List.mem_cons_self) (hv c List.mem_cons_self)
      (hsize e List.mem_cons_self) hd
    have hrest := ih (fun e he => ha e (List.mem_cons_of_mem _ he))
      (fun e he => hsize e (List.mem_cons_of_mem _ he))
      (fun c hc => hv c (List.mem_cons_of_mem _ hc)) htail
    rw [List.flatMap_cons, List.map_append, hhead, hrest]
    rfl

theorem size_le_control {d : Item} (ha : e.Accepted) (hd : e.control = some d) :
    e.size ≤ d.body.length := by
  have hlen := ha.size
  cases hk : e.kind with
  | midi | osc =>
    simp only [EventItem.control, hk, Option.some.injEq] at hd
    rw [← hd, hlen]
  | property =>
    cases hf : propertyFindByName e.key with
    | none => simp [EventItem.control, hk, hf] at hd
    | some entry =>
      simp only [EventItem.control, hk, hf, Option.map_some, Option.some.injEq] at hd
      rw [← hd, container_length, List.flatMap_singleton, Item.bytes_length, roundUp, hlen]
      omega
  | unknown => simp [EventItem.control, hk] at hd

theorem control_lt_sequence {d : Item} (hd : d ∈ items.filterMap EventItem.control) :
    d.body.length < (eventSequence items).length := by
  have hle := lays_bytes.body_length d hd
  rw [eventSequence, encode_length, container_length]
  omega

theorem size_lt_sequence (ha : ∀ e ∈ items, e.Accepted) (he : e ∈ items) :
    e.size < (eventSequence items).length := by
  obtain ⟨d, hd⟩ := control_isSome (ha e he)
  have hle := size_le_control (ha e he) hd
  have hlt : d.body.length < (eventSequence items).length :=
    control_lt_sequence (List.mem_filterMap.mpr ⟨e, he, hd⟩)
  omega

/-- A control that is visited is an entry of the pod the bytes start with. -/
theorem mem_sequenceControls {size : ℕ} (hc : c ∈ sequenceControls content size) :
    ∃ pod, read 0 (content.take size) = some pod ∧ c ∈ pod.entries := by
  unfold sequenceControls at hc
  split at hc
  · simp at hc
  · cases hr : read 0 (content.take size) with
    | none => simp [hr] at hc
    | some pod =>
      cases hs : isSequence pod with
      | false => simp [hr, hs] at hc
      | true => exact ⟨pod, rfl, by simpa [hr, hs] using hc⟩

/-- What a control holds stands in the block where it says. -/
theorem sequenceControls_prefix {size : ℕ} :
    ∀ c ∈ sequenceControls content size, c.value.body <+: content.drop c.value.start := by
  intro c hc
  obtain ⟨pod, hr, hc⟩ := mem_sequenceControls hc
  have hbytes : content.take size <+: content.drop 0 := List.take_prefix _ _
  have hpod : pod.body <+: content.drop pod.start := read_prefix hbytes hr
  exact Value.entries_prefix hpod c hc

/-- The controls of the sequence are those it was made of. -/
theorem sequenceControls_sequence (hsize : (eventSequence items).length < 2 ^ 32)
    (hc : content.take (eventSequence items).length = eventSequence items) :
    (sequenceControls content (eventSequence items).length).map Entry.item =
      items.filterMap EventItem.control := by
  let body := container 0 0 (items.filterMap EventItem.control)
  have hlen : (eventSequence items).length = 8 + body.length := encode_length
  have hbody : 8 ≤ body.length := by
    change 8 ≤ (container 0 0 (items.filterMap EventItem.control)).length
    rw [container_length]
    omega
  have hread : read 0 (eventSequence items) = some ⟨spaTypeSequence, 8, body⟩ := by
    have hr : read 0 (encode spaTypeSequence body ++ []) = some ⟨spaTypeSequence, 8, body⟩ :=
      read_encode (by omega)
    rwa [List.append_nil] at hr
  have hseq : isSequence ⟨spaTypeSequence, 8, body⟩ = true := by simp [isSequence, hbody]
  rw [sequenceControls, if_neg (by omega), hc, hread]
  simp only [hseq, if_true]
  apply Value.entries_container rfl
  intro d hd
  have hlt := control_lt_sequence hd
  omega

/-- The sequence of accepted events decodes to the events. -/
theorem decodeEvents_sequence (ha : ∀ e ∈ items, e.Accepted)
    (hsize : (eventSequence items).length < 2 ^ 32)
    (hc : content.take (eventSequence items).length = eventSequence items) :
    (decodeEvents content (eventSequence items).length).map (DecodedEvent.item content) =
      items := by
  rw [decodeEvents_controls]
  apply controlsEvents_items ha _ sequenceControls_prefix (sequenceControls_sequence hsize hc)
  intro e he
  have hlt := size_lt_sequence ha he
  omega

end Decode

/-! ### What is published is what is read -/

/-- A dequeued buffer whose first block has this content, and this size in its chunk. -/
def PwBuffer.Carries (b : PwBuffer) (content : Bytes) (size : UInt32) : Prop :=
  ∃ d ds base c, b.buffer.datas = d :: ds ∧ d.content = content ∧ d.data = some base ∧
    d.chunk = some c ∧ c.size = size

section RoundTrip

variable {cfg : PortConfig} {h : Heap Bytes} {p : PortData} {es : List PushedEvent}
  {items : List EventItem}

theorem item_accepted {e : PushedEvent} (he : pushEventAccepts cfg e = true) :
    e.item.Accepted := by
  simp only [pushEventAccepts, Bool.and_eq_true, Bool.not_eq_true'] at he
  exact ⟨he.2, Source.bytes_length he.1.2⟩

theorem cut_eq {e : EventItem} (hs : e.bytes.length = e.size) (hsize : e.size < 2 ^ 32) :
    e.cut = e := by
  have hn : (UInt32.ofNat e.size).toNat = e.bytes.length := by
    rw [UInt32.toNat_ofNat', hs]
    exact Nat.mod_eq_of_lt hsize
  rw [EventItem.cut, hn, List.takeD_eq_take 0 (Nat.le_refl _), List.take_length]

theorem map_cut (ha : ∀ e ∈ items, e.Accepted) (hsize : (eventSequence items).length < 2 ^ 32) :
    items.map EventItem.cut = items := by
  have hcut : ∀ e ∈ items, e.cut = id e := by
    intro e he
    have hlt := size_lt_sequence ha he
    exact cut_eq (ha e he).size (by omega)
  rw [List.map_congr_left hcut, List.map_id]

/-- An event the decoder found is what the callback reads at its pointer. -/
theorem event_item_of_block {b : PwBuffer} {d : SpaData} {ds : List SpaData} {base : ℕ}
    (hb : b.buffer.datas = d :: ds) (hbase : d.data = some base) (e : DecodedEvent) :
    (e.event b.buffer.pool base).item h (some b) = e.item d.content := by
  simp [DecodedEvent.event, Event.item, DecodedEvent.item, bytesAt, SpaBuffer.bytesFrom, hb, hbase]

/-- Where no allocation fails, the callback reads the events decoded from the block. -/
theorem eventDecode_items {b : PwBuffer} {content : Bytes} {size : UInt32} {grow : ℕ → Bool}
    (hg : ∀ k, grow k = true) (hb : b.Carries content size) :
    (eventDecode controlCodec p b grow).incomingEvents.map (·.item h (some b)) =
      (decodeEvents content size.toNat).map (DecodedEvent.item content) := by
  obtain ⟨d, ds, base, c, hds, rfl, hbase, hc, rfl⟩ := hb
  have hevents : (decodedEvents controlCodec b).map (·.item h (some b)) =
      (decodeEvents d.content c.size.toNat).map (DecodedEvent.item d.content) := by
    simp only [decodedEvents, hds, hc, hbase, controlCodec, Option.map_some, Option.getD_some,
      List.map_map]
    apply List.map_congr_left
    intro e _
    exact event_item_of_block hds hbase e
  rw [eventDecode, incomingEventsAppend_all hg]
  simpa [clearIncoming] using hevents

/-- Staged events whose sequence fits the buffer are published in full. -/
theorem finishOutput_full (hitems : ∀ e ∈ items, e.Accepted)
    (hq : p.pendingEvents.map (·.item h) = items) {buf : Bytes} {maxsize : UInt32}
    (room : maxsize.toNat ≤ buf.length) (hfit : sequenceSize items ≤ maxsize.toNat) :
    let out := eventFinishOutput h p buf maxsize room
    out.data = write buf 0 (eventSequence items) ∧
      out.size.toNat = (eventSequence items).length ∧
      (decodeEvents out.data out.size.toNat).map (DecodedEvent.item out.data) = items := by
  intro out
  have hlen := eventSequence_length fun e he => (hitems e he).size
  have hlt : (eventSequence items).length < 2 ^ 32 := by
    have hmax := maxsize.toNat_lt
    omega
  have hcut := map_cut hitems hlt
  subst hq
  obtain ⟨hdata, hsize⟩ := eventEncode_fits (p.pendingEvents.map (·.item h)) room (by
    rw [hcut]
    omega)
  rw [hcut] at hdata hsize
  refine ⟨hdata, hsize, ?_⟩
  rw [show out.size.toNat = _ from hsize, show out.data = _ from hdata]
  exact decodeEvents_sequence hitems hlt take_write_zero

/-- Events that were accepted and whose sequence fits the buffer: finishing writes exactly the
sequence, decoding what was written gives the events back, in order and by value, also to the
callback of a port that receives the buffer, and the dry run reports the size written. -/
theorem published_events_decode (hes : ∀ e ∈ es, pushEventAccepts cfg e = true)
    (hp : p.pendingEvents.map (·.item h) = es.map PushedEvent.item) {buf : Bytes}
    {maxsize : UInt32} (room : maxsize.toNat ≤ buf.length)
    (hfit : (eventSequence (es.map PushedEvent.item)).length ≤ maxsize.toNat) :
    let out := eventFinishOutput h p buf maxsize room
    out.port.pendingEvents = [] ∧
      out.data = write buf 0 (eventSequence (es.map PushedEvent.item)) ∧
      out.size.toNat = (eventSequence (es.map PushedEvent.item)).length ∧
      (decodeEvents out.data out.size.toNat).map (DecodedEvent.item out.data) =
        es.map PushedEvent.item ∧
      (∀ (q : PortData) (h' : Heap Bytes) (b : PwBuffer) (grow : ℕ → Bool),
        (∀ k, grow k = true) → b.Carries out.data out.size →
        (eventDecode controlCodec q b grow).incomingEvents.map (·.item h' (some b)) =
          es.map PushedEvent.item) ∧
      eventEncodedSize (p.pendingEvents.map (·.item h)) = out.size := by
  intro out
  have ha : ∀ e ∈ es.map PushedEvent.item, e.Accepted := by
    intro e he
    obtain ⟨d, hd, rfl⟩ := List.mem_map.mp he
    exact item_accepted (hes d hd)
  have hlen := eventSequence_length fun e he => (ha e he).size
  obtain ⟨hdata, hsize, hdecode⟩ := finishOutput_full ha hp room (by rwa [hlen] at hfit)
  refine ⟨rfl, hdata, hsize, hdecode, ?_, ?_⟩
  · intro q h' b grow hg hb
    rw [eventDecode_items hg hb]
    exact hdecode
  · change _ = (eventEncode (p.pendingEvents.map (·.item h)) buf maxsize room).offset
    rw [eventEncodedSize, eventEncode_offset, eventEncode_offset]

end RoundTrip

/-- An output event port. -/
def eventOutput : PortConfig := ⟨.output, .event, false, false⟩

/-- A note, an empty message and a property. -/
def performance : List PushedEvent :=
  [noteOn, ⟨20, .osc, none, .ofBytes []⟩, ⟨30, .property, some "volume", .ofBytes [0, 0, 64, 63]⟩]

/-- The three events staged, and the copies of two of them. -/
def performancePort : PortData :=
  { PortData.zeroed with
    pendingEvents := [⟨0, .midi, none, some 0, 3⟩, ⟨20, .osc, none, none, 0⟩,
      ⟨30, .property, some "volume", some 1, 4⟩] }

def performanceHeap : Heap Bytes
  | 0 => some [0x90, 60, 100]
  | 1 => some [0, 0, 64, 63]
  | _ => none

theorem published_events_decode_performance :
    let out := eventFinishOutput performanceHeap performancePort (List.replicate 160 0) 160
      (by simp)
    out.port.pendingEvents = [] ∧
      out.data = write (List.replicate 160 0) 0
        (eventSequence (performance.map PushedEvent.item)) ∧
      out.size.toNat = (eventSequence (performance.map PushedEvent.item)).length ∧
      (decodeEvents out.data out.size.toNat).map (DecodedEvent.item out.data) =
        performance.map PushedEvent.item ∧
      (∀ (q : PortData) (h' : Heap Bytes) (b : PwBuffer) (grow : ℕ → Bool),
        (∀ k, grow k = true) → b.Carries out.data out.size →
        (eventDecode controlCodec q b grow).incomingEvents.map (·.item h' (some b)) =
          performance.map PushedEvent.item) ∧
      eventEncodedSize (performancePort.pendingEvents.map (·.item performanceHeap)) =
        out.size := by
  have hes : ∀ e ∈ performance, pushEventAccepts eventOutput e = true := by decide
  have hfit : (eventSequence (performance.map PushedEvent.item)).length ≤
      UInt32.toNat 160 := by
    rw [eventSequence_length (by decide)]
    decide
  exact published_events_decode hes rfl (by simp) hfit

/-- The sequence takes a header of its own and one for each control. -/
example : (eventSequence (performance.map PushedEvent.item)).length = 104 := by
  rw [eventSequence_length (by decide)]
  rfl

end TinyPipewire.Filter
