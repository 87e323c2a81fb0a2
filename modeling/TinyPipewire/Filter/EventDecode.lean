import TinyPipewire.Filter.EventCodec

/-!
# Decoding a buffer of the graph

`pwf_filter_event_decode` over bytes another process wrote: its loops end, what it stores stays
inside the buffer, and of a well-formed sequence it stores every event and no other.
-/

namespace TinyPipewire.Filter

open Pod

/-! ### Well-formed sequences -/

/-- How a value is formed: an object has a type and properties, of any other pod there is
nothing to say. -/
inductive Form
  | object (type : UInt32) (properties : List Item)
  | plain

/-- A pod of this type with this body is formed so. -/
inductive Formed : UInt32 → Bytes → Form → Prop
  | object {type id : UInt32} {properties : List Item} {bs : Bytes} : Lays properties bs →
      Formed spaTypeObject (word type ++ word id ++ bs) (.object type properties)
  | plain {type : UInt32} {body : Bytes} : type ≠ spaTypeObject → Formed type body .plain

/-- A control of a well-formed sequence: its offset, its type and its value. -/
structure Control where
  item : Item
  form : Form
  formed : Formed item.type item.body form

/-- The bytes start with the sequence of these controls. -/
def IsSequenceOf (cs : List Control) (bs : Bytes) : Prop :=
  ∃ unit pad body rest, bs = encode spaTypeSequence (word unit ++ word pad ++ body) ++ rest ∧
    8 + body.length < 2 ^ 32 ∧ Lays (cs.map Control.item) body

/-- The bytes start with a Sequence pod that lies inside, and has the two words of one. -/
def StartsSequence (bs : Bytes) : Prop :=
  ∃ body rest, bs = encode spaTypeSequence body ++ rest ∧ 8 ≤ body.length ∧ body.length < 2 ^ 32

/-! ### The events of a control -/

/-- What the type of a control says it holds. -/
inductive ControlKind
  | message (kind : EventKind)
  | properties
  | other

def controlKind (type : UInt32) : ControlKind :=
  if type = spaControlMidi then .message .midi
  else if type = spaControlOSC then .message .osc
  else if type = spaControlProperties then .properties
  else .other

/-- The events a control stands for. -/
def Control.events (c : Control) : List EventItem :=
  match controlKind c.item.second, c.form with
  | .message kind, _ =>
    if c.item.type = spaTypeBytes then
      [⟨c.item.first, kind, none, c.item.body.length, c.item.body⟩]
    else []
  | .properties, .object type properties =>
    if type = spaTypeObjectProps then
      properties.filterMap fun r => (propertyFindById r.first).map fun entry =>
        ⟨c.item.first, .property, some entry.name, r.body.length, r.body⟩
    else []
  | .properties, .plain => []
  | .other, _ => [⟨c.item.first, .unknown, none, c.item.body.length, c.item.body⟩]

/-! ### `pwf_filter_event_decode` -/

/-- `pwf_filter_event_decode` of `size` bytes at a pointer, where `content` is; NULL is `none`. -/
def eventDecodeAt (p : PortData) (pool : ℕ) (data : Option ℕ) (content : Bytes) (size : ℕ)
    (grow : ℕ → Bool) : PortData :=
  match data with
  | none => clearIncoming p
  | some base => incomingEventsAppend (clearIncoming p) grow
      ((decodeEvents content size).map (·.event pool base))

section Decode

variable {content : Bytes} {size : ℕ} {c : Entry} {d : Control}

/-- What a control decodes to is inside its value. -/
theorem controlEvents_within : ∀ e ∈ controlEvents c,
    e.start + e.size ≤ c.value.start + c.value.body.length := by
  intro e he
  unfold controlEvents at he
  split at he
  · split at he
    · simp at he
      rw [he]
    · simp at he
  · split at he
    · split at he
      · obtain ⟨r, hr, he⟩ := List.mem_filterMap.mp he
        obtain ⟨entry, -, rfl⟩ := Option.map_eq_some_iff.mp he
        exact Value.entries_within r hr
      · simp at he
    · simp at he
      rw [he]

theorem sequenceControls_within : ∀ c ∈ sequenceControls content size,
    c.value.start + c.value.body.length ≤ (content.take size).length := by
  intro c hc
  obtain ⟨pod, hr, hc⟩ := mem_sequenceControls hc
  have hpod := read_within hr
  have hle := Value.entries_within c hc
  omega

theorem sequenceControls_small : ∀ c ∈ sequenceControls content size,
    c.value.body.length < 2 ^ 32 := by
  intro c hc
  obtain ⟨pod, -, hc⟩ := mem_sequenceControls hc
  exact Value.entries_small c hc

/-- Every event has its bytes inside the buffer. -/
theorem decodeEvents_within : ∀ e ∈ decodeEvents content size,
    e.start + e.size ≤ (content.take size).length := by
  intro e he
  rw [decodeEvents_controls] at he
  obtain ⟨c, hc, he⟩ := List.mem_flatMap.mp he
  have hcontrol := sequenceControls_within c hc
  have hevent := controlEvents_within e he
  omega

/-- Only a sequence has events. -/
theorem decodeEvents_nil (h : ¬ StartsSequence (content.take size)) :
    decodeEvents content size = [] := by
  unfold decodeEvents
  split
  · rfl
  · cases hr : read 0 (content.take size) with
    | none => rfl
    | some pod =>
      obtain ⟨-, hsmall, rest, hrest⟩ := encode_of_read hr
      have hno : isSequence pod = false := by
        by_contra hs
        simp only [Bool.not_eq_false, isSequence, Bool.and_eq_true, beq_iff_eq,
          decide_eq_true_eq] at hs
        rw [hs.1] at hrest
        exact h ⟨pod.body, rest, hrest, hs.2, hsmall⟩
      simp [hno]

/-- What is formed as an object is read as one, with its properties. -/
theorem Formed.object_entries {v : Value} {type : UInt32} {properties : List Item}
    (h : Formed v.type v.body (.object type properties)) (hsmall : v.body.length < 2 ^ 32) :
    (∀ t, isObjectType v t = decide (type = t)) ∧ v.entries.map Entry.item = properties := by
  generalize ht : v.type = t' at h
  generalize hb : v.body = body at h
  cases h with
  | @object _ id properties bs hlays =>
    have hword : wordAt v.body 0 = type := by
      rw [hb, List.append_assoc, wordAt_word]
    have hlen : 8 ≤ v.body.length := by
      rw [hb, List.length_append, List.length_append, word_length, word_length]
      omega
    have hsize : ∀ r ∈ properties, r.body.length < 2 ^ 32 := by
      intro r hr
      have hle := hlays.body_length r hr
      rw [hb, List.length_append] at hsmall
      omega
    refine ⟨?_, Value.entries_lays hb hlays hsize⟩
    intro t
    simp [isObjectType, ht, hlen, hword, beq_eq_decide]

theorem Formed.plain_type {type : UInt32} {body : Bytes} (h : Formed type body .plain) :
    type ≠ spaTypeObject := by
  cases h with
  | plain hne => exact hne

/-- The properties a Props object is read with are the events it stands for. -/
theorem propertyEvents_item {v : Value} (offset : UInt32) (hv : v.body <+: content.drop v.start) :
    (v.entries.filterMap fun p => (propertyFindById p.first).map fun entry =>
      (⟨offset, .property, some entry.name, p.value.start, p.value.body.length⟩ :
        DecodedEvent)).map (DecodedEvent.item content) =
    (v.entries.map Entry.item).filterMap fun r => (propertyFindById r.first).map fun entry =>
      ⟨offset, .property, some entry.name, r.body.length, r.body⟩ := by
  rw [List.map_filterMap, List.filterMap_map]
  apply List.filterMap_congr
  intro p hp
  have hstands := Value.entries_prefix hv p hp
  cases hf : propertyFindById p.first with
  | none => simp [Entry.item, hf]
  | some entry => simp [Entry.item, hf, item_of_prefix hstands]

/-- The decoder tells the kinds of controls apart. -/
theorem controlEvents_kind : controlEvents c = match controlKind c.second with
    | .message kind =>
      if c.value.type = spaTypeBytes then
        [⟨c.first, kind, none, c.value.start, c.value.body.length⟩]
      else []
    | .properties =>
      if isObjectType c.value spaTypeObjectProps then
        c.value.entries.filterMap fun p => (propertyFindById p.first).map fun entry =>
          ⟨c.first, .property, some entry.name, p.value.start, p.value.body.length⟩
      else []
    | .other => [⟨c.first, .unknown, none, c.value.start, c.value.body.length⟩] := by
  have hne : spaControlOSC ≠ spaControlMidi := by decide
  unfold controlEvents controlKind
  by_cases hmidi : c.second = spaControlMidi
  · simp [hmidi]
  by_cases hosc : c.second = spaControlOSC
  · simp [hosc, hne]
  by_cases hproperties : c.second = spaControlProperties
  · rw [if_neg (not_or.mpr ⟨hmidi, hosc⟩), if_pos hproperties, if_neg hmidi, if_neg hosc,
      if_pos hproperties]
  · rw [if_neg (not_or.mpr ⟨hmidi, hosc⟩), if_neg hproperties, if_neg hmidi, if_neg hosc,
      if_neg hproperties]

/-- A control that reads as a well-formed one decodes to its events. -/
theorem controlEvents_formed (hitem : c.item = d.item) (hsmall : c.value.body.length < 2 ^ 32)
    (hc : c.value.body <+: content.drop c.value.start) :
    (controlEvents c).map (DecodedEvent.item content) = d.events := by
  obtain ⟨item, form, formed⟩ := d
  replace hitem : c.item = item := hitem
  subst hitem
  rw [controlEvents_kind, Control.events]
  simp only [Entry.item] at formed ⊢
  cases controlKind c.second with
  | message kind =>
    by_cases htype : c.value.type = spaTypeBytes
    · simp [htype, item_of_prefix hc]
    · simp [htype]
  | properties =>
    cases form with
    | object type properties =>
      obtain ⟨hobject, hentries⟩ := Formed.object_entries formed hsmall
      dsimp only
      rw [hobject]
      by_cases htype : type = spaTypeObjectProps
      · rw [if_pos htype, if_pos (decide_eq_true htype), propertyEvents_item c.first hc, hentries]
      · rw [if_neg htype, if_neg (by simpa using htype)]
        rfl
    | plain =>
      have hno : isObjectType c.value spaTypeObjectProps = false := by
        have hne : c.value.type ≠ spaTypeObject := Formed.plain_type formed
        simp [isObjectType, hne]
      dsimp only
      rw [hno]
      rfl
  | other =>
    dsimp only
    rw [List.map_singleton, item_of_prefix hc]

/-- The controls of a well-formed sequence are the controls visited. -/
theorem sequenceControls_formed {cs : List Control} (h : IsSequenceOf cs (content.take size)) :
    (sequenceControls content size).map Entry.item = cs.map Control.item := by
  obtain ⟨unit, pad, body, rest, htake, hsmall, hlays⟩ := h
  have hbody : (word unit ++ word pad ++ body).length = 8 + body.length := by
    rw [List.length_append, List.length_append, word_length, word_length]
  have hread : read 0 (content.take size) =
      some ⟨spaTypeSequence, 8, word unit ++ word pad ++ body⟩ := by
    rw [htake]
    exact read_encode (by omega)
  have hsize : ¬ size < 8 := by
    have hlen := congrArg List.length htake
    rw [List.length_append, encode_length, List.length_take] at hlen
    omega
  have hsequence : isSequence ⟨spaTypeSequence, 8, word unit ++ word pad ++ body⟩ = true := by
    simp only [isSequence, hbody]
    simp
  rw [sequenceControls, if_neg hsize, hread]
  simp only [hsequence, if_true]
  apply Value.entries_lays rfl hlays
  intro e he
  have hle := hlays.body_length e he
  omega

theorem controlsEvents_formed {es : List Entry} {cs : List Control}
    (hitems : es.map Entry.item = cs.map Control.item)
    (hsmall : ∀ c ∈ es, c.value.body.length < 2 ^ 32)
    (hstands : ∀ c ∈ es, c.value.body <+: content.drop c.value.start) :
    (es.flatMap controlEvents).map (DecodedEvent.item content) = cs.flatMap Control.events := by
  induction es generalizing cs with
  | nil =>
    have hcs : cs = [] := by simpa using hitems.symm
    rw [hcs]
    rfl
  | cons c es ih =>
    obtain ⟨d, cs', rfl, hitem, htail⟩ := List.map_eq_cons_iff.mp hitems.symm
    obtain ⟨hsmall, hsmall'⟩ := List.forall_mem_cons.mp hsmall
    obtain ⟨hc, hstands'⟩ := List.forall_mem_cons.mp hstands
    rw [List.flatMap_cons, List.map_append, List.flatMap_cons,
      controlEvents_formed hitem.symm hsmall hc, ih htail.symm hsmall' hstands']

/-- A well-formed sequence decodes to the events of its controls. -/
theorem decodeEvents_formed {cs : List Control} (h : IsSequenceOf cs (content.take size)) :
    (decodeEvents content size).map (DecodedEvent.item content) = cs.flatMap Control.events := by
  rw [decodeEvents_controls]
  exact controlsEvents_formed (sequenceControls_formed h) sequenceControls_small
    sequenceControls_prefix

/-- What is stored lies inside the content, as far as its size says. -/
theorem eventDecodeAt_within {p : PortData} {pool : ℕ} {data : Option ℕ} {grow : ℕ → Bool}
    {e : Event} (he : e ∈ (eventDecodeAt p pool data content size grow).incomingEvents) :
    ∃ base start, data = some base ∧ e.data = some (.mapped pool (base + start)) ∧
      start + e.size ≤ (content.take size).length := by
  cases data with
  | none => simp [eventDecodeAt, clearIncoming] at he
  | some base =>
    rcases mem_incomingEventsAppend he with he | he
    · simp [clearIncoming] at he
    · obtain ⟨d, hd, rfl⟩ := List.mem_map.mp he
      exact ⟨base, d.start, rfl, rfl, decodeEvents_within d hd⟩

end Decode

/-- For every pointer, content and size, and whatever `realloc` answers: a loop over the entries
of any value ends, after at most a turn for each sixteen bytes of it; what is stored lies inside
the buffer; without a control sequence nothing is stored; and of a well-formed one, where no
allocation fails, the events of its controls are, in order and by value. -/
theorem eventDecode_events (p : PortData) (pool : ℕ) (data : Option ℕ) (content : Bytes)
    (size : ℕ) (grow : ℕ → Bool) :
    let stored := (eventDecodeAt p pool data content size grow).incomingEvents
    (∀ v : Value, v.Walks v.entries ∧ (∀ ds, v.Walks ds → ds = v.entries) ∧
        16 * v.entries.length ≤ v.body.length) ∧
      (∀ e ∈ stored, ∃ base start, data = some base ∧
        e.data = some (.mapped pool (base + start)) ∧
        start + e.size ≤ (content.take size).length) ∧
      (data = none ∨ ¬ StartsSequence (content.take size) → stored = []) ∧
      ∀ base cs, data = some base → IsSequenceOf cs (content.take size) →
        (∀ k, grow k = true) → ∃ es : List DecodedEvent, stored = es.map (·.event pool base) ∧
          es.map (DecodedEvent.item content) = cs.flatMap Control.events := by
  intro stored
  refine ⟨?_, ?_, ?_, ?_⟩
  · intro v
    exact ⟨Value.walks_iff.mpr rfl, fun ds => Value.walks_iff.mp, Value.entries_length⟩
  · exact fun e he => eventDecodeAt_within he
  · intro hno
    cases data with
    | none => rfl
    | some base =>
      have hnil := decodeEvents_nil (hno.resolve_left (by simp))
      simp [stored, eventDecodeAt, hnil, incomingEventsAppend, clearIncoming]
  · rintro base cs rfl hcs hgrow
    refine ⟨decodeEvents content size, ?_, decodeEvents_formed hcs⟩
    exact incomingEventsAppend_all hgrow _

/-- A note, a property of no entry beside one that has one, and a control of another kind. -/
example : let content := encode spaTypeSequence (container 0 0
      [⟨1, spaControlMidi, spaTypeBytes, [0x90]⟩,
        ⟨2, spaControlProperties, spaTypeObject, container spaTypeObjectProps spaParamProps
          [⟨7, 0, 6, [0, 0, 0, 63]⟩, ⟨0x10004, 0, 2, [1, 0, 0, 0]⟩]⟩,
        ⟨3, 9, 4, [8]⟩])
    (decodeEvents content content.length).map (DecodedEvent.item content) =
      [⟨1, .midi, none, 1, [0x90]⟩, ⟨2, .property, some "mute", 4, [1, 0, 0, 0]⟩,
        ⟨3, .unknown, none, 1, [8]⟩] := by
  decide +kernel

end TinyPipewire.Filter
