import TinyPipewire.Filter.EventPublish

/-!
# A property passed on

An application that echoes what it receives pushes the decoded property unchanged. The decoder
keeps the body of the property's value and not its type, and the encoder writes Bytes.
-/

namespace TinyPipewire.Filter

open Pod

/-- `SPA_TYPE_Float`. -/
def spaTypeFloat : UInt32 := 6

/-! ### The properties of a sequence -/

/-- The properties of one control: those of the Props object it has for a value. -/
def controlProperties (c : Entry) : List Entry :=
  if c.second = spaControlProperties ∧ isObjectType c.value spaTypeObjectProps = true then
    c.value.entries
  else []

/-- A property of a sequence that has an entry in the vocabulary. -/
structure IsProperty (content : Bytes) (size : ℕ) (c r : Entry) (entry : PropertyEntry) :
    Prop where
  control : c ∈ sequenceControls content size
  property : r ∈ controlProperties c
  known : propertyFindById r.first = some entry

/-- The event it is decoded to. -/
def propertyEvent (c r : Entry) (entry : PropertyEntry) : DecodedEvent :=
  ⟨c.first, .property, some entry.name, r.value.start, r.value.body.length⟩

/-- Control `k` of a sequence has a property with this key, and a value of this type and body. -/
def CarriesProperty (content : Bytes) (size k : ℕ) (key type : UInt32) (body : Bytes) : Prop :=
  ∃ r ∈ ((sequenceControls content size)[k]?.map controlProperties).getD [],
    r.first = key ∧ r.value.type = type ∧ r.value.body = body

instance (content : Bytes) (size k : ℕ) (key type : UInt32) (body : Bytes) :
    Decidable (CarriesProperty content size k key type body) :=
  inferInstanceAs (Decidable (∃ r ∈ _, _))

section Decoded

variable {content : Bytes} {size : ℕ} {c r : Entry} {entry : PropertyEntry}

theorem propertyFindById_spec {id : UInt32} (h : propertyFindById id = some entry) :
    entry.spaPropId = id ∧ propertyFindByName (some entry.name) = some entry := by
  have hid := List.find?_some (show propertyTable.find? (·.spaPropId == id) = some entry from h)
  have hnames : ∀ e ∈ propertyTable, propertyFindByName (some e.name) = some e := by decide
  exact ⟨by simpa using hid, hnames entry (List.mem_of_find?_eq_some h)⟩

theorem mem_controlProperties (h : r ∈ controlProperties c) :
    c.second = spaControlProperties ∧ isObjectType c.value spaTypeObjectProps = true ∧
      r ∈ c.value.entries := by
  unfold controlProperties at h
  split at h
  · rename_i hc
    exact ⟨hc.1, hc.2, h⟩
  · simp at h

theorem propertyEvent_decoded (h : IsProperty content size c r entry) :
    propertyEvent c r entry ∈ decodeEvents content size := by
  obtain ⟨hsecond, hobject, hr⟩ := mem_controlProperties h.property
  rw [decodeEvents_controls]
  apply List.mem_flatMap.mpr
  refine ⟨c, h.control, ?_⟩
  simp only [controlEvents, hsecond, hobject, spaControlProperties, spaControlMidi,
    spaControlOSC, if_true]
  apply List.mem_filterMap.mpr
  exact ⟨r, hr, by simp [h.known, propertyEvent]⟩

/-- By value it has the body of the property's value. -/
theorem propertyEvent_item (h : IsProperty content size c r entry) :
    (propertyEvent c r entry).item content =
      ⟨c.first, .property, some entry.name, r.value.body.length, r.value.body⟩ := by
  obtain ⟨-, -, hr⟩ := mem_controlProperties h.property
  have hc := sequenceControls_prefix c h.control
  exact item_of_prefix (Value.entries_prefix hc r hr)

/-- Nothing is wrong with pushing it. -/
theorem propertyEvent_accepts (h : IsProperty content size c r entry) {cfg : PortConfig}
    (hm : cfg.mediaType = .event) {e : PushedEvent}
    (he : e.item = (propertyEvent c r entry).item content) : pushEventAccepts cfg e = true := by
  rw [propertyEvent_item h] at he
  simp only [PushedEvent.item, EventItem.mk.injEq] at he
  obtain ⟨-, hkind, hkey, hsize, hbytes⟩ := he
  have hthere : e.src.missing = false := by
    cases hd : e.src.data with
    | some bs => simp [Source.missing, hd]
    | none =>
      have hnil : r.value.body = [] := by simpa [Source.bytes, hd] using hbytes.symm
      simp [Source.missing, hsize, hnil]
  have hvalid : eventKindKeyValid e.kind e.key = true := by
    rw [hkind, hkey, eventKindKeyValid, (propertyFindById_spec h.known).2]
    rfl
  simp [pushEventAccepts, hm, hthere, hvalid]

end Decoded

/-! ### What is published of it -/

section Published

variable {content : Bytes} {e : EventItem} {items : List EventItem} {k : ℕ}

/-- The controls of accepted events stand where the events do. -/
theorem control_getElem? (ha : ∀ e ∈ items, e.Accepted) (k : ℕ) :
    (items.filterMap EventItem.control)[k]? = items[k]?.bind EventItem.control := by
  induction items generalizing k with
  | nil => simp
  | cons e items ih =>
    obtain ⟨d, hd⟩ := control_isSome (ha e List.mem_cons_self)
    rw [List.filterMap_cons_some hd]
    cases k with
    | zero => simp [hd]
    | succ k => simpa using ih (fun f hf => ha f (List.mem_cons_of_mem e hf)) k

/-- Of a property event a sequence has one property: the key's number, and the event's bytes as
Bytes. -/
theorem carriesProperty_iff (ha : ∀ e ∈ items, e.Accepted)
    (hsize : (eventSequence items).length < 2 ^ 32)
    (hc : content.take (eventSequence items).length = eventSequence items)
    (hk : items[k]? = some e) (hp : e.kind = .property) {entry : PropertyEntry}
    (hf : propertyFindByName e.key = some entry) {key type : UInt32} {body : Bytes} :
    CarriesProperty content (eventSequence items).length k key type body ↔
      entry.spaPropId = key ∧ spaTypeBytes = type ∧ e.bytes = body := by
  have hmem : e ∈ items := List.mem_of_getElem? hk
  have hlt := size_lt_sequence ha hmem
  have hbytes := (ha e hmem).size
  -- the control of the event
  have hcontrol : ((sequenceControls content (eventSequence items).length).map Entry.item)[k]? =
      some ⟨e.offset, spaControlProperties, spaTypeObject,
        container spaTypeObjectProps spaParamProps
          [⟨entry.spaPropId, 0, spaTypeBytes, e.bytes⟩]⟩ := by
    rw [sequenceControls_sequence hsize hc, control_getElem? ha, hk]
    simp [EventItem.control, hp, hf]
  rw [List.getElem?_map] at hcontrol
  obtain ⟨c, hck, hitem⟩ := Option.map_eq_some_iff.mp hcontrol
  simp only [Entry.item, Item.mk.injEq] at hitem
  obtain ⟨-, hsecond, htype, hbody⟩ := hitem
  -- and the one property of it
  have hobject : isObjectType c.value spaTypeObjectProps = true :=
    isObjectType_container htype hbody
  have hentries : c.value.entries.map Entry.item =
      [⟨entry.spaPropId, 0, spaTypeBytes, e.bytes⟩] := by
    apply Value.entries_container hbody
    intro d hd
    obtain rfl := List.mem_singleton.mp hd
    change e.bytes.length < 2 ^ 32
    omega
  obtain ⟨r, hr, hritem⟩ := List.map_eq_singleton_iff.mp hentries
  simp only [Entry.item, Item.mk.injEq] at hritem
  obtain ⟨hfirst, -, hrtype, hrbody⟩ := hritem
  have hprops : controlProperties c = [r] := by
    rw [controlProperties, if_pos ⟨hsecond, hobject⟩, hr]
  rw [← hfirst, ← hrtype, ← hrbody]
  simp [CarriesProperty, hck, hprops]

end Published

/-! ### Received, pushed and published -/

variable {n : ℕ} {cfg : Fin n → PortConfig}

/-- The port's turn of the last loop leaves this property in the block, as control `k`. -/
def DataState.PublishesProperty (t : DataState n) (p : Fin n) (d : SpaData)
    (room : d.maxsize.toNat ≤ d.content.length) (k : ℕ) (key type : UInt32) (body : Bytes) :
    Prop :=
  CarriesProperty (eventFinishOutput t.heap (t.ports p) d.content d.maxsize room).data
    (eventFinishOutput t.heap (t.ports p) d.content d.maxsize room).size.toNat k key type body

instance (t : DataState n) (p : Fin n) (d : SpaData)
    (room : d.maxsize.toNat ≤ d.content.length) (k : ℕ) (key type : UInt32) (body : Bytes) :
    Decidable (t.PublishesProperty p d room k key type body) :=
  inferInstanceAs (Decidable (CarriesProperty _ _ k key type body))

/-- Of a property event among those a cycle accepted, its key and its bytes as Bytes. -/
theorem publishesProperty_iff {s : DataState n} {p : Fin n} {ws : List (DataOut n)}
    (hi : s.PublishInv cfg p ws) (hw : s.phase.Within p) {d : SpaData}
    (room : d.maxsize.toNat ≤ d.content.length)
    (hfit : sequenceSize (cycleEvents p ws) ≤ d.maxsize.toNat) {e : EventItem} {k : ℕ}
    (hk : (cycleEvents p ws)[k]? = some e) (hp : e.kind = .property) {entry : PropertyEntry}
    (hf : propertyFindByName e.key = some entry) {key type : UInt32} {body : Bytes} :
    s.PublishesProperty p d room k key type body ↔
      entry.spaPropId = key ∧ spaTypeBytes = type ∧ e.bytes = body := by
  obtain ⟨hdata, hlen, -⟩ := finishOutput_full hi.accepted (hi.staged hw) room hfit
  have hshort : (eventSequence (cycleEvents p ws)).length < 2 ^ 32 := by
    rw [← hlen]
    exact UInt32.toNat_lt _
  unfold DataState.PublishesProperty
  rw [hlen, hdata]
  exact carriesProperty_iff hi.accepted hshort take_write_zero hk hp hf

/-- In every run of pushes that are measured right: a property that was received and decoded,
and pushed unchanged in a cycle as its `k`th event, is published as control `k` with its key and
its body; with its type of value exactly if that is Bytes. -/
theorem property_type_kept_iff {xs : List (DataAction n)}
    (h : ((dataMachine cfg controlCodec).restrict MeasuresRight).Valid (.init n) xs)
    {content : Bytes} {size : ℕ} {c r : Entry} {entry : PropertyEntry}
    (hr : IsProperty content size c r entry) :
    let M := dataMachine cfg controlCodec
    let t := M.exec (.init n) xs
    let event := (propertyEvent c r entry).item content
    propertyEvent c r entry ∈ decodeEvents content size ∧
      (∀ p e, (cfg p).mediaType = .event → e.item = event →
        pushEventAccepts (cfg p) e = true) ∧
      ∀ p k, (cfg p).mediaType = .event → (cfg p).direction = .output → M.Enabled t (.finish p) →
        (cycleEvents p (M.outs (.init n) xs))[k]? = some event →
        ∃ d, t.outputBlock p = some d ∧ ∀ room : d.maxsize.toNat ≤ d.content.length,
          t.PublishesProperty p d room k r.first spaTypeBytes r.value.body ∧
            (t.PublishesProperty p d room k r.first r.value.type r.value.body ↔
              r.value.type = spaTypeBytes) := by
  intro M t event
  refine ⟨propertyEvent_decoded hr, fun p e hm he => propertyEvent_accepts hr hm he, ?_⟩
  intro p k hm hd he hk
  have hi : t.PublishInv cfg p (M.outs (.init n) xs) := publishInv_run hm hd h
  have hw : t.phase.Within p := finishing_within he
  have hmem := List.mem_of_getElem? hk
  have hsize := (hi.fits hw).resolve_left (List.ne_nil_of_mem hmem)
  obtain ⟨d, hblock, hfit⟩ := outputBlock_of_fits hi.room hw hsize
  refine ⟨d, hblock, ?_⟩
  intro room
  rw [show event = _ from propertyEvent_item hr] at hk
  obtain ⟨hkey, hname⟩ := propertyFindById_spec hr.known
  have hpublished : ∀ type, t.PublishesProperty p d room k r.first type r.value.body ↔
      spaTypeBytes = type := by
    intro type
    rw [publishesProperty_iff hi hw room hfit hk rfl hname]
    simp [hkey]
  refine ⟨(hpublished spaTypeBytes).mpr rfl, ?_⟩
  rw [hpublished]
  exact eq_comm

/-- The float 0.5. -/
def half : Bytes := [0, 0, 0, 63]

/-- The sequence of another client that sets the volume, its control and its property. -/
def volumeSequence : Bytes :=
  encode spaTypeSequence (container 0 0 [⟨5, spaControlProperties, spaTypeObject,
    container spaTypeObjectProps spaParamProps [⟨0x10003, 0, spaTypeFloat, half⟩]⟩])

def volumeControl : Entry :=
  ⟨5, spaControlProperties, ⟨spaTypeObject, 32,
    container spaTypeObjectProps spaParamProps [⟨0x10003, 0, spaTypeFloat, half⟩]⟩⟩

def volumeProperty : Entry := ⟨0x10003, 0, ⟨spaTypeFloat, 56, half⟩⟩

theorem volume_isProperty :
    IsProperty volumeSequence 64 volumeControl volumeProperty ⟨"volume", 0x10003⟩ :=
  ⟨by decide +kernel, by decide +kernel, by decide⟩

/-- The event the callback gets of it, and pushes to its port. -/
def volumeEvent : PushedEvent := ⟨5, .property, some "volume", .ofBytes half⟩

def echoRun : List (DataAction 1) :=
  publishRun ++ [.pushOutput onePort volumeEvent true (some 0), .leaveCallback]

/-- The state at the end of the cycle. -/
abbrev echoing : DataState 1 := eventFilter.exec (.init 1) echoRun

theorem property_type_kept_iff_float :
    ∃ d, echoing.outputBlock onePort = some d ∧ ∀ room : d.maxsize.toNat ≤ d.content.length,
      echoing.PublishesProperty onePort d room 0 0x10003 spaTypeBytes half ∧
        (echoing.PublishesProperty onePort d room 0 0x10003 spaTypeFloat half ↔
          spaTypeFloat = spaTypeBytes) := by
  have hright : (eventFilter.restrict MeasuresRight).Valid (.init 1) echoRun := by decide +kernel
  have hfinish : eventFilter.Enabled echoing (.finish onePort) := by decide +kernel
  have hevents : (cycleEvents onePort (eventFilter.outs (.init 1) echoRun))[0]? =
      some ((propertyEvent volumeControl volumeProperty ⟨"volume", 0x10003⟩).item
        volumeSequence) := by decide +kernel
  exact (property_type_kept_iff hright volume_isProperty).2.2 onePort 0 rfl rfl hfinish hevents

/-- The block of `noteBuffer`. -/
def echoBlock : SpaData := ⟨.memFd, 3, 0, 64, some 4096, List.replicate 64 0, some ⟨0, 0, 0⟩⟩

theorem echoBlock_room : echoBlock.maxsize.toNat ≤ echoBlock.content.length := by decide

/-- A volume that is a Float, as other clients send it, goes out as Bytes. -/
theorem float_volume_changed :
    IsProperty volumeSequence 64 volumeControl volumeProperty ⟨"volume", 0x10003⟩ ∧
      eventFilter.Valid (.init 1) echoRun ∧ eventFilter.Enabled echoing (.finish onePort) ∧
      cycleEvents onePort (eventFilter.outs (.init 1) echoRun) =
        [(propertyEvent volumeControl volumeProperty ⟨"volume", 0x10003⟩).item
          volumeSequence] ∧
      echoing.outputBlock onePort = some echoBlock ∧
      echoing.PublishesProperty onePort echoBlock echoBlock_room 0 0x10003 spaTypeBytes half ∧
      ¬ echoing.PublishesProperty onePort echoBlock echoBlock_room 0 0x10003 spaTypeFloat half := by
  refine ⟨volume_isProperty, ?_⟩
  decide +kernel

end TinyPipewire.Filter
