import TinyPipewire.Filter.Push

/-!
# One cycle of `pwf_filter_on_process`, port by port

The two loops of the cycle, one port at a time: what is presented before the callback
and what goes back to PipeWire after it. `pw_filter_dequeue_buffer` answers `dq`.
-/

namespace TinyPipewire.Filter

/-- Where the data a port presents this cycle comes from. -/
inductive Origin
  | pushed
  | graph
  | held
  | nothing
  deriving DecidableEq, Repr

/-- One port's turn of the first loop: the port and its two array entries after it, the
buffer `pw_filter_dequeue_buffer` returned, and the held one given back. -/
structure Prepared where
  port : PortData
  entry : PortBuffer
  dequeued : Option PwBuffer
  took : Option PwBuffer
  released : Option PwBuffer
  origin : Origin

/-- The bytes at the entry's data: a graph buffer behind them is the one hold retains, on
a port that holds, and the cycle's own otherwise. -/
def Prepared.shown (cfg : PortConfig) (h : Heap Bytes) (r : Prepared) : Bytes :=
  bytesAt h (if cfg.holdEnabled then r.port.held else r.dequeued) r.entry.data r.entry.size

/-- `b && b->buffer->datas[0].data`. -/
def mappedBuffer (dq : Option PwBuffer) : Option PwBuffer :=
  dq.filter fun b => b.buffer.firstData.isSome

/-- `port->current_dmabuf_buf = NULL`, at the start of a port's turn. -/
def clearDmabuf (p : PortData) : PortData := { p with currentDmabufBuf := none }

/-- The events of a buffer's first block, each pointing into the block. -/
def decodedEvents (codec : EventCodec) (b : PwBuffer) : List Event :=
  match b.buffer.datas with
  | [] => []
  | d :: _ =>
    (codec.decode d.content ((d.chunk.map fun c => c.size.toNat).getD 0)).map
      (·.event b.buffer.pool (d.data.getD 0))

/-- `pwf_filter_event_decode` on the buffer's first block. -/
def eventDecode (codec : EventCodec) (p : PortData) (b : PwBuffer) (grow : Nat → Bool) :
    PortData :=
  incomingEventsAppend (clearIncoming p) grow (decodedEvents codec b)

/-- The swap of an input event port, made only under the lock and only for something. -/
def eventTakeStaged (p : PortData) (staged : Bool) : PortData :=
  if staged ∧ p.pendingEvents ≠ [] then eventTakePending p else p

/-- The event input branch. -/
def prepareEventInput (codec : EventCodec) (p : PortData) (staged : Bool)
    (dq : Option PwBuffer) (grow : Nat → Bool) : Prepared :=
  let q := eventTakeStaged p staged
  if q.deliveringEvents ≠ [] then
    ⟨eventLoadDelivering q grow, .empty, none, none, none, .pushed⟩
  else
    match mappedBuffer dq with
    | some b => ⟨eventDecode codec q b grow, .empty, some b, dq, none, .graph⟩
    | none => ⟨clearIncoming q, .empty, none, dq, none, .nothing⟩

/-- The event output branch. -/
def prepareEventOutput (p : PortData) (dq : Option PwBuffer) : Prepared :=
  match mappedBuffer dq with
  | some b =>
    let maxsize := (b.buffer.datas.head?.map fun d => d.maxsize.toNat).getD 0
    ⟨{ p with pendingEvents := [], eventOutputCapacity := maxsize }, .empty, some b, dq, none,
      .graph⟩
  | none =>
    ⟨{ p with pendingEvents := [], eventOutputCapacity := 0 }, .empty, none, dq, none, .nothing⟩

/-- The swap that hands the staged push to the data thread. -/
def takePushed (p : PortData) : PortData :=
  { p with
    pushedData := p.deliveredData
    pushedCapacity := p.deliveredCapacity
    deliveredData := p.pushedData
    deliveredCapacity := p.pushedCapacity
    pushedPending := false }

/-- The staged push as the callback sees it. -/
def presentPushed (p : PortData) : PortBuffer :=
  ⟨p.pushedData.map .block, p.pushedSize, 0, p.pushedPts, false, 0⟩

/-- The graph's buffer as the callback sees it: mapped data, or the accessor's frame. -/
def presentGraph (cfg : PortConfig) (p : PortData) (b : PwBuffer) : PortData × PortBuffer :=
  if cfg.useDmabuf then
    -- not CPU-mapped: the callback reaches the frame through the accessor
    ({ p with currentDmabufBuf := some b.buffer }, ⟨none, 0, 0, bufferPts b, false, 0⟩)
  else
    let size := ((b.buffer.datas.head?.bind (·.chunk)).map fun c => c.size.toNat).getD 0
    (p, ⟨b.buffer.firstData, size, 0, bufferPts b, false, 0⟩)

/-- New data: it advances the counter, and hold retains it in place of what it held. -/
def deliverNew (cfg : PortConfig) (p : PortData) (e : PortBuffer) (dequeued took : Option PwBuffer)
    (origin : Origin) : Prepared :=
  let seq := p.updateSeq + 1
  let entry := { e with fresh := true, seq := seq }
  if cfg.holdEnabled then
    ⟨{ p with
        updateSeq := seq, held := dequeued, hasHeld := true, heldData := e.data
        heldSize := e.size, heldPts := e.pts, heldDmabufBuf := p.currentDmabufBuf },
      entry, none, took, p.held, origin⟩
  else ⟨{ p with updateSeq := seq }, entry, dequeued, took, none, origin⟩

/-- No new data: hold presents again what it retained. -/
def deliverNothing (cfg : PortConfig) (p : PortData) (dequeued took : Option PwBuffer) : Prepared :=
  if cfg.holdEnabled ∧ p.hasHeld then
    ⟨{ p with currentDmabufBuf := p.heldDmabufBuf },
      ⟨p.heldData, p.heldSize, 0, p.heldPts, false, p.updateSeq⟩, dequeued, took, none, .held⟩
  else ⟨p, { PortBuffer.empty with seq := p.updateSeq }, dequeued, took, none, .nothing⟩

/-- The audio, video and signal input branch. -/
def prepareInput (cfg : PortConfig) (p : PortData) (staged : Bool) (dq : Option PwBuffer) :
    Prepared :=
  if staged ∧ p.pushedPending then
    deliverNew cfg (takePushed p) (presentPushed p) none none .pushed
  else
    match dq with
    | none => deliverNothing cfg p none none
    | some b =>
      if inputBufferPresent cfg b then
        deliverNew cfg (presentGraph cfg p b).1 (presentGraph cfg p b).2 (some b) (some b) .graph
      else deliverNothing cfg p (some b) (some b)

/-- An input port presents the staged push, a graph buffer that is present, or nothing new. -/
theorem prepareInput_cases (cfg : PortConfig) (p : PortData) (staged : Bool)
    (dq : Option PwBuffer) :
    (staged = true ∧ p.pushedPending = true ∧ prepareInput cfg p staged dq =
        deliverNew cfg (takePushed p) (presentPushed p) none none .pushed) ∨
      (¬(staged = true ∧ p.pushedPending = true) ∧ ∃ b, dq = some b ∧
        inputBufferPresent cfg b = true ∧ prepareInput cfg p staged dq =
          deliverNew cfg (presentGraph cfg p b).1 (presentGraph cfg p b).2 (some b) (some b)
            .graph) ∨
      (¬(staged = true ∧ p.pushedPending = true) ∧
        (∀ b, dq = some b → inputBufferPresent cfg b = false) ∧
        prepareInput cfg p staged dq = deliverNothing cfg p dq dq) := by
  by_cases hs : staged = true ∧ p.pushedPending = true
  · exact Or.inl ⟨hs.1, hs.2, if_pos hs⟩
  · refine Or.inr ?_
    unfold prepareInput
    rw [if_neg hs]
    cases dq with
    | none => exact Or.inr ⟨hs, by simp, rfl⟩
    | some b =>
      by_cases hb : inputBufferPresent cfg b = true
      · exact Or.inl ⟨hs, b, rfl, hb, by simp [hb]⟩
      · exact Or.inr ⟨hs, by simpa using hb, by simp [hb]⟩

/-- The audio, video and signal output branch. -/
def prepareOutput (p : PortData) (dq : Option PwBuffer) : Prepared :=
  match mappedBuffer dq with
  | some b =>
    let maxsize := (b.buffer.datas.head?.map fun d => d.maxsize.toNat).getD 0
    ⟨p, { PortBuffer.empty with data := b.buffer.firstData, capacity := maxsize },
      some b, dq, none, .graph⟩
  | none => ⟨p, .empty, none, dq, none, .nothing⟩

/-- One port's turn of the first loop of `pwf_filter_on_process`. -/
def preparePort (codec : EventCodec) (cfg : PortConfig) (p : PortData) (staged : Bool)
    (dq : Option PwBuffer) (grow : Nat → Bool) : Prepared :=
  if cfg.mediaType = .event then
    match cfg.direction with
    | .input => prepareEventInput codec (clearDmabuf p) staged dq grow
    | .output => prepareEventOutput (clearDmabuf p) dq
  else
    match cfg.direction with
    | .input => prepareInput cfg (clearDmabuf p) staged dq
    | .output => prepareOutput (clearDmabuf p) dq

/-- The kind of port decides whose branch its turn takes. -/
theorem preparePort_kinds (codec : EventCodec) (cfg : PortConfig) (p : PortData)
    (staged : Bool) (dq : Option PwBuffer) (grow : Nat → Bool) :
    (cfg.mediaType = .event ∧ cfg.direction = .input ∧
        preparePort codec cfg p staged dq grow =
          prepareEventInput codec (clearDmabuf p) staged dq grow) ∨
      (cfg.mediaType = .event ∧ cfg.direction = .output ∧
        preparePort codec cfg p staged dq grow = prepareEventOutput (clearDmabuf p) dq) ∨
      (cfg.mediaType ≠ .event ∧ cfg.direction = .input ∧
        preparePort codec cfg p staged dq grow =
          prepareInput cfg (clearDmabuf p) staged dq) ∨
      (cfg.mediaType ≠ .event ∧ cfg.direction = .output ∧
        preparePort codec cfg p staged dq grow = prepareOutput (clearDmabuf p) dq) := by
  by_cases hm : cfg.mediaType = .event <;> cases hd : cfg.direction <;>
    simp [preparePort, hm, hd]

/-- The chunk an output port publishes on the buffer's first block. -/
def publish (b : PwBuffer) (size : Nat) : Option SpaChunk :=
  (b.buffer.datas.head?.bind (·.chunk)).map fun _ => ⟨0, UInt32.ofNat size, 0⟩

/-- One port's turn of the last loop: the heap and the port after it, and the chunk
published on the buffer that goes back, when one does. -/
def finishPort (codec : EventCodec) (cfg : PortConfig) (h : Heap Bytes) (p : PortData)
    (e : PortBuffer) (dequeued : Option PwBuffer) : Heap Bytes × PortData × Option SpaChunk :=
  if cfg.mediaType = .event then
    match cfg.direction with
    | .input => ((eventClearDelivering h p).1, (eventClearDelivering h p).2, none)
    | .output =>
      -- pending_events is encoded before it is freed, and freed either way
      let encoded := (codec.encode (p.pendingEvents.map (·.item h))).length
      ((eventClearPending h p).1, (eventClearPending h p).2,
        dequeued.bind fun b => publish b encoded)
  else
    match cfg.direction with
    | .input => (h, p, none)
    | .output => (h, p, dequeued.bind fun b => publish b e.size)

/-- What `pwf_filter_stop` does to each port's hold once processing is paused. -/
def resetHold (p : PortData) : PortData :=
  { p with
    held := none
    hasHeld := false
    heldData := none
    heldDmabufBuf := none
    currentDmabufBuf := none }

end TinyPipewire.Filter
