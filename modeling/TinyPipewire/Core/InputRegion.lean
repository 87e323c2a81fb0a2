import TinyPipewire.Lib.Region
import TinyPipewire.Filter.EventDecode
import TinyPipewire.Filter.Process
import TinyPipewire.Stream.Capture

/-!
# What an input path hands over of a buffer

A captured buffer goes to the stream's callback, a media port's to the filter's callback,
an event port's to the decoder. Each path takes the pointer and the size out of the first
block itself.
-/

namespace TinyPipewire.Filter

open TinyPipewire.Stream (CaptureStream StreamBuffer ReadFault streamOnProcess)

/-! ### Blocks -/

/-- Where the block is mapped. -/
def SpaData.mapped (d : SpaData) : Option Region :=
  d.data.map fun base => ⟨base, d.maxsize.toNat⟩

/-- The valid part of a mapped block, as its chunk has it; without a chunk nothing is valid. -/
def SpaData.valid (d : SpaData) : Option Region :=
  d.data.map fun base =>
    match d.chunk with
    | some c => ⟨base + c.offset.toNat, c.size.toNat⟩
    | none => ⟨base, 0⟩

/-- The region behind a pointer into a buffer and a size. -/
def regionAt (data : Option Ptr) (size : ℕ) : Option Region :=
  match data with
  | some (.mapped _ addr) => some ⟨addr, size⟩
  | _ => none

/-! ### The three paths -/

/-- The event input branch, from the block to the arguments of `pwf_filter_event_decode`. -/
def eventDecodeRegion (b : PwBuffer) : Except ReadFault (Option Region) :=
  match b.buffer.datas with
  | [] => .error .noBlock
  | d :: _ => .ok (d.data.map fun data => ⟨data, (d.chunk.map fun c => c.size.toNat).getD 0⟩)

/-- A path a dequeued input buffer takes, with the state it is dequeued in. -/
inductive InputPath
  | capture (s : CaptureStream) (retrieves : Bool) (now : UInt64)
  | media (cfg : PortConfig) (p : PortData)
  | event

/-- The region the path hands to the callback, or to the decoder. -/
def InputPath.handed (b : PwBuffer) : InputPath → Except ReadFault (Option Region)
  | .capture s retrieves now =>
    (streamOnProcess s b retrieves now).map fun r => r.2.bind fun buf => regionAt buf.data buf.size
  | .media cfg p =>
    let r := prepareInput cfg p false (some b)
    .ok (if r.origin = .graph then regionAt r.entry.data r.entry.size else none)
  | .event => eventDecodeRegion b

/-- The path reads the first block before it knows that there is one. -/
def InputPath.readsUnchecked : InputPath → Bool
  | .capture s _ _ => !s.useDmabuf
  | .media _ _ => false
  | .event => true

/-- The path hands over memory of a block with this chunk. -/
def InputPath.hands (c : SpaChunk) : InputPath → Bool
  | .capture s _ _ => !s.useDmabuf && decide (c.size > 0) && s.hasDataCb
  | .media cfg _ => !cfg.useDmabuf
  | .event => true

/-- Nothing is read that is not there, and a region that is handed over lies in the mapped
block and is the valid part of it. -/
def InputPath.Exact (path : InputPath) (b : PwBuffer) : Prop :=
  ∃ r, path.handed b = .ok r ∧ ∀ g, r = some g →
    ∃ d block valid, b.buffer.datas.head? = some d ∧ d.mapped = some block ∧
      d.valid = some valid ∧ g.bytes ⊆ block.bytes ∧ g.bytes = valid.bytes

/-- The buffer has a block where the path does not look, and the chunk of a block it hands
over starts with the block and is no larger. -/
def InputPath.Plain (path : InputPath) (b : PwBuffer) : Prop :=
  (path.readsUnchecked = true → b.buffer.datas ≠ []) ∧
    ∀ d c, b.buffer.datas.head? = some d → d.data.isSome = true → d.chunk = some c →
      path.hands c = true → c.size.toNat = 0 ∨ c.offset.toNat = 0 ∧ c.size.toNat ≤ d.maxsize.toNat

section Paths

variable {b : PwBuffer} {d : SpaData} {ds : List SpaData} {path : InputPath}

/-- What a path does with a mapped block: it hands over nothing of it, and then no chunk makes
it do so, or the start of the block and as many bytes as its chunk says. -/
def InputPath.Takes (path : InputPath) (d : SpaData) (r : Option Region) : Prop :=
  (r = none ∧ ∀ c, d.data.isSome = true → d.chunk = some c → path.hands c = false) ∨
    ∃ base, d.data = some base ∧ r = some ⟨base, (d.chunk.map fun c => c.size.toNat).getD 0⟩ ∧
      ∀ c, d.chunk = some c → path.hands c = true

theorem capture_takes {s : CaptureStream} {retrieves : Bool} {now : UInt64}
    (hb : b.buffer.datas = d :: ds) : ∃ r, (InputPath.capture s retrieves now).handed b = .ok r ∧
      (InputPath.capture s retrieves now).Takes d r := by
  by_cases hu : s.useDmabuf = true
  · refine ⟨none, ?_, Or.inl ⟨rfl, fun c _ _ => by simp [InputPath.hands, hu]⟩⟩
    simp only [InputPath.handed, streamOnProcess, hu, if_true]
    split
    · cases hc : s.hasDataCb <;> simp [Except.map, Stream.deliverDmabuf, hc, regionAt]
    · rfl
  · simp only [InputPath.handed, streamOnProcess, hu, hb]
    cases hdata : d.data with
    | none => exact ⟨none, rfl, Or.inl ⟨rfl, fun c hs => by simp [hdata] at hs⟩⟩
    | some base =>
      cases hchunk : d.chunk with
      | none => exact ⟨none, rfl, Or.inl ⟨rfl, fun c _ hc => by simp [hchunk] at hc⟩⟩
      | some c =>
        by_cases hc : c.size > 0 ∧ s.hasDataCb = true
        · refine ⟨some ⟨base, c.size.toNat⟩, by simp [hc, Except.map, regionAt], Or.inr ?_⟩
          refine ⟨base, hdata, by simp [hchunk], ?_⟩
          intro c' hc'
          obtain rfl : c = c' := by simpa [hchunk] using hc'
          simp [InputPath.hands, hu, hc.1, hc.2]
        · refine ⟨none, by simp [hc, Except.map], Or.inl ⟨rfl, ?_⟩⟩
          intro c' _ hc'
          obtain rfl : c = c' := by simpa [hchunk] using hc'
          simpa [InputPath.hands, hu] using hc

theorem media_takes {cfg : PortConfig} {p : PortData} (hb : b.buffer.datas = d :: ds) :
    ∃ r, (InputPath.media cfg p).handed b = .ok r ∧ (InputPath.media cfg p).Takes d r := by
  refine ⟨_, rfl, ?_⟩
  have hstale : (deliverNothing cfg p (some b) (some b)).origin ≠ .graph := by
    unfold deliverNothing
    split <;> simp
  by_cases hu : cfg.useDmabuf = true
  · refine Or.inl ⟨?_, fun c _ _ => by simp [InputPath.hands, hu]⟩
    rcases prepareInput_cases cfg p false (some b) with ⟨hs, -⟩ | ⟨-, b', hb', -, hr⟩ | ⟨-, -, hr⟩
    · simp at hs
    · obtain rfl := Option.some.inj hb'
      rw [hr]
      cases hh : cfg.holdEnabled <;> simp [deliverNew, hh, presentGraph, hu, regionAt]
    · rw [hr, if_neg hstale]
  · cases hdata : d.data with
    | none =>
      refine Or.inl ⟨?_, fun c hs => by simp [hdata] at hs⟩
      have habsent : inputBufferPresent cfg b = false := by
        simp [inputBufferPresent, hb, hu, SpaBuffer.firstData, hdata]
      have hr : prepareInput cfg p false (some b) = deliverNothing cfg p (some b) (some b) := by
        simp [prepareInput, habsent]
      rw [hr, if_neg hstale]
    | some base =>
      refine Or.inr ⟨base, hdata, ?_, fun c _ => by simp [InputPath.hands, hu]⟩
      have hpresent : inputBufferPresent cfg b = true := by
        simp [inputBufferPresent, hb, hu, SpaBuffer.firstData, hdata]
      have hr : prepareInput cfg p false (some b) = deliverNew cfg (presentGraph cfg p b).1
          (presentGraph cfg p b).2 (some b) (some b) .graph := by
        simp [prepareInput, hpresent]
      rw [hr]
      cases hh : cfg.holdEnabled <;>
        simp [deliverNew, hh, presentGraph, hu, regionAt, SpaBuffer.firstData, hb, hdata]

theorem event_takes (hb : b.buffer.datas = d :: ds) :
    ∃ r, InputPath.event.handed b = .ok r ∧ InputPath.event.Takes d r := by
  simp only [InputPath.handed, eventDecodeRegion, hb]
  cases hdata : d.data with
  | none => exact ⟨none, rfl, Or.inl ⟨rfl, fun c hs => by simp [hdata] at hs⟩⟩
  | some base => exact ⟨_, rfl, Or.inr ⟨base, hdata, rfl, fun _ _ => rfl⟩⟩

variable (path) in
theorem handed_takes (hb : b.buffer.datas = d :: ds) :
    ∃ r, path.handed b = .ok r ∧ path.Takes d r := by
  cases path with
  | capture s retrieves now => exact capture_takes hb
  | media cfg p => exact media_takes hb
  | event => exact event_takes hb

variable (path) in
/-- Without a block, a path that does not check faults, and the others hand over nothing. -/
theorem handed_nil (hb : b.buffer.datas = []) :
    path.handed b = if path.readsUnchecked then .error .noBlock else .ok none := by
  cases path with
  | capture s retrieves now =>
    cases hu : s.useDmabuf <;>
      simp [InputPath.handed, InputPath.readsUnchecked, streamOnProcess, hu, hb,
        dmabufBufferPresent, Except.map]
  | media cfg p =>
    have habsent : inputBufferPresent cfg b = false := by simp [inputBufferPresent, hb]
    by_cases hh : cfg.holdEnabled = true ∧ p.hasHeld = true <;>
      simp [InputPath.handed, InputPath.readsUnchecked, prepareInput, habsent, deliverNothing, hh]
  | event => simp [InputPath.handed, InputPath.readsUnchecked, eventDecodeRegion, hb]

/-- The start of a mapped block, with its chunk's size, is the valid part of it and lies in it
exactly where the chunk starts with the block and is no larger. -/
theorem block_start_exact {base : ℕ} (hdata : d.data = some base) :
    (∃ block valid, d.mapped = some block ∧ d.valid = some valid ∧
      (Region.mk base ((d.chunk.map fun c => c.size.toNat).getD 0)).bytes ⊆ block.bytes ∧
      (Region.mk base ((d.chunk.map fun c => c.size.toNat).getD 0)).bytes = valid.bytes) ↔
    ∀ c, d.chunk = some c →
      c.size.toNat = 0 ∨ c.offset.toNat = 0 ∧ c.size.toNat ≤ d.maxsize.toNat := by
  have hmapped : d.mapped = some ⟨base, d.maxsize.toNat⟩ := by rw [SpaData.mapped, hdata]; rfl
  cases hchunk : d.chunk with
  | none =>
    have hvalid : d.valid = some ⟨base, 0⟩ := by rw [SpaData.valid, hdata, hchunk]; rfl
    refine ⟨fun _ c hc => by simp at hc, fun _ => ⟨_, _, hmapped, hvalid, ?_, rfl⟩⟩
    exact Region.subset_iff.mpr (Or.inl rfl)
  | some c =>
    have hvalid : d.valid = some ⟨base + c.offset.toNat, c.size.toNat⟩ := by
      rw [SpaData.valid, hdata, hchunk]
      rfl
    have hsame : (Region.mk base c.size.toNat).bytes =
        (Region.mk (base + c.offset.toNat) c.size.toNat).bytes ↔
          c.size.toNat = 0 ∨ base = base + c.offset.toNat := Region.bytes_eq_iff rfl
    constructor
    · rintro ⟨block, valid, hm, hv, hsub, heq⟩ c' hc'
      obtain rfl := Option.some.inj hc'
      obtain rfl := Option.some.inj (hmapped.symm.trans hm)
      obtain rfl := Option.some.inj (hvalid.symm.trans hv)
      have hwithin := Region.subset_iff.mp hsub
      have hstart := hsame.mp heq
      simp only [Option.map_some, Option.getD_some] at hwithin
      omega
    · intro h
      have hc := h c rfl
      refine ⟨_, _, hmapped, hvalid, Region.subset_iff.mpr ?_, hsame.mpr ?_⟩
      · simp only [Option.map_some, Option.getD_some]
        omega
      · omega

/-- The decoder of an event port that delivers no pushes gets this region. -/
theorem prepareEventInput_decodes {p : PortData} {staged : Bool} (grow : ℕ → Bool)
    (hb : b.buffer.datas = d :: ds)
    (hq : (eventTakeStaged p staged).deliveringEvents = []) :
    ∃ r, InputPath.event.handed b = .ok r ∧
      (prepareEventInput controlCodec p staged (some b) grow).port =
        eventDecodeAt (eventTakeStaged p staged) b.buffer.pool (r.map Region.start) d.content
          ((r.map Region.size).getD 0) grow := by
  simp only [InputPath.handed, eventDecodeRegion, hb]
  refine ⟨_, rfl, ?_⟩
  cases hdata : d.data with
  | none =>
    have hm : mappedBuffer (some b) = none := by
      simp [mappedBuffer, SpaBuffer.firstData, hb, hdata]
    simp [prepareEventInput, hq, hm, eventDecodeAt]
  | some base =>
    have hm : mappedBuffer (some b) = some b := by
      simp [mappedBuffer, SpaBuffer.firstData, hb, hdata]
    simp [prepareEventInput, hq, hm, eventDecode, decodedEvents, eventDecodeAt, controlCodec, hb,
      hdata]

/-- Every event of it points into the region. -/
theorem decoded_in_region {p : PortData} {staged : Bool} {grow : ℕ → Bool} {e : Event}
    (hb : b.buffer.datas = d :: ds) (hq : (eventTakeStaged p staged).deliveringEvents = [])
    (he : e ∈ (prepareEventInput controlCodec p staged (some b) grow).port.incomingEvents) :
    ∃ g, InputPath.event.handed b = .ok (some g) ∧ ∃ start,
      e.data = some (.mapped b.buffer.pool (g.start + start)) ∧ start + e.size ≤ g.size := by
  obtain ⟨r, hr, hport⟩ := prepareEventInput_decodes grow hb hq
  rw [hport] at he
  obtain ⟨base, start, hbase, hdata, hle⟩ := eventDecodeAt_within he
  obtain ⟨g, rfl, rfl⟩ := Option.map_eq_some_iff.mp hbase
  rw [List.length_take] at hle
  exact ⟨g, hr, start, hdata, hle.trans (Nat.min_le_left _ _)⟩

/-- For every path and every buffer: what is handed over is the valid part of the first block,
inside the block, and nothing else is read, exactly where the buffer is plain for the path. -/
theorem handed_region_exact_iff (path : InputPath) (b : PwBuffer) :
    path.Exact b ↔ path.Plain b := by
  cases hb : b.buffer.datas with
  | nil =>
    have hnil := handed_nil path hb
    cases hu : path.readsUnchecked
    · rw [hu, if_neg (by simp)] at hnil
      refine ⟨fun _ => ⟨by simp [hu], by simp [hb]⟩, fun _ => ⟨none, hnil, by simp⟩⟩
    · rw [hu, if_pos rfl] at hnil
      constructor
      · rintro ⟨r, hr, -⟩
        simp [hnil] at hr
      · rintro ⟨hne, -⟩
        exact absurd hb (hne hu)
  | cons d ds =>
    obtain ⟨r, hr, htakes⟩ := handed_takes path hb
    rcases htakes with ⟨rfl, hnone⟩ | ⟨base, hdata, rfl, hhands⟩
    · constructor
      · intro _
        refine ⟨by simp [hb], ?_⟩
        intro d' c hd' hs hc hh
        obtain rfl : d = d' := by simpa [hb] using hd'
        simp [hnone c hs hc] at hh
      · intro _
        exact ⟨none, hr, by simp⟩
    · have hblock := block_start_exact hdata
      constructor
      · rintro ⟨r', hr', hex⟩
        obtain rfl := Except.ok.inj (hr.symm.trans hr')
        obtain ⟨d', block, valid, hd', hmapped, hvalid, hsub, heq⟩ := hex _ rfl
        obtain rfl : d = d' := by simpa [hb] using hd'
        refine ⟨by simp [hb], ?_⟩
        intro d' c hd' hs hc hh
        obtain rfl : d = d' := by simpa [hb] using hd'
        exact hblock.mp ⟨block, valid, hmapped, hvalid, hsub, heq⟩ c hc
      · rintro ⟨-, hplain⟩
        have hchunk := hblock.mpr fun c hc =>
          hplain d c (by simp [hb]) (by simp [hdata]) hc (hhands c hc)
        obtain ⟨block, valid, hmapped, hvalid, hsub, heq⟩ := hchunk
        refine ⟨_, hr, ?_⟩
        rintro g hg
        obtain rfl := Option.some.inj hg
        exact ⟨d, block, valid, by simp [hb], hmapped, hvalid, hsub, heq⟩

end Paths

/-! ### Buffers a peer may write -/

/-- A buffer with one block of 64 bytes, mapped at 4096, and this chunk in it. -/
def peerBuffer (offset size : UInt32) : PwBuffer :=
  ⟨1, 1, [⟨.memFd, 3, 0, 64, some 4096, [], some ⟨offset, size, 0⟩⟩], none⟩

/-- A buffer without blocks. -/
def bareBuffer : PwBuffer := ⟨1, 1, [], none⟩

/-- A capture stream of mapped buffers. -/
def mappedCapture : InputPath := .capture ⟨false, true, none, false, 0, 0⟩ false 0

/-- An input port for signals. -/
def signalPath : InputPath := .media ⟨.input, .signal, false, false⟩ .zeroed

theorem not_exact_of_handed {path : InputPath} {offset size : UInt32}
    (hr : path.handed (peerBuffer offset size) = .ok (some ⟨4096, size.toNat⟩))
    (hs : size.toNat ≠ 0) (h : offset.toNat ≠ 0 ∨ 64 < size.toNat) :
    ¬ path.Exact (peerBuffer offset size) := by
  rintro ⟨r, hr', hex⟩
  obtain rfl := Except.ok.inj (hr.symm.trans hr')
  obtain ⟨d, block, valid, hd, hmapped, hvalid, hsub, heq⟩ := hex _ rfl
  obtain rfl := Option.some.inj hd
  have hplain := (block_start_exact (d := ⟨.memFd, 3, 0, 64, some 4096, [],
    some ⟨offset, size, 0⟩⟩) rfl).mp ⟨block, valid, hmapped, hvalid, hsub, heq⟩ _ rfl
  have hmax : UInt32.toNat 64 = 64 := rfl
  simp only [hmax] at hplain
  omega

/-- A buffer without blocks faults on the capture and the event path; a chunk that starts at 16
is handed over from 0 by all three, and one of 100 bytes past the 64 of its block. -/
theorem handed_region_not_exact :
    ¬ mappedCapture.Exact bareBuffer ∧ ¬ InputPath.event.Exact bareBuffer ∧
      ∀ path ∈ [mappedCapture, signalPath, .event],
        ¬ path.Exact (peerBuffer 16 32) ∧ ¬ path.Exact (peerBuffer 0 100) := by
  refine ⟨?_, ?_, ?_⟩
  · rintro ⟨r, hr, -⟩
    cases hr
  · rintro ⟨r, hr, -⟩
    cases hr
  · intro path hpath
    simp only [List.mem_cons, List.not_mem_nil, or_false] at hpath
    rcases hpath with rfl | rfl | rfl
    · exact ⟨not_exact_of_handed rfl (by decide) (by decide),
        not_exact_of_handed rfl (by decide) (by decide)⟩
    · exact ⟨not_exact_of_handed rfl (by decide) (by decide),
        not_exact_of_handed rfl (by decide) (by decide)⟩
    · exact ⟨not_exact_of_handed rfl (by decide) (by decide),
        not_exact_of_handed rfl (by decide) (by decide)⟩

end TinyPipewire.Filter
