import TinyPipewire.Filter.EventCodec
import TinyPipewire.Stream.Playback

/-!
# What an output path publishes

A port of a filter publishes what the callback says it wrote, or the sequence of the
events it pushed; a playback stream publishes its whole cycle. The chunk of the buffer
has 32 bits for the size, and should lie in the block.
-/

namespace TinyPipewire.Filter

variable {n : ℕ} {cfg : Fin n → PortConfig} {s : DataState n} {a : DataAction n} {p : Fin n}

/-- A published chunk, with its block and the size before any cast. -/
structure Published where
  block : SpaData
  chunk : SpaChunk
  size : ℕ

/-- The chunk lies in its block, and its size is the one meant. -/
def Published.Sound (x : Published) : Prop :=
  x.chunk.offset.toNat + x.chunk.size.toNat ≤ x.block.maxsize.toNat ∧
    x.chunk.size.toNat = x.size

instance (x : Published) : Decidable x.Sound := inferInstanceAs (Decidable (_ ∧ _))

/-! ### The events of a cycle -/

/-- The exact size of the sequence of what is pending, with all payloads in full. -/
def PortData.pendingSize (p : PortData) : ℕ :=
  16 + (p.pendingEvents.map fun e => controlSize e.kind e.key e.size).sum

theorem sequenceSize_pending {h : Heap Bytes} {q : PortData} :
    sequenceSize (q.pendingEvents.map (·.item h)) = q.pendingSize := by
  rw [sequenceSize, PortData.pendingSize, List.map_map]
  rfl

/-- In 32 bits what is pending fits the buffer of the cycle, unless nothing is. -/
def PortData.Fits (p : PortData) : Prop :=
  p.pendingEvents = [] ∨ p.pendingSize % 2 ^ 32 ≤ p.eventOutputCapacity

/-- A push is kept only where it fits, in 32 bits. -/
theorem pushOutputEvent_fits {h : Heap Bytes} {q : PortData} (e : PushedEvent) (grown : Bool)
    {copy : Option Loc} (ha : Answer h.Fresh copy) (hq : q.Fits) :
    (pushOutputEvent controlCodec h q e grown copy).2.1.Fits ∧
      (pushOutputEvent controlCodec h q e grown copy).2.1.eventOutputCapacity =
        q.eventOutputCapacity := by
  rcases pendingEventAppend_cases (p := q) e grown ha with ⟨cap, hr⟩ | ⟨h', cap, data, hr, -⟩
  · rw [pushOutputEvent, hr]
    exact ⟨hq, rfl⟩
  · rw [pushOutputEvent, hr]
    dsimp only
    split
    · constructor
      · rcases hq with hq | hq
        · exact Or.inl (by simp [pendingEventPopLast, hq])
        · exact Or.inr (by simpa [pendingEventPopLast, PortData.pendingSize] using hq)
      · rfl
    · rename_i hfit
      refine ⟨Or.inr ?_, rfl⟩
      rw [controlCodec_length] at hfit
      have hsize := sequenceSize_pending (h := h') (q := { q with
        pendingEventsCapacity := cap
        pendingEvents := q.pendingEvents ++ [⟨e.offset, e.kind, stagedKey e, data, e.src.size⟩] })
      rw [hsize] at hfit
      exact Nat.le_of_not_lt hfit

/-! ### The buffer of a cycle -/

/-- The port's cycle writes into the first block of the buffer it dequeued, and its pending
events fit there in 32 bits. -/
structure DataState.OutputInv (cfg : Fin n → PortConfig) (p : Fin n) (s : DataState n) :
    Prop where
  owned : s.Owned
  lock : s.LockInv cfg
  port : s.phase.Within p → ∀ b d, s.dequeued p = some b → b.buffer.datas.head? = some d →
    (s.ports p).eventOutputCapacity = d.maxsize.toNat ∧ (s.ports p).Fits

/-- What works on an output port: a push of an event, or the port's turn of a loop. -/
theorem output_target {codec : EventCodec} (hd : (cfg p).direction = .output)
    (hl : s.LockInv cfg) (he : (dataMachine cfg codec).Enabled s a) (ht : s.target a = some p) :
    (∃ e grown blk, a = .pushOutput p e grown blk) ∨ (∃ dq grow, a = .prepare p dq grow) ∨
      a = .finish p := by
  rcases target_cases ht with ⟨grown, blk, c, rfl, hk⟩ | hrest
  · have hin := (hl.accepted p c hk).2
    simp [hd] at hin
  · exact hrest

/-- The port's turn of the first loop, for an output event port. -/
theorem prepareEventOutput_spec {q : PortData} {dq : Option PwBuffer} {b : PwBuffer} {d : SpaData}
    (hb : (prepareEventOutput q dq).dequeued = some b) (hd : b.buffer.datas.head? = some d) :
    (prepareEventOutput q dq).port.eventOutputCapacity = d.maxsize.toNat ∧
      (prepareEventOutput q dq).port.Fits := by
  unfold prepareEventOutput at hb ⊢
  cases hm : mappedBuffer dq with
  | none => simp [hm] at hb
  | some c =>
    obtain rfl : c = b := by simpa [hm] using hb
    exact ⟨by simp [hd], Or.inl rfl⟩

variable (s) in
/-- The port's turn of the first loop leaves it and its buffer as the output branch does. -/
theorem prepare_output_next (codec : EventCodec) (hm : (cfg p).mediaType = .event)
    (hd : (cfg p).direction = .output) (dq : Option PwBuffer) (grow : ℕ → Bool) :
    (DataState.next cfg codec s (.prepare p dq grow)).ports p =
        (prepareEventOutput (clearDmabuf (s.ports p)) dq).port ∧
      (DataState.next cfg codec s (.prepare p dq grow)).dequeued p =
        (prepareEventOutput (clearDmabuf (s.ports p)) dq).dequeued := by
  have hprep : s.prepared cfg codec p dq grow =
      prepareEventOutput (clearDmabuf (s.ports p)) dq := by
    simp [DataState.prepared, preparePort, hm, hd]
  simp [DataState.next, hprep]

variable (cfg s p) in
theorem pushOutput_next (codec : EventCodec) (e : PushedEvent) (grown : Bool) (blk : Option Loc) :
    (DataState.next cfg codec s (.pushOutput p e grown blk)).ports p =
        (pushOutputEvent codec s.heap (s.ports p) e grown blk).2.1 ∧
      (DataState.next cfg codec s (.pushOutput p e grown blk)).heap =
        (pushOutputEvent codec s.heap (s.ports p) e grown blk).1 := by
  simp [DataState.next, DataState.setPort, DataState.outputPushed]

/-- What does not work on a port leaves its buffer alone. -/
theorem dequeued_other {codec : EventCodec} (ht : s.target a ≠ some p) :
    (DataState.next cfg codec s a).dequeued p = s.dequeued p := by
  apply dequeued_next
  · rintro dq grow rfl
    simp [DataState.target] at ht
  · rintro rfl
    simp [DataState.target] at ht

theorem outputInv_next (hm : (cfg p).mediaType = .event) (hd : (cfg p).direction = .output)
    (he : (dataMachine cfg controlCodec).Enabled s a) (hi : s.OutputInv cfg p) :
    (DataState.next cfg controlCodec s a).OutputInv cfg p := by
  refine ⟨owned_next hi.owned he, lockInv_next he hi.lock, ?_⟩
  intro hw b d hb hbd
  by_cases ht : s.target a = some p
  · rcases output_target hd hi.lock he ht with ⟨e, grown, blk, rfl⟩ | ⟨dq, grow, rfl⟩ | rfl
    · obtain ⟨hcap, hfits⟩ := hi.port hw b d hb hbd
      obtain ⟨hfits', hcap'⟩ := pushOutputEvent_fits e grown he.2.2 hfits
      rw [(pushOutput_next cfg s p controlCodec e grown blk).1, hcap']
      exact ⟨hcap, hfits'⟩
    · obtain ⟨hport, hdeq⟩ := prepare_output_next s controlCodec hm hd dq grow
      rw [hport]
      exact prepareEventOutput_spec (hdeq.symm.trans hb) hbd
    · have hout := (within_next he p).mp hw
      simp at hout
  · have hwithin : s.phase.Within p := (within_other he ht).mp hw
    have hdeq : s.dequeued p = some b := (dequeued_other ht).symm.trans hb
    obtain ⟨hcap, hfits⟩ := hi.port hwithin b d hdeq hbd
    rcases other_port hi.owned he ht with hp | ⟨-, hp⟩ <;> rw [hp]
    · exact ⟨hcap, hfits⟩
    · exact ⟨hcap, hfits⟩

theorem outputInv_init : (DataState.init n).OutputInv cfg p :=
  ⟨owned_init, lockInv_init, fun hw => absurd hw (by simp [DataState.init, Phase.Within])⟩

theorem outputInv_run (hm : (cfg p).mediaType = .event) (hd : (cfg p).direction = .output)
    {xs : List (DataAction n)} (h : (dataMachine cfg controlCodec).Valid (.init n) xs) :
    ((dataMachine cfg controlCodec).exec (.init n) xs).OutputInv cfg p :=
  Machine.invariant (I := fun s => s.OutputInv cfg p) outputInv_init
    (fun _ _ he hi => outputInv_next hm hd he hi) h

/-! ### The chunks of a run -/

/-- What an output port has to publish: the size the callback wrote, or the exact size of the
sequence of the events it pushed. -/
def DataState.outputSize (cfg : Fin n → PortConfig) (s : DataState n) (p : Fin n) : ℕ :=
  if (cfg p).mediaType = .event then (s.ports p).pendingSize else (s.buffers p).size

/-- Where an output port publishes what it should: the callback's size is no larger than the
block, and the events' sequence is below 2^32 bytes, with room for one of none. -/
def DataState.FitsBlock (cfg : Fin n → PortConfig) (s : DataState n) (p : Fin n) (d : SpaData) :
    Prop :=
  if (cfg p).mediaType = .event then
    (s.ports p).pendingSize < 2 ^ 32 ∧ ((s.ports p).pendingEvents = [] → 16 ≤ d.maxsize.toNat)
  else (s.buffers p).size ≤ d.maxsize.toNat

/-- What a port's turn of the last loop publishes has its size cast to 32 bits. -/
theorem queued_chunk (hd : (cfg p).direction = .output) {b : PwBuffer} {c : SpaChunk}
    (hq : .queued p b (some c) ∈ DataState.out cfg controlCodec s (.finish p)) :
    s.dequeued p = some b ∧ c.offset = 0 ∧
      c.size = .ofNat (if (cfg p).mediaType = .event then (s.ports p).pendingSize % 2 ^ 32
        else (s.buffers p).size) := by
  cases hb : s.dequeued p with
  | none => simp [DataState.out, hb] at hq
  | some b' =>
    obtain ⟨rfl, hc⟩ : b = b' ∧ some c = (s.finished cfg controlCodec p).2.2 := by
      simpa [DataState.out, hb] using hq
    refine ⟨rfl, ?_⟩
    replace hc := hc.symm
    by_cases hm : (cfg p).mediaType = .event
    · simp only [DataState.finished, finishPort, hm, hd, hb, if_true, Option.bind_some, publish,
        controlCodec_length, sequenceSize_pending, Option.map_eq_some_iff] at hc
      obtain ⟨-, -, rfl⟩ := hc
      simp [hm]
    · simp only [DataState.finished, finishPort, hm, hd, hb, if_false, Option.bind_some, publish,
        Option.map_eq_some_iff] at hc
      obtain ⟨-, -, rfl⟩ := hc
      simp [hm]

/-- A cast to 32 bits keeps what fits 32 bits. -/
theorem ofNat_sound_iff {m : ℕ} {k : UInt32} :
    (UInt32.ofNat m).toNat ≤ k.toNat ∧ (UInt32.ofNat m).toNat = m ↔ m ≤ k.toNat := by
  have hk := k.toNat_lt
  rw [UInt32.toNat_ofNat']
  omega

/-- The bytes a playback cycle has to publish, in exact numbers: what the device asked for, as
far as the block has room, or the whole block. -/
def playbackSizeMeant (s : Stream.PlaybackStream) (d : SpaData) (requested : UInt64) : ℕ :=
  if 0 < requested ∧ 0 < s.bytesPerFrame then
    min (requested.toNat * s.bytesPerFrame.toNat) d.maxsize.toNat
  else d.maxsize.toNat

/-- What the device asks for is below 2^64 bytes, or fills the block with what 64 bits keep of
it. -/
def PlaybackFits (s : Stream.PlaybackStream) (d : SpaData) (requested : UInt64) : Prop :=
  requested.toNat * s.bytesPerFrame.toNat < 2 ^ 64 ∨
    d.maxsize.toNat ≤ requested.toNat * s.bytesPerFrame.toNat % 2 ^ 64

/-- The product a playback cycle computes has 64 bits. -/
theorem playbackAvailable_eq (s : Stream.PlaybackStream) (d : SpaData) (requested : UInt64) :
    (Stream.playbackAvailable s d.maxsize requested).toNat =
      if 0 < requested ∧ 0 < s.bytesPerFrame then
        min (requested.toNat * s.bytesPerFrame.toNat % 2 ^ 64) d.maxsize.toNat
      else d.maxsize.toNat := by
  unfold Stream.playbackAvailable
  by_cases hasked : 0 < requested ∧ 0 < s.bytesPerFrame
  · rw [if_pos hasked]
    by_cases hless : requested * s.bytesPerFrame < d.maxsize.toUInt64
    · rw [if_pos ⟨hasked.1, hasked.2, hless⟩, UInt64.toNat_mul]
      have hlt := UInt64.lt_iff_toNat_lt.mp hless
      rw [UInt64.toNat_mul, UInt32.toNat_toUInt64] at hlt
      omega
    · rw [if_neg fun h => hless h.2.2, UInt32.toNat_toUInt64]
      have hle := UInt64.le_iff_toNat_le.mp (UInt64.not_lt.mp hless)
      rw [UInt64.toNat_mul, UInt32.toNat_toUInt64] at hle
      omega
  · rw [if_neg hasked, if_neg fun h => hasked ⟨h.1, h.2.1⟩, UInt32.toNat_toUInt64]

/-- What 64 bits keep of the size is the size exactly where the cycle fits them. -/
theorem playbackAvailable_eq_meant_iff (s : Stream.PlaybackStream) (d : SpaData)
    (requested : UInt64) :
    (Stream.playbackAvailable s d.maxsize requested).toNat = playbackSizeMeant s d requested ↔
      PlaybackFits s d requested := by
  have hmax := d.maxsize.toNat_lt
  rw [playbackAvailable_eq, playbackSizeMeant, PlaybackFits]
  by_cases hasked : 0 < requested ∧ 0 < s.bytesPerFrame
  · rw [if_pos hasked, if_pos hasked]
    generalize requested.toNat * s.bytesPerFrame.toNat = wanted
    omega
  · rw [if_neg hasked, if_neg hasked]
    have hzero : requested.toNat * s.bytesPerFrame.toNat = 0 := by
      rw [Nat.mul_eq_zero]
      rcases not_and_or.mp hasked with h | h
      · left
        simpa [UInt64.lt_iff_toNat_lt] using h
      · right
        simpa [UInt64.lt_iff_toNat_lt] using h
    rw [hzero]
    exact ⟨fun _ => Or.inl (by omega), fun _ => rfl⟩

/-- In a cycle of a playback stream the chunk lies in its block, and is sound exactly where the
cycle fits 64 bits. -/
theorem playback_sound_iff {s : Stream.PlaybackStream} {d : SpaData} {requested : UInt64}
    {clock : Stream.PlaybackClock} {callback : Stream.PlaybackBuffer → Stream.PlaybackAnswer}
    {buf : Stream.PlaybackBuffer} {c : SpaChunk}
    (hcall : (Stream.onProcessPlayback s d requested clock callback).called = some buf)
    (hc : (Stream.onProcessPlayback s d requested clock callback).block.chunk = some c) :
    Published.Sound ⟨d, c, playbackSizeMeant s d requested⟩ ↔ PlaybackFits s d requested := by
  rcases Stream.onProcessPlayback_cases s d requested clock callback with
    ⟨hnone, -⟩ | ⟨data, content, hsome, hblock⟩
  · simp [hnone] at hcall
  · rw [hblock] at hc
    obtain rfl := Option.some.inj hc
    have hle := Stream.playbackAvailable_le s d.maxsize requested
    have hlt := d.maxsize.toNat_lt
    have hcast : (Stream.playbackAvailable s d.maxsize requested).toUInt32.toNat =
        (Stream.playbackAvailable s d.maxsize requested).toNat := by
      rw [UInt64.toNat_toUInt32]
      exact Nat.mod_eq_of_lt (by omega)
    rw [← playbackAvailable_eq_meant_iff]
    constructor
    · rintro ⟨-, hsize⟩
      exact hcast.symm.trans hsize
    · intro hsize
      exact ⟨by simpa [hcast] using hle, hcast.trans hsize⟩

/-- In every run, the chunk an output port publishes lies in its block and has the size meant
exactly where what there is to publish fits the block as the port's state has it; the chunk
of a playback stream does exactly where what the device asks for fits 64 bits. -/
theorem published_chunk_sound_iff {xs : List (DataAction n)}
    (h : (dataMachine cfg controlCodec).Valid (.init n) xs) :
    let M := dataMachine cfg controlCodec
    let t := M.exec (.init n) xs
    (∀ p b c d, (cfg p).direction = .output → M.Enabled t (.finish p) →
        .queued p b (some c) ∈ M.out t (.finish p) → b.buffer.datas.head? = some d →
        (Published.Sound ⟨d, c, t.outputSize cfg p⟩ ↔ t.FitsBlock cfg p d)) ∧
      ∀ s d requested clock callback buf c,
        (Stream.onProcessPlayback s d requested clock callback).called = some buf →
        (Stream.onProcessPlayback s d requested clock callback).block.chunk = some c →
        (Published.Sound ⟨d, c, playbackSizeMeant s d requested⟩ ↔
          PlaybackFits s d requested) := by
  intro M t
  refine ⟨?_, fun _ _ _ _ _ _ _ hcall hc => playback_sound_iff hcall hc⟩
  intro p b c d hd he hq hbd
  obtain ⟨hb, hoffset, hsize⟩ := queued_chunk hd hq
  simp only [Published.Sound, DataState.outputSize, DataState.FitsBlock, hoffset, hsize]
  by_cases hm : (cfg p).mediaType = .event
  · have hi : t.OutputInv cfg p := outputInv_run hm hd h
    have hw : t.phase.Within p := by
      have hphase : t.phase = .finishing p := he
      rw [hphase]
      exact Nat.le_refl _
    obtain ⟨hcap, hfits⟩ := hi.port hw b d hb hbd
    have hempty : (t.ports p).pendingEvents = [] → (t.ports p).pendingSize = 16 := by
      intro hp
      simp [PortData.pendingSize, hp]
    simp only [hm, if_true, UInt32.toNat_ofNat', UInt32.toNat_zero, Nat.zero_add, Nat.mod_mod]
    constructor
    · rintro ⟨hle, heq⟩
      refine ⟨by omega, fun hp => ?_⟩
      have := hempty hp
      omega
    · rintro ⟨hlt, hroom⟩
      rw [Nat.mod_eq_of_lt hlt]
      refine ⟨?_, rfl⟩
      rcases hfits with hp | hfits
      · rw [hempty hp]
        exact hroom hp
      · rw [Nat.mod_eq_of_lt hlt, hcap] at hfits
        exact hfits
  · simp only [hm, if_false, UInt32.toNat_zero, Nat.zero_add]
    exact ofNat_sound_iff

/-! ### Runs -/

/-- An output port for signals. -/
def signalOutput : PortConfig := ⟨.output, .signal, false, false⟩

/-- A buffer with one block of `maxsize` bytes. -/
def outputBuffer (maxsize : UInt32) : PwBuffer :=
  ⟨1, 1, [⟨.memFd, 3, 0, maxsize, some 4096, [], some ⟨0, 0, 0⟩⟩], none⟩

/-- A cycle in which the callback gets a buffer and writes `size`. -/
def outputRun (b : PwBuffer) (size : ℕ) : List (DataAction 1) :=
  [.beginCycle true true, .prepare onePort (some b) (fun _ => true), .enterCallback,
    .setSize onePort size, .leaveCallback]

theorem published_chunk_sound_in_block :
    let M := dataMachine (fun _ : Fin 1 => signalOutput) controlCodec
    let t := M.exec (.init 1) (outputRun (outputBuffer 64) 48)
    (∀ p b c d, signalOutput.direction = .output → M.Enabled t (.finish p) →
        .queued p b (some c) ∈ M.out t (.finish p) → b.buffer.datas.head? = some d →
        (Published.Sound ⟨d, c, t.outputSize (fun _ => signalOutput) p⟩ ↔
          t.FitsBlock (fun _ => signalOutput) p d)) ∧
      ∀ s d requested clock callback buf c,
        (Stream.onProcessPlayback s d requested clock callback).called = some buf →
        (Stream.onProcessPlayback s d requested clock callback).block.chunk = some c →
        (Published.Sound ⟨d, c, playbackSizeMeant s d requested⟩ ↔
          PlaybackFits s d requested) :=
  published_chunk_sound_iff (by decide)

/-- A stream with four bytes a frame. -/
def stereoPlayback : Stream.PlaybackStream := ⟨4, 48000, true, 0, 0, 0, 0⟩

/-- A callback that writes 65 for a block of 64 bytes gets a chunk of 65 bytes published, and a
cycle without events one of 16 bytes on a block of 8. A device that asks for 2^62 + 1 frames of
a block of 64 bytes gets one frame. -/
theorem published_chunk_overruns :
    (let M := dataMachine (fun _ : Fin 1 => signalOutput) controlCodec
      let t := M.exec (.init 1) (outputRun (outputBuffer 64) 65)
      M.Valid (.init 1) (outputRun (outputBuffer 64) 65) ∧ M.Enabled t (.finish onePort) ∧
        ∃ b c d, .queued onePort b (some c) ∈ M.out t (.finish onePort) ∧
          b.buffer.datas.head? = some d ∧
          ¬ Published.Sound ⟨d, c, t.outputSize (fun _ => signalOutput) onePort⟩) ∧
      (let M := dataMachine (fun _ : Fin 1 => eventOutput) controlCodec
        let t := M.exec (.init 1) (outputRun (outputBuffer 8) 0)
        M.Valid (.init 1) (outputRun (outputBuffer 8) 0) ∧ M.Enabled t (.finish onePort) ∧
          ∃ b c d, .queued onePort b (some c) ∈ M.out t (.finish onePort) ∧
            b.buffer.datas.head? = some d ∧
            ¬ Published.Sound ⟨d, c, t.outputSize (fun _ => eventOutput) onePort⟩) ∧
        ∃ d buf c,
          let r := Stream.onProcessPlayback stereoPlayback d (2 ^ 62 + 1) ⟨0, 0, 0, 0⟩
            fun _ => ⟨[], 0⟩
          r.called = some buf ∧ r.block.chunk = some c ∧ c.size = 4 ∧ d.maxsize = 64 ∧
            ¬ Published.Sound ⟨d, c, playbackSizeMeant stereoPlayback d (2 ^ 62 + 1)⟩ := by
  refine ⟨⟨by decide, rfl, outputBuffer 64, ⟨0, 65, 0⟩, _, ?_, rfl, by decide⟩,
    ⟨by decide, rfl, outputBuffer 8, ⟨0, 16, 0⟩, _, ?_, rfl, by decide⟩, ?_⟩
  · exact List.Mem.head _
  · exact List.Mem.head _
  · refine ⟨⟨.memFd, 3, 0, 64, some 4096, [], some ⟨0, 0, 0⟩⟩, ⟨4096, 4, 0⟩, ⟨0, 4, 4⟩, ?_⟩
    decide +kernel

end TinyPipewire.Filter
