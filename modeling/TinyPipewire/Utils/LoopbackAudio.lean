import Mathlib.Data.List.Basic
import TinyPipewire.Stream.Silence
import TinyPipewire.Utils.Loopback

/-!
# What the loopback plays

A cycle keeps the whole frames of what `ring_read` copied to it, and loses the rest of a frame.
Silence aside, what goes out is what was captured and fit the ring, in order.
-/

namespace TinyPipewire.Utils

open TinyPipewire.Filter (SpaData)
open TinyPipewire.Stream

variable {o : LoopbackOptions} {s s₀ : Loopback} {a : LoopAction} {xs : List LoopAction}
  {ws : List LoopOut} {es : List (RingStep 64)} {frame : ℕ}

/-- The bytes that `ring_read` returned past the last whole frame of a cycle. -/
def trimmedBytes (frame : ℕ) (es : List (RingEvent 64)) : ℕ :=
  (es.map fun
    | .returned len => len.toNat % frame
    | _ => 0).sum

/-- The frame of the streams. -/
def LoopbackOptions.frameBytes (o : LoopbackOptions) : ℕ :=
  o.bytesPerSample.toInt.toNat * o.channels.toInt.toNat

/-! ### The options -/

theorem checkAudioConfig_format {config : AudioConfig} {f : SpaAudioFormat}
    (h : checkAudioConfig config = .ok f) : f = lookupAudioFormat (config.format.getD "S16") := by
  unfold checkAudioConfig at h
  split at h
  · cases h
  · split at h
    · cases h
    · exact (Except.ok.inj h).symm

theorem loopbackBitDepths_size :
    ∀ d ∈ loopbackBitDepths, ((lookupAudioFormat d.2.1).sampleSize : ℤ) = d.2.2.toInt := by
  decide

/-- The width of a sample in the options is that of the format they name. -/
theorem LoopbackOptions.sampleSize {f : SpaAudioFormat} (h : checkAudioConfig o.config = .ok f) :
    (f.sampleSize : ℤ) = o.bytesPerSample.toInt := by
  have hf : f = lookupAudioFormat (o.audioFormat.getD "S16") := checkAudioConfig_format h
  rw [hf]
  obtain ⟨hformat, hbytes⟩ | ⟨arg, format, hformat, hmem⟩ := o.bits
  · rw [hformat, hbytes]
    exact loopbackBitDepths_size ("16", "S16", 2) (by simp [loopbackBitDepths])
  · rw [hformat]
    exact loopbackBitDepths_size _ hmem

/-- The streams start with the frame of the options, and the ring with a second of them. -/
theorem Loopback.start_ok (h : Loopback.start o = .ok s₀) :
    s₀.ring = .init o.ringCapacity ∧ s₀.turn = none ∧ s₀.playback.hasPlaybackCb = true ∧
      s₀.playback.bytesPerFrame.toNat = o.frameBytes ∧ 0 < o.frameBytes ∧
      o.ringCapacity.toNat = o.sampleRate.toInt.toNat * o.frameBytes ∧
      0 < o.ringCapacity.toNat := by
  unfold Loopback.start at h
  cases hf : checkAudioConfig o.config with
  | error e =>
    rw [hf] at h
    cases h
  | ok f =>
    rw [hf] at h
    have hs := Except.ok.inj h
    have hsize := o.sampleSize hf
    have hrate := checkAudioConfig_rate hf
    obtain ⟨hbytes, hpos⟩ := audioBytesPerFrame_toNat hf
    have hframe : f.sampleSize * o.channels.toInt.toNat = o.frameBytes := by
      rw [LoopbackOptions.frameBytes, ← hsize, Int.toNat_natCast]
    have hbytes' : (audioBytesPerFrame f o.channels).toNat = o.frameBytes := hbytes.trans hframe
    have hpos' : 0 < o.frameBytes := hframe ▸ hpos
    have hrate' : 0 < o.sampleRate.toInt := hrate
    have hchannels : 0 < o.channels.toInt := by
      have hn : 0 < o.channels.toInt.toNat := Nat.pos_of_mul_pos_left hpos
      omega
    have hfour : f.sampleSize ≤ 4 := by cases f <;> simp [SpaAudioFormat.sampleSize]
    have hr := o.sampleRate.toInt_lt
    have hc := o.channels.toInt_lt
    -- no factor is negative, and the product fits 64 bits
    have hcapacity : o.ringCapacity.toNat = o.sampleRate.toInt.toNat * o.frameBytes := by
      obtain ⟨r, hr'⟩ := Int.eq_ofNat_of_zero_le (Int.le_of_lt hrate')
      obtain ⟨c, hc'⟩ := Int.eq_ofNat_of_zero_le (Int.le_of_lt hchannels)
      have hprod : r * (f.sampleSize * c) < 2 ^ 64 := by
        have h1 : f.sampleSize * c ≤ 4 * (2 ^ 31 - 1) := Nat.mul_le_mul hfour (by omega)
        have h2 : r * (f.sampleSize * c) ≤ (2 ^ 31 - 1) * (4 * (2 ^ 31 - 1)) :=
          Nat.mul_le_mul (by omega) h1
        omega
      rw [← hframe, LoopbackOptions.ringCapacity, ← hsize, hr', hc', Int.toNat_natCast,
        Int.toNat_natCast, BitVec.ofInt_natCast, BitVec.ofInt_natCast, BitVec.ofInt_natCast,
        ← BitVec.ofNat_mul, ← BitVec.ofNat_mul, BitVec.toNat_ofNat, Nat.mul_assoc,
        Nat.mul_comm c, Nat.mod_eq_of_lt hprod]
    refine ⟨by rw [← hs], by rw [← hs], by rw [← hs], ?_, hpos', hcapacity, ?_⟩
    · rw [← hs]
      exact hbytes'
    · rw [hcapacity]
      exact Nat.mul_pos (by omega) hpos'

/-! ### The cycle a callback is in -/

/-- What a block that went out holds behind the bytes of the callback. -/
def LoopOut.Cleared : LoopOut → Prop
  | .ring _ => True
  | .played content available size => size.toNat ≤ available.toNat ∧
      (content.drop size.toNat).take (available.toNat - size.toNat) =
        List.replicate (available.toNat - size.toNat) 0

/-- The block is one the callback is called for, with `available` bytes of it. -/
structure PlaybackTurn.Open (p : PlaybackStream) (t : PlaybackTurn) : Prop where
  called : ∃ buf, (onProcessPlayback p t.block t.requested t.clock
    fun _ => ⟨t.block.content, 0⟩).called = some buf ∧ buf.available = t.available
  region : t.block.content.length = t.block.maxsize.toNat

/-- With the bytes of the cycles before, what is read is in the open cycle. -/
def TurnAt (p : PlaybackStream) (reader : RingReader 64) (before read : Bytes) :
    Option PlaybackTurn → Prop
  | none => reader = .idle ∧ read = before
  | some t => t.Open p ∧
    match reader with
    | .idle => False
    | .loaded len _ => len = t.available.toBitVec ∧ read = before
    | .copying _ len i => len.toNat ≤ t.available.toNat ∧ i.toNat ≤ len.toNat ∧
        read = before ++ t.block.content.take i.toNat

/-- What went out are the whole frames of the cycles read before. -/
structure Playing (frame : ℕ) (ws : List LoopOut) (s : Loopback) : Prop where
  positive : 0 < frame
  bytes : s.playback.bytesPerFrame.toNat = frame
  turn : ∃ before, List.Sublist (playedAudio ws) before ∧
    (playedAudio ws).length + trimmedBytes frame (ringTrace ws) = before.length ∧
    TurnAt s.playback s.ring.reader before (readBytes (ringTrace ws)) s.turn
  whole : frame ∣ (playedAudio ws).length
  cleared : ∀ w ∈ ws, w.Cleared

@[simp] theorem trimmedBytes_append (us vs : List (RingEvent 64)) :
    trimmedBytes frame (us ++ vs) = trimmedBytes frame us + trimmedBytes frame vs := by
  simp [trimmedBytes]

/-- The step is one of `ring_write`. -/
def RingStep.isWrite : RingStep 64 → Bool
  | .writeEnter _ | .writeLoad | .storeByte | .writeLeave => true
  | _ => false

/-- A write leaves the reader alone. -/
theorem write_step (frame : ℕ) (r : LoopbackRing 64) {b : RingStep 64} (hb : b.isWrite = true) :
    (r.step b).1.reader = r.reader ∧ (r.step b).1.readPos = r.readPos ∧
      readBytes (r.step b).2 = [] ∧ trimmedBytes frame (r.step b).2 = 0 := by
  cases b with
  | writeEnter src => exact ⟨rfl, rfl, rfl, rfl⟩
  | writeLoad =>
    simp only [LoopbackRing.step, LoopbackRing.writeLoad]
    split <;> exact ⟨rfl, rfl, rfl, rfl⟩
  | storeByte =>
    simp only [LoopbackRing.step, LoopbackRing.storeByte]
    split <;> exact ⟨rfl, rfl, rfl, rfl⟩
  | writeLeave =>
    simp only [LoopbackRing.step, LoopbackRing.writeLeave]
    split <;> exact ⟨rfl, rfl, rfl, rfl⟩
  | readEnter _ | readLoad | readByte | readLeave => cases hb

theorem write_run (frame : ℕ) (r : LoopbackRing 64) (hes : ∀ b ∈ es, b.isWrite = true) :
    ((ringMachine 64).exec r es).reader = r.reader ∧
      readBytes ((ringMachine 64).outs r es) = [] ∧
      trimmedBytes frame ((ringMachine 64).outs r es) = 0 := by
  induction es generalizing r with
  | nil => exact ⟨rfl, rfl, rfl⟩
  | cons b es ih =>
    obtain ⟨hreader, -, hread, htrim⟩ := write_step frame r (hes b (by simp))
    obtain ⟨hreader', hread', htrim'⟩ := ih (r.step b).1 fun c hc => hes c (by simp [hc])
    refine ⟨hreader'.trans hreader, ?_, ?_⟩
    · rw [Machine.outs_cons, readBytes_append]
      exact List.append_eq_nil_iff.mpr ⟨hread, hread'⟩
    · rw [Machine.outs_cons, trimmedBytes_append]
      exact Nat.add_eq_zero_iff.mpr ⟨htrim, htrim'⟩

/-- What the ring shows alone. -/
theorem Playing.ring (h : Playing frame ws s) {es : List (RingEvent 64)} {ring : LoopbackRing 64}
    {turn : Option PlaybackTurn} (htrim : trimmedBytes frame es = 0)
    (hturn : ∀ before, TurnAt s.playback s.ring.reader before (readBytes (ringTrace ws)) s.turn →
      TurnAt s.playback ring.reader before (readBytes (ringTrace ws) ++ readBytes es) turn) :
    Playing frame (ws ++ es.map .ring) { s with ring := ring, turn := turn } := by
  obtain ⟨before, hsub, hlen, hat⟩ := h.turn
  refine ⟨h.positive, h.bytes, ⟨before, ?_, ?_, ?_⟩, ?_, ?_⟩
  · rwa [playedAudio_append, playedAudio_ring, List.append_nil]
  · rw [playedAudio_append, playedAudio_ring, List.append_nil, ringTrace_append, ringTrace_ring,
      trimmedBytes_append, htrim, Nat.add_zero]
    exact hlen
  · rw [ringTrace_append, ringTrace_ring, readBytes_append]
    exact hturn before hat
  · rw [playedAudio_append, playedAudio_ring, List.append_nil]
    exact h.whole
  · intro w hw
    obtain hw | hw := List.mem_append.mp hw
    · exact h.cleared w hw
    · obtain ⟨e, -, rfl⟩ := List.mem_map.mp hw
      trivial

/-- What the writer does leaves the cycle as it is. -/
theorem Playing.write (h : Playing frame ws s) (hes : ∀ b ∈ es, b.isWrite = true) :
    Playing frame (ws ++ ((ringMachine 64).outs s.ring es).map .ring)
      { s with ring := (ringMachine 64).exec s.ring es } := by
  obtain ⟨hreader, hread, htrim⟩ := write_run frame s.ring hes
  refine h.ring htrim ?_
  intro before hturn
  rw [hreader, hread, List.append_nil]
  exact hturn

theorem isWrite_captured (b : TinyPipewire.Filter.PwBuffer) :
    ∀ c ∈ s.onCaptured b, c.isWrite = true := by
  unfold Loopback.onCaptured
  split
  · unfold onAudioCapture
    split
    · intro c hc
      rw [List.mem_singleton.mp hc]
      rfl
    · simp
  · simp

section Reading

variable {d : SpaData} {requested : UInt64} {clock : PlaybackClock} {size : UInt64}
  {callback callback' : PlaybackBuffer → PlaybackAnswer} {p : PlaybackStream} {content : Bytes}
  {t : PlaybackTurn}

/-- Who is called, and for how much, is no matter of what is in the block. -/
theorem called_eq (p : PlaybackStream) (d : SpaData) (content : Bytes) :
    (onProcessPlayback p { d with content := content } requested clock callback).called =
      (onProcessPlayback p d requested clock callback').called := by
  unfold onProcessPlayback
  cases d.data with
  | none => rfl
  | some data =>
    cases d.chunk with
    | none => rfl
    | some chunk =>
      dsimp only
      split <;> rfl

/-- A cycle does not change the frame. -/
theorem bytesPerFrame_cycle (p : PlaybackStream) (d : SpaData) (requested : UInt64)
    (clock : PlaybackClock) (callback : PlaybackBuffer → PlaybackAnswer) :
    (onProcessPlayback p d requested clock callback).stream.bytesPerFrame = p.bytesPerFrame := by
  unfold onProcessPlayback
  split
  · split
    · rfl
    · dsimp only [playbackFill, noteOverrun]
      split <;> rfl
  · rfl

theorem ringAvailable_le (writePos readPos len : BitVec 64) :
    (ringAvailable writePos readPos len).toNat ≤ len.toNat := by
  unfold ringAvailable
  dsimp only
  split
  · rename_i h
    exact Nat.le_of_lt (BitVec.lt_def.mp h)
  · exact Nat.le_refl _

theorem PlaybackTurn.Open.available_le (ht : t.Open p) :
    t.available.toNat ≤ t.block.content.length := by
  obtain ⟨buf, hcalled, havailable⟩ := ht.called
  rw [← havailable, (onProcessPlayback_called hcalled).1, ht.region]
  exact playbackAvailable_le _ _ _

theorem PlaybackTurn.Open.fill (ht : t.Open p) (i : ℕ) (byte : UInt8) :
    PlaybackTurn.Open p
      { t with block := { t.block with content := t.block.content.set i byte } } := by
  obtain ⟨buf, hcalled, havailable⟩ := ht.called
  refine ⟨⟨buf, ?_, havailable⟩, ?_⟩
  · rw [← hcalled]
    exact called_eq p t.block _
  · rw [List.length_set]
    exact ht.region

/-- What goes out of an open cycle of which `ring_read` filled `len` bytes. -/
theorem PlaybackTurn.Open.finish (ht : t.Open p) (hframe : 0 < p.bytesPerFrame.toNat)
    {len : BitVec 64} (hlen : len.toNat ≤ t.available.toNat) :
    let size := playbackSize p t.available (.ofBitVec len)
    let c := onProcessPlayback p t.block t.requested t.clock fun _ =>
      ⟨t.block.content, .ofBitVec len⟩
    size.toNat + len.toNat % p.bytesPerFrame.toNat = len.toNat ∧
      p.bytesPerFrame.toNat ∣ size.toNat ∧
      c.block.content.take size.toNat = t.block.content.take size.toNat ∧
      (LoopOut.played c.block.content t.available size).Cleared := by
  intro size c
  obtain ⟨buf, hcalled, havailable⟩ := ht.called
  have hcalled' : c.called = some buf := by
    rw [← hcalled]
    exact called_eq p t.block t.block.content
  have hcontent : c.block.content = silenceRest t.block.content size t.available := by
    rw [(onProcessPlayback_called hcalled').2.1, havailable]
    rfl
  have hsize : size.toNat = len.toNat / p.bytesPerFrame.toNat * p.bytesPerFrame.toNat := by
    have hn := playbackSize_toNat hframe t.available (.ofBitVec len)
    rw [reportedBytes, Nat.min_eq_left (show (UInt64.ofBitVec len).toNat ≤ _ from hlen)] at hn
    exact hn
  have hle : size.toNat ≤ t.available.toNat := playbackSize_le p t.available (.ofBitVec len)
  obtain ⟨hkept, hzeros, -, -⟩ := silenceRest_spec hle ht.available_le
  refine ⟨?_, ⟨_, hsize.trans (Nat.mul_comm _ _)⟩, ?_, hle, ?_⟩
  · rw [hsize]
    exact Nat.div_add_mod' _ _
  · rw [hcontent, hkept]
  · rw [hcontent, hzeros]

theorem Playing.cycle (h : Playing frame ws s)
    (he : loopMachine.Enabled s (.cycle d requested clock)) :
    Playing frame (ws ++ s.out (.cycle d requested clock)) (s.next (.cycle d requested clock)) := by
  obtain ⟨⟨hidle, hfits⟩, -⟩ := he
  simp only [Loopback.next, Loopback.out, Loopback.ringSteps, Loopback.onCycle]
  cases hcalled : (s.cycleOf d requested clock 0).called with
  | none =>
    obtain ⟨before, hsub, hlen, hat⟩ := h.turn
    rw [hidle] at hat
    simp only [Machine.outs_nil, List.map_nil, List.append_nil]
    refine ⟨h.positive, ?_, ⟨before, hsub, hlen, ?_⟩, h.whole, h.cleared⟩
    · exact (congrArg UInt64.toNat (bytesPerFrame_cycle s.playback d _ _ _)).trans h.bytes
    · rw [hidle]
      exact hat
  | some buf =>
    rw [List.append_nil]
    refine h.ring rfl ?_
    intro before hat
    rw [hidle] at hat
    refine ⟨⟨⟨buf, hcalled, rfl⟩, hfits.1⟩, rfl, ?_⟩
    exact (List.append_nil _).trans hat.2

theorem Playing.readLoad (h : Playing frame ws s) (he : loopMachine.Enabled s .readLoad) :
    Playing frame (ws ++ s.out .readLoad) (s.next .readLoad) := by
  obtain ⟨len, pos, hp⟩ := RingReader.atLoad_iff.mp he.2.1
  have hnext : (ringMachine 64).next s.ring .readLoad =
      { s.ring with
        reader := .copying s.ring.readPos (ringAvailable pos s.ring.readPos len) 0 } := by
    simp only [ringMachine, LoopbackRing.step, LoopbackRing.readLoad, hp]
  simp only [Loopback.next, Loopback.out, Loopback.ringSteps, Machine.exec_cons, Machine.exec_nil,
    hnext]
  rw [List.append_nil]
  refine h.ring rfl ?_
  intro before hat
  cases ht : s.turn with
  | none =>
    rw [ht, hp] at hat
    cases hat.1
  | some t =>
    rw [ht, hp] at hat
    obtain ⟨hopen, rfl, hread⟩ := hat
    refine ⟨hopen, ringAvailable_le _ _ _, Nat.zero_le _, ?_⟩
    rw [hread]
    rfl

theorem Playing.readByte (h : Playing frame ws s) (he : loopMachine.Enabled s .readByte) :
    Playing frame (ws ++ s.out .readByte) (s.next .readByte) := by
  obtain ⟨pos, len, i, hp, hi⟩ := RingReader.inLoop_iff.mp he.2.1
  generalize hb : s.ring.data.getD (s.ring.index (pos + i)) 0 = byte
  have hnext : (ringMachine 64).next s.ring .readByte =
      { s.ring with reader := .copying pos len (i + 1) } := by
    simp only [ringMachine, LoopbackRing.step, LoopbackRing.readByte, hp]
  have hout : (ringMachine 64).out s.ring .readByte = [.copied byte] := by
    simp only [ringMachine, LoopbackRing.step, LoopbackRing.readByte, hp, hb]
  simp only [Loopback.next, Loopback.out, Loopback.ringSteps, Machine.exec_cons, Machine.exec_nil,
    Machine.outs_cons, Machine.outs_nil, hnext, hout, List.append_nil]
  refine h.ring rfl ?_
  intro before hat
  cases ht : s.turn with
  | none =>
    rw [ht, hp] at hat
    cases hat.1
  | some t =>
    rw [ht, hp] at hat
    obtain ⟨hopen, hlen, -, hread⟩ := hat
    have hlt := BitVec.lt_def.mp hi
    have hin : i.toNat < t.block.content.length := by
      have := hopen.available_le
      omega
    have hfill : s.fillByte = some
        { t with block := { t.block with content := t.block.content.set i.toNat byte } } := by
      simp only [Loopback.fillByte, hp, ht, hb]
    rw [hfill]
    refine ⟨hopen.fill _ _, hlen, ?_, ?_⟩
    · rw [WrappedRing.toNat_succ hi]
      omega
    · rw [WrappedRing.toNat_succ hi, hread, List.append_assoc]
      have hset : (t.block.content.set i.toNat byte).take (i.toNat + 1) =
          t.block.content.take i.toNat ++ [byte] := by
        rw [List.take_add_one, List.take_set_of_le (Nat.le_refl _), List.getElem?_set_self hin]
        rfl
      rw [hset]
      rfl

theorem Playing.played (h : Playing frame ws s) (he : loopMachine.Enabled s .played) :
    Playing frame (ws ++ s.out .played) (s.next .played) := by
  obtain ⟨pos, len, i, hp, hi⟩ := RingReader.atStore_iff.mp he.2.1
  have hnext : (ringMachine 64).next s.ring .readLeave =
      { s.ring with readPos := pos + len, reader := .idle } := by
    simp only [ringMachine, LoopbackRing.step, LoopbackRing.readLeave, hp]
  have hout : (ringMachine 64).out s.ring .readLeave = [.returned len] := by
    simp only [ringMachine, LoopbackRing.step, LoopbackRing.readLeave, hp]
  obtain ⟨before, hsub, hlength, hat⟩ := h.turn
  cases ht : s.turn with
  | none =>
    rw [ht, hp] at hat
    cases hat.1
  | some t =>
    rw [ht, hp] at hat
    obtain ⟨hopen, hlen, hle, hread⟩ := hat
    -- the loop has come to its end
    have hend : i.toNat = len.toNat := by
      have hge := BitVec.le_def.mp (BitVec.not_lt.mp hi)
      omega
    have hframe : 0 < s.playback.bytesPerFrame.toNat := h.bytes ▸ h.positive
    obtain ⟨hsize, hwhole, htake, hcleared⟩ := hopen.finish hframe hlen
    have hstream := bytesPerFrame_cycle s.playback t.block t.requested t.clock
      fun _ => ⟨t.block.content, .ofBitVec len⟩
    have hfinish : s.finish = ((s.cycleOf t.block t.requested t.clock (.ofBitVec len)).stream,
        [.played (s.cycleOf t.block t.requested t.clock (.ofBitVec len)).block.content t.available
          (playbackSize s.playback t.available (.ofBitVec len))]) := by
      simp only [Loopback.finish, hp, ht]
    simp only [Loopback.next, Loopback.out, Loopback.ringSteps, Machine.exec_cons,
      Machine.exec_nil, Machine.outs_cons, Machine.outs_nil, hnext, hout, hfinish, List.append_nil]
    simp only [Loopback.cycleOf]
    generalize onProcessPlayback s.playback t.block t.requested t.clock
      (fun _ => ⟨t.block.content, .ofBitVec len⟩) = c at htake hcleared hstream ⊢
    generalize playbackSize s.playback t.available (.ofBitVec len) = size
      at hsize hwhole htake hcleared ⊢
    have haudio : playedAudio ([RingEvent.returned len].map LoopOut.ring ++
        [.played c.block.content t.available size]) = t.block.content.take size.toNat := by
      rw [playedAudio_append, playedAudio_ring, ← htake]
      exact List.append_nil _
    have hlast : (t.block.content.take len.toNat).length = len.toNat :=
      List.length_take_of_le (Nat.le_trans hlen hopen.available_le)
    have hkept : (t.block.content.take size.toNat).length = size.toNat :=
      List.length_take_of_le (by rw [List.length_take] at hlast; omega)
    refine ⟨h.positive, ?_, ⟨before ++ t.block.content.take len.toNat, ?_, ?_, ⟨rfl, ?_⟩⟩, ?_, ?_⟩
    · exact (congrArg UInt64.toNat hstream).trans h.bytes
    · rw [playedAudio_append, haudio]
      exact hsub.append (List.take_prefix_take_left (by omega)).sublist
    · rw [playedAudio_append, haudio, ringTrace_append, trimmedBytes_append, List.length_append,
        List.length_append, hkept, hlast, ← hlength, ← h.bytes]
      have htrim : trimmedBytes s.playback.bytesPerFrame.toNat (ringTrace
          ([RingEvent.returned len].map LoopOut.ring ++
            [.played c.block.content t.available size])) =
          len.toNat % s.playback.bytesPerFrame.toNat := rfl
      omega
    · rw [ringTrace_append, readBytes_append, hread, hend]
      exact List.append_nil _
    · rw [playedAudio_append, haudio, List.length_append, hkept]
      exact Nat.dvd_add h.whole (h.bytes ▸ hwhole)
    · intro w hw
      obtain hw | hw := List.mem_append.mp hw
      · exact h.cleared w hw
      · simp only [List.map_cons, List.map_nil, List.cons_append, List.nil_append, List.mem_cons,
          List.not_mem_nil, or_false] at hw
        obtain rfl | rfl := hw
        · trivial
        · exact hcleared

end Reading

theorem playing_next (h : Playing frame ws s) (he : loopMachine.Enabled s a) :
    Playing frame (ws ++ loopMachine.out s a) (loopMachine.next s a) := by
  cases a with
  | captured b =>
    simp only [loopMachine, Loopback.next, Loopback.out, Loopback.ringSteps, List.append_nil]
    exact h.write (isWrite_captured b)
  | writeLoad =>
    simp only [loopMachine, Loopback.next, Loopback.out, Loopback.ringSteps, List.append_nil]
    exact h.write (by simp [RingStep.isWrite])
  | storeByte =>
    simp only [loopMachine, Loopback.next, Loopback.out, Loopback.ringSteps, List.append_nil]
    exact h.write (by simp [RingStep.isWrite])
  | writeLeave =>
    simp only [loopMachine, Loopback.next, Loopback.out, Loopback.ringSteps, List.append_nil]
    exact h.write (by simp [RingStep.isWrite])
  | cycle d requested clock => exact h.cycle he
  | readLoad => exact h.readLoad he
  | readByte => exact h.readByte he
  | played => exact h.played he

theorem playing_start (hs : Loopback.start o = .ok s₀) : Playing o.frameBytes [] s₀ := by
  obtain ⟨hring, hturn, -, hbytes, hpos, -, -⟩ := Loopback.start_ok hs
  refine ⟨hpos, hbytes, ⟨[], List.Sublist.refl [], rfl, ?_⟩, Nat.dvd_zero _, fun w hw => nomatch hw⟩
  rw [hturn, hring]
  exact ⟨rfl, rfl⟩

theorem playing_run (hs : Loopback.start o = .ok s₀) (hv : loopMachine.Valid s₀ xs) :
    Playing o.frameBytes (loopMachine.outs s₀ xs) (loopMachine.exec s₀ xs) := by
  apply Machine.history (P := fun ws s => Playing o.frameBytes ws s) (playing_start hs) _ hv
  intro ws s a he h
  exact playing_next h he

/-! ### The ring below -/

/-- Of a ring through which less goes than its counter counts, every store goes clear. -/
theorem storesClear_of_short {W : ℕ} {capacity : BitVec W} {ys : List (RingStep W)}
    (hpos : 0 < capacity.toNat) (h : (ringMachine W).Valid (.init capacity) ys)
    (hshort : offeredBytes ((ringMachine W).outs (.init capacity) ys) < 2 ^ W) :
    ((ringMachine W).restrict LoopbackRing.StoresClear).Valid (.init capacity) ys := by
  rw [Machine.valid_restrict_iff]
  refine ⟨h, ?_⟩
  rintro us b zs rfl
  obtain ⟨hus, hb, -⟩ := Machine.valid_append.mp h
  cases b with
  | storeByte =>
    obtain ⟨w, r, hc⟩ := counts_run hpos hus
    rw [Machine.outs_append, offeredBytes_append] at hshort
    generalize (ringMachine W).exec (.init capacity) us = t at hb hc
    obtain ⟨src, pos, len, i, hp, hi⟩ := RingWriter.inLoop_iff.mp hb
    have hstore := hc.unread_le
    have htotal := hc.total
    have hw := hc.writer
    have hnext := hc.reader.nextPos
    rw [← hc.readPos] at hnext
    rw [hp] at hw
    obtain ⟨rfl, hstored, -, -⟩ := hw
    have hlt := BitVec.lt_def.mp hi
    -- the position is the count of the bytes stored, and the unread ones are among them
    have hcount : (readBytes ((ringMachine W).outs (.init capacity) us)).length ≤
        w + i.toNat := by omega
    have hfit : w + i.toNat < 2 ^ W := by omega
    simp only [LoopbackRing.StoresClear, hp]
    rw [WrappedRing.ofNat_add, hnext, BitVec.toNat_ofNat, Nat.mod_eq_of_lt hfit,
      WrappedRing.ofNat_sub_toNat hcount (by omega)]
    omega
  | writeEnter _ | writeLoad | writeLeave | readEnter _ | readLoad | readByte | readLeave =>
    trivial

/-- What is accepted is some of what is captured. -/
theorem accepted_sublist (ws : List LoopOut) :
    List.Sublist (accepted (ringTrace ws)) (capturedAudio ws) := by
  unfold capturedAudio accepted
  induction ringTrace ws with
  | nil => exact List.Sublist.refl []
  | cons e es ih =>
    rw [List.flatMap_cons, List.flatMap_cons]
    refine List.Sublist.append ?_ ih
    cases e with
    | offered src len dropped => exact List.take_sublist _ _
    | _ => exact List.Sublist.refl []

/-- The loopback seen as its ring. -/
theorem loop_ring_run (hs : Loopback.start o = .ok s₀) (hv : loopMachine.Valid s₀ xs) :
    ∃ ys, (ringMachine 64).Valid (.init o.ringCapacity) ys ∧
      (loopMachine.exec s₀ xs).ring = (ringMachine 64).exec (.init o.ringCapacity) ys ∧
      ringTrace (loopMachine.outs s₀ xs) = (ringMachine 64).outs (.init o.ringCapacity) ys := by
  have hrun := loop_follows_ring.run hv
  rwa [(Loopback.start_ok hs).1] at hrun

theorem TurnAt.prefix {p : PlaybackStream} {reader : RingReader 64} {before read : Bytes}
    {turn : Option PlaybackTurn} (h : TurnAt p reader before read turn) : before <+: read := by
  cases turn with
  | none => exact h.2 ▸ List.prefix_refl _
  | some t =>
    cases reader with
    | idle => exact h.2.elim
    | loaded len pos => exact h.2.2 ▸ List.prefix_refl _
    | copying pos len i => exact h.2.2.2 ▸ List.prefix_append _ _

/-- What is played is captured audio, in order; between two cycles the rest of it is trimmed,
in the ring or dropped, and behind the audio of each block there is silence. -/
theorem loopback_plays_captured (hs : Loopback.start o = .ok s₀) (hv : loopMachine.Valid s₀ xs)
    (hshort : (capturedAudio (loopMachine.outs s₀ xs)).length < 2 ^ 64) :
    let ws := loopMachine.outs s₀ xs
    List.Sublist (playedAudio ws) (capturedAudio ws) ∧ (∀ w ∈ ws, w.Cleared) ∧
      ((loopMachine.exec s₀ xs).turn = none → ∃ unplayed, unplayed ≤ o.ringCapacity.toNat ∧
        (capturedAudio ws).length = (playedAudio ws).length +
          trimmedBytes o.frameBytes (ringTrace ws) + unplayed + droppedBytes (ringTrace ws)) := by
  obtain ⟨-, -, -, -, -, -, hpos⟩ := Loopback.start_ok hs
  obtain ⟨ys, hys, hring, htrace⟩ := loop_ring_run hs hv
  have hplaying := playing_run hs hv
  rw [length_capturedAudio, htrace] at hshort
  have hintact := intact_run hpos (storesClear_of_short hpos hys hshort)
  obtain ⟨hunread, htotal, -⟩ := ring_accounts hpos hys
  rw [← htrace] at hintact hunread htotal
  obtain ⟨before, hsub, hlen, hat⟩ := hplaying.turn
  have hcleared := hplaying.cleared
  generalize loopMachine.outs s₀ xs = ws at *
  refine ⟨?_, hcleared, ?_⟩
  · calc List.Sublist (playedAudio ws) before := hsub
      List.Sublist _ (readBytes (ringTrace ws)) := hat.prefix.sublist
      List.Sublist _ (accepted (ringTrace ws)) := hintact.read.sublist
      List.Sublist _ (capturedAudio ws) := accepted_sublist ws
  · intro hturn
    rw [hturn] at hat
    have hread := hintact.read.length_le
    rw [hat.2] at hread hunread
    refine ⟨(accepted (ringTrace ws)).length - before.length, by omega, ?_⟩
    rw [length_capturedAudio]
    omega

/-- Mono `S16` at two frames a second. -/
def twoFrameOptions : LoopbackOptions := ⟨2, 1, none, 2, Or.inl ⟨rfl, rfl⟩⟩

def twoFrames : Loopback where
  ring := .init 4
  capture := ⟨false, true, none, false, 0, 0⟩
  playback := ⟨2, 2, true, 0, 0, 0, 0⟩
  turn := none

/-- Three frames are captured, of which two fit, and a cycle asks for three. -/
def loopOnce : List LoopAction :=
  let d : SpaData := ⟨.memPtr, -1, 0, 6, some 4096, [1, 2, 3, 4, 5, 6], some ⟨0, 6, 2⟩⟩
  [.captured ⟨0, ⟨0, [d], none⟩⟩, .writeLoad, .storeByte, .storeByte, .storeByte, .storeByte,
    .writeLeave, .cycle d 0 ⟨0, 0, 0, -1⟩, .readLoad, .readByte, .readByte, .readByte, .readByte,
    .played]

theorem loopback_plays_captured_once :
    let ws := loopMachine.outs twoFrames loopOnce
    List.Sublist (playedAudio ws) (capturedAudio ws) ∧ (∀ w ∈ ws, w.Cleared) ∧
      ((loopMachine.exec twoFrames loopOnce).turn = none → ∃ unplayed,
        unplayed ≤ twoFrameOptions.ringCapacity.toNat ∧
        (capturedAudio ws).length = (playedAudio ws).length +
          trimmedBytes twoFrameOptions.frameBytes (ringTrace ws) + unplayed +
            droppedBytes (ringTrace ws)) :=
  loopback_plays_captured (o := twoFrameOptions) rfl (by decide) (by decide)

end TinyPipewire.Utils
