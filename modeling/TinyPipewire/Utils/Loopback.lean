import TinyPipewire.Stream.Capture
import TinyPipewire.Stream.PlaybackFrames
import TinyPipewire.Utils.LoopbackQueue

/-!
# The audio of `pwf_stream_loopback`

The callback of the capture stream writes what is captured to the ring, and the callback of the
playback stream fills its cycles from it. Each runs on the data thread of its own stream.
-/

namespace TinyPipewire.Utils

open TinyPipewire.Filter (PwBuffer SpaData)
open TinyPipewire.Stream

/-- `audio_bit_depths`: `--bits`, `pwf_audio_config.format`, and the bytes of a sample. -/
def loopbackBitDepths : List (String × String × Int32) :=
  [("16", "S16", 2), ("24", "S24", 3), ("32", "S32", 4), ("f32", "F32", 4)]

/-- The options of the audio half. Without `--bits` the format is `NULL`. -/
structure LoopbackOptions where
  sampleRate : Int32
  channels : Int32
  audioFormat : Option String
  bytesPerSample : Int32
  bits : (audioFormat = none ∧ bytesPerSample = 2) ∨
    ∃ arg format, audioFormat = some format ∧ (arg, format, bytesPerSample) ∈ loopbackBitDepths

namespace LoopbackOptions

variable (o : LoopbackOptions)

/-- `audio_cfg`. -/
def config : AudioConfig := ⟨o.sampleRate, o.channels, o.audioFormat⟩

/-- `ring_capacity`, each factor converted to `size_t`. -/
def ringCapacity : BitVec 64 :=
  .ofInt 64 o.sampleRate.toInt * .ofInt 64 o.channels.toInt * .ofInt 64 o.bytesPerSample.toInt

end LoopbackOptions

/-- A playback cycle while its callback runs. -/
structure PlaybackTurn where
  block : SpaData
  requested : UInt64
  clock : PlaybackClock
  available : UInt64
  deriving DecidableEq

/-- The ring, the streams at its two ends, and the cycle the playback thread is in. -/
structure Loopback where
  ring : LoopbackRing 64
  capture : CaptureStream
  playback : PlaybackStream
  turn : Option PlaybackTurn

/-- Where `main` has started both streams. -/
def Loopback.start (o : LoopbackOptions) : Except PwfError Loopback :=
  (checkAudioConfig o.config).map fun f =>
    { ring := .init o.ringCapacity
      capture := ⟨false, true, none, false, 0, 0⟩
      playback := ⟨audioBytesPerFrame f o.channels, o.sampleRate.toInt, true, 0, 0, 0, 0⟩
      turn := none }

inductive LoopAction
  /-- The capture thread dequeues a buffer. -/
  | captured (b : PwBuffer)
  | writeLoad
  | storeByte
  | writeLeave
  /-- The playback thread dequeues a buffer, with this first block. -/
  | cycle (d : SpaData) (requested : UInt64) (clock : PlaybackClock)
  | readLoad
  | readByte
  /-- `ring_read` returns, and the cycle is published. -/
  | played

inductive LoopOut
  | ring (e : RingEvent 64)
  /-- A block goes out; of the `available` bytes the first `size` are the callback's. -/
  | played (content : Bytes) (available size : UInt64)
  deriving DecidableEq

/-- `on_audio_capture`, on a region that holds `content`. -/
def onAudioCapture (content : Bytes) (buf : StreamBuffer) : List (RingStep 64) :=
  if buf.data.isSome ∧ buf.size > 0 then [.writeEnter (content.take buf.size)] else []

namespace Loopback

variable (s : Loopback)

/-- What a captured buffer has the callback do. -/
def onCaptured (b : PwBuffer) : List (RingStep 64) :=
  match streamOnProcess s.capture b false 0, b.buffer.datas with
  | .ok (_, some buf), d :: _ => onAudioCapture d.content buf
  | _, _ => []

/-- The cycle of a block as far as the callback has it filled. -/
def cycleOf (d : SpaData) (requested : UInt64) (clock : PlaybackClock) (size : UInt64) :
    PlaybackCycle :=
  onProcessPlayback s.playback d requested clock fun _ => ⟨d.content, size⟩

/-- `on_audio_playback` calls `ring_read` for all of its cycle. -/
def onCycle (d : SpaData) (requested : UInt64) (clock : PlaybackClock) : List (RingStep 64) :=
  match (s.cycleOf d requested clock 0).called with
  | some buf => [.readEnter buf.available.toBitVec]
  | none => []

def ringSteps : LoopAction → List (RingStep 64)
  | .captured b => s.onCaptured b
  | .writeLoad => [.writeLoad]
  | .storeByte => [.storeByte]
  | .writeLeave => [.writeLeave]
  | .cycle d requested clock => s.onCycle d requested clock
  | .readLoad => [.readLoad]
  | .readByte => [.readByte]
  | .played => [.readLeave]

/-- A block is as long as it says, and its chunk inside it. -/
def Fits (d : SpaData) : Prop :=
  d.content.length = d.maxsize.toNat ∧ ∀ c, d.chunk = some c → c.size ≤ d.maxsize

/-- A thread takes up a buffer once it is done with the one before. -/
def Ready : LoopAction → Prop
  | .captured b => s.ring.writer = .idle ∧ b.buffer.datas ≠ [] ∧ ∀ d ∈ b.buffer.datas, Fits d
  | .cycle d _ _ => s.turn = none ∧ Fits d
  | _ => True

/-- `dst[i]` of the cycle, with the byte `ring_read` is at. -/
def fillByte : Option PlaybackTurn :=
  match s.ring.reader, s.turn with
  | .copying readPos _ i, some t =>
    let byte := s.ring.data.getD (s.ring.index (readPos + i)) 0
    some { t with block := { t.block with content := t.block.content.set i.toNat byte } }
  | _, turn => turn

/-- The end of a cycle: what `ring_read` returned is the size the callback reports. -/
def finish : PlaybackStream × List LoopOut :=
  match s.ring.reader, s.turn with
  | .copying _ len _, some t =>
    let c := s.cycleOf t.block t.requested t.clock (.ofBitVec len)
    (c.stream, [.played c.block.content t.available
      (playbackSize s.playback t.available (.ofBitVec len))])
  | _, _ => (s.playback, [])

def next (a : LoopAction) : Loopback :=
  let ring := (ringMachine 64).exec s.ring (s.ringSteps a)
  match a with
  | .cycle d requested clock =>
    let c := s.cycleOf d requested clock 0
    match c.called with
    | some buf => { s with ring := ring, turn := some ⟨d, requested, clock, buf.available⟩ }
    | none => { s with playback := c.stream }
  | .readByte => { s with ring := ring, turn := s.fillByte }
  | .played => { s with ring := ring, playback := s.finish.1, turn := none }
  | _ => { s with ring := ring }

def out (a : LoopAction) : List LoopOut :=
  ((ringMachine 64).outs s.ring (s.ringSteps a)).map .ring ++
    match a with
    | .played => s.finish.2
    | _ => []

end Loopback

/-- The loopback under its two data threads, in any interleaving. -/
def loopMachine : Machine Loopback LoopAction LoopOut where
  Enabled := fun s a => s.Ready a ∧ (ringMachine 64).Valid s.ring (s.ringSteps a)
  next := Loopback.next
  out := Loopback.out

instance (d : SpaData) : Decidable (Loopback.Fits d) :=
  inferInstanceAs (Decidable (_ ∧ ∀ c ∈ d.chunk, c.size ≤ d.maxsize))

instance (s : Loopback) : (a : LoopAction) → Decidable (s.Ready a)
  | .captured b => inferInstanceAs (Decidable
      (s.ring.writer = .idle ∧ b.buffer.datas ≠ [] ∧ ∀ d ∈ b.buffer.datas, Loopback.Fits d))
  | .cycle d _ _ => inferInstanceAs (Decidable (s.turn = none ∧ Loopback.Fits d))
  | .writeLoad | .storeByte | .writeLeave | .readLoad | .readByte | .played => isTrue trivial

instance (s : Loopback) (a : LoopAction) : Decidable (loopMachine.Enabled s a) :=
  inferInstanceAs (Decidable (s.Ready a ∧ (ringMachine 64).Valid s.ring (s.ringSteps a)))

/-! ### What a run shows -/

def LoopOut.ringEvent? : LoopOut → Option (RingEvent 64)
  | .ring e => some e
  | _ => none

/-- What the ring shows. -/
def ringTrace (ws : List LoopOut) : List (RingEvent 64) := ws.filterMap LoopOut.ringEvent?

/-- The bytes the capture callback got, in order. -/
def capturedAudio (ws : List LoopOut) : Bytes :=
  (ringTrace ws).flatMap fun
    | .offered src _ _ => src
    | _ => []

def LoopOut.audio : LoopOut → Bytes
  | .played content _ size => content.take size.toNat
  | _ => []

/-- The bytes that go out as the callback's, in order. -/
def playedAudio (ws : List LoopOut) : Bytes := ws.flatMap LoopOut.audio

variable {s : Loopback} {us vs : List LoopOut}

@[simp] theorem ringTrace_append : ringTrace (us ++ vs) = ringTrace us ++ ringTrace vs :=
  List.filterMap_append

@[simp] theorem ringTrace_ring (es : List (RingEvent 64)) : ringTrace (es.map .ring) = es := by
  induction es with
  | nil => rfl
  | cons e es ih => exact congrArg (e :: ·) ih

@[simp] theorem playedAudio_append : playedAudio (us ++ vs) = playedAudio us ++ playedAudio vs :=
  List.flatMap_append

@[simp] theorem playedAudio_ring (es : List (RingEvent 64)) : playedAudio (es.map .ring) = [] := by
  induction es with
  | nil => rfl
  | cons e es ih => exact ih

theorem length_capturedAudio (ws : List LoopOut) :
    (capturedAudio ws).length = offeredBytes (ringTrace ws) := by
  unfold capturedAudio offeredBytes
  induction ringTrace ws with
  | nil => rfl
  | cons e es ih =>
    rw [List.flatMap_cons, List.length_append, ih, List.map_cons, List.sum_cons]
    cases e <;> rfl

theorem ringTrace_finish (s : Loopback) : ringTrace s.finish.2 = [] := by
  unfold Loopback.finish
  split <;> rfl

/-- The ring of a loopback is a ring under its two threads. -/
theorem loop_follows_ring :
    Machine.Follows loopMachine (ringMachine 64) Loopback.ring Loopback.ringSteps ringTrace where
  valid := fun _ _ he => he.2
  next := by
    intro s a _
    cases a with
    | cycle d requested clock =>
      simp only [loopMachine, Loopback.next]
      split
      · rfl
      · rename_i hcalled
        simp [Loopback.ringSteps, Loopback.onCycle, hcalled]
    | _ => rfl
  out := by
    intro s a _
    cases a with
    | played =>
      simp only [loopMachine, Loopback.out, ringTrace_append, ringTrace_ring, ringTrace_finish,
        List.append_nil]
    | _ => simp [loopMachine, Loopback.out]
  nil := rfl
  append := fun _ _ => ringTrace_append

end TinyPipewire.Utils
