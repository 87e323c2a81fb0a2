import TinyPipewire.Core.RateLimit
import TinyPipewire.Filter.Port

/-!
# One cycle of a capture stream

`pwf_stream_on_process`: the buffer it dequeues goes to the data callback, mapped or as a
DMABUF to be read through the accessor.
-/

namespace TinyPipewire.Stream

open TinyPipewire.Filter

/-- The fields of `struct pwf_stream` a capture cycle reads and writes. -/
structure CaptureStream where
  useDmabuf : Bool
  hasDataCb : Bool
  currentDmabufBuf : Option SpaBuffer
  dmabufRetrieved : Bool
  dmabufUnretrievedLastLogNs : UInt64
  dmabufUnretrievedSuppressed : UInt64
  deriving DecidableEq

/-- `struct pwf_stream_buffer`. -/
structure StreamBuffer where
  data : Option Ptr
  size : ℕ
  pts : Int
  deriving DecidableEq, Repr

/-- Reading `datas[0]` of a buffer that has no block. -/
inductive ReadFault
  | noBlock
  deriving DecidableEq, Repr

/-- The end of a DMABUF delivery: a frame nobody read is logged, and the accessor loses it. -/
def CaptureStream.endDelivery (s : CaptureStream) (now : UInt64) : CaptureStream :=
  if s.dmabufRetrieved then { s with currentDmabufBuf := none }
  else
    let (report, last, suppressed) :=
      rateLimited s.dmabufUnretrievedLastLogNs s.dmabufUnretrievedSuppressed now
    { s with
      dmabufUnretrievedLastLogNs := last
      dmabufUnretrievedSuppressed := if report then 0 else suppressed
      currentDmabufBuf := none }

/-- `pwf_stream_deliver_dmabuf`: the stream after it, and what the callback got. `retrieves`
tells whether the callback used the accessor. -/
def deliverDmabuf (s : CaptureStream) (b : SpaBuffer) (pts : Int) (retrieves : Bool)
    (now : UInt64) : CaptureStream × Option StreamBuffer :=
  let during := { s with
    currentDmabufBuf := some b
    dmabufRetrieved := s.hasDataCb && retrieves }
  (during.endDelivery now, if s.hasDataCb then some ⟨none, 0, pts⟩ else none)

/-- `pwf_stream_on_process`, with the buffer it dequeued. -/
def streamOnProcess (s : CaptureStream) (b : PwBuffer) (retrieves : Bool) (now : UInt64) :
    Except ReadFault (CaptureStream × Option StreamBuffer) :=
  if s.useDmabuf then
    if dmabufBufferPresent b.buffer then
      .ok (deliverDmabuf s b.buffer (bufferPts b) retrieves now)
    else .ok (s, none)
  else
    match b.buffer.datas with
    | [] => .error .noBlock
    | d :: _ =>
      match d.data, d.chunk with
      | some data, some c =>
        if c.size > 0 ∧ s.hasDataCb = true then
          .ok (s, some ⟨some (.mapped b.buffer.pool data), c.size.toNat, bufferPts b⟩)
        else .ok (s, none)
      | _, _ => .ok (s, none)

/-- A stream with mapped buffers is left as it was. -/
theorem streamOnProcess_mapped {s u : CaptureStream} {b : PwBuffer} {retrieves : Bool}
    {now : UInt64} {buf : Option StreamBuffer} (hd : s.useDmabuf = false)
    (h : streamOnProcess s b retrieves now = .ok (u, buf)) : u = s := by
  rw [streamOnProcess, hd, if_neg Bool.false_ne_true] at h
  split at h
  · cases h
  · split at h
    · split at h
      · exact (congrArg Prod.fst (Except.ok.inj h)).symm
      · exact (congrArg Prod.fst (Except.ok.inj h)).symm
    · exact (congrArg Prod.fst (Except.ok.inj h)).symm

end TinyPipewire.Stream
