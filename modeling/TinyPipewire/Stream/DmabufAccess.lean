import TinyPipewire.Filter.DmabufAccess
import TinyPipewire.Stream.Capture

/-!
# What the plane accessor of a capture stream reads

`pwf_stream_on_process` with the data callback it makes taken apart: the application calls the
accessor inside it, or at any other time. Stopping a stream and starting it again come between
two cycles and leave what a cycle sets alone.
-/

namespace TinyPipewire.Stream

open TinyPipewire.Filter

/-! ### A cycle taken apart -/

/-- `pwf_stream_get_dmabuf_planes`. -/
def CaptureStream.getDmabufPlanes (s : CaptureStream) (planesLen : ℕ) :
    CaptureStream × (List DmabufPlane × ℕ) :=
  match s.currentDmabufBuf with
  | none => (s, ([], 0))
  | some b => ({ s with dmabufRetrieved := true }, dmabufExtractPlanes (some b) planesLen)

/-- What `pwf_stream_deliver_dmabuf` sets before it calls back. -/
def CaptureStream.beginDelivery (s : CaptureStream) (b : SpaBuffer) : CaptureStream :=
  { s with currentDmabufBuf := some b, dmabufRetrieved := false }

/-- What a cycle does with a buffer. -/
inductive CaptureTurn
  /-- The callback gets it. -/
  | calls (s : CaptureStream) (buf : StreamBuffer)
  /-- Nobody does, and the stream is left so. -/
  | passes (s : CaptureStream)
  | faults

/-- `pwf_stream_on_process` up to the callback. -/
def captureTurn (s : CaptureStream) (b : PwBuffer) (now : UInt64) : CaptureTurn :=
  match streamOnProcess s b false now with
  | .ok (_, some buf) => .calls (if s.useDmabuf then s.beginDelivery b.buffer else s) buf
  | .ok (t, none) => .passes t
  | .error _ => .faults

/-- A stream, and the buffer of the cycle whose callback is running. -/
structure CaptureState where
  stream : CaptureStream
  running : Option PwBuffer

inductive CaptureAction
  /-- A cycle dequeues a buffer; without a callback to make it ends at once. -/
  | process (b : PwBuffer) (now : UInt64)
  /-- The accessor is called. -/
  | getPlanes (planesLen : ℕ)
  /-- The callback returns. -/
  | leaveCallback (now : UInt64)
  /-- The stream is stopped and started again. -/
  | restart

inductive CaptureOut
  | dequeued (b : PwBuffer)
  | queued (b : PwBuffer)
  | planes (inCallback : Bool) (r : List DmabufPlane × ℕ)

namespace CaptureState

variable (s : CaptureState)

def Enabled : CaptureAction → Prop
  | .process b now => s.running = none ∧ captureTurn s.stream b now ≠ .faults
  | .getPlanes _ => True
  | .leaveCallback _ => s.running ≠ none
  | .restart => s.running = none

def next : CaptureAction → CaptureState
  | .process b now =>
    match captureTurn s.stream b now with
    | .calls t _ => ⟨t, some b⟩
    | .passes t => ⟨t, none⟩
    | .faults => s
  | .getPlanes planesLen => { s with stream := (s.stream.getDmabufPlanes planesLen).1 }
  | .leaveCallback now =>
    ⟨if s.stream.useDmabuf then s.stream.endDelivery now else s.stream, none⟩
  | .restart => s

def out : CaptureAction → List CaptureOut
  | .process b now =>
    match captureTurn s.stream b now with
    | .calls _ _ => [.dequeued b]
    | .passes _ => [.dequeued b, .queued b]
    | .faults => []
  | .getPlanes planesLen =>
    [.planes s.running.isSome (s.stream.getDmabufPlanes planesLen).2]
  | .leaveCallback _ => s.running.toList.map .queued
  | .restart => []

end CaptureState

def captureMachine : Machine CaptureState CaptureAction CaptureOut where
  Enabled := CaptureState.Enabled
  next := CaptureState.next
  out := CaptureState.out

/-- A stream before its first cycle. -/
def CaptureState.init (useDmabuf hasDataCb : Bool) : CaptureState :=
  ⟨⟨useDmabuf, hasDataCb, none, false, 0, 0⟩, none⟩

variable {s : CaptureState} {a : CaptureAction} {b : PwBuffer} {buf : StreamBuffer}
  {t : CaptureStream} {now : UInt64} {xs : List CaptureAction} {useDmabuf hasDataCb : Bool}

theorem captureTurn_calls (h : captureTurn s.stream b now = .calls t buf) :
    t = (if s.stream.useDmabuf then s.stream.beginDelivery b.buffer else s.stream) ∧
      ∃ u, streamOnProcess s.stream b false now = .ok (u, some buf) := by
  unfold captureTurn at h
  split at h
  · rename_i u c hp
    obtain ⟨ht, rfl⟩ := CaptureTurn.calls.inj h
    exact ⟨ht.symm, u, hp⟩
  · cases h
  · cases h

theorem endDelivery_current (c : CaptureStream) : (c.endDelivery now).currentDmabufBuf = none := by
  unfold CaptureStream.endDelivery
  split <;> rfl

/-- A cycle that calls nobody leaves the accessor without a buffer. -/
theorem captureTurn_passes (hc : s.stream.currentDmabufBuf = none)
    (h : captureTurn s.stream b now = .passes t) : t.currentDmabufBuf = none := by
  unfold captureTurn at h
  split at h
  · cases h
  · rename_i u hp
    obtain rfl := CaptureTurn.passes.inj h
    unfold streamOnProcess at hp
    split at hp
    · split at hp
      · obtain ⟨rfl, -⟩ := Prod.mk.inj (Except.ok.inj hp)
        exact endDelivery_current _
      · obtain ⟨rfl, -⟩ := Prod.mk.inj (Except.ok.inj hp)
        exact hc
    · split at hp
      · cases hp
      · split at hp
        · split at hp
          · cases hp
          · obtain ⟨rfl, -⟩ := Prod.mk.inj (Except.ok.inj hp)
            exact hc
        · obtain ⟨rfl, -⟩ := Prod.mk.inj (Except.ok.inj hp)
          exact hc
  · cases h

/-- Calls of the accessor while a DMABUF is delivered only mark it as retrieved. -/
theorem getPlanes_run {c : CaptureStream} {d : SpaBuffer} (hd : c.currentDmabufBuf = some d)
    (ks : List ℕ) :
    captureMachine.exec ⟨c, some b⟩ (ks.map .getPlanes) =
      ⟨{ c with dmabufRetrieved := c.dmabufRetrieved || !ks.isEmpty }, some b⟩ := by
  induction ks generalizing c with
  | nil => simp
  | cons k ks ih =>
    have hget : (c.getDmabufPlanes k).1 = { c with dmabufRetrieved := true } := by
      unfold CaptureStream.getDmabufPlanes
      rw [hd]
    have hnext : captureMachine.next ⟨c, some b⟩ (.getPlanes k) =
        ⟨{ c with dmabufRetrieved := true }, some b⟩ := by
      simp [captureMachine, CaptureState.next, hget]
    rw [List.map_cons, Machine.exec_cons, hnext]
    simpa using ih (c := { c with dmabufRetrieved := true }) hd

theorem getPlanes_run_mapped {c : CaptureStream} (hd : c.currentDmabufBuf = none) (ks : List ℕ) :
    captureMachine.exec ⟨c, some b⟩ (ks.map .getPlanes) = ⟨c, some b⟩ := by
  induction ks with
  | nil => rfl
  | cons k ks ih =>
    have hget : (c.getDmabufPlanes k).1 = c := by
      unfold CaptureStream.getDmabufPlanes
      rw [hd]
    rw [List.map_cons, Machine.exec_cons]
    simpa [captureMachine, CaptureState.next, hget] using ih

/-- What a DMABUF stream calls back with. -/
theorem dmabuf_called {c u : CaptureStream} {retrieves : Bool} (hd : c.useDmabuf = true)
    (h : streamOnProcess c b retrieves now = .ok (u, some buf)) :
    dmabufBufferPresent b.buffer = true ∧ c.hasDataCb = true ∧ buf = ⟨none, 0, bufferPts b⟩ := by
  rw [streamOnProcess, if_pos hd] at h
  split at h
  · rename_i hpresent
    have hbuf := congrArg Prod.snd (Except.ok.inj h)
    cases hcb : c.hasDataCb with
    | true =>
      have hsome : some ⟨none, 0, bufferPts b⟩ = some buf := by
        simpa [deliverDmabuf, hcb] using hbuf
      exact ⟨hpresent, rfl, (Option.some.inj hsome).symm⟩
    | false => simp [deliverDmabuf, hcb] at hbuf
  · cases h

/-- A cycle put together again is `pwf_stream_on_process`, with a callback that retrieves the
frame if it calls the accessor at all. -/
theorem cycle_onProcess (hc : s.stream.currentDmabufBuf = none) (ks : List ℕ)
    (h : captureTurn s.stream b now = .calls t buf) :
    ∃ u, streamOnProcess s.stream b (!ks.isEmpty) now = .ok (u, some buf) ∧
      captureMachine.exec s (.process b now :: ks.map .getPlanes ++ [.leaveCallback now]) =
        ⟨u, none⟩ := by
  obtain ⟨ht, u, hu⟩ := captureTurn_calls h
  have hprocess : captureMachine.next s (.process b now) = ⟨t, some b⟩ := by
    simp [captureMachine, CaptureState.next, h]
  rw [List.cons_append, Machine.exec_cons, hprocess, Machine.exec_append]
  cases hd : s.stream.useDmabuf with
  | true =>
    rw [hd, if_pos rfl] at ht
    subst ht
    obtain ⟨hpresent, hcb, rfl⟩ := dmabuf_called hd hu
    refine ⟨(deliverDmabuf s.stream b.buffer (bufferPts b) (!ks.isEmpty) now).1, ?_, ?_⟩
    · rw [streamOnProcess, if_pos hd, if_pos hpresent]
      simp [deliverDmabuf, hcb]
    · rw [getPlanes_run rfl]
      simp [captureMachine, CaptureState.next, CaptureStream.beginDelivery, deliverDmabuf, hd, hcb]
  | false =>
    rw [hd, if_neg Bool.false_ne_true] at ht
    subst ht
    have hsame : streamOnProcess s.stream b (!ks.isEmpty) now =
        streamOnProcess s.stream b false now := by
      simp [streamOnProcess, hd]
    obtain rfl := (streamOnProcess_mapped hd hu).symm
    refine ⟨_, hsame.trans hu, ?_⟩
    rw [getPlanes_run_mapped hc]
    simp [captureMachine, CaptureState.next, hd]

/-! ### Runs -/

def CaptureOut.taken : CaptureOut → Option PwBuffer
  | .dequeued b => some b
  | _ => none

def CaptureOut.given : CaptureOut → Option PwBuffer
  | .queued b => some b
  | _ => none

/-- The accessor has the running cycle's buffer, and every other one was given back. -/
structure CaptureState.Inv (s : CaptureState) (ws : List CaptureOut) : Prop where
  current : ∀ d, s.stream.currentDmabufBuf = some d →
    s.stream.useDmabuf = true ∧ ∃ b, s.running = some b ∧ b.buffer = d
  balance : (ws.filterMap CaptureOut.taken).Perm
    (ws.filterMap CaptureOut.given ++ s.running.toList)

theorem captureInv_next {ws : List CaptureOut} (he : captureMachine.Enabled s a)
    (hi : s.Inv ws) : (s.next a).Inv (ws ++ s.out a) := by
  have hfree : s.running = none → s.stream.currentDmabufBuf = none := by
    intro hr
    cases hd : s.stream.currentDmabufBuf with
    | none => rfl
    | some d =>
      obtain ⟨-, b, hb, -⟩ := hi.current d hd
      rw [hr] at hb
      cases hb
  cases a with
  | process b now =>
    obtain ⟨hr, hfault⟩ := he
    have hbalance := hi.balance
    rw [hr, Option.toList_none, List.append_nil] at hbalance
    cases hturn : captureTurn s.stream b now with
    | calls t buf =>
      obtain ⟨rfl, -⟩ := captureTurn_calls hturn
      simp only [CaptureState.next, CaptureState.out, hturn]
      constructor
      · intro d hd
        cases hu : s.stream.useDmabuf with
        | true =>
          rw [hu, if_pos rfl] at hd
          exact ⟨hu, b, rfl, Option.some.inj hd⟩
        | false =>
          rw [hu, if_neg Bool.false_ne_true, hfree hr] at hd
          cases hd
      · simpa [CaptureOut.taken, CaptureOut.given, List.filterMap_cons] using
          hbalance.append_right [b]
    | passes t =>
      simp only [CaptureState.next, CaptureState.out, hturn]
      constructor
      · intro d hd
        rw [captureTurn_passes (hfree hr) hturn] at hd
        cases hd
      · simpa [CaptureOut.taken, CaptureOut.given, List.filterMap_cons] using
          hbalance.append_right [b]
    | faults => exact absurd hturn hfault
  | getPlanes planesLen =>
    have hsame : (s.stream.getDmabufPlanes planesLen).1.currentDmabufBuf =
          s.stream.currentDmabufBuf ∧
        (s.stream.getDmabufPlanes planesLen).1.useDmabuf = s.stream.useDmabuf := by
      unfold CaptureStream.getDmabufPlanes
      split <;> exact ⟨rfl, rfl⟩
    constructor
    · intro d hd
      obtain ⟨hu, hb⟩ := hi.current d (hsame.1.symm.trans hd)
      exact ⟨hsame.2.trans hu, hb⟩
    · simpa [CaptureState.next, CaptureState.out, CaptureOut.taken, CaptureOut.given,
        List.filterMap_cons] using hi.balance
  | leaveCallback now =>
    obtain ⟨b, hb⟩ := Option.ne_none_iff_exists'.mp he
    constructor
    · intro d hd
      cases hu : s.stream.useDmabuf with
      | true => simp [CaptureState.next, hu, endDelivery_current] at hd
      | false =>
        obtain ⟨hdmabuf, -⟩ := hi.current d (by simpa [CaptureState.next, hu] using hd)
        simp [hu] at hdmabuf
    · simpa [CaptureState.next, CaptureState.out, CaptureOut.taken, CaptureOut.given, hb,
        List.filterMap_cons] using hi.balance
  | restart => simpa [CaptureState.next, CaptureState.out] using hi

theorem captureInv_run (h : captureMachine.Valid (.init useDmabuf hasDataCb) xs) :
    (captureMachine.exec (.init useDmabuf hasDataCb) xs).Inv
      (captureMachine.outs (.init useDmabuf hasDataCb) xs) := by
  refine Machine.history (P := fun ws s => CaptureState.Inv s ws) ⟨?_, ?_⟩ ?_ h
  · intro d hd
    cases hd
  · exact List.Perm.refl _
  · exact fun ws s a he hi => captureInv_next he hi

/-- What a call returns after a run. -/
def streamPlanesAfter (useDmabuf hasDataCb : Bool) (xs : List CaptureAction) (planesLen : ℕ) :
    List DmabufPlane × ℕ :=
  ((captureMachine.exec (.init useDmabuf hasDataCb) xs).stream.getDmabufPlanes planesLen).2

/-- What the accessor of a stream should return after a run. -/
structure StreamAccessorSound (useDmabuf hasDataCb : Bool) (xs : List CaptureAction) : Prop where
  outstanding : let ws := captureMachine.outs (.init useDmabuf hasDataCb) xs
    ∀ planesLen, (streamPlanesAfter useDmabuf hasDataCb xs planesLen).2 ≠ 0 →
      ∃ b, Outstanding (ws.filterMap CaptureOut.taken) (ws.filterMap CaptureOut.given) b ∧
        streamPlanesAfter useDmabuf hasDataCb xs planesLen =
          (b.buffer.planes.take planesLen, b.buffer.planes.length)
  outside : (captureMachine.exec (.init useDmabuf hasDataCb) xs).running = none →
    ∀ planesLen, streamPlanesAfter useDmabuf hasDataCb xs planesLen = ([], 0)

theorem streamAccessorSound_run (h : captureMachine.Valid (.init useDmabuf hasDataCb) xs) :
    StreamAccessorSound useDmabuf hasDataCb xs := by
  have hi := captureInv_run h
  constructor
  · intro ws planesLen hcount
    cases hd : (captureMachine.exec (.init useDmabuf hasDataCb) xs).stream.currentDmabufBuf with
    | none => simp [streamPlanesAfter, CaptureStream.getDmabufPlanes, hd] at hcount
    | some d =>
      obtain ⟨-, b, hb, rfl⟩ := hi.current d hd
      refine ⟨b, outstanding_of_perm hi.balance (by simp [hb]), ?_⟩
      simp [streamPlanesAfter, CaptureStream.getDmabufPlanes, hd, dmabufExtractPlanes_some]
  · intro hr planesLen
    cases hd : (captureMachine.exec (.init useDmabuf hasDataCb) xs).stream.currentDmabufBuf with
    | none => simp [streamPlanesAfter, CaptureStream.getDmabufPlanes, hd]
    | some d =>
      obtain ⟨-, b, hb, -⟩ := hi.current d hd
      rw [hr] at hb
      cases hb

/-- In every run of a filter with a DMABUF port the callback is shown buffers dequeued and not
given back only. The accessor is as it should be throughout exactly the runs that present no
frame, and silent between two cycles exactly in those none of whose ended cycles presents one.
A stream's accessor is as it should be in every run. -/
theorem accessors_sound_iff_no_frame {n : ℕ} {cfg : Fin n → PortConfig} {codec : EventCodec}
    {p : Fin n} (hc : (cfg p).DmabufInput) {xs : List (DataAction n)}
    (h : (dataMachine cfg codec).Valid (.init n) xs) :
    let M := dataMachine cfg codec
    ((∀ ys zs, xs = ys ++ zs → AccessorSound cfg codec p ys) ↔
        (M.restrict (NoFrame p)).Valid (.init n) xs) ∧
      ((∀ ys zs, xs = ys ++ zs → (M.exec (.init n) ys).phase = .idle → NoPlanes cfg codec p ys) ↔
        NoFrameEnds cfg codec p xs) ∧
      (∀ ys zs, xs = ys ++ zs → (M.exec (.init n) ys).phase = .callback →
        PlanesOutstanding cfg codec p ys) ∧
      ∀ useDmabuf hasDataCb zs, captureMachine.Valid (.init useDmabuf hasDataCb) zs →
        StreamAccessorSound useDmabuf hasDataCb zs := by
  refine ⟨accessorSound_iff hc h, noPlanes_between_iff hc h, ?_, ?_⟩
  · rintro ys zs rfl hphase
    refine planesOutstanding_within hc (Machine.valid_append.mp h).1 ?_
    rw [hphase]
    trivial
  · exact fun _ _ _ hz => streamAccessorSound_run hz

/-- A DMABUF input that does not hold. -/
def dmabufVideo : PortConfig := ⟨.input, .video, true, false⟩

/-- A frame of one plane. -/
def dmabufFrame : PwBuffer :=
  ⟨0, 0, [⟨.dmaBuf, 7, 0, 64, none, [], some ⟨0, 64, 16⟩⟩], none⟩

/-- A cycle of the port, with what the graph has. -/
def dmabufCycle (dq : Option PwBuffer) : List (DataAction 1) :=
  [.beginCycle false true, .prepare onePort dq (fun _ => true), .enterCallback, .leaveCallback,
    .finish onePort, .endCycle]

theorem accessors_sound_empty_cycle :
    AccessorSound (fun _ => dmabufVideo) silentCodec onePort (dmabufCycle none) := by
  have h : (dataMachine (fun _ => dmabufVideo) silentCodec).Valid (.init 1) (dmabufCycle none) := by
    decide
  have hsound := (accessors_sound_iff_no_frame (p := onePort) ⟨rfl, rfl, rfl⟩ h).1.mpr (by decide)
  exact hsound (dmabufCycle none) [] (by simp)

/-- After the cycle that showed a frame and gave it back, the accessor still returns it. -/
theorem frame_shown_after_cycle :
    let M := dataMachine (fun _ => dmabufVideo) silentCodec
    let xs := dmabufCycle (some dmabufFrame)
    let ws := M.outs (.init 1) xs
    M.Valid (.init 1) xs ∧ (M.exec (.init 1) xs).phase = .idle ∧
      takenBuffers 0 ws = [dmabufFrame] ∧ givenBuffers 0 ws = [dmabufFrame] ∧
      planesAfter (fun _ => dmabufVideo) silentCodec 0 xs 1 = ([⟨7, 0, 16, 64⟩], 1) ∧
      ¬ AccessorSound (fun _ => dmabufVideo) silentCodec 0 xs := by
  refine ⟨by decide, by decide, by decide, by decide, by decide, fun h => ?_⟩
  have hnone := h.outside (by decide) 1
  exact absurd hnone (by decide)

end TinyPipewire.Stream
