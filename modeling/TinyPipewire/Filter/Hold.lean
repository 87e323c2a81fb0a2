import TinyPipewire.Filter.DataDelivery
import TinyPipewire.Filter.Dmabuf
import TinyPipewire.Lib.Retain

/-!
# Hold

What a callback finds in an audio, video or signal port's entry, and the planes it reads
there. The port is a register of deliveries: a cycle with new data puts, one without is
idle, a stop resets. Pushed and graph data, mapped or not, are all the same to it. The
port's pool stays between two stops, so a held buffer is what it was dequeued as.
-/

namespace TinyPipewire.Filter

open Retain (Op puts kept)

variable {n : ℕ}

/-! ### Deliveries -/

/-- New data, as a cycle delivers it to a port. -/
structure Delivery where
  data : Option Ptr
  size : ℕ
  pts : Int
  bytes : Bytes
  planes : List DmabufPlane

/-- The staged push. -/
def pushedDelivery (h : Heap Bytes) (q : PortData) : Delivery :=
  ⟨q.pushedData.map .block, q.pushedSize, q.pushedPts, (contents h q.pushedData).take q.pushedSize,
    []⟩

/-- A buffer of the graph: a frame behind its planes, or mapped data. -/
def graphDelivery (cfg : PortConfig) (b : PwBuffer) : Delivery :=
  if cfg.useDmabuf then ⟨none, 0, bufferPts b, [], b.buffer.planes⟩
  else
    let size := ((b.buffer.datas.head?.bind (·.chunk)).map fun c => c.size.toNat).getD 0
    ⟨b.buffer.firstData, size, bufferPts b,
      (b.buffer.datas.head?.map fun d => if d.data.isSome then d.content.take size else []).getD [],
      []⟩

/-- The new data of a cycle: what was pushed, if the cycle has the lock, or what the graph
has. -/
def newData (cfg : PortConfig) (h : Heap Bytes) (q : PortData) (staged : Bool)
    (dq : Option PwBuffer) : Option Delivery :=
  if staged ∧ q.pushedPending then some (pushedDelivery h q)
  else dq.bind fun b => if inputBufferPresent cfg b then some (graphDelivery cfg b) else none

/-- A cycle's turn of the register. -/
def turnOp : Option Delivery → Op Delivery
  | some x => .put x
  | none => .idle

/-- What an action is to the register of port `p`. -/
def DataState.holdOps (cfg : Fin n → PortConfig) (p : Fin n) (s : DataState n) :
    DataAction n → List (Op Delivery)
  | .prepare q dq _ =>
    if q = p then [turnOp (newData (cfg p) s.heap (s.ports p) s.phase.staged dq)] else []
  | .resetHold => [.reset]
  | _ => []

/-- The data side of the filter, emitting the turns of port `p`. -/
def holdMachine (cfg : Fin n → PortConfig) (codec : EventCodec) (p : Fin n) :
    Machine (DataState n) (DataAction n) (Op Delivery) where
  Enabled := DataState.Enabled cfg
  next := DataState.next cfg codec
  out := DataState.holdOps cfg p

/-! ### What a callback sees -/

/-- The entry of a port, the bytes at its data, and the planes the accessor has. -/
structure PortView where
  data : Option Ptr
  size : ℕ
  pts : Int
  fresh : Bool
  seq : UInt64
  bytes : Bytes
  planes : List DmabufPlane

def Delivery.view (x : Delivery) (fresh : Bool) (seq : UInt64) : PortView :=
  ⟨x.data, x.size, x.pts, fresh, seq, x.bytes, x.planes⟩

/-- A port without data. -/
def PortView.nothing (seq : UInt64) : PortView := ⟨none, 0, -1, false, seq, [], []⟩

/-- What a port shows with this entry, and this buffer dequeued. -/
def viewOf (cfg : PortConfig) (h : Heap Bytes) (q : PortData) (e : PortBuffer)
    (dequeued : Option PwBuffer) : PortView :=
  ⟨e.data, e.size, e.pts, e.fresh, e.seq,
    bytesAt h (if cfg.holdEnabled then q.held else dequeued) e.data e.size,
    shownPlanes cfg q.currentDmabufBuf⟩

def DataState.view (cfg : Fin n → PortConfig) (s : DataState n) (p : Fin n) : PortView :=
  viewOf (cfg p) s.heap (s.ports p) (s.buffers p) (s.dequeued p)

/-- What the register has a port show in a turn: its new data, or what it keeps. -/
def registerView (hold : Bool) (ops : List (Op Delivery)) (new : Option Delivery) : PortView :=
  let seq := UInt64.ofNat (puts (ops ++ [turnOp new])).length
  match new with
  | some x => x.view true seq
  | none => ((if hold then kept ops else none).map (·.view false seq)).getD (.nothing seq)

theorem registerView_seq (hold : Bool) (ops : List (Op Delivery)) (new : Option Delivery) :
    (registerView hold ops new).seq = .ofNat (puts (ops ++ [turnOp new])).length := by
  cases new with
  | some x => rfl
  | none =>
    cases hk : (if hold then kept ops else none) <;>
      simp [registerView, hk, Delivery.view, PortView.nothing]

/-! ### The port is the register -/

/-- The port's hold has what the register keeps. -/
structure PortData.Held (cfg : PortConfig) (h : Heap Bytes) (q : PortData) (x : Delivery) :
    Prop where
  data : q.heldData = x.data
  size : q.heldSize = x.size
  pts : q.heldPts = x.pts
  planes : shownPlanes cfg q.heldDmabufBuf = x.planes
  bytes : bytesAt h q.held q.heldData q.heldSize = x.bytes
  block : ∀ l, q.heldData = some (.block l) → q.deliveredData = some l

structure PortData.HoldInv (cfg : PortConfig) (h : Heap Bytes) (q : PortData)
    (ops : List (Op Delivery)) : Prop where
  seq : q.updateSeq = .ofNat (puts ops).length
  hasHeld : q.hasHeld = true ↔ cfg.holdEnabled = true ∧ (kept ops).isSome = true
  held : ∀ x, cfg.holdEnabled = true → kept ops = some x → q.Held cfg h x

/-- The entry shows this, at a block of the delivered side if at one. -/
structure Shows (cfg : PortConfig) (h : Heap Bytes) (q : PortData) (e : PortBuffer)
    (dequeued : Option PwBuffer) (v : PortView) : Prop where
  view : viewOf cfg h q e dequeued = v
  block : ∀ l, e.data = some (.block l) → q.deliveredData = some l

section Port

variable {cfg : PortConfig} {h h' : Heap Bytes} {q q' : PortData} {ops : List (Op Delivery)}
  {staged : Bool} {dq : Option PwBuffer} {x : Delivery} {e : PortBuffer}

theorem seq_succ (hi : q.updateSeq = .ofNat (puts ops).length) :
    q.updateSeq + 1 = .ofNat (puts (ops ++ [.put x])).length := by
  rw [hi, Retain.puts_append, Retain.puts_put, List.length_append, UInt64.ofNat_add]
  rfl

/-- What new data is presented as, on a port whose entry and accessor have it. -/
structure Presents (cfg : PortConfig) (h : Heap Bytes) (q : PortData) (e : PortBuffer)
    (dequeued : Option PwBuffer) (x : Delivery) : Prop where
  data : e.data = x.data
  size : e.size = x.size
  pts : e.pts = x.pts
  bytes : bytesAt h dequeued e.data e.size = x.bytes
  planes : shownPlanes cfg q.currentDmabufBuf = x.planes
  block : ∀ l, e.data = some (.block l) → q.deliveredData = some l

/-- New data advances the count, is shown, and is what hold has from then on. -/
theorem deliverNew_holds {took : Option PwBuffer} {o : Origin} (hs : q.updateSeq =
      .ofNat (puts ops).length) (hun : cfg.holdEnabled = false → q.hasHeld = false)
    (hp : Presents cfg h q e dq x) :
    let r := deliverNew cfg q e dq took o
    r.port.HoldInv cfg h (ops ++ [.put x]) ∧
      Shows cfg h r.port r.entry r.dequeued (registerView cfg.holdEnabled ops (some x)) := by
  have hseq := seq_succ (x := x) hs
  cases hh : cfg.holdEnabled
  · simp only [deliverNew, hh, Bool.false_eq_true, if_false]
    refine ⟨⟨hseq, by simp [hun hh, hh], by simp [hh]⟩, ⟨?_, hp.block⟩⟩
    simp [viewOf, registerView, Delivery.view, turnOp, hh, hp.data, hp.size, hp.pts, hseq,
      ← hp.bytes, hp.planes]
  · simp only [deliverNew, hh, if_true]
    refine ⟨⟨hseq, by simp [hh], ?_⟩, ⟨?_, hp.block⟩⟩
    · intro y _ hy
      obtain rfl : x = y := by simpa using hy
      exact ⟨hp.data, hp.size, hp.pts, hp.planes, hp.bytes, hp.block⟩
    · simp [viewOf, registerView, Delivery.view, turnOp, hh, hp.data, hp.size, hp.pts, hseq,
        ← hp.bytes, hp.planes]

@[simp] theorem shownPlanes_none : shownPlanes cfg none = [] := by
  unfold shownPlanes
  split <;> rfl

theorem presents_pushed (hc : q.currentDmabufBuf = none) :
    Presents cfg h (takePushed q) (presentPushed q) dq (pushedDelivery h q) := by
  refine ⟨rfl, rfl, rfl, presentPushed_bytes, ?_, ?_⟩
  · simp [takePushed, hc, pushedDelivery]
  · intro l hl
    simpa [presentPushed, takePushed] using hl

theorem presents_graph {b : PwBuffer} (hc : q.currentDmabufBuf = none)
    (hb : inputBufferPresent cfg b = true) :
    Presents cfg h (presentGraph cfg q b).1 (presentGraph cfg q b).2 (some b)
      (graphDelivery cfg b) := by
  cases hu : cfg.useDmabuf
  · simp only [presentGraph, graphDelivery, hu, Bool.false_eq_true, if_false]
    refine ⟨rfl, rfl, rfl, ?_, by simp [hc], fun l hl => absurd hl firstData_ne_block⟩
    cases hd : b.buffer.datas with
    | nil => simp [inputBufferPresent, hd] at hb
    | cons d ds =>
      cases hdata : d.data with
      | none => simp [SpaBuffer.firstData, hd, hdata, bytesAt]
      | some base =>
        simp [SpaBuffer.firstData, hd, hdata, bytesAt, SpaBuffer.bytesFrom]
  · simp only [presentGraph, graphDelivery, hu, if_true]
    exact ⟨rfl, rfl, rfl, rfl, by simp [shownPlanes, hu], by simp⟩

/-- Without new data the port shows what hold has, or nothing. -/
theorem deliverNothing_holds {took : Option PwBuffer} (hc : q.currentDmabufBuf = none)
    (hi : q.HoldInv cfg h ops) :
    let r := deliverNothing cfg q dq took
    r.port.HoldInv cfg h (ops ++ [.idle]) ∧
      Shows cfg h r.port r.entry r.dequeued (registerView cfg.holdEnabled ops none) := by
  have hcount : (puts (ops ++ [(.idle : Op Delivery)])).length = (puts ops).length := by simp
  by_cases hh : cfg.holdEnabled = true ∧ q.hasHeld = true
  · obtain ⟨x, hx⟩ := Option.isSome_iff_exists.mp (hi.hasHeld.mp hh.2).2
    obtain ⟨hdata, hsize, hpts, hplanes, hbytes, hblock⟩ := hi.held x hh.1 hx
    simp only [deliverNothing, hh, and_self, if_true]
    refine ⟨⟨by rw [hcount]; exact hi.seq, by simpa [hh] using hi.hasHeld, ?_⟩, ⟨?_, hblock⟩⟩
    · intro y he hy
      obtain ⟨hdata, hsize, hpts, hplanes, hbytes, hblock⟩ := hi.held y he (by simpa using hy)
      exact ⟨hdata, hsize, hpts, hplanes, hbytes, hblock⟩
    · simp [viewOf, registerView, hx, Delivery.view, turnOp, hh.1, hi.seq, ← hdata, ← hsize,
        ← hpts, ← hbytes, hplanes]
  · have hnone : (if cfg.holdEnabled then kept ops else none) = none := by
      split
      · rename_i he
        have hn : q.hasHeld ≠ true := fun hq => hh ⟨he, hq⟩
        simpa [hi.hasHeld, he] using hn
      · rfl
    simp only [deliverNothing, hh, if_false]
    refine ⟨⟨by rw [hcount]; exact hi.seq, by simpa using hi.hasHeld, ?_⟩, ⟨?_, ?_⟩⟩
    · intro y he hy
      exact hi.held y he (by simpa using hy)
    · simp [viewOf, registerView, hnone, PortView.nothing, PortBuffer.empty, turnOp, bytesAt, hc,
        hi.seq]
    · simp [PortBuffer.empty]

/-- A turn of the first loop is a turn of the register. -/
theorem prepareInput_holds (staged : Bool) (dq : Option PwBuffer) (hc : q.currentDmabufBuf = none)
    (hun : cfg.holdEnabled = false → q.hasHeld = false) (hi : q.HoldInv cfg h ops) :
    let r := prepareInput cfg q staged dq
    r.port.HoldInv cfg h (ops ++ [turnOp (newData cfg h q staged dq)]) ∧
      Shows cfg h r.port r.entry r.dequeued
        (registerView cfg.holdEnabled ops (newData cfg h q staged dq)) := by
  rcases prepareInput_cases cfg q staged dq with
    ⟨hs, hp, hr⟩ | ⟨hn, b, rfl, hb, hr⟩ | ⟨hn, habsent, hr⟩
  · have hnew : newData cfg h q staged dq = some (pushedDelivery h q) := by simp [newData, hs, hp]
    rw [hr, hnew]
    exact deliverNew_holds hi.seq hun (presents_pushed hc)
  · have hnew : newData cfg h q staged (some b) = some (graphDelivery cfg b) := by
      rw [newData, if_neg hn]
      simp [hb]
    have hq : (presentGraph cfg q b).1.updateSeq = q.updateSeq ∧
        (presentGraph cfg q b).1.hasHeld = q.hasHeld := by
      unfold presentGraph
      split <;> exact ⟨rfl, rfl⟩
    rw [hr, hnew]
    exact deliverNew_holds (hq.1.trans hi.seq) (fun hh => hq.2.trans (hun hh))
      (presents_graph hc hb)
  · have hnew : newData cfg h q staged dq = none := by
      rw [newData, if_neg hn]
      cases dq with
      | none => rfl
      | some b => simp [habsent b rfl]
    rw [hr, hnew]
    exact deliverNothing_holds hc hi

/-- The invariant reads the heap at the delivered block only, and of the port what hold and
delivery have. -/
theorem PortData.HoldInv.congr (hi : q.HoldInv cfg h ops)
    (hq : ∃ data size cap pts pending, q' = { q with
      pushedData := data, pushedSize := size, pushedCapacity := cap, pushedPts := pts,
      pushedPending := pending })
    (hd : ∀ l, q.deliveredData = some l → h' l = h l) : q'.HoldInv cfg h' ops := by
  obtain ⟨_, _, _, _, _, rfl⟩ := hq
  refine ⟨hi.seq, hi.hasHeld, ?_⟩
  intro x he hx
  have hx := hi.held x he hx
  refine ⟨hx.data, hx.size, hx.pts, hx.planes, ?_, hx.block⟩
  rw [← hx.bytes]
  exact bytesAt_congr fun l hl => hd l (hx.block l hl)

theorem Shows.congr {v : PortView} (hs : Shows cfg h q e dq v)
    (hq : ∃ data size cap pts pending, q' = { q with
      pushedData := data, pushedSize := size, pushedCapacity := cap, pushedPts := pts,
      pushedPending := pending })
    (hd : ∀ l, q.deliveredData = some l → h' l = h l) : Shows cfg h' q' e dq v := by
  obtain ⟨_, _, _, _, _, rfl⟩ := hq
  refine ⟨?_, hs.block⟩
  rw [← hs.view]
  have hbytes : bytesAt h' (if cfg.holdEnabled then q.held else dq) e.data e.size =
      bytesAt h (if cfg.holdEnabled then q.held else dq) e.data e.size :=
    bytesAt_congr fun l hl => hd l (hs.block l hl)
  simp only [viewOf, hbytes]

/-- A stop forgets what hold has, and keeps the count. -/
theorem PortData.HoldInv.reset (hi : q.HoldInv cfg h ops) :
    (Filter.resetHold q).HoldInv cfg h (ops ++ [.reset]) := by
  refine ⟨?_, by simp [Filter.resetHold], by simp⟩
  simpa [Filter.resetHold] using hi.seq

end Port

/-! ### One step, and whole runs -/

variable {cfg : Fin n → PortConfig} {codec : EventCodec} {s : DataState n} {a : DataAction n}
  {p : Fin n} {ws : List (DataOut n)} {ops : List (Op Delivery)}

/-- The first loop is past the port's turn, and not over. -/
def Phase.Past (p : Fin n) : Phase → Prop
  | .preparing _ i => p.val < i
  | _ => False

/-- After the port's own turn the first loop leaves its two array entries alone. -/
theorem past_next (he : (dataMachine cfg codec).Enabled s a)
    (hp : ∀ dq grow, a ≠ .prepare p dq grow)
    (hn : (DataState.next cfg codec s a).phase.Past p) :
    s.phase.Past p ∧ (DataState.next cfg codec s a).buffers p = s.buffers p ∧
      (DataState.next cfg codec s a).dequeued p = s.dequeued p := by
  cases a with
  | push q c => by_cases hc : c.accepts (cfg q) <;> simp_all [DataState.next]
  | stage grown blk => cases hk : s.lock <;> simp_all [DataState.next, DataState.setPort]
  | pushOutput q e grown blk => exact ⟨hn, rfl, rfl⟩
  | beginCycle staged arrays =>
    have hi : s.phase = .idle := he.1
    by_cases hc : skipsCycle n arrays <;> simp [DataState.next, hc, Phase.Past, hi] at hn
  | prepare q dq grow =>
    have hq : s.phase = .preparing s.phase.staged q := he
    have hne : p ≠ q := by
      rintro rfl
      exact hp dq grow rfl
    refine ⟨?_, by simp [DataState.next, hne], by simp [DataState.next, hne]⟩
    rw [hq]
    simp only [DataState.next, Phase.Past] at hn ⊢
    have hv : p.val ≠ q.val := fun h => hne (Fin.ext h)
    omega
  | resetHold =>
    have hi : s.phase = .idle := he
    simp [DataState.next, hi, Phase.Past] at hn
  | setSize q size =>
    have hc : s.phase = .callback := he
    simp [DataState.next, hc, Phase.Past] at hn
  | enterCallback | leaveCallback | finish | endCycle => simp [DataState.next, Phase.Past] at hn

/-- What is neither the port's own turn nor a stop leaves its delivered side alone. -/
theorem pushed_fields_next (hm : (cfg p).mediaType ≠ .event) (hd : (cfg p).direction = .input)
    (he : (dataMachine cfg codec).Enabled s a) (hi : s.DeliveryInv cfg p ws)
    (hp : ∀ dq grow, a ≠ .prepare p dq grow) (hr : a ≠ .resetHold) :
    (∃ data size cap pts pending, (DataState.next cfg codec s a).ports p = { s.ports p with
      pushedData := data, pushedSize := size, pushedCapacity := cap, pushedPts := pts,
      pushedPending := pending }) ∧
      ∀ l, (s.ports p).deliveredData = some l →
        (DataState.next cfg codec s a).heap l = s.heap l := by
  by_cases ht : s.target a = some p
  · rcases input_target hd hi.lock he ht with ⟨grown, blk, c, rfl, hk, hc⟩ | ⟨dq, grow, rfl⟩ | rfl
    · cases c with
      | event e => simp [PushCall.accepts, pushEventAccepts, hm] at hc
      | data c =>
        obtain ⟨-, hheap, hport⟩ := stage_data_outs cfg codec grown blk hk
        obtain ⟨ha, hmissing⟩ := stage_data_enabled he hi.lock hk
        rw [hheap, hport]
        refine ⟨stagePortData_frame _ _ _ _, ?_⟩
        intro l hl
        rcases stagePortData_cases (hi.owned.owns p) hi.port.pushedLength ha hmissing with
          hs | ⟨h', data, cap, hs, -, -, hkeep⟩
        · rw [hs]
        · rw [hs]
          exact hkeep l hl
    · exact absurd rfl (hp dq grow)
    · have hfin : s.finished cfg codec p = (s.heap, s.ports p, none) := by
        simp [DataState.finished, finishPort, hm, hd]
      constructor
      · exact ⟨_, _, _, _, _, by simp [DataState.next, DataState.setPort, hfin]; rfl⟩
      · simp [DataState.next, DataState.setPort, hfin]
  · constructor
    · rcases other_port hi.owned he ht with hsame | ⟨hstop, -⟩
      · exact ⟨_, _, _, _, _, hsame⟩
      · exact absurd hstop hr
    · intro l hl
      exact other_block hi.owned he ht (by simp [PortData.blocks, hl])

/-- The port is its register, and between its turn and the callback shows the turn. -/
structure DataState.HoldInv (cfg : Fin n → PortConfig) (p : Fin n) (ops : List (Op Delivery))
    (s : DataState n) : Prop where
  port : (s.ports p).HoldInv (cfg p) s.heap ops
  shows : s.phase.Past p → ∃ before new, ops = before ++ [turnOp new] ∧
    Shows (cfg p) s.heap (s.ports p) (s.buffers p) (s.dequeued p)
      (registerView (cfg p).holdEnabled before new)

theorem holdInv_next (hm : (cfg p).mediaType ≠ .event) (hd : (cfg p).direction = .input)
    (he : (dataMachine cfg codec).Enabled s a) (hdel : s.DeliveryInv cfg p ws)
    (hi : s.HoldInv cfg p ops) :
    (DataState.next cfg codec s a).HoldInv cfg p (ops ++ s.holdOps cfg p a) := by
  by_cases hprep : ∃ dq grow, a = .prepare p dq grow
  · obtain ⟨dq, grow, rfl⟩ := hprep
    have hclear : (clearDmabuf (s.ports p)).HoldInv (cfg p) s.heap ops :=
      ⟨hi.port.seq, hi.port.hasHeld, fun x hh hx =>
        have hx := hi.port.held x hh hx
        ⟨hx.data, hx.size, hx.pts, hx.planes, hx.bytes, hx.block⟩⟩
    obtain ⟨hport, hshows⟩ := prepareInput_holds (q := clearDmabuf (s.ports p)) s.phase.staged dq
      rfl hdel.port.unheld hclear
    have hr := prepare_data_next codec s hm hd dq grow
    have hops : s.holdOps cfg p (.prepare p dq grow) =
        [turnOp (newData (cfg p) s.heap (s.ports p) s.phase.staged dq)] := if_pos rfl
    have hnew : newData (cfg p) s.heap (clearDmabuf (s.ports p)) s.phase.staged dq =
        newData (cfg p) s.heap (s.ports p) s.phase.staged dq := rfl
    rw [hnew] at hport hshows
    rw [hops]
    constructor
    · simpa [DataState.next, hr] using hport
    · intro _
      refine ⟨ops, newData (cfg p) s.heap (s.ports p) s.phase.staged dq, rfl, ?_⟩
      simpa [DataState.next, hr] using hshows
  · have hne : ∀ dq grow, a ≠ .prepare p dq grow := fun dq grow h => hprep ⟨dq, grow, h⟩
    by_cases hreset : a = .resetHold
    · subst hreset
      have hidle : s.phase = .idle := he
      exact ⟨hi.port.reset, fun hn => by simp [DataState.next, hidle, Phase.Past] at hn⟩
    · have hops : s.holdOps cfg p a = [] := by
        cases a with
        | prepare q dq grow =>
          have hq : q ≠ p := by
            rintro rfl
            exact hne dq grow rfl
          exact if_neg hq
        | resetHold => exact absurd rfl hreset
        | _ => rfl
      obtain ⟨hfields, hheap⟩ := pushed_fields_next hm hd he hdel hne hreset
      rw [hops, List.append_nil]
      refine ⟨hi.port.congr hfields hheap, ?_⟩
      intro hn
      obtain ⟨hpast, hbuf, hdeq⟩ := past_next he hne hn
      obtain ⟨before, new, hbefore, hshows⟩ := hi.shows hpast
      rw [hbuf, hdeq]
      exact ⟨before, new, hbefore, hshows.congr hfields hheap⟩

theorem holdInv_init : (DataState.init n).HoldInv cfg p [] := by
  refine ⟨⟨rfl, by simp [DataState.init, PortData.zeroed, kept, puts], ?_⟩, ?_⟩
  · simp [kept, puts]
  · simp [DataState.init, Phase.Past]

theorem holdInv_run (hm : (cfg p).mediaType ≠ .event) (hd : (cfg p).direction = .input)
    {xs : List (DataAction n)} (h : (dataMachine cfg codec).Valid (.init n) xs) :
    ((dataMachine cfg codec).exec (.init n) xs).HoldInv cfg p
      ((holdMachine cfg codec p).outs (.init n) xs) := by
  refine Machine.run_induction (P := fun ys => ((dataMachine cfg codec).exec (.init n) ys).HoldInv
    cfg p ((holdMachine cfg codec p).outs (.init n) ys)) holdInv_init ?_ h
  intro ys a hys he hi
  have hdel := deliveryInv_run (p := p) hm hd hys
  rw [Machine.exec_append, Machine.outs_append, Machine.outs_cons, Machine.outs_nil,
    List.append_nil]
  exact holdInv_next hm hd he hdel hi

/-! ### The callback -/

/-- While the callback runs, the rest of the filter leaves what it was handed alone. -/
theorem callback_next (hc : s.phase = .callback) (he : (dataMachine cfg codec).Enabled s a)
    (hl : a ≠ .leaveCallback) (hs : ∀ size, a ≠ .setSize p size) :
    (DataState.next cfg codec s a).phase = .callback ∧
      (DataState.next cfg codec s a).buffers p = s.buffers p ∧
      (DataState.next cfg codec s a).dequeued p = s.dequeued p := by
  cases a with
  | push q c => by_cases hq : c.accepts (cfg q) <;> simp [DataState.next, hq, hc]
  | stage grown blk => cases hk : s.lock <;> simp [DataState.next, DataState.setPort, hk, hc]
  | pushOutput q e grown blk => exact ⟨hc, rfl, rfl⟩
  | setSize q size =>
    have hne : p ≠ q := by
      rintro rfl
      exact hs size rfl
    exact ⟨hc, by simp [DataState.next, hne], rfl⟩
  | leaveCallback => exact absurd rfl hl
  | beginCycle staged arrays =>
    have hi : s.phase = .idle := he.1
    simp [hc] at hi
  | prepare | enterCallback | finish | endCycle | resetHold =>
    have hi := he
    simp [dataMachine, DataState.Enabled, hc] at hi

/-- Actions inside the callback, none of them the callback's own write to the entry of `p`. -/
def Untouched (p : Fin n) (ys : List (DataAction n)) : Prop :=
  ∀ a ∈ ys, a ≠ .leaveCallback ∧ ∀ size, a ≠ .setSize p size

theorem callback_entries {ys : List (DataAction n)} (hc : s.phase = .callback)
    (h : (dataMachine cfg codec).Valid s ys) (hys : Untouched p ys) :
    ((dataMachine cfg codec).exec s ys).buffers p = s.buffers p := by
  induction ys generalizing s with
  | nil => rfl
  | cons a ys ih =>
    obtain ⟨hl, hs⟩ := hys a (by simp)
    obtain ⟨hphase, hbuf, -⟩ := callback_next hc h.1 hl hs
    rw [Machine.exec_cons, ← hbuf]
    exact ih hphase h.2 fun b hb => hys b (by simp [hb])

theorem callback_shows (hm : (cfg p).mediaType ≠ .event) (hd : (cfg p).direction = .input)
    {ys : List (DataAction n)} {v : PortView} (hc : s.phase = .callback)
    (h : (dataMachine cfg codec).Valid s ys) (hys : Untouched p ys) (hi : s.DeliveryInv cfg p ws)
    (hv : Shows (cfg p) s.heap (s.ports p) (s.buffers p) (s.dequeued p) v) :
    ((dataMachine cfg codec).exec s ys).view cfg p = v := by
  induction ys generalizing s ws with
  | nil => exact hv.view
  | cons a ys ih =>
    obtain ⟨hl, hs⟩ := hys a (by simp)
    obtain ⟨hphase, hbuf, hdeq⟩ := callback_next hc h.1 hl hs
    have hne : (∀ dq grow, a ≠ .prepare p dq grow) ∧ a ≠ .resetHold := by
      constructor
      · rintro dq grow rfl
        have he : s.phase = .preparing s.phase.staged p := h.1
        simp [hc] at he
      · rintro rfl
        have he : s.phase = .idle := h.1
        simp [hc] at he
    obtain ⟨hfields, hheap⟩ := pushed_fields_next hm hd h.1 hi hne.1 hne.2
    have hnext : Shows (cfg p) (DataState.next cfg codec s a).heap
        ((DataState.next cfg codec s a).ports p) ((DataState.next cfg codec s a).buffers p)
        ((DataState.next cfg codec s a).dequeued p) v := by
      rw [hbuf, hdeq]
      exact hv.congr hfields hheap
    exact ih hphase h.2 (fun b hb => hys b (by simp [hb])) (deliveryInv_next hm hd h.1 hi) hnext

/-- The callback of an input port finds what its register has it show. -/
theorem callback_register (hm : (cfg p).mediaType ≠ .event) (hd : (cfg p).direction = .input)
    {xs ys : List (DataAction n)}
    (h : (dataMachine cfg codec).Valid (.init n) (xs ++ .enterCallback :: ys))
    (hys : Untouched p ys) :
    ∃ before new, (holdMachine cfg codec p).outs (.init n) xs = before ++ [turnOp new] ∧
      ((dataMachine cfg codec).exec (.init n) (xs ++ .enterCallback :: ys)).view cfg p =
        registerView (cfg p).holdEnabled before new := by
  obtain ⟨hxs, henter, hrest⟩ := Machine.valid_append.mp h
  have hphase : ((dataMachine cfg codec).exec (.init n) xs).phase = .preparing _ n := henter
  have hpast : ((dataMachine cfg codec).exec (.init n) xs).phase.Past p := by
    rw [hphase]
    exact p.isLt
  obtain ⟨before, new, hops, hshows⟩ := (holdInv_run hm hd hxs).shows hpast
  refine ⟨before, new, hops, ?_⟩
  have hdel := deliveryInv_next hm hd henter (deliveryInv_run (p := p) hm hd hxs)
  rw [Machine.exec_append, Machine.exec_cons]
  exact callback_shows hm hd rfl hrest hys hdel hshows

/-- An output port's turn of the first loop, and what the callback then finds. -/
theorem output_entry (hm : (cfg p).mediaType ≠ .event) (hd : (cfg p).direction = .output)
    {xs : List (DataAction n)} (h : (dataMachine cfg codec).Valid (.init n) xs)
    (hp : ((dataMachine cfg codec).exec (.init n) xs).phase.Past p) :
    let e := ((dataMachine cfg codec).exec (.init n) xs).buffers p
    e.fresh = false ∧ e.seq = 0 ∧ e.pts = -1 := by
  revert hp
  refine Machine.run_induction (P := fun ys =>
    ((dataMachine cfg codec).exec (.init n) ys).phase.Past p →
      let e := ((dataMachine cfg codec).exec (.init n) ys).buffers p
      e.fresh = false ∧ e.seq = 0 ∧ e.pts = -1) ?_ ?_ h
  · intro hp
    exact hp.elim
  · intro ys a _ he hi hn
    rw [Machine.exec_append] at hn ⊢
    by_cases ha : ∃ dq grow, a = .prepare p dq grow
    · obtain ⟨dq, grow, rfl⟩ := ha
      have hr (q : DataState n) : (q.prepared cfg codec p dq grow) =
          prepareOutput (clearDmabuf (q.ports p)) dq := by
        simp [DataState.prepared, preparePort, hm, hd]
      have hentry (q : PortData) : (prepareOutput q dq).entry.fresh = false ∧
          (prepareOutput q dq).entry.seq = 0 ∧ (prepareOutput q dq).entry.pts = -1 := by
        unfold prepareOutput
        split <;> exact ⟨rfl, rfl, rfl⟩
      simpa [dataMachine, DataState.next, hr] using hentry _
    · obtain ⟨hpast, hbuf, -⟩ := past_next he (fun dq grow hx => ha ⟨dq, grow, hx⟩) hn
      exact hbuf ▸ hi hpast

/-- In every callback of every run, an input port's count is that of its deliveries, it is
fresh exactly when the turn of this cycle, the last one, delivered, and otherwise it shows
what the newest delivery since a stop was, if it holds, or nothing. An output port shows no
freshness, count or time. -/
theorem callback_presents (hm : (cfg p).mediaType ≠ .event) {xs ys : List (DataAction n)}
    (h : (dataMachine cfg codec).Valid (.init n) (xs ++ .enterCallback :: ys))
    (hys : Untouched p ys) :
    let t := (dataMachine cfg codec).exec (.init n) (xs ++ .enterCallback :: ys)
    let v := t.view cfg p
    let ops := (holdMachine cfg codec p).outs (.init n) xs
    ((cfg p).direction = .input →
      v.seq = .ofNat (puts ops).length ∧
        (v.fresh = true ↔ ∃ x, ops.getLast? = some (.put x)) ∧
        (v.fresh = false ↔ ops.getLast? = some .idle) ∧
        (∀ x, ops.getLast? = some (.put x) → v = x.view true v.seq) ∧
        (ops.getLast? = some .idle →
          (∀ x, (cfg p).holdEnabled = true → kept ops = some x → v = x.view false v.seq) ∧
            ((cfg p).holdEnabled = false ∨ kept ops = none → v = .nothing v.seq)) ∧
        ∀ planesLen, portGetDmabufPlanes (cfg p) (t.ports p) planesLen =
          (v.planes.take planesLen, v.planes.length)) ∧
      ((cfg p).direction = .output → v.fresh = false ∧ v.seq = 0 ∧ v.pts = -1) := by
  intro t v ops
  constructor
  · intro hd
    obtain ⟨before, new, hops, hv⟩ := callback_register hm hd h hys
    have hv : v = registerView (cfg p).holdEnabled before new := hv
    have hops : ops = before ++ [turnOp new] := hops
    have hplanes := portGetDmabufPlanes_eq (cfg p) (t.ports p)
    rw [hops, List.getLast?_concat]
    cases new with
    | some x =>
      refine ⟨?_, ?_, ?_, ?_, ?_, hplanes⟩ <;>
        simp [hv, registerView, turnOp, Delivery.view]
    | none =>
      cases hk : (if (cfg p).holdEnabled then kept before else none) with
      | some y =>
        have hh : (cfg p).holdEnabled = true ∧ kept before = some y := by simpa using hk
        refine ⟨?_, ?_, ?_, ?_, ?_, hplanes⟩ <;>
          simp [hv, registerView, turnOp, Delivery.view, hh]
      | none =>
        have hh : (cfg p).holdEnabled = true → kept before = none := by simpa using hk
        refine ⟨?_, ?_, ?_, ?_, ?_, hplanes⟩ <;>
          simp [hv, registerView, turnOp, PortView.nothing, hk]
        intro x he hx
        simp [hh he] at hx
  · intro hd
    obtain ⟨hxs, henter, hrest⟩ := Machine.valid_append.mp h
    have hphase : ((dataMachine cfg codec).exec (.init n) xs).phase = .preparing _ n := henter
    have hentry := output_entry hm hd hxs (by rw [hphase]; exact p.isLt)
    have hbuf : t.buffers p = ((dataMachine cfg codec).exec (.init n) xs).buffers p := by
      simpa [t, dataMachine, DataState.next] using callback_entries rfl hrest hys
    rw [← hbuf] at hentry
    exact hentry

/-- A signal input that holds. -/
def heldSignal : PortConfig := { signalInput with holdEnabled := true }

/-- The first loop of a cycle that does not get the lock. -/
def unstagedTurn (dq : Option PwBuffer) : List (DataAction 1) :=
  [.beginCycle false true, .prepare onePort dq fun _ => true]

/-- A whole cycle with data in the graph. -/
def graphCycle : List (DataAction 1) :=
  unstagedTurn (some (graphBuffer 0 0 (some 4))) ++
    [.enterCallback, .leaveCallback, .finish onePort, .endCycle]

theorem callback_presents_held :
    let xs := graphCycle ++ unstagedTurn none
    let v := ((dataMachine (fun _ => heldSignal) silentCodec).exec (.init 1)
      (xs ++ [.enterCallback])).view (fun _ => heldSignal) onePort
    v.seq = 1 ∧ v.fresh = false ∧ v.data = some (.mapped 0 4) ∧ v.pts = -1 := by
  intro xs v
  have hvalid : (dataMachine (fun _ => heldSignal) silentCodec).Valid (.init 1)
      (xs ++ [.enterCallback]) := by decide
  obtain ⟨hseq, -, hfresh, -, hidle, -⟩ :=
    (callback_presents (p := onePort) (by decide) hvalid (by simp [Untouched])).1 rfl
  have hview := (hidle rfl).1 _ rfl rfl
  exact ⟨hseq, hfresh.mpr rfl, congrArg PortView.data hview, congrArg PortView.pts hview⟩

/-! ### The count is of 64 bits -/

/-- A buffer each cycle, for `k` cycles and the first loop of one more. -/
def countRun : ℕ → List (DataAction 1)
  | 0 => unstagedTurn (some (graphBuffer 0 0 (some 4)))
  | k + 1 => graphCycle ++ countRun k

theorem unstaged_begins {s : DataState 1} (hs : s.phase = .idle) :
    (dataMachine (fun _ => heldSignal) silentCodec).Enabled s (.beginCycle false true) :=
  ⟨hs, by simp⟩

/-- A whole cycle comes back to where it began, one delivery later. -/
theorem graphCycle_spec {s : DataState 1} (hs : s.phase = .idle) :
    (dataMachine (fun _ => heldSignal) silentCodec).Valid s graphCycle ∧
      ((dataMachine (fun _ => heldSignal) silentCodec).exec s graphCycle).phase = .idle ∧
      (puts ((holdMachine (fun _ => heldSignal) silentCodec onePort).outs s graphCycle)).length =
        1 :=
  ⟨⟨unstaged_begins hs, rfl, rfl, rfl, rfl, rfl, trivial⟩, rfl, rfl⟩

theorem countRun_spec (k : ℕ) {s : DataState 1} (hs : s.phase = .idle) :
    (dataMachine (fun _ => heldSignal) silentCodec).Valid s (countRun k ++ [.enterCallback]) ∧
      (puts ((holdMachine (fun _ => heldSignal) silentCodec onePort).outs s (countRun k))).length =
        k + 1 := by
  induction k generalizing s with
  | zero => exact ⟨⟨unstaged_begins hs, rfl, rfl, trivial⟩, rfl⟩
  | succ k ih =>
    obtain ⟨hvalid, hidle, hone⟩ := graphCycle_spec hs
    obtain ⟨hrest, hcount⟩ := ih hidle
    constructor
    · rw [countRun, List.append_assoc]
      exact Machine.valid_append.mpr ⟨hvalid, hrest⟩
    · rw [countRun, Machine.outs_append, Retain.puts_append, List.length_append, hone]
      have hcount' : (puts ((holdMachine (fun _ => heldSignal) silentCodec onePort).outs
        ((holdMachine (fun _ => heldSignal) silentCodec onePort).exec s graphCycle)
          (countRun k))).length = k + 1 := hcount
      omega

/-- After 2^64 deliveries `seq` is 0 again. -/
theorem count_wraps :
    let M := dataMachine (fun _ => heldSignal) silentCodec
    let xs := countRun (2 ^ 64 - 1)
    M.Valid (.init 1) (xs ++ [.enterCallback]) ∧
      ((M.exec (.init 1) (xs ++ [.enterCallback])).view (fun _ => heldSignal) onePort).seq = 0 ∧
      (puts ((holdMachine (fun _ => heldSignal) silentCodec onePort).outs (.init 1) xs)).length =
        2 ^ 64 := by
  intro M xs
  obtain ⟨hvalid, hcount⟩ := countRun_spec (2 ^ 64 - 1) (s := .init 1) rfl
  refine ⟨hvalid, ?_, hcount⟩
  obtain ⟨before, new, hops, hv⟩ := callback_register (p := onePort) (by decide) rfl hvalid
    (by simp [Untouched])
  rw [hv, registerView_seq, ← hops, hcount]
  rfl

end TinyPipewire.Filter
