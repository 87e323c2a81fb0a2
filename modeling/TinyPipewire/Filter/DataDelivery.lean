import TinyPipewire.Filter.Ownership
import TinyPipewire.Lib.Mailbox

/-!
# Pushed data is delivered as pushed

The staging buffer of an audio, video or signal input port is a mailbox of one place:
pushes put, cycles take. What a cycle hands out stays what it is until the port presents
a newer buffer, however many pushes come in between.
-/

namespace TinyPipewire.Filter

open Heap

variable {n : ℕ}

/-! ### What a run pushed and presented -/

/-- Pushed data by value. -/
structure PushedData where
  bytes : Bytes
  size : ℕ
  pts : Int
  deriving DecidableEq

def PortPush.value (c : PortPush) : PushedData := ⟨c.src.bytes, c.src.size, c.pts⟩

/-- The contents of a block, and nothing at NULL. -/
def contents (h : Heap Bytes) (data : Option Loc) : Bytes := (h.load data).getD []

/-- What is staged for the next cycle that gets the lock. -/
def PortData.stagedPush (h : Heap Bytes) (p : PortData) : Option PushedData :=
  if p.pushedPending then
    some ⟨(contents h p.pushedData).take p.pushedSize, p.pushedSize, p.pushedPts⟩
  else none

/-- A push to port `p` that returned `PWF_OK`, or a cycle that presents pushed data. -/
def DataOut.mailboxOp (p : Fin n) : DataOut n → Option (Mailbox.Op PushedData)
  | .pushReturned q (.data c) r => if q = p ∧ r = .ok then some (.put c.value) else none
  | .presented q e shown origin =>
    if q = p ∧ origin = .pushed then some (.take ⟨shown, e.size, e.pts⟩) else none
  | _ => none

def pushTrace (p : Fin n) (ws : List (DataOut n)) : List (Mailbox.Op PushedData) :=
  ws.filterMap (DataOut.mailboxOp p)

/-- A presentation of new data, with the bytes it shows. -/
def DataOut.delivery (p : Fin n) : DataOut n → Option (PortBuffer × Bytes)
  | .presented q e shown _ => if q = p ∧ e.fresh = true then some (e, shown) else none
  | _ => none

/-- The newest data port `p` presented. -/
def lastDelivery (p : Fin n) (ws : List (DataOut n)) : Option (PortBuffer × Bytes) :=
  (ws.filterMap (DataOut.delivery p)).getLast?

section Outs

variable {p : Fin n} {ws vs : List (DataOut n)}

@[simp] theorem pushTrace_append : pushTrace p (ws ++ vs) = pushTrace p ws ++ pushTrace p vs := by
  simp [pushTrace]

theorem lastDelivery_append_nil (h : vs.filterMap (DataOut.delivery p) = []) :
    lastDelivery p (ws ++ vs) = lastDelivery p ws := by
  simp [lastDelivery, h]

theorem lastDelivery_append_one {d : PortBuffer × Bytes}
    (h : vs.filterMap (DataOut.delivery p) = [d]) : lastDelivery p (ws ++ vs) = some d := by
  simp [lastDelivery, h]

end Outs

/-! ### The critical section of a push -/

section Stage

variable {h : Heap Bytes} {p : PortData} {c : PortPush} {grown : Option Loc}

theorem overwrite_length {old bs : Bytes} (hl : bs.length ≤ old.length) :
    (overwrite old bs).length = old.length := by
  simp [overwrite]
  omega

@[simp] theorem overwrite_take {old bs : Bytes} : (overwrite old bs).take bs.length = bs := by
  simp [overwrite]

theorem resize_length {old : Bytes} {size : ℕ} : (resize old size).length = size := by
  simp [resize]
  omega

/-- `delivered_data` is never the block a push writes. -/
theorem delivered_ne_pushed (ho : h.Owns p.blocks) {l k : Loc} (hl : p.deliveredData = some l)
    (hk : p.pushedData = some k) : l ≠ k := by
  rintro rfl
  have hn := ho.nodup
  simp [PortData.blocks, hl, hk] at hn

theorem growPushed_spec {size : ℕ} {r : Heap Bytes × PortData} (ho : h.Owns p.blocks)
    (hcap : (contents h p.pushedData).length = p.pushedCapacity)
    (ha : Answer (h.Movable p.pushedData) grown) (hr : growPushed h p size grown = some r) :
    ∃ data cap, r.2 = { p with pushedData := data, pushedCapacity := cap } ∧ size ≤ cap ∧
      (contents r.1 data).length = cap ∧ ∀ l, p.deliveredData = some l → r.1 l = h l := by
  unfold growPushed at hr
  split at hr
  · cases grown with
    | none => simp at hr
    | some k =>
      obtain rfl := Option.some.inj hr
      refine ⟨some k, size, rfl, Nat.le_refl _, by simp [contents, resize_length], ?_⟩
      intro l hl
      have hlive : h.Live l := ho.live l (by simp [PortData.blocks, hl])
      have hlk : l ≠ k := by
        rintro rfl
        rcases ha with hp | hf
        · exact delivered_ne_pushed ho hl hp rfl
        · simp [Live, hf] at hlive
      have hfree : l ∉ p.pushedData.toList := by
        cases hp : p.pushedData with
        | none => simp
        | some m => simpa using delivered_ne_pushed ho hl hp
      exact (store_of_ne hlk).trans (freeAll_of_notMem hfree)
  · obtain rfl := Option.some.inj hr
    exact ⟨_, _, rfl, by omega, hcap, fun _ _ => rfl⟩

theorem fillPushed_spec (ho : h.Owns p.blocks)
    (hcap : (contents h p.pushedData).length = p.pushedCapacity)
    (hc : c.src.missing = false) (hs : c.src.size ≤ p.pushedCapacity) :
    let r := fillPushed h p c
    (contents r.1 p.pushedData).length = p.pushedCapacity ∧
      (contents r.1 p.pushedData).take c.src.size = c.src.bytes ∧
      ∀ l, p.deliveredData = some l → r.1 l = h l := by
  have hlen := Source.bytes_length hc
  have hempty : c.src.size = 0 → c.src.bytes = [] := fun h0 =>
    List.eq_nil_of_length_eq_zero (by omega)
  cases hp : p.pushedData with
  | none =>
    have h0 : c.src.size = 0 := by
      simp [hp, contents] at hcap
      omega
    simp [fillPushed, hp, hempty h0, contents, ← hcap]
  | some k =>
    by_cases h0 : c.src.size > 0
    · have hold : ((h k).getD []).length = p.pushedCapacity := by simpa [contents, hp] using hcap
      refine ⟨?_, ?_, ?_⟩
      · simpa [fillPushed, hp, h0, contents, ← hold] using overwrite_length (by omega)
      · have h0' : 0 < c.src.bytes.length := by omega
        simp [fillPushed, hp, contents, ← hlen, h0']
      · intro l hl
        simpa [fillPushed, hp, h0] using store_of_ne (delivered_ne_pushed ho hl hp)
    · have hz : c.src.size = 0 := by omega
      simpa [fillPushed, hp, hz, contents, hempty hz] using hcap

/-- A push fails and changes nothing, or stages its data beside what was delivered. -/
theorem stagePortData_cases (ho : h.Owns p.blocks)
    (hcap : (contents h p.pushedData).length = p.pushedCapacity)
    (ha : Answer (h.Movable p.pushedData) grown) (hc : c.src.missing = false) :
    stagePortData h p c grown = (h, p, .noMemory) ∨
      ∃ h' data cap, stagePortData h p c grown =
          (h', { p with
            pushedData := data, pushedCapacity := cap, pushedSize := c.src.size
            pushedPts := c.pts, pushedPending := true }, .ok) ∧
        (contents h' data).length = cap ∧ (contents h' data).take c.src.size = c.src.bytes ∧
        ∀ l, p.deliveredData = some l → h' l = h l := by
  unfold stagePortData
  cases hg : growPushed h p c.src.size grown with
  | none => exact Or.inl rfl
  | some r =>
    obtain ⟨data, cap, hr, hsize, hlen, hkeep⟩ := growPushed_spec ho hcap ha hg
    have hown := (growPushed_transfer ho ha hg).owns
    have hfill := fillPushed_spec (h := r.1) (p := r.2) (c := c) hown (by simpa [hr] using hlen)
      hc (by simpa [hr] using hsize)
    refine Or.inr ⟨(fillPushed r.1 r.2 c).1, data, cap, ?_, ?_, ?_, ?_⟩
    · simp [fillPushed, hr]
    · simpa [hr] using hfill.1
    · simpa [hr] using hfill.2.1
    · intro l hl
      exact (hfill.2.2 l (by simpa [hr] using hl)).trans (hkeep l hl)

end Stage

/-! ### The invariant -/

variable {cfg : Fin n → PortConfig} {codec : EventCodec} {s : DataState n} {a : DataAction n}
  {p : Fin n} {ws : List (DataOut n)}

/-- The push buffers of one port are of their capacities, and what is staged is what the
mailbox of the port's pushes has. -/
structure PortData.PushInv (cfg : PortConfig) (h : Heap Bytes) (p : PortData)
    (trace : List (Mailbox.Op PushedData)) : Prop where
  pushedLength : (contents h p.pushedData).length = p.pushedCapacity
  deliveredLength : (contents h p.deliveredData).length = p.deliveredCapacity
  staged : p.stagedPush h = Mailbox.slot trace
  lawful : Mailbox.Lawful trace
  unheld : cfg.holdEnabled = false → p.hasHeld = false

/-- The newest delivery still reads as it was shown, and hold has nothing else. -/
structure PortData.DataInv (cfg : PortConfig) (h : Heap Bytes) (p : PortData)
    (trace : List (Mailbox.Op PushedData)) (last : Option (PortBuffer × Bytes)) : Prop
    extends p.PushInv cfg h trace where
  shown : ∀ e bs l, last = some (e, bs) → e.data = some (.block l) →
    p.deliveredData = some l ∧ (contents h (some l)).take e.size = bs
  held : p.hasHeld = true → ∃ e bs, last = some (e, bs) ∧ p.heldData = e.data ∧
    p.heldSize = e.size ∧ p.heldPts = e.pts ∧ bytesAt h p.held p.heldData p.heldSize = bs

theorem contents_congr {h h' : Heap Bytes} {data : Option Loc}
    (hd : ∀ l, data = some l → h' l = h l) : contents h' data = contents h data := by
  cases data with
  | none => rfl
  | some l => simp [contents, hd l rfl]

theorem bytesAt_congr {h h' : Heap Bytes} {b : Option PwBuffer} {data : Option Ptr} {size : ℕ}
    (hd : ∀ l, data = some (.block l) → h' l = h l) :
    bytesAt h' b data size = bytesAt h b data size := by
  cases data with
  | none => rfl
  | some ptr =>
    cases ptr with
    | block l => simp [bytesAt, hd l rfl]
    | mapped pool addr => rfl

section PortInv

variable {pc : PortConfig} {h h' : Heap Bytes} {q : PortData} {trace : List (Mailbox.Op PushedData)}
  {last : Option (PortBuffer × Bytes)}

/-- The invariant reads the heap at the port's two blocks only. -/
theorem PortData.DataInv.heap_congr (hi : q.DataInv pc h trace last)
    (hp : ∀ l, q.pushedData = some l → h' l = h l)
    (hd : ∀ l, q.deliveredData = some l → h' l = h l) : q.DataInv pc h' trace last := by
  refine ⟨⟨?_, ?_, ?_, hi.lawful, hi.unheld⟩, ?_, ?_⟩
  · rw [contents_congr hp, hi.pushedLength]
  · rw [contents_congr hd, hi.deliveredLength]
  · rw [← hi.staged]
    simp only [PortData.stagedPush, contents_congr hp]
  · intro e bs l hl he
    obtain ⟨hdel, hbs⟩ := hi.shown e bs l hl he
    refine ⟨hdel, ?_⟩
    rw [contents_congr (fun k hk => hd k (hdel.trans hk)), hbs]
  · intro hh
    obtain ⟨e, bs, hl, h1, h2, h3, hbs⟩ := hi.held hh
    refine ⟨e, bs, hl, h1, h2, h3, ?_⟩
    rw [bytesAt_congr, hbs]
    intro l he
    exact hd l (hi.shown e bs l hl (h1.symm.trans he)).1

/-- A push that stages leaves the delivered side, and so what was shown, alone. -/
theorem PortData.DataInv.stage {c : PortPush} {grown : Option Loc} (hi : q.DataInv pc h trace last)
    (ho : h.Owns q.blocks) (ha : Answer (h.Movable q.pushedData) grown)
    (hc : c.src.missing = false) :
    (stagePortData h q c grown).2.1.DataInv pc (stagePortData h q c grown).1
      (if (stagePortData h q c grown).2.2 = .ok then trace ++ [.put c.value] else trace)
      last := by
  rcases stagePortData_cases ho hi.pushedLength ha hc with
    hr | ⟨h', data, cap, hr, hlen, htake, hkeep⟩
  · simpa [hr] using hi
  · simp only [hr, if_true]
    refine ⟨⟨hlen, ?_, ?_, hi.lawful.snoc (by simp), hi.unheld⟩, ?_, ?_⟩
    · rw [contents_congr hkeep]
      exact hi.deliveredLength
    · simp [PortData.stagedPush, htake, PortPush.value]
    · intro e bs l hl he
      obtain ⟨hdel, hbs⟩ := hi.shown e bs l hl he
      refine ⟨hdel, ?_⟩
      rw [contents_congr (fun k hk => hkeep k (hdel.trans hk)), hbs]
    · intro hh
      obtain ⟨e, bs, hl, h1, h2, h3, hbs⟩ := hi.held hh
      refine ⟨e, bs, hl, h1, h2, h3, ?_⟩
      rw [bytesAt_congr, hbs]
      intro l he
      exact hkeep l (hi.shown e bs l hl (h1.symm.trans he)).1

theorem firstData_ne_block {b : SpaBuffer} {l : Loc} : b.firstData ≠ some (.block l) := by
  unfold SpaBuffer.firstData
  cases b.datas.head? with
  | none => simp
  | some d => cases hd : d.data <;> simp [hd]

theorem presentGraph_ne_block {b : PwBuffer} {l : Loc} :
    (presentGraph pc q b).2.data ≠ some (.block l) := by
  unfold presentGraph
  split
  · simp
  · exact firstData_ne_block

/-- `current_dmabuf_buf` is nothing to a delivery. -/
theorem PortData.DataInv.dmabuf (hi : q.DataInv pc h trace last) (b : Option SpaBuffer) :
    ({ q with currentDmabufBuf := b } : PortData).DataInv pc h trace last :=
  ⟨⟨hi.pushedLength, hi.deliveredLength, hi.staged, hi.lawful, hi.unheld⟩, hi.shown, hi.held⟩

/-- Taking the staged push empties the mailbox. -/
theorem PortData.PushInv.take {x : PushedData} (hi : q.PushInv pc h trace)
    (hx : q.stagedPush h = some x) : (takePushed q).PushInv pc h (trace ++ [.take x]) := by
  refine ⟨hi.deliveredLength, hi.pushedLength, by simp [PortData.stagedPush, takePushed],
    hi.lawful.snoc ?_, hi.unheld⟩
  intro y hy
  obtain rfl := Mailbox.Op.take.inj hy
  rw [← hi.staged, hx]

/-- New data replaces what was shown, and what hold has of it. -/
theorem PortData.PushInv.deliver {e : PortBuffer} {b t : Option PwBuffer} {o : Origin}
    (hi : q.PushInv pc h trace)
    (hblock : ∀ l, e.data = some (.block l) → q.deliveredData = some l) :
    (deliverNew pc q e b t o).port.DataInv pc h trace
      (some ((deliverNew pc q e b t o).entry, (deliverNew pc q e b t o).shown pc h)) := by
  have hshown : ∀ l, e.data = some (.block l) → ∀ d,
      (contents h (some l)).take e.size = bytesAt h d e.data e.size := by
    intro l hl d
    rw [hl]
    rfl
  cases hh : pc.holdEnabled
  · simp only [deliverNew, hh, Bool.false_eq_true, if_false]
    refine ⟨⟨hi.pushedLength, hi.deliveredLength, hi.staged, hi.lawful, hi.unheld⟩, ?_, ?_⟩
    · intro e' bs l hl he
      obtain ⟨rfl, rfl⟩ := Prod.mk.inj (Option.some.inj hl)
      exact ⟨hblock l he, hshown l he _⟩
    · intro hheld
      simp [hi.unheld hh] at hheld
  · simp only [deliverNew, hh, if_true]
    refine ⟨⟨hi.pushedLength, hi.deliveredLength, hi.staged, hi.lawful, by simp [hh]⟩, ?_, ?_⟩
    · intro e' bs l hl he
      obtain ⟨rfl, rfl⟩ := Prod.mk.inj (Option.some.inj hl)
      exact ⟨hblock l he, hshown l he _⟩
    · intro _
      exact ⟨_, _, rfl, rfl, rfl, rfl, by simp [Prepared.shown, hh]⟩

theorem deliverNew_fresh {e : PortBuffer} {b t : Option PwBuffer} {o : Origin} :
    (deliverNew pc q e b t o).entry.fresh = true ∧ (deliverNew pc q e b t o).origin = o := by
  unfold deliverNew
  dsimp only
  split <;> exact ⟨rfl, rfl⟩

theorem deliverNothing_stale {b t : Option PwBuffer} :
    (deliverNothing pc q b t).entry.fresh = false ∧
      (deliverNothing pc q b t).origin ≠ .pushed := by
  unfold deliverNothing
  split <;> simp [PortBuffer.empty]

variable (pc h q) in
theorem deliverNew_entry (e : PortBuffer) (b t : Option PwBuffer) (o : Origin) :
    (deliverNew pc q e b t o).entry.size = e.size ∧ (deliverNew pc q e b t o).entry.pts = e.pts ∧
      (deliverNew pc q e b t o).shown pc h = bytesAt h b e.data e.size := by
  cases hh : pc.holdEnabled <;> simp [deliverNew, Prepared.shown, hh]

theorem presentPushed_bytes {b : Option PwBuffer} :
    bytesAt h b (presentPushed q).data (presentPushed q).size =
      (contents h q.pushedData).take q.pushedSize := by
  cases hp : q.pushedData <;> simp [presentPushed, hp, bytesAt, contents]

/-- The port's turn of the first loop takes the staged push exactly when it has the lock and
there is one. -/
theorem prepareInput_origin (staged : Bool) (dq : Option PwBuffer) :
    (prepareInput pc q staged dq).origin = .pushed ↔
      staged = true ∧ q.pushedPending = true := by
  rcases prepareInput_cases pc q staged dq with
    ⟨hs, hp, hr⟩ | ⟨hn, b, -, -, hr⟩ | ⟨hn, -, hr⟩ <;> rw [hr]
  · simp [deliverNew_fresh, hs, hp]
  · simp [deliverNew_fresh, hn]
  · simp [deliverNothing_stale, hn]

/-- What it then presents is fresh and by value what was staged. -/
theorem prepareInput_pushed {staged : Bool} {dq : Option PwBuffer}
    (ho : (prepareInput pc q staged dq).origin = .pushed) :
    (prepareInput pc q staged dq).entry.fresh = true ∧
      q.stagedPush h = some ⟨(prepareInput pc q staged dq).shown pc h,
        (prepareInput pc q staged dq).entry.size, (prepareInput pc q staged dq).entry.pts⟩ := by
  obtain ⟨hs, hp⟩ := (prepareInput_origin staged dq).mp ho
  rcases prepareInput_cases pc q staged dq with
    ⟨-, -, hr⟩ | ⟨hn, -⟩ | ⟨hn, -⟩
  · obtain ⟨hsize, hpts, hshown⟩ := deliverNew_entry pc h (takePushed q)
      (presentPushed q) none none .pushed
    rw [hr, hsize, hpts, hshown, presentPushed_bytes]
    exact ⟨deliverNew_fresh.1, by simp [PortData.stagedPush, hp, presentPushed]⟩
  · exact absurd ⟨hs, hp⟩ hn
  · exact absurd ⟨hs, hp⟩ hn

/-- What is presented again is what hold has, and by value the newest delivery. -/
theorem PortData.DataInv.represent {staged : Bool} {dq : Option PwBuffer}
    (hi : q.DataInv pc h trace last) (ho : (prepareInput pc q staged dq).origin = .held) :
    ∃ e, last = some (e, (prepareInput pc q staged dq).shown pc h) ∧
      (prepareInput pc q staged dq).entry.data = e.data ∧
      (prepareInput pc q staged dq).entry.size = e.size ∧
      (prepareInput pc q staged dq).entry.pts = e.pts := by
  rcases prepareInput_cases pc q staged dq with
    ⟨-, -, hr⟩ | ⟨-, b, -, -, hr⟩ | ⟨-, -, hr⟩ <;> rw [hr] at ho ⊢
  · simp [deliverNew_fresh] at ho
  · simp [deliverNew_fresh] at ho
  · unfold deliverNothing at ho ⊢
    split at ho
    · rename_i hh
      obtain ⟨e, bs, hl, h1, h2, h3, hbs⟩ := hi.held hh.2
      rw [if_pos hh]
      refine ⟨e, ?_, h1, h2, h3⟩
      simpa [Prepared.shown, hh.1, hbs] using hl
    · simp at ho

theorem PortData.DataInv.prepare {staged : Bool} {dq : Option PwBuffer} {r : Prepared}
    (hi : q.DataInv pc h trace last) (hr : prepareInput pc q staged dq = r) :
    r.port.DataInv pc h
      (if r.origin = .pushed then trace ++ [.take ⟨r.shown pc h, r.entry.size, r.entry.pts⟩]
        else trace)
      (if r.entry.fresh then some (r.entry, r.shown pc h) else last) := by
  have horigin : r.origin = .pushed ↔ staged = true ∧ q.pushedPending = true :=
    hr ▸ prepareInput_origin staged dq
  rcases prepareInput_cases pc q staged dq with
    ⟨hs, hp, hcase⟩ | ⟨hn, b, -, -, hcase⟩ | ⟨hn, -, hcase⟩
  · have ho : r.origin = .pushed := horigin.mpr ⟨hs, hp⟩
    obtain ⟨hfresh, hval⟩ := prepareInput_pushed (h := h) (hr ▸ ho)
    rw [hr] at hfresh hval
    have htake := hi.toPushInv.take hval
    rw [if_pos ho, if_pos hfresh]
    rw [← hr, hcase] at htake ⊢
    exact htake.deliver (by simp [presentPushed, takePushed])
  · have hgraph : (presentGraph pc q b).1.PushInv pc h trace := by
      unfold presentGraph
      split
      · exact (hi.dmabuf _).toPushInv
      · exact hi.toPushInv
    rw [if_neg fun ho => hn (horigin.mp ho), ← hr, hcase, if_pos deliverNew_fresh.1]
    exact hgraph.deliver fun l hl => absurd hl presentGraph_ne_block
  · rw [if_neg fun ho => hn (horigin.mp ho), ← hr, hcase, if_neg (by simp [deliverNothing_stale])]
    unfold deliverNothing
    split
    · exact hi.dmabuf _
    · exact hi

end PortInv

/-! ### One step, and whole runs -/

/-- What a run did to the push buffers of port `p`. -/
structure DataState.DeliveryInv (cfg : Fin n → PortConfig) (p : Fin n)
    (ws : List (DataOut n)) (s : DataState n) : Prop where
  owned : s.Owned
  lock : s.LockInv cfg
  port : (s.ports p).DataInv (cfg p) s.heap (pushTrace p ws) (lastDelivery p ws)

variable (cfg codec) in
theorem stage_data_outs (grown : Bool) (blk : Option Loc) {c : PortPush}
    (hk : s.lock = .push p (.data c)) :
    let r := stagePortData s.heap (s.ports p) c blk
    DataState.out cfg codec s (.stage grown blk) = [.pushReturned p (.data c) r.2.2] ∧
      (DataState.next cfg codec s (.stage grown blk)).heap = r.1 ∧
      (DataState.next cfg codec s (.stage grown blk)).ports p = r.2.1 := by
  simp [DataState.out, DataState.next, DataState.setPort, DataState.staged, hk]

variable (codec s) in
theorem prepare_data_next (hm : (cfg p).mediaType ≠ .event) (hd : (cfg p).direction = .input)
    (dq : Option PwBuffer) (grow : ℕ → Bool) :
    s.prepared cfg codec p dq grow =
      prepareInput (cfg p) (clearDmabuf (s.ports p)) s.phase.staged dq := by
  simp [DataState.prepared, preparePort, hm, hd]

variable (codec s) in
theorem prepare_data_outs (hm : (cfg p).mediaType ≠ .event) (dq : Option PwBuffer)
    (grow : ℕ → Bool) :
    let r := s.prepared cfg codec p dq grow
    pushTrace p (DataState.out cfg codec s (.prepare p dq grow)) =
        (if r.origin = .pushed then
          [.take ⟨r.shown (cfg p) s.heap, r.entry.size, r.entry.pts⟩] else []) ∧
      (DataState.out cfg codec s (.prepare p dq grow)).filterMap (DataOut.delivery p) =
        if r.entry.fresh then [(r.entry, r.shown (cfg p) s.heap)] else [] := by
  intro r
  constructor
  · simp only [pushTrace, filterMap_prepare, if_neg hm]
    by_cases ho : r.origin = .pushed
    · simp [DataOut.mailboxOp, r, ho]
    · simp [DataOut.mailboxOp, r, ho]
  · simp only [filterMap_prepare, if_neg hm]
    cases hf : r.entry.fresh
    · simp [DataOut.delivery, r, hf]
    · simp [DataOut.delivery, r, hf]

variable (cfg codec) in
/-- The outputs that push or present nothing on port `p`. -/
theorem other_data_outs (ht : s.target a ≠ some p ∨ a = .finish p) :
    pushTrace p (DataState.out cfg codec s a) = [] ∧
      (DataState.out cfg codec s a).filterMap (DataOut.delivery p) = [] := by
  have hother : ∀ w, s.Emits cfg a w →
      DataOut.mailboxOp p w = none ∧ DataOut.delivery p w = none := by
    intro w hw
    cases hw with
    | refused q c => cases c <;> simp [DataOut.mailboxOp, DataOut.delivery]
    | staged grown blk r hk =>
      rename_i q c
      have hq : q ≠ p := by simpa [DataState.target, hk] using ht
      cases c <;> simp [DataOut.mailboxOp, DataOut.delivery, hq]
    | presented q dq grow e shown o hm =>
      have hq : q ≠ p := by simpa [DataState.target] using ht
      simp [DataOut.mailboxOp, DataOut.delivery, hq]
    | _ => exact ⟨rfl, rfl⟩
  exact ⟨filterMap_out_nil fun w hw => (hother w hw).1,
    filterMap_out_nil fun w hw => (hother w hw).2⟩

/-- The push that holds the lock passed its checks, and the heap answers it. -/
theorem stage_data_enabled {grown : Bool} {blk : Option Loc} {c : PortPush}
    (he : (dataMachine cfg codec).Enabled s (.stage grown blk)) (hl : s.LockInv cfg)
    (hk : s.lock = .push p (.data c)) :
    Answer (s.heap.Movable (s.ports p).pushedData) blk ∧ c.src.missing = false := by
  constructor
  · have hans : s.lock.Answers s.heap s.ports blk := he
    rwa [hk] at hans
  · have hacc := (hl.accepted p _ hk).1
    simp_all [PushCall.accepts, pushPortDataAccepts]

/-- The port's own data push. -/
theorem deliveryInv_stage {grown : Bool} {blk : Option Loc} {c : PortPush}
    (he : (dataMachine cfg codec).Enabled s (.stage grown blk))
    (hi : s.DeliveryInv cfg p ws) (hk : s.lock = .push p (.data c)) :
    ((DataState.next cfg codec s (.stage grown blk)).ports p).DataInv (cfg p)
      (DataState.next cfg codec s (.stage grown blk)).heap
      (pushTrace p (ws ++ DataState.out cfg codec s (.stage grown blk)))
      (lastDelivery p (ws ++ DataState.out cfg codec s (.stage grown blk))) := by
  obtain ⟨hout, hheap, hport⟩ := stage_data_outs cfg codec grown blk hk
  obtain ⟨ha, hc⟩ := stage_data_enabled he hi.lock hk
  have hstage := hi.port.stage (hi.owned.owns p) ha hc
  rw [hout, hheap, hport, pushTrace_append, lastDelivery_append_nil (by simp [DataOut.delivery])]
  by_cases hr : (stagePortData s.heap (s.ports p) c blk).2.2 = .ok
  · simpa [pushTrace, DataOut.mailboxOp, hr] using hstage
  · simpa [pushTrace, DataOut.mailboxOp, hr] using hstage

/-- The port's turn of the first loop. -/
theorem deliveryInv_prepare (hm : (cfg p).mediaType ≠ .event) (hd : (cfg p).direction = .input)
    {dq : Option PwBuffer} {grow : ℕ → Bool} (hi : s.DeliveryInv cfg p ws) :
    ((DataState.next cfg codec s (.prepare p dq grow)).ports p).DataInv (cfg p) s.heap
      (pushTrace p (ws ++ DataState.out cfg codec s (.prepare p dq grow)))
      (lastDelivery p (ws ++ DataState.out cfg codec s (.prepare p dq grow))) := by
  obtain ⟨htrace, hdel⟩ := prepare_data_outs codec s hm dq grow
  have hprep := (hi.port.dmabuf none).prepare
    (prepare_data_next codec s hm hd dq grow).symm
  have hport : (DataState.next cfg codec s (.prepare p dq grow)).ports p =
      (s.prepared cfg codec p dq grow).port := by simp [DataState.next]
  rw [hport, pushTrace_append, htrace]
  cases hf : (s.prepared cfg codec p dq grow).entry.fresh
  · rw [lastDelivery_append_nil (by simp [hdel, hf])]
    by_cases ho : (s.prepared cfg codec p dq grow).origin = .pushed <;>
      simpa [ho, hf] using hprep
  · rw [lastDelivery_append_one (d := (_, _)) (by simp [hdel, hf]; exact ⟨rfl, rfl⟩)]
    by_cases ho : (s.prepared cfg codec p dq grow).origin = .pushed <;>
      simpa [ho, hf] using hprep

theorem PortData.DataInv.resetHold {pc : PortConfig} {h : Heap Bytes} {q : PortData}
    {trace : List (Mailbox.Op PushedData)} {last : Option (PortBuffer × Bytes)}
    (hi : q.DataInv pc h trace last) : (Filter.resetHold q).DataInv pc h trace last :=
  ⟨⟨hi.pushedLength, hi.deliveredLength, hi.staged, hi.lawful, fun _ => rfl⟩, hi.shown,
    by simp [Filter.resetHold]⟩

/-- What pushes and presents nothing on the port. -/
theorem deliveryInv_other (he : (dataMachine cfg codec).Enabled s a)
    (hi : s.DeliveryInv cfg p ws) (ht : s.target a ≠ some p) :
    ((DataState.next cfg codec s a).ports p).DataInv (cfg p)
      (DataState.next cfg codec s a).heap
      (pushTrace p (ws ++ DataState.out cfg codec s a))
      (lastDelivery p (ws ++ DataState.out cfg codec s a)) := by
  obtain ⟨htrace, hdel⟩ := other_data_outs cfg codec (Or.inl ht)
  rw [pushTrace_append, htrace, List.append_nil, lastDelivery_append_nil hdel]
  have hheap : (s.ports p).DataInv (cfg p) (DataState.next cfg codec s a).heap
      (pushTrace p ws) (lastDelivery p ws) := by
    refine hi.port.heap_congr ?_ ?_ <;> intro l hl <;>
      exact other_block hi.owned he ht (by simp [PortData.blocks, hl])
  rcases other_port hi.owned he ht with hp | ⟨-, hp⟩ <;> rw [hp]
  · exact hheap
  · exact hheap.resetHold

theorem deliveryInv_next (hm : (cfg p).mediaType ≠ .event) (hd : (cfg p).direction = .input)
    (he : (dataMachine cfg codec).Enabled s a) (hi : s.DeliveryInv cfg p ws) :
    (DataState.next cfg codec s a).DeliveryInv cfg p (ws ++ DataState.out cfg codec s a) := by
  refine ⟨owned_next hi.owned he, lockInv_next he hi.lock, ?_⟩
  by_cases ht : s.target a = some p
  · rcases input_target hd hi.lock he ht with ⟨grown, blk, c, rfl, hk, hc⟩ | ⟨dq, grow, rfl⟩ | rfl
    · cases c with
      | data c => exact deliveryInv_stage he hi hk
      | event e => simp [PushCall.accepts, pushEventAccepts, hm] at hc
    · exact deliveryInv_prepare hm hd hi
    · obtain ⟨htrace, hdel⟩ := other_data_outs cfg codec (s := s)
        (p := p) (Or.inr rfl)
      rw [pushTrace_append, htrace, List.append_nil, lastDelivery_append_nil hdel]
      simpa [DataState.next, DataState.setPort, DataState.finished, finishPort, hm, hd]
        using hi.port
  · exact deliveryInv_other he hi ht

theorem deliveryInv_init : (DataState.init n).DeliveryInv cfg p [] := by
  refine ⟨owned_init, lockInv_init, ⟨⟨rfl, rfl, rfl, Mailbox.lawful_nil, fun _ => rfl⟩, ?_, ?_⟩⟩
  · simp [lastDelivery]
  · simp [DataState.init, PortData.zeroed]

theorem deliveryInv_run (hm : (cfg p).mediaType ≠ .event) (hd : (cfg p).direction = .input)
    {xs : List (DataAction n)} (h : (dataMachine cfg codec).Valid (.init n) xs) :
    ((dataMachine cfg codec).exec (.init n) xs).DeliveryInv cfg p
      ((dataMachine cfg codec).outs (.init n) xs) :=
  Machine.history (P := fun ws s => s.DeliveryInv cfg p ws) deliveryInv_init
    (fun _ _ _ he hi => deliveryInv_next hm hd he hi) h

theorem presented_mem (hm : (cfg p).mediaType ≠ .event) {dq : Option PwBuffer} {grow : ℕ → Bool}
    {e : PortBuffer} {bs : Bytes} {o : Origin} :
    .presented p e bs o ∈ DataState.out cfg codec s (.prepare p dq grow) ↔
      (s.prepared cfg codec p dq grow).entry = e ∧
        (s.prepared cfg codec p dq grow).shown (cfg p) s.heap = bs ∧
        (s.prepared cfg codec p dq grow).origin = o := by
  simp [DataState.out, hm, eq_comm]

/-- A push that runs out of memory changes nothing. -/
theorem noMemory_next {grown : Bool} {blk : Option Loc} {c : PortPush}
    (he : (dataMachine cfg codec).Enabled s (.stage grown blk)) (hi : s.DeliveryInv cfg p ws)
    (hr : .pushReturned p (.data c) .noMemory ∈ DataState.out cfg codec s (.stage grown blk)) :
    (DataState.next cfg codec s (.stage grown blk)).ports p = s.ports p ∧
      (DataState.next cfg codec s (.stage grown blk)).heap = s.heap := by
  have hk : s.lock = .push p (.data c) := by
    cases hk : s.lock <;> simp [DataState.out, hk] at hr
    simp [hr.1, hr.2.1]
  obtain ⟨hout, hheap, hport⟩ := stage_data_outs cfg codec grown blk hk
  obtain ⟨ha, hc⟩ := stage_data_enabled he hi.lock hk
  rw [hheap, hport]
  rcases stagePortData_cases (hi.owned.owns p) hi.port.pushedLength ha hc with
    hs | ⟨_, _, _, hs, -⟩
  · rw [hs]
    exact ⟨rfl, rfl⟩
  · simp [hout, hs] at hr

/-- In every run, an audio, video or signal input port presents pushed data as fresh exactly
when the cycle has the lock and a push succeeded since the last one was taken, and presents
that push; pushes are taken at most once and in order, and lost only to later ones; a push
that runs out of memory loses nothing; and what was handed out stays as it was shown. -/
theorem pushed_data_delivered (hm : (cfg p).mediaType ≠ .event)
    (hd : (cfg p).direction = .input) {xs : List (DataAction n)}
    (h : (dataMachine cfg codec).Valid (.init n) xs) :
    let M := dataMachine cfg codec
    let t := M.exec (.init n) xs
    let ws := M.outs (.init n) xs
    (∀ dq grow, M.Enabled t (.prepare p dq grow) →
        ((∃ e bs, .presented p e bs .pushed ∈ M.out t (.prepare p dq grow)) ↔
          t.phase.staged = true ∧ (Mailbox.slot (pushTrace p ws)).isSome = true) ∧
        ∀ e bs, .presented p e bs .pushed ∈ M.out t (.prepare p dq grow) →
          e.fresh = true ∧ Mailbox.slot (pushTrace p ws) = some ⟨bs, e.size, e.pts⟩) ∧
      (Mailbox.takes (pushTrace p ws)).Sublist (Mailbox.puts (pushTrace p ws)) ∧
      (∀ us x vs, pushTrace p ws = us ++ .put x :: vs →
        vs = [] ∨ (∃ rest, vs = .take x :: rest) ∨ ∃ y rest, vs = .put y :: rest) ∧
      (∀ grown blk c, M.Enabled t (.stage grown blk) →
        .pushReturned p (.data c) .noMemory ∈ M.out t (.stage grown blk) →
        (M.next t (.stage grown blk)).ports p = t.ports p ∧
          (M.next t (.stage grown blk)).heap = t.heap) ∧
      (∀ e bs l, lastDelivery p ws = some (e, bs) → e.data = some (.block l) →
        (contents t.heap (some l)).take e.size = bs) ∧
      ∀ dq grow e bs, M.Enabled t (.prepare p dq grow) →
        .presented p e bs .held ∈ M.out t (.prepare p dq grow) →
        ∃ e', lastDelivery p ws = some (e', bs) ∧ e.data = e'.data ∧ e.size = e'.size ∧
          e.pts = e'.pts := by
  intro M t ws
  have hi : t.DeliveryInv cfg p ws := deliveryInv_run hm hd h
  have hclear := hi.port.dmabuf none
  refine ⟨?_, ?_, fun us x vs hus => hi.port.lawful.after_put hus, ?_, ?_, ?_⟩
  · intro dq grow _
    have hprep := prepare_data_next codec t hm hd dq grow
    have hstaged : (Mailbox.slot (pushTrace p ws)).isSome = true ↔
        (t.ports p).pushedPending = true := by
      rw [← hi.port.staged]
      cases hp : (t.ports p).pushedPending <;> simp [PortData.stagedPush, hp]
    constructor
    · rw [hstaged]
      constructor
      · rintro ⟨e, bs, hmem⟩
        obtain ⟨-, -, ho⟩ := (presented_mem hm).mp hmem
        rw [hprep] at ho
        exact (prepareInput_origin (q := clearDmabuf (t.ports p)) _ _).mp ho
      · intro hs
        have ho : (t.prepared cfg codec p dq grow).origin = .pushed := by
          rw [hprep]
          exact (prepareInput_origin (q := clearDmabuf (t.ports p)) _ _).mpr hs
        exact ⟨_, _, (presented_mem hm).mpr ⟨rfl, rfl, ho⟩⟩
    · intro e bs hmem
      obtain ⟨rfl, rfl, ho⟩ := (presented_mem hm).mp hmem
      rw [hprep] at ho ⊢
      obtain ⟨hfresh, hval⟩ := prepareInput_pushed (h := t.heap) ho
      exact ⟨hfresh, hclear.staged.symm.trans hval⟩
  · exact (List.sublist_append_left _ _).trans hi.port.lawful.takes_sublist
  · intro grown blk c he hr
    exact noMemory_next he hi hr
  · intro e bs l hl he
    exact (hi.port.shown e bs l hl he).2
  · intro dq grow e bs _ hmem
    have hprep := prepare_data_next codec t hm hd dq grow
    obtain ⟨rfl, rfl, ho⟩ := (presented_mem hm).mp hmem
    rw [hprep] at ho ⊢
    exact hclear.represent ho

/-- An input port for signals, without hold. -/
def signalInput : PortConfig := ⟨.input, .signal, false, false⟩

def samples (bs : Bytes) : PushCall := .data ⟨.ofBytes bs, 5⟩

/-- Two pushes before a cycle that gets the lock, and a longer one from its callback. -/
def pushRun : List (DataAction 1) :=
  [.push onePort (samples [1]), .stage true (some 7), .push onePort (samples [2, 3]),
    .stage true (some 7), .beginCycle true true, .prepare onePort none (fun _ => true),
    .enterCallback, .push onePort (samples [4, 5, 6]), .stage true (some 8)]

theorem pushed_data_delivered_twice :
    let M := dataMachine (fun _ : Fin 1 => signalInput) silentCodec
    let t := M.exec (.init 1) pushRun
    let ws := M.outs (.init 1) pushRun
    (∀ dq grow, M.Enabled t (.prepare 0 dq grow) →
        ((∃ e bs, .presented 0 e bs .pushed ∈ M.out t (.prepare 0 dq grow)) ↔
          t.phase.staged = true ∧ (Mailbox.slot (pushTrace 0 ws)).isSome = true) ∧
        ∀ e bs, .presented 0 e bs .pushed ∈ M.out t (.prepare 0 dq grow) →
          e.fresh = true ∧ Mailbox.slot (pushTrace 0 ws) = some ⟨bs, e.size, e.pts⟩) ∧
      (Mailbox.takes (pushTrace 0 ws)).Sublist (Mailbox.puts (pushTrace 0 ws)) ∧
      (∀ us x vs, pushTrace 0 ws = us ++ .put x :: vs →
        vs = [] ∨ (∃ rest, vs = .take x :: rest) ∨ ∃ y rest, vs = .put y :: rest) ∧
      (∀ grown blk c, M.Enabled t (.stage grown blk) →
        .pushReturned 0 (.data c) .noMemory ∈ M.out t (.stage grown blk) →
        (M.next t (.stage grown blk)).ports 0 = t.ports 0 ∧
          (M.next t (.stage grown blk)).heap = t.heap) ∧
      (∀ e bs l, lastDelivery 0 ws = some (e, bs) → e.data = some (.block l) →
        (contents t.heap (some l)).take e.size = bs) ∧
      ∀ dq grow e bs, M.Enabled t (.prepare 0 dq grow) →
        .presented 0 e bs .held ∈ M.out t (.prepare 0 dq grow) →
        ∃ e', lastDelivery 0 ws = some (e', bs) ∧ e.data = e'.data ∧ e.size = e'.size ∧
          e.pts = e'.pts :=
  pushed_data_delivered (by decide) (by decide) (by decide)

/-- The second push is presented, and what it showed outlives the third. -/
example : pushTrace (0 : Fin 1) ((dataMachine (fun _ => signalInput) silentCodec).outs
    (.init 1) pushRun) = [.put ⟨[1], 1, 5⟩, .put ⟨[2, 3], 2, 5⟩, .take ⟨[2, 3], 2, 5⟩,
      .put ⟨[4, 5, 6], 3, 5⟩] := by decide

end TinyPipewire.Filter
