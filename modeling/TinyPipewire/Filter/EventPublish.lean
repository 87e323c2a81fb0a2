import TinyPipewire.Core.PublishedChunk

/-!
# What an output event port accepts is published

`pwf_filter_port_push_event` on an output port stages the event, measures the sequence and
takes the event back where it does not fit the buffer of the cycle. It measures in 32 bits.
-/

namespace TinyPipewire.Filter

open Pod

/-! ### One push -/

theorem accepts_checks {cfg : PortConfig} {e : PushedEvent}
    (h : pushEventAccepts cfg e = true) :
    e.src.missing = false ∧ eventKindKeyValid e.kind e.key = true := by
  simp_all [pushEventAccepts]

/-- An event is not staged: the array cannot grow, or there is no memory for a copy. -/
def StageFails (q : PortData) (e : PushedEvent) (grown : Bool) (copy : Option Loc) : Prop :=
  (q.pendingEvents.length = q.pendingEventsCapacity ∧ grown = false) ∨
    (0 < e.src.size ∧ copy = none)

instance (q : PortData) (e : PushedEvent) (grown : Bool) (copy : Option Loc) :
    Decidable (StageFails q e grown copy) :=
  inferInstanceAs (Decidable ((_ ∧ _) ∨ (_ ∧ _)))

/-- The exact size of the sequence of what is staged and one event more. -/
def sizeWith (h : Heap Bytes) (q : PortData) (e : PushedEvent) : ℕ :=
  sequenceSize (q.pendingEvents.map (·.item h) ++ [e.item])

/-- The sequence has 2^32 bytes or more, and in 32 bits it fits the buffer. -/
def MeasuredShort (h : Heap Bytes) (q : PortData) (e : PushedEvent) : Prop :=
  2 ^ 32 ≤ sizeWith h q e ∧ sizeWith h q e % 2 ^ 32 ≤ q.eventOutputCapacity

instance (h : Heap Bytes) (q : PortData) (e : PushedEvent) : Decidable (MeasuredShort h q e) :=
  inferInstanceAs (Decidable (_ ∧ _))

/-- What a push should make of the heap and the port: an event that is accepted fits in full
and is staged last, and one that is refused leaves what is staged as it was. -/
structure PushSound (h : Heap Bytes) (q : PortData) (e : PushedEvent)
    (out : Heap Bytes × PortData × PwfError) : Prop where
  accepted : out.2.2 = .ok → sizeWith h q e ≤ q.eventOutputCapacity ∧
    out.2.1.pendingEvents.map (·.item out.1) = q.pendingEvents.map (·.item h) ++ [e.item]
  refused : out.2.2 ≠ .ok → out.2.1.pendingEvents = q.pendingEvents ∧
    q.pendingEvents.map (·.item out.1) = q.pendingEvents.map (·.item h)

variable {h : Heap Bytes} {q : PortData} {e : PushedEvent} {grown : Bool} {copy : Option Loc}

theorem pendingEventAppend_ok_iff (h : Heap Bytes) (q : PortData) (e : PushedEvent)
    (grown : Bool) (copy : Option Loc) :
    (pendingEventAppend h q e grown copy).2.2 = true ↔ ¬ StageFails q e grown copy := by
  unfold pendingEventAppend StageFails
  by_cases hfull : q.pendingEvents.length = q.pendingEventsCapacity ∧ grown = false
  · simp [hfull]
  · rw [if_neg hfull]
    dsimp only
    by_cases hsize : e.src.size > 0
    · cases copy with
      | none => simp [hsize]
      | some l => simpa [hsize] using hfull
    · simpa [hsize] using hfull

/-- Taking the last event back frees its copy, and the others read on as before. -/
theorem popLast_items (ho : h.Owns q.blocks) {h' : Heap Bytes} (last : PendingEvent) {cap : ℕ}
    (hh : (last.data = none ∧ h' = h) ∨
      ∃ l bs, h.Fresh l ∧ last.data = some l ∧ h' = h.store l bs) :
    let p' := { q with
      pendingEventsCapacity := cap
      pendingEvents := q.pendingEvents ++ [last] }
    (pendingEventPopLast h' p').2.pendingEvents = q.pendingEvents ∧
      q.pendingEvents.map (·.item (pendingEventPopLast h' p').1) =
        q.pendingEvents.map (·.item h) := by
  intro p'
  refine ⟨by simp [pendingEventPopLast, p'], ?_⟩
  apply items_congr
  intro k hk
  have hlive : h.Live k := ho.live k (by simp [PortData.blocks, hk])
  rcases hh with ⟨hnone, rfl⟩ | ⟨l, bs, hfresh, hsome, rfl⟩
  · simp [pendingEventPopLast, p', eventBlocks, hnone]
  · have hne : k ≠ l := by
      rintro rfl
      simp [Heap.Live, hfresh] at hlive
    have hfreed : (pendingEventPopLast (h.store l bs) p').1 = (h.store l bs).freeAll [l] := by
      simp [pendingEventPopLast, p', eventBlocks, hsome]
    rw [hfreed, Heap.freeAll_of_notMem (by simpa using hne)]
    exact Heap.store_of_ne hne

/-- A push stages its event last, or leaves what is staged; it measures in 32 bits. -/
theorem pushOutputEvent_spec (grown : Bool) (ho : h.Owns q.blocks) (ha : Answer h.Fresh copy)
    (hacc : e.src.missing = false ∧ eventKindKeyValid e.kind e.key = true) :
    let out := pushOutputEvent controlCodec h q e grown copy
    (out.2.2 = .ok ↔ ¬ StageFails q e grown copy ∧
        sizeWith h q e % 2 ^ 32 ≤ q.eventOutputCapacity) ∧
      (out.2.2 = .ok →
        out.2.1.pendingEvents.map (·.item out.1) = q.pendingEvents.map (·.item h) ++ [e.item]) ∧
      (out.2.2 ≠ .ok → out.2.1.pendingEvents = q.pendingEvents ∧
        q.pendingEvents.map (·.item out.1) = q.pendingEvents.map (·.item h)) := by
  have hstages := pendingEventAppend_ok_iff h q e grown copy
  have hitems := stageEvent_items grown ho ha hacc
  rcases pendingEventAppend_cases (p := q) e grown ha with ⟨cap, hr⟩ | ⟨h', cap, data, hr, hd⟩
  · rw [hr] at hstages
    have hfails : StageFails q e grown copy := by simpa using hstages
    rw [pushOutputEvent, hr]
    refine ⟨?_, ?_, ?_⟩
    · simp [hfails]
    · simp
    · intro _
      exact ⟨rfl, rfl⟩
  · rw [hr] at hstages
    have hstaged : ¬ StageFails q e grown copy := by simpa using hstages
    simp only [stageEvent, hr, if_true] at hitems
    let last : PendingEvent := ⟨e.offset, e.kind, stagedKey e, data, e.src.size⟩
    have hlen : (controlCodec.encode ((q.pendingEvents ++ [last]).map (·.item h'))).length =
        sizeWith h q e % 2 ^ 32 := by
      rw [controlCodec_length, hitems, sizeWith]
    rw [pushOutputEvent, hr]
    dsimp only
    rw [hlen]
    by_cases hfit : sizeWith h q e % 2 ^ 32 ≤ q.eventOutputCapacity
    · rw [if_neg (by omega)]
      refine ⟨?_, fun _ => hitems, fun hno => absurd rfl hno⟩
      exact ⟨fun _ => ⟨hstaged, hfit⟩, fun _ => rfl⟩
    · rw [if_pos (by omega)]
      refine ⟨⟨by simp, fun hno => absurd hno.2 hfit⟩, by simp, fun _ => ?_⟩
      have hcopy : (data = none ∧ h' = h) ∨
          ∃ l bs, h.Fresh l ∧ data = some l ∧ h' = h.store l bs := by
        rcases hd with ⟨-, hnone, hh⟩ | ⟨l, hfresh, hsome, hh⟩
        · exact Or.inl ⟨hnone, hh⟩
        · exact Or.inr ⟨l, _, hfresh, hsome, hh⟩
      exact popLast_items ho last hcopy

/-- A push is sound unless it stages an event it measured short. -/
theorem pushSound_iff (ho : h.Owns q.blocks) (ha : Answer h.Fresh copy)
    (hacc : e.src.missing = false ∧ eventKindKeyValid e.kind e.key = true)
    (hcap : q.eventOutputCapacity < 2 ^ 32) :
    PushSound h q e (pushOutputEvent controlCodec h q e grown copy) ↔
      StageFails q e grown copy ∨ ¬ MeasuredShort h q e := by
  obtain ⟨hok, hitems, hkept⟩ := pushOutputEvent_spec grown ho ha hacc
  constructor
  · intro hsound
    by_contra hno
    obtain ⟨hstaged, hshort⟩ := not_or.mp hno
    obtain ⟨hbig, hfit⟩ := not_not.mp hshort
    have hle := (hsound.accepted (hok.mpr ⟨hstaged, hfit⟩)).1
    omega
  · intro hcond
    refine ⟨?_, hkept⟩
    intro haccepted
    refine ⟨?_, hitems haccepted⟩
    obtain ⟨hstaged, hfit⟩ := hok.mp haccepted
    have hsmall : sizeWith h q e < 2 ^ 32 := by
      by_contra hbig
      exact (hcond.resolve_left hstaged) ⟨by omega, hfit⟩
    rwa [Nat.mod_eq_of_lt hsmall] at hfit

/-! ### The events of a cycle -/

variable {n : ℕ} {cfg : Fin n → PortConfig} {s : DataState n} {a : DataAction n} {p : Fin n}
  {ws vs : List (DataOut n)} {items : List EventItem}

/-- What a cycle has accepted for port `p` after one output more: nothing where it comes to the
port. -/
def DataOut.accumulate (p : Fin n) (items : List EventItem) : DataOut n → List EventItem
  | .presentedEvents q _ _ => if q = p then [] else items
  | w => items ++ (w.acceptedEvent p).toList

/-- The events the port accepted since the cycle came to it, oldest first. -/
def cycleEvents (p : Fin n) (ws : List (DataOut n)) : List EventItem :=
  ws.foldl (DataOut.accumulate p) []

theorem cycleEvents_append :
    cycleEvents p (ws ++ vs) = vs.foldl (DataOut.accumulate p) (cycleEvents p ws) :=
  List.foldl_append

theorem foldl_accumulate_same (h : ∀ w ∈ vs, ∀ is, DataOut.accumulate p is w = is) :
    vs.foldl (DataOut.accumulate p) items = items := by
  induction vs generalizing items with
  | nil => rfl
  | cons w vs ih =>
    obtain ⟨hw, hvs⟩ := List.forall_mem_cons.mp h
    rw [List.foldl_cons, hw]
    exact ih hvs

/-- What does not work on a port accepts nothing for it. -/
theorem accumulate_other {codec : EventCodec} (ht : s.target a ≠ some p) :
    (DataState.out cfg codec s a).foldl (DataOut.accumulate p) items = items := by
  apply foldl_accumulate_same
  intro w hw is
  cases out_emits hw with
  | refused q c => cases c <;> simp [DataOut.accumulate, DataOut.acceptedEvent]
  | staged grown blk r hk =>
    rename_i q c
    have hq : q ≠ p := by simpa [DataState.target, hk] using ht
    cases c <;> simp [DataOut.accumulate, DataOut.acceptedEvent, hq]
  | pushedOutput q e grown blk r =>
    have hq : q ≠ p := by simpa [DataState.target] using ht
    simp [DataOut.accumulate, DataOut.acceptedEvent, hq]
  | presentedEvents q dq grow items o hm =>
    have hq : q ≠ p := by simpa [DataState.target] using ht
    simp [DataOut.accumulate, hq]
  | _ => simp [DataOut.accumulate, DataOut.acceptedEvent]

/-- Where a cycle comes to an event port it has accepted nothing for it. -/
theorem accumulate_prepare {codec : EventCodec} (hm : (cfg p).mediaType = .event)
    (dq : Option PwBuffer) (grow : ℕ → Bool) :
    (DataState.out cfg codec s (.prepare p dq grow)).foldl (DataOut.accumulate p) items = [] := by
  simp [DataState.out, hm, DataOut.accumulate]

theorem accumulate_finish {codec : EventCodec} :
    (DataState.out cfg codec s (.finish p)).foldl (DataOut.accumulate p) items = items := by
  apply foldl_accumulate_same
  intro w hw is
  obtain ⟨b, -, rfl⟩ := List.mem_map.mp hw
  simp [DataOut.accumulate, DataOut.acceptedEvent]

theorem accumulate_push {codec : EventCodec} (e : PushedEvent) (grown : Bool) (blk : Option Loc) :
    (DataState.out cfg codec s (.pushOutput p e grown blk)).foldl (DataOut.accumulate p) items =
      items ++ if (s.outputPushed codec p e grown blk).2.2 = .ok then [e.item] else [] := by
  by_cases hr : (s.outputPushed codec p e grown blk).2.2 = .ok <;>
    simp [DataState.out, DataOut.accumulate, DataOut.acceptedEvent, hr]

/-! ### Runs -/

/-- The block a port's cycle writes to: the first of the buffer it dequeued. -/
def DataState.outputBlock (s : DataState n) (p : Fin n) : Option SpaData :=
  (s.dequeued p).bind fun b => b.buffer.datas.head?

/-- The block a port's cycle writes to, and its size: a 32-bit one, and 0 where there is no
block. -/
structure DataState.RoomInv (cfg : Fin n → PortConfig) (p : Fin n) (s : DataState n) :
    Prop where
  output : s.OutputInv cfg p
  small : (s.ports p).eventOutputCapacity < 2 ^ 32
  unmapped : s.phase.Within p → s.outputBlock p = none → (s.ports p).eventOutputCapacity = 0

theorem prepareEventOutput_capacity (q : PortData) (dq : Option PwBuffer) :
    (prepareEventOutput q dq).port.eventOutputCapacity < 2 ^ 32 ∧
      ((prepareEventOutput q dq).dequeued.bind (fun b => b.buffer.datas.head?) = none →
        (prepareEventOutput q dq).port.eventOutputCapacity = 0) := by
  unfold prepareEventOutput
  cases mappedBuffer dq with
  | none => simp
  | some b =>
    have hmax : (b.buffer.datas.head?.map fun d => d.maxsize.toNat).getD 0 < 2 ^ 32 := by
      cases b.buffer.datas.head? with
      | none => simp
      | some d => exact d.maxsize.toNat_lt
    refine ⟨hmax, ?_⟩
    intro hnone
    replace hnone : b.buffer.datas.head? = none := hnone
    simp [hnone]

theorem push_capacity {e : PushedEvent} {grown : Bool} {blk : Option Loc}
    (he : (dataMachine cfg controlCodec).Enabled s (.pushOutput p e grown blk)) :
    ((DataState.next cfg controlCodec s (.pushOutput p e grown blk)).ports p).eventOutputCapacity =
      (s.ports p).eventOutputCapacity := by
  obtain ⟨es, cap, hp⟩ := pushOutputEvent_frame controlCodec (s.ports p) e grown he.2.2
  rw [(pushOutput_next cfg s p controlCodec e grown blk).1, hp]

/-- What does not work on a port leaves its capacity alone. -/
theorem capacity_other (ho : s.Owned) (he : (dataMachine cfg controlCodec).Enabled s a)
    (ht : s.target a ≠ some p) :
    ((DataState.next cfg controlCodec s a).ports p).eventOutputCapacity =
      (s.ports p).eventOutputCapacity := by
  rcases other_port ho he ht with hp | ⟨-, hp⟩ <;> rw [hp]
  rfl

theorem roomInv_next (hm : (cfg p).mediaType = .event) (hd : (cfg p).direction = .output)
    (he : (dataMachine cfg controlCodec).Enabled s a) (hi : s.RoomInv cfg p) :
    (DataState.next cfg controlCodec s a).RoomInv cfg p := by
  have hout := outputInv_next hm hd he hi.output
  have hw := within_next he p
  by_cases ht : s.target a = some p
  · rcases output_target hd hi.output.lock he ht with ⟨e, grown, blk, rfl⟩ | ⟨dq, grow, rfl⟩ | rfl
    · have hport := push_capacity he
      refine ⟨hout, ?_, ?_⟩
      · rw [hport]
        exact hi.small
      · rw [hport]
        intro hin hnone
        exact hi.unmapped (by simpa using hw.mp hin) hnone
    · obtain ⟨hport, hdeq⟩ := prepare_output_next s controlCodec hm hd dq grow
      obtain ⟨hsmall, hnone⟩ := prepareEventOutput_capacity (clearDmabuf (s.ports p)) dq
      refine ⟨hout, ?_, ?_⟩
      · rw [hport]
        exact hsmall
      · rw [hport, DataState.outputBlock, hdeq]
        exact fun _ => hnone
    · have hport : ((DataState.next cfg controlCodec s (.finish p)).ports p).eventOutputCapacity =
          (s.ports p).eventOutputCapacity := by
        simp [DataState.next, DataState.setPort, DataState.finished, finishPort, hm, hd,
          eventClearPending]
      refine ⟨hout, ?_, ?_⟩
      · rw [hport]
        exact hi.small
      · intro hin
        simp [hin] at hw
  · have hport := capacity_other hi.output.owned he ht
    have hdeq : (DataState.next cfg controlCodec s a).dequeued p = s.dequeued p :=
      dequeued_other ht
    refine ⟨hout, ?_, ?_⟩
    · rw [hport]
      exact hi.small
    · rw [hport, DataState.outputBlock, hdeq]
      intro hin hnone
      exact hi.unmapped ((within_other he ht).mp hin) hnone

theorem roomInv_init : (DataState.init n).RoomInv cfg p :=
  ⟨outputInv_init, by simp [DataState.init, PortData.zeroed],
    fun hw => absurd hw (by simp [DataState.init, Phase.Within])⟩

theorem roomInv_run (hm : (cfg p).mediaType = .event) (hd : (cfg p).direction = .output)
    {xs : List (DataAction n)} (h : (dataMachine cfg controlCodec).Valid (.init n) xs) :
    ((dataMachine cfg controlCodec).exec (.init n) xs).RoomInv cfg p :=
  Machine.invariant (I := fun s => s.RoomInv cfg p) roomInv_init
    (fun _ _ he hi => roomInv_next hm hd he hi) h

/-- A push stages no event that it measures short. -/
def MeasuresRight (s : DataState n) : DataAction n → Prop
  | .pushOutput p e grown blk =>
    StageFails (s.ports p) e grown blk ∨ ¬ MeasuredShort s.heap (s.ports p) e
  | _ => True

instance (s : DataState n) : DecidablePred (MeasuresRight s)
  | .pushOutput _ _ _ _ => inferInstanceAs (Decidable (_ ∨ ¬ _))
  | .push _ _ | .stage _ _ | .beginCycle _ _ | .prepare _ _ _ | .enterCallback | .setSize _ _
  | .leaveCallback | .finish _ | .endCycle | .resetHold => inferInstanceAs (Decidable True)

/-- While a cycle is at its callback, what the port has staged is what the cycle accepted for it,
and fits its buffer in full. -/
structure DataState.PublishInv (cfg : Fin n → PortConfig) (p : Fin n) (ws : List (DataOut n))
    (s : DataState n) : Prop where
  room : s.RoomInv cfg p
  accepted : ∀ e ∈ cycleEvents p ws, e.Accepted
  staged : s.phase.Within p → s.stagedEvents p = cycleEvents p ws
  fits : s.phase.Within p → cycleEvents p ws = [] ∨
    sequenceSize (cycleEvents p ws) ≤ (s.ports p).eventOutputCapacity

/-- A push on the port, in a cycle and out of one. -/
theorem publishInv_push {e : PushedEvent} {grown : Bool} {blk : Option Loc}
    (hm : (cfg p).mediaType = .event) (hd : (cfg p).direction = .output)
    (he : (dataMachine cfg controlCodec).Enabled s (.pushOutput p e grown blk))
    (hc : MeasuresRight s (.pushOutput p e grown blk)) (hi : s.PublishInv cfg p ws) :
    (DataState.next cfg controlCodec s (.pushOutput p e grown blk)).PublishInv cfg p
      (ws ++ DataState.out cfg controlCodec s (.pushOutput p e grown blk)) := by
  have hroom := roomInv_next hm hd he hi.room
  have hacc := accepts_checks he.1
  have ho := hi.room.output.owned.owns p
  have hsound : PushSound s.heap (s.ports p) e (s.outputPushed controlCodec p e grown blk) :=
    (pushSound_iff ho he.2.2 hacc hi.room.small).mpr hc
  have hwithin : (DataState.next cfg controlCodec s (.pushOutput p e grown blk)).phase.Within p ↔
      s.phase.Within p := by simp [DataState.next, DataState.setPort]
  have hcap := push_capacity he
  have hstaged : (DataState.next cfg controlCodec s (.pushOutput p e grown blk)).stagedEvents p =
      (s.outputPushed controlCodec p e grown blk).2.1.pendingEvents.map
        (·.item (s.outputPushed controlCodec p e grown blk).1) := by
    simp [DataState.stagedEvents, DataState.next, DataState.setPort]
  have hevents : cycleEvents p (ws ++ DataState.out cfg controlCodec s
      (.pushOutput p e grown blk)) = cycleEvents p ws ++
        if (s.outputPushed controlCodec p e grown blk).2.2 = .ok then [e.item] else [] := by
    rw [cycleEvents_append]
    exact accumulate_push e grown blk
  by_cases hr : (s.outputPushed controlCodec p e grown blk).2.2 = .ok
  · obtain ⟨hsize, hitems⟩ := hsound.accepted hr
    rw [if_pos hr] at hevents
    refine ⟨hroom, ?_, ?_, ?_⟩
    · rw [hevents]
      intro d hd
      rcases List.mem_append.mp hd with hd | hd
      · exact hi.accepted d hd
      · obtain rfl := List.mem_singleton.mp hd
        exact item_accepted he.1
    · intro hin
      rw [hstaged, hevents, ← hi.staged (hwithin.mp hin)]
      exact hitems
    · intro hin
      rw [hevents, hcap, ← hi.staged (hwithin.mp hin)]
      exact Or.inr hsize
  · obtain ⟨hpending, hitems⟩ := hsound.refused hr
    rw [if_neg hr, List.append_nil] at hevents
    refine ⟨hroom, ?_, ?_, ?_⟩
    · rw [hevents]
      exact hi.accepted
    · intro hin
      rw [hstaged, hevents, ← hi.staged (hwithin.mp hin)]
      exact (congrArg _ hpending).trans hitems
    · intro hin
      rw [hevents, hcap]
      exact hi.fits (hwithin.mp hin)

theorem publishInv_next (hm : (cfg p).mediaType = .event) (hd : (cfg p).direction = .output)
    (he : (dataMachine cfg controlCodec).Enabled s a) (hc : MeasuresRight s a)
    (hi : s.PublishInv cfg p ws) :
    (DataState.next cfg controlCodec s a).PublishInv cfg p
      (ws ++ DataState.out cfg controlCodec s a) := by
  have hroom := roomInv_next hm hd he hi.room
  have ho := hi.room.output.owned
  by_cases ht : s.target a = some p
  · rcases output_target hd hi.room.output.lock he ht with
      ⟨e, grown, blk, rfl⟩ | ⟨dq, grow, rfl⟩ | rfl
    · exact publishInv_push hm hd he hc hi
    · have hevents : cycleEvents p (ws ++ DataState.out cfg controlCodec s (.prepare p dq grow)) =
          [] := by
        rw [cycleEvents_append]
        exact accumulate_prepare hm dq grow
      refine ⟨hroom, ?_, ?_, ?_⟩
      · simp [hevents]
      · intro _
        rw [hevents, DataState.stagedEvents, (prepare_output_next s controlCodec hm hd dq grow).1]
        unfold prepareEventOutput
        split <;> rfl
      · exact fun _ => Or.inl hevents
    · have hevents : cycleEvents p (ws ++ DataState.out cfg controlCodec s (.finish p)) =
          cycleEvents p ws := by
        rw [cycleEvents_append]
        exact accumulate_finish
      have hout : ¬ (DataState.next cfg controlCodec s (.finish p)).phase.Within p := by
        rw [within_next he p]
        simp
      refine ⟨hroom, ?_, fun hin => absurd hin hout, fun hin => absurd hin hout⟩
      rw [hevents]
      exact hi.accepted
  · have hevents : cycleEvents p (ws ++ DataState.out cfg controlCodec s a) =
        cycleEvents p ws := by
      rw [cycleEvents_append]
      exact accumulate_other ht
    have hstaged : (DataState.next cfg controlCodec s a).stagedEvents p = s.stagedEvents p := by
      simp only [DataState.stagedEvents, (other_event_arrays ho he ht).1]
      apply items_congr
      intro l hl
      exact other_block ho he ht (by simp [PortData.blocks, hl])
    have hcap := capacity_other ho he ht
    refine ⟨hroom, ?_, ?_, ?_⟩
    · rw [hevents]
      exact hi.accepted
    · intro hin
      rw [hstaged, hevents]
      exact hi.staged ((within_other he ht).mp hin)
    · intro hin
      rw [hevents, hcap]
      exact hi.fits ((within_other he ht).mp hin)

theorem publishInv_run (hm : (cfg p).mediaType = .event) (hd : (cfg p).direction = .output)
    {xs : List (DataAction n)}
    (h : ((dataMachine cfg controlCodec).restrict MeasuresRight).Valid (.init n) xs) :
    ((dataMachine cfg controlCodec).exec (.init n) xs).PublishInv cfg p
      ((dataMachine cfg controlCodec).outs (.init n) xs) :=
  Machine.history_restrict (P := fun ws s => s.PublishInv cfg p ws)
    ⟨roomInv_init, by simp [cycleEvents],
      fun hw => absurd hw (by simp [DataState.init, Phase.Within]),
      fun hw => absurd hw (by simp [DataState.init, Phase.Within])⟩
    (fun _ _ _ he hc hi => publishInv_next hm hd he hc hi) h

/-! ### What goes out -/

/-- The port's turn of the last loop writes the sequence of these events to the buffer of the
cycle, whole, and they can be read there. -/
def DataState.PublishesAll (t : DataState n) (p : Fin n) (items : List EventItem) : Prop :=
  ∃ d, t.outputBlock p = some d ∧ ∀ room : d.maxsize.toNat ≤ d.content.length,
    let out := eventFinishOutput t.heap (t.ports p) d.content d.maxsize room
    out.data = write d.content 0 (eventSequence items) ∧
      out.size.toNat = (eventSequence items).length ∧
      (decodeEvents out.data out.size.toNat).map (DecodedEvent.item out.data) = items

theorem finishing_within {codec : EventCodec} (he : (dataMachine cfg codec).Enabled s (.finish p)) :
    s.phase.Within p := by
  have hphase : s.phase = .finishing p := he
  rw [hphase]
  exact Nat.le_refl _

/-- The buffer of a cycle has room for what fits the port's capacity. -/
theorem outputBlock_of_fits (hr : s.RoomInv cfg p) (hw : s.phase.Within p)
    (hsize : sequenceSize items ≤ (s.ports p).eventOutputCapacity) :
    ∃ d, s.outputBlock p = some d ∧ sequenceSize items ≤ d.maxsize.toNat := by
  cases hb : s.outputBlock p with
  | none =>
    -- there is no room at all without a block
    have hcap := hr.unmapped hw hb
    rw [hcap, sequenceSize] at hsize
    omega
  | some d =>
    obtain ⟨b, hb, hbd⟩ := Option.bind_eq_some_iff.mp hb
    rw [(hr.output.port hw b d hb hbd).1] at hsize
    exact ⟨d, rfl, hsize⟩

/-- In every state of every run, a push to an output event port accepts just what fits the
buffer in full and else leaves what is staged as it was, exactly if it does not stage an event
it measures short; and in runs of such pushes each cycle publishes in full what it accepted. -/
theorem accepted_events_published_iff {xs : List (DataAction n)}
    (h : (dataMachine cfg controlCodec).Valid (.init n) xs) :
    let M := dataMachine cfg controlCodec
    let t := M.exec (.init n) xs
    let ws := M.outs (.init n) xs
    (∀ p e grown blk, M.Enabled t (.pushOutput p e grown blk) →
        (PushSound t.heap (t.ports p) e
            (pushOutputEvent controlCodec t.heap (t.ports p) e grown blk) ↔
          StageFails (t.ports p) e grown blk ∨ ¬ MeasuredShort t.heap (t.ports p) e)) ∧
      (∀ p e, pushEventAccepts (cfg p) e = false → M.next t (.push p (.event e)) = t ∧
        M.out t (.push p (.event e)) = [.pushReturned p (.event e) .invalidArg]) ∧
      ((M.restrict MeasuresRight).Valid (.init n) xs → ∀ p, (cfg p).mediaType = .event →
        (cfg p).direction = .output → M.Enabled t (.finish p) → cycleEvents p ws ≠ [] →
        t.PublishesAll p (cycleEvents p ws)) := by
  intro M t ws
  refine ⟨?_, ?_, ?_⟩
  · intro p e grown blk he
    have haccepts : pushEventAccepts (cfg p) e = true := he.1
    have hm : (cfg p).mediaType = .event := by simp_all [pushEventAccepts]
    have hroom : t.RoomInv cfg p := roomInv_run hm he.2.1 h
    exact pushSound_iff (hroom.output.owned.owns p) he.2.2 (accepts_checks haccepts)
      hroom.small
  · intro p e hrefused
    constructor
    · simp [M, dataMachine, DataState.next, PushCall.accepts, hrefused]
    · simp [M, dataMachine, DataState.out, PushCall.accepts, hrefused]
  · intro hright p hm hd he hsome
    have hi : t.PublishInv cfg p ws := publishInv_run hm hd hright
    have hw : t.phase.Within p := finishing_within he
    have hsize := (hi.fits hw).resolve_left hsome
    obtain ⟨d, hd, hfit⟩ := outputBlock_of_fits hi.room hw hsize
    exact ⟨d, hd, fun room => finishOutput_full hi.accepted (hi.staged hw) room hfit⟩

/-- The filter of one event output port. -/
abbrev eventFilter : Machine (DataState 1) (DataAction 1) (DataOut 1) :=
  dataMachine (fun _ => eventOutput) controlCodec

/-- A buffer of 64 bytes. -/
def noteBuffer : PwBuffer :=
  ⟨1, 1, [⟨.memFd, 3, 0, 64, some 4096, List.replicate 64 0, some ⟨0, 0, 0⟩⟩], none⟩

/-- A cycle whose callback may push to its port. -/
def publishRun : List (DataAction 1) :=
  [.beginCycle true true, .prepare onePort (some noteBuffer) (fun _ => true), .enterCallback]

/-- Its callback pushes a note, and a second that has no room. -/
def publishNotes : List (DataAction 1) :=
  publishRun ++ [.pushOutput onePort noteOn true (some 0),
    .pushOutput onePort ⟨1, .midi, none, .ofBytes (List.replicate 20 0)⟩ true (some 1),
    .leaveCallback]

theorem accepted_events_published_iff_note :
    cycleEvents onePort (eventFilter.outs (.init 1) publishNotes) = [noteOn.item] ∧
      (eventFilter.exec (.init 1) publishNotes).PublishesAll onePort
        (cycleEvents onePort (eventFilter.outs (.init 1) publishNotes)) := by
  have hright : (eventFilter.restrict MeasuresRight).Valid (.init 1) publishNotes := by
    decide +kernel
  have hevents : cycleEvents onePort (eventFilter.outs (.init 1) publishNotes) =
      [noteOn.item] := by decide +kernel
  have hfinish : eventFilter.Enabled (eventFilter.exec (.init 1) publishNotes)
      (.finish onePort) := by decide +kernel
  have hsome : cycleEvents onePort (eventFilter.outs (.init 1) publishNotes) ≠ [] := by
    rw [hevents]
    exact List.cons_ne_nil _ _
  exact ⟨hevents, (accepted_events_published_iff (Machine.valid_of_restrict hright)).2.2 hright
    onePort rfl rfl hfinish hsome⟩

/-- A note of `n` bytes. -/
def noteOf (n : ℕ) : PushedEvent := ⟨0, .midi, none, ⟨some (List.replicate n 0), n, by simp⟩⟩

theorem noteOf_accepted (n : ℕ) : pushEventAccepts eventOutput (noteOf n) = true := by
  simp [pushEventAccepts, noteOf, eventOutput, Source.missing, eventKindKeyValid]

theorem sizeWith_noteOf {h : Heap Bytes} {q : PortData} (hq : q.pendingEvents = []) (n : ℕ) :
    sizeWith h q (noteOf n) = 16 + roundUp (16 + n) := by
  simp [sizeWith, sequenceSize, controlSize, hq, noteOf, PushedEvent.item]

/-- The state in which the callback pushes. -/
def publishing : DataState 1 := eventFilter.exec (.init 1) publishRun

theorem publishing_port : (publishing.ports onePort).pendingEvents = [] ∧
    (publishing.ports onePort).eventOutputCapacity = 64 := by decide

/-- The sequence of a note of 4 GiB would take 2^32 + 32 bytes, which are 32 in 32 bits: it is
accepted for the 64 bytes there are. -/
theorem huge_note_accepted :
    eventFilter.Valid (.init 1) publishRun ∧
      eventFilter.Enabled publishing (.pushOutput onePort (noteOf (2 ^ 32)) true (some 0)) ∧
      (publishing.ports onePort).eventOutputCapacity = 64 ∧
      sizeWith publishing.heap (publishing.ports onePort) (noteOf (2 ^ 32)) = 2 ^ 32 + 32 ∧
      (pushOutputEvent controlCodec publishing.heap (publishing.ports onePort)
        (noteOf (2 ^ 32)) true (some 0)).2.2 = .ok ∧
      ¬ PushSound publishing.heap (publishing.ports onePort) (noteOf (2 ^ 32))
        (pushOutputEvent controlCodec publishing.heap (publishing.ports onePort)
          (noteOf (2 ^ 32)) true (some 0)) := by
  have hvalid : eventFilter.Valid (.init 1) publishRun := by decide
  obtain ⟨hpending, hcap⟩ := publishing_port
  have haccepted := noteOf_accepted (2 ^ 32)
  have hfresh : Answer publishing.heap.Fresh (some 0) := by decide
  have hsize := sizeWith_noteOf (h := publishing.heap) hpending (2 ^ 32)
  rw [show 16 + roundUp (16 + 2 ^ 32) = 2 ^ 32 + 32 by decide] at hsize
  have hstaged : ¬ StageFails (publishing.ports onePort) (noteOf (2 ^ 32)) true (some 0) := by
    rintro (⟨-, hno⟩ | ⟨-, hno⟩)
    · exact absurd hno (by decide)
    · exact absurd hno (by decide)
  have hok := (pushOutputEvent_spec true ((owned_run hvalid).owns onePort) hfresh
    (accepts_checks haccepted)).1.mpr ⟨hstaged, by
      change sizeWith publishing.heap (publishing.ports onePort) (noteOf (2 ^ 32)) % 2 ^ 32 ≤
        (publishing.ports onePort).eventOutputCapacity
      rw [hsize, hcap]
      decide⟩
  refine ⟨hvalid, ⟨haccepted, rfl, hfresh⟩, hcap, hsize, hok, ?_⟩
  intro hsound
  have hfits := (hsound.accepted hok).1
  rw [hsize, hcap] at hfits
  exact absurd hfits (by decide)

end TinyPipewire.Filter
