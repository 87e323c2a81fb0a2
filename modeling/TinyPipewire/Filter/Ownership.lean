import TinyPipewire.Filter.Cycle

/-!
# Who owns which block

Each port owns the blocks its push buffers and staged events point to, and no action
lets two ports, or two fields of one port, share a block.
-/

namespace TinyPipewire.Filter

open Heap

variable {n : ℕ} {h : Heap Bytes} {p : PortData}

/-! ### The operations, one port at a time -/

@[simp] theorem eventBlocks_nil : eventBlocks [] = [] := rfl

@[simp] theorem eventBlocks_append (es fs : List PendingEvent) :
    eventBlocks (es ++ fs) = eventBlocks es ++ eventBlocks fs := by simp [eventBlocks]

theorem growPushed_transfer {size : ℕ} {grown : Option Loc} (ho : h.Owns p.blocks)
    (ha : Answer (h.Movable p.pushedData) grown) {r : Heap Bytes × PortData}
    (hr : growPushed h p size grown = some r) : Transfer h p.blocks r.1 r.2.blocks := by
  unfold growPushed at hr
  split at hr
  · cases grown with
    | none => simp at hr
    | some l =>
      obtain rfl := Option.some.inj hr
      simp only [PortData.blocks, List.append_assoc] at ho ⊢
      exact Transfer.move ho ha
  · obtain rfl := Option.some.inj hr
    exact Transfer.refl ho

theorem fillPushed_transfer (c : PortPush) (ho : h.Owns p.blocks) :
    Transfer h p.blocks (fillPushed h p c).1 (fillPushed h p c).2.blocks := by
  have hb : (fillPushed h p c).2.blocks = p.blocks := rfl
  rw [hb]
  unfold fillPushed
  cases hp : p.pushedData with
  | none => exact Transfer.refl ho
  | some l =>
    dsimp only
    split
    · exact Transfer.write ho (by simp [PortData.blocks, hp])
    · exact Transfer.refl ho

theorem stagePortData_transfer {c : PortPush} {grown : Option Loc} (ho : h.Owns p.blocks)
    (ha : Answer (h.Movable p.pushedData) grown) :
    Transfer h p.blocks (stagePortData h p c grown).1 (stagePortData h p c grown).2.1.blocks := by
  unfold stagePortData
  cases hg : growPushed h p c.src.size grown with
  | none => exact Transfer.refl ho
  | some r =>
    have hgrow := growPushed_transfer ho ha hg
    exact hgrow.trans (fillPushed_transfer c hgrow.owns)

theorem pendingEventAppend_transfer {e : PushedEvent} {g : Bool} {copy : Option Loc}
    (ho : h.Owns p.blocks) (ha : Answer h.Fresh copy) :
    Transfer h p.blocks (pendingEventAppend h p e g copy).1
      (pendingEventAppend h p e g copy).2.1.blocks := by
  unfold pendingEventAppend
  split
  · exact Transfer.refl ho
  · dsimp only
    split
    · cases copy with
      | none => exact Transfer.refl ho
      | some l =>
        apply (Transfer.alloc ho ha).perm
        simp only [PortData.blocks, eventBlocks_append, List.append_assoc]
        refine .append_left _ (.append_left _ (.append_left _ ?_))
        exact List.perm_append_comm
    · simpa [PortData.blocks, eventBlocks] using Transfer.refl ho

theorem stageEvent_transfer {e : PushedEvent} {grown : Bool} {copy : Option Loc}
    (ho : h.Owns p.blocks) (ha : Answer h.Fresh copy) :
    Transfer h p.blocks (stageEvent h p e grown copy).1
      (stageEvent h p e grown copy).2.1.blocks := by
  have ht := pendingEventAppend_transfer (e := e) (g := grown) ho ha
  unfold stageEvent
  split <;> simp_all

/-- Freeing some of a port's blocks, whatever their place among them. -/
theorem free_transfer {ks ls ms : List Loc} (ho : h.Owns ms) (hp : (ks ++ ls).Perm ms) :
    Transfer h ms (h.freeAll ks) ls :=
  (Transfer.free (ho.perm hp.symm)).perm_left hp

theorem eventClearPending_transfer (ho : h.Owns p.blocks) :
    Transfer h p.blocks (eventClearPending h p).1 (eventClearPending h p).2.blocks := by
  apply free_transfer ho
  simp only [PortData.blocks, eventClearPending, eventBlocks_nil, List.nil_append]
  exact List.perm_append_comm_assoc _ _ _

theorem eventClearDelivering_transfer (ho : h.Owns p.blocks) :
    Transfer h p.blocks (eventClearDelivering h p).1 (eventClearDelivering h p).2.blocks := by
  apply free_transfer ho
  simp only [PortData.blocks, eventClearDelivering, eventBlocks_nil, List.append_nil]
  exact List.perm_append_comm.trans (by rw [List.append_assoc])

theorem pendingEventPopLast_transfer (ho : h.Owns p.blocks) :
    Transfer h p.blocks (pendingEventPopLast h p).1 (pendingEventPopLast h p).2.blocks := by
  apply free_transfer ho
  have hs : eventBlocks p.pendingEvents =
      eventBlocks p.pendingEvents.dropLast ++ eventBlocks p.pendingEvents.getLast?.toList := by
    rcases List.eq_nil_or_concat p.pendingEvents with hn | ⟨es, e, he⟩
    · simp [hn]
    · simp [he]
  simp only [PortData.blocks, pendingEventPopLast, hs]
  refine List.perm_append_comm.trans ?_
  simp only [List.append_assoc]
  refine .append_left _ (.append_left _ (.append_left _ ?_))
  exact List.perm_append_comm

theorem pushOutputEvent_transfer {codec : EventCodec} {e : PushedEvent} {grown : Bool}
    {copy : Option Loc} (ho : h.Owns p.blocks) (ha : Answer h.Fresh copy) :
    Transfer h p.blocks (pushOutputEvent codec h p e grown copy).1
      (pushOutputEvent codec h p e grown copy).2.1.blocks := by
  have ht := pendingEventAppend_transfer (e := e) (g := grown) ho ha
  unfold pushOutputEvent
  split
  · simp_all
  · rename_i h' p' heq
    simp only [heq] at ht
    split
    · exact ht.trans (pendingEventPopLast_transfer ht.owns)
    · exact ht

/-- Loading events changes nothing of the port but `incoming_events`. -/
theorem incomingEventsAppend_eq (p : PortData) (grow : ℕ → Bool) (es : List Event) :
    ∃ is cap, incomingEventsAppend p grow es =
      { p with incomingEvents := is, incomingEventsCapacity := cap } := by
  induction es generalizing p grow with
  | nil => exact ⟨_, _, rfl⟩
  | cons e es ih =>
    obtain ⟨is, cap, hi⟩ := ih (incomingEventAppend p e (grow 0)) fun k => grow (k + 1)
    refine ⟨is, cap, ?_⟩
    rw [incomingEventsAppend, hi]
    unfold incomingEventAppend
    split <;> rfl

@[simp] theorem pendingEvents_incomingEventsAppend (p : PortData) (grow : ℕ → Bool)
    (es : List Event) : (incomingEventsAppend p grow es).pendingEvents = p.pendingEvents := by
  obtain ⟨is, cap, he⟩ := incomingEventsAppend_eq p grow es
  rw [he]

@[simp] theorem deliveringEvents_incomingEventsAppend (p : PortData) (grow : ℕ → Bool)
    (es : List Event) :
    (incomingEventsAppend p grow es).deliveringEvents = p.deliveringEvents := by
  obtain ⟨is, cap, he⟩ := incomingEventsAppend_eq p grow es
  rw [he]

@[simp] theorem blocks_incomingEventsAppend (p : PortData) (grow : ℕ → Bool)
    (es : List Event) : (incomingEventsAppend p grow es).blocks = p.blocks := by
  obtain ⟨is, cap, he⟩ := incomingEventsAppend_eq p grow es
  rw [he]
  rfl

@[simp] theorem blocks_clearDmabuf (p : PortData) : (clearDmabuf p).blocks = p.blocks := rfl

@[simp] theorem blocks_clearIncoming (p : PortData) : (clearIncoming p).blocks = p.blocks := rfl

theorem eventTakeStaged_sublist (p : PortData) (staged : Bool) :
    (eventTakeStaged p staged).blocks.Sublist p.blocks := by
  unfold eventTakeStaged
  split
  · simp [PortData.blocks, eventTakePending]
  · exact List.Sublist.refl _

theorem takePushed_perm (p : PortData) : p.blocks.Perm (takePushed p).blocks :=
  List.perm_append_comm.append_right _

@[simp] theorem blocks_presentGraph (cfg : PortConfig) (p : PortData) (b : PwBuffer) :
    (presentGraph cfg p b).1.blocks = p.blocks := by
  unfold presentGraph
  split <;> rfl

@[simp] theorem blocks_deliverNew (cfg : PortConfig) (p : PortData) (e : PortBuffer)
    (d t : Option PwBuffer) (o : Origin) : (deliverNew cfg p e d t o).port.blocks = p.blocks := by
  unfold deliverNew
  dsimp only
  split <;> rfl

@[simp] theorem blocks_deliverNothing (cfg : PortConfig) (p : PortData)
    (d t : Option PwBuffer) : (deliverNothing cfg p d t).port.blocks = p.blocks := by
  unfold deliverNothing
  split <;> rfl

theorem prepareEventInput_sublist (codec : EventCodec) (p : PortData) (staged : Bool)
    (dq : Option PwBuffer) (grow : ℕ → Bool) :
    (prepareEventInput codec p staged dq grow).port.blocks.Sublist p.blocks := by
  have hq := eventTakeStaged_sublist p staged
  unfold prepareEventInput
  dsimp only
  split
  · simpa only [eventLoadDelivering, blocks_incomingEventsAppend, blocks_clearIncoming] using hq
  · split
    · simpa only [eventDecode, blocks_incomingEventsAppend, blocks_clearIncoming] using hq
    · exact hq

theorem prepareInput_perm (cfg : PortConfig) (p : PortData) (staged : Bool)
    (dq : Option PwBuffer) : p.blocks.Perm (prepareInput cfg p staged dq).port.blocks := by
  rcases prepareInput_cases cfg p staged dq with
    ⟨-, -, hr⟩ | ⟨-, b, -, -, hr⟩ | ⟨-, -, hr⟩ <;> rw [hr]
  · rw [blocks_deliverNew]
    exact takePushed_perm p
  · rw [blocks_deliverNew, blocks_presentGraph]
  · rw [blocks_deliverNothing]

theorem preparePort_transfer (codec : EventCodec) (cfg : PortConfig) (staged : Bool)
    (dq : Option PwBuffer) (grow : ℕ → Bool) (ho : h.Owns p.blocks) :
    Transfer h p.blocks h (preparePort codec cfg p staged dq grow).port.blocks := by
  rcases preparePort_kinds codec cfg p staged dq grow with
    ⟨-, -, hr⟩ | ⟨-, -, hr⟩ | ⟨-, -, hr⟩ | ⟨-, -, hr⟩ <;> rw [hr]
  · exact Transfer.of_sublist ho
      (prepareEventInput_sublist codec (clearDmabuf p) staged dq grow)
  · apply Transfer.of_sublist ho
    unfold prepareEventOutput
    split <;> simp [PortData.blocks, clearDmabuf]
  · exact (Transfer.refl ho).perm (prepareInput_perm cfg (clearDmabuf p) staged dq)
  · unfold prepareOutput
    split <;> exact Transfer.refl ho

theorem finishPort_transfer (codec : EventCodec) (cfg : PortConfig) (e : PortBuffer)
    (dq : Option PwBuffer) (ho : h.Owns p.blocks) :
    Transfer h p.blocks (finishPort codec cfg h p e dq).1
      (finishPort codec cfg h p e dq).2.1.blocks := by
  unfold finishPort
  split
  · split
    · exact eventClearDelivering_transfer ho
    · exact eventClearPending_transfer ho
  · split <;> exact Transfer.refl ho

/-! ### The whole filter -/

variable {cfg : Fin n → PortConfig} {codec : EventCodec} {s : DataState n} {a : DataAction n}

/-- The port an action works on. Stopping works on every port's hold, and on no block. -/
def DataState.target (s : DataState n) : DataAction n → Option (Fin n)
  | .stage _ _ => match s.lock with
    | .push p _ => some p
    | _ => none
  | .pushOutput p _ _ _ => some p
  | .prepare p _ _ => some p
  | .finish p => some p
  | _ => none

/-- What works on a port: a push to it, or its turn of a loop. -/
theorem target_cases {p : Fin n} (ht : s.target a = some p) :
    (∃ grown blk c, a = .stage grown blk ∧ s.lock = .push p c) ∨
      (∃ e grown blk, a = .pushOutput p e grown blk) ∨ (∃ dq grow, a = .prepare p dq grow) ∨
      a = .finish p := by
  cases a with
  | stage grown blk =>
    cases hk : s.lock with
    | push q c =>
      obtain rfl : q = p := by simpa [DataState.target, hk] using ht
      exact Or.inl ⟨grown, blk, c, rfl, rfl⟩
    | _ => simp [DataState.target, hk] at ht
  | pushOutput q e grown blk =>
    obtain rfl : q = p := by simpa [DataState.target] using ht
    exact Or.inr (Or.inl ⟨e, grown, blk, rfl⟩)
  | prepare q dq grow =>
    obtain rfl : q = p := by simpa [DataState.target] using ht
    exact Or.inr (Or.inr (Or.inl ⟨dq, grow, rfl⟩))
  | finish q =>
    obtain rfl : q = p := by simpa [DataState.target] using ht
    exact Or.inr (Or.inr (Or.inr rfl))
  | _ => simp [DataState.target] at ht

/-- What works on an input port: a push that passed its checks, or the port's turn of a
loop. -/
theorem input_target {p : Fin n} (hd : (cfg p).direction = .input) (hl : s.LockInv cfg)
    (he : (dataMachine cfg codec).Enabled s a) (ht : s.target a = some p) :
    (∃ grown blk c, a = .stage grown blk ∧ s.lock = .push p c ∧ c.accepts (cfg p) = true) ∨
      (∃ dq grow, a = .prepare p dq grow) ∨ a = .finish p := by
  rcases target_cases ht with ⟨grown, blk, c, rfl, hk⟩ | ⟨e, grown, blk, rfl⟩ | hturn
  · exact Or.inl ⟨grown, blk, c, rfl, hk, (hl.accepted p c hk).1⟩
  · have hout : (cfg p).direction = .output := he.2.1
    simp [hd] at hout
  · exact Or.inr hturn

/-- Everybody's blocks are their own. -/
def DataState.Owned (s : DataState n) : Prop :=
  Separate (fun p => (s.ports p).blocks) s.heap

theorem staged_transfer {p : Fin n} {c : PushCall} {grown : Bool} {blk : Option Loc}
    (ho : s.heap.Owns (s.ports p).blocks) (hl : s.lock = .push p c)
    (ha : s.lock.Answers s.heap s.ports blk) :
    Transfer s.heap (s.ports p).blocks (s.staged p c grown blk).1
      (s.staged p c grown blk).2.1.blocks := by
  rw [hl] at ha
  cases c with
  | data c => exact stagePortData_transfer ho ha
  | event e => exact stageEvent_transfer ho ha

/-- What an action does to the port it works on is a transfer of that port's blocks. -/
theorem target_transfer (ho : s.Owned) (he : (dataMachine cfg codec).Enabled s a) {p : Fin n}
    (ht : s.target a = some p) :
    Transfer s.heap (s.ports p).blocks (DataState.next cfg codec s a).heap
        ((DataState.next cfg codec s a).ports p).blocks ∧
      ∀ q, q ≠ p → (DataState.next cfg codec s a).ports q = s.ports q := by
  rcases target_cases ht with ⟨grown, blk, c, rfl, hl⟩ | ⟨e, grown, blk, rfl⟩ |
    ⟨dq, grow, rfl⟩ | rfl
  · have hs : Transfer s.heap (s.ports p).blocks (s.staged p c grown blk).1
        (s.staged p c grown blk).2.1.blocks := staged_transfer (ho.owns p) hl he
    refine ⟨by simpa [DataState.next, hl, DataState.setPort] using hs, ?_⟩
    intro r hr
    simp [DataState.next, hl, DataState.setPort, hr]
  · have hs : Transfer s.heap (s.ports p).blocks (s.outputPushed codec p e grown blk).1
        (s.outputPushed codec p e grown blk).2.1.blocks :=
      pushOutputEvent_transfer (ho.owns p) he.2.2
    refine ⟨by simpa [DataState.next, DataState.setPort] using hs, ?_⟩
    intro r hr
    simp [DataState.next, DataState.setPort, hr]
  · have hs : Transfer s.heap (s.ports p).blocks s.heap
        (s.prepared cfg codec p dq grow).port.blocks :=
      preparePort_transfer codec (cfg p) s.phase.staged dq grow (ho.owns p)
    refine ⟨by simpa [DataState.next] using hs, ?_⟩
    intro r hr
    simp [DataState.next, hr]
  · have hs : Transfer s.heap (s.ports p).blocks (s.finished cfg codec p).1
        (s.finished cfg codec p).2.1.blocks :=
      finishPort_transfer codec (cfg p) (s.buffers p) (s.dequeued p) (ho.owns p)
    refine ⟨by simpa [DataState.next, DataState.setPort] using hs, ?_⟩
    intro r hr
    simp [DataState.next, DataState.setPort, hr]

variable (cfg codec) in
/-- An action that works on no port leaves the heap alone, and every port but its hold. -/
theorem untargeted_next (ht : s.target a = none) :
    (DataState.next cfg codec s a).heap = s.heap ∧ ∀ p,
      (DataState.next cfg codec s a).ports p = s.ports p ∨
        (a = .resetHold ∧ (DataState.next cfg codec s a).ports p = resetHold (s.ports p)) := by
  cases a with
  | stage grown blk =>
    cases hl : s.lock with
    | push q c => simp [DataState.target, hl] at ht
    | _ => simp [DataState.next, hl]
  | push q c => by_cases hc : c.accepts (cfg q) <;> simp [DataState.next, hc]
  | beginCycle staged arrays => by_cases hc : skipsCycle n arrays <;> simp [DataState.next, hc]
  | pushOutput | prepare | finish => simp [DataState.target] at ht
  | resetHold => exact ⟨rfl, fun p => Or.inr ⟨rfl, rfl⟩⟩
  | _ => exact ⟨rfl, fun p => Or.inl rfl⟩

/-- What an action does to a port it does not work on. -/
theorem other_port (ho : s.Owned) (he : (dataMachine cfg codec).Enabled s a) {p : Fin n}
    (hp : s.target a ≠ some p) :
    (DataState.next cfg codec s a).ports p = s.ports p ∨
      (a = .resetHold ∧ (DataState.next cfg codec s a).ports p = resetHold (s.ports p)) := by
  cases ht : s.target a with
  | none => exact (untargeted_next cfg codec ht).2 p
  | some q =>
    have hpq : p ≠ q := fun h => hp (h ▸ ht)
    exact Or.inl ((target_transfer ho he ht).2 p hpq)

/-- Nothing changes the blocks of a port but what works on that port. -/
theorem other_block (ho : s.Owned) (he : (dataMachine cfg codec).Enabled s a) {p : Fin n}
    (hp : s.target a ≠ some p) {l : Loc} (hl : l ∈ (s.ports p).blocks) :
    (DataState.next cfg codec s a).heap l = s.heap l := by
  cases ht : s.target a with
  | none => rw [(untargeted_next cfg codec ht).1]
  | some q =>
    have hpq : p ≠ q := fun h => hp (h ▸ ht)
    exact ho.keeps hpq (target_transfer ho he ht).1 hl

/-- The cycle stands where it did with respect to a port no action works on. -/
theorem within_other (he : (dataMachine cfg codec).Enabled s a) {p : Fin n}
    (hp : s.target a ≠ some p) :
    (DataState.next cfg codec s a).phase.Within p ↔ s.phase.Within p := by
  rw [within_next he p]
  constructor
  · rintro (⟨h, -⟩ | ⟨dq, grow, rfl⟩)
    · exact h
    · simp [DataState.target] at hp
  · intro h
    exact Or.inl ⟨h, by rintro rfl; simp [DataState.target] at hp⟩

/-- Only a port's turns of the two loops change what the cycle has dequeued for it. -/
theorem dequeued_next {p : Fin n} (hp : ∀ dq grow, a ≠ .prepare p dq grow)
    (hf : a ≠ .finish p) : (DataState.next cfg codec s a).dequeued p = s.dequeued p := by
  cases a with
  | push q c => by_cases hc : c.accepts (cfg q) <;> simp [DataState.next, hc]
  | stage grown blk => cases hk : s.lock <;> simp [DataState.next, hk, DataState.setPort]
  | beginCycle staged arrays => by_cases hc : skipsCycle n arrays <;> simp [DataState.next, hc]
  | prepare q dq grow =>
    have hq : p ≠ q := by
      rintro rfl
      exact hp dq grow rfl
    simp [DataState.next, hq]
  | finish q =>
    have hq : p ≠ q := by
      rintro rfl
      exact hf rfl
    simp [DataState.next, hq]
  | _ => rfl

theorem owned_next (ho : s.Owned) (he : (dataMachine cfg codec).Enabled s a) :
    (DataState.next cfg codec s a).Owned := by
  cases ht : s.target a with
  | none =>
    obtain ⟨hh, hp⟩ := untargeted_next cfg codec ht
    have hb : (fun p => ((DataState.next cfg codec s a).ports p).blocks) =
        fun p => (s.ports p).blocks := by
      funext p
      rcases hp p with he | ⟨_, he⟩ <;> rw [he]
      rfl
    simpa only [DataState.Owned, hh, hb] using ho
  | some p =>
    obtain ⟨htr, hother⟩ := target_transfer ho he ht
    have hb : (fun q => ((DataState.next cfg codec s a).ports q).blocks) =
        Function.update (fun q => (s.ports q).blocks) p
          ((DataState.next cfg codec s a).ports p).blocks := by
      funext q
      by_cases hq : q = p
      · subst q; simp
      · simp [hq, hother q hq]
    simpa only [DataState.Owned, hb] using ho.update htr

theorem owned_init : (DataState.init n).Owned :=
  ⟨fun _ => ⟨List.nodup_nil, by simp [DataState.init, PortData.blocks, PortData.zeroed]⟩,
    by simp [DataState.init, PortData.blocks, PortData.zeroed]⟩

theorem owned_run {xs : List (DataAction n)}
    (h : (dataMachine cfg codec).Valid (.init n) xs) :
    ((dataMachine cfg codec).exec (.init n) xs).Owned :=
  Machine.invariant owned_init (fun _ _ he ho => owned_next ho he) h

end TinyPipewire.Filter
