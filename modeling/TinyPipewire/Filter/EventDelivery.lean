import TinyPipewire.Filter.Ownership

/-!
# Pushed events are delivered once and in order

What an input event port presents of its pushes, followed by what is still staged, is
what its pushes accepted. Every interleaving of pushes and cycles is covered, whatever
the trylocks answer.
-/

namespace TinyPipewire.Filter

open Heap

variable {n : ℕ}

/-! ### What a run accepted, delivered and left staged -/

/-- The event of a push to port `p` that returned `PWF_OK`. -/
def DataOut.acceptedEvent (p : Fin n) : DataOut n → Option EventItem
  | .pushReturned q (.event e) r => if q = p ∧ r = .ok then some e.item else none
  | _ => none

/-- The events one cycle presents on port `p` out of what was pushed. -/
def DataOut.deliveredEvents (p : Fin n) : DataOut n → List EventItem
  | .presentedEvents q items origin => if q = p ∧ origin = .pushed then items else []
  | _ => []

def acceptedEvents (p : Fin n) (ws : List (DataOut n)) : List EventItem :=
  ws.filterMap (DataOut.acceptedEvent p)

def deliveredEvents (p : Fin n) (ws : List (DataOut n)) : List EventItem :=
  ws.flatMap (DataOut.deliveredEvents p)

def DataState.stagedEvents (s : DataState n) (p : Fin n) : List EventItem :=
  (s.ports p).pendingEvents.map (·.item s.heap)

/-- What `pwf_filter_port_get_event` gives the callback, read through its pointers. -/
def DataState.readableEvents (s : DataState n) (p : Fin n) : List EventItem :=
  (s.ports p).incomingEvents.map (·.item s.heap (s.dequeued p))

/-- The pushes that took `push_lock`, in the order they took it. -/
def lockOrder (ws : List (DataOut n)) : List (Fin n × PushCall) :=
  ws.filterMap fun
    | .pushLocked q c => some (q, c)
    | _ => none

/-- The pushes under `push_lock` that returned, in the order they did. -/
def settledOrder (cfg : Fin n → PortConfig) (ws : List (DataOut n)) :
    List (Fin n × PushCall) :=
  ws.filterMap fun
    | .pushReturned q c _ =>
      if c.accepts (cfg q) = true ∧ (cfg q).direction = .input then some (q, c) else none
    | _ => none

/-- The push holding the lock, when one does. -/
def PushLock.holder : PushLock n → List (Fin n × PushCall)
  | .push q c => [(q, c)]
  | _ => []

@[simp] theorem PushLock.holder_push (q : Fin n) (c : PushCall) :
    (PushLock.push q c).holder = [(q, c)] := rfl

@[simp] theorem PushLock.holder_free : (PushLock.free : PushLock n).holder = [] := rfl

@[simp] theorem PushLock.holder_cycle : (PushLock.cycle : PushLock n).holder = [] := rfl

/-- The cycle's own growth of `incoming_events` succeeds. -/
def GrowsIncoming (_ : DataState n) : DataAction n → Prop
  | .prepare _ _ grow => ∀ k, grow k = true
  | _ => True

section Outs

variable {p : Fin n} {ws vs : List (DataOut n)}

@[simp] theorem acceptedEvents_append :
    acceptedEvents p (ws ++ vs) = acceptedEvents p ws ++ acceptedEvents p vs := by
  simp [acceptedEvents]

@[simp] theorem deliveredEvents_append :
    deliveredEvents p (ws ++ vs) = deliveredEvents p ws ++ deliveredEvents p vs := by
  simp [deliveredEvents]

@[simp] theorem lockOrder_append : lockOrder (ws ++ vs) = lockOrder ws ++ lockOrder vs := by
  simp [lockOrder]

@[simp] theorem settledOrder_append {cfg : Fin n → PortConfig} :
    settledOrder cfg (ws ++ vs) = settledOrder cfg ws ++ settledOrder cfg vs := by
  simp [settledOrder]

end Outs

/-! ### The event arrays, one operation at a time -/

section Arrays

variable {h h' : Heap Bytes} {p : PortData}

theorem PendingEvent.item_congr {e : PendingEvent} (hb : ∀ l, e.data = some l → h' l = h l) :
    e.item h' = e.item h := by
  cases hd : e.data with
  | none => simp [PendingEvent.item, hd]
  | some l => simp [PendingEvent.item, hd, hb l hd]

/-- Staged events read the same as long as nothing touches their blocks. -/
theorem items_congr {es : List PendingEvent} (hb : ∀ l ∈ eventBlocks es, h' l = h l) :
    es.map (·.item h') = es.map (·.item h) := by
  apply List.map_congr_left
  intro e he
  apply PendingEvent.item_congr
  intro l hl
  exact hb l (List.mem_filterMap.mpr ⟨e, he, hl⟩)

@[simp] theorem PendingEvent.incoming_item (e : PendingEvent) (b : Option PwBuffer) :
    e.incoming.item h b = e.item h := by
  cases hd : e.data <;> simp [PendingEvent.incoming, PendingEvent.item, Event.item, bytesAt, hd]

/-- When every growth succeeds, no event is dropped on its way to `incoming_events`. -/
theorem incomingEventsAppend_all {grow : ℕ → Bool} (hg : ∀ k, grow k = true)
    (es : List Event) :
    (incomingEventsAppend p grow es).incomingEvents = p.incomingEvents ++ es := by
  induction es generalizing p grow with
  | nil => simp [incomingEventsAppend]
  | cons e es ih =>
    rw [incomingEventsAppend, ih fun k => hg (k + 1)]
    simp [incomingEventAppend, hg]

theorem mem_incomingEventsAppend {grow : ℕ → Bool} {es : List Event} {e : Event}
    (he : e ∈ (incomingEventsAppend p grow es).incomingEvents) :
    e ∈ p.incomingEvents ∨ e ∈ es := by
  induction es generalizing p grow with
  | nil => exact Or.inl he
  | cons f es ih =>
    rcases ih he with hi | hi
    · unfold incomingEventAppend at hi
      split at hi
      · exact Or.inl hi
      · rcases List.mem_append.mp hi with hi | hi
        · exact Or.inl hi
        · exact Or.inr (by simp_all)
    · exact Or.inr (List.mem_cons_of_mem _ hi)

/-- A valid key is the one the vocabulary has, so staging keeps it. -/
theorem stagedKey_eq {e : PushedEvent} (hv : eventKindKeyValid e.kind e.key = true) :
    stagedKey e = e.key := by
  cases hk : e.kind with
  | property =>
    obtain ⟨entry, he⟩ : ∃ entry, propertyFindByName e.key = some entry := by
      simpa [eventKindKeyValid, hk, Option.isSome_iff_exists] using hv
    rw [stagedKey, if_pos hk, he, propertyFindByName_name he]
    rfl
  | _ => simp_all [eventKindKeyValid, stagedKey]

variable {e : PushedEvent} {grown : Bool} {copy : Option Loc}

/-- Staging an event touches no block that is allocated. -/
theorem stageEvent_keeps (ha : Answer h.Fresh copy) :
    h.KeepsOff (stageEvent h p e grown copy).1 [] := by
  rcases pendingEventAppend_cases (p := p) e grown ha with ⟨cap, hr⟩ | ⟨h', cap, data, hr, hd⟩
  · simp only [stageEvent, hr]
    exact KeepsOff.refl h []
  · simp only [stageEvent, hr]
    rcases hd with ⟨_, _, rfl⟩ | ⟨l, hf, _, rfl⟩
    · exact KeepsOff.refl h' []
    · exact (KeepsOff.refl h []).store (Or.inr hf)

/-- An event push stages the event it was given at the end, or it fails and stages nothing. -/
theorem stageEvent_items (grown : Bool) (ho : h.Owns p.blocks) (ha : Answer h.Fresh copy)
    (hacc : e.src.missing = false ∧ eventKindKeyValid e.kind e.key = true) :
    (stageEvent h p e grown copy).2.1.pendingEvents.map (·.item (stageEvent h p e grown copy).1) =
      p.pendingEvents.map (·.item h) ++
        if (stageEvent h p e grown copy).2.2 = .ok then [e.item] else [] := by
  have hold : p.pendingEvents.map (·.item (stageEvent h p e grown copy).1) =
      p.pendingEvents.map (·.item h) := by
    apply items_congr
    intro l hl
    exact stageEvent_keeps ha l (ho.live l (by simp [PortData.blocks, hl])) (by simp)
  rcases pendingEventAppend_cases (p := p) e grown ha with ⟨cap, hr⟩ | ⟨h', cap, data, hr, hd⟩
  · simp only [stageEvent, hr] at hold ⊢
    simp
  · simp only [stageEvent, hr] at hold ⊢
    have hlen := Source.bytes_length hacc.1
    have hitem : (⟨e.offset, e.kind, stagedKey e, data, e.src.size⟩ : PendingEvent).item h' =
        e.item := by
      rw [stagedKey_eq hacc.2]
      rcases hd with ⟨h0, rfl, rfl⟩ | ⟨l, _, rfl, rfl⟩
      · have : e.src.bytes = [] := List.eq_nil_of_length_eq_zero (by omega)
        simp [PendingEvent.item, PushedEvent.item, this]
      · simp [PendingEvent.item, PushedEvent.item, ← hlen]
    simp only [List.map_append, hold, List.map_cons, hitem]
    simp

theorem prepareEventInput_taken {codec : EventCodec} {dq : Option PwBuffer}
    {grow : ℕ → Bool} (hs : p.pendingEvents ≠ []) :
    prepareEventInput codec p true dq grow =
      ⟨eventLoadDelivering (eventTakePending p) grow, .empty, none, none, none, .pushed⟩ := by
  simp [prepareEventInput, eventTakeStaged, eventTakePending, hs]

/-- With nothing to take, a cycle leaves what is staged and presents the graph's events,
which alias no block of the port. -/
theorem prepareEventInput_left (codec : EventCodec) {staged : Bool} (dq : Option PwBuffer)
    (grow : ℕ → Bool) (hd : p.deliveringEvents = [])
    (hs : ¬(staged = true ∧ p.pendingEvents ≠ [])) :
    let r := prepareEventInput codec p staged dq grow
    r.origin ≠ .pushed ∧ r.port.pendingEvents = p.pendingEvents ∧
      r.port.deliveringEvents = [] ∧
      ∀ e ∈ r.port.incomingEvents, ∀ l, e.data ≠ some (.block l) := by
  have ht : eventTakeStaged p staged = p := if_neg hs
  simp only [prepareEventInput, ht, hd, ne_eq, not_true_eq_false, if_false]
  cases mappedBuffer dq with
  | none => simp [clearIncoming, hd]
  | some b =>
    refine ⟨by simp, by simp [eventDecode, clearIncoming],
      by simp [eventDecode, clearIncoming, hd], ?_⟩
    intro e he l
    rcases mem_incomingEventsAppend he with he | he
    · simp [clearIncoming] at he
    · unfold decodedEvents at he
      split at he
      · simp at he
      · obtain ⟨f, -, rfl⟩ := List.mem_map.mp he
        simp [DecodedEvent.event]

end Arrays

/-! ### The invariant -/

variable {cfg : Fin n → PortConfig} {codec : EventCodec} {s : DataState n} {a : DataAction n}
  {p : Fin n}

/-- The event arrays of an input event port between actions: `delivering_events` is in
use only from the port's turn of the first loop to its turn of the last one, and what
the callback may read points into nothing else. -/
structure DataState.EventInv (cfg : Fin n → PortConfig) (p : Fin n) (s : DataState n) :
    Prop where
  owned : s.Owned
  lock : s.LockInv cfg
  idle : ¬ s.phase.Within p → (s.ports p).deliveringEvents = []
  aliases : s.phase.Within p → ∀ e ∈ (s.ports p).incomingEvents, ∀ l,
    e.data = some (.block l) → l ∈ eventBlocks (s.ports p).deliveringEvents

/-- What works on an input event port: an event push, or the port's turn of a loop. -/
theorem event_target (hm : (cfg p).mediaType = .event) (hd : (cfg p).direction = .input)
    (hl : s.LockInv cfg) (he : (dataMachine cfg codec).Enabled s a)
    (ht : s.target a = some p) :
    (∃ grown blk e, a = .stage grown blk ∧ s.lock = .push p (.event e)) ∨
      (∃ dq grow, a = .prepare p dq grow) ∨ a = .finish p := by
  rcases input_target hd hl he ht with ⟨grown, blk, c, rfl, hk, hc⟩ | hp | hf
  · cases c with
    | data c => simp [PushCall.accepts, pushPortDataAccepts, hm] at hc
    | event e => exact Or.inl ⟨grown, blk, e, rfl, hk⟩
  · exact Or.inr (Or.inl hp)
  · exact Or.inr (Or.inr hf)

/-- What does not work on a port leaves its event arrays alone. -/
theorem other_event_arrays (ho : s.Owned) (he : (dataMachine cfg codec).Enabled s a)
    (ht : s.target a ≠ some p) :
    ((DataState.next cfg codec s a).ports p).pendingEvents = (s.ports p).pendingEvents ∧
      ((DataState.next cfg codec s a).ports p).deliveringEvents =
        (s.ports p).deliveringEvents ∧
      ((DataState.next cfg codec s a).ports p).incomingEvents =
        (s.ports p).incomingEvents := by
  rcases other_port ho he ht with hp | ⟨-, hp⟩ <;> rw [hp] <;> exact ⟨rfl, rfl, rfl⟩

variable (cfg codec) in
theorem other_event_outs (ht : s.target a ≠ some p) :
    acceptedEvents p (DataState.out cfg codec s a) = [] ∧
      deliveredEvents p (DataState.out cfg codec s a) = [] := by
  have hother : ∀ w, s.Emits cfg a w →
      DataOut.acceptedEvent p w = none ∧ DataOut.deliveredEvents p w = [] := by
    intro w hw
    cases hw with
    | refused q c => cases c <;> simp [DataOut.acceptedEvent, DataOut.deliveredEvents]
    | staged grown blk r hk =>
      rename_i q c
      have hq : q ≠ p := by simpa [DataState.target, hk] using ht
      cases c <;> simp [DataOut.acceptedEvent, DataOut.deliveredEvents, hq]
    | pushedOutput q e grown blk r =>
      have hq : q ≠ p := by simpa [DataState.target] using ht
      simp [DataOut.acceptedEvent, DataOut.deliveredEvents, hq]
    | presentedEvents q dq grow items o hm =>
      have hq : q ≠ p := by simpa [DataState.target] using ht
      simp [DataOut.acceptedEvent, DataOut.deliveredEvents, hq]
    | _ => exact ⟨rfl, rfl⟩
  constructor
  · exact filterMap_out_nil fun w hw => (hother w hw).1
  · rw [deliveredEvents, List.flatMap_eq_nil_iff]
    intro w hw
    exact (hother w (out_emits hw)).2

variable (cfg codec) in
/-- What the port's own push does to its event arrays. -/
theorem stage_event_next (grown : Bool) (blk : Option Loc) {e : PushedEvent}
    (hk : s.lock = .push p (.event e)) :
    (DataState.next cfg codec s (.stage grown blk)).ports p =
        (stageEvent s.heap (s.ports p) e grown blk).2.1 ∧
      (DataState.next cfg codec s (.stage grown blk)).heap =
        (stageEvent s.heap (s.ports p) e grown blk).1 := by
  simp [DataState.next, hk, DataState.setPort, DataState.staged]

/-- What the port's turn of the first loop does, for an input event port. -/
theorem prepare_event_next (hm : (cfg p).mediaType = .event)
    (hd : (cfg p).direction = .input) {dq : Option PwBuffer} {grow : ℕ → Bool} :
    s.prepared cfg codec p dq grow =
      prepareEventInput codec (clearDmabuf (s.ports p)) s.phase.staged dq grow := by
  simp [DataState.prepared, preparePort, hm, hd]

variable (codec s) in
theorem finish_event_next (hm : (cfg p).mediaType = .event)
    (hd : (cfg p).direction = .input) :
    (DataState.next cfg codec s (.finish p)).ports p =
        { s.ports p with deliveringEvents := [] } ∧
      (DataState.next cfg codec s (.finish p)).heap =
        s.heap.freeAll (eventBlocks (s.ports p).deliveringEvents) := by
  simp [DataState.next, DataState.setPort, DataState.finished, finishPort, hm, hd,
    eventClearDelivering]

/-- The answer a stage of an event push got is that of a `malloc`. -/
theorem stage_event_answer {grown : Bool} {blk : Option Loc} {e : PushedEvent}
    (he : (dataMachine cfg codec).Enabled s (.stage grown blk))
    (hk : s.lock = .push p (.event e)) : Answer s.heap.Fresh blk := by
  have ha : s.lock.Answers s.heap s.ports blk := he
  rwa [hk] at ha

theorem prepare_aliases (hd : (s.ports p).deliveringEvents = []) {dq : Option PwBuffer}
    {grow : ℕ → Bool} {e : Event} {l : Loc}
    (hmem : e ∈ (prepareEventInput codec (clearDmabuf (s.ports p)) s.phase.staged dq
      grow).port.incomingEvents) (hl : e.data = some (.block l)) :
    l ∈ eventBlocks (prepareEventInput codec (clearDmabuf (s.ports p)) s.phase.staged dq
      grow).port.deliveringEvents := by
  by_cases hs : s.phase.staged = true ∧ (s.ports p).pendingEvents ≠ []
  · rw [hs.1, prepareEventInput_taken (p := clearDmabuf (s.ports p)) hs.2] at hmem ⊢
    rcases mem_incomingEventsAppend hmem with hin | hin
    · simp [clearIncoming] at hin
    · obtain ⟨f, hf, rfl⟩ := List.mem_map.mp hin
      have hfl : f.data = some l := by simpa [PendingEvent.incoming] using hl
      rw [eventLoadDelivering, deliveringEvents_incomingEventsAppend]
      exact List.mem_filterMap.mpr ⟨f, hf, hfl⟩
  · have hleft := prepareEventInput_left (p := clearDmabuf (s.ports p)) codec dq grow hd hs
    exact absurd hl (hleft.2.2.2 e hmem l)

theorem eventInv_next (hm : (cfg p).mediaType = .event) (hd : (cfg p).direction = .input)
    (he : (dataMachine cfg codec).Enabled s a) (hi : s.EventInv cfg p) :
    (DataState.next cfg codec s a).EventInv cfg p := by
  have hw := within_next he p
  refine ⟨owned_next hi.owned he, lockInv_next he hi.lock, ?_, ?_⟩ <;>
    by_cases ht : s.target a = some p
  · intro hn
    rcases event_target hm hd hi.lock he ht with ⟨grown, blk, e, rfl, hk⟩ | ⟨dq, grow, rfl⟩ | rfl
    · obtain ⟨es, cap, hp⟩ := stageEvent_frame (s.ports p) e grown (stage_event_answer he hk)
      rw [(stage_event_next cfg codec grown blk hk).1, hp]
      exact hi.idle fun hin => hn (hw.mpr (Or.inl ⟨hin, by simp⟩))
    · exact absurd (hw.mpr (Or.inr ⟨dq, grow, rfl⟩)) hn
    · rw [(finish_event_next codec s hm hd).1]
  · intro hn
    rw [(other_event_arrays hi.owned he ht).2.1]
    exact hi.idle fun hin => hn ((within_other he ht).mpr hin)
  · intro hin
    rcases event_target hm hd hi.lock he ht with ⟨grown, blk, e, rfl, hk⟩ | ⟨dq, grow, rfl⟩ | rfl
    · obtain ⟨es, cap, hp⟩ := stageEvent_frame (s.ports p) e grown (stage_event_answer he hk)
      rw [(stage_event_next cfg codec grown blk hk).1, hp]
      exact hi.aliases (by simpa using hw.mp hin)
    · have hp : (DataState.next cfg codec s (.prepare p dq grow)).ports p =
          (s.prepared cfg codec p dq grow).port := by simp [DataState.next]
      rw [hp, prepare_event_next hm hd]
      intro e hmem l hl
      exact prepare_aliases (hi.idle (not_within_of_prepare he)) hmem hl
    · simp [hin] at hw
  · intro hin
    obtain ⟨-, hdel, hinc⟩ := other_event_arrays hi.owned he ht
    rw [hdel, hinc]
    exact hi.aliases ((within_other he ht).mp hin)

/-! ### One step, and whole runs -/

/-- A push adds the event it was given to what is staged, if it succeeds. -/
theorem delivery_stage {grown : Bool} {blk : Option Loc} {e : PushedEvent}
    (he : (dataMachine cfg codec).Enabled s (.stage grown blk)) (hi : s.EventInv cfg p)
    (hk : s.lock = .push p (.event e)) :
    deliveredEvents p (DataState.out cfg codec s (.stage grown blk)) ++
        (DataState.next cfg codec s (.stage grown blk)).stagedEvents p =
      s.stagedEvents p ++ acceptedEvents p (DataState.out cfg codec s (.stage grown blk)) := by
  have hacc : e.src.missing = false ∧ eventKindKeyValid e.kind e.key = true := by
    have := (hi.lock.accepted p _ hk).1
    simp_all [PushCall.accepts, pushEventAccepts]
  have hitems := stageEvent_items grown (hi.owned.owns p)
    (stage_event_answer he hk) hacc
  obtain ⟨hp, hh⟩ := stage_event_next cfg codec grown blk hk
  have hout : DataState.out cfg codec s (.stage grown blk) =
      [.pushReturned p (.event e) (stageEvent s.heap (s.ports p) e grown blk).2.2] := by
    simp [DataState.out, hk, DataState.staged]
  simp only [DataState.stagedEvents, hp, hh, hitems, hout]
  by_cases hr : (stageEvent s.heap (s.ports p) e grown blk).2.2 = .ok <;>
    simp [deliveredEvents, acceptedEvents, DataOut.deliveredEvents, DataOut.acceptedEvent, hr]

variable (codec s) in
/-- What the port's turn of the first loop emits of its pushed events is what the
callback then reads. -/
theorem prepare_event_outs (hm : (cfg p).mediaType = .event) (dq : Option PwBuffer)
    (grow : ℕ → Bool) :
    acceptedEvents p (DataState.out cfg codec s (.prepare p dq grow)) = [] ∧
      deliveredEvents p (DataState.out cfg codec s (.prepare p dq grow)) =
        if (s.prepared cfg codec p dq grow).origin = .pushed then
          (DataState.next cfg codec s (.prepare p dq grow)).readableEvents p
        else [] := by
  cases ht : (s.prepared cfg codec p dq grow).took <;>
    cases hr : (s.prepared cfg codec p dq grow).released <;>
      simp [DataState.out, hm, ht, hr, acceptedEvents, deliveredEvents, DataState.readableEvents,
        DataState.next, DataOut.acceptedEvent, DataOut.deliveredEvents]

/-- The port's turn of the first loop presents everything staged, or nothing of it. -/
theorem delivery_prepare (hm : (cfg p).mediaType = .event) (hd : (cfg p).direction = .input)
    {dq : Option PwBuffer} {grow : ℕ → Bool} (hg : ∀ k, grow k = true)
    (hdel : (s.ports p).deliveringEvents = []) :
    deliveredEvents p (DataState.out cfg codec s (.prepare p dq grow)) ++
        (DataState.next cfg codec s (.prepare p dq grow)).stagedEvents p =
      s.stagedEvents p ++
        acceptedEvents p (DataState.out cfg codec s (.prepare p dq grow)) := by
  obtain ⟨hacc, hdeliv⟩ := prepare_event_outs codec s hm dq grow
  have hstaged : (DataState.next cfg codec s (.prepare p dq grow)).stagedEvents p =
      (s.prepared cfg codec p dq grow).port.pendingEvents.map (·.item s.heap) := by
    simp [DataState.stagedEvents, DataState.next]
  have hread : (DataState.next cfg codec s (.prepare p dq grow)).readableEvents p =
      (s.prepared cfg codec p dq grow).port.incomingEvents.map
        (·.item s.heap (s.prepared cfg codec p dq grow).dequeued) := by
    simp [DataState.readableEvents, DataState.next]
  rw [hacc, hdeliv, hstaged, hread, prepare_event_next hm hd, List.append_nil]
  by_cases hs : s.phase.staged = true ∧ (s.ports p).pendingEvents ≠ []
  · rw [hs.1, prepareEventInput_taken (p := clearDmabuf (s.ports p)) hs.2]
    simp [eventLoadDelivering, incomingEventsAppend_all hg, eventTakePending, clearIncoming,
      clearDmabuf, DataState.stagedEvents]
  · obtain ⟨horig, hpend, -, -⟩ := prepareEventInput_left (p := clearDmabuf (s.ports p))
      codec dq grow hdel hs
    rw [if_neg horig, hpend]
    rfl

/-- The port's turn of the last loop frees what was delivered and nothing staged. -/
theorem delivery_finish (hm : (cfg p).mediaType = .event) (hd : (cfg p).direction = .input)
    (ho : s.Owned) :
    deliveredEvents p (DataState.out cfg codec s (.finish p)) ++
        (DataState.next cfg codec s (.finish p)).stagedEvents p =
      s.stagedEvents p ++ acceptedEvents p (DataState.out cfg codec s (.finish p)) := by
  obtain ⟨hp, hh⟩ := finish_event_next codec s hm hd
  have hout : acceptedEvents p (DataState.out cfg codec s (.finish p)) = [] ∧
      deliveredEvents p (DataState.out cfg codec s (.finish p)) = [] := by
    cases hdq : s.dequeued p <;>
      simp [DataState.out, acceptedEvents, deliveredEvents, DataOut.acceptedEvent,
        DataOut.deliveredEvents, hdq]
  rw [hout.1, hout.2, List.append_nil, List.nil_append]
  simp only [DataState.stagedEvents, hp, hh]
  apply items_congr
  intro l hl
  apply freeAll_of_notMem
  have hn := (ho.owns p).nodup
  simp only [PortData.blocks, List.nodup_append] at hn
  exact fun hdl => hn.2.1.2.2 l hl l hdl rfl

/-- A step presents a part of what was staged and stages what it accepts. -/
theorem delivery_next (hm : (cfg p).mediaType = .event) (hd : (cfg p).direction = .input)
    (he : (dataMachine cfg codec).Enabled s a) (hg : GrowsIncoming s a)
    (hi : s.EventInv cfg p) :
    deliveredEvents p (DataState.out cfg codec s a) ++
        (DataState.next cfg codec s a).stagedEvents p =
      s.stagedEvents p ++ acceptedEvents p (DataState.out cfg codec s a) := by
  by_cases ht : s.target a = some p
  · rcases event_target hm hd hi.lock he ht with ⟨grown, blk, e, rfl, hk⟩ | ⟨dq, grow, rfl⟩ | rfl
    · exact delivery_stage he hi hk
    · exact delivery_prepare hm hd hg (hi.idle (not_within_of_prepare he))
    · exact delivery_finish hm hd hi.owned
  · obtain ⟨hacc, hdeliv⟩ := other_event_outs cfg codec ht
    rw [hacc, hdeliv, List.append_nil, List.nil_append]
    simp only [DataState.stagedEvents, (other_event_arrays hi.owned he ht).1]
    apply items_congr
    intro l hl
    exact other_block hi.owned he ht (by simp [PortData.blocks, hl])

theorem eventInv_init : (DataState.init n).EventInv cfg p :=
  ⟨owned_init, lockInv_init, fun _ => rfl,
    by simp [DataState.init, Phase.Within]⟩

theorem holder_of_isFree {l : PushLock n} (h : l.isFree = true) : l.holder = [] := by
  cases l <;> simp_all [PushLock.isFree]

/-- Only pushes take, settle or give away a push's place at the lock. -/
theorem cycle_lockOrder (he : (dataMachine cfg codec).Enabled s a) (hl : s.LockInv cfg)
    (hp : ∀ q c, a ≠ .push q c) (hs : ∀ grown blk, a ≠ .stage grown blk) :
    lockOrder (DataState.out cfg codec s a) = [] ∧
      settledOrder cfg (DataState.out cfg codec s a) = [] ∧
      (DataState.next cfg codec s a).lock.holder = s.lock.holder := by
  refine ⟨filterMap_out_nil ?_, filterMap_out_nil ?_, ?_⟩
  · intro w hw
    cases hw with
    | locked q c => exact absurd rfl (hp q c)
    | _ => rfl
  · intro w hw
    cases hw with
    | refused q c => exact absurd rfl (hp q c)
    | staged grown blk r hk => exact absurd rfl (hs grown blk)
    | pushedOutput q e grown blk r =>
      have hout : (cfg q).direction = .output := he.2.1
      simp [hout]
    | _ => rfl
  · cases a with
    | push q c => exact absurd rfl (hp q c)
    | stage grown blk => exact absurd rfl (hs grown blk)
    | beginCycle staged arrays =>
      by_cases hc : skipsCycle n arrays
      · simp [DataState.next, hc]
      · cases staged
        · simp [DataState.next, hc]
        · simp [DataState.next, hc, holder_of_isFree (he.2 rfl)]
    | enterCallback =>
      cases hst : s.phase.staged
      · simp [DataState.next, hst]
      · simp [DataState.next, hst, hl.cycle hst]
    | _ => rfl

/-- Pushes settle in the order they took the lock. -/
theorem lockOrder_next (he : (dataMachine cfg codec).Enabled s a) (hl : s.LockInv cfg) :
    s.lock.holder ++ lockOrder (DataState.out cfg codec s a) =
      settledOrder cfg (DataState.out cfg codec s a) ++
        (DataState.next cfg codec s a).lock.holder := by
  cases a with
  | push q c =>
    by_cases hc : c.accepts (cfg q)
    · have hf : s.lock.holder = [] := by
        rcases he with he | he
        · simp [hc] at he
        · exact holder_of_isFree he.2
      simp [DataState.next, DataState.out, hc, hf, lockOrder, settledOrder]
    · simp [DataState.next, DataState.out, hc, lockOrder, settledOrder]
  | stage grown blk =>
    cases hk : s.lock with
    | push q c =>
      have hacc := hl.accepted q c hk
      simp [DataState.next, DataState.out, hk, lockOrder, settledOrder, hacc]
    | _ => simp [DataState.next, DataState.out, hk, lockOrder, settledOrder]
  | _ =>
    obtain ⟨h1, h2, h3⟩ := cycle_lockOrder he hl (by simp) (by simp)
    simp [h1, h2, h3]

/-! ### What the callback reads -/

theorem Event.item_congr {h h' : Heap Bytes} {b : Option PwBuffer} {e : Event}
    (hb : ∀ l, e.data = some (.block l) → h' l = h l) : e.item h' b = e.item h b := by
  cases hd : e.data with
  | none => simp [Event.item, bytesAt, hd]
  | some ptr =>
    cases ptr with
    | block l => simp [Event.item, bytesAt, hd, hb l hd]
    | mapped pool addr => simp [Event.item, bytesAt, hd]

/-- From a port's turn of the first loop to its turn of the last one, nothing changes
what its events say. -/
theorem readable_next (hm : (cfg p).mediaType = .event) (hd : (cfg p).direction = .input)
    (he : (dataMachine cfg codec).Enabled s a) (hi : s.EventInv cfg p)
    (hw : s.phase.Within p) (ha : a ≠ .finish p) :
    (DataState.next cfg codec s a).readableEvents p = s.readableEvents p := by
  have hcongr : ∀ h' : Heap Bytes,
      (∀ l ∈ eventBlocks (s.ports p).deliveringEvents, h' l = s.heap l) →
      (s.ports p).incomingEvents.map (·.item h' (s.dequeued p)) = s.readableEvents p := by
    intro h' hb
    apply List.map_congr_left
    intro e hmem
    apply Event.item_congr
    intro l hl
    exact hb l (hi.aliases hw e hmem l hl)
  by_cases ht : s.target a = some p
  · rcases event_target hm hd hi.lock he ht with ⟨grown, blk, e, rfl, hk⟩ | ⟨dq, grow, rfl⟩ | rfl
    · obtain ⟨es, cap, hp⟩ := stageEvent_frame (s.ports p) e grown (stage_event_answer he hk)
      obtain ⟨hp', hh⟩ := stage_event_next cfg codec grown blk hk
      rw [DataState.readableEvents, hp', hp, hh, dequeued_next (by simp) ha]
      apply hcongr
      intro l hl
      have hlive := (hi.owned.owns p).live l (by simp [PortData.blocks, hl])
      exact stageEvent_keeps (stage_event_answer he hk) l hlive (by simp)
    · exact absurd hw (not_within_of_prepare he)
    · exact absurd rfl ha
  · obtain ⟨-, -, hinc⟩ := other_event_arrays hi.owned he ht
    have hne : ∀ dq grow, a ≠ .prepare p dq grow := by
      rintro dq grow rfl
      simp [DataState.target] at ht
    rw [DataState.readableEvents, hinc, dequeued_next hne ha]
    apply hcongr
    intro l hl
    exact other_block hi.owned he ht (by simp [PortData.blocks, hl])

theorem readable_run (hm : (cfg p).mediaType = .event) (hd : (cfg p).direction = .input)
    {ys : List (DataAction n)} (h : (dataMachine cfg codec).Valid s ys)
    (hi : s.EventInv cfg p) (hw : s.phase.Within p) (hys : ∀ a ∈ ys, a ≠ .finish p) :
    ((dataMachine cfg codec).exec s ys).readableEvents p = s.readableEvents p := by
  induction ys generalizing s with
  | nil => rfl
  | cons a ys ih =>
    obtain ⟨ha, hrest⟩ := List.forall_mem_cons.mp hys
    have hw' : (DataState.next cfg codec s a).phase.Within p :=
      (within_next h.1 p).mpr (Or.inl ⟨hw, ha⟩)
    exact (ih h.2 (eventInv_next hm hd h.1 hi) hw' hrest).trans
      (readable_next hm hd h.1 hi hw ha)

/-- The pushes of every run whose `incoming_events` could grow: what port `p` presented of
them, followed by what it has staged, is what its pushes accepted, in the order they took
`push_lock`; and while the callback may read its events, they stay what they are. -/
theorem pushed_events_delivered_in_order {xs : List (DataAction n)}
    (hm : (cfg p).mediaType = .event) (hd : (cfg p).direction = .input)
    (h : ((dataMachine cfg codec).restrict GrowsIncoming).Valid (.init n) xs) :
    let M := dataMachine cfg codec
    let t := M.exec (.init n) xs
    let ws := M.outs (.init n) xs
    deliveredEvents p ws ++ t.stagedEvents p = acceptedEvents p ws ∧
      lockOrder ws = settledOrder cfg ws ++ t.lock.holder ∧
      (t.phase.Within p → ∀ ys, M.Valid t ys → (∀ a ∈ ys, a ≠ .finish p) →
        (M.exec t ys).readableEvents p = t.readableEvents p) := by
  intro M t ws
  have hrun : t.EventInv cfg p ∧ deliveredEvents p ws ++ t.stagedEvents p = acceptedEvents p ws ∧
      lockOrder ws = settledOrder cfg ws ++ t.lock.holder := by
    refine Machine.history_restrict
      (P := fun ws t => t.EventInv cfg p ∧
        deliveredEvents p ws ++ t.stagedEvents p = acceptedEvents p ws ∧
        lockOrder ws = settledOrder cfg ws ++ t.lock.holder)
      ⟨eventInv_init, rfl, rfl⟩ ?_ h
    rintro ws s a he hg ⟨hi, hdeliv, hlock⟩
    have hnext : deliveredEvents p (DataState.out cfg codec s a) ++
          (DataState.next cfg codec s a).stagedEvents p =
        s.stagedEvents p ++ acceptedEvents p (DataState.out cfg codec s a) :=
      delivery_next hm hd he hg hi
    have horder : s.lock.holder ++ lockOrder (DataState.out cfg codec s a) =
        settledOrder cfg (DataState.out cfg codec s a) ++
          (DataState.next cfg codec s a).lock.holder := lockOrder_next he hi.lock
    refine ⟨eventInv_next hm hd he hi, ?_, ?_⟩
    · calc deliveredEvents p (ws ++ DataState.out cfg codec s a) ++
            (DataState.next cfg codec s a).stagedEvents p
          = deliveredEvents p ws ++
              (s.stagedEvents p ++ acceptedEvents p (DataState.out cfg codec s a)) := by
            rw [deliveredEvents_append, List.append_assoc, hnext]
        _ = acceptedEvents p (ws ++ DataState.out cfg codec s a) := by
            rw [← List.append_assoc, hdeliv, acceptedEvents_append]
    · calc lockOrder (ws ++ DataState.out cfg codec s a)
          = settledOrder cfg ws ++
              (s.lock.holder ++ lockOrder (DataState.out cfg codec s a)) := by
            rw [lockOrder_append, hlock, List.append_assoc]
        _ = settledOrder cfg (ws ++ DataState.out cfg codec s a) ++
              (DataState.next cfg codec s a).lock.holder := by
            rw [horder, settledOrder_append, List.append_assoc]
  refine ⟨hrun.2.1, hrun.2.2, ?_⟩
  intro hw ys hys hne
  exact readable_run hm hd hys hrun.1 hw hne

def noteOn : PushedEvent := ⟨0, .midi, none, .ofBytes [0x90, 60, 100]⟩

/-- One note pushed before a cycle, and one from inside its callback. -/
def noteRun : List (DataAction 1) :=
  [.push onePort (.event noteOn), .stage true (some 7), .beginCycle true true,
    .prepare onePort none (fun _ => true), .enterCallback, .push onePort (.event noteOn),
    .stage true (some 8)]

theorem pushed_events_delivered_in_order_notes :
    let M := dataMachine (fun _ => eventInput) silentCodec
    let t := M.exec (.init 1) noteRun
    let ws := M.outs (.init 1) noteRun
    deliveredEvents (0 : Fin 1) ws ++ t.stagedEvents 0 = acceptedEvents 0 ws ∧
      lockOrder ws = settledOrder (fun _ => eventInput) ws ++ t.lock.holder ∧
      (t.phase.Within (0 : Fin 1) → ∀ ys, M.Valid t ys → (∀ a ∈ ys, a ≠ .finish 0) →
        (M.exec t ys).readableEvents 0 = t.readableEvents 0) := by
  refine pushed_events_delivered_in_order rfl rfl ?_
  refine ⟨⟨?_, trivial⟩, ⟨?_, trivial⟩, ⟨?_, trivial⟩, ⟨?_, fun _ => rfl⟩, ⟨?_, trivial⟩,
    ⟨?_, trivial⟩, ⟨?_, trivial⟩, trivial⟩ <;> decide

/-- The first note is presented, the second staged. -/
example : deliveredEvents (0 : Fin 1) ((dataMachine (fun _ => eventInput) silentCodec).outs
    (.init 1) noteRun) = [noteOn.item] := by decide

end TinyPipewire.Filter
