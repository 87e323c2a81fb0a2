import TinyPipewire.Filter.Ownership
import TinyPipewire.Lib.History

/-!
# Buffers taken from the graph and given back

Each buffer a cycle dequeues is queued again by the end of that cycle, unless hold keeps
it. Two branches drop a buffer whose first block has no data pointer, so the balance is
proved for runs that never dequeue one there.
-/

namespace TinyPipewire.Filter

variable {n : ℕ}

/-! ### What a run took and gave back -/

def DataOut.taken (p : Fin n) : DataOut n → Option PwBuffer
  | .dequeued q b => if q = p then some b else none
  | _ => none

def DataOut.given (p : Fin n) : DataOut n → Option PwBuffer
  | .queued q b _ => if q = p then some b else none
  | _ => none

/-- The buffers `pw_filter_dequeue_buffer` returned for port `p`. -/
def takenBuffers (p : Fin n) (ws : List (DataOut n)) : List PwBuffer :=
  ws.filterMap (DataOut.taken p)

/-- The buffers passed to `pw_filter_queue_buffer` for port `p`. -/
def givenBuffers (p : Fin n) (ws : List (DataOut n)) : List PwBuffer :=
  ws.filterMap (DataOut.given p)

/-- The buffers of port `p` the filter has: the cycle's own and the held one. -/
def DataState.kept (s : DataState n) (p : Fin n) : List PwBuffer :=
  (s.dequeued p).toList ++ (s.ports p).held.toList

/-- Every buffer taken was given back once, or the filter has it. -/
def Balanced (p : Fin n) (ws : List (DataOut n)) (s : DataState n) : Prop :=
  (takenBuffers p ws).Perm (givenBuffers p ws ++ s.kept p)

instance (p : Fin n) (ws : List (DataOut n)) (s : DataState n) :
    Decidable (Balanced p ws s) :=
  inferInstanceAs (Decidable (List.Perm _ _))

/-- The port may keep a buffer across cycles. -/
def PortConfig.holds (cfg : PortConfig) : Prop :=
  cfg.direction = .input ∧ cfg.mediaType ≠ .event ∧ cfg.holdEnabled = true

/-- The port's turn of the first loop calls `pw_filter_dequeue_buffer`. -/
def dequeues (cfg : PortConfig) (p : PortData) (staged : Bool) : Bool :=
  match cfg.direction with
  | .output => true
  | .input =>
    if cfg.mediaType = .event then (eventTakeStaged p staged).deliveringEvents.isEmpty
    else !(staged && p.pushedPending)

/-- No event port and no output port dequeues a buffer with a NULL first data pointer. -/
def DequeuesMapped (cfg : Fin n → PortConfig) (s : DataState n) : DataAction n → Prop
  | .prepare p dq _ =>
    (cfg p).mediaType = .event ∨ (cfg p).direction = .output →
      dequeues (cfg p) (s.ports p) s.phase.staged = true →
        ∀ b, dq = some b → b.buffer.firstData.isSome = true
  | _ => True

section Outs

variable {p : Fin n} {ws vs : List (DataOut n)}

@[simp] theorem takenBuffers_append :
    takenBuffers p (ws ++ vs) = takenBuffers p ws ++ takenBuffers p vs := by
  simp [takenBuffers]

@[simp] theorem givenBuffers_append :
    givenBuffers p (ws ++ vs) = givenBuffers p ws ++ givenBuffers p vs := by
  simp [givenBuffers]

end Outs

/-! ### The port's turn of the first loop -/

section Prepare

variable {cfg : PortConfig} {p : PortData} {codec : EventCodec} {staged : Bool}
  {dq : Option PwBuffer} {grow : ℕ → Bool}

/-- What a turn takes and had, it gives, keeps for the cycle or holds. -/
def Prepared.Balances (r : Prepared) (held : Option PwBuffer) : Prop :=
  (r.took.toList ++ held.toList).Perm
    (r.released.toList ++ (r.dequeued.toList ++ r.port.held.toList))

theorem mappedBuffer_eq (hb : ∀ b, dq = some b → b.buffer.firstData.isSome = true) :
    mappedBuffer dq = dq := by
  cases dq with
  | none => rfl
  | some b => simp [mappedBuffer, Option.filter, hb b rfl]

@[simp] theorem held_incomingEventsAppend (es : List Event) :
    (incomingEventsAppend p grow es).held = p.held := by
  obtain ⟨is, cap, he⟩ := incomingEventsAppend_eq p grow es
  rw [he]

theorem held_eventTakeStaged : (eventTakeStaged p staged).held = p.held := by
  unfold eventTakeStaged
  split <;> rfl

theorem eventTakeStaged_clearDmabuf :
    eventTakeStaged (clearDmabuf p) staged = clearDmabuf (eventTakeStaged p staged) := by
  by_cases hs : staged = true ∧ p.pendingEvents ≠ [] <;>
    simp [eventTakeStaged, clearDmabuf, eventTakePending, hs]

theorem prepareEventInput_balances
    (hb : (eventTakeStaged p staged).deliveringEvents = [] →
      ∀ b, dq = some b → b.buffer.firstData.isSome = true) :
    (prepareEventInput codec p staged dq grow).Balances p.held := by
  unfold prepareEventInput
  dsimp only
  split
  · simp [Prepared.Balances, eventLoadDelivering, clearIncoming, held_eventTakeStaged]
  · rename_i hd
    have hmap := mappedBuffer_eq (hb (by simpa using hd))
    rw [hmap]
    cases dq with
    | none => simp [Prepared.Balances, clearIncoming, held_eventTakeStaged]
    | some b => simp [Prepared.Balances, eventDecode, clearIncoming, held_eventTakeStaged]

theorem prepareOutput_balances (hb : ∀ b, dq = some b → b.buffer.firstData.isSome = true) :
    (prepareOutput p dq).Balances p.held ∧ (prepareEventOutput p dq).Balances p.held := by
  unfold prepareOutput prepareEventOutput
  rw [mappedBuffer_eq hb]
  cases dq <;> simp [Prepared.Balances]

/-- New data: hold exchanges its buffer for the cycle's. -/
theorem deliverNew_balances {q : PortData} {e : PortBuffer} {b : Option PwBuffer} {o : Origin}
    (hq : q.held = p.held) : (deliverNew cfg q e b b o).Balances p.held := by
  unfold deliverNew
  dsimp only
  split
  · simpa [Prepared.Balances, hq] using List.perm_append_comm
  · simp [Prepared.Balances, hq]

theorem deliverNothing_balances {b : Option PwBuffer} :
    (deliverNothing cfg p b b).Balances p.held := by
  unfold deliverNothing
  split <;> simp [Prepared.Balances]

@[simp] theorem held_presentGraph {b : PwBuffer} :
    (presentGraph cfg p b).1.held = p.held := by
  unfold presentGraph
  split <;> rfl

/-- A media input port keeps the balance whatever the buffer holds. -/
theorem prepareInput_balances : (prepareInput cfg p staged dq).Balances p.held := by
  rcases prepareInput_cases cfg p staged dq with
    ⟨-, -, hr⟩ | ⟨-, b, -, -, hr⟩ | ⟨-, -, hr⟩ <;> rw [hr]
  · exact deliverNew_balances rfl
  · exact deliverNew_balances held_presentGraph
  · exact deliverNothing_balances

theorem preparePort_balances
    (hb : cfg.mediaType = .event ∨ cfg.direction = .output → dequeues cfg p staged = true →
      ∀ b, dq = some b → b.buffer.firstData.isSome = true) :
    (preparePort codec cfg p staged dq grow).Balances p.held := by
  rcases preparePort_kinds codec cfg p staged dq grow with
    ⟨hm, hd, hr⟩ | ⟨hm, hd, hr⟩ | ⟨-, -, hr⟩ | ⟨-, hd, hr⟩ <;> rw [hr]
  · refine prepareEventInput_balances (p := clearDmabuf p) fun hdel => hb (Or.inl hm) ?_
    rw [eventTakeStaged_clearDmabuf] at hdel
    have hdel' : (eventTakeStaged p staged).deliveringEvents = [] := hdel
    simp [dequeues, hd, hm, hdel']
  · exact (prepareOutput_balances (p := clearDmabuf p)
      (hb (Or.inl hm) (by simp [dequeues, hd]))).2
  · exact prepareInput_balances (p := clearDmabuf p)
  · exact (prepareOutput_balances (p := clearDmabuf p)
      (hb (Or.inr hd) (by simp [dequeues, hd]))).1

theorem deliverNew_released {q : PortData} {e : PortBuffer} {d t : Option PwBuffer}
    {o : Origin} {b : PwBuffer} (hb : (deliverNew cfg q e d t o).released = some b) :
    q.held = some b ∧ (deliverNew cfg q e d t o).entry.fresh = true := by
  by_cases hh : cfg.holdEnabled = true <;> simp [deliverNew, hh] at hb ⊢
  exact hb

/-- A turn gives back the held buffer only for newer data. -/
theorem preparePort_released {b : PwBuffer}
    (hb : (preparePort codec cfg p staged dq grow).released = some b) :
    p.held = some b ∧ (preparePort codec cfg p staged dq grow).entry.fresh = true := by
  rcases preparePort_kinds codec cfg p staged dq grow with
    ⟨-, -, hr⟩ | ⟨-, -, hr⟩ | ⟨-, -, hr⟩ | ⟨-, -, hr⟩ <;> rw [hr] at hb ⊢
  · unfold prepareEventInput at hb
    dsimp only at hb
    split at hb
    · simp at hb
    · split at hb <;> simp at hb
  · unfold prepareEventOutput at hb
    split at hb <;> simp at hb
  · rcases prepareInput_cases cfg (clearDmabuf p) staged dq with
      ⟨-, -, hr⟩ | ⟨-, d, -, -, hr⟩ | ⟨-, -, hr⟩ <;> rw [hr] at hb ⊢
    · exact deliverNew_released hb
    · simpa [clearDmabuf] using deliverNew_released hb
    · unfold deliverNothing at hb
      split at hb <;> simp at hb
  · unfold prepareOutput at hb
    split at hb <;> simp at hb

/-- Only hold keeps a buffer. -/
theorem preparePort_held (hn : ¬ cfg.holds) :
    (preparePort codec cfg p staged dq grow).port.held = p.held := by
  rcases preparePort_kinds codec cfg p staged dq grow with
    ⟨-, -, hr⟩ | ⟨-, -, hr⟩ | ⟨hm, hd, hr⟩ | ⟨-, -, hr⟩ <;> rw [hr]
  · unfold prepareEventInput
    dsimp only
    split
    · simp [eventLoadDelivering, clearIncoming, held_eventTakeStaged, clearDmabuf]
    · split <;> simp [eventDecode, clearIncoming, held_eventTakeStaged, clearDmabuf]
  · unfold prepareEventOutput
    split <;> rfl
  · have hh : cfg.holdEnabled = false := by
      simpa [PortConfig.holds, hm, hd] using hn
    rcases prepareInput_cases cfg (clearDmabuf p) staged dq with
      ⟨-, -, hr⟩ | ⟨-, b, -, -, hr⟩ | ⟨-, -, hr⟩ <;> rw [hr]
    · simp [deliverNew, hh, takePushed, clearDmabuf]
    · simp [deliverNew, hh, clearDmabuf]
    · simp [deliverNothing, hh, clearDmabuf]
  · unfold prepareOutput
    split <;> rfl

end Prepare

/-! ### One step, and whole runs -/

variable {cfg : Fin n → PortConfig} {codec : EventCodec} {s : DataState n} {a : DataAction n}
  {p : Fin n}

/-- What a port retains across cycles, and the frame its accessor reads. -/
structure PortHold where
  held : Option PwBuffer
  hasHeld : Bool
  heldData : Option Ptr
  heldDmabufBuf : Option SpaBuffer
  currentDmabufBuf : Option SpaBuffer

def PortData.hold (p : PortData) : PortHold :=
  ⟨p.held, p.hasHeld, p.heldData, p.heldDmabufBuf, p.currentDmabufBuf⟩

/-- Only a port's turn of the first loop and a stop change what it holds. -/
theorem hold_next (ho : s.Owned) (he : (dataMachine cfg codec).Enabled s a)
    (hr : a ≠ .resetHold) (hp : ∀ dq grow, a ≠ .prepare p dq grow) :
    ((DataState.next cfg codec s a).ports p).hold = (s.ports p).hold := by
  by_cases ht : s.target a = some p
  · rcases target_cases ht with ⟨grown, blk, c, rfl, hk⟩ | ⟨e, grown, blk, rfl⟩ |
      ⟨dq, grow, rfl⟩ | rfl
    · have ha : s.lock.Answers s.heap s.ports blk := he
      rw [hk] at ha
      simp only [DataState.next, hk, DataState.setPort, Function.update_self, DataState.staged]
      cases c with
      | data c =>
        obtain ⟨_, _, _, _, _, hf⟩ := stagePortData_frame s.heap (s.ports p) c blk
        rw [hf]
        rfl
      | event e =>
        obtain ⟨_, _, hf⟩ := stageEvent_frame (s.ports p) e grown ha
        rw [hf]
        rfl
    · obtain ⟨_, _, hf⟩ := pushOutputEvent_frame codec (s.ports p) e grown he.2.2
      simp only [DataState.next, DataState.setPort, Function.update_self, DataState.outputPushed]
      rw [hf]
      rfl
    · exact absurd rfl (hp dq grow)
    · simp only [DataState.next, DataState.setPort, Function.update_self, DataState.finished]
      unfold finishPort
      split <;> split <;> rfl
  · rcases other_port ho he ht with hp' | ⟨rfl, -⟩
    · rw [hp']
    · exact absurd rfl hr

theorem held_next (ho : s.Owned) (he : (dataMachine cfg codec).Enabled s a)
    (hr : a ≠ .resetHold) (hp : ∀ dq grow, a ≠ .prepare p dq grow) :
    ((DataState.next cfg codec s a).ports p).held = (s.ports p).held :=
  congrArg PortHold.held (hold_next ho he hr hp)

variable (cfg codec s) in
/-- The outputs that take or give no buffer of port `p`. -/
theorem no_buffer_outs (hr : a ≠ .resetHold) (hp : ∀ dq grow, a ≠ .prepare p dq grow)
    (hf : a ≠ .finish p) :
    takenBuffers p (DataState.out cfg codec s a) = [] ∧
      givenBuffers p (DataState.out cfg codec s a) = [] := by
  have hnone : ∀ w, s.Emits cfg a w → DataOut.taken p w = none ∧ DataOut.given p w = none := by
    intro w hw
    cases hw with
    | took q dq grow b | released q dq grow b =>
      have hq : q ≠ p := by
        rintro rfl
        exact hp dq grow rfl
      simp [DataOut.taken, DataOut.given, hq]
    | finished q b c =>
      have hq : q ≠ p := by
        rintro rfl
        exact hf rfl
      simp [DataOut.taken, DataOut.given, hq]
    | reset q b => exact absurd rfl hr
    | _ => exact ⟨rfl, rfl⟩
  exact ⟨filterMap_out_nil fun w hw => (hnone w hw).1, filterMap_out_nil fun w hw => (hnone w hw).2⟩

variable (cfg codec s p) in
theorem prepare_buffer_outs (dq : Option PwBuffer) (grow : ℕ → Bool) :
    takenBuffers p (DataState.out cfg codec s (.prepare p dq grow)) =
        (s.prepared cfg codec p dq grow).took.toList ∧
      givenBuffers p (DataState.out cfg codec s (.prepare p dq grow)) =
        (s.prepared cfg codec p dq grow).released.toList := by
  rw [takenBuffers, givenBuffers, filterMap_prepare, filterMap_prepare]
  by_cases hm : (cfg p).mediaType = .event
  · simp [hm, DataOut.taken, DataOut.given]
  · simp [hm, DataOut.taken, DataOut.given]

variable (cfg codec s p) in
theorem finish_buffer_outs :
    takenBuffers p (DataState.out cfg codec s (.finish p)) = [] ∧
      givenBuffers p (DataState.out cfg codec s (.finish p)) = (s.dequeued p).toList := by
  cases hd : s.dequeued p <;>
    simp [DataState.out, hd, takenBuffers, givenBuffers, DataOut.taken, DataOut.given]

variable (cfg codec s p) in
theorem resetHold_buffer_outs :
    takenBuffers p (DataState.out cfg codec s .resetHold) = [] ∧
      givenBuffers p (DataState.out cfg codec s .resetHold) = (s.ports p).held.toList := by
  constructor
  · simp only [takenBuffers, DataState.out, List.filterMap_eq_nil_iff, List.mem_flatMap,
      List.mem_map]
    rintro _ ⟨q, -, b, -, rfl⟩
    rfl
  · rw [givenBuffers, DataState.out, History.filterMap_flatMap_finRange (p := p)]
    · cases (s.ports p).held <;> simp [DataOut.given]
    · intro q hq
      cases (s.ports q).held <;> simp [DataOut.given, hq]

/-- What holds of the buffers between actions. -/
structure DataState.BufferInv (cfg : Fin n → PortConfig) (s : DataState n) : Prop where
  owned : s.Owned
  idle : ∀ p, ¬ s.phase.Within p → s.dequeued p = none
  holds : ∀ p, (s.ports p).held ≠ none → (cfg p).holds

theorem bufferInv_next (he : (dataMachine cfg codec).Enabled s a) (hi : s.BufferInv cfg) :
    (DataState.next cfg codec s a).BufferInv cfg := by
  refine ⟨owned_next hi.owned he, ?_, ?_⟩
  · intro p hw
    by_cases hf : a = .finish p
    · subst a
      simp [DataState.next]
    · have hn : ∀ dq grow, a ≠ .prepare p dq grow := by
        rintro dq grow rfl
        exact hw ((within_next he p).mpr (Or.inr ⟨dq, grow, rfl⟩))
      rw [dequeued_next hn hf]
      exact hi.idle p fun hin => hw ((within_next he p).mpr (Or.inl ⟨hin, hf⟩))
  · intro p hh
    by_contra hn
    have hnone : (s.ports p).held = none := by
      by_contra hs
      exact hn (hi.holds p hs)
    apply hh
    by_cases hp : ∃ dq grow, a = .prepare p dq grow
    · obtain ⟨dq, grow, rfl⟩ := hp
      simp only [DataState.next, Function.update_self, DataState.prepared]
      rw [preparePort_held hn, hnone]
    · by_cases hr : a = .resetHold
      · subst a
        rfl
      · rw [held_next hi.owned he hr (by simpa using hp), hnone]

/-- What a step takes and the filter had, it gives back or the filter has. -/
theorem balance_next (he : (dataMachine cfg codec).Enabled s a) (hi : s.BufferInv cfg)
    (p : Fin n) (hc : ∀ dq grow, a = .prepare p dq grow → DequeuesMapped cfg s a) :
    (takenBuffers p (DataState.out cfg codec s a) ++ s.kept p).Perm
      (givenBuffers p (DataState.out cfg codec s a) ++
        (DataState.next cfg codec s a).kept p) := by
  by_cases hp : ∃ dq grow, a = .prepare p dq grow
  · obtain ⟨dq, grow, rfl⟩ := hp
    obtain ⟨ht, hg⟩ := prepare_buffer_outs cfg codec s p dq grow
    have hb : (s.prepared cfg codec p dq grow).Balances (s.ports p).held :=
      preparePort_balances (hc dq grow rfl)
    simpa [ht, hg, DataState.kept, hi.idle p (not_within_of_prepare he), DataState.next,
      Prepared.Balances] using hb
  · have hp' : ∀ dq grow, a ≠ .prepare p dq grow := by simpa using hp
    by_cases hf : a = .finish p
    · subst a
      obtain ⟨ht, hg⟩ := finish_buffer_outs cfg codec s p
      have hheld := held_next hi.owned he (by simp) hp'
      rw [ht, hg, DataState.kept, DataState.kept, hheld]
      simp [DataState.next]
    · by_cases hr : a = .resetHold
      · subst a
        obtain ⟨ht, hg⟩ := resetHold_buffer_outs cfg codec s p
        have hnone : s.dequeued p = none := by
          have hidle : s.phase = .idle := he
          exact hi.idle p (by simp [hidle, Phase.Within])
        simp [ht, hg, DataState.kept, DataState.next, hnone, resetHold]
      · obtain ⟨ht, hg⟩ := no_buffer_outs cfg codec s hr hp' hf
        rw [ht, hg, DataState.kept, DataState.kept, held_next hi.owned he hr hp',
          dequeued_next hp' hf]

theorem balanced_init : Balanced p [] (.init n) := by
  simp [Balanced, takenBuffers, givenBuffers, DataState.kept, DataState.init, PortData.zeroed]

/-- A port stays balanced as long as its own turns drop no buffer. -/
theorem balanced_next {ws : List (DataOut n)} (he : (dataMachine cfg codec).Enabled s a)
    (hi : s.BufferInv cfg) (hb : Balanced p ws s)
    (hc : ∀ dq grow, a = .prepare p dq grow → DequeuesMapped cfg s a) :
    Balanced p (ws ++ DataState.out cfg codec s a) (DataState.next cfg codec s a) := by
  have hnext := balance_next he hi p hc
  have hcomm : (s.kept p ++ takenBuffers p (DataState.out cfg codec s a)).Perm
      (takenBuffers p (DataState.out cfg codec s a) ++ s.kept p) := List.perm_append_comm
  have hstep := List.Perm.append_right (takenBuffers p (DataState.out cfg codec s a)) hb
  rw [List.append_assoc] at hstep
  simpa [Balanced] using hstep.trans ((hcomm.trans hnext).append_left _)

/-- What is queued is the cycle's own buffer at its end, or the held one, for newer data
or when the filter stops. -/
theorem queued_source {b : PwBuffer} {c : Option SpaChunk}
    (hb : DataOut.queued p b c ∈ DataState.out cfg codec s a) :
    (a = .finish p ∧ s.dequeued p = some b) ∨
      ((s.ports p).held = some b ∧ (a = .resetHold ∨ ∃ dq grow, a = .prepare p dq grow ∧
        ((DataState.next cfg codec s a).buffers p).fresh = true)) := by
  cases a with
  | push q d => by_cases hd : d.accepts (cfg q) <;> simp [DataState.out, hd] at hb
  | stage grown blk => cases hk : s.lock <;> simp [DataState.out, hk] at hb
  | prepare q dq grow =>
    have hrel : q = p ∧ (s.prepared cfg codec q dq grow).released = some b := by
      by_cases hm : (cfg q).mediaType = .event <;> simp [DataState.out, hm] at hb <;>
        exact ⟨by tauto, by tauto⟩
    obtain ⟨rfl, hrel⟩ := hrel
    obtain ⟨hheld, hfresh⟩ := preparePort_released hrel
    refine Or.inr ⟨hheld, Or.inr ⟨dq, grow, rfl, ?_⟩⟩
    simpa [DataState.next, DataState.prepared] using hfresh
  | finish q =>
    obtain ⟨d, hd, rfl, rfl, -⟩ : ∃ d, s.dequeued q = some d ∧ q = p ∧ d = b ∧
        (s.finished cfg codec q).2.2 = c := by simpa [DataState.out] using hb
    exact Or.inl ⟨rfl, hd⟩
  | resetHold =>
    simp only [DataState.out, List.mem_flatMap, List.mem_map] at hb
    obtain ⟨q, -, d, hd, heq⟩ := hb
    obtain ⟨rfl, rfl, -⟩ : q = p ∧ d = b ∧ none = c := by simpa using heq
    exact Or.inr ⟨by simpa using hd, Or.inl rfl⟩
  | _ => simp [DataState.out] at hb

theorem bufferInv_init : (DataState.init n).BufferInv cfg :=
  ⟨owned_init, fun _ _ => rfl, fun _ h => absurd rfl h⟩

/-- In every run that dequeues no unmapped buffer for an event or output port, each
buffer taken is given back once by the end of its cycle or is the one hold keeps, and
nothing else is ever queued. -/
theorem buffers_given_back_once {xs : List (DataAction n)}
    (h : ((dataMachine cfg codec).restrict (DequeuesMapped cfg)).Valid (.init n) xs) :
    let M := dataMachine cfg codec
    let t := M.exec (.init n) xs
    let ws := M.outs (.init n) xs
    (∀ p, Balanced p ws t) ∧
      (∀ p, t.phase = .idle → t.kept p = (t.ports p).held.toList) ∧
      (∀ p, (t.ports p).held ≠ none → (cfg p).holds) ∧
      (∀ p, M.Enabled t .resetHold → (M.next t .resetHold).kept p = []) ∧
      ∀ p a b c, M.Enabled t a → .queued p b c ∈ M.out t a →
        (a = .finish p ∧ t.dequeued p = some b) ∨
          ((t.ports p).held = some b ∧ (a = .resetHold ∨ ∃ dq grow, a = .prepare p dq grow ∧
            ((M.next t a).buffers p).fresh = true)) := by
  intro M t ws
  have hrun : t.BufferInv cfg ∧ ∀ p, Balanced p ws t := by
    refine Machine.history_restrict
      (P := fun ws t => t.BufferInv cfg ∧ ∀ p, Balanced p ws t)
      ⟨bufferInv_init, fun p => balanced_init⟩ ?_ h
    rintro ws s a he hc ⟨hi, hbal⟩
    exact ⟨bufferInv_next he hi, fun p => balanced_next he hi (hbal p) fun _ _ _ => hc⟩
  have hidle : t.phase = .idle → ∀ p, t.dequeued p = none := by
    intro hp p
    exact hrun.1.idle p (by simp [hp, Phase.Within])
  refine ⟨hrun.2, ?_, hrun.1.holds, ?_, fun p a b c _ hb => queued_source hb⟩
  · intro p hp
    simp [DataState.kept, hidle hp p]
  · intro p hp
    have hnone : t.dequeued p = none := hidle hp p
    simp [M, dataMachine, DataState.kept, DataState.next, resetHold, hnone]

/-- One cycle of an event port, with the buffer it dequeues. -/
def cycleWith (b : PwBuffer) : List (DataAction 1) :=
  [.beginCycle true true, .prepare onePort (some b) (fun _ => true), .enterCallback,
    .leaveCallback, .finish onePort, .endCycle]

theorem buffers_given_back_once_mapped :
    let M := dataMachine (fun _ : Fin 1 => eventInput) silentCodec
    let t := M.exec (.init 1) (cycleWith (graphBuffer 0 1 (some 64)))
    let ws := M.outs (.init 1) (cycleWith (graphBuffer 0 1 (some 64)))
    (∀ p, Balanced p ws t) ∧
      (∀ p, t.phase = .idle → t.kept p = (t.ports p).held.toList) ∧
      (∀ p, (t.ports p).held ≠ none → eventInput.holds) ∧
      (∀ p, M.Enabled t .resetHold → (M.next t .resetHold).kept p = []) ∧
      ∀ p a b c, M.Enabled t a → .queued p b c ∈ M.out t a →
        (a = .finish p ∧ t.dequeued p = some b) ∨
          ((t.ports p).held = some b ∧ (a = .resetHold ∨ ∃ dq grow, a = .prepare p dq grow ∧
            ((M.next t a).buffers p).fresh = true)) := by
  refine buffers_given_back_once ?_
  refine ⟨⟨by decide, trivial⟩, ⟨by decide, ?_⟩, ⟨by decide, trivial⟩, ⟨by decide, trivial⟩,
    ⟨by decide, trivial⟩, ⟨by decide, trivial⟩, trivial⟩
  rintro - - b hb
  obtain rfl : graphBuffer 0 1 (some 64) = b := by simpa using hb
  rfl

/-- An event port that dequeues a buffer with no data pointer never gives it back. -/
theorem unmapped_event_buffer_lost :
    let M := dataMachine (fun _ : Fin 1 => eventInput) silentCodec
    let t := M.exec (.init 1) (cycleWith (graphBuffer 0 1 none))
    let ws := M.outs (.init 1) (cycleWith (graphBuffer 0 1 none))
    M.Valid (.init 1) (cycleWith (graphBuffer 0 1 none)) ∧ t.phase = .idle ∧
      takenBuffers 0 ws = [graphBuffer 0 1 none] ∧ givenBuffers 0 ws = [] ∧ t.kept 0 = [] ∧
      ¬ Balanced 0 ws t := by
  decide

end TinyPipewire.Filter
