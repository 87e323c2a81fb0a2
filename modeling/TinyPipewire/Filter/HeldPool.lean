import TinyPipewire.Filter.BufferBalance
import TinyPipewire.Filter.System

/-!
# Held buffers and their pool

A held buffer outlives the cycle that dequeued it. Stopping gives it back before the links
go; losing the source, a new format and the application's own unlink do not, so the
invariant needs them to find the port holding nothing.
-/

namespace TinyPipewire.Filter

variable {n : ℕ}

/-! ### What hold retains -/

/-- The pointer is into no pool, or into that of the held buffer. -/
def PtrHeld (held : Option PwBuffer) (data : Option Ptr) : Prop :=
  ∀ pool addr, data = some (.mapped pool addr) → ∃ b, held = some b ∧ b.buffer.pool = pool

/-- Every pointer hold retains is into the buffer it retains. -/
structure PortHold.Backed (h : PortHold) : Prop where
  data : PtrHeld h.held h.heldData
  dmabuf : ∀ d, h.heldDmabufBuf = some d → ∃ b, h.held = some b ∧ b.buffer = d
  current : ∀ d, h.currentDmabufBuf = some d → ∃ b, h.held = some b ∧ b.buffer = d

section Prepare

variable {codec : EventCodec} {cfg : PortConfig} {p : PortData} {staged : Bool}
  {dq : Option PwBuffer} {grow : ℕ → Bool}

/-- What a turn leaves: pointers into the buffer held after it, which is the one before, the
one dequeued, or none. -/
structure Prepared.Holds (r : Prepared) (p : PortData) (dq : Option PwBuffer) : Prop where
  backed : r.port.hold.Backed
  entry : PtrHeld r.port.held r.entry.data
  held : r.port.held = p.held ∨ r.port.held = dq ∨ r.port.held = none

theorem firstData_pool {b : SpaBuffer} {pool addr : ℕ}
    (h : b.firstData = some (.mapped pool addr)) : b.pool = pool := by
  unfold SpaBuffer.firstData at h
  obtain ⟨d, -, hd⟩ := Option.bind_eq_some_iff.mp h
  obtain ⟨a, -, ha⟩ := Option.map_eq_some_iff.mp hd
  exact (Ptr.mapped.inj ha).1

/-- A staged push is held by the port itself. -/
theorem pushed_holds (hh : cfg.holdEnabled = true) :
    (deliverNew cfg (takePushed (clearDmabuf p)) (presentPushed (clearDmabuf p)) none none
      .pushed).Holds p dq := by
  have hblock : ∀ pool addr,
      (presentPushed (clearDmabuf p)).data ≠ some (.mapped pool addr) := by
    intro pool addr h
    simp [presentPushed] at h
  refine ⟨⟨?_, ?_, ?_⟩, ?_, ?_⟩
  · intro pool addr h
    simp only [deliverNew, hh, PortData.hold] at h
    exact absurd h (hblock pool addr)
  · simp [deliverNew, hh, PortData.hold, takePushed, clearDmabuf]
  · simp [deliverNew, hh, PortData.hold, takePushed, clearDmabuf]
  · intro pool addr h
    simp only [deliverNew, hh] at h
    exact absurd h (hblock pool addr)
  · simp [deliverNew, hh]

/-- A graph buffer is held itself, whether the callback reads it mapped or as planes. -/
theorem graph_holds (hh : cfg.holdEnabled = true) (b : PwBuffer) :
    (deliverNew cfg (presentGraph cfg (clearDmabuf p) b).1
      (presentGraph cfg (clearDmabuf p) b).2 (some b) (some b) .graph).Holds p (some b) := by
  have hptr : PtrHeld (some b) (presentGraph cfg (clearDmabuf p) b).2.data := by
    intro pool addr h
    by_cases hd : cfg.useDmabuf = true
    · simp [presentGraph, hd] at h
    · simp only [presentGraph, hd] at h
      exact ⟨b, rfl, firstData_pool h⟩
  have hcurrent : ∀ d, (presentGraph cfg (clearDmabuf p) b).1.currentDmabufBuf = some d →
      ∃ b', some b = some b' ∧ b'.buffer = d := by
    intro d h
    by_cases hd : cfg.useDmabuf = true
    · simp only [presentGraph, hd] at h
      exact ⟨b, rfl, Option.some.inj h⟩
    · simp [presentGraph, hd, clearDmabuf] at h
  refine ⟨⟨?_, ?_, ?_⟩, ?_, ?_⟩ <;> simp only [deliverNew, hh, PortData.hold]
  · exact hptr
  · exact hcurrent
  · exact hcurrent
  · exact hptr
  · exact Or.inr (Or.inl rfl)

/-- With no new data the port presents what it held, or nothing. -/
theorem nothing_holds (hb : p.hold.Backed) {took : Option PwBuffer} :
    (deliverNothing cfg (clearDmabuf p) dq took).Holds p dq := by
  unfold deliverNothing
  split
  · exact ⟨⟨hb.data, hb.dmabuf, hb.dmabuf⟩, hb.data, Or.inl rfl⟩
  · refine ⟨⟨hb.data, hb.dmabuf, ?_⟩, ?_, Or.inl rfl⟩
    · simp [PortData.hold, clearDmabuf]
    · intro pool addr h
      simp [PortBuffer.empty] at h

@[simp] theorem hold_incomingEventsAppend (es : List Event) :
    (incomingEventsAppend p grow es).hold = p.hold := by
  obtain ⟨is, cap, he⟩ := incomingEventsAppend_eq p grow es
  rw [he]
  rfl

@[simp] theorem hold_clearIncoming : (clearIncoming p).hold = p.hold := rfl

variable (codec p staged dq grow) in
/-- An event port's turn clears the accessor, and touches nothing else of hold. -/
theorem prepareEventInput_hold :
    (prepareEventInput codec (clearDmabuf p) staged dq grow).port.hold =
      { p.hold with currentDmabufBuf := none } ∧
    (prepareEventInput codec (clearDmabuf p) staged dq grow).entry = .empty := by
  have hstaged : (eventTakeStaged (clearDmabuf p) staged).hold =
      { p.hold with currentDmabufBuf := none } := by
    unfold eventTakeStaged
    split <;> rfl
  unfold prepareEventInput
  dsimp only
  split
  · refine ⟨?_, rfl⟩
    rw [← hstaged]
    simp [eventLoadDelivering]
  · split
    · refine ⟨?_, rfl⟩
      rw [← hstaged]
      simp [eventDecode]
    · exact ⟨hstaged, rfl⟩

/-- A holding input port's turn keeps every pointer with its buffer. -/
theorem preparePort_holds (hd : cfg.direction = .input) (hh : cfg.holdEnabled = true)
    (hb : p.hold.Backed) : (preparePort codec cfg p staged dq grow).Holds p dq := by
  rcases preparePort_kinds codec cfg p staged dq grow with
    ⟨-, -, hr⟩ | ⟨-, ho, -⟩ | ⟨-, -, hr⟩ | ⟨-, ho, -⟩
  · obtain ⟨hold, hentry⟩ := prepareEventInput_hold codec p staged dq grow
    rw [hr]
    refine ⟨?_, ?_, Or.inl (congrArg PortHold.held hold)⟩
    · rw [hold]
      exact ⟨hb.data, hb.dmabuf, by simp⟩
    · rw [hentry]
      intro pool addr h
      simp [PortBuffer.empty] at h
  · simp [hd] at ho
  · rw [hr]
    rcases prepareInput_cases cfg (clearDmabuf p) staged dq with
      ⟨-, -, hi⟩ | ⟨-, b, rfl, -, hi⟩ | ⟨-, -, hi⟩ <;> rw [hi]
    · exact pushed_holds hh
    · exact graph_holds hh b
    · exact nothing_holds hb
  · simp [hd] at ho

end Prepare

/-! ### One step -/

variable {cfg : Fin n → PortConfig} {codec : EventCodec} {errorCb : Bool}
  {s : SystemState n} {a : SystemAction n} {p : Fin n}

/-- Where a format, a cleared format or a dropped link ends the port's pool, the port holds
no buffer; a stop gives it back itself. -/
def SystemState.DropsHeld (cfg : Fin n → PortConfig) (errorCb : Bool) (p : Fin n)
    (s : SystemState n) : SystemAction n → Prop
  | .data _ => True
  | .control b => s.control.endsPool cfg errorCb b p = true →
      s.control.resetsHold b = true ∨ (s.data.ports p).held = none

instance (p : Fin n) (s : SystemState n) : DecidablePred (s.DropsHeld cfg errorCb p)
  | .data _ => inferInstanceAs (Decidable True)
  | .control _ => inferInstanceAs (Decidable (_ → _ ∨ _))

/-- What the port holds, and what it shows in a cycle, is of its current pool. -/
structure SystemState.PoolInv (p : Fin n) (s : SystemState n) : Prop where
  owned : s.data.Owned
  backed : (s.data.ports p).hold.Backed
  entry : s.data.phase.Within p → PtrHeld (s.data.ports p).held (s.data.buffers p).data
  pool : ∀ b, (s.data.ports p).held = some b → b.buffer.pool = s.pool p

theorem poolInv_init : (SystemState.init n).PoolInv p := by
  refine ⟨owned_init, ⟨?_, ?_, ?_⟩, ?_, ?_⟩ <;>
    simp [SystemState.init, DataState.init, PortData.zeroed, PortData.hold, PtrHeld,
      Phase.Within]

/-- Past a port's turn of the first loop only its size changes. -/
theorem entry_next {t : DataState n} {d : DataAction n}
    (hp : ∀ dq grow, d ≠ .prepare p dq grow) :
    ((DataState.next cfg codec t d).buffers p).data = (t.buffers p).data := by
  cases d with
  | push q c => by_cases hc : c.accepts (cfg q) <;> simp [DataState.next, hc]
  | stage grown blk => cases hk : t.lock <;> simp [DataState.next, hk, DataState.setPort]
  | beginCycle staged arrays => by_cases hc : skipsCycle n arrays <;> simp [DataState.next, hc]
  | prepare q dq grow =>
    have hq : p ≠ q := by
      rintro rfl
      exact hp dq grow rfl
    simp [DataState.next, hq]
  | setSize q size =>
    by_cases hq : p = q
    · subst hq
      simp [DataState.next]
    · simp [DataState.next, hq]
  | _ => rfl

theorem poolInv_data (hd : (cfg p).direction = .input) (hh : (cfg p).holdEnabled = true)
    {d : DataAction n} (he : (systemMachine cfg codec errorCb).Enabled s (.data d))
    (hi : s.PoolInv p) : (SystemState.next cfg codec errorCb s (.data d)).PoolInv p := by
  obtain ⟨⟨hen, -⟩, -, hpool⟩ := he
  have howned : (DataState.next cfg codec s.data d).Owned := owned_next hi.owned hen
  by_cases hp : ∃ dq grow, d = .prepare p dq grow
  · obtain ⟨dq, grow, rfl⟩ := hp
    have hr : (s.data.prepared cfg codec p dq grow).Holds (s.data.ports p) dq :=
      preparePort_holds hd hh hi.backed
    have hport : ((DataState.next cfg codec s.data (.prepare p dq grow)).ports p) =
        (s.data.prepared cfg codec p dq grow).port := by simp [DataState.next]
    have hentry : ((DataState.next cfg codec s.data (.prepare p dq grow)).buffers p) =
        (s.data.prepared cfg codec p dq grow).entry := by simp [DataState.next]
    refine ⟨howned, ?_, fun _ => ?_, ?_⟩
    · exact hport ▸ hr.backed
    · exact hport ▸ hentry ▸ hr.entry
    · intro b hb
      have hb : (s.data.prepared cfg codec p dq grow).port.held = some b := hport ▸ hb
      rcases hr.held with h | h | h
      · exact hi.pool b (h ▸ hb)
      · exact hpool b (h ▸ hb)
      · rw [h] at hb
        simp at hb
  · have hp' : ∀ dq grow, d ≠ .prepare p dq grow := by simpa using hp
    have hr : d ≠ .resetHold := by
      rintro rfl
      exact hpool
    have hold : ((DataState.next cfg codec s.data d).ports p).hold =
        (s.data.ports p).hold := hold_next hi.owned hen hr hp'
    have hheld : ((DataState.next cfg codec s.data d).ports p).held = (s.data.ports p).held :=
      congrArg PortHold.held hold
    refine ⟨howned, hold ▸ hi.backed, fun hw => ?_, fun b hb => hi.pool b (hheld.symm.trans hb)⟩
    have hin : s.data.phase.Within p := by
      rcases (within_next hen p).mp hw with ⟨hw, -⟩ | ⟨dq, grow, rfl⟩
      · exact hw
      · exact absurd rfl (hp' dq grow)
    intro pool addr hdata
    have hdata : (s.data.buffers p).data = some (.mapped pool addr) :=
      (entry_next hp').symm.trans hdata
    obtain ⟨b, hb, hbp⟩ := hi.entry hin pool addr hdata
    exact ⟨b, hheld.trans hb, hbp⟩

theorem poolInv_control {b : LinkAction n}
    (he : (systemMachine cfg codec errorCb).Enabled s (.control b))
    (hc : s.DropsHeld cfg errorCb p (.control b)) (hi : s.PoolInv p) :
    (SystemState.next cfg codec errorCb s (.control b)).PoolInv p := by
  by_cases hr : s.control.resetsHold b = true
  · have hdata : (SystemState.next cfg codec errorCb s (.control b)).data =
        DataState.next cfg codec s.data .resetHold := by
      simp [SystemState.next, SystemState.dataSteps, hr, dataMachine]
    have hen : (dataMachine cfg codec).Enabled s.data .resetHold := by
      have hv := he.1
      rw [SystemState.dataSteps, if_pos hr] at hv
      exact hv.1
    have hidle : s.data.phase = .idle := hen
    refine ⟨?_, ?_, ?_, ?_⟩ <;> rw [hdata]
    · exact owned_next hi.owned hen
    · constructor <;> simp [DataState.next, resetHold, PortData.hold, PtrHeld]
    · simp [DataState.next, hidle, Phase.Within]
    · simp [DataState.next, resetHold]
  · have hdata : (SystemState.next cfg codec errorCb s (.control b)).data = s.data := by
      simp [SystemState.next, SystemState.dataSteps, hr]
    refine ⟨?_, ?_, ?_, ?_⟩ <;> rw [hdata]
    · exact hi.owned
    · exact hi.backed
    · exact hi.entry
    · intro d hd
      by_cases hpool : s.control.endsPool cfg errorCb b p = true
      · rcases hc hpool with hreset | hnone
        · exact absurd hreset hr
        · simp [hnone] at hd
      · simpa [SystemState.next, hpool] using hi.pool d hd

theorem poolInv_run (hd : (cfg p).direction = .input) (hh : (cfg p).holdEnabled = true)
    {xs : List (SystemAction n)}
    (h : ((systemMachine cfg codec errorCb).restrict
      (SystemState.DropsHeld cfg errorCb p)).Valid (.init n) xs) :
    ((systemMachine cfg codec errorCb).exec (.init n) xs).PoolInv p := by
  refine Machine.invariant (M := (systemMachine cfg codec errorCb).restrict
    (SystemState.DropsHeld cfg errorCb p)) (I := fun s => s.PoolInv p) poolInv_init ?_ h
  intro s a he hi
  cases a with
  | data d => exact poolInv_data hd hh he.1 hi
  | control b => exact poolInv_control he.1 he.2 hi

/-! ### Whole runs -/

/-- What a port presents is its entry, in its turn of the first loop. -/
theorem presented_entry {d : DataAction n} {t : DataState n} {e : PortBuffer} {shown : Bytes}
    {o : Origin} (h : DataOut.presented p e shown o ∈ DataState.out cfg codec t d) :
    (∃ dq grow, d = .prepare p dq grow) ∧ (DataState.next cfg codec t d).buffers p = e := by
  cases d with
  | push q c => by_cases hc : c.accepts (cfg q) <;> simp [DataState.out, hc] at h
  | stage grown blk => cases hk : t.lock <;> simp [DataState.out, hk] at h
  | prepare q dq grow =>
    by_cases hm : (cfg q).mediaType = .event
    · simp [DataState.out, hm] at h
    · obtain ⟨rfl, rfl, -, -⟩ : p = q ∧ e = (t.prepared cfg codec q dq grow).entry ∧
          shown = (t.prepared cfg codec q dq grow).shown (cfg q) t.heap ∧
          o = (t.prepared cfg codec q dq grow).origin := by
        simpa [DataState.out, hm] using h
      exact ⟨⟨dq, grow, rfl⟩, by simp [DataState.next]⟩
  | finish q => simp [DataState.out] at h
  | resetHold => simp [DataState.out] at h
  | _ => simp [DataState.out] at h

theorem held_from_current_pool (hd : (cfg p).direction = .input)
    (hh : (cfg p).holdEnabled = true) {xs : List (SystemAction n)}
    (h : ((systemMachine cfg codec errorCb).restrict
      (SystemState.DropsHeld cfg errorCb p)).Valid (.init n) (xs ++ [a])) :
    let M := systemMachine cfg codec errorCb
    let s := M.exec (.init n) xs
    let t := M.next s a
    (∀ e shown, .inl (.presented p e shown .held) ∈ M.out s a →
        ∀ pool addr, e.data = some (.mapped pool addr) → pool = t.pool p) ∧
      (t.data.phase.Within p → ∀ pool addr,
        (t.data.buffers p).data = some (.mapped pool addr) → pool = t.pool p) ∧
      (∀ d, (t.data.ports p).currentDmabufBuf = some d → d.pool = t.pool p) ∧
      ∀ b c, .inl (.queued p b c) ∈ M.out s a → (s.data.ports p).held = some b →
        b.buffer.pool = s.pool p := by
  intro M s t
  have hs : s.PoolInv p := poolInv_run hd hh (Machine.valid_append.mp h).1
  have hexec : M.exec (.init n) (xs ++ [a]) = t := Machine.exec_append
  have ht : t.PoolInv p := hexec ▸ poolInv_run hd hh h
  have hshown : t.data.phase.Within p → ∀ pool addr,
      (t.data.buffers p).data = some (.mapped pool addr) → pool = t.pool p := by
    intro hw pool addr hdata
    obtain ⟨b, hb, rfl⟩ := ht.entry hw pool addr hdata
    exact ht.pool b hb
  refine ⟨?_, hshown, ?_, fun b c _ hb => hs.pool b hb⟩
  · intro e shown hmem pool addr hdata
    have he : M.Enabled s a := (Machine.valid_append.mp (Machine.valid_of_restrict h)).2.1
    cases a with
    | control b =>
      have hmem : DataOut.presented p e shown .held ∈
          (dataMachine cfg codec).outs s.data (s.dataSteps (.control b)) := by
        simpa [M, systemMachine, SystemState.out] using hmem
      by_cases hr : s.control.resetsHold b = true <;>
        simp [SystemState.dataSteps, hr, dataMachine, DataState.out] at hmem
    | data d =>
      have hmem : DataOut.presented p e shown .held ∈ DataState.out cfg codec s.data d := by
        simpa [M, systemMachine, SystemState.out, SystemState.dataSteps,
          SystemState.controlSteps, dataMachine] using hmem
      obtain ⟨⟨dq, grow, rfl⟩, hentry⟩ := presented_entry hmem
      have hen : (dataMachine cfg codec).Enabled s.data (.prepare p dq grow) := he.1.1
      refine hshown ((within_next hen p).mpr (Or.inr ⟨dq, grow, rfl⟩)) pool addr ?_
      rw [← hdata, ← hentry]
      rfl
  · intro d hdmabuf
    obtain ⟨b, hb, rfl⟩ := ht.backed.current d hdmabuf
    exact ht.pool b hb

/-- A filter whose port holds the frame its one cycle dequeued. -/
def heldFrame : List (SystemAction 1) :=
  [.control (.startEnter true), .control .startFinish, .data (.beginCycle true true),
    .data (.prepare onePort (some (graphBuffer 0 1 (some 64))) fun _ => true), .data .enterCallback,
    .data .leaveCallback, .data (.finish onePort), .data .endCycle]

/-- The next cycle, in which the graph has nothing for the port. -/
def emptyCycle : List (SystemAction 1) :=
  [.data (.beginCycle true true), .data (.prepare onePort none fun _ => true)]

theorem held_from_current_pool_kept :
    let M := systemMachine (fun _ : Fin 1 => heldInput) silentCodec true
    let a := SystemAction.data (.prepare 0 none fun _ => true)
    let s := M.exec (.init 1) (heldFrame ++ [.data (.beginCycle true true)])
    let t := M.next s a
    (∀ e shown, .inl (.presented 0 e shown .held) ∈ M.out s a →
        ∀ pool addr, e.data = some (.mapped pool addr) → pool = t.pool 0) ∧
      (t.data.phase.Within (0 : Fin 1) → ∀ pool addr,
        (t.data.buffers 0).data = some (.mapped pool addr) → pool = t.pool 0) ∧
      (∀ d, (t.data.ports 0).currentDmabufBuf = some d → d.pool = t.pool 0) ∧
      ∀ b c, .inl (.queued 0 b c) ∈ M.out s a → (s.data.ports 0).held = some b →
        b.buffer.pool = s.pool 0 :=
  held_from_current_pool rfl rfl (by decide)

/-- The port's format is cleared between the two cycles, and the old pool's frame is shown
all the same. -/
theorem held_frame_of_removed_pool :
    let M := systemMachine (fun _ : Fin 1 => heldInput) silentCodec true
    let xs := heldFrame ++
      [.control (.paramChanged 0 .format false), .control .callbackReturn] ++ emptyCycle
    M.Valid (.init 1) xs ∧
      ((M.exec (.init 1) xs).data.buffers 0).data = some (.mapped 0 64) ∧
      ((M.exec (.init 1) xs).data.buffers 0).fresh = false ∧
      ((M.exec (.init 1) xs).data.ports 0).held = some (graphBuffer 0 1 (some 64)) ∧
      (M.exec (.init 1) xs).pool 0 = 1 := by
  decide

end TinyPipewire.Filter
