import TinyPipewire.Core.FormatBytes
import TinyPipewire.Filter.BufferBalance
import TinyPipewire.Filter.System

/-!
# The pool a DMABUF port asks for

Its source is told to bring so many buffers at least: two, and another one if the port holds.
The cycle has one of them at a time, and hold another, so the source always has one to fill.
-/

namespace TinyPipewire.Filter

open Pod TinyPipewire.Core

variable {n : ℕ}

/-- `pwf_filter_dmabuf_update_params`: the parameters a port is updated with, if it is. -/
def dmabufUpdateParams (cfg : PortConfig) (garbage : Bytes) : Option (Builder × List UInt32) :=
  if cfg.useDmabuf then
    let b := stackBuilder 512 garbage
    some (buildDmabufBuffers b (if cfg.holdEnabled then 1 else 0), [b.offset])
  else none

/-- The fewest buffers of a pool that meets the parameter: the low end of a range of them. -/
def fewestBuffers (r : SpaBuffersParam) : Option ℕ :=
  r.buffers.bind fun v =>
    if v.kind = spaChoiceRange then (v.vals[1]?).map fun lo => (wordAt lo 0).toNat else none

/-- How many buffers the port may have across cycles. -/
def PortConfig.heldCount (cfg : PortConfig) : ℕ := if cfg.holdEnabled then 1 else 0

variable {cfg : Fin n → PortConfig} {codec : EventCodec} {s : DataState n} {p : Fin n}

/-! ### What is asked for -/

theorem buildDmabufBuffers_read (garbage : Bytes) (extraBuffers : UInt32) :
    ∃ v, paramAt (buildDmabufBuffers (stackBuilder 512 garbage) extraBuffers) 0 = some v ∧
      IsObject v spaTypeObjectParamBuffers spaParamBuffers (dmabufBuffersItems extraBuffers) := by
  have hstart : (stackBuilder 512 garbage).offset.toNat % 8 = 0 := rfl
  have hwrote := buildDmabufBuffers_wrote hstart extraBuffers
  have hlen : (objectBytes spaTypeObjectParamBuffers spaParamBuffers
      (dmabufBuffersItems extraBuffers)).length ≤ (512 : UInt32).toNat := by
    rw [objectBytes_length]
    simp [dmabufBuffersItems, countItem, dmabufTypeItem, choiceBody, roundUp, padding]
  have hshape : objectBytes spaTypeObjectParamBuffers spaParamBuffers
      (dmabufBuffersItems extraBuffers) = [] ++ (objectBytes spaTypeObjectParamBuffers
        spaParamBuffers (dmabufBuffersItems extraBuffers) ++ []) := by
    rw [List.append_nil, List.nil_append]
  rw [hshape] at hwrote hlen
  exact paramAt_object [] hwrote hlen rfl

/-- Two buffers and the one that hold keeps, and all of them DMABUF. -/
theorem dmabufUpdateParams_read {c : PortConfig} (hd : c.useDmabuf = true) (garbage : Bytes) :
    ∃ r param, dmabufUpdateParams c garbage = some r ∧
      (paramOf r 0).bind readBuffers = some param ∧ param.dataType = some dmabufDataType ∧
      fewestBuffers param = some (2 + c.heldCount) := by
  obtain ⟨v, hv, hobject⟩ := buildDmabufBuffers_read garbage (if c.holdEnabled then 1 else 0)
  have hparam := readBuffers_dmabuf hobject
  have hread : (paramOf (buildDmabufBuffers (stackBuilder 512 garbage)
      (if c.holdEnabled then 1 else 0), [(stackBuilder 512 garbage).offset]) 0).bind readBuffers =
      readBuffers v := by
    rw [paramOf_zero rfl]
    exact congrArg (·.bind readBuffers) hv
  refine ⟨_, _, if_pos hd, hread.trans hparam, rfl, ?_⟩
  cases hold : c.holdEnabled <;> simp [fewestBuffers, wordAt_word_self, PortConfig.heldCount, hold]

/-! ### What the filter has of it -/

/-- A port has its cycle's buffer and the held one, and between cycles the held one alone. -/
theorem kept_length (hi : s.BufferInv cfg) (p : Fin n) :
    (s.kept p).length ≤ 1 + (cfg p).heldCount ∧
      (s.phase = .idle → (s.kept p).length ≤ (cfg p).heldCount) := by
  have hheld : (s.ports p).held.toList.length ≤ (cfg p).heldCount := by
    cases h : (s.ports p).held with
    | none => exact Nat.zero_le _
    | some b =>
      obtain ⟨-, -, hold⟩ := hi.holds p (by simp [h])
      simp [PortConfig.heldCount, hold]
  have htaken : (s.dequeued p).toList.length ≤ 1 := by
    cases s.dequeued p <;> simp
  rw [DataState.kept, List.length_append]
  constructor
  · omega
  · intro hidle
    have hnone : s.dequeued p = none := hi.idle p (by simp [hidle, Phase.Within])
    rw [hnone, Option.toList_none, List.length_nil]
    omega

/-- Only an event port or an output port drops a buffer. -/
theorem videoInput_balanced (hdir : (cfg p).direction = .input)
    (hmedia : (cfg p).mediaType = .video) {xs : List (DataAction n)}
    (h : (dataMachine cfg codec).Valid (.init n) xs) :
    ((dataMachine cfg codec).exec (.init n) xs).BufferInv cfg ∧
      Balanced p ((dataMachine cfg codec).outs (.init n) xs)
        ((dataMachine cfg codec).exec (.init n) xs) := by
  refine Machine.history (P := fun ws t => t.BufferInv cfg ∧ Balanced p ws t)
    ⟨bufferInv_init, balanced_init⟩ ?_ h
  rintro ws s a he ⟨hi, hb⟩
  refine ⟨bufferInv_next he hi, balanced_next he hi hb ?_⟩
  rintro dq grow rfl (hevent | houtput)
  · rw [hmedia] at hevent
    cases hevent
  · rw [hdir] at houtput
    cases houtput

/-- A DMABUF input port asks for two buffers and the one that hold keeps. It loses none of its
pool, whatever the cycles and the pushes do, and of as many as it asked for one at least is the
source's to fill: two of them between cycles. -/
theorem dmabuf_pool_suffices (hd : (cfg p).useDmabuf = true) (hdir : (cfg p).direction = .input)
    (hmedia : (cfg p).mediaType = .video) (garbage : Bytes) {xs : List (DataAction n)}
    (h : (dataMachine cfg codec).Valid (.init n) xs) :
    let fewest := 2 + (cfg p).heldCount
    ∃ r param, dmabufUpdateParams (cfg p) garbage = some r ∧
      (paramOf r 0).bind readBuffers = some param ∧ param.dataType = some dmabufDataType ∧
      fewestBuffers param = some fewest ∧
      let t := (dataMachine cfg codec).exec (.init n) xs
      let ws := (dataMachine cfg codec).outs (.init n) xs
      (takenBuffers p ws).Perm (givenBuffers p ws ++ t.kept p) ∧
        (takenBuffers p ws).length + 1 ≤ (givenBuffers p ws).length + fewest ∧
        (t.phase = .idle →
          (takenBuffers p ws).length + 2 ≤ (givenBuffers p ws).length + fewest) := by
  intro fewest
  obtain ⟨r, param, hr, hread, htype, hfewest⟩ := dmabufUpdateParams_read hd garbage
  refine ⟨r, param, hr, hread, htype, hfewest, ?_⟩
  intro t ws
  obtain ⟨hi, hbalanced⟩ : t.BufferInv cfg ∧ Balanced p ws t := videoInput_balanced hdir hmedia h
  have hlen := List.Perm.length_eq hbalanced
  rw [List.length_append] at hlen
  obtain ⟨hkept, hidle⟩ := kept_length hi p
  refine ⟨hbalanced, by omega, fun hphase => ?_⟩
  have := hidle hphase
  omega

/-- A camera's port that holds, through one cycle with a frame. -/
def heldDmabufInput : PortConfig := ⟨.input, .video, true, true⟩

def dmabufFrame : PwBuffer := ⟨0, 1, [⟨.dmaBuf, 3, 0, 64, none, [], some ⟨0, 64, 0⟩⟩], none⟩

theorem dmabuf_pool_suffices_held :
    ∃ r param, dmabufUpdateParams heldDmabufInput [] = some r ∧
      (paramOf r 0).bind readBuffers = some param ∧ param.dataType = some dmabufDataType ∧
      fewestBuffers param = some 3 ∧
      let M := dataMachine (fun _ : Fin 1 => heldDmabufInput) silentCodec
      let t := M.exec (.init 1) (cycleWith dmabufFrame)
      let ws := M.outs (.init 1) (cycleWith dmabufFrame)
      (takenBuffers onePort ws).Perm (givenBuffers onePort ws ++ t.kept onePort) ∧
        (takenBuffers onePort ws).length + 1 ≤ (givenBuffers onePort ws).length + 3 ∧
        (t.phase = .idle →
          (takenBuffers onePort ws).length + 2 ≤ (givenBuffers onePort ws).length + 3) := by
  have hrun : (dataMachine (fun _ : Fin 1 => heldDmabufInput) silentCodec).Valid (.init 1)
      (cycleWith dmabufFrame) := by decide
  exact dmabuf_pool_suffices rfl rfl rfl [] hrun

/-! ### A stop -/

variable {errorCb : Bool} {xs : List (SystemAction n)} {b : LinkAction n}

/-- What a stop does to the data side. -/
theorem stopped_data {t : SystemState n} (hstop : t.control.resetsHold b = true)
    (he : (systemMachine cfg codec errorCb).Enabled t (.control b)) :
    t.data.phase = .idle ∧ ((systemMachine cfg codec errorCb).next t (.control b)).data =
      DataState.next cfg codec t.data .resetHold := by
  have hsteps : t.dataSteps (.control b) = [.resetHold] := if_pos hstop
  refine ⟨?_, ?_⟩
  · have hv := he.1
    rw [hsteps] at hv
    exact hv.1
  · show (dataMachine cfg codec).exec t.data (t.dataSteps (.control b)) = _
    rw [hsteps]
    rfl

/-- Whichever call stops the filter, and whatever its loop and its callers did before, a video
input port has then given back every buffer it ever took. -/
theorem stop_returns_buffers (hdir : (cfg p).direction = .input)
    (hmedia : (cfg p).mediaType = .video)
    (h : (systemMachine cfg codec errorCb).Valid (.init n) (xs ++ [.control b]))
    (hstop : ((systemMachine cfg codec errorCb).exec (.init n) xs).control.resetsHold b = true) :
    let ws := dataTrace ((systemMachine cfg codec errorCb).outs (.init n) (xs ++ [.control b]))
    (takenBuffers p ws).Perm (givenBuffers p ws) := by
  intro ws
  obtain ⟨hxs, he, -⟩ := Machine.valid_append.mp h
  obtain ⟨ys, hys, hbefore, -⟩ := data_run hxs
  obtain ⟨zs, hzs, hafter, houts⟩ := data_run h
  obtain ⟨hidle, hnext⟩ := stopped_data hstop he
  rw [Machine.exec_append, Machine.exec_cons, Machine.exec_nil, hnext, hbefore] at hafter
  rw [hbefore] at hidle
  have hnone : ((dataMachine cfg codec).exec (.init n) ys).dequeued p = none := by
    have hinv := (videoInput_balanced hdir hmedia hys).1
    exact hinv.idle p (by simp [hidle, Phase.Within])
  have hkept : ((dataMachine cfg codec).exec (.init n) zs).kept p = [] := by
    rw [← hafter]
    simp [DataState.kept, DataState.next, resetHold, hnone]
  have hbalanced := (videoInput_balanced hdir hmedia hzs).2
  rw [Balanced, hkept, List.append_nil] at hbalanced
  show (takenBuffers p (dataTrace _)).Perm (givenBuffers p (dataTrace _))
  rw [houts]
  exact hbalanced

end TinyPipewire.Filter
