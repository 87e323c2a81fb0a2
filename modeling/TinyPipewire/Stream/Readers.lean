import TinyPipewire.Core.VideoEnum
import TinyPipewire.Filter.Dmabuf
import TinyPipewire.Lib.CountFill
import TinyPipewire.Stream.TargetList

/-!
# Readers that count all and store what fits

`pwf_video_enum_on_param`, `pwf_stream_get_target_list` and `pwf_dmabuf_extract_planes`, on the
array they are given: its cells, those after its end, and maybe no array at all.
-/

namespace TinyPipewire.Stream

open TinyPipewire.Core TinyPipewire.Filter CountFill

/-! ### The formats of a node -/

/-- A `param` event of a node: whether its id is `SPA_PARAM_EnumFormat`, and the object. -/
structure ParamEvent where
  enumFormat : Bool
  param : Option VideoFormatPod

/-- `pwf_video_enum_on_param`. At most `UINT32_MAX` objects are asked for, so that `found` does
not wrap. -/
def enumOnParam (outLen : ℕ) (ctx : CountFill VideoFormatInfo) (e : ParamEvent) :
    CountFill VideoFormatInfo :=
  match e.enumFormat, e.param with
  | true, some param =>
    match videoEntry param with
    | none => ctx
    | some info => ctx.put outLen info
  | _, _ => ctx

/-- What the events of an enumeration make of its `pwf_video_enum_ctx`. -/
def collectFormats (events : List ParamEvent) (out : Option (ℕ → VideoFormatInfo)) (outLen : ℕ) :
    ℕ × Option (ℕ → VideoFormatInfo) :=
  let len := if out.isSome then outLen else 0
  let ctx := events.foldl (enumOnParam len) ⟨out, 0⟩
  (ctx.found, ctx.out)

/-- What `pwf_pw_enum_video_formats` is called with, the events of its round-trip, and how that
ends. -/
structure VideoEnumCall where
  found : Bool
  ready : Bool
  nodeId : UInt32
  bound : Bool
  events : List ParamEvent
  synced : Int

/-- What `pwf_pw_enum_video_formats` fails with before it asks the node, and writes to `found`. -/
def VideoEnumCall.refusal (call : VideoEnumCall) : Option (PwfError × Option ℕ) :=
  if call.found = false then some (.invalidArg, none)
  else if call.ready = false ∨ call.nodeId = 0 then some (.invalidArg, some 0)
  else if call.bound = false then some (.connectFailed, some 0)
  else none

/-- What it returns and writes to `found` when the round-trip has ended. -/
def VideoEnumCall.answer (call : VideoEnumCall) (found : ℕ) : PwfError × Option ℕ :=
  if call.synced < 0 then (pwErrorFromSync call.synced, some 0) else (.ok, some found)

/-- `pwf_pw_enum_video_formats`: its result, what it writes to `found`, and the array. -/
def enumVideoFormats (call : VideoEnumCall) (out : Option (ℕ → VideoFormatInfo)) (outLen : ℕ) :
    (PwfError × Option ℕ) × Option (ℕ → VideoFormatInfo) :=
  match call.refusal with
  | some r => (r, out)
  | none =>
    let (found, out') := collectFormats call.events out outLen
    (call.answer found, out')

/-- What an event adds to the list. -/
def ParamEvent.entry (e : ParamEvent) : Option VideoFormatInfo :=
  if e.enumFormat then e.param.bind videoEntry else none

theorem enumOnParam_eq (outLen : ℕ) (ctx : CountFill VideoFormatInfo) (e : ParamEvent) :
    enumOnParam outLen ctx e = ctx.offer outLen e.entry := by
  obtain ⟨enumFormat, param⟩ := e
  unfold enumOnParam ParamEvent.entry
  cases enumFormat with
  | false => rfl
  | true =>
    cases param with
    | none => rfl
    | some param =>
      dsimp only [Option.bind_some, if_true]
      cases videoEntry param with
      | none => rfl
      | some info => rfl

theorem collectFormats_eq (events : List ParamEvent) (out : Option (ℕ → VideoFormatInfo))
    (outLen : ℕ) : collectFormats events out outLen =
      scan ParamEvent.entry events out (if out.isSome then outLen else 0) :=
  scan_of_turns enumOnParam_eq events out _

theorem collectFormats_fills (events : List ParamEvent) :
    CountsThenFills (collectFormats events) (events.filterMap ParamEvent.entry).length
      (events.filterMap ParamEvent.entry) := by
  have hread : collectFormats events = fun out outLen =>
      scan ParamEvent.entry events out (if out.isSome then outLen else 0) :=
    funext₂ (collectFormats_eq events)
  rw [hread]
  exact (countsThenFills_scan ParamEvent.entry events).of_length

theorem pwErrorFromSync_ne (res : Int) : pwErrorFromSync res ≠ .ok := by
  unfold pwErrorFromSync
  split
  · intro h
    cases h
  · intro h
    cases h

/-- A call with somewhere to put the count, a node of a bound registry, and an answer. -/
def VideoEnumCall.Answered (call : VideoEnumCall) : Prop :=
  call.found = true ∧ call.ready = true ∧ call.nodeId ≠ 0 ∧ call.bound = true ∧ 0 ≤ call.synced

/-- What is written to `found` of no count: it is zeroed if it is there. -/
def zeroed (found : Bool) : Option ℕ := if found then some 0 else none

/-- A call that is refused is not answered, and reports nothing. -/
theorem VideoEnumCall.refusal_spec {call : VideoEnumCall} {r : PwfError × Option ℕ}
    (h : call.refusal = some r) : r.1 ≠ .ok ∧ r.2 = zeroed call.found ∧ ¬ call.Answered := by
  unfold VideoEnumCall.refusal at h
  unfold VideoEnumCall.Answered zeroed
  grind

theorem VideoEnumCall.refusal_none {call : VideoEnumCall} (h : call.refusal = none) :
    call.found = true ∧ (call.Answered ↔ 0 ≤ call.synced) := by
  unfold VideoEnumCall.refusal at h
  unfold VideoEnumCall.Answered
  grind

/-- A call that is answered reports the count of its events; one that is not reports none. -/
theorem enumVideoFormats_fills (call : VideoEnumCall) :
    ∃ r found entries, CountsThenFills (enumVideoFormats call) (r, found) entries ∧
      (r = .ok ↔ call.Answered) ∧
      (r = .ok → found = some entries.length ∧
        entries = call.events.filterMap ParamEvent.entry) ∧
      (r ≠ .ok → found = zeroed call.found) := by
  have hcollect := collectFormats_fills call.events
  cases hr : call.refusal with
  | some r =>
    have hread : enumVideoFormats call = fun out _ => (r, out) := by
      funext out outLen
      rw [enumVideoFormats, hr]
    obtain ⟨hfailed, hfound, hno⟩ := VideoEnumCall.refusal_spec hr
    exact ⟨r.1, r.2, [], hread ▸ countsThenFills_refused r,
      ⟨fun hok => absurd hok hfailed, fun ha => absurd ha hno⟩,
      fun hok => absurd hok hfailed, fun _ => hfound⟩
  | none =>
    have hread : enumVideoFormats call = fun out outLen =>
        (call.answer (collectFormats call.events out outLen).1,
          (collectFormats call.events out outLen).2) := by
      funext out outLen
      rw [enumVideoFormats, hr]
    obtain ⟨hfound, hanswered⟩ := VideoEnumCall.refusal_none hr
    have hfills := hcollect.map call.answer
    rw [← hread] at hfills
    by_cases hsync : call.synced < 0
    · rw [VideoEnumCall.answer, if_pos hsync] at hfills
      have hfailed := pwErrorFromSync_ne call.synced
      refine ⟨_, _, _, hfills, ?_, fun hok => absurd hok hfailed, fun _ => by simp [zeroed, hfound]⟩
      exact ⟨fun hok => absurd hok hfailed, fun ha => by
        have hle := hanswered.mp ha
        omega⟩
    · rw [VideoEnumCall.answer, if_neg hsync] at hfills
      exact ⟨_, _, _, hfills, ⟨fun _ => hanswered.mpr (by omega), fun _ => rfl⟩,
        fun _ => ⟨rfl, rfl⟩, fun hne => absurd rfl hne⟩

/-- An event does to the array what it does to the list of its cells. -/
theorem videoEnumOnParam_first (cells : ℕ → VideoFormatInfo) (found outLen : ℕ)
    (e : ParamEvent) : ∃ after,
      enumOnParam outLen ⟨some cells, found⟩ e = ⟨some after,
        (videoEnumOnParam ⟨Cells.first outLen cells, found⟩ e.enumFormat e.param).found⟩ ∧
      (videoEnumOnParam ⟨Cells.first outLen cells, found⟩ e.enumFormat e.param).out =
        Cells.first outLen after := by
  obtain ⟨enumFormat, param⟩ := e
  unfold enumOnParam videoEnumOnParam
  cases enumFormat with
  | false => exact ⟨cells, rfl, rfl⟩
  | true =>
    cases param with
    | none => exact ⟨cells, rfl, rfl⟩
    | some param =>
      dsimp only
      cases videoEntry param with
      | none => exact ⟨cells, rfl, rfl⟩
      | some info => exact ⟨_, rfl, Cells.first_set⟩

/-! ### The targets of a stream -/

/-- One turn of the loop of `pwf_stream_get_target_list`. -/
def listTargetAt (mediaClass : CString) (outLen : ℕ) (f : CountFill TargetInfo) (e : NodeEntry) :
    CountFill TargetInfo :=
  if e.mediaClass = some mediaClass then f.put outLen (targetInfo e) else f

/-- What `pwf_stream_get_target_list` fails with before its loop, and writes to `found`. -/
def TargetListCall.refusal (call : TargetListCall) : Option (PwfError × Option ℕ) :=
  if call.found = false then some (.invalidArg, none)
  else if call.stream = false then some (.invalidArg, some 0)
  else if call.inCallback then some (.inCallback, some 0)
  else if call.bound < 0 then some (pwErrorFromSync call.bound, some 0)
  else none

/-- `pwf_stream_get_target_list`: its result, what it writes to `found`, and the array. -/
def getTargetListAt (call : TargetListCall) (playback : Bool) (type : DataType)
    (reg : Core.Registry) (out : Option (ℕ → TargetInfo)) (outLen : ℕ) :
    (PwfError × Option ℕ) × Option (ℕ → TargetInfo) :=
  match call.refusal with
  | some r => (r, out)
  | none =>
    let f := reg.nodes.foldl (listTargetAt (targetMediaClass playback type) outLen) ⟨out, 0⟩
    ((.ok, some f.found), f.out)

/-- What a node adds to the list. -/
def targetEntry (mediaClass : CString) (e : NodeEntry) : Option TargetInfo :=
  if e.mediaClass = some mediaClass then some (targetInfo e) else none

theorem listTargetAt_eq (mediaClass : CString) (outLen : ℕ) (f : CountFill TargetInfo)
    (e : NodeEntry) :
    listTargetAt mediaClass outLen f e = f.offer outLen (targetEntry mediaClass e) := by
  unfold listTargetAt targetEntry
  split
  · rfl
  · rfl

theorem filterMap_targetEntry (reg : Core.Registry) (playback : Bool) (type : DataType) :
    reg.nodes.filterMap (targetEntry (targetMediaClass playback type)) =
      (targetsOf reg playback type).map targetInfo := by
  simp only [targetsOf, beq_eq_decide]
  exact filterMap_passed _ targetInfo reg.nodes

theorem getTargetListAt_eq {call : TargetListCall} (hr : call.refusal = none) (playback : Bool)
    (type : DataType) (reg : Core.Registry) (out : Option (ℕ → TargetInfo)) (outLen : ℕ) :
    getTargetListAt call playback type reg out outLen =
      ((.ok, some (scan (targetEntry (targetMediaClass playback type)) reg.nodes out outLen).1),
        (scan (targetEntry (targetMediaClass playback type)) reg.nodes out outLen).2) := by
  rw [getTargetListAt, hr, ← scan_of_turns (listTargetAt_eq _)]

/-- A call with somewhere to put the count, on a stream, from outside its callbacks, whose
registry can be bound. -/
def TargetListCall.Answered (call : TargetListCall) : Prop :=
  call.found = true ∧ call.stream = true ∧ call.inCallback = false ∧ 0 ≤ call.bound

theorem TargetListCall.refusal_spec {call : TargetListCall} {r : PwfError × Option ℕ}
    (h : call.refusal = some r) : r.1 ≠ .ok ∧ r.2 = zeroed call.found ∧ ¬ call.Answered := by
  have hne := pwErrorFromSync_ne call.bound
  unfold TargetListCall.refusal at h
  unfold TargetListCall.Answered zeroed
  grind

theorem TargetListCall.refusal_none {call : TargetListCall} (h : call.refusal = none) :
    call.Answered := by
  unfold TargetListCall.refusal at h
  unfold TargetListCall.Answered
  grind

/-- A call that comes to its loop reports the count of the targets; any other reports none, and
leaves the array. -/
theorem getTargetListAt_fills (call : TargetListCall) (playback : Bool) (type : DataType)
    (reg : Core.Registry) :
    ∃ r found entries, CountsThenFills (getTargetListAt call playback type reg) (r, found) entries ∧
      (r = .ok ↔ call.Answered) ∧
      (r = .ok → found = some entries.length ∧
        entries = (targetsOf reg playback type).map targetInfo) ∧
      (r ≠ .ok → found = zeroed call.found ∧ entries = []) := by
  cases hr : call.refusal with
  | some r =>
    have hread : getTargetListAt call playback type reg = fun out _ => (r, out) := by
      funext out outLen
      rw [getTargetListAt, hr]
    obtain ⟨hfailed, hfound, hno⟩ := TargetListCall.refusal_spec hr
    exact ⟨r.1, r.2, [], hread ▸ countsThenFills_refused r,
      ⟨fun hok => absurd hok hfailed, fun ha => absurd ha hno⟩,
      fun hok => absurd hok hfailed, fun _ => ⟨hfound, rfl⟩⟩
  | none =>
    have hscan := (countsThenFills_scan (targetEntry (targetMediaClass playback type))
      reg.nodes).map fun n => (PwfError.ok, some n)
    have hread := funext₂ (getTargetListAt_eq hr playback type reg)
    rw [filterMap_targetEntry] at hscan
    exact ⟨_, _, _, hread ▸ hscan, ⟨fun _ => TargetListCall.refusal_none hr, fun _ => rfl⟩,
      fun _ => ⟨rfl, rfl⟩, fun hne => absurd rfl hne⟩

/-- What the call writes to the array is the list of what it writes. -/
theorem getTargetList_first (call : TargetListCall) (playback : Bool) (type : DataType)
    (reg : Core.Registry) (cells : ℕ → TargetInfo) (outLen : ℕ) :
    ∃ r after, getTargetListAt call playback type reg (some cells) outLen = (r, some after) ∧
      getTargetList call playback type reg outLen =
        (r.1, Cells.first (min (r.2.getD 0) outLen) after, r.2) := by
  have hlist : getTargetList call playback type reg outLen =
      match call.refusal with
      | some r => (r.1, [], r.2)
      | none => (.ok, ((targetsOf reg playback type).take outLen).map targetInfo,
          some (targetsOf reg playback type).length) := by
    unfold getTargetList TargetListCall.refusal
    rw [foldl_listTarget]
    split
    · rfl
    · split
      · rfl
      · split
        · rfl
        · split
          · rfl
          · rfl
  cases hr : call.refusal with
  | some r =>
    have hzero : r.2.getD 0 = 0 := by
      unfold TargetListCall.refusal at hr
      grind
    refine ⟨r, cells, by rw [getTargetListAt, hr], ?_⟩
    rw [hlist, hr, hzero, Nat.zero_min]
    rfl
  | none =>
    have hfills := countsThenFills_scan (targetEntry (targetMediaClass playback type)) reg.nodes
    rw [filterMap_targetEntry] at hfills
    obtain ⟨after, hout, hfirst, -⟩ := hfills.fills cells outLen
    refine ⟨_, after, by rw [getTargetListAt_eq hr, hfills.report, hout], ?_⟩
    rw [hlist, hr, Option.getD_some, hfirst, List.map_take, List.length_map]

/-! ### The planes of a buffer -/

/-- One turn of the loop of `pwf_dmabuf_extract_planes`. -/
def extractPlaneAt (planesLen : ℕ) (f : CountFill DmabufPlane) (d : SpaData) :
    CountFill DmabufPlane :=
  if d.type = .dmaBuf then f.put planesLen d.plane else f

/-- `pwf_dmabuf_extract_planes`: the count, and the array. -/
def dmabufExtractPlanesAt (b : Option SpaBuffer) (planes : Option (ℕ → DmabufPlane))
    (planesLen : ℕ) : ℕ × Option (ℕ → DmabufPlane) :=
  match b with
  | none => (0, planes)
  | some b =>
    let f := b.datas.foldl (extractPlaneAt planesLen) ⟨planes, 0⟩
    (f.found, f.out)

/-- What a block adds to the list. -/
def planeEntry (d : SpaData) : Option DmabufPlane :=
  if d.type = .dmaBuf then some d.plane else none

theorem extractPlaneAt_eq (planesLen : ℕ) (f : CountFill DmabufPlane) (d : SpaData) :
    extractPlaneAt planesLen f d = f.offer planesLen (planeEntry d) := by
  unfold extractPlaneAt planeEntry
  split
  · rfl
  · rfl

theorem filterMap_planeEntry (b : SpaBuffer) : b.datas.filterMap planeEntry = b.planes :=
  filterMap_passed _ SpaData.plane b.datas

/-- The planes there are to list. -/
def planesOf (b : Option SpaBuffer) : List DmabufPlane := (b.map SpaBuffer.planes).getD []

theorem dmabufExtractPlanesAt_fills (b : Option SpaBuffer) :
    CountsThenFills (dmabufExtractPlanesAt b) (planesOf b).length (planesOf b) := by
  cases b with
  | none => exact countsThenFills_refused 0
  | some b =>
    have hread : dmabufExtractPlanesAt (some b) = scan planeEntry b.datas :=
      funext₂ (scan_of_turns extractPlaneAt_eq b.datas)
    have hplanes : planesOf (some b) = b.datas.filterMap planeEntry := (filterMap_planeEntry b).symm
    rw [hread, hplanes]
    exact countsThenFills_scan planeEntry b.datas

/-- What the loop writes to the array is the list of what it writes. -/
theorem dmabufExtractPlanes_first (b : Option SpaBuffer) (cells : ℕ → DmabufPlane)
    (planesLen : ℕ) :
    ∃ n after, dmabufExtractPlanesAt b (some cells) planesLen = (n, some after) ∧
      dmabufExtractPlanes b planesLen = (Cells.first (min n planesLen) after, n) := by
  have hfills := dmabufExtractPlanesAt_fills b
  obtain ⟨after, hout, hfirst, -⟩ := hfills.fills cells planesLen
  have hread : dmabufExtractPlanesAt b (some cells) planesLen = ((planesOf b).length, some after) :=
    Prod.ext (hfills.report _ _) hout
  refine ⟨_, after, hread, ?_⟩
  rw [hfirst]
  cases b with
  | none => simp [dmabufExtractPlanes, planesOf]
  | some b => exact dmabufExtractPlanes_some b planesLen

/-! ### All three -/

/-- Whatever there is to read, and whatever array there is for it, if any: what is reported does
not depend on the array, and the array receives the first of what is listed, whole entries and no
more than it has room for. A call that is answered reports how much there is to list; any other
fails and reports none. -/
theorem readers_count_then_fill :
    (∀ events : List ParamEvent,
      CountsThenFills (collectFormats events) (events.filterMap ParamEvent.entry).length
        (events.filterMap ParamEvent.entry)) ∧
    (∀ call : VideoEnumCall, ∃ r found entries,
      CountsThenFills (enumVideoFormats call) (r, found) entries ∧
        (r = .ok ↔ call.Answered) ∧
        (r = .ok → found = some entries.length ∧
          entries = call.events.filterMap ParamEvent.entry) ∧
        (r ≠ .ok → found = zeroed call.found)) ∧
    (∀ call playback type reg, ∃ r found entries,
      CountsThenFills (getTargetListAt call playback type reg) (r, found) entries ∧
        (r = .ok ↔ call.Answered) ∧
        (r = .ok → found = some entries.length ∧
          entries = (targetsOf reg playback type).map targetInfo) ∧
        (r ≠ .ok → found = zeroed call.found ∧ entries = [])) ∧
    ∀ b, CountsThenFills (dmabufExtractPlanesAt b) (planesOf b).length (planesOf b) :=
  ⟨collectFormats_fills, enumVideoFormats_fills, getTargetListAt_fills, dmabufExtractPlanesAt_fills⟩

end TinyPipewire.Stream
