import TinyPipewire.Filter.Port

/-!
# The planes of a DMABUF

`pwf_dmabuf_extract_planes`, and the accessor a process callback reads its frame through.
-/

namespace TinyPipewire.Filter

/-- `struct pwf_dmabuf_plane`. -/
structure DmabufPlane where
  fd : Int32
  offset : UInt32
  stride : UInt32
  size : UInt32
  deriving DecidableEq

/-- What the loop writes for one block. -/
def SpaData.plane (d : SpaData) : DmabufPlane where
  fd := d.fd.toInt32
  offset := d.mapoffset
  stride := (d.chunk.map fun c => c.stride.toUInt32).getD 0
  size := (d.chunk.map (·.size)).getD d.maxsize

/-- The loop of `pwf_dmabuf_extract_planes`, with the planes written and the count so far. -/
def extractPlanes (planesLen : ℕ) : List SpaData → List DmabufPlane → ℕ → List DmabufPlane × ℕ
  | [], planes, count => (planes, count)
  | d :: ds, planes, count =>
    if d.type = .dmaBuf then
      extractPlanes planesLen ds (if count < planesLen then planes ++ [d.plane] else planes)
        (count + 1)
    else extractPlanes planesLen ds planes count

/-- `pwf_dmabuf_extract_planes`: what it writes, and the count it returns. A NULL array is one
of length 0. -/
def dmabufExtractPlanes (b : Option SpaBuffer) (planesLen : ℕ) : List DmabufPlane × ℕ :=
  match b with
  | none => ([], 0)
  | some b => extractPlanes planesLen b.datas [] 0

/-- `pwf_filter_port_get_dmabuf_planes`. -/
def portGetDmabufPlanes (cfg : PortConfig) (p : PortData) (planesLen : ℕ) :
    List DmabufPlane × ℕ :=
  if cfg.useDmabuf = false ∨ p.currentDmabufBuf = none then ([], 0)
  else dmabufExtractPlanes p.currentDmabufBuf planesLen

/-- The planes of a buffer: one for each of its DMABUF blocks. -/
def SpaBuffer.planes (b : SpaBuffer) : List DmabufPlane :=
  (b.datas.filter fun d => d.type == .dmaBuf).map SpaData.plane

/-- The planes a port shows of a buffer. -/
def shownPlanes (cfg : PortConfig) (b : Option SpaBuffer) : List DmabufPlane :=
  if cfg.useDmabuf then (b.map SpaBuffer.planes).getD [] else []

theorem extractPlanes_eq (planesLen : ℕ) (ds : List SpaData) (planes : List DmabufPlane) :
    let all := planes ++ (ds.filter fun d => d.type == .dmaBuf).map SpaData.plane
    extractPlanes planesLen ds (planes.take planesLen) planes.length =
      (all.take planesLen, all.length) := by
  induction ds generalizing planes with
  | nil => simp [extractPlanes]
  | cons d ds ih =>
    by_cases hd : d.type = .dmaBuf
    · have htake : (if planes.length < planesLen then planes.take planesLen ++ [d.plane]
          else planes.take planesLen) = (planes ++ [d.plane]).take planesLen := by
        rw [List.take_append]
        split
        · have hlen : (planesLen - planes.length) = (planesLen - planes.length - 1) + 1 := by omega
          rw [hlen, List.take_succ_cons, List.take_nil]
        · have hlen : planesLen - planes.length = 0 := by omega
          rw [hlen, List.take_zero, List.append_nil]
      have hstep := ih (planes ++ [d.plane])
      rw [List.length_append] at hstep
      simp only [extractPlanes, hd, if_true, htake]
      simpa [hd] using hstep
    · simpa [extractPlanes, hd] using ih planes

theorem dmabufExtractPlanes_some (b : SpaBuffer) (planesLen : ℕ) :
    dmabufExtractPlanes (some b) planesLen = (b.planes.take planesLen, b.planes.length) := by
  have hall := extractPlanes_eq planesLen b.datas []
  simpa [dmabufExtractPlanes, SpaBuffer.planes] using hall

/-- The accessor writes the planes the port shows as far as there is room, and counts all. -/
theorem portGetDmabufPlanes_eq (cfg : PortConfig) (p : PortData) (planesLen : ℕ) :
    portGetDmabufPlanes cfg p planesLen =
      ((shownPlanes cfg p.currentDmabufBuf).take planesLen,
        (shownPlanes cfg p.currentDmabufBuf).length) := by
  unfold portGetDmabufPlanes shownPlanes
  cases hu : cfg.useDmabuf with
  | false => simp
  | true =>
    cases hb : p.currentDmabufBuf with
    | none => simp
    | some b => simp [dmabufExtractPlanes_some]

end TinyPipewire.Filter
