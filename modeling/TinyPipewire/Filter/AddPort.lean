import TinyPipewire.Core.Removal
import TinyPipewire.Core.VideoFormat
import TinyPipewire.Filter.Link
import TinyPipewire.Stream.PlaybackFrames

/-!
# Adding ports to a filter

`pwf_filter_add_port_common` names a port by the length of the filter's list and makes it on the
`pw_filter`; the port is put on the list after that, which may fail.
-/

namespace TinyPipewire.Filter

open TinyPipewire.Core
open TinyPipewire.Stream (AudioConfig SpaAudioFormat SpaDirection lookupAudioFormat)

/-- `enum pwf_port_memory`. -/
inductive PortMemory
  | auto
  | dmabuf
  deriving DecidableEq, Repr

/-- A parameter a port is made with, by what builds it. -/
inductive PortParam
  | audioFormat (config : AudioConfig) (fmt : SpaAudioFormat)
  | videoFormat (config : VideoConfig) (fmt : SpaVideoFormat)
  | videoFormatMjpg (config : VideoConfig)
  | videoFormatH264 (config : VideoConfig)
  | signalFormat
  | eventFormat
  | metaHeader
  | cpuBuffers
  deriving DecidableEq, Repr

/-- The union `pwf_filter_port.config`, where it is set. -/
inductive PortFormat
  | audio (sampleRate channels : Int32) (format : SpaAudioFormat)
  | video (width height : Int32) (format : SpaVideoFormat)
  deriving DecidableEq, Repr

/-- What an add function asks `pwf_filter_add_port_common` for, and sets on the port. -/
structure PortRequest where
  direction : PortDirection
  params : List PortParam
  mapBuffers : Bool
  mediaType : DataType
  config : Option PortFormat
  useDmabuf : Bool
  deriving DecidableEq, Repr

/-- A port on the `pw_filter`: its direction there, its `PW_KEY_PORT_NAME`, and what its
`struct pwf_filter_port` was given. -/
structure AddedPort where
  pwDirection : SpaDirection
  name : CString
  pwPortName : CString
  request : PortRequest
  deriving DecidableEq

/-- The fields of `struct pwf_filter` an add call reads and writes, and the ports on its
`pw_filter`. A `struct pwf_filter_port*` is the place of the port there. -/
structure PortOwner where
  state : FilterState
  ports : List ℕ
  portsCapacity : ℕ
  pwPorts : List AddedPort
  deriving DecidableEq

/-- Which allocations of an add call succeed: `pw_properties_new`, `pw_filter_add_port`, and the
`realloc` of the list. -/
structure AddAllocs where
  properties : Bool
  port : Bool
  grown : Bool
  deriving DecidableEq, Repr

/-- `"pwf_port_%zu"`, in the 24 bytes of `pw_port_name`. -/
def portName (n : ℕ) : CString :=
  (CString.ofChars (['p', 'w', 'f', '_', 'p', 'o', 'r', 't', '_'] ++ Nat.toDigits 10 n)).truncate 24

def PortDirection.toSpa : PortDirection → SpaDirection
  | .input => .input
  | .output => .output

/-! ### The calls -/

namespace PortOwner

/-- A filter without ports. -/
def created (state : FilterState) : PortOwner := ⟨state, [], 0, []⟩

variable (s : PortOwner)

/-- `pwf_filter_add_port_common`. -/
def addPortCommon (r : PortRequest) (al : AddAllocs) : PortOwner × Option ℕ :=
  let name := portName s.ports.length
  if al.properties = false then (s, none)
  else if al.port = false then (s, none)
  else
    ({ s with pwPorts := s.pwPorts ++ [⟨r.direction.toSpa, name, name, r⟩] },
      some s.pwPorts.length)

/-- `pwf_filter_add_port_to_list`. -/
def addPortToList (port : ℕ) (grown : Bool) : PortOwner × Bool :=
  if s.ports.length = s.portsCapacity then
    if grown = false then (s, false)
    else
      ({ s with
          portsCapacity := if s.portsCapacity = 0 then 4 else s.portsCapacity * 2
          ports := s.ports ++ [port] }, true)
  else ({ s with ports := s.ports ++ [port] }, true)

/-- What the add functions have in common: a port that passed their checks is made, and put on
the list. -/
def addPort (r : Option PortRequest) (al : AddAllocs) : PortOwner × Option ℕ :=
  match r with
  | none => (s, none)
  | some r =>
    match s.addPortCommon r al with
    | (t, none) => (t, none)
    | (t, some port) =>
      match t.addPortToList port al.grown with
      | (u, false) => (u, none)
      | (u, true) => (u, some port)

/-- The checks of `pwf_filter_add_audio_port`, and what it asks for. -/
def audioRequest (direction : PortDirection) (config : Option AudioConfig) : Option PortRequest :=
  match config with
  | none => none
  | some config =>
    if s.state ≠ .created then none
    else if config.sampleRate ≤ 0 ∨ config.channels ≤ 0 then none
    else
      match lookupAudioFormat (config.format.getD "S16") with
      | .unknown => none
      | fmt => some {
          direction := direction
          params := [.audioFormat config fmt, .metaHeader, .cpuBuffers]
          mapBuffers := true
          mediaType := .audio
          config := some (.audio config.sampleRate config.channels fmt)
          useDmabuf := false }

/-- `pwf_filter_add_signal_port`. -/
def signalRequest (direction : PortDirection) : Option PortRequest :=
  if s.state ≠ .created then none
  else some {
    direction := direction
    params := [.signalFormat, .cpuBuffers]
    mapBuffers := true
    mediaType := .signal
    config := none
    useDmabuf := false }

/-- `pwf_filter_add_event_port`. -/
def eventRequest (direction : PortDirection) : Option PortRequest :=
  if s.state ≠ .created then none
  else some {
    direction := direction
    params := [.eventFormat, .cpuBuffers]
    mapBuffers := true
    mediaType := .event
    config := none
    useDmabuf := false }

/-- The format of a video port: the parameter, and `config.video.format`. -/
def videoFormat (config : VideoConfig) (name : String) : Option (PortParam × SpaVideoFormat) :=
  if name = "MJPG" then some (.videoFormatMjpg config, .encoded)
  else if name = "H264" then some (.videoFormatH264 config, .encoded)
  else
    match lookupPixelFormat name with
    | .unknown => none
    | fmt => some (.videoFormat config fmt, fmt)

/-- The checks of `pwf_filter_add_video_port_ex`, and what it asks for. -/
def videoRequest (direction : PortDirection) (config : Option VideoConfig)
    (opts : Option PortMemory) : Option PortRequest :=
  match config with
  | none => none
  | some config =>
    match config.pixelFormat with
    | none => none
    | some name =>
      let wantDmabuf := opts = some .dmabuf
      let encoded := name = "MJPG" ∨ name = "H264"
      if s.state ≠ .created then none
      else if config.width ≤ 0 ∨ config.height ≤ 0 ∨ config.fps < 0 then none
      else if wantDmabuf ∧ direction ≠ .input then none
      else if encoded ∧ wantDmabuf then none
      else
        match videoFormat config name with
        | none => none
        | some (param, fmt) => some {
            direction := direction
            params := [param, .metaHeader] ++ if wantDmabuf then [] else [.cpuBuffers]
            mapBuffers := !decide wantDmabuf
            mediaType := .video
            config := some (.video config.width config.height fmt)
            useDmabuf := decide wantDmabuf }

/-- `pwf_filter_add_audio_port`. -/
def addAudioPort (direction : PortDirection) (config : Option AudioConfig) (al : AddAllocs) :
    PortOwner × Option ℕ := s.addPort (s.audioRequest direction config) al

/-- `pwf_filter_add_signal_port`. -/
def addSignalPort (direction : PortDirection) (al : AddAllocs) : PortOwner × Option ℕ :=
  s.addPort (s.signalRequest direction) al

/-- `pwf_filter_add_event_port`. -/
def addEventPort (direction : PortDirection) (al : AddAllocs) : PortOwner × Option ℕ :=
  s.addPort (s.eventRequest direction) al

/-- `pwf_filter_add_video_port_ex`. -/
def addVideoPortEx (direction : PortDirection) (config : Option VideoConfig)
    (opts : Option PortMemory) (al : AddAllocs) : PortOwner × Option ℕ :=
  s.addPort (s.videoRequest direction config opts) al

/-- `pwf_filter_add_video_port`. -/
def addVideoPort (direction : PortDirection) (config : Option VideoConfig) (al : AddAllocs) :
    PortOwner × Option ℕ := s.addVideoPortEx direction config none al

end PortOwner

/-- A call that adds a port. -/
inductive AddCall
  | audio (direction : PortDirection) (config : Option AudioConfig)
  | video (direction : PortDirection) (config : Option VideoConfig)
  | videoEx (direction : PortDirection) (config : Option VideoConfig) (opts : Option PortMemory)
  | signal (direction : PortDirection)
  | event (direction : PortDirection)
  deriving DecidableEq, Repr

/-- The filter after a call, and the port it returns; `none` for NULL. -/
def AddCall.run (s : PortOwner) (al : AddAllocs) : AddCall → PortOwner × Option ℕ
  | .audio direction config => s.addAudioPort direction config al
  | .video direction config => s.addVideoPort direction config al
  | .videoEx direction config opts => s.addVideoPortEx direction config opts al
  | .signal direction => s.addSignalPort direction al
  | .event direction => s.addEventPort direction al

/-- A filter to which ports are added, call after call. -/
def addMachine : Machine PortOwner (AddCall × AddAllocs) (Option ℕ) where
  Enabled _ _ := True
  next s a := (a.1.run s a.2).1
  out s a := [(a.1.run s a.2).2]

/-! ### Finding a port by its name -/

/-- One turn of `pwf_resolve_own_port_id`: the node's id, if it has one yet, the registry, and
what syncing it afterwards gives. -/
structure OwnPortAttempt where
  node : Option UInt32
  registry : Core.Registry
  synced : Int

/-- What a turn finds. -/
def OwnPortAttempt.find (a : OwnPortAttempt) (name : CString) : UInt32 :=
  match a.node with
  | none => 0
  | some node => a.registry.findPort node name .input

/-- The loop of `pwf_resolve_own_port_id`. -/
def findOwnPort (name : CString) : List OwnPortAttempt → UInt32
  | [] => 0
  | a :: as =>
    if a.find name ≠ 0 then a.find name else if a.synced < 0 then 0 else findOwnPort name as

/-- `pwf_resolve_own_port_id`; `own` is `own_global_id`. -/
def resolveOwnPortId (p : AddedPort) (own : UInt32) (attempts : List OwnPortAttempt) : UInt32 :=
  if own ≠ 0 then own else findOwnPort p.pwPortName attempts

/-- The registry has no port of the node but those on the `pw_filter`, under the names they were
made with; the port at `i` there is the global `ids i`. -/
def OwnPortAttempt.Published (a : OwnPortAttempt) (s : PortOwner) (ids : ℕ → UInt32) : Prop :=
  ∀ node, a.node = some node → ∀ e ∈ a.registry.ports, e.nodeId = node →
    ∃ i p, s.pwPorts[i]? = some p ∧ e.id = ids i ∧ e.name = p.name ∧ e.direction = p.pwDirection

/-- The port at `i` is there to be found in this turn. -/
def OwnPortAttempt.Shows (a : OwnPortAttempt) (p : AddedPort) (id : UInt32) : Prop :=
  ∃ node, a.node = some node ∧ ∃ e ∈ a.registry.ports, e.nodeId = node ∧ e.id = id ∧
    e.name = p.name ∧ e.direction = p.pwDirection

/-- An input port finds itself once it is published, and never another. -/
def PortOwner.FindsOwn (s : PortOwner) : Prop :=
  ∀ i p ids, s.pwPorts[i]? = some p → p.pwDirection = .input → (∀ j, ids j ≠ 0) →
    ∀ attempts : List OwnPortAttempt, (∀ a ∈ attempts, a.Published s ids) →
      (resolveOwnPortId p 0 attempts = 0 ∨ resolveOwnPortId p 0 attempts = ids i) ∧
      ∀ a, attempts.head? = some a → a.Shows p (ids i) → resolveOwnPortId p 0 attempts = ids i

/-! ### Calls that add one port, or none -/

/-- What a call should do to the list and to the ports on the `pw_filter`, and what these should
be after it. -/
structure AddOk (s : PortOwner) (a : AddCall × AddAllocs) : Prop where
  refused : (a.1.run s a.2).2 = none →
    (a.1.run s a.2).1.ports = s.ports ∧ (a.1.run s a.2).1.pwPorts = s.pwPorts
  added : ∀ port, (a.1.run s a.2).2 = some port →
    (a.1.run s a.2).1.ports = s.ports ++ [port] ∧
      ∃ p, (a.1.run s a.2).1.pwPorts = s.pwPorts ++ [p] ∧ port = s.pwPorts.length
  names : ((a.1.run s a.2).1.pwPorts.map AddedPort.name).Nodup
  own : (a.1.run s a.2).1.FindsOwn

/-- What a call asks for, if it passes its checks. -/
def AddCall.request (s : PortOwner) : AddCall → Option PortRequest
  | .audio direction config => s.audioRequest direction config
  | .video direction config => s.videoRequest direction config none
  | .videoEx direction config opts => s.videoRequest direction config opts
  | .signal direction => s.signalRequest direction
  | .event direction => s.eventRequest direction

/-- The call makes a port on the `pw_filter`. -/
def Makes (s : PortOwner) (a : AddCall × AddAllocs) : Prop :=
  (a.1.request s).isSome ∧ a.2.properties = true ∧ a.2.port = true

/-- A port that is made gets its place on the list, and fewer than 10^14 came before it, so that
its number has no more than fourteen digits. -/
def Placed (s : PortOwner) (a : AddCall × AddAllocs) : Prop :=
  Makes s a → (s.ports.length = s.portsCapacity → a.2.grown = true) ∧ s.ports.length < 10 ^ 14

instance (s : PortOwner) (a : AddCall × AddAllocs) : Decidable (Makes s a) :=
  inferInstanceAs (Decidable (_ ∧ _ ∧ _))

instance (s : PortOwner) (a : AddCall × AddAllocs) : Decidable (Placed s a) :=
  inferInstanceAs (Decidable (_ → _))

/-- The list has the ports on the `pw_filter` in their order, each named by its place. -/
structure PortOwner.Named (s : PortOwner) : Prop where
  list : s.ports = List.range s.pwPorts.length
  name : ∀ i p, s.pwPorts[i]? = some p → p.name = portName i ∧ p.pwPortName = portName i
  few : s.pwPorts.length ≤ 10 ^ 14

section AddPort

variable {s : PortOwner} {a : AddCall × AddAllocs}

theorem portName_chars {n : ℕ} (h : n < 10 ^ 14) : (portName n).chars =
    ['p', 'w', 'f', '_', 'p', 'o', 'r', 't', '_'] ++ Nat.toDigits 10 n := by
  have hlen : (Nat.toDigits 10 n).length ≤ 14 :=
    (Nat.length_toDigits_le_iff (by decide) (by decide)).mpr h
  have hdigits : (Nat.toDigits 10 n).filter (fun c => 0 < c.toNat && c.toNat < 256) =
      Nat.toDigits 10 n := by
    rw [List.filter_eq_self]
    intro c hc
    have hdigit := CString.isDigit_toNat (Nat.isDigit_of_mem_toDigits (by decide) (by decide) hc)
    simp only [Bool.and_eq_true, decide_eq_true_eq]
    omega
  have hall : (CString.ofChars (['p', 'w', 'f', '_', 'p', 'o', 'r', 't', '_'] ++
      Nat.toDigits 10 n)).chars =
        ['p', 'w', 'f', '_', 'p', 'o', 'r', 't', '_'] ++ Nat.toDigits 10 n := by
    unfold CString.ofChars
    dsimp only
    rw [List.filter_append, hdigits]
    rfl
  rw [portName, CString.truncate_chars, hall]
  apply List.take_of_length_le
  rw [List.length_append]
  simp only [List.length_cons, List.length_nil]
  omega

/-- Numbers of fourteen digits fit the name. -/
theorem portName_inj {n m : ℕ} (hn : n < 10 ^ 14) (hm : m < 10 ^ 14)
    (h : portName n = portName m) : n = m := by
  have hchars := congrArg CString.chars h
  rw [portName_chars hn, portName_chars hm] at hchars
  have hdigits : Nat.toDigits 10 n = Nat.toDigits 10 m := List.append_cancel_left hchars
  calc
    n = Nat.ofDigitChars 10 (Nat.toDigits 10 n) 0 := Nat.ofDigitChars_ten_toDigits.symm
    _ = Nat.ofDigitChars 10 (Nat.toDigits 10 m) 0 := by rw [hdigits]
    _ = m := Nat.ofDigitChars_ten_toDigits

/-- The name of the 10^14th port after the first loses its last digit. -/
theorem portName_cut : portName (10 ^ 14) = portName (10 ^ 13) := by
  decide

theorem run_eq : a.1.run s a.2 = s.addPort (a.1.request s) a.2 := by
  obtain ⟨call, al⟩ := a
  cases call with
  | audio direction config => rfl
  | video direction config => rfl
  | videoEx direction config opts => rfl
  | signal direction => rfl
  | event direction => rfl

/-- The port a call makes. -/
def madePort (s : PortOwner) (r : PortRequest) : AddedPort :=
  ⟨r.direction.toSpa, portName s.ports.length, portName s.ports.length, r⟩

/-- A call that makes no port changes nothing. -/
theorem run_refused (h : ¬ Makes s a) : a.1.run s a.2 = (s, none) := by
  rw [run_eq]
  cases hr : a.1.request s with
  | none => rfl
  | some r =>
    by_cases hp : a.2.properties = true
    · have hport : ¬ a.2.port = true := fun hport => h ⟨by simp [hr], hp, hport⟩
      simp [PortOwner.addPort, PortOwner.addPortCommon, hp, hport]
    · simp [PortOwner.addPort, PortOwner.addPortCommon, hp]

theorem addPort_made {r : PortRequest} (hr : a.1.request s = some r) (h : Makes s a) :
    a.1.run s a.2 =
      match ({ s with pwPorts := s.pwPorts ++ [madePort s r] } : PortOwner).addPortToList
        s.pwPorts.length a.2.grown with
      | (u, false) => (u, none)
      | (u, true) => (u, some s.pwPorts.length) := by
  obtain ⟨-, hp, hport⟩ := h
  rw [run_eq, hr]
  simp [PortOwner.addPort, PortOwner.addPortCommon, hp, hport, madePort]

/-- A call whose port cannot be put on the list returns NULL, and the `pw_filter` has the port. -/
theorem run_stranded {r : PortRequest} (hr : a.1.request s = some r) (h : Makes s a)
    (hfull : s.ports.length = s.portsCapacity) (hg : a.2.grown = false) :
    a.1.run s a.2 = ({ s with pwPorts := s.pwPorts ++ [madePort s r] }, none) := by
  rw [addPort_made hr h]
  simp [PortOwner.addPortToList, hfull, hg]

/-- A call whose port is put on the list adds it there and to the `pw_filter`. -/
theorem run_placed {r : PortRequest} (hr : a.1.request s = some r) (h : Makes s a)
    (hg : s.ports.length = s.portsCapacity → a.2.grown = true) :
    ∃ capacity, a.1.run s a.2 =
      (⟨s.state, s.ports ++ [s.pwPorts.length], capacity, s.pwPorts ++ [madePort s r]⟩,
        some s.pwPorts.length) := by
  rw [addPort_made hr h]
  by_cases hfull : s.ports.length = s.portsCapacity
  · have hgrown := hg hfull
    exact ⟨if s.portsCapacity = 0 then 4 else s.portsCapacity * 2,
      by simp [PortOwner.addPortToList, hfull, hgrown]⟩
  · exact ⟨s.portsCapacity, by simp [PortOwner.addPortToList, hfull]⟩

theorem PortOwner.Named.length (hn : s.Named) : s.ports.length = s.pwPorts.length := by
  rw [hn.list, List.length_range]

theorem named_created (state : FilterState) : (PortOwner.created state).Named where
  list := rfl
  name i p hp := by simp [PortOwner.created] at hp
  few := by simp [PortOwner.created]

/-- A port that is placed is named by its place. -/
theorem named_placed (hn : s.Named) {r : PortRequest} {capacity : ℕ}
    (hfew : s.ports.length < 10 ^ 14) :
    (⟨s.state, s.ports ++ [s.pwPorts.length], capacity, s.pwPorts ++ [madePort s r]⟩ :
      PortOwner).Named where
  list := by
    rw [hn.list]
    simp [List.range_succ]
  name i p hp := by
    have hlen := hn.length
    rcases Nat.lt_trichotomy i s.pwPorts.length with hlt | rfl | hgt
    · rw [List.getElem?_append_left hlt] at hp
      exact hn.name i p hp
    · rw [List.getElem?_concat_length] at hp
      obtain rfl := Option.some.inj hp
      rw [madePort, hlen]
      exact ⟨rfl, rfl⟩
    · rw [List.getElem?_eq_none (by simp; omega)] at hp
      cases hp
  few := by
    have hlen := hn.length
    simp
    omega

theorem named_next (hn : s.Named) (h : Placed s a) : (a.1.run s a.2).1.Named := by
  by_cases hm : Makes s a
  · obtain ⟨r, hr⟩ := Option.isSome_iff_exists.mp hm.1
    obtain ⟨hgrown, hfew⟩ := h hm
    obtain ⟨capacity, hrun⟩ := run_placed hr hm hgrown
    rw [hrun]
    exact named_placed hn hfew
  · rw [run_refused hm]
    exact hn

/-! ### What the names are for -/

theorem PortOwner.Named.nodup (hn : s.Named) : (s.pwPorts.map AddedPort.name).Nodup := by
  rw [List.nodup_iff_getElem?_ne_getElem?]
  intro i j hij hj heq
  rw [List.length_map] at hj
  have hi : i < s.pwPorts.length := by omega
  have hfew := hn.few
  have hni := hn.name i _ (List.getElem?_eq_getElem hi)
  have hnj := hn.name j _ (List.getElem?_eq_getElem hj)
  rw [List.getElem?_map, List.getElem?_map, List.getElem?_eq_getElem hi,
    List.getElem?_eq_getElem hj] at heq
  have hname : portName i = portName j := by
    rw [← hni.1, ← hnj.1]
    exact Option.some.inj heq
  have hsame := portName_inj (by omega) (by omega) hname
  omega

/-- A lookup by a port's name gives no other port of the node. -/
theorem find_own (hnames : (s.pwPorts.map AddedPort.name).Nodup) {i : ℕ} {p : AddedPort}
    {ids : ℕ → UInt32} (hp : s.pwPorts[i]? = some p) {t : OwnPortAttempt}
    (ht : t.Published s ids) : t.find p.name = 0 ∨ t.find p.name = ids i := by
  unfold OwnPortAttempt.find
  cases hnode : t.node with
  | none => exact Or.inl rfl
  | some node =>
    dsimp only
    unfold Core.Registry.findPort
    cases hf : t.registry.ports.find? fun e =>
        e.nodeId == node && e.direction == .input && e.name == p.name with
    | none => exact Or.inl rfl
    | some e =>
      obtain ⟨⟨henode, -⟩, hename⟩ :
          (e.nodeId = node ∧ e.direction = .input) ∧ e.name = p.name := by
        simpa using List.find?_some hf
      obtain ⟨j, q, hq, hid, hname, -⟩ := ht node hnode e (List.mem_of_find?_eq_some hf) henode
      have hlt : i < (s.pwPorts.map AddedPort.name).length := by
        rw [List.length_map]
        exact (List.getElem?_eq_some_iff.mp hp).1
      have hij : i = j := by
        apply (List.getElem?_inj hlt hnames).mp
        rw [List.getElem?_map, List.getElem?_map, hp, hq, Option.map_some, Option.map_some,
          ← hname, hename]
      exact Or.inr (by rw [Option.map_some, Option.getD_some, hid, hij])

/-- A port that is there is found. -/
theorem find_shown {p : AddedPort} {id : UInt32} {ids : ℕ → UInt32} (hids : ∀ j, ids j ≠ 0)
    (hdir : p.pwDirection = .input) {t : OwnPortAttempt} (ht : t.Shows p id)
    (hpub : t.Published s ids) : t.find p.name ≠ 0 := by
  obtain ⟨node, hnode, e, hmem, henode, rfl, hname, hedir⟩ := ht
  unfold OwnPortAttempt.find
  rw [hnode]
  dsimp only
  unfold Core.Registry.findPort
  cases hf : t.registry.ports.find? fun e =>
      e.nodeId == node && e.direction == .input && e.name == p.name with
  | none =>
    have hno := List.find?_eq_none.mp hf e hmem
    simp [henode, hname, hedir, hdir] at hno
  | some e' =>
    obtain ⟨⟨he'node, -⟩, -⟩ : (e'.nodeId = node ∧ e'.direction = .input) ∧ e'.name = p.name := by
      simpa using List.find?_some hf
    obtain ⟨j, -, -, hid, -⟩ := hpub node hnode e' (List.mem_of_find?_eq_some hf) he'node
    rw [Option.map_some, Option.getD_some, hid]
    exact hids j

theorem findOwnPort_eq {name : CString} {id : UInt32} {attempts : List OwnPortAttempt}
    (h : ∀ t ∈ attempts, t.find name = 0 ∨ t.find name = id) :
    findOwnPort name attempts = 0 ∨ findOwnPort name attempts = id := by
  induction attempts with
  | nil => exact Or.inl rfl
  | cons t ts ih =>
    have ht := h t (by simp)
    have hts := ih fun t' ht' => h t' (by simp [ht'])
    rw [findOwnPort]
    split
    · exact ht
    · split
      · exact Or.inl rfl
      · exact hts

theorem PortOwner.Named.findsOwn (hn : s.Named) : s.FindsOwn := by
  intro i p ids hp hdir hids attempts hpub
  obtain ⟨hname, hown⟩ := hn.name i p hp
  have hfind : ∀ t ∈ attempts, t.find p.name = 0 ∨ t.find p.name = ids i :=
    fun t ht => find_own hn.nodup hp (hpub t ht)
  have hresolve : resolveOwnPortId p 0 attempts = findOwnPort p.name attempts := by
    rw [resolveOwnPortId, if_neg (by simp), hown, hname]
  rw [hresolve]
  refine ⟨findOwnPort_eq hfind, ?_⟩
  intro t ht hshows
  cases attempts with
  | nil => cases ht
  | cons t' ts =>
    obtain rfl : t' = t := Option.some.inj ht
    have hne := find_shown hids hdir hshows (hpub t' (by simp))
    rw [findOwnPort, if_pos hne]
    exact (hfind t' (by simp)).resolve_left hne

/-- A call that returns NULL and leaves no port could put the one it made on the list. -/
theorem grown_of_addOk {r : PortRequest} (hr : a.1.request s = some r) (hm : Makes s a)
    (h : AddOk s a) (hfull : s.ports.length = s.portsCapacity) : a.2.grown = true := by
  by_contra hno
  have hrun := run_stranded hr hm hfull (by simpa using hno)
  obtain ⟨-, hsame⟩ := h.refused (by rw [hrun])
  rw [hrun] at hsame
  simp at hsame

/-- The port after 10^14 others would have the name of one of them. -/
theorem few_of_nodup (hn : s.Named) {r : PortRequest}
    (hnames : ((s.pwPorts ++ [madePort s r]).map AddedPort.name).Nodup) :
    s.ports.length < 10 ^ 14 := by
  by_contra hmany
  have hlen := hn.length
  have hfew := hn.few
  have hat : s.ports.length = 10 ^ 14 := by omega
  have hlt : 10 ^ 13 < s.pwPorts.length := by omega
  -- the number is cut to the digits of a port that is there
  have hmem : (madePort s r).name ∈ s.pwPorts.map AddedPort.name := by
    have hearlier := hn.name (10 ^ 13) _ (List.getElem?_eq_getElem hlt)
    have hname : (madePort s r).name = portName (10 ^ 13) := by
      rw [← portName_cut, ← hat]
      rfl
    rw [hname, ← hearlier.1]
    exact List.mem_map_of_mem (List.getElem_mem hlt)
  rw [List.map_append, List.map_singleton] at hnames
  exact (List.nodup_append.mp hnames).2.2 _ hmem _ (by simp) rfl

/-- A call that places the port it makes, if any, does what it should. -/
theorem addOk_of_placed (hn : s.Named) (h : Placed s a) : AddOk s a := by
  have hnext := named_next hn h
  refine ⟨?_, ?_, hnext.nodup, hnext.findsOwn⟩
  · intro hnull
    by_cases hm : Makes s a
    · obtain ⟨r, hr⟩ := Option.isSome_iff_exists.mp hm.1
      obtain ⟨capacity, hrun⟩ := run_placed hr hm (h hm).1
      rw [hrun] at hnull
      cases hnull
    · rw [run_refused hm]
      exact ⟨rfl, rfl⟩
  · intro port hport
    by_cases hm : Makes s a
    · obtain ⟨r, hr⟩ := Option.isSome_iff_exists.mp hm.1
      obtain ⟨capacity, hrun⟩ := run_placed hr hm (h hm).1
      rw [hrun] at hport ⊢
      obtain rfl := Option.some.inj hport
      exact ⟨rfl, _, rfl, rfl⟩
    · rw [run_refused hm] at hport
      cases hport

/-- From a filter whose ports are named by their places, a call does what it should exactly if a
port that it makes is placed. -/
theorem addOk_iff (hn : s.Named) : AddOk s a ↔ Placed s a := by
  constructor
  · intro h hm
    obtain ⟨r, hr⟩ := Option.isSome_iff_exists.mp hm.1
    have hgrown := grown_of_addOk hr hm h
    obtain ⟨capacity, hrun⟩ := run_placed hr hm hgrown
    have hnames := h.names
    rw [hrun] at hnames
    exact ⟨hgrown, few_of_nodup hn hnames⟩
  · exact addOk_of_placed hn

end AddPort

/-- In every sequence of add calls, with allocations failing anywhere: each call adds one port to
the list and to the `pw_filter`, or none to either, the ports there keep distinct names and each
input port finds itself, exactly if every port that is made is placed. -/
theorem add_ports_ok_iff (state : FilterState) (xs : List (AddCall × AddAllocs)) :
    (∀ ys a zs, xs = ys ++ a :: zs → AddOk (addMachine.exec (.created state) ys) a) ↔
      (addMachine.restrict Placed).Valid (.created state) xs := by
  have hvalid : addMachine.Valid (.created state) xs :=
    Machine.valid_of_enabled fun _ _ => trivial
  have hwrong := Machine.never_iff_restrict (M := addMachine) (C := Placed)
    (W := fun ys a => ¬ AddOk (addMachine.exec (.created state) ys) a) ?_ hvalid
  · rw [← hwrong]
    exact ⟨fun h ys a zs hxs => not_not.mpr (h ys a zs hxs),
      fun h ys a zs hxs => not_not.mp (h ys a zs hxs)⟩
  · intro ys a hys _
    have hn : (addMachine.exec (.created state) ys).Named :=
      Machine.invariant (M := addMachine.restrict Placed) (named_created state)
        (fun s a ha hs => named_next hs ha.2) hys
    exact not_congr (addOk_iff hn)

/-- The first of two calls cannot grow the list: the filter has no port and its `pw_filter` has
one, and the second call makes another of the same name. -/
theorem stranded_port_name :
    let al : AddAllocs := ⟨true, true, false⟩
    let xs : List (AddCall × AddAllocs) :=
      [(.signal .input, al), (.signal .input, ⟨true, true, true⟩)]
    let s := addMachine.exec (.created .created) xs
    addMachine.outs (.created .created) xs = [none, some 1] ∧ s.ports = [1] ∧
      s.pwPorts.map AddedPort.name = [portName 0, portName 0] ∧
      ¬ ∀ ys a zs, xs = ys ++ a :: zs → AddOk (addMachine.exec (.created .created) ys) a := by
  intro al xs s
  refine ⟨by decide, by decide, by decide, ?_⟩
  intro h
  have hfirst := h [] (.signal .input, al) [(.signal .input, ⟨true, true, true⟩)] rfl
  obtain ⟨-, hsame⟩ := hfirst.refused (by decide)
  exact absurd hsame (by decide)

end TinyPipewire.Filter
