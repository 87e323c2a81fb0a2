import TinyPipewire.Core.Registry
import TinyPipewire.Core.RegistryBind
import TinyPipewire.Types

/-!
# Targets, listed and resolved

`pwf_stream_get_target_list` prints a node's name into 256 bytes and its serial as digits. A
target that is all digits is looked up as a serial, 0 being none, and any other as a name.
-/

namespace TinyPipewire.Stream

open TinyPipewire.Core

/-! ### The calls -/

/-- `pwf_stream_resolve_target`; 0 if there is no such node. -/
def resolveTarget (reg : Core.Registry) (target : CString) : UInt32 :=
  if target.isAllDigits then reg.findNodeBySerial target.strtoull else reg.findNodeByName target

/-- The node `pwf_stream_link` looks up, when it comes to that. -/
def linkTarget (reg : Core.Registry) (target : CString) : Except PwfError UInt32 :=
  if target = .empty then .error .invalidArg
  else if resolveTarget reg target = 0 then .error .notFound
  else .ok (resolveTarget reg target)

/-- The node `pwf_stream_get_target_video_formats` reads formats from. -/
def formatsTarget (reg : Core.Registry) (target : CString) : Except PwfError UInt32 :=
  if resolveTarget reg target = 0 then .error .notFound else .ok (resolveTarget reg target)

/-- `struct pwf_target_info`. -/
structure TargetInfo where
  name : CString
  serial : CString
  description : CString
  deriving DecidableEq

/-- What is printed of a node. -/
def targetInfo (e : NodeEntry) : TargetInfo where
  name := e.name.truncate 256
  serial := (CString.decimal e.serial).truncate 32
  description := (e.description.getD .empty).truncate 256

/-- `pwf_stream_target_media_class`. -/
def targetMediaClass (playback : Bool) (type : DataType) : CString :=
  if playback then ⟨['A', 'u', 'd', 'i', 'o', '/', 'S', 'i', 'n', 'k'], by simp⟩
  else if type = .video then
    ⟨['V', 'i', 'd', 'e', 'o', '/', 'S', 'o', 'u', 'r', 'c', 'e'], by simp⟩
  else ⟨['A', 'u', 'd', 'i', 'o', '/', 'S', 'o', 'u', 'r', 'c', 'e'], by simp⟩

/-- One turn of the loop of `pwf_stream_get_target_list`: what is written, and the count. -/
def listTarget (mediaClass : CString) (outLen : ℕ) (acc : List TargetInfo × ℕ) (e : NodeEntry) :
    List TargetInfo × ℕ :=
  if e.mediaClass = some mediaClass then
    (if acc.2 < outLen then acc.1 ++ [targetInfo e] else acc.1, acc.2 + 1)
  else acc

/-- `pwf_pw_error_from_sync`. -/
def pwErrorFromSync (res : Int) : PwfError := if res = -ETIMEDOUT then .timeout else .connectFailed

/-- What a call is made with, and what binding the registry answers it. -/
structure TargetListCall where
  found : Bool
  stream : Bool
  inCallback : Bool
  bound : Int

/-- `pwf_stream_get_target_list`: its result, what it writes to `out`, and to `found`. A NULL
`out` is one of length 0. -/
def getTargetList (call : TargetListCall) (playback : Bool) (type : DataType) (reg : Core.Registry)
    (outLen : ℕ) : PwfError × List TargetInfo × Option ℕ :=
  if call.found = false then (.invalidArg, [], none)
  else if call.stream = false then (.invalidArg, [], some 0)
  else if call.inCallback then (.inCallback, [], some 0)
  else if call.bound < 0 then (pwErrorFromSync call.bound, [], some 0)
  else
    let (out, n) := reg.nodes.foldl (listTarget (targetMediaClass playback type) outLen) ([], 0)
    (.ok, out, some n)

/-- The nodes a stream lists, in the order they are listed. -/
def targetsOf (reg : Core.Registry) (playback : Bool) (type : DataType) : List NodeEntry :=
  reg.nodes.filter fun e => e.mediaClass == some (targetMediaClass playback type)

/-! ### What is written -/

variable {reg : Core.Registry} {playback : Bool} {type : DataType} {e n : NodeEntry}
  {t : TargetInfo} {target : CString} {outLen i : ℕ} {call : TargetListCall}

theorem foldl_listTarget (mediaClass : CString) (outLen : ℕ) (es : List NodeEntry) :
    es.foldl (listTarget mediaClass outLen) ([], 0) =
      let targets := es.filter fun e => e.mediaClass == some mediaClass
      ((targets.take outLen).map targetInfo, targets.length) := by
  induction es using List.reverseRecOn with
  | nil => simp
  | append_singleton es e ih =>
    rw [List.foldl_append, ih, List.filter_append]
    by_cases hm : e.mediaClass = some mediaClass
    · by_cases hlt : (es.filter fun e => e.mediaClass == some mediaClass).length < outLen
      · have hone : ([e] : List NodeEntry).take
            (outLen - (es.filter fun e => e.mediaClass == some mediaClass).length) = [e] :=
          List.take_of_length_le (by simp; omega)
        simp [listTarget, hm, hlt, List.take_append, hone]
      · have hzero : outLen - (es.filter fun e => e.mediaClass == some mediaClass).length = 0 := by
          omega
        simp [listTarget, hm, hlt, List.take_append, hzero]
    · simp [listTarget, hm]

/-- Each entry written is of the node in its place. -/
theorem getTargetList_entry
    (h : (getTargetList call playback type reg outLen).2.1[i]? = some t) :
    ∃ e, (targetsOf reg playback type)[i]? = some e ∧ t = targetInfo e := by
  unfold getTargetList at h
  split at h
  · cases h
  · split at h
    · cases h
    · split at h
      · cases h
      · split at h
        · cases h
        · rw [foldl_listTarget] at h
          dsimp only at h
          rw [List.getElem?_map] at h
          obtain ⟨e, he, rfl⟩ := Option.map_eq_some_iff.mp h
          have htake := List.getElem?_take (l := reg.nodes.filter fun e =>
            e.mediaClass == some (targetMediaClass playback type)) (i := outLen) (j := i)
          rw [he] at htake
          split at htake
          · exact ⟨e, htake.symm, rfl⟩
          · cases htake

/-! ### What is read back -/

/-- Both calls that take a target get the node. -/
def ResolvesTo (reg : Core.Registry) (target : CString) (n : NodeEntry) : Prop :=
  linkTarget reg target = .ok n.id ∧ formatsTarget reg target = .ok n.id

instance (reg : Core.Registry) (target : CString) (n : NodeEntry) :
    Decidable (ResolvesTo reg target n) :=
  inferInstanceAs (Decidable (_ ∧ _))

/-- The node has the serial, and none before it in the cache does. -/
def FirstWith (reg : Core.Registry) (serial : UInt64) (n : NodeEntry) : Prop :=
  ∃ pre post, reg.nodes = pre ++ n :: post ∧ n.serial = serial ∧ ∀ m ∈ pre, m.serial ≠ serial

/-- The name as printed is not empty, and either no number but a node's name, as it is unless it
was cut off, or a number that is the serial of a node so named, and of none before it. -/
def NameResolves (reg : Core.Registry) (e : NodeEntry) : Prop :=
  let name := e.name.truncate 256
  name ≠ .empty ∧
    if name.isAllDigits then name.strtoull ≠ 0 ∧ ∃ n, FirstWith reg name.strtoull n ∧ n.name = name
    else e.name.chars.length < 256 ∨ ∃ n ∈ reg.nodes, n.name = name

/-- The node has a serial, and none before it in the cache has the same. -/
def SerialResolves (reg : Core.Registry) (e : NodeEntry) : Prop :=
  e.serial ≠ 0 ∧ FirstWith reg e.serial e

section Resolve

variable {live : LiveGlobals} {name : CString} {serial : UInt64}

theorem resolvesTo_iff (hn : n.id ≠ 0) :
    ResolvesTo reg target n ↔ target ≠ .empty ∧ resolveTarget reg target = n.id := by
  unfold ResolvesTo linkTarget formatsTarget
  constructor
  · rintro ⟨hlink, hformats⟩
    split at hlink
    · cases hlink
    · rename_i hne
      split at hformats
      · cases hformats
      · exact ⟨hne, Except.ok.inj hformats⟩
  · rintro ⟨hne, hid⟩
    rw [if_neg hne, hid, if_neg hn]
    exact ⟨rfl, rfl⟩

theorem firstWith_iff :
    FirstWith reg serial n ↔ reg.nodes.find? (fun e => e.serial == serial) = some n := by
  rw [List.find?_eq_some_iff_append]
  constructor
  · rintro ⟨pre, post, hnodes, hserial, hpre⟩
    exact ⟨by simpa using hserial, pre, post, hnodes, by simpa using hpre⟩
  · rintro ⟨hserial, pre, post, hnodes, hpre⟩
    exact ⟨pre, post, hnodes, by simpa using hserial, by simpa using hpre⟩

/-- A lookup by serial gets the first node that has it. -/
theorem findNodeBySerial_iff (hk : reg.Keyed live) (hn : n ∈ reg.nodes) :
    reg.findNodeBySerial serial = n.id ↔ serial ≠ 0 ∧ FirstWith reg serial n := by
  have hcore := hk.core n hn
  unfold Core.Registry.findNodeBySerial
  rw [firstWith_iff]
  constructor
  · intro hid
    split at hid
    · exact absurd hid.symm hcore
    · rename_i hserial
      cases hf : reg.nodes.find? fun e => e.serial == serial with
      | none =>
        rw [hf] at hid
        exact absurd hid.symm hcore
      | some f =>
        rw [hf] at hid
        have hmem : f ∈ reg.nodes := List.mem_of_find?_eq_some hf
        have hfn : f = n := List.inj_on_of_nodup_map hk.nodup hmem hn hid
        exact ⟨hserial, congrArg some hfn⟩
  · rintro ⟨hserial, hf⟩
    rw [if_neg hserial, hf]
    rfl

/-- A lookup by name gets a node of the name, if there is one. -/
theorem findNodeByName_iff :
    (∃ n ∈ reg.nodes, n.name = name ∧ reg.findNodeByName name = n.id) ↔
      ∃ n ∈ reg.nodes, n.name = name := by
  constructor
  · rintro ⟨n, hn, hname, -⟩
    exact ⟨n, hn, hname⟩
  · rintro ⟨n, hn, hname⟩
    cases hf : reg.nodes.find? fun e => e.name == name with
    | none =>
      have habsent := List.find?_eq_none.mp hf n hn
      simp [hname] at habsent
    | some f =>
      have hfname : f.name = name := by simpa using List.find?_some hf
      refine ⟨f, List.mem_of_find?_eq_some hf, hfname, ?_⟩
      simp [Core.Registry.findNodeByName, hf]

theorem nameResolves_iff (hk : reg.Keyed live) (he : e ∈ reg.nodes) :
    (∃ n ∈ reg.nodes, n.name = e.name.truncate 256 ∧ ResolvesTo reg (e.name.truncate 256) n) ↔
      NameResolves reg e := by
  have hresolve : (∃ n ∈ reg.nodes, n.name = e.name.truncate 256 ∧
      ResolvesTo reg (e.name.truncate 256) n) ↔ e.name.truncate 256 ≠ .empty ∧
        ∃ n ∈ reg.nodes, n.name = e.name.truncate 256 ∧
          resolveTarget reg (e.name.truncate 256) = n.id := by
    constructor
    · rintro ⟨n, hn, hname, hr⟩
      obtain ⟨hne, hid⟩ := (resolvesTo_iff (hk.core n hn)).mp hr
      exact ⟨hne, n, hn, hname, hid⟩
    · rintro ⟨hne, n, hn, hname, hid⟩
      exact ⟨n, hn, hname, (resolvesTo_iff (hk.core n hn)).mpr ⟨hne, hid⟩⟩
  rw [hresolve]
  unfold NameResolves resolveTarget
  refine and_congr_right fun _ => ?_
  split
  · constructor
    · rintro ⟨n, hn, hname, hid⟩
      obtain ⟨hserial, hfirst⟩ := (findNodeBySerial_iff hk hn).mp hid
      exact ⟨hserial, n, hfirst, hname⟩
    · rintro ⟨hserial, n, hfirst, hname⟩
      have hn : n ∈ reg.nodes := List.mem_of_find?_eq_some (firstWith_iff.mp hfirst)
      exact ⟨n, hn, hname, (findNodeBySerial_iff hk hn).mpr ⟨hserial, hfirst⟩⟩
  · rw [findNodeByName_iff]
    constructor
    · exact Or.inr
    · rintro (hlen | hn)
      · exact ⟨e, he, (CString.truncate_eq hlen).symm⟩
      · exact hn

theorem serialResolves_iff (hk : reg.Keyed live) (he : e ∈ reg.nodes) :
    ResolvesTo reg ((CString.decimal e.serial).truncate 32) e ↔ SerialResolves reg e := by
  have hlen := CString.decimal_length e.serial
  have hdigits := CString.isAllDigits_decimal e.serial
  have hne : CString.decimal e.serial ≠ .empty := by
    intro hempty
    rw [hempty] at hdigits
    simp [CString.isAllDigits, CString.empty] at hdigits
  rw [CString.truncate_eq (by omega), resolvesTo_iff (hk.core e he), resolveTarget,
    if_pos hdigits, CString.strtoull_decimal, findNodeBySerial_iff hk he]
  exact and_iff_right hne

end Resolve

/-- After every sequence of registry events, an entry's name resolves to a node of that name
exactly where it can, and its serial to the very node it was made of exactly if that node has one
and is the first in the cache to have it. -/
theorem targets_resolve_iff {xs : List RegistryEvent}
    (h : (graphMachine.restrict NotCore).Valid (fun _ => none) xs) :
    let reg := registryAfter xs
    ∀ call playback type outLen (i : ℕ) (t : TargetInfo),
      (getTargetList call playback type reg outLen).2.1[i]? = some t →
        ∃ e, (targetsOf reg playback type)[i]? = some e ∧
          ((∃ n ∈ reg.nodes, n.name = t.name ∧ ResolvesTo reg t.name n) ↔ NameResolves reg e) ∧
          (ResolvesTo reg t.serial e ↔ SerialResolves reg e) := by
  intro reg call playback type outLen i t ht
  have hk := keyed_run h
  obtain ⟨e, he, rfl⟩ := getTargetList_entry ht
  have hmem : e ∈ reg.nodes := by
    have hfilter := List.mem_of_getElem? he
    exact (List.mem_filter.mp hfilter).1
  exact ⟨e, he, nameResolves_iff hk hmem, serialResolves_iff hk hmem⟩

/-- An audio source with this name and, maybe, a serial. -/
def audioSource (name : CString) (serial : Option CString) : Global :=
  ⟨.node, some ([(.nodeName, name), (.mediaClass, targetMediaClass false .audio)] ++
    (serial.map fun s => (.objectSerial, s)).toList)⟩

/-- A call that gets through to the registry. -/
def plainCall : TargetListCall := ⟨true, true, false, 0⟩

/-- `"mic"`. -/
def micName : CString := ⟨['m', 'i', 'c'], by simp⟩

/-- `"7"`. -/
def sevenName : CString := ⟨['7'], by simp⟩

theorem targets_resolve_mic :
    let reg := registryAfter [.global 30 (audioSource micName (some sevenName)) .all]
    ∃ e ∈ reg.nodes, ResolvesTo reg sevenName e ∧
      ∃ n ∈ reg.nodes, n.name = micName ∧ ResolvesTo reg micName n := by
  intro reg
  have h : (graphMachine.restrict NotCore).Valid (fun _ => none)
      [.global 30 (audioSource micName (some sevenName)) .all] :=
    ⟨⟨rfl, by decide⟩, trivial⟩
  obtain ⟨e, he, hname, hserial⟩ := targets_resolve_iff h plainCall false .audio 1 0
    ⟨micName, sevenName, .empty⟩ (by decide)
  obtain rfl : e = ⟨30, micName, 7, some (targetMediaClass false .audio), none⟩ :=
    (Option.some.inj ((by decide : (targetsOf reg false .audio)[0]? =
      some ⟨30, micName, 7, some (targetMediaClass false .audio), none⟩).symm.trans he)).symm
  have hfirst : SerialResolves reg ⟨30, micName, 7, some (targetMediaClass false .audio), none⟩ :=
    ⟨by decide, [], [], rfl, rfl, by simp⟩
  have hnamed : NameResolves reg ⟨30, micName, 7, some (targetMediaClass false .audio), none⟩ := by
    refine ⟨by decide, ?_⟩
    rw [if_neg (by decide)]
    exact Or.inl (by decide)
  exact ⟨_, by decide, hserial.mpr hfirst, hname.mpr hnamed⟩

/-- A node whose name is a number, and that has no serial, is listed with two targets, neither of
which names a node. -/
theorem digit_name_unresolved :
    let reg := registryAfter [.global 30 (audioSource sevenName none) .all]
    let t : TargetInfo := ⟨sevenName, CString.decimal 0, .empty⟩
    (graphMachine.restrict NotCore).Valid (fun _ => none)
        [.global 30 (audioSource sevenName none) .all] ∧
      getTargetList plainCall false .audio reg 1 = (.ok, [t], some 1) ∧
      (targetsOf reg false .audio).map NodeEntry.id = [30] ∧
      linkTarget reg t.name = .error .notFound ∧ formatsTarget reg t.name = .error .notFound ∧
      linkTarget reg t.serial = .error .notFound ∧ formatsTarget reg t.serial = .error .notFound ∧
      ¬ (∃ n ∈ reg.nodes, n.name = t.name ∧ ResolvesTo reg t.name n) ∧
      ∀ e ∈ reg.nodes, ¬ ResolvesTo reg t.serial e := by
  refine ⟨⟨⟨rfl, by decide⟩, trivial⟩, ?_⟩
  decide

end TinyPipewire.Stream
