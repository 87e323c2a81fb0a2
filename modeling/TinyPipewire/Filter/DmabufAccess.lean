import TinyPipewire.Filter.HeldPool
import TinyPipewire.Filter.Dmabuf

/-!
# What the plane accessor of a filter port reads

A port's turn of the first loop sets `current_dmabuf_buf`, and the next such turn or a stop
resets it. The buffer behind it goes back at the end of the cycle, unless hold keeps it.
-/

namespace TinyPipewire.Filter

variable {n : ℕ}

/-- A buffer that was dequeued more often than it was given back. -/
def Outstanding (taken given : List PwBuffer) (b : PwBuffer) : Prop :=
  given.count b < taken.count b

instance (taken given : List PwBuffer) (b : PwBuffer) : Decidable (Outstanding taken given b) :=
  inferInstanceAs (Decidable (_ < _))

theorem outstanding_of_perm {taken given kept : List PwBuffer} {b : PwBuffer}
    (h : taken.Perm (given ++ kept)) (hb : b ∈ kept) : Outstanding taken given b := by
  have hcount := h.count_eq b
  have hpos : 0 < kept.count b := List.count_pos_iff.mpr hb
  rw [List.count_append] at hcount
  unfold Outstanding
  omega

/-! ### The port's turn -/

/-- A port that negotiates DMABUF is a video input. -/
structure PortConfig.DmabufInput (cfg : PortConfig) : Prop where
  video : cfg.mediaType = .video
  input : cfg.direction = .input
  dmabuf : cfg.useDmabuf = true

/-- The turn has no push to take, and finds a frame in the graph. -/
def PresentsFrame (p : PortData) (staged : Bool) (dq : Option PwBuffer) : Prop :=
  ¬ (staged = true ∧ p.pushedPending = true) ∧
    (dq.any fun b => dmabufBufferPresent b.buffer) = true

instance (p : PortData) (staged : Bool) (dq : Option PwBuffer) :
    Decidable (PresentsFrame p staged dq) :=
  inferInstanceAs (Decidable (_ ∧ _))

/-- The accessor of the port, and the frame it would show again, have no buffer. -/
structure PortHold.FrameFree (h : PortHold) : Prop where
  current : h.currentDmabufBuf = none
  held : h.heldDmabufBuf = none

/-- The frame hold would show again is the one it retains. -/
def PortHold.KeepsFrame (h : PortHold) : Prop :=
  ∀ d, h.heldDmabufBuf = some d → ∃ b, h.held = some b ∧ b.buffer = d

section Turn

variable {codec : EventCodec} {cfg : PortConfig} {p : PortData} {staged : Bool}
  {dq : Option PwBuffer} {grow : ℕ → Bool}

theorem planes_ne_nil {b : SpaBuffer} (h : dmabufBufferPresent b = true) : b.planes ≠ [] := by
  unfold dmabufBufferPresent at h
  cases hd : b.datas with
  | nil => simp [hd] at h
  | cons d ds =>
    have htype : d.type = .dmaBuf := by simpa [hd] using h
    simp [SpaBuffer.planes, hd, htype]

/-- What the accessor returns comes from the buffer set as the current one. -/
theorem portGetDmabufPlanes_current {planesLen : ℕ}
    (h : (portGetDmabufPlanes cfg p planesLen).2 ≠ 0) :
    ∃ d, p.currentDmabufBuf = some d ∧
      portGetDmabufPlanes cfg p planesLen = (d.planes.take planesLen, d.planes.length) := by
  rw [portGetDmabufPlanes_eq] at h ⊢
  unfold shownPlanes at h ⊢
  cases hu : cfg.useDmabuf with
  | false => simp [hu] at h
  | true =>
    cases hb : p.currentDmabufBuf with
    | none => simp [hu, hb] at h
    | some d => exact ⟨d, rfl, by simp⟩

theorem portGetDmabufPlanes_free (h : p.currentDmabufBuf = none) (planesLen : ℕ) :
    portGetDmabufPlanes cfg p planesLen = ([], 0) := by
  simp [portGetDmabufPlanes, h]

theorem preparePort_dmabuf (hc : cfg.DmabufInput) :
    preparePort codec cfg p staged dq grow = prepareInput cfg (clearDmabuf p) staged dq := by
  simp [preparePort, hc.video, hc.input]

variable (cfg p) in
theorem presentGraph_current (b : PwBuffer) :
    (presentGraph cfg (clearDmabuf p) b).1.currentDmabufBuf =
      if cfg.useDmabuf then some b.buffer else none := by
  unfold presentGraph
  split <;> rfl

variable (cfg p) in
theorem presentGraph_heldDmabuf (b : PwBuffer) :
    (presentGraph cfg (clearDmabuf p) b).1.heldDmabufBuf = p.heldDmabufBuf := by
  unfold presentGraph
  split <;> rfl

/-- After a turn the accessor reads a buffer the cycle dequeued or hold retains. -/
structure Prepared.Reads (r : Prepared) : Prop where
  keeps : r.port.hold.KeepsFrame
  current : ∀ d, r.port.currentDmabufBuf = some d →
    ∃ b ∈ r.dequeued.toList ++ r.port.held.toList, b.buffer = d

/-- The graph's frame is set before hold takes its buffer over. -/
theorem graph_reads (hk : p.hold.KeepsFrame) (b : PwBuffer) :
    (deliverNew cfg (presentGraph cfg (clearDmabuf p) b).1
      (presentGraph cfg (clearDmabuf p) b).2 (some b) (some b) .graph).Reads := by
  have hcurrent := presentGraph_current cfg p b
  have hheld := presentGraph_heldDmabuf cfg p b
  have hsame : (presentGraph cfg (clearDmabuf p) b).1.held = p.held := held_presentGraph
  have hframe : ∀ d, (presentGraph cfg (clearDmabuf p) b).1.currentDmabufBuf = some d →
      b.buffer = d := by
    intro d hd
    rw [hcurrent] at hd
    split at hd
    · exact Option.some.inj hd
    · cases hd
  cases hh : cfg.holdEnabled with
  | true =>
    simp only [deliverNew, hh, if_true]
    refine ⟨fun d hd => ⟨b, rfl, hframe d hd⟩, fun d hd => ⟨b, by simp, hframe d hd⟩⟩
  | false =>
    simp only [deliverNew, hh, Bool.false_eq_true, if_false]
    refine ⟨fun d hd => ?_, fun d hd => ⟨b, by simp, hframe d hd⟩⟩
    obtain ⟨c, hc, hd⟩ := hk d (hheld.symm.trans hd)
    exact ⟨c, hsame.trans hc, hd⟩

theorem nothing_reads (hk : p.hold.KeepsFrame) {took : Option PwBuffer} :
    (deliverNothing cfg (clearDmabuf p) dq took).Reads := by
  unfold deliverNothing
  split
  · refine ⟨hk, fun d hd => ?_⟩
    obtain ⟨b, hb, hd⟩ := hk d hd
    have hb : p.held = some b := hb
    exact ⟨b, by simp [clearDmabuf, hb], hd⟩
  · exact ⟨hk, fun d hd => by simp [clearDmabuf] at hd⟩

theorem pushed_reads (hk : p.hold.KeepsFrame) :
    (deliverNew cfg (takePushed (clearDmabuf p)) (presentPushed (clearDmabuf p)) none none
      .pushed).Reads := by
  cases hh : cfg.holdEnabled with
  | true =>
    simp only [deliverNew, hh, if_true]
    exact ⟨fun d hd => by simp [PortData.hold, takePushed, clearDmabuf] at hd,
      fun d hd => by simp [takePushed, clearDmabuf] at hd⟩
  | false =>
    simp only [deliverNew, hh, Bool.false_eq_true, if_false]
    exact ⟨hk, fun d hd => by simp [takePushed, clearDmabuf] at hd⟩

theorem preparePort_reads (hc : cfg.DmabufInput) (hk : p.hold.KeepsFrame) :
    (preparePort codec cfg p staged dq grow).Reads := by
  rw [preparePort_dmabuf hc]
  rcases prepareInput_cases cfg (clearDmabuf p) staged dq with
    ⟨-, -, hr⟩ | ⟨-, b, -, -, hr⟩ | ⟨-, -, hr⟩ <;> rw [hr]
  · exact pushed_reads hk
  · exact graph_reads hk b
  · exact nothing_reads hk

theorem inputBufferPresent_dmabuf (hu : cfg.useDmabuf = true) (b : PwBuffer) :
    inputBufferPresent cfg b = dmabufBufferPresent b.buffer := by
  unfold inputBufferPresent dmabufBufferPresent
  cases b.buffer.datas <;> simp [hu]

variable (codec grow) in
theorem preparePort_presents (hc : cfg.DmabufInput) (h : PresentsFrame p staged dq) :
    ∃ b : PwBuffer, dmabufBufferPresent b.buffer = true ∧
      (preparePort codec cfg p staged dq grow).port.currentDmabufBuf = some b.buffer := by
  obtain ⟨hpush, hframe⟩ := h
  cases dq with
  | none => simp at hframe
  | some b =>
    have hb : dmabufBufferPresent b.buffer = true := hframe
    refine ⟨b, hb, ?_⟩
    rw [preparePort_dmabuf hc]
    rcases prepareInput_cases cfg (clearDmabuf p) staged (some b) with
      ⟨hs, hp, -⟩ | ⟨-, c, hbc, -, hr⟩ | ⟨-, hnone, -⟩
    · exact absurd ⟨hs, hp⟩ hpush
    · obtain rfl : b = c := Option.some.inj hbc
      have hcurrent := presentGraph_current cfg p b
      rw [hr, deliverNew]
      split <;> simp [hcurrent, hc.dmabuf]
    · have habsent := hnone b rfl
      rw [inputBufferPresent_dmabuf hc.dmabuf, hb] at habsent
      cases habsent

theorem deliverNew_free {q : PortData} {e : PortBuffer} {d t : Option PwBuffer} {o : Origin}
    (hf : q.hold.FrameFree) : (deliverNew cfg q e d t o).port.hold.FrameFree := by
  unfold deliverNew
  dsimp only
  split
  · exact ⟨hf.current, hf.current⟩
  · exact hf

theorem deliverNothing_free {d t : Option PwBuffer} (hf : p.hold.FrameFree) :
    (deliverNothing cfg p d t).port.hold.FrameFree := by
  unfold deliverNothing
  split
  · exact ⟨hf.held, hf.held⟩
  · exact hf

theorem preparePort_free (hc : cfg.DmabufInput) (hf : p.hold.FrameFree)
    (h : ¬ PresentsFrame p staged dq) :
    (preparePort codec cfg p staged dq grow).port.hold.FrameFree := by
  have hclear : (clearDmabuf p).hold.FrameFree := ⟨rfl, hf.held⟩
  rw [preparePort_dmabuf hc]
  rcases prepareInput_cases cfg (clearDmabuf p) staged dq with
    ⟨-, -, hr⟩ | ⟨hpush, b, rfl, hb, -⟩ | ⟨-, -, hr⟩
  · rw [hr]
    exact deliverNew_free hclear
  · rw [inputBufferPresent_dmabuf hc.dmabuf] at hb
    exact absurd ⟨hpush, hb⟩ h
  · rw [hr]
    exact deliverNothing_free hclear

end Turn

/-! ### One step -/

variable {cfg : Fin n → PortConfig} {codec : EventCodec} {s : DataState n} {a : DataAction n}
  {p : Fin n} {xs ys : List (DataAction n)}

/-- The condition on the turns of port `p`. -/
def NoFrame (p : Fin n) (s : DataState n) : DataAction n → Prop
  | .prepare q dq _ => q = p → ¬ PresentsFrame (s.ports p) s.phase.staged dq
  | _ => True

instance (p : Fin n) (s : DataState n) : ∀ a, Decidable (NoFrame p s a)
  | .prepare _ _ _ => inferInstanceAs (Decidable (_ → ¬ _))
  | .push _ _ | .stage _ _ | .pushOutput _ _ _ _ | .beginCycle _ _ | .enterCallback
  | .setSize _ _ | .leaveCallback | .finish _ | .endCycle | .resetHold => isTrue trivial

/-- Between its two turns the port's accessor reads a buffer the filter has. -/
structure DataState.ReadInv (s : DataState n) (p : Fin n) : Prop where
  owned : s.Owned
  keeps : (s.ports p).hold.KeepsFrame
  current : s.phase.Within p → ∀ d, (s.ports p).currentDmabufBuf = some d →
    ∃ b ∈ s.kept p, b.buffer = d

/-- What an action does to the port's hold: its own turn, a stop, or nothing. -/
theorem hold_cases (ho : s.Owned) (he : (dataMachine cfg codec).Enabled s a) (p : Fin n) :
    (∃ dq grow, a = .prepare p dq grow ∧ ((DataState.next cfg codec s a).ports p) =
        (s.prepared cfg codec p dq grow).port) ∨
      (a = .resetHold ∧ ((DataState.next cfg codec s a).ports p).hold =
        ⟨none, false, none, none, none⟩) ∨
      ((∀ dq grow, a ≠ .prepare p dq grow) ∧ a ≠ .resetHold ∧
        ((DataState.next cfg codec s a).ports p).hold = (s.ports p).hold) := by
  by_cases hp : ∃ dq grow, a = .prepare p dq grow
  · obtain ⟨dq, grow, rfl⟩ := hp
    exact Or.inl ⟨dq, grow, rfl, by simp [DataState.next]⟩
  · have hp : ∀ dq grow, a ≠ .prepare p dq grow := by simpa using hp
    by_cases hr : a = .resetHold
    · subst hr
      exact Or.inr (Or.inl ⟨rfl, rfl⟩)
    · exact Or.inr (Or.inr ⟨hp, hr, hold_next ho he hr hp⟩)

theorem readInv_next (hc : (cfg p).DmabufInput) (he : (dataMachine cfg codec).Enabled s a)
    (hi : s.ReadInv p) :
    (DataState.next cfg codec s a).ReadInv p := by
  have ho : (DataState.next cfg codec s a).Owned := owned_next hi.owned he
  rcases hold_cases hi.owned he p with ⟨dq, grow, rfl, hport⟩ | ⟨rfl, hold⟩ | ⟨hp, hr, hold⟩
  · have hreads : (s.prepared cfg codec p dq grow).Reads :=
      preparePort_reads hc hi.keeps
    refine ⟨ho, hport ▸ hreads.keeps, fun _ d hd => ?_⟩
    rw [hport] at hd
    obtain ⟨b, hb, hd⟩ := hreads.current d hd
    refine ⟨b, ?_, hd⟩
    simpa [DataState.kept, DataState.next] using hb
  · refine ⟨ho, ?_, ?_⟩
    · rw [hold]
      intro d hd
      cases hd
    · intro _ d hd
      have hnone := congrArg PortHold.currentDmabufBuf hold
      cases hnone.symm.trans hd
  · refine ⟨ho, hold ▸ hi.keeps, fun hw d hd => ?_⟩
    rcases (within_next he p).mp hw with ⟨hw, hf⟩ | ⟨dq, grow, rfl⟩
    · have hcurrent := congrArg PortHold.currentDmabufBuf hold
      have hheld := congrArg PortHold.held hold
      obtain ⟨b, hb, hd⟩ := hi.current hw d (hcurrent.symm.trans hd)
      refine ⟨b, ?_, hd⟩
      have hkept : (DataState.next cfg codec s a).kept p = s.kept p := by
        unfold DataState.kept
        rw [dequeued_next hp hf]
        exact congrArg (fun h : Option PwBuffer => (s.dequeued p).toList ++ h.toList) hheld
      rw [hkept]
      exact hb
    · exact absurd rfl (hp dq grow)

theorem readInv_run (hc : (cfg p).DmabufInput) (h : (dataMachine cfg codec).Valid (.init n) xs) :
    ((dataMachine cfg codec).exec (.init n) xs).ReadInv p := by
  refine Machine.invariant (I := fun s => s.ReadInv p) ?_ (fun _ _ he hi => readInv_next hc he hi) h
  refine ⟨owned_init, ?_, fun hw => hw.elim⟩
  intro d hd
  cases hd

theorem frameFree_next (hc : (cfg p).DmabufInput) (ho : s.Owned)
    (he : (dataMachine cfg codec).Enabled s a) (hn : NoFrame p s a)
    (hf : (s.ports p).hold.FrameFree) :
    ((DataState.next cfg codec s a).ports p).hold.FrameFree := by
  rcases hold_cases ho he p with ⟨dq, grow, rfl, hport⟩ | ⟨rfl, hold⟩ | ⟨-, -, hold⟩
  · rw [hport]
    exact preparePort_free hc hf (hn rfl)
  · rw [hold]
    exact ⟨rfl, rfl⟩
  · rw [hold]
    exact hf

theorem frameFree_run (hc : (cfg p).DmabufInput)
    (h : ((dataMachine cfg codec).restrict (NoFrame p)).Valid (.init n) xs) :
    (((dataMachine cfg codec).exec (.init n) xs).ports p).hold.FrameFree := by
  have hrun := Machine.invariant (M := (dataMachine cfg codec).restrict (NoFrame p))
    (I := fun s => s.Owned ∧ (s.ports p).hold.FrameFree) ⟨owned_init, ⟨rfl, rfl⟩⟩ ?_ h
  · exact hrun.2
  · intro s a he hi
    exact ⟨owned_next hi.1 he.1, frameFree_next hc hi.1 he.1 he.2 hi.2⟩

/-! ### Calls of the accessor -/

/-- What a call returns after a run. -/
def planesAfter (cfg : Fin n → PortConfig) (codec : EventCodec) (p : Fin n)
    (xs : List (DataAction n)) (planesLen : ℕ) : List DmabufPlane × ℕ :=
  portGetDmabufPlanes (cfg p) (((dataMachine cfg codec).exec (.init n) xs).ports p) planesLen

/-- A call that returns planes returns those of a buffer dequeued and not yet given back. -/
def PlanesOutstanding (cfg : Fin n → PortConfig) (codec : EventCodec) (p : Fin n)
    (xs : List (DataAction n)) : Prop :=
  let ws := (dataMachine cfg codec).outs (.init n) xs
  ∀ planesLen, (planesAfter cfg codec p xs planesLen).2 ≠ 0 →
    ∃ b, Outstanding (takenBuffers p ws) (givenBuffers p ws) b ∧
      planesAfter cfg codec p xs planesLen =
        (b.buffer.planes.take planesLen, b.buffer.planes.length)

/-- A call returns no planes. -/
def NoPlanes (cfg : Fin n → PortConfig) (codec : EventCodec) (p : Fin n)
    (xs : List (DataAction n)) : Prop :=
  ∀ planesLen, planesAfter cfg codec p xs planesLen = ([], 0)

/-- What the accessor should return after a run. -/
structure AccessorSound (cfg : Fin n → PortConfig) (codec : EventCodec) (p : Fin n)
    (xs : List (DataAction n)) : Prop where
  outstanding : PlanesOutstanding cfg codec p xs
  outside : ((dataMachine cfg codec).exec (.init n) xs).phase ≠ .callback →
    NoPlanes cfg codec p xs

theorem noPlanes_of_free
    (h : (((dataMachine cfg codec).exec (.init n) xs).ports p).hold.FrameFree) :
    NoPlanes cfg codec p xs :=
  fun planesLen => portGetDmabufPlanes_free h.current planesLen

theorem planes_of_current (hc : (cfg p).DmabufInput) {b : PwBuffer}
    (hb : dmabufBufferPresent b.buffer = true)
    (h : (((dataMachine cfg codec).exec (.init n) xs).ports p).currentDmabufBuf =
      some b.buffer) : ¬ NoPlanes cfg codec p xs := by
  intro hnone
  have hplanes := hnone 0
  unfold planesAfter at hplanes
  rw [portGetDmabufPlanes_eq, h] at hplanes
  have hlen := congrArg Prod.snd hplanes
  have hnil : b.buffer.planes = [] := by simpa [shownPlanes, hc.dmabuf] using hlen
  exact planes_ne_nil hb hnil

/-- A DMABUF port drops no buffer, in any run. -/
theorem dmabuf_balanced (hc : (cfg p).DmabufInput)
    (h : (dataMachine cfg codec).Valid (.init n) xs) :
    Balanced p ((dataMachine cfg codec).outs (.init n) xs)
      ((dataMachine cfg codec).exec (.init n) xs) := by
  have hrun := Machine.history (M := dataMachine cfg codec)
    (P := fun ws t => t.BufferInv cfg ∧ Balanced p ws t) ⟨bufferInv_init, balanced_init⟩ ?_ h
  · exact hrun.2
  · intro ws s a he hi
    refine ⟨bufferInv_next he hi.1, balanced_next he hi.1 hi.2 ?_⟩
    rintro dq grow rfl hkind
    simp [hc.video, hc.input] at hkind

theorem planesOutstanding_within (hc : (cfg p).DmabufInput)
    (h : (dataMachine cfg codec).Valid (.init n) xs)
    (hw : ((dataMachine cfg codec).exec (.init n) xs).phase.Within p) :
    PlanesOutstanding cfg codec p xs := by
  intro planesLen hcount
  obtain ⟨d, hd, hplanes⟩ := portGetDmabufPlanes_current hcount
  obtain ⟨b, hb, rfl⟩ := (readInv_run hc h).current hw d hd
  exact ⟨b, outstanding_of_perm (dmabuf_balanced hc h) hb, hplanes⟩

theorem accessorSound_of_free
    (h : (((dataMachine cfg codec).exec (.init n) xs).ports p).hold.FrameFree) :
    AccessorSound cfg codec p xs := by
  have hnone : NoPlanes cfg codec p xs := noPlanes_of_free h
  refine ⟨?_, fun _ => hnone⟩
  intro planesLen hcount
  rw [hnone planesLen] at hcount
  exact absurd rfl hcount

/-- The accessor is sound throughout exactly the runs that present no frame. -/
theorem accessorSound_iff (hc : (cfg p).DmabufInput)
    (h : (dataMachine cfg codec).Valid (.init n) xs) :
    (∀ ys zs, xs = ys ++ zs → AccessorSound cfg codec p ys) ↔
      ((dataMachine cfg codec).restrict (NoFrame p)).Valid (.init n) xs := by
  refine Machine.always_iff_restrict (accessorSound_of_free ⟨rfl, rfl⟩) ?_ h
  intro ys a hys ha
  have hvalid := Machine.valid_of_restrict hys
  constructor
  · intro hsound
    cases a with
    | prepare q dq grow =>
      rintro rfl hframe
      obtain ⟨b, hb, hcurrent⟩ := preparePort_presents codec grow hc hframe
      refine planes_of_current hc hb ?_ (hsound.outside ?_)
      · simpa [dataMachine, DataState.next, DataState.prepared] using hcurrent
      · simp [dataMachine, DataState.next]
    | _ => trivial
  · intro hn
    apply accessorSound_of_free
    rw [Machine.exec_append]
    exact frameFree_next hc (owned_run hvalid) ha hn (frameFree_run hc hys)

/-! ### Between two cycles -/

/-- The cycle is past the port's turn of the first loop, and not over. -/
def Phase.Shown (p : Fin n) : Phase → Prop
  | .idle => False
  | .preparing _ i => p.val < i
  | .callback => True
  | .finishing _ => True

/-- Until the cycle ends the port keeps what its turn set. -/
theorem shown_next (ho : s.Owned) (he : (dataMachine cfg codec).Enabled s a)
    (hs : s.phase.Shown p) (hne : a ≠ .endCycle) :
    (DataState.next cfg codec s a).phase.Shown p ∧
      ((DataState.next cfg codec s a).ports p).hold = (s.ports p).hold := by
  have hphase : (DataState.next cfg codec s a).phase.Shown p := by
    cases a with
    | push q c => by_cases hq : c.accepts (cfg q) <;> simpa [DataState.next, hq] using hs
    | stage grown blk =>
      cases hk : s.lock <;> simpa [DataState.next, DataState.setPort, hk] using hs
    | beginCycle staged arrays =>
      have hidle : s.phase = .idle := he.1
      simp [hidle, Phase.Shown] at hs
    | prepare q dq grow =>
      have hq : s.phase = .preparing s.phase.staged q := he
      rw [hq] at hs
      have hlt : p.val < q.val := hs
      have hnext : p.val < q.val + 1 := by omega
      exact hnext
    | endCycle => exact absurd rfl hne
    | pushOutput | setSize | resetHold => exact hs
    | enterCallback | leaveCallback | finish => trivial
  refine ⟨hphase, ?_⟩
  rcases hold_cases ho he p with ⟨dq, grow, rfl, -⟩ | ⟨rfl, -⟩ | ⟨-, -, hold⟩
  · have hp : s.phase = .preparing s.phase.staged p := he
    rw [hp] at hs
    have hlt : p.val < p.val := hs
    omega
  · have hidle : s.phase = .idle := he
    simp [hidle, Phase.Shown] at hs
  · exact hold

theorem shown_run (ho : s.Owned) (h : (dataMachine cfg codec).Valid s ys)
    (hs : s.phase.Shown p) (hne : .endCycle ∉ ys) :
    (((dataMachine cfg codec).exec s ys).ports p).hold = (s.ports p).hold := by
  induction ys generalizing s with
  | nil => rfl
  | cons a ys ih =>
    obtain ⟨ha, hys⟩ := not_or.mp (mt List.mem_cons.mpr hne)
    obtain ⟨hshown, hold⟩ := shown_next ho h.1 hs (Ne.symm ha)
    rw [Machine.exec_cons, ← hold]
    exact ih (owned_next ho h.1) h.2 hshown hys

/-- A turn of the run presents a frame, and its cycle has not ended. -/
def FrameOpen (cfg : Fin n → PortConfig) (codec : EventCodec) (p : Fin n)
    (xs : List (DataAction n)) : Prop :=
  ∃ ys dq grow zs, xs = ys ++ .prepare p dq grow :: zs ∧ .endCycle ∉ zs ∧
    let s := (dataMachine cfg codec).exec (.init n) ys
    PresentsFrame (s.ports p) s.phase.staged dq

/-- No cycle that ends presents a frame. -/
def NoFrameEnds (cfg : Fin n → PortConfig) (codec : EventCodec) (p : Fin n)
    (xs : List (DataAction n)) : Prop :=
  ∀ ys dq grow zs, xs = ys ++ .prepare p dq grow :: zs →
    let s := (dataMachine cfg codec).exec (.init n) ys
    PresentsFrame (s.ports p) s.phase.staged dq → .endCycle ∉ zs

theorem NoFrameEnds.init (h : NoFrameEnds cfg codec p (xs ++ ys)) :
    NoFrameEnds cfg codec p xs := by
  rintro us dq grow vs rfl s hframe hend
  have hrest := h us dq grow (vs ++ ys) (by simp) hframe
  exact hrest (List.mem_append_left _ hend)

theorem phase_ne_idle_next (he : (dataMachine cfg codec).Enabled s a) (hs : s.phase ≠ .idle)
    (hne : a ≠ .endCycle) : (DataState.next cfg codec s a).phase ≠ .idle := by
  cases a with
  | push q c => by_cases hq : c.accepts (cfg q) <;> simpa [DataState.next, hq] using hs
  | stage grown blk => cases hk : s.lock <;> simpa [DataState.next, DataState.setPort, hk] using hs
  | beginCycle staged arrays => exact absurd he.1 hs
  | endCycle => exact absurd rfl hne
  | pushOutput | setSize | resetHold => exact hs
  | prepare | enterCallback | leaveCallback | finish => simp [DataState.next]

/-- In a run no ended cycle of which presents a frame, a port that has one is in the cycle. -/
theorem free_or_open (hc : (cfg p).DmabufInput)
    (h : (dataMachine cfg codec).Valid (.init n) xs) (hn : NoFrameEnds cfg codec p xs) :
    (((dataMachine cfg codec).exec (.init n) xs).ports p).hold.FrameFree ∨
      (((dataMachine cfg codec).exec (.init n) xs).phase ≠ .idle ∧ FrameOpen cfg codec p xs) := by
  revert hn
  refine Machine.run_induction (P := fun ys => NoFrameEnds cfg codec p ys →
    (((dataMachine cfg codec).exec (.init n) ys).ports p).hold.FrameFree ∨
      (((dataMachine cfg codec).exec (.init n) ys).phase ≠ .idle ∧ FrameOpen cfg codec p ys))
    (fun _ => Or.inl ⟨rfl, rfl⟩) ?_ h
  intro ys a hys ha ih hn
  rw [Machine.exec_append]
  rcases ih hn.init with hfree | ⟨hphase, us, dq, grow, vs, rfl, hend, hframe⟩
  · by_cases hnf : NoFrame p ((dataMachine cfg codec).exec (.init n) ys) a
    · exact Or.inl (frameFree_next hc (owned_run hys) ha hnf hfree)
    · cases a with
      | prepare q dq grow =>
        obtain ⟨rfl, hframe⟩ := not_forall.mp hnf
        refine Or.inr ⟨?_, ys, dq, grow, [], rfl, by simp, not_not.mp hframe⟩
        simp [dataMachine, DataState.next]
      | _ => exact absurd trivial hnf
  · have hopen : .endCycle ∉ vs ++ [a] := hn us dq grow (vs ++ [a]) (by simp) hframe
    have hne : a ≠ .endCycle := by
      rintro rfl
      simp at hopen
    exact Or.inr ⟨phase_ne_idle_next ha hphase hne, us, dq, grow, vs ++ [a], by simp, hopen,
      hframe⟩

/-- Between two cycles the accessor returns planes exactly if a cycle that ended presented a
frame. -/
theorem noPlanes_between_iff (hc : (cfg p).DmabufInput)
    (h : (dataMachine cfg codec).Valid (.init n) xs) :
    (∀ ys zs, xs = ys ++ zs → ((dataMachine cfg codec).exec (.init n) ys).phase = .idle →
      NoPlanes cfg codec p ys) ↔ NoFrameEnds cfg codec p xs := by
  constructor
  · rintro hnone us dq grow zs rfl s hframe hend
    obtain ⟨vs, ws, rfl, hvs⟩ := List.eq_append_cons_of_mem hend
    obtain ⟨hus, hprep, hrest⟩ := Machine.valid_append.mp h
    obtain ⟨hvalid, hend, -⟩ := Machine.valid_append.mp hrest
    obtain ⟨b, hb, hcurrent⟩ := preparePort_presents codec grow hc hframe
    have hport : (((dataMachine cfg codec).next s (.prepare p dq grow)).ports p).hold =
        (s.prepared cfg codec p dq grow).port.hold := by simp [dataMachine, DataState.next]
    have hshown : ((dataMachine cfg codec).next s (.prepare p dq grow)).phase.Shown p :=
      Nat.lt_succ_self p.val
    have hkeep := shown_run (owned_next (owned_run hus) hprep) hvalid hshown hvs
    have hlast : (us ++ .prepare p dq grow :: (vs ++ .endCycle :: ws)) =
        (us ++ .prepare p dq grow :: (vs ++ [.endCycle])) ++ ws := by simp
    refine planes_of_current hc hb ?_ (hnone _ ws hlast ?_)
    · rw [Machine.exec_append, Machine.exec_cons, Machine.exec_append]
      have hsame := congrArg PortHold.currentDmabufBuf (hkeep.trans hport)
      exact hsame.trans hcurrent
    · rw [Machine.exec_append, Machine.exec_cons, Machine.exec_append]
      rfl
  · rintro hn ys zs rfl hidle
    rcases free_or_open hc (Machine.valid_append.mp h).1 hn.init with hfree | ⟨hphase, -⟩
    · exact noPlanes_of_free hfree
    · exact absurd hidle hphase

end TinyPipewire.Filter
