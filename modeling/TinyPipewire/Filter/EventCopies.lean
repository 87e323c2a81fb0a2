import TinyPipewire.Filter.EventCodec
import TinyPipewire.Lib.Ledger

/-!
# The copies of pushed events

A push copies the bytes of its event. The copy moves from `pending_events` to
`delivering_events`, and ends with the port's turn of the last loop, with a push that is
refused after all, or with the filter. What is copied and freed is kept in a ledger, and each
step frees on the heap what it gives there.
-/

namespace TinyPipewire.Filter

open Ledger Heap

variable {n : ℕ}

/-! ### What is copied, and what is freed -/

/-- The copy `pwf_filter_pending_event_append` makes. -/
def appendEntries (p : PortData) (e : PushedEvent) (grown : Bool) (copy : Option Loc) :
    List (Entry Loc) :=
  if p.pendingEvents.length = p.pendingEventsCapacity ∧ grown = false then []
  else if e.src.size > 0 then copy.toList.map .took
  else []

/-- The output branch of `pwf_filter_port_push_event`: what does not fit is freed again. -/
def pushOutputEntries (codec : EventCodec) (h : Heap Bytes) (p : PortData) (e : PushedEvent)
    (grown : Bool) (copy : Option Loc) : List (Entry Loc) :=
  match pendingEventAppend h p e grown copy with
  | (_, _, false) => appendEntries p e grown copy
  | (h', p', true) =>
    appendEntries p e grown copy ++
      if (codec.encode (p'.pendingEvents.map (·.item h'))).length > p'.eventOutputCapacity then
        (eventBlocks p'.pendingEvents.getLast?.toList).map .gave
      else []

/-- The frees of a port's turn of the last loop. -/
def finishEntries (cfg : PortConfig) (p : PortData) : List (Entry Loc) :=
  if cfg.mediaType = .event then
    match cfg.direction with
    | .input => (eventBlocks p.deliveringEvents).map .gave
    | .output => (eventBlocks p.pendingEvents).map .gave
  else []

/-- The frees of `pwf_filter_event_free_port`. -/
def freePortEntries (cfg : PortConfig) (p : PortData) : List (Entry Loc) :=
  if cfg.mediaType ≠ .event then []
  else (eventBlocks p.pendingEvents).map .gave ++ (eventBlocks p.deliveringEvents).map .gave

namespace DataState

variable (cfg : Fin n → PortConfig) (codec : EventCodec) (s : DataState n)

/-- What an action copies and frees of the events that were pushed. -/
def copyEntries : DataAction n → List (Entry Loc)
  | .stage grown blk =>
    match s.lock with
    | .push p (.event e) => appendEntries (s.ports p) e grown blk
    | _ => []
  | .pushOutput p e grown blk => pushOutputEntries codec s.heap (s.ports p) e grown blk
  | .finish p => finishEntries (cfg p) (s.ports p)
  | _ => []

/-- What `pwf_filter_destroy` frees of them. -/
def destroyEntries : List (Entry Loc) :=
  (List.finRange n).flatMap fun p => freePortEntries (cfg p) (s.ports p)

end DataState

/-- No output event port has copies staged when its turn of a cycle begins. -/
def StartsEmpty (cfg : Fin n → PortConfig) (s : DataState n) : DataAction n → Prop
  | .prepare p _ _ => (cfg p).mediaType = .event → (cfg p).direction = .output →
      eventBlocks (s.ports p).pendingEvents = []
  | _ => True

instance (cfg : Fin n → PortConfig) (s : DataState n) : DecidablePred (StartsEmpty cfg s)
  | .prepare _ _ _ => inferInstanceAs (Decidable (_ → _ → _))
  | .push _ _ | .stage _ _ | .pushOutput _ _ _ _ | .beginCycle _ _ | .enterCallback
  | .setSize _ _ | .leaveCallback | .finish _ | .endCycle | .resetHold =>
    inferInstanceAs (Decidable True)

/-! ### One operation -/

/-- The copies a port has. -/
def PortData.copies (p : PortData) : List Loc :=
  eventBlocks p.pendingEvents ++ eventBlocks p.deliveringEvents

/-- A step makes some copies, frees some, loses hold of some, and has the rest. -/
def CopyStep (h : Heap Bytes) (ws : List (Entry Loc)) (old new dropped : List Loc) : Prop :=
  ∃ ts gs, ws = ts.map .took ++ gs.map .gave ∧ ts.Nodup ∧ (∀ l ∈ ts, h.Fresh l) ∧
    (old ++ ts).Perm (gs ++ dropped ++ new)

section Operations

variable {h : Heap Bytes} {p q : PortData} {copy : Option Loc} {old new ks : List Loc}

theorem CopyStep.same (hp : old.Perm new) : CopyStep h [] old new [] :=
  ⟨[], [], rfl, by simp, by simp, by simpa using hp⟩

theorem CopyStep.frees (hp : old.Perm (ks ++ new)) : CopyStep h (ks.map .gave) old new [] :=
  ⟨[], ks, rfl, by simp, by simp, by simpa using hp⟩

/-- An append that stages the event took its copy, and one that fails took none. -/
theorem appendEntries_cases (p : PortData) (e : PushedEvent) (grown : Bool)
    (ha : Answer h.Fresh copy) :
    (∃ cap, pendingEventAppend h p e grown copy =
        (h, { p with pendingEventsCapacity := cap }, false) ∧
      appendEntries p e grown copy = []) ∨
    ∃ h' cap data, pendingEventAppend h p e grown copy =
        (h', { p with
          pendingEventsCapacity := cap
          pendingEvents := p.pendingEvents ++
            [⟨e.offset, e.kind, stagedKey e, data, e.src.size⟩] }, true) ∧
      h.KeepsOff h' [] ∧ (∀ l ∈ data.toList, h.Fresh l) ∧
      appendEntries p e grown copy = data.toList.map .took := by
  unfold pendingEventAppend appendEntries
  split
  · exact Or.inl ⟨_, rfl, rfl⟩
  · dsimp only
    split
    · cases copy with
      | none => exact Or.inl ⟨_, rfl, rfl⟩
      | some l =>
        have hl : h.Fresh l := ha
        exact Or.inr ⟨_, _, some l, rfl, (KeepsOff.refl h []).store (Or.inr hl),
          by simpa using hl, rfl⟩
    · exact Or.inr ⟨_, _, none, rfl, .refl h [], by simp, rfl⟩

/-- The copies of a port with one more event staged. -/
theorem copies_staged (p : PortData) (e : PendingEvent) (cap : ℕ) :
    (p.copies ++ e.data.toList).Perm
      { p with pendingEventsCapacity := cap
               pendingEvents := p.pendingEvents ++ [e] }.copies := by
  have hblocks : eventBlocks [e] = e.data.toList := by
    cases hd : e.data <;> simp [eventBlocks, hd]
  simp only [PortData.copies, eventBlocks_append, List.append_assoc, hblocks]
  exact List.Perm.append_left _ List.perm_append_comm

theorem stageEvent_copies (p : PortData) (e : PushedEvent) (grown : Bool)
    (ha : Answer h.Fresh copy) :
    CopyStep h (appendEntries p e grown copy) p.copies
      (stageEvent h p e grown copy).2.1.copies [] := by
  rcases appendEntries_cases p e grown ha with
    ⟨cap, hr, hws⟩ | ⟨h', cap, data, hr, -, hfresh, hws⟩
  · rw [stageEvent, hr, hws]
    exact .same (List.Perm.refl _)
  · rw [stageEvent, hr, hws]
    refine ⟨data.toList, [], by simp, ?_, hfresh, ?_⟩
    · cases data <;> simp
    · exact copies_staged p ⟨e.offset, e.kind, stagedKey e, data, e.src.size⟩ cap

theorem pushOutputEvent_copies (codec : EventCodec) (p : PortData) (e : PushedEvent)
    (grown : Bool) (ha : Answer h.Fresh copy) :
    CopyStep h (pushOutputEntries codec h p e grown copy) p.copies
      (pushOutputEvent codec h p e grown copy).2.1.copies [] := by
  rcases appendEntries_cases p e grown ha with
    ⟨cap, hr, hws⟩ | ⟨h', cap, data, hr, -, hfresh, hws⟩
  · rw [pushOutputEntries, pushOutputEvent, hr]
    simp only [hws]
    exact .same (List.Perm.refl _)
  · have hlen : data.toList.Nodup := by cases data <;> simp
    have hblocks : eventBlocks [(⟨e.offset, e.kind, stagedKey e, data, e.src.size⟩ :
        PendingEvent)] = data.toList := by cases data <;> simp [eventBlocks]
    rw [pushOutputEntries, pushOutputEvent, hr]
    simp only [hws]
    split
    · -- the event does not fit, and its copy goes
      refine ⟨data.toList, data.toList, ?_, hlen, hfresh, ?_⟩
      · simp [hblocks]
      · simp only [pendingEventPopLast, PortData.copies, List.dropLast_concat, List.append_nil]
        exact List.perm_append_comm
    · refine ⟨data.toList, [], by simp, hlen, hfresh, ?_⟩
      exact copies_staged p ⟨e.offset, e.kind, stagedKey e, data, e.src.size⟩ cap

theorem finishPort_copies (codec : EventCodec) (cfg : PortConfig) (e : PortBuffer)
    (dq : Option PwBuffer) :
    CopyStep h (finishEntries cfg p) p.copies (finishPort codec cfg h p e dq).2.1.copies [] := by
  unfold finishEntries finishPort
  split
  · cases hd : cfg.direction with
    | input =>
      refine .frees ?_
      simp only [PortData.copies, eventClearDelivering, eventBlocks_nil, List.append_nil]
      exact List.perm_append_comm
    | output =>
      refine .frees ?_
      simp [PortData.copies, eventClearPending]
  · cases hd : cfg.direction <;> exact .same (List.Perm.refl _)

@[simp] theorem copies_presentGraph (cfg : PortConfig) (p : PortData) (b : PwBuffer) :
    (presentGraph cfg p b).1.copies = p.copies := by
  unfold presentGraph
  split <;> rfl

@[simp] theorem copies_deliverNew (cfg : PortConfig) (p : PortData) (e : PortBuffer)
    (d t : Option PwBuffer) (o : Origin) : (deliverNew cfg p e d t o).port.copies = p.copies := by
  unfold deliverNew
  dsimp only
  split <;> rfl

@[simp] theorem copies_deliverNothing (cfg : PortConfig) (p : PortData)
    (d t : Option PwBuffer) : (deliverNothing cfg p d t).port.copies = p.copies := by
  unfold deliverNothing
  split <;> rfl

theorem prepareInput_copies (cfg : PortConfig) (p : PortData) (staged : Bool)
    (dq : Option PwBuffer) : (prepareInput cfg p staged dq).port.copies = p.copies := by
  rcases prepareInput_cases cfg p staged dq with
    ⟨-, -, hr⟩ | ⟨-, b, -, -, hr⟩ | ⟨-, -, hr⟩ <;> rw [hr]
  · rw [copies_deliverNew]
    rfl
  · rw [copies_deliverNew, copies_presentGraph]
  · rw [copies_deliverNothing]

@[simp] theorem copies_incomingEventsAppend (p : PortData) (grow : ℕ → Bool)
    (es : List Event) : (incomingEventsAppend p grow es).copies = p.copies := by
  simp [PortData.copies]

/-- An input port that delivers nothing takes what is staged, and drops nothing. -/
theorem prepareEventInput_copies (codec : EventCodec) (staged : Bool) (dq : Option PwBuffer)
    (grow : ℕ → Bool) (hd : p.deliveringEvents = []) :
    p.copies.Perm (prepareEventInput codec p staged dq grow).port.copies := by
  have htake : p.copies.Perm (eventTakeStaged p staged).copies := by
    unfold eventTakeStaged
    split
    · simp only [PortData.copies, eventTakePending, hd]
      exact List.perm_append_comm
    · exact List.Perm.refl _
  unfold prepareEventInput
  dsimp only
  split
  · rw [eventLoadDelivering, copies_incomingEventsAppend]
    exact htake
  · split
    · rw [eventDecode, copies_incomingEventsAppend]
      exact htake
    · exact htake

/-- An output port drops what is staged. -/
theorem prepareEventOutput_copies (p : PortData) (dq : Option PwBuffer) :
    p.copies = eventBlocks p.pendingEvents ++ (prepareEventOutput p dq).port.copies := by
  unfold prepareEventOutput
  split <;> rfl

end Operations

/-! ### Nothing else stays behind -/

/-- The blocks of the push buffers. -/
def PortData.dataBlocks (p : PortData) : List Loc := p.pushedData.toList ++ p.deliveredData.toList

theorem blocks_eq (p : PortData) : p.blocks = p.dataBlocks ++ p.copies := rfl

section Clean

variable {h : Heap Bytes} {p : PortData} {copy : Option Loc}

theorem growPushed_clean {size : ℕ} {grown : Option Loc} {r : Heap Bytes × PortData}
    (hr : growPushed h p size grown = some r) : Clean h p.blocks r.1 r.2.blocks := by
  unfold growPushed at hr
  split at hr
  · cases grown with
    | none => simp at hr
    | some l =>
      obtain rfl := Option.some.inj hr
      refine .move ?_ ?_
      · simp [PortData.blocks]
      · intro k hk
        simp only [PortData.blocks, List.mem_append] at hk ⊢
        rcases hk with (hk | hk) | hk
        · exact Or.inl hk
        · exact Or.inr (Or.inl (Or.inr hk))
        · exact Or.inr (Or.inr hk)
  · obtain rfl := Option.some.inj hr
    exact .refl h _

theorem fillPushed_clean (h : Heap Bytes) (p : PortData) (c : PortPush) :
    Clean h p.blocks (fillPushed h p c).1 (fillPushed h p c).2.blocks := by
  have hb : (fillPushed h p c).2.blocks = p.blocks := rfl
  rw [hb]
  unfold fillPushed
  cases hp : p.pushedData with
  | none => exact .refl h _
  | some l =>
    dsimp only
    split
    · exact .store (by simp [PortData.blocks, hp]) fun _ hk => hk
    · exact .refl h _

theorem stagePortData_clean (c : PortPush) (grown : Option Loc) :
    Clean h p.blocks (stagePortData h p c grown).1 (stagePortData h p c grown).2.1.blocks := by
  unfold stagePortData
  cases hg : growPushed h p c.src.size grown with
  | none => exact .refl h _
  | some r => exact (growPushed_clean hg).trans (fillPushed_clean r.1 r.2 c)

/-- A data push writes to its buffer only, and frees that only. -/
theorem stagePortData_keeps {c : PortPush} {grown : Option Loc}
    (ha : Answer (h.Movable p.pushedData) grown) :
    h.KeepsOff (stagePortData h p c grown).1 p.pushedData.toList := by
  unfold stagePortData growPushed
  split
  · exact .refl h _
  · rename_i h1 p1 hg
    have hgrown : h.KeepsOff h1 p.pushedData.toList ∧
        ∀ l, p1.pushedData = some l → l ∈ p.pushedData.toList ∨ h.Fresh l := by
      split at hg
      · cases grown with
        | none => simp at hg
        | some l =>
          obtain ⟨rfl, rfl⟩ := Prod.mk.inj (Option.some.inj hg)
          have hl : l ∈ p.pushedData.toList ∨ h.Fresh l := by
            rcases ha with ha | ha
            · exact Or.inl (by simp [ha])
            · exact Or.inr ha
          refine ⟨(keepsOff_freeAll fun _ hk => hk).store hl, ?_⟩
          intro k hk
          obtain rfl := Option.some.inj hk
          exact hl
      · obtain ⟨rfl, rfl⟩ := Prod.mk.inj (Option.some.inj hg)
        exact ⟨.refl h _, fun l hl => Or.inl (by simp [hl])⟩
    unfold fillPushed
    cases hp : p1.pushedData with
    | none => exact hgrown.1
    | some l =>
      dsimp only
      split
      · exact hgrown.1.store (hgrown.2 l hp)
      · exact hgrown.1

variable (h p copy) in
theorem pendingEventAppend_clean (e : PushedEvent) (grown : Bool) :
    Clean h p.blocks (pendingEventAppend h p e grown copy).1
      (pendingEventAppend h p e grown copy).2.1.blocks := by
  unfold pendingEventAppend
  split
  · exact .refl h _
  · dsimp only
    split
    · cases copy with
      | none => exact .refl h _
      | some l =>
        refine .store ?_ ?_
        · simp [PortData.blocks, eventBlocks]
        · intro k hk
          simp only [PortData.blocks, eventBlocks_append, List.mem_append] at hk ⊢
          rcases hk with hk | hk | hk
          · exact Or.inl hk
          · exact Or.inr (Or.inl (Or.inl hk))
          · exact Or.inr (Or.inr hk)
    · refine .of_subset ?_
      intro k hk
      simpa [PortData.blocks, eventBlocks] using hk

theorem stageEvent_clean (e : PushedEvent) (grown : Bool) :
    Clean h p.blocks (stageEvent h p e grown copy).1
      (stageEvent h p e grown copy).2.1.blocks := by
  have hclean := pendingEventAppend_clean h p copy e grown
  unfold stageEvent
  split <;> simp_all

theorem pendingEventPopLast_clean (h : Heap Bytes) (p : PortData) :
    Clean h p.blocks (pendingEventPopLast h p).1 (pendingEventPopLast h p).2.blocks := by
  refine .free ?_
  intro k hk
  rcases List.eq_nil_or_concat p.pendingEvents with hn | ⟨es, e, he⟩
  · simpa [PortData.blocks, pendingEventPopLast, hn] using hk
  · simp only [PortData.blocks, pendingEventPopLast, he, eventBlocks_append, List.concat_eq_append,
      List.mem_append, List.dropLast_concat, List.getLast?_concat, Option.toList_some] at hk ⊢
    rcases hk with hk | (hk | hk) | hk
    · exact Or.inr (Or.inl hk)
    · exact Or.inr (Or.inr (Or.inl hk))
    · exact Or.inl hk
    · exact Or.inr (Or.inr (Or.inr hk))

theorem pushOutputEvent_clean (codec : EventCodec) (e : PushedEvent) (grown : Bool) :
    Clean h p.blocks (pushOutputEvent codec h p e grown copy).1
      (pushOutputEvent codec h p e grown copy).2.1.blocks := by
  have hclean := pendingEventAppend_clean h p copy e grown
  unfold pushOutputEvent
  split
  · simp_all
  · rename_i h' p' heq
    simp only [heq] at hclean
    split
    · exact hclean.trans (pendingEventPopLast_clean h' p')
    · exact hclean

theorem finishPort_clean (codec : EventCodec) (cfg : PortConfig) (h : Heap Bytes) (p : PortData)
    (e : PortBuffer) (dq : Option PwBuffer) :
    Clean h p.blocks (finishPort codec cfg h p e dq).1
      (finishPort codec cfg h p e dq).2.1.blocks := by
  unfold finishPort
  split
  · split
    · refine .free ?_
      intro k hk
      simp only [PortData.blocks, eventClearDelivering, List.mem_append] at hk ⊢
      rcases hk with hk | hk | hk
      · exact Or.inr (Or.inl hk)
      · exact Or.inr (Or.inr (Or.inl hk))
      · exact Or.inl hk
    · refine .free ?_
      intro k hk
      simp only [PortData.blocks, eventClearPending, List.mem_append] at hk ⊢
      rcases hk with hk | hk | hk
      · exact Or.inr (Or.inl hk)
      · exact Or.inl hk
      · exact Or.inr (Or.inr (Or.inr hk))
  · split
    · exact .refl h _
    · exact .refl h _

/-- A turn of the first loop keeps the push buffers, swapped or not. -/
theorem preparePort_dataBlocks (codec : EventCodec) (cfg : PortConfig) (p : PortData)
    (staged : Bool) (dq : Option PwBuffer) (grow : ℕ → Bool) :
    p.dataBlocks.Perm (preparePort codec cfg p staged dq grow).port.dataBlocks := by
  rcases preparePort_kinds codec cfg p staged dq grow with
    ⟨-, -, hr⟩ | ⟨-, -, hr⟩ | ⟨-, -, hr⟩ | ⟨-, -, hr⟩ <;> rw [hr]
  · have happend : ∀ (q : PortData) (es : List Event),
        (incomingEventsAppend q grow es).dataBlocks = q.dataBlocks := by
      intro q es
      obtain ⟨is, cap, hq⟩ := incomingEventsAppend_eq q grow es
      rw [hq]
      rfl
    have htake : (eventTakeStaged (clearDmabuf p) staged).dataBlocks = p.dataBlocks := by
      unfold eventTakeStaged
      split <;> rfl
    refine List.Perm.of_eq ?_
    unfold prepareEventInput
    dsimp only
    split
    · rw [eventLoadDelivering, happend]
      exact htake.symm
    · split
      · rw [eventDecode, happend]
        exact htake.symm
      · exact htake.symm
  · unfold prepareEventOutput
    split <;> exact List.Perm.refl _
  · have hpresent : ∀ b, (presentGraph cfg (clearDmabuf p) b).1.dataBlocks = p.dataBlocks := by
      intro b
      unfold presentGraph
      split <;> rfl
    have hnew : ∀ (q : PortData) (e : PortBuffer) (d t : Option PwBuffer) (o : Origin),
        (deliverNew cfg q e d t o).port.dataBlocks = q.dataBlocks := by
      intro q e d t o
      unfold deliverNew
      dsimp only
      split <;> rfl
    rcases prepareInput_cases cfg (clearDmabuf p) staged dq with
      ⟨-, -, hr⟩ | ⟨-, b, -, -, hr⟩ | ⟨-, -, hr⟩ <;> rw [hr]
    · rw [hnew]
      exact List.perm_append_comm
    · rw [hnew, hpresent]
    · unfold deliverNothing
      split <;> exact List.Perm.refl _
  · unfold prepareOutput
    split <;> exact List.Perm.refl _

end Clean

/-! ### One action -/

variable {cfg : Fin n → PortConfig} {codec : EventCodec} {s : DataState n} {a : DataAction n}
  {p : Fin n} {l : Loc}

/-- What the ports' copies rest on. -/
structure DataState.CopyInv (cfg : Fin n → PortConfig) (s : DataState n) : Prop where
  owned : s.Owned
  lock : s.LockInv cfg
  plain : ∀ p, (cfg p).mediaType ≠ .event → (s.ports p).copies = []
  events : ∀ p, (cfg p).mediaType = .event → (cfg p).direction = .input → s.EventInv cfg p

/-- The copies an action loses hold of. -/
def DataState.dropped (cfg : Fin n → PortConfig) (s : DataState n) : DataAction n → List Loc
  | .prepare p _ _ =>
    if (cfg p).mediaType = .event ∧ (cfg p).direction = .output then
      eventBlocks (s.ports p).pendingEvents
    else []
  | _ => []

theorem dropped_eq_nil_iff : s.dropped cfg a = [] ↔ StartsEmpty cfg s a := by
  cases a with
  | prepare p dq grow =>
    by_cases hm : (cfg p).mediaType = .event <;> cases hd : (cfg p).direction <;>
      simp [DataState.dropped, StartsEmpty, hm, hd]
  | _ => simp [DataState.dropped, StartsEmpty]

/-- A turn of the first loop takes and gives back nothing. -/
theorem prepared_copies (hi : s.CopyInv cfg) (dq : Option PwBuffer) (grow : ℕ → Bool)
    (he : (dataMachine cfg codec).Enabled s (.prepare p dq grow)) :
    CopyStep s.heap [] (s.ports p).copies (s.prepared cfg codec p dq grow).port.copies
      (s.dropped cfg (.prepare p dq grow)) := by
  have hclear : (clearDmabuf (s.ports p)).copies = (s.ports p).copies := rfl
  rcases preparePort_kinds codec (cfg p) (s.ports p) s.phase.staged dq grow with
    ⟨hm, hd, hr⟩ | ⟨hm, hd, hr⟩ | ⟨hm, hd, hr⟩ | ⟨hm, hd, hr⟩ <;>
    rw [DataState.prepared, hr] <;> simp only [DataState.dropped, hm, hd]
  · have hidle := (hi.events p hm hd).idle (not_within_of_prepare he)
    exact .same (prepareEventInput_copies (p := clearDmabuf (s.ports p)) codec s.phase.staged dq
      grow hidle)
  · refine ⟨[], [], rfl, by simp, by simp, ?_⟩
    have hsplit := prepareEventOutput_copies (clearDmabuf (s.ports p)) dq
    rw [hclear] at hsplit
    simp [hsplit, clearDmabuf]
  · rw [prepareInput_copies]
    exact .same (List.Perm.refl _)
  · refine .same ?_
    unfold prepareOutput
    split <;> exact List.Perm.refl _

/-- Some allocations and writes that touch none of the copies, and then what the ledger gives is
freed, and nothing else. -/
def FreesGiven (s : DataState n) (ws : List (Entry Loc)) (h' : Heap Bytes) : Prop :=
  ∃ h₁ : Heap Bytes, (∀ l, s.heap.Live l → (∀ p, l ∉ (s.ports p).dataBlocks) → h₁ l = s.heap l) ∧
    h' = h₁.freeAll (given ws)

theorem freesGiven_nothing {h' : Heap Bytes} {ws : List (Entry Loc)} (hws : given ws = [])
    (hk : ∀ l, s.heap.Live l → (∀ p, l ∉ (s.ports p).dataBlocks) → h' l = s.heap l) :
    FreesGiven s ws h' := ⟨h', hk, by rw [hws, Heap.freeAll_nil]⟩

theorem given_appendEntries (p : PortData) (e : PushedEvent) (grown : Bool)
    (copy : Option Loc) : given (appendEntries p e grown copy) = [] := by
  unfold appendEntries
  split
  · rfl
  · split
    · exact given_took _
    · rfl

theorem finishPort_freed (codec : EventCodec) (cfg : PortConfig) (h : Heap Bytes) (p : PortData)
    (e : PortBuffer) (dq : Option PwBuffer) :
    (finishPort codec cfg h p e dq).1 = h.freeAll (given (finishEntries cfg p)) := by
  unfold finishPort finishEntries
  split
  · cases cfg.direction with
    | input => rw [given_gave]; rfl
    | output => rw [given_gave]; rfl
  · cases cfg.direction with
    | input => exact Heap.freeAll_nil.symm
    | output => exact Heap.freeAll_nil.symm

/-- What the push to an output port frees is the event it takes back. -/
theorem pushOutputEvent_freed {h : Heap Bytes} (codec : EventCodec) (p : PortData)
    (e : PushedEvent) (grown : Bool) {copy : Option Loc} (ha : Answer h.Fresh copy) :
    ∃ h₁, h.KeepsOff h₁ [] ∧ (pushOutputEvent codec h p e grown copy).1 =
      h₁.freeAll (given (pushOutputEntries codec h p e grown copy)) := by
  rcases appendEntries_cases p e grown ha with
    ⟨cap, hr, -⟩ | ⟨h', cap, data, hr, hkeeps, -, -⟩
  · refine ⟨h, .refl h [], ?_⟩
    rw [pushOutputEvent, pushOutputEntries, hr]
    simp only [given_appendEntries, Heap.freeAll_nil]
  · refine ⟨h', hkeeps, ?_⟩
    rw [pushOutputEvent, pushOutputEntries, hr]
    simp only [given_append, given_appendEntries, List.nil_append]
    split
    · rw [given_gave]
      rfl
    · exact Heap.freeAll_nil.symm

/-- Each step of the data side frees on the heap what the ledger gives. -/
theorem freesGiven_next (he : (dataMachine cfg codec).Enabled s a) :
    FreesGiven s (s.copyEntries cfg codec a) (DataState.next cfg codec s a).heap := by
  have hsame : (DataState.next cfg codec s a).heap = s.heap → s.copyEntries cfg codec a = [] →
      FreesGiven s (s.copyEntries cfg codec a) (DataState.next cfg codec s a).heap := by
    intro hh hws
    refine freesGiven_nothing (by rw [hws]; rfl) ?_
    intro l _ _
    rw [hh]
  cases a with
  | stage grown blk =>
    cases hl : s.lock with
    | push p c =>
      have hanswer : s.lock.Answers s.heap s.ports blk := he
      rw [hl] at hanswer
      cases c with
      | data c =>
        refine freesGiven_nothing (by simp [DataState.copyEntries, hl, given]) ?_
        intro l hlive hn
        simp only [DataState.next, hl, DataState.setPort, DataState.staged]
        refine stagePortData_keeps hanswer l hlive fun hin => hn p ?_
        exact List.mem_append_left _ hin
      | event e =>
        refine freesGiven_nothing (by simp [DataState.copyEntries, hl, given_appendEntries]) ?_
        intro l hlive _
        simp only [DataState.next, hl, DataState.setPort, DataState.staged]
        rcases appendEntries_cases (s.ports p) e grown hanswer with
          ⟨cap, hr, -⟩ | ⟨h', cap, data, hr, hkeeps, -, -⟩
        · rw [stageEvent, hr]
        · rw [stageEvent, hr]
          exact hkeeps l hlive (by simp)
    | _ => exact hsame (by simp [DataState.next, hl]) (by simp [DataState.copyEntries, hl])
  | pushOutput p e grown blk =>
    obtain ⟨h₁, hkeeps, hfreed⟩ := pushOutputEvent_freed codec (s.ports p) e grown he.2.2
    refine ⟨h₁, fun l hlive _ => hkeeps l hlive (by simp), ?_⟩
    exact hfreed
  | finish p => exact ⟨s.heap, fun _ _ _ => rfl, finishPort_freed codec _ _ _ _ _⟩
  | push q c => exact hsame (by by_cases hc : c.accepts (cfg q) <;> simp [DataState.next, hc]) rfl
  | beginCycle staged arrays =>
    exact hsame (by by_cases hc : skipsCycle n arrays <;> simp [DataState.next, hc]) rfl
  | _ => exact hsame rfl rfl

/-- What an action does to the copies of the port it works on. -/
theorem target_copies (hi : s.CopyInv cfg) (he : (dataMachine cfg codec).Enabled s a)
    (ht : s.target a = some p) :
    CopyStep s.heap (s.copyEntries cfg codec a) (s.ports p).copies
      ((DataState.next cfg codec s a).ports p).copies (s.dropped cfg a) := by
  rcases target_cases ht with ⟨grown, blk, c, rfl, hl⟩ | ⟨e, grown, blk, rfl⟩ |
    ⟨dq, grow, rfl⟩ | rfl
  · have hanswer : s.lock.Answers s.heap s.ports blk := he
    rw [hl] at hanswer
    simp only [DataState.copyEntries, DataState.next, hl, DataState.setPort,
      Function.update_self, DataState.dropped]
    cases c with
    | event e => exact stageEvent_copies (s.ports p) e grown hanswer
    | data c =>
      obtain ⟨data, size, cap, pts, pending, hq⟩ :=
        stagePortData_frame s.heap (s.ports p) c blk
      simp only [DataState.staged, hq]
      exact .same (List.Perm.refl _)
  · simp only [DataState.copyEntries, DataState.next, DataState.setPort, Function.update_self,
      DataState.dropped]
    exact pushOutputEvent_copies codec (s.ports p) e grown he.2.2
  · simp only [DataState.copyEntries, DataState.next, Function.update_self]
    exact prepared_copies hi dq grow he
  · simp only [DataState.copyEntries, DataState.next, DataState.setPort, Function.update_self,
      DataState.dropped]
    exact finishPort_copies codec (cfg p) (s.buffers p) (s.dequeued p)

variable (cfg codec) in
/-- An action that works on no port copies, frees and drops nothing. -/
theorem untargeted_copies (ht : s.target a = none) :
    s.copyEntries cfg codec a = [] ∧ s.dropped cfg a = [] ∧
      ∀ p, ((DataState.next cfg codec s a).ports p).copies = (s.ports p).copies := by
  refine ⟨?_, ?_, fun p => ?_⟩
  · cases a with
    | stage grown blk =>
      cases hl : s.lock with
      | push q c => simp [DataState.target, hl] at ht
      | _ => simp [DataState.copyEntries, hl]
    | pushOutput | prepare | finish => simp [DataState.target] at ht
    | _ => rfl
  · cases a with
    | prepare => simp [DataState.target] at ht
    | _ => rfl
  · rcases (untargeted_next cfg codec ht).2 p with hp | ⟨-, hp⟩ <;> rw [hp]
    rfl

theorem CopyStep.nil {h : Heap Bytes} {new ds : List Loc} (hs : CopyStep h [] [] new ds) :
    new = [] := by
  obtain ⟨ts, gs, hws, -, -, hp⟩ := hs
  obtain ⟨hts, -⟩ := List.append_eq_nil_iff.mp hws.symm
  rw [List.map_eq_nil_iff] at hts
  rw [hts] at hp
  exact (List.append_eq_nil_iff.mp hp.nil_eq.symm).2

/-- Nothing is copied for a port of no events. -/
theorem plain_entries (hm : (cfg p).mediaType ≠ .event) (hl : s.LockInv cfg)
    (he : (dataMachine cfg codec).Enabled s a) (ht : s.target a = some p) :
    s.copyEntries cfg codec a = [] := by
  rcases target_cases ht with ⟨grown, blk, c, rfl, hk⟩ | ⟨e, grown, blk, rfl⟩ |
    ⟨dq, grow, rfl⟩ | rfl
  · have hacc := (hl.accepted p c hk).1
    cases c with
    | data c => simp [DataState.copyEntries, hk]
    | event e => simp [PushCall.accepts, pushEventAccepts, hm] at hacc
  · have hacc := he.1
    simp [pushEventAccepts, hm] at hacc
  · rfl
  · simp [DataState.copyEntries, finishEntries, hm]

theorem copyInv_next (he : (dataMachine cfg codec).Enabled s a) (hi : s.CopyInv cfg) :
    (DataState.next cfg codec s a).CopyInv cfg where
  owned := owned_next hi.owned he
  lock := lockInv_next he hi.lock
  plain := by
    intro p hm
    have hp := hi.plain p hm
    cases ht : s.target a with
    | none => rw [(untargeted_copies cfg codec ht).2.2 p, hp]
    | some q =>
      by_cases hq : q = p
      · subst hq
        have hstep := target_copies hi he ht
        rw [plain_entries hm hi.lock he ht, hp] at hstep
        exact hstep.nil
      · rw [(target_transfer hi.owned he ht).2 p (Ne.symm hq), hp]
  events := fun p hm hd => eventInv_next hm hd he (hi.events p hm hd)

theorem copyInv_init : (DataState.init n).CopyInv cfg where
  owned := owned_init
  lock := lockInv_init
  plain := fun _ _ => rfl
  events := fun _ _ _ => eventInv_init

/-! ### What nobody has any more -/

/-- A block that is allocated, and no port's. -/
def DataState.Lost (s : DataState n) (l : Loc) : Prop :=
  s.heap.Live l ∧ ∀ p, l ∉ (s.ports p).blocks

/-- Nothing finds it again. -/
theorem lost_next (ho : s.Owned) (he : (dataMachine cfg codec).Enabled s a) (hl : s.Lost l) :
    (DataState.next cfg codec s a).Lost l := by
  cases ht : s.target a with
  | none =>
    obtain ⟨hh, hp⟩ := untargeted_next cfg codec ht
    refine ⟨by simpa [hh] using hl.1, fun p => ?_⟩
    rcases hp p with hp | ⟨-, hp⟩ <;> rw [hp]
    · exact hl.2 p
    · exact hl.2 p
  | some q =>
    obtain ⟨htr, hother⟩ := target_transfer ho he ht
    refine ⟨htr.keeps.live hl.1 (hl.2 q), fun p hp => ?_⟩
    by_cases hpq : p = q
    · subst hpq
      rcases htr.source l hp with hin | hfresh
      · exact hl.2 p hin
      · have hlive := hl.1
        simp [Heap.Live, hfresh] at hlive
    · rw [hother p hpq] at hp
      exact hl.2 p hp

/-- What an action loses hold of is nobody's. -/
theorem dropped_lost (ho : s.Owned) (he : (dataMachine cfg codec).Enabled s a)
    (hl : l ∈ s.dropped cfg a) : (DataState.next cfg codec s a).Lost l := by
  cases a with
  | prepare q dq grow =>
    simp only [DataState.dropped] at hl
    split at hl
    · rename_i hq
      have hown : l ∈ (s.ports q).blocks := by
        simp only [PortData.blocks]
        exact List.mem_append_right _ (List.mem_append_left _ hl)
      have hr : s.prepared cfg codec q dq grow =
          prepareEventOutput (clearDmabuf (s.ports q)) dq := by
        simp [DataState.prepared, preparePort, hq.1, hq.2]
      refine ⟨(ho.owns q).live l hown, fun p hp => ?_⟩
      by_cases hpq : p = q
      · subst hpq
        have hnodup := (ho.owns p).nodup
        have hblocks : ((DataState.next cfg codec s (.prepare p dq grow)).ports p).blocks =
            (s.ports p).pushedData.toList ++ (s.ports p).deliveredData.toList ++
              eventBlocks (s.ports p).deliveringEvents := by
          simp only [DataState.next, Function.update_self, hr]
          unfold prepareEventOutput
          split <;> rfl
        rw [hblocks] at hp
        simp only [PortData.blocks] at hnodup
        obtain ⟨-, hevents, hapart⟩ := List.nodup_append.mp hnodup
        rcases List.mem_append.mp hp with hp | hp
        · exact hapart l hp l (List.mem_append_left _ hl) rfl
        · exact (List.nodup_append.mp hevents).2.2 l hl l hp rfl
      · have hother := (target_transfer ho he (p := q) rfl).2 p hpq
        rw [hother] at hp
        exact ho.disjoint p q hpq hp hown
    · simp at hl
  | _ => simp [DataState.dropped] at hl

/-- Of the blocks of a port that an action works on, none stays allocated but those the port has
after it, and what is dropped. -/
theorem target_clean (hi : s.CopyInv cfg) (he : (dataMachine cfg codec).Enabled s a)
    (ht : s.target a = some p) :
    Clean s.heap (s.ports p).blocks (DataState.next cfg codec s a).heap
      (s.dropped cfg a ++ ((DataState.next cfg codec s a).ports p).blocks) := by
  have hmore : ∀ {h' : Heap Bytes} {ls : List Loc}, Clean s.heap (s.ports p).blocks h' ls →
      Clean s.heap (s.ports p).blocks h' (s.dropped cfg a ++ ls) := by
    intro h' ls hc l hl
    exact (hc l hl).imp_left fun hin => List.mem_append_right _ hin
  rcases target_cases ht with ⟨grown, blk, c, rfl, hl⟩ | ⟨e, grown, blk, rfl⟩ |
    ⟨dq, grow, rfl⟩ | rfl
  · refine hmore ?_
    simp only [DataState.next, hl, DataState.setPort, Function.update_self]
    cases c with
    | data c => exact stagePortData_clean c blk
    | event e => exact stageEvent_clean e grown
  · refine hmore ?_
    simp only [DataState.next, DataState.setPort, Function.update_self]
    exact pushOutputEvent_clean codec e grown
  · obtain ⟨ts, gs, hws, -, -, hperm⟩ := prepared_copies hi dq grow he
    obtain ⟨hts, hgs⟩ := List.append_eq_nil_iff.mp hws.symm
    rw [List.map_eq_nil_iff] at hts hgs
    rw [hts, hgs, List.append_nil, List.nil_append] at hperm
    have hdata := preparePort_dataBlocks codec (cfg p) (s.ports p) s.phase.staged dq grow
    simp only [DataState.next, Function.update_self]
    refine .of_subset ?_
    intro l hin
    rw [blocks_eq] at hin ⊢
    rcases List.mem_append.mp hin with hin | hin
    · exact List.mem_append_right _ (List.mem_append_left _ (hdata.mem_iff.mp hin))
    · rcases List.mem_append.mp (hperm.mem_iff.mp hin) with hd | hc
      · exact List.mem_append_left _ hd
      · exact List.mem_append_right _ (List.mem_append_right _ hc)
  · refine hmore ?_
    simp only [DataState.next, DataState.setPort, Function.update_self]
    exact finishPort_clean codec _ _ _ _ _

/-- Every block that is allocated is a port's, or lost. -/
def DataState.Accounted (s : DataState n) (lost : List Loc) : Prop :=
  ∀ l, s.heap.Live l → l ∈ lost ∨ ∃ p, l ∈ (s.ports p).blocks

theorem accounted_next {lost : List Loc} (hi : s.CopyInv cfg)
    (he : (dataMachine cfg codec).Enabled s a) (h : s.Accounted lost) :
    (DataState.next cfg codec s a).Accounted (lost ++ s.dropped cfg a) := by
  intro l hlive
  cases ht : s.target a with
  | none =>
    obtain ⟨hheap, hports⟩ := untargeted_next cfg codec ht
    rw [hheap] at hlive
    rcases h l hlive with hl | ⟨q, hq⟩
    · exact Or.inl (List.mem_append_left _ hl)
    · refine Or.inr ⟨q, ?_⟩
      rcases hports q with hp | ⟨-, hp⟩ <;> rw [hp]
      · exact hq
      · exact hq
  | some p =>
    have hother := (target_transfer hi.owned he ht).2
    rcases target_clean hi he ht l hlive with hin | ⟨hold, hn⟩
    · rcases List.mem_append.mp hin with hd | hb
      · exact Or.inl (List.mem_append_right _ hd)
      · exact Or.inr ⟨p, hb⟩
    · rcases h l hold with hl | ⟨q, hq⟩
      · exact Or.inl (List.mem_append_left _ hl)
      · have hqp : q ≠ p := by
          rintro rfl
          exact hn hq
        refine Or.inr ⟨q, ?_⟩
        rw [hother q hqp]
        exact hq

/-! ### The ledger of a run -/

/-- The copies somebody has, or nobody any more. -/
def DataState.Out (s : DataState n) (lost : List Loc) (l : Loc) : Prop :=
  l ∈ lost ∨ ∃ p, l ∈ (s.ports p).copies

theorem copies_subset (p : PortData) : p.copies ⊆ p.blocks :=
  List.subset_append_right _ _

/-- The entries of an action keep the ledger. -/
theorem tracks_next {ws : List (Entry Loc)} {lost : List Loc} (hi : s.CopyInv cfg)
    (he : (dataMachine cfg codec).Enabled s a) (hlost : ∀ l ∈ lost, s.Lost l)
    (h : Tracks ws (s.Out lost)) :
    Tracks (ws ++ s.copyEntries cfg codec a)
      ((DataState.next cfg codec s a).Out (lost ++ s.dropped cfg a)) := by
  have hlive : ∀ l, s.Out lost l → s.heap.Live l := by
    rintro l (hl | ⟨p, hl⟩)
    · exact (hlost l hl).1
    · exact (hi.owned.owns p).live l (copies_subset _ hl)
  cases ht : s.target a with
  | none =>
    obtain ⟨hws, hds, hcopies⟩ := untargeted_copies cfg codec ht
    rw [hws, hds, List.append_nil, List.append_nil]
    exact h.congr fun l => by simp [DataState.Out, hcopies]
  | some p =>
    obtain ⟨ts, gs, hws, hnodup, hfresh, hperm⟩ := target_copies hi he ht
    have hother := (target_transfer hi.owned he ht).2
    have hnew : ∀ l ∈ ts, ¬ s.Out lost l := by
      intro l hl hout
      have hlive := hlive l hout
      simp [Heap.Live, hfresh l hl] at hlive
    -- what the port had and what it made, each once
    have hall : ((s.ports p).copies ++ ts).Nodup := by
      refine List.nodup_append.mpr ⟨?_, hnodup, ?_⟩
      · exact (hi.owned.owns p).nodup.sublist (List.sublist_append_right _ _)
      · rintro l hl k hk rfl
        exact hnew l hk (Or.inr ⟨p, hl⟩)
    have hmem : ∀ l, (l ∈ (s.ports p).copies ∨ l ∈ ts) ↔ (l ∈ gs ∨ l ∈ s.dropped cfg a) ∨
        l ∈ ((DataState.next cfg codec s a).ports p).copies := by
      intro l
      have hiff := hperm.mem_iff (a := l)
      simpa only [List.mem_append] using hiff
    obtain ⟨hgs, -, hgsnew⟩ := List.nodup_append.mp (hperm.nodup_iff.mp hall)
    obtain ⟨hgs, -, hgsds⟩ := List.nodup_append.mp hgs
    -- what is freed the port had, or just made
    have hown : ∀ l ∈ gs, l ∈ (s.ports p).copies ∨ l ∈ ts := fun l hl =>
      (hmem l).mpr (Or.inl (Or.inl hl))
    have hfreed : ∀ l ∈ gs, s.Out lost l ∨ l ∈ ts := fun l hl =>
      (hown l hl).imp_left fun hp => Or.inr ⟨p, hp⟩
    have hkept : ∀ q, q ≠ p → ∀ l ∈ (s.ports q).copies, l ∉ gs := by
      intro q hq l hl hg
      rcases hown l hg with hp | hts
      · exact hi.owned.disjoint q p hq (copies_subset _ hl) (copies_subset _ hp)
      · exact hnew l hts (Or.inr ⟨q, hl⟩)
    have hlostgs : ∀ l ∈ lost, l ∉ gs := by
      intro l hl hg
      rcases hown l hg with hp | hts
      · exact (hlost l hl).2 p (copies_subset _ hp)
      · exact hnew l hts (Or.inl hl)
    rw [hws, ← List.append_assoc]
    refine ((h.took hnodup hnew).gave hgs hfreed).congr fun l => ?_
    constructor
    · rintro (hl | ⟨q, hq⟩)
      · rcases List.mem_append.mp hl with hl | hl
        · exact ⟨Or.inl (Or.inl hl), hlostgs l hl⟩
        · refine ⟨?_, fun hg => hgsds l hg l hl rfl⟩
          exact ((hmem l).mpr (Or.inl (Or.inr hl))).imp_left fun hp => Or.inr ⟨p, hp⟩
      · by_cases hqp : q = p
        · subst hqp
          refine ⟨?_, fun hg => hgsnew l (List.mem_append_left _ hg) l hq rfl⟩
          exact ((hmem l).mpr (Or.inr hq)).imp_left fun hp => Or.inr ⟨q, hp⟩
        · rw [hother q hqp] at hq
          exact ⟨Or.inl (Or.inr ⟨q, hq⟩), hkept q hqp l hq⟩
    · rintro ⟨hl, hng⟩
      have hport : l ∈ (s.ports p).copies ∨ l ∈ ts →
          (DataState.next cfg codec s a).Out (lost ++ s.dropped cfg a) l := by
        intro hp
        rcases (hmem l).mp hp with (hg | hd) | hn
        · exact absurd hg hng
        · exact Or.inl (List.mem_append_right _ hd)
        · exact Or.inr ⟨p, hn⟩
      rcases hl with (hl | ⟨q, hq⟩) | hl
      · exact Or.inl (List.mem_append_left _ hl)
      · by_cases hqp : q = p
        · subst hqp
          exact hport (Or.inl hq)
        · refine Or.inr ⟨q, ?_⟩
          rw [hother q hqp]
          exact hq
      · exact hport (Or.inr hl)

/-- What `pwf_filter_destroy` frees is what the ports have. -/
theorem destroyEntries_eq (hi : s.CopyInv cfg) :
    s.destroyEntries cfg = ((List.finRange n).flatMap fun p => (s.ports p).copies).map .gave := by
  rw [List.map_flatMap]
  refine congrArg (List.finRange n).flatMap (funext fun p => ?_)
  unfold freePortEntries
  split
  · rename_i hm
    rw [hi.plain p hm, List.map_nil]
  · rw [PortData.copies, List.map_append]

theorem portCopies_nodup (ho : s.Owned) :
    ((List.finRange n).flatMap fun p => (s.ports p).copies).Nodup := by
  refine List.nodup_flatMap.mpr ⟨?_, ?_⟩
  · intro p _
    exact (ho.owns p).nodup.sublist (List.sublist_append_right _ _)
  · refine (List.nodup_finRange n).imp fun {p q} hpq => ?_
    intro l hp hq
    exact ho.disjoint p q hpq (copies_subset _ hp) (copies_subset _ hq)

/-! ### While a callback runs -/

/-- A copy that is freed while a callback runs was made by the push that frees it. -/
theorem callback_frees (he : (dataMachine cfg codec).Enabled s a) (hc : s.phase = .callback)
    (hl : .gave l ∈ s.copyEntries cfg codec a) : s.heap.Fresh l := by
  cases a with
  | stage grown blk =>
    simp only [DataState.copyEntries] at hl
    split at hl
    · simp only [appendEntries] at hl
      split at hl
      · simp at hl
      · split at hl <;> simp at hl
    · simp at hl
  | pushOutput q e grown blk =>
    simp only [DataState.copyEntries, pushOutputEntries] at hl
    rcases appendEntries_cases (s.ports q) e grown he.2.2 with
      ⟨cap, hr, hws⟩ | ⟨h', cap, data, hr, -, hfresh, hws⟩
    · simp [hr, hws] at hl
    · rw [hr] at hl
      simp only [hws, List.mem_append] at hl
      rcases hl with hl | hl
      · simp at hl
      · split at hl
        · have hdata : l ∈ data.toList := by
            cases data with
            | none => simp [eventBlocks] at hl
            | some k => simpa [eventBlocks] using hl
          exact hfresh l hdata
        · simp at hl
  | finish q =>
    have hphase : s.phase = .finishing q := he
    simp [hc] at hphase
  | _ => simp [DataState.copyEntries] at hl

end TinyPipewire.Filter
