import TinyPipewire.Lib.Machine
import TinyPipewire.Filter.Process
import Mathlib.Data.List.FinRange

/-!
# The data side of a filter

Pushes from any thread against the cycles of the data thread. A push takes
`push_lock`, stages and drops the lock; a cycle only tries it. A critical section is
one action, as nothing outside it touches what `push_lock` guards; between taking the
lock and staging, the rest of the filter goes on.
-/

namespace TinyPipewire.Filter

variable {n : ℕ}

/-- A push, as the application calls it. -/
inductive PushCall
  | data (c : PortPush)
  | event (e : PushedEvent)

def PushCall.accepts (cfg : PortConfig) : PushCall → Bool
  | .data c => pushPortDataAccepts cfg c
  | .event e => pushEventAccepts cfg e

/-- Who holds `push_lock`. -/
inductive PushLock (n : ℕ)
  | free
  | cycle
  | push (p : Fin n) (c : PushCall)

def PushLock.isFree : PushLock n → Bool
  | .free => true
  | _ => false

/-- Where the data thread is in `pwf_filter_on_process`: at port `i` of the first loop,
inside the callback, or at port `i` of the last loop. -/
inductive Phase
  | idle
  | preparing (staged : Bool) (i : ℕ)
  | callback
  | finishing (i : ℕ)
  deriving DecidableEq, Repr

/-- The cycle's own `staged`: whether its trylock succeeded. -/
def Phase.staged : Phase → Bool
  | .preparing staged _ => staged
  | _ => false

/-- The phase lies between the port's turns of the two loops. -/
def Phase.Within (p : Fin n) : Phase → Prop
  | .idle => False
  | .preparing _ i => p.val < i
  | .callback => True
  | .finishing i => i ≤ p.val

structure DataState (n : ℕ) where
  ports : Fin n → PortData
  heap : Heap Bytes
  lock : PushLock n
  phase : Phase
  buffers : Fin n → PortBuffer
  dequeued : Fin n → Option PwBuffer

/-- A filter whose ports were just added. -/
def DataState.init (n : ℕ) : DataState n where
  ports := fun _ => .zeroed
  heap := fun _ => none
  lock := .free
  phase := .idle
  buffers := fun _ => .empty
  dequeued := fun _ => none

inductive DataAction (n : ℕ)
  /-- A push is called: it is refused, or it takes `push_lock`. -/
  | push (p : Fin n) (c : PushCall)
  /-- The push holding the lock stages its data, drops the lock and returns. -/
  | stage (grown : Bool) (blk : Option Loc)
  /-- A push to an output event port, which takes no `push_lock`. -/
  | pushOutput (p : Fin n) (e : PushedEvent) (grown : Bool) (blk : Option Loc)
  /-- A cycle begins; `arrays` answers the allocation a filter of many ports needs. -/
  | beginCycle (staged arrays : Bool)
  | prepare (p : Fin n) (dq : Option PwBuffer) (grow : ℕ → Bool)
  | enterCallback
  /-- The callback writes `buffers[p].size`. -/
  | setSize (p : Fin n) (size : ℕ)
  | leaveCallback
  | finish (p : Fin n)
  | endCycle
  /-- `pwf_filter_stop` gives the held buffers back. -/
  | resetHold

inductive DataOut (n : ℕ)
  | pushLocked (p : Fin n) (c : PushCall)
  | pushReturned (p : Fin n) (c : PushCall) (r : PwfError)
  | dequeued (p : Fin n) (b : PwBuffer)
  | queued (p : Fin n) (b : PwBuffer) (published : Option SpaChunk)
  | presented (p : Fin n) (e : PortBuffer) (shown : Bytes) (origin : Origin)
  | presentedEvents (p : Fin n) (items : List EventItem) (origin : Origin)

/-- A push holds the lock, and the heap can give it this answer. -/
def PushLock.Answers (lock : PushLock n) (h : Heap Bytes) (ports : Fin n → PortData)
    (blk : Option Loc) : Prop :=
  match lock with
  | .push p (.data _) => Answer (h.Movable (ports p).pushedData) blk
  | .push _ (.event _) => Answer h.Fresh blk
  | _ => False

instance (lock : PushLock n) (h : Heap Bytes) (ports : Fin n → PortData) (blk : Option Loc) :
    Decidable (lock.Answers h ports blk) :=
  match lock with
  | .push p (.data _) =>
    inferInstanceAs (Decidable (Answer (h.Movable (ports p).pushedData) blk))
  | .push _ (.event _) => inferInstanceAs (Decidable (Answer h.Fresh blk))
  | .free => inferInstanceAs (Decidable False)
  | .cycle => inferInstanceAs (Decidable False)

/-- `PWF_FILTER_STACK_PORTS`. -/
def stackPorts : ℕ := 8

/-- The cycle returns before it touches a port: there is none, or no array for them. -/
def skipsCycle (n : ℕ) (arrays : Bool) : Bool :=
  decide (n = 0) || (decide (n > stackPorts) && !arrays)

namespace DataState

variable (cfg : Fin n → PortConfig) (codec : EventCodec) (s : DataState n)

/-- The critical section of the push that holds the lock. -/
def staged (p : Fin n) (c : PushCall) (grown : Bool) (blk : Option Loc) :
    Heap Bytes × PortData × PwfError :=
  match c with
  | .data c => stagePortData s.heap (s.ports p) c blk
  | .event e => stageEvent s.heap (s.ports p) e grown blk

def outputPushed (p : Fin n) (e : PushedEvent) (grown : Bool) (blk : Option Loc) :
    Heap Bytes × PortData × PwfError :=
  pushOutputEvent codec s.heap (s.ports p) e grown blk

def prepared (p : Fin n) (dq : Option PwBuffer) (grow : ℕ → Bool) : Prepared :=
  preparePort codec (cfg p) (s.ports p) s.phase.staged dq grow

def finished (p : Fin n) : Heap Bytes × PortData × Option SpaChunk :=
  finishPort codec (cfg p) s.heap (s.ports p) (s.buffers p) (s.dequeued p)

/-- One port's fields and the heap, replaced together. -/
def setPort (p : Fin n) (h : Heap Bytes) (q : PortData) : DataState n :=
  { s with heap := h, ports := Function.update s.ports p q }

def Enabled : DataAction n → Prop
  | .push p c =>
    c.accepts (cfg p) = false ∨ ((cfg p).direction = .input ∧ s.lock.isFree = true)
  | .stage _ blk => s.lock.Answers s.heap s.ports blk
  | .pushOutput p e _ blk =>
    pushEventAccepts (cfg p) e = true ∧ (cfg p).direction = .output ∧ Answer s.heap.Fresh blk
  | .beginCycle staged _ => s.phase = .idle ∧ (staged = true → s.lock.isFree = true)
  | .prepare p _ _ => s.phase = .preparing s.phase.staged p
  | .enterCallback => s.phase = .preparing s.phase.staged n
  | .setSize _ _ => s.phase = .callback
  | .leaveCallback => s.phase = .callback
  | .finish p => s.phase = .finishing p
  | .endCycle => s.phase = .finishing n
  | .resetHold => s.phase = .idle

def next : DataAction n → DataState n
  | .push p c => if c.accepts (cfg p) then { s with lock := .push p c } else s
  | .stage grown blk =>
    match s.lock with
    | .push p c =>
      { s.setPort p (s.staged p c grown blk).1 (s.staged p c grown blk).2.1 with lock := .free }
    | _ => s
  | .pushOutput p e grown blk =>
    s.setPort p (s.outputPushed codec p e grown blk).1 (s.outputPushed codec p e grown blk).2.1
  | .beginCycle staged arrays =>
    if skipsCycle n arrays then s
    else { s with phase := .preparing staged 0, lock := if staged then .cycle else s.lock }
  | .prepare p dq grow =>
    let r := s.prepared cfg codec p dq grow
    { s with
      ports := Function.update s.ports p r.port
      buffers := Function.update s.buffers p r.entry
      dequeued := Function.update s.dequeued p r.dequeued
      phase := .preparing s.phase.staged (p + 1) }
  | .enterCallback =>
    { s with phase := .callback, lock := if s.phase.staged then .free else s.lock }
  | .setSize p size =>
    { s with buffers := Function.update s.buffers p { s.buffers p with size := size } }
  | .leaveCallback => { s with phase := .finishing 0 }
  | .finish p =>
    { s.setPort p (s.finished cfg codec p).1 (s.finished cfg codec p).2.1 with
      dequeued := Function.update s.dequeued p none
      phase := .finishing (p + 1) }
  | .endCycle => { s with phase := .idle }
  | .resetHold => { s with ports := fun p => Filter.resetHold (s.ports p) }

def out : DataAction n → List (DataOut n)
  | .push p c =>
    if c.accepts (cfg p) then [.pushLocked p c] else [.pushReturned p c .invalidArg]
  | .stage grown blk =>
    match s.lock with
    | .push p c => [.pushReturned p c (s.staged p c grown blk).2.2]
    | _ => []
  | .pushOutput p e grown blk =>
    [.pushReturned p (.event e) (s.outputPushed codec p e grown blk).2.2]
  | .prepare p dq grow =>
    let r := s.prepared cfg codec p dq grow
    r.took.toList.map (.dequeued p ·) ++ r.released.toList.map (.queued p · none) ++
      if (cfg p).mediaType = .event then
        [.presentedEvents p (r.port.incomingEvents.map (·.item s.heap r.dequeued)) r.origin]
      else [.presented p r.entry (r.shown (cfg p) s.heap) r.origin]
  | .finish p =>
    (s.dequeued p).toList.map (.queued p · (s.finished cfg codec p).2.2)
  | .resetHold =>
    (List.finRange n).flatMap fun p => (s.ports p).held.toList.map (.queued p · none)
  | _ => []

end DataState

/-- The data side of a filter with the given ports. -/
def dataMachine (cfg : Fin n → PortConfig) (codec : EventCodec) :
    Machine (DataState n) (DataAction n) (DataOut n) where
  Enabled := DataState.Enabled cfg
  next := DataState.next cfg codec
  out := DataState.out cfg codec

instance (cfg : Fin n → PortConfig) (codec : EventCodec) (s : DataState n) :
    ∀ a, Decidable ((dataMachine cfg codec).Enabled s a)
  | .push _ _ => inferInstanceAs (Decidable (_ ∨ (_ ∧ _)))
  | .stage _ blk => inferInstanceAs (Decidable (s.lock.Answers s.heap s.ports blk))
  | .pushOutput _ _ _ _ => inferInstanceAs (Decidable (_ ∧ _ ∧ Answer _ _))
  | .beginCycle _ _ => inferInstanceAs (Decidable (_ ∧ (_ → _)))
  | .prepare _ _ _ => inferInstanceAs (Decidable (s.phase = _))
  | .enterCallback => inferInstanceAs (Decidable (s.phase = _))
  | .setSize _ _ => inferInstanceAs (Decidable (s.phase = _))
  | .leaveCallback => inferInstanceAs (Decidable (s.phase = _))
  | .finish _ => inferInstanceAs (Decidable (s.phase = _))
  | .endCycle => inferInstanceAs (Decidable (s.phase = _))
  | .resetHold => inferInstanceAs (Decidable (s.phase = _))

/-! ### What an action may emit -/

/-- Where an output comes from. -/
inductive DataState.Emits (cfg : Fin n → PortConfig) (s : DataState n) :
    DataAction n → DataOut n → Prop
  | locked (q : Fin n) (c : PushCall) : Emits cfg s (.push q c) (.pushLocked q c)
  | refused (q : Fin n) (c : PushCall) : Emits cfg s (.push q c) (.pushReturned q c .invalidArg)
  | staged (grown : Bool) (blk : Option Loc) {q : Fin n} {c : PushCall} (r : PwfError)
    (hk : s.lock = .push q c) : Emits cfg s (.stage grown blk) (.pushReturned q c r)
  | pushedOutput (q : Fin n) (e : PushedEvent) (grown : Bool) (blk : Option Loc) (r : PwfError) :
    Emits cfg s (.pushOutput q e grown blk) (.pushReturned q (.event e) r)
  | took (q : Fin n) (dq : Option PwBuffer) (grow : ℕ → Bool) (b : PwBuffer) :
    Emits cfg s (.prepare q dq grow) (.dequeued q b)
  | released (q : Fin n) (dq : Option PwBuffer) (grow : ℕ → Bool) (b : PwBuffer) :
    Emits cfg s (.prepare q dq grow) (.queued q b none)
  | presented (q : Fin n) (dq : Option PwBuffer) (grow : ℕ → Bool) (e : PortBuffer)
    (shown : Bytes) (o : Origin) (hm : (cfg q).mediaType ≠ .event) :
    Emits cfg s (.prepare q dq grow) (.presented q e shown o)
  | presentedEvents (q : Fin n) (dq : Option PwBuffer) (grow : ℕ → Bool)
    (items : List EventItem) (o : Origin) (hm : (cfg q).mediaType = .event) :
    Emits cfg s (.prepare q dq grow) (.presentedEvents q items o)
  | finished (q : Fin n) (b : PwBuffer) (c : Option SpaChunk) :
    Emits cfg s (.finish q) (.queued q b c)
  | reset (q : Fin n) (b : PwBuffer) : Emits cfg s .resetHold (.queued q b none)

theorem out_emits {cfg : Fin n → PortConfig} {codec : EventCodec} {s : DataState n}
    {a : DataAction n} {w : DataOut n} (h : w ∈ DataState.out cfg codec s a) :
    s.Emits cfg a w := by
  cases a with
  | push q c =>
    simp only [DataState.out] at h
    split at h
    · obtain rfl := List.mem_singleton.mp h
      exact .locked q c
    · obtain rfl := List.mem_singleton.mp h
      exact .refused q c
  | stage grown blk =>
    simp only [DataState.out] at h
    split at h
    · rename_i q c hk
      obtain rfl := List.mem_singleton.mp h
      exact .staged grown blk _ hk
    · simp at h
  | pushOutput q e grown blk =>
    obtain rfl := List.mem_singleton.mp h
    exact .pushedOutput q e grown blk _
  | prepare q dq grow =>
    rcases List.mem_append.mp h with h | h
    · rcases List.mem_append.mp h with h | h
      · obtain ⟨b, -, rfl⟩ := List.mem_map.mp h
        exact .took q dq grow b
      · obtain ⟨b, -, rfl⟩ := List.mem_map.mp h
        exact .released q dq grow b
    · split at h
      · rename_i hm
        obtain rfl := List.mem_singleton.mp h
        exact .presentedEvents q dq grow _ _ hm
      · rename_i hm
        obtain rfl := List.mem_singleton.mp h
        exact .presented q dq grow _ _ _ hm
  | finish q =>
    obtain ⟨b, -, rfl⟩ := List.mem_map.mp h
    exact .finished q b _
  | resetHold =>
    obtain ⟨q, -, h⟩ := List.mem_flatMap.mp h
    obtain ⟨b, -, rfl⟩ := List.mem_map.mp h
    exact .reset q b
  | beginCycle | enterCallback | setSize | leaveCallback | endCycle => cases h

/-- A fold of the outputs that skips every one of them. -/
theorem filterMap_out_nil {β : Type} {cfg : Fin n → PortConfig} {codec : EventCodec}
    {s : DataState n} {a : DataAction n} {f : DataOut n → Option β}
    (h : ∀ w, s.Emits cfg a w → f w = none) :
    (DataState.out cfg codec s a).filterMap f = [] :=
  List.filterMap_eq_nil_iff.mpr fun w hw => h w (out_emits hw)

/-- A port's turn of the first loop emits the buffer it took, the one it released and what it
presents. -/
theorem filterMap_prepare {β : Type} (f : DataOut n → Option β) (cfg : Fin n → PortConfig)
    (codec : EventCodec) (s : DataState n) (p : Fin n) (dq : Option PwBuffer) (grow : ℕ → Bool) :
    (DataState.out cfg codec s (.prepare p dq grow)).filterMap f =
      let r := s.prepared cfg codec p dq grow
      r.took.toList.filterMap (fun b => f (.dequeued p b)) ++
        r.released.toList.filterMap (fun b => f (.queued p b none)) ++
        List.filterMap f [if (cfg p).mediaType = .event then
            .presentedEvents p (r.port.incomingEvents.map (·.item s.heap r.dequeued)) r.origin
          else .presented p r.entry (r.shown (cfg p) s.heap) r.origin] := by
  have hsplit : ∀ (c : Prop) [Decidable c] (x y : DataOut n),
      (if c then [x] else [y]) = [if c then x else y] := by
    intro c _ x y
    split <;> rfl
  simp only [DataState.out, hsplit, List.filterMap_append, List.filterMap_map]
  rfl

/-! ### The lock and the phase -/

/-- The push holding the lock passed its checks on an input port, and a cycle that is
past its trylock holds it until the callback. -/
structure DataState.LockInv (cfg : Fin n → PortConfig) (s : DataState n) : Prop where
  accepted : ∀ q c, s.lock = .push q c →
    c.accepts (cfg q) = true ∧ (cfg q).direction = .input
  cycle : s.phase.staged = true → s.lock = .cycle

theorem lockInv_next {cfg : Fin n → PortConfig} {codec : EventCodec} {s : DataState n}
    {a : DataAction n} (he : (dataMachine cfg codec).Enabled s a) (hl : s.LockInv cfg) :
    (DataState.next cfg codec s a).LockInv cfg := by
  obtain ⟨hacc, hcyc⟩ := hl
  cases a with
  | push r d =>
    by_cases hc : d.accepts (cfg r)
    · rcases he with he | he
      · simp [hc] at he
      · constructor
        · intro q c hq
          obtain ⟨rfl, rfl⟩ : r = q ∧ d = c := by simpa [DataState.next, hc] using hq
          exact ⟨hc, he.1⟩
        · intro hs
          have hk := hcyc (by simpa [DataState.next, hc] using hs)
          simp [hk, PushLock.isFree] at he
    · simpa [DataState.next, hc] using DataState.LockInv.mk hacc hcyc
  | stage grown blk =>
    cases hk : s.lock with
    | push q c =>
      constructor
      · simp [DataState.next, hk]
      · intro hs
        have hc := hcyc (by simpa [DataState.next, hk, DataState.setPort] using hs)
        simp [hk] at hc
    | _ => simpa [DataState.next, hk] using DataState.LockInv.mk hacc hcyc
  | beginCycle staged arrays =>
    by_cases hc : skipsCycle n arrays
    · simpa [DataState.next, hc] using DataState.LockInv.mk hacc hcyc
    · cases staged
      · constructor
        · simpa [DataState.next, hc] using hacc
        · simp [DataState.next, hc, Phase.staged]
      · constructor <;> simp [DataState.next, hc]
  | prepare q dq grow => exact ⟨hacc, fun hs => hcyc hs⟩
  | enterCallback =>
    constructor
    · intro q c hq
      cases hs : s.phase.staged
      · exact hacc q c (by simpa [DataState.next, hs] using hq)
      · simp [DataState.next, hs] at hq
    · simp [DataState.next, Phase.staged]
  | leaveCallback | finish | endCycle => exact ⟨hacc, by simp [DataState.next, Phase.staged]⟩
  | pushOutput | setSize | resetHold => exact ⟨hacc, hcyc⟩

theorem lockInv_init {cfg : Fin n → PortConfig} : (DataState.init n).LockInv cfg :=
  ⟨by simp [DataState.init], by simp [DataState.init, Phase.staged]⟩

/-- A port's turn of the first loop is where the cycle comes to it, and its turn of the
last loop where the cycle is done with it. -/
theorem within_next {cfg : Fin n → PortConfig} {codec : EventCodec} {s : DataState n}
    {a : DataAction n} (he : (dataMachine cfg codec).Enabled s a) (p : Fin n) :
    (DataState.next cfg codec s a).phase.Within p ↔
      (s.phase.Within p ∧ a ≠ .finish p) ∨ ∃ dq grow, a = .prepare p dq grow := by
  cases a with
  | push q c => by_cases hc : c.accepts (cfg q) <;> simp [DataState.next, hc]
  | stage grown blk => cases hl : s.lock <;> simp [DataState.next, hl, DataState.setPort]
  | beginCycle staged arrays =>
    have hi : s.phase = .idle := he.1
    by_cases hc : skipsCycle n arrays <;> simp [DataState.next, hc, hi, Phase.Within]
  | prepare q dq grow =>
    have hq : s.phase = .preparing s.phase.staged q := he
    rw [hq]
    simp [DataState.next, Phase.Within, Fin.ext_iff]
    omega
  | enterCallback =>
    have hq : s.phase = .preparing s.phase.staged n := he
    rw [hq]
    simp [DataState.next, Phase.Within]
  | leaveCallback =>
    have hq : s.phase = .callback := he
    simp [DataState.next, Phase.Within, hq]
  | finish q =>
    have hq : s.phase = .finishing q := he
    simp [DataState.next, Phase.Within, hq, Fin.ext_iff]
    omega
  | endCycle =>
    have hq : s.phase = .finishing n := he
    simp [DataState.next, Phase.Within, hq]
  | pushOutput | setSize | resetHold => simp [DataState.next, DataState.setPort]

/-- Nothing but the two loops moves the cycle past a port. -/
theorem not_within_of_prepare {cfg : Fin n → PortConfig} {codec : EventCodec}
    {s : DataState n} {p : Fin n} {dq : Option PwBuffer} {grow : ℕ → Bool}
    (he : (dataMachine cfg codec).Enabled s (.prepare p dq grow)) : ¬ s.phase.Within p := by
  have hq : s.phase = .preparing s.phase.staged p := he
  rw [hq]
  simp [Phase.Within]

/-! ### Small filters for concrete runs -/

/-- An input event port. -/
def eventInput : PortConfig := ⟨.input, .event, false, false⟩

/-- A codec for runs in which the graph carries no events. -/
def silentCodec : EventCodec := ⟨fun _ _ => [], fun _ => []⟩

/-- A buffer of one block, mapped at `data`, or not mapped at all. -/
def graphBuffer (pool id : ℕ) (data : Option ℕ) : PwBuffer :=
  ⟨id, pool, [⟨.memFd, 3, 0, 64, data, [], some ⟨0, 0, 0⟩⟩], none⟩

end TinyPipewire.Filter
