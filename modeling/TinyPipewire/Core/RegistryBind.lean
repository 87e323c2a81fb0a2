import TinyPipewire.Lib.Channel
import TinyPipewire.Core.Registry

/-!
# Binding the registry

`pwf_pw_registry_bind` adds a listener to the graph's registry and waits for a core
round-trip, which the server answers after the globals it has announced by then. It may
answer late, never, or with an error; what it sends arrives in the order it was sent, and the
registry's listener caches it as it comes.
-/

namespace TinyPipewire.Core

def ETIMEDOUT : Int := 110

/-- What a client asks of the server. -/
inductive CoreRequest
  | getRegistry
  | sync (seq : ℕ)
  deriving DecidableEq, Repr

/-- What the server tells a client. -/
inductive CoreEvent
  | global (id : UInt32) (g : Global)
  | globalRemove (id : UInt32)
  | done (seq : ℕ)
  | error (res : Int)
  deriving DecidableEq

/-- It is the registry's to tell, not the core's. -/
def CoreEvent.ofRegistry : CoreEvent → Bool
  | .global _ _ | .globalRemove _ => true
  | .done _ | .error _ => false

/-- The call of the registry's listener it is dispatched to. -/
def CoreEvent.toListener (allocs : Allocs) : CoreEvent → Option RegistryEvent
  | .global id g => some (.global id g allocs)
  | .globalRemove id => some (.globalRemove id)
  | .done _ | .error _ => none

/-- What the server told when the listener is called so. -/
def RegistryEvent.told : RegistryEvent → CoreEvent
  | .global id g _ => .global id g
  | .globalRemove id => .globalRemove id

/-- Where the call on the registry is: nowhere, or in `pwf_pw_core_sync_locked`, which
`pwf_pw_registry_bind` or another call waits in. -/
inductive SyncCall
  | idle
  | waiting (bind : Bool)
  deriving DecidableEq, Repr

/-- A registry with its connection, and the server at the other end. -/
structure BindState where
  /-- `reg->registry` is set, and its listener added. -/
  registry : Bool
  /-- `reg->nodes` and `reg->ports`. -/
  caches : Registry
  pendingSeq : ℕ
  syncDone : Bool
  connectResult : Int
  call : SyncCall
  nextSeq : ℕ
  /-- Asked, and not yet served. -/
  requests : List CoreRequest
  /-- Sent, and not yet dispatched. -/
  wire : List CoreEvent
  /-- The globals of the graph. -/
  graph : List (UInt32 × Global)
  /-- The server has served `getRegistry`. -/
  subscribed : Bool
  deriving DecidableEq

/-- An unbound registry, of a graph with these globals. -/
def BindState.init (graph : List (UInt32 × Global)) : BindState where
  registry := false
  caches := .zeroed
  pendingSeq := 0
  syncDone := false
  connectResult := 0
  call := .idle
  nextSeq := 0
  requests := []
  wire := []
  graph := graph
  subscribed := false

inductive BindAction
  /-- `pwf_pw_registry_bind`; `given` is whether `pw_core_get_registry` succeeds. -/
  | bindEnter (given : Bool)
  /-- `pwf_pw_registry_sync`, or another wait for a round-trip. -/
  | syncEnter
  /-- The wait is over: the answer is there, or the deadline passed. -/
  | resume (timedOut : Bool)
  /-- The loop thread takes an event; `allocs` are the allocations of the listener. -/
  | dispatch (allocs : Allocs)
  | serve
  | serverError (res : Int)
  | globalAdded (id : UInt32) (g : Global)
  | globalRemoved (id : UInt32)
  deriving DecidableEq

inductive BindOut
  | listening
  | requested (seq : ℕ)
  | sent (e : CoreEvent)
  | dispatched (e : CoreEvent) (allocs : Allocs)
  | completed (seq : ℕ)
  | returned (bind : Bool) (res : Int)
  deriving DecidableEq

namespace BindState

variable (s : BindState)

/-- `pwf_pw_core_sync_locked`, up to its wait. -/
def requestSync (bind : Bool) : BindState :=
  { s with
    requests := s.requests ++ [.sync s.nextSeq]
    pendingSeq := s.nextSeq
    nextSeq := s.nextSeq + 1
    syncDone := false
    connectResult := 0
    call := .waiting bind }

/-- `pwf_pw_registry_bind`, up to its wait. -/
def bindEnter (given : Bool) : BindState × List BindOut :=
  if s.registry = true then (s, [.returned true 0])
  else if given = false then (s, [.returned true (-1)])
  else
    let t : BindState := { s with registry := true, requests := s.requests ++ [.getRegistry] }
    (t.requestSync true, [.listening, .requested s.nextSeq])

/-- `pwf_pw_registry_sync`, up to its wait. -/
def syncEnter : BindState × List BindOut :=
  if s.registry = false then (s, [.returned false (-1)])
  else (s.requestSync false, [.requested s.nextSeq])

/-- What `pwf_pw_core_sync_locked` returns when its wait is over. -/
def syncResult (timedOut : Bool) : Int := if timedOut = true then -ETIMEDOUT else s.connectResult

/-- The rest of the call. -/
def resume (timedOut : Bool) : BindState × List BindOut :=
  match s.call with
  | .idle => (s, [])
  | .waiting bind =>
    let res := s.syncResult timedOut
    ({ s with call := .idle },
      (if res = 0 then [.completed s.pendingSeq] else []) ++ [.returned bind res])

/-- `pwf_pw_core_on_done`. -/
def onDone (seq : ℕ) : BindState := if seq = s.pendingSeq then { s with syncDone := true } else s

/-- `pwf_pw_core_on_error`. -/
def onError (res : Int) : BindState :=
  { s with connectResult := if res < 0 then res else -1, syncDone := true }

/-- The loop thread dispatches an event; the core's are listened to only while a call
waits. -/
def dispatchEvent (e : CoreEvent) (allocs : Allocs) : BindState :=
  match e with
  | .global id g => { s with caches := s.caches.on (.global id g allocs) }
  | .globalRemove id => { s with caches := s.caches.on (.globalRemove id) }
  | .done seq => if s.call = .idle then s else s.onDone seq
  | .error res => if s.call = .idle then s else s.onError res

/-- The server serves a request. -/
def serveRequest (r : CoreRequest) : BindState × List CoreEvent :=
  match r with
  | .getRegistry => ({ s with subscribed := true }, s.graph.map fun g => .global g.1 g.2)
  | .sync seq => (s, [.done seq])

/-- The server sends what it has to tell. -/
def send (es : List CoreEvent) : BindState × List BindOut :=
  ({ s with wire := s.wire ++ es }, es.map .sent)

/-- What the action does, and what is seen of it. -/
def step : BindAction → BindState × List BindOut
  | .bindEnter given => s.bindEnter given
  | .syncEnter => s.syncEnter
  | .resume timedOut => s.resume timedOut
  | .dispatch allocs =>
    match s.wire with
    | [] => (s, [])
    | e :: wire => ({ s with wire := wire }.dispatchEvent e allocs, [.dispatched e allocs])
  | .serve =>
    match s.requests with
    | [] => (s, [])
    | r :: requests =>
      let t := { s with requests := requests }.serveRequest r
      t.1.send t.2
  | .serverError res => s.send [.error res]
  | .globalAdded id g =>
    { s with graph := s.graph ++ [(id, g)] }.send
      (if s.subscribed = true then [.global id g] else [])
  | .globalRemoved id =>
    { s with graph := s.graph.eraseP fun g => g.1 == id }.send
      (if s.subscribed = true then [.globalRemove id] else [])

/-- The action can be taken now. -/
def Enabled : BindAction → Prop
  | .bindEnter _ | .syncEnter => s.call = .idle
  | .resume timedOut => s.call ≠ .idle ∧ (timedOut = true ∨ s.syncDone = true)
  | .dispatch _ => s.wire ≠ []
  | .serve => s.requests ≠ []
  | .serverError _ | .globalAdded _ _ | .globalRemoved _ => True

instance : DecidablePred s.Enabled
  | .bindEnter _ | .syncEnter => inferInstanceAs (Decidable (_ = _))
  | .resume _ => inferInstanceAs (Decidable (_ ≠ _ ∧ (_ ∨ _)))
  | .dispatch _ => inferInstanceAs (Decidable (_ ≠ _))
  | .serve => inferInstanceAs (Decidable (_ ≠ _))
  | .serverError _ | .globalAdded _ _ | .globalRemoved _ => inferInstanceAs (Decidable True)

end BindState

/-- A client with one registry, and its server. -/
def bindMachine : Machine BindState BindAction BindOut where
  Enabled := BindState.Enabled
  next := fun s a => (s.step a).1
  out := fun s a => (s.step a).2

instance (s : BindState) (a : BindAction) : Decidable (bindMachine.Enabled s a) :=
  inferInstanceAs (Decidable (s.Enabled a))

/-! ### What a bind promises -/

def sentEvent : BindOut → Option CoreEvent
  | .sent e => some e
  | _ => none

def dispatchedEvent : BindOut → Option CoreEvent
  | .dispatched e _ => some e
  | _ => none

def heardEvent : BindOut → Option RegistryEvent
  | .dispatched e allocs => e.toListener allocs
  | _ => none

theorem sentEvent_eq {w : BindOut} {e : CoreEvent} (h : sentEvent w = some e) : w = .sent e := by
  unfold sentEvent at h
  split at h
  · rw [Option.some.inj h]
  · cases h

/-- What the registry's listener was called with. -/
def heard (ws : List BindOut) : List RegistryEvent := ws.filterMap heardEvent

/-- What the server told of the graph. -/
def announced (ws : List BindOut) : List CoreEvent :=
  (ws.filterMap sentEvent).filter CoreEvent.ofRegistry

/-- Round-trip `seq` was requested with the listener added. -/
def RequestedListening (ws : List BindOut) (seq : ℕ) : Prop :=
  ∃ us vs, ws = us ++ .listening :: vs ∧ .requested seq ∈ vs

/-- A round-trip requested with the listener added has completed, and the listener was called
with all that was told of the graph before it was answered, in that order. -/
def Delivered (ws : List BindOut) : Prop :=
  ∃ us seq vs, ws = us ++ .sent (.done seq) :: vs ∧ RequestedListening us seq ∧
    .completed seq ∈ vs ∧ announced us <+: (heard ws).map RegistryEvent.told

/-- The caches hold every node and port that was announced and is not removed since, if there
was memory for it. -/
def Registry.Holds (reg : Registry) (events : List RegistryEvent) : Prop :=
  ∀ pre id g post, events = pre ++ .global id g .all :: post → .globalRemove id ∉ post →
    (∀ e ∈ g.node id, e ∈ reg.nodes) ∧ ∀ e ∈ g.port id, e ∈ reg.ports

/-- Such a round-trip has completed, and the caches are what the listener made of all it was
called with. -/
structure Enumerated (ws : List BindOut) (reg : Registry) : Prop where
  delivered : Delivered ws
  listened : reg = registryAfter (heard ws)
  holds : reg.Holds (heard ws)

/-- A bind returns 0 from the action, with no such round-trip behind it. -/
def BindState.BindsUnseen (s : BindState) (ws : List BindOut) (a : BindAction) : Prop :=
  .returned true 0 ∈ (s.step a).2 ∧ ¬ Enumerated (ws ++ (s.step a).2) (s.step a).1.caches

/-- When a bind is called with the registry set, an earlier bind or sync has returned 0. -/
def BindsAnswered (graph : List (UInt32 × Global)) (xs : List BindAction) : Prop :=
  ∀ ys given zs, xs = ys ++ .bindEnter given :: zs →
    (bindMachine.exec (.init graph) ys).registry = true →
      ∃ bind, .returned bind 0 ∈ bindMachine.outs (.init graph) ys

/-! ### What the caches hold -/

section Caches

variable {reg : Registry} {event : RegistryEvent} {events : List RegistryEvent}

/-- Only the removal of its id takes an entry out of the caches. -/
theorem on_keeps :
    (∀ e ∈ reg.nodes, event ≠ .globalRemove e.id → e ∈ (reg.on event).nodes) ∧
      ∀ e ∈ reg.ports, event ≠ .globalRemove e.id → e ∈ (reg.on event).ports := by
  cases event with
  | global id g allocs =>
    obtain ⟨hnodes, hports⟩ := onGlobal_adds reg id g allocs
    constructor
    · intro e he _
      rcases hnodes with hsame | ⟨_, _, hnew⟩
      · exact hsame ▸ he
      · exact hnew ▸ List.mem_append_left _ he
    · intro e he _
      rcases hports with hsame | ⟨_, _, hnew⟩
      · exact hsame ▸ he
      · exact hnew ▸ List.mem_append_left _ he
  | globalRemove id =>
    constructor
    · intro e he hne
      refine SwapRemove.swapRemove_keeps ?_ he
      simpa using fun hid => hne (by rw [hid])
    · intro e he hne
      refine SwapRemove.swapRemove_keeps ?_ he
      simpa using fun hid => hne (by rw [hid])

theorem registryAfter_holds (events : List RegistryEvent) :
    (registryAfter events).Holds events := by
  induction events using List.reverseRecOn with
  | nil =>
    intro pre id g post h
    simp at h
  | append_singleton events event ih =>
    intro pre id g post h hkept
    rw [registryAfter_concat]
    rcases List.eq_nil_or_concat post with rfl | ⟨rest, last, rfl⟩
    · obtain ⟨-, hlast⟩ := List.append_inj' h rfl
      obtain rfl := (List.cons.inj hlast).1
      obtain ⟨hnodes, hports⟩ := onGlobal_entries (registryAfter events) id g
      constructor
      · intro e he
        rw [Registry.on, hnodes]
        exact List.mem_append_right _ (by simpa using he)
      · intro e he
        rw [Registry.on, hports]
        exact List.mem_append_right _ (by simpa using he)
    · have hsplit : events ++ [event] = (pre ++ .global id g .all :: rest) ++ [last] := by
        simpa using h
      obtain ⟨hevents, hlast⟩ := List.append_inj' hsplit rfl
      obtain rfl := (List.cons.inj hlast).1
      obtain ⟨hrest, hnot⟩ : .globalRemove id ∉ rest ∧ .globalRemove id ≠ event := by
        simpa using hkept
      obtain ⟨hnodes, hports⟩ := ih pre id g rest hevents hrest
      constructor
      · intro e he
        refine on_keeps.1 e (hnodes e he) ?_
        rw [Global.node_id he]
        exact hnot.symm
      · intro e he
        refine on_keeps.2 e (hports e he) ?_
        rw [Global.port_id he]
        exact hnot.symm

end Caches

/-! ### What the client knows -/

variable {s : BindState} {a : BindAction} {ws vs : List BindOut} {seq : ℕ}

theorem heard_append : heard (ws ++ vs) = heard ws ++ heard vs := List.filterMap_append

/-- The listener is called with what is dispatched of the registry's events. -/
theorem heard_told (ws : List BindOut) : (heard ws).map RegistryEvent.told =
    (ws.filterMap dispatchedEvent).filter CoreEvent.ofRegistry := by
  induction ws with
  | nil => rfl
  | cons w ws ih =>
    cases w with
    | dispatched e allocs =>
      cases e with
      | global id g => exact congrArg (CoreEvent.global id g :: ·) ih
      | globalRemove id => exact congrArg (CoreEvent.globalRemove id :: ·) ih
      | done seq | error res => exact ih
    | _ => exact ih

theorem RequestedListening.append (h : RequestedListening ws seq) :
    RequestedListening (ws ++ vs) seq := by
  obtain ⟨us, rest, rfl, hmem⟩ := h
  exact ⟨us, rest ++ vs, by simp, List.mem_append_left _ hmem⟩

theorem requestedListening_last (h : .listening ∈ ws) :
    RequestedListening (ws ++ [.requested seq]) seq := by
  obtain ⟨us, rest, rfl⟩ := List.append_of_mem h
  exact ⟨us, rest ++ [.requested seq], by simp, by simp⟩

/-- Every answer of the server is to a request made with the listener added. -/
def Answers (ws : List BindOut) : Prop :=
  ∀ us seq vs, ws = us ++ .sent (.done seq) :: vs → RequestedListening us seq

theorem Answers.append (h : Answers ws)
    (hvs : ∀ seq, .sent (.done seq) ∈ vs → RequestedListening ws seq) :
    Answers (ws ++ vs) := by
  intro us seq rest hsplit
  rcases List.append_eq_append_iff.mp hsplit with ⟨ts, rfl, hrest⟩ | ⟨ts, hws, hrest⟩
  · exact (hvs seq (by rw [hrest]; simp)).append
  · cases ts with
    | nil =>
      have hmem : BindOut.sent (.done seq) ∈ [] ++ vs := by
        rw [← hrest]
        exact List.mem_cons_self
      rw [List.append_nil] at hws
      rw [← hws]
      exact hvs seq hmem
    | cons t ts =>
      obtain ⟨rfl, -⟩ := List.cons.inj hrest
      exact h us seq ts hws

theorem Delivered.append (h : Delivered ws) : Delivered (ws ++ vs) := by
  obtain ⟨us, seq, rest, hws, hreq, hdone, hall⟩ := h
  refine ⟨us, seq, rest ++ vs, by simp [hws], hreq, List.mem_append_left _ hdone, ?_⟩
  rw [heard_append, List.map_append]
  exact hall.trans (List.prefix_append _ _)

/-- What the client knows of its round-trips and of the graph, from what was seen. -/
structure BindState.Inv (ws : List BindOut) (s : BindState) : Prop where
  fifo : Channel.Fifo sentEvent dispatchedEvent ws s.wire
  listening : s.registry = true → .listening ∈ ws
  asked : ∀ seq, .sync seq ∈ s.requests → RequestedListening ws seq
  answers : Answers ws
  pending : s.call ≠ .idle → s.syncDone = true → s.connectResult = 0 →
    .done s.pendingSeq ∈ ws.filterMap dispatchedEvent
  caches : s.caches = registryAfter (heard ws)

theorem inv_init {graph : List (UInt32 × Global)} : (BindState.init graph).Inv [] where
  fifo := Channel.Fifo.nil
  listening := by simp [BindState.init]
  asked := by simp [BindState.init]
  answers := by simp [Answers]
  pending := by simp [BindState.init]
  caches := rfl

/-- An observation of the client's own calls. -/
def BindOut.isCall : BindOut → Bool
  | .listening | .requested _ | .completed _ | .returned _ _ => true
  | .sent _ | .dispatched _ _ => false

theorem isCall_unsent {w : BindOut} (h : w.isCall = true) :
    sentEvent w = none ∧ dispatchedEvent w = none ∧ heardEvent w = none := by
  cases w with
  | sent e => simp [BindOut.isCall] at h
  | dispatched e allocs => simp [BindOut.isCall] at h
  | _ => exact ⟨rfl, rfl, rfl⟩

/-- A step of a call, which the server does not see. -/
theorem BindState.Inv.call {t : BindState} (h : s.Inv ws) (hvs : ∀ w ∈ vs, w.isCall = true)
    (hwire : t.wire = s.wire) (hcaches : t.caches = s.caches)
    (hlist : t.registry = true → s.registry = true ∨ .listening ∈ vs)
    (hasked : ∀ seq, .sync seq ∈ t.requests → RequestedListening (ws ++ vs) seq)
    (hpending : t.call ≠ .idle → t.syncDone = true → t.connectResult = 0 →
      .done t.pendingSeq ∈ ws.filterMap dispatchedEvent) :
    t.Inv (ws ++ vs) where
  fifo := by
    rw [hwire]
    refine h.fifo.other (List.filterMap_eq_nil_iff.mpr fun w hw => ?_)
      (List.filterMap_eq_nil_iff.mpr fun w hw => ?_)
    · exact (isCall_unsent (hvs w hw)).1
    · exact (isCall_unsent (hvs w hw)).2.1
  listening := by
    intro hr
    rw [List.mem_append]
    exact (hlist hr).imp_left h.listening
  asked := hasked
  answers := h.answers.append fun seq hmem => absurd (hvs _ hmem) (by simp [BindOut.isCall])
  pending := by
    intro hc hd hr
    rw [List.filterMap_append]
    exact List.mem_append_left _ (hpending hc hd hr)
  caches := by
    have hnone : heard vs = [] :=
      List.filterMap_eq_nil_iff.mpr fun w hw => (isCall_unsent (hvs w hw)).2.2
    rw [hcaches, h.caches, heard_append, hnone, List.append_nil]

theorem inv_bindEnter {given : Bool} (hc : s.call = .idle) (h : s.Inv ws) :
    (s.bindEnter given).1.Inv (ws ++ (s.bindEnter given).2) := by
  unfold BindState.bindEnter
  split
  · exact h.call (by simp [BindOut.isCall]) rfl rfl Or.inl (fun seq hs => (h.asked seq hs).append)
      (fun hn => absurd hc hn)
  · split
    · exact h.call (by simp [BindOut.isCall]) rfl rfl Or.inl
        (fun seq hs => (h.asked seq hs).append) (fun hn => absurd hc hn)
    · refine h.call (by simp [BindOut.isCall]) rfl rfl (fun _ => Or.inr (by simp)) ?_
        (by simp [BindState.requestSync])
      intro seq hs
      simp only [BindState.requestSync, List.mem_append, List.mem_singleton, reduceCtorEq,
        or_false, CoreRequest.sync.injEq] at hs
      rcases hs with hs | rfl
      · exact (h.asked seq hs).append
      · exact ⟨ws, [.requested s.nextSeq], rfl, by simp⟩

theorem inv_syncEnter (hc : s.call = .idle) (h : s.Inv ws) :
    s.syncEnter.1.Inv (ws ++ s.syncEnter.2) := by
  unfold BindState.syncEnter
  split
  · exact h.call (by simp [BindOut.isCall]) rfl rfl Or.inl (fun seq hs => (h.asked seq hs).append)
      (fun hn => absurd hc hn)
  · rename_i hr
    refine h.call (by simp [BindOut.isCall]) rfl rfl Or.inl ?_ (by simp [BindState.requestSync])
    intro seq hs
    simp only [BindState.requestSync, List.mem_append, List.mem_singleton,
      CoreRequest.sync.injEq] at hs
    rcases hs with hs | rfl
    · exact (h.asked seq hs).append
    · exact requestedListening_last (h.listening (by simpa using hr))

theorem inv_resume {timedOut : Bool} (he : s.Enabled (.resume timedOut)) (h : s.Inv ws) :
    (s.resume timedOut).1.Inv (ws ++ (s.resume timedOut).2) := by
  unfold BindState.resume
  split
  · rename_i hc
    exact absurd hc he.1
  · refine h.call ?_ rfl rfl Or.inl (fun seq hs => (h.asked seq hs).append) (by simp)
    intro w hw
    rcases List.mem_append.mp hw with hw | hw
    · split at hw
      · obtain rfl := List.mem_singleton.mp hw
        rfl
      · cases hw
    · obtain rfl := List.mem_singleton.mp hw
      rfl

/-- The answer a call found was dispatched, and with it all that was sent before it. -/
theorem delivered_completed (h : s.Inv ws) (hd : .done seq ∈ ws.filterMap dispatchedEvent)
    (hvs : .completed seq ∈ vs) : Delivered (ws ++ vs) := by
  obtain ⟨us, w, rest, hws, hw, hbefore⟩ := h.fifo.before hd
  obtain rfl := sentEvent_eq hw
  refine ⟨us, seq, rest ++ vs, by simp [hws], h.answers us seq rest hws,
    List.mem_append_right _ hvs, ?_⟩
  have htold : announced us <+: (heard ws).map RegistryEvent.told := by
    rw [heard_told]
    exact hbefore.filter _
  rw [heard_append, List.map_append]
  exact htold.trans (List.prefix_append _ _)

/-- A wait that ends with 0 found its answer. -/
theorem syncResult_zero {timedOut : Bool} (he : s.Enabled (.resume timedOut))
    (hr : s.syncResult timedOut = 0) : s.syncDone = true ∧ s.connectResult = 0 := by
  cases timedOut with
  | true => simp [BindState.syncResult, ETIMEDOUT] at hr
  | false => exact ⟨he.2.resolve_left (by simp), by simpa [BindState.syncResult] using hr⟩

/-- What the server sends is on the wire; its answers are to what it was asked. -/
theorem inv_send {t : BindState} {es : List CoreEvent} (h : s.Inv ws) (hwire : t.wire = s.wire)
    (hclient : t.registry = s.registry ∧ t.caches = s.caches ∧ t.call = s.call ∧
      t.pendingSeq = s.pendingSeq ∧ t.syncDone = s.syncDone ∧
      t.connectResult = s.connectResult)
    (hreq : ∀ r ∈ t.requests, r ∈ s.requests)
    (hes : ∀ seq, .done seq ∈ es → .sync seq ∈ s.requests) :
    (t.send es).1.Inv (ws ++ (t.send es).2) := by
  obtain ⟨hregistry, hcaches, hcall, hseq, hsync, hres⟩ := hclient
  have hgot : (es.map BindOut.sent).filterMap dispatchedEvent = [] := by
    refine List.filterMap_eq_nil_iff.mpr fun w hw => ?_
    obtain ⟨e, -, rfl⟩ := List.mem_map.mp hw
    rfl
  constructor
  · have hsent : (es.map BindOut.sent).filterMap sentEvent = es := by
      rw [List.filterMap_map]
      simp [Function.comp_def, sentEvent]
    have hfifo := h.fifo.send hgot
    rw [hsent] at hfifo
    simpa [BindState.send, hwire] using hfifo
  · intro hr
    exact List.mem_append_left _ (h.listening (hregistry.symm.trans hr))
  · intro seq hs
    exact (h.asked seq (hreq _ hs)).append
  · refine h.answers.append fun seq hs => ?_
    obtain ⟨e, he, hse⟩ := List.mem_map.mp hs
    obtain rfl := BindOut.sent.inj hse
    exact h.asked seq (hes seq he)
  · intro hc hd hr
    have hold := h.pending (by rwa [← hcall]) (hsync.symm.trans hd) (hres.symm.trans hr)
    rw [← hseq] at hold
    rw [List.filterMap_append]
    exact List.mem_append_left _ hold
  · have hnone : heard (es.map BindOut.sent) = [] := by
      refine List.filterMap_eq_nil_iff.mpr fun w hw => ?_
      obtain ⟨e, -, rfl⟩ := List.mem_map.mp hw
      rfl
    change t.caches = registryAfter (heard (ws ++ es.map BindOut.sent))
    rw [hcaches, h.caches, heard_append, hnone, List.append_nil]

/-- The loop thread's handlers touch the caches and the wait, and nothing else. -/
theorem dispatchEvent_frame (s : BindState) (e : CoreEvent) (allocs : Allocs) :
    (s.dispatchEvent e allocs).wire = s.wire ∧
      (s.dispatchEvent e allocs).registry = s.registry ∧
      (s.dispatchEvent e allocs).requests = s.requests ∧
      (s.dispatchEvent e allocs).call = s.call ∧
      (s.dispatchEvent e allocs).pendingSeq = s.pendingSeq := by
  cases e with
  | global id g | globalRemove id => exact ⟨rfl, rfl, rfl, rfl, rfl⟩
  | done seq =>
    simp only [BindState.dispatchEvent, BindState.onDone]
    split
    · exact ⟨rfl, rfl, rfl, rfl, rfl⟩
    · split <;> exact ⟨rfl, rfl, rfl, rfl, rfl⟩
  | error res =>
    simp only [BindState.dispatchEvent, BindState.onError]
    split <;> exact ⟨rfl, rfl, rfl, rfl, rfl⟩

/-- A wait is over with 0 only by its own answer. -/
theorem dispatchEvent_done {e : CoreEvent} {allocs : Allocs}
    (hd : (s.dispatchEvent e allocs).syncDone = true)
    (hr : (s.dispatchEvent e allocs).connectResult = 0) :
    (s.syncDone = true ∧ s.connectResult = 0) ∨ e = .done s.pendingSeq := by
  cases e with
  | global id g | globalRemove id => exact Or.inl ⟨hd, hr⟩
  | done seq =>
    simp only [BindState.dispatchEvent, BindState.onDone] at hd hr
    split at hd
    · rename_i hc
      exact Or.inl ⟨hd, by simpa [hc] using hr⟩
    · split at hd
      · rename_i hseq
        exact Or.inr (by rw [hseq])
      · rename_i hc hseq
        exact Or.inl ⟨hd, by simpa [hc, hseq] using hr⟩
  | error res =>
    simp only [BindState.dispatchEvent, BindState.onError] at hd hr
    split at hr
    · rename_i hc
      exact Or.inl ⟨by simpa [hc] using hd, hr⟩
    · dsimp only at hr
      split at hr <;> omega

/-- The registry's events go to its listener, and the core's do not. -/
theorem dispatchEvent_caches (s : BindState) (e : CoreEvent) (allocs : Allocs) :
    (s.dispatchEvent e allocs).caches =
      (e.toListener allocs).toList.foldl Registry.on s.caches := by
  cases e with
  | global id g | globalRemove id => rfl
  | done seq =>
    simp only [BindState.dispatchEvent, BindState.onDone]
    split
    · rfl
    · split <;> rfl
  | error res =>
    simp only [BindState.dispatchEvent, BindState.onError]
    split <;> rfl

theorem inv_dispatch {e : CoreEvent} {wire : List CoreEvent} {allocs : Allocs} {t : BindState}
    (hwire : s.wire = e :: wire) (ht : t = { s with wire := wire }) (h : s.Inv ws) :
    (t.dispatchEvent e allocs).Inv (ws ++ [.dispatched e allocs]) := by
  obtain ⟨hw, hreg, hrequests, hcall, hseq⟩ := dispatchEvent_frame t e allocs
  have htw : t.wire = wire := by rw [ht]
  constructor
  · rw [hw, htw]
    have hfifo := h.fifo
    rw [hwire] at hfifo
    exact hfifo.deliver rfl rfl
  · intro hr
    rw [hreg, ht] at hr
    exact List.mem_append_left _ (h.listening hr)
  · intro seq hs
    rw [hrequests, ht] at hs
    exact (h.asked seq hs).append
  · refine h.answers.append fun seq hs => ?_
    simp at hs
  · intro hc hd hr
    rw [hcall, ht] at hc
    rw [hseq, List.filterMap_append]
    rcases dispatchEvent_done hd hr with ⟨hd, hr⟩ | rfl
    · subst ht
      exact List.mem_append_left _ (h.pending hc hd hr)
    · exact List.mem_append_right _ (by simp [dispatchedEvent])
  · have hnew : heard [.dispatched e allocs] = (e.toListener allocs).toList := by
      simp only [heard, List.filterMap_cons, heardEvent, List.filterMap_nil]
      cases e.toListener allocs <;> rfl
    have hcaches : t.caches = registryAfter (heard ws) := by
      rw [ht]
      exact h.caches
    rw [dispatchEvent_caches, hcaches, heard_append, hnew, registryAfter, registryAfter,
      List.foldl_append]

theorem inv_next (he : s.Enabled a) (h : s.Inv ws) :
    (s.step a).1.Inv (ws ++ (s.step a).2) := by
  cases a with
  | bindEnter given => exact inv_bindEnter he h
  | syncEnter => exact inv_syncEnter he h
  | resume timedOut => exact inv_resume he h
  | dispatch allocs =>
    simp only [BindState.step]
    split
    · rename_i hw
      exact absurd hw he
    · rename_i e wire hw
      exact inv_dispatch hw rfl h
  | serve =>
    simp only [BindState.step]
    split
    · rename_i hr
      exact absurd hr he
    · rename_i r requests hr
      cases r with
      | getRegistry =>
        refine inv_send h rfl ⟨rfl, rfl, rfl, rfl, rfl, rfl⟩ ?_ ?_
        · intro r hmem
          rw [hr]
          exact List.mem_cons_of_mem _ hmem
        · simp [BindState.serveRequest]
      | sync seq =>
        refine inv_send h rfl ⟨rfl, rfl, rfl, rfl, rfl, rfl⟩ ?_ ?_
        · intro r hmem
          rw [hr]
          exact List.mem_cons_of_mem _ hmem
        · intro seq' hmem
          obtain rfl : seq' = seq := by simpa [BindState.serveRequest] using hmem
          simp [hr]
  | serverError res =>
    exact inv_send h rfl ⟨rfl, rfl, rfl, rfl, rfl, rfl⟩ (fun _ hr => hr) (by simp)
  | globalAdded id g =>
    refine inv_send h rfl ⟨rfl, rfl, rfl, rfl, rfl, rfl⟩ (fun _ hr => hr) ?_
    split <;> simp
  | globalRemoved id =>
    refine inv_send h rfl ⟨rfl, rfl, rfl, rfl, rfl, rfl⟩ (fun _ hr => hr) ?_
    split <;> simp

variable {graph : List (UInt32 × Global)} {xs ys zs : List BindAction}

theorem inv_run (h : bindMachine.Valid (.init graph) xs) :
    (bindMachine.exec (.init graph) xs).Inv (bindMachine.outs (.init graph) xs) :=
  Machine.history (P := fun ws s => s.Inv ws) inv_init (fun _ _ _ he h => inv_next he h) h

/-! ### Binds that return 0 -/

/-- What a call returns 0 from: a registry it found set, or its wait. -/
theorem returned_zero {bind : Bool} (h : .returned bind 0 ∈ (s.step a).2) :
    (∃ given, a = .bindEnter given ∧ s.registry = true) ∨
      ∃ timedOut, a = .resume timedOut ∧ s.syncResult timedOut = 0 := by
  cases a with
  | bindEnter given =>
    left
    refine ⟨given, rfl, ?_⟩
    by_contra hr
    cases given <;> simp [BindState.step, BindState.bindEnter, hr] at h
  | syncEnter =>
    simp only [BindState.step, BindState.syncEnter] at h
    split at h <;> simp at h
  | resume timedOut =>
    right
    simp only [BindState.step, BindState.resume] at h
    split at h
    · simp at h
    · refine ⟨timedOut, rfl, ?_⟩
      rcases List.mem_append.mp h with h | h
      · split at h <;> simp at h
      · exact ((BindOut.returned.inj (List.mem_singleton.mp h)).2).symm
  | dispatch allocs =>
    simp only [BindState.step] at h
    split at h <;> simp at h
  | serve =>
    simp only [BindState.step] at h
    split at h <;> simp [BindState.send] at h
  | serverError res | globalAdded id g | globalRemoved id =>
    simp [BindState.step, BindState.send] at h

/-- The wait that a round-trip completes returns 0 to the call. -/
theorem completed_step (h : .completed seq ∈ (s.step a).2) :
    ∃ bind, .returned bind 0 ∈ (s.step a).2 := by
  cases a with
  | resume timedOut =>
    simp only [BindState.step, BindState.resume] at h ⊢
    split at h
    · simp at h
    · rename_i bind hc
      rcases List.mem_append.mp h with h | h
      · split at h
        · rename_i hres
          exact ⟨bind, by simp [hres]⟩
        · cases h
      · simp at h
  | bindEnter given =>
    simp only [BindState.step, BindState.bindEnter] at h
    split at h
    · simp at h
    · split at h <;> simp at h
  | syncEnter =>
    simp only [BindState.step, BindState.syncEnter] at h
    split at h <;> simp at h
  | dispatch allocs =>
    simp only [BindState.step] at h
    split at h <;> simp at h
  | serve =>
    simp only [BindState.step] at h
    split at h <;> simp [BindState.send] at h
  | serverError res | globalAdded id g | globalRemoved id =>
    simp [BindState.step, BindState.send] at h

/-- A round-trip that completed has returned 0 to some call. -/
theorem completed_run (h : bindMachine.Valid (.init graph) xs)
    (hmem : .completed seq ∈ bindMachine.outs (.init graph) xs) :
    ∃ bind, .returned bind 0 ∈ bindMachine.outs (.init graph) xs := by
  have hall := Machine.history (M := bindMachine) (s := .init graph)
    (P := fun ws _ => .completed seq ∈ ws → ∃ bind, .returned bind 0 ∈ ws) (by simp) ?_ h
  · exact hall hmem
  · intro ws s a _ ih hnew
    rcases List.mem_append.mp hnew with hold | hnew
    · obtain ⟨bind, hret⟩ := ih hold
      exact ⟨bind, List.mem_append_left _ hret⟩
    · obtain ⟨bind, hret⟩ := completed_step hnew
      exact ⟨bind, List.mem_append_right _ hret⟩

theorem BindsAnswered.before (h : BindsAnswered graph (ys ++ zs)) : BindsAnswered graph ys := by
  rintro us given vs rfl
  exact h us given (vs ++ zs) (by simp)

/-- While every bind that finds the registry set comes after a call that returned 0, the first
such call had its round-trip completed. -/
theorem delivered_of_returned (h : bindMachine.Valid (.init graph) xs)
    (hanswered : BindsAnswered graph xs) {bind : Bool}
    (hret : .returned bind 0 ∈ bindMachine.outs (.init graph) xs) :
    Delivered (bindMachine.outs (.init graph) xs) := by
  refine Machine.run_induction (M := bindMachine) (s := .init graph)
    (P := fun ys => BindsAnswered graph ys →
      (∃ bind, .returned bind 0 ∈ bindMachine.outs (.init graph) ys) →
        Delivered (bindMachine.outs (.init graph) ys)) ?_ ?_ h hanswered ⟨bind, hret⟩
  · rintro - ⟨bind, hret⟩
    cases hret
  · rintro ys a hys ha ih hans ⟨bind, hret⟩
    have hout : bindMachine.outs (.init graph) (ys ++ [a]) = bindMachine.outs (.init graph) ys ++
        ((bindMachine.exec (.init graph) ys).step a).2 := Machine.outs_concat
    rw [hout] at hret ⊢
    rcases List.mem_append.mp hret with hold | hnew
    · exact (ih hans.before ⟨bind, hold⟩).append
    · rcases returned_zero hnew with ⟨given, rfl, hr⟩ | ⟨timedOut, rfl, hres⟩
      · exact (ih hans.before (hans ys given [] rfl hr)).append
      · have hinv := inv_run hys
        obtain ⟨hdone, hzero⟩ := syncResult_zero ha hres
        refine delivered_completed hinv (hinv.pending ha.1 hdone hzero) ?_
        simp only [BindState.step, BindState.resume]
        split
        · rename_i hidle
          exact absurd hidle ha.1
        · simp [hres]

/-- Through a run every bind that returns 0 has the graph enumerated, exactly if no bind finds
the registry set that no call has returned 0 for. -/
theorem bind_enumerates_iff (h : bindMachine.Valid (.init graph) xs) :
    (∀ ys a zs, xs = ys ++ a :: zs →
        ¬ (bindMachine.exec (.init graph) ys).BindsUnseen
          (bindMachine.outs (.init graph) ys) a) ↔ BindsAnswered graph xs := by
  constructor
  · intro hnever ys given zs hxs hr
    by_contra hno
    have hstep : (bindMachine.exec (.init graph) ys).step (.bindEnter given) =
        (bindMachine.exec (.init graph) ys, [.returned true 0]) := by
      simp [BindState.step, BindState.bindEnter, hr]
    refine hnever ys _ zs hxs ⟨by simp [hstep], ?_⟩
    rintro ⟨⟨us, seq, vs, hws, -, hmem, -⟩, -, -⟩
    have hcompleted : .completed seq ∈ bindMachine.outs (.init graph) ys := by
      have hall : .completed seq ∈ bindMachine.outs (.init graph) ys ++
          ((bindMachine.exec (.init graph) ys).step (.bindEnter given)).2 := by
        rw [hws]
        simp [hmem]
      simpa [hstep] using hall
    subst hxs
    exact hno (completed_run (Machine.valid_append.mp h).1 hcompleted)
  · rintro hanswered ys a zs rfl ⟨hret, hunseen⟩
    have hsplit : ys ++ a :: zs = (ys ++ [a]) ++ zs := by simp
    rw [hsplit] at h hanswered
    have hya := (Machine.valid_append.mp h).1
    have hout : bindMachine.outs (.init graph) (ys ++ [a]) = bindMachine.outs (.init graph) ys ++
        ((bindMachine.exec (.init graph) ys).step a).2 := Machine.outs_concat
    have hinv := inv_run hya
    have hexec : bindMachine.exec (.init graph) (ys ++ [a]) =
        ((bindMachine.exec (.init graph) ys).step a).1 := Machine.exec_concat
    have hdelivered := delivered_of_returned hya hanswered.before
      (by rw [hout]; exact List.mem_append_right _ hret)
    rw [hout, hexec] at hinv
    rw [hout] at hdelivered
    refine hunseen ⟨hdelivered, hinv.caches, ?_⟩
    rw [hinv.caches]
    exact registryAfter_holds _

/-- A node of which nothing is told but its name. -/
def namedGlobal : Global := ⟨.node, some [(.nodeName, .ofChars ['m', 'i', 'c'])]⟩

/-- The server answers the first bind, and the second finds the registry. -/
theorem bind_enumerates_iff_answered :
    let xs : List BindAction := [.bindEnter true, .serve, .serve, .dispatch .all,
      .dispatch .all, .resume false, .bindEnter true]
    (∀ ys a zs, xs = ys ++ a :: zs →
        ¬ (bindMachine.exec (.init [(7, namedGlobal)]) ys).BindsUnseen
          (bindMachine.outs (.init [(7, namedGlobal)]) ys) a) ↔
      BindsAnswered [(7, namedGlobal)] xs :=
  bind_enumerates_iff (by decide)

/-- The first bind times out, and the second returns 0 with nothing of the graph seen. -/
theorem bind_after_timeout_unseen :
    let graph := [(7, namedGlobal)]
    let xs : List BindAction := [.bindEnter true, .resume true]
    let s := bindMachine.exec (.init graph) xs
    let ws := bindMachine.outs (.init graph) xs
    bindMachine.Valid (.init graph) (xs ++ [.bindEnter true]) ∧
      ws = [.listening, .requested 0, .returned true (-ETIMEDOUT)] ∧
      s.BindsUnseen ws (.bindEnter true) ∧ (s.step (.bindEnter true)).1.caches = .zeroed := by
  refine ⟨by decide, by decide, ⟨by decide, ?_⟩, by decide⟩
  rintro ⟨⟨us, seq, vs, hws, -, hmem, -⟩, -, -⟩
  have hout : bindMachine.outs (.init [(7, namedGlobal)]) [.bindEnter true, .resume true] ++
      ((bindMachine.exec (.init [(7, namedGlobal)]) [.bindEnter true, .resume true]).step
        (.bindEnter true)).2 =
        [.listening, .requested 0, .returned true (-ETIMEDOUT), .returned true 0] := by decide
  have hall : BindOut.completed seq ∈ us ++ .sent (.done seq) :: vs := by simp [hmem]
  rw [← hws, hout] at hall
  simp at hall

end TinyPipewire.Core
