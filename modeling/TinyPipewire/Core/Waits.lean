import Mathlib.Data.Fintype.Sum
import TinyPipewire.Lib.RankedLocks

/-!
# What calls wait for

Each call, each event of a loop and each cycle is given as the locks it takes and what it waits
for, in order, with its outcomes in the argument. A call that returns at its first checks, and a
setter that takes no lock, wait for nothing and are left out. A callback for the log calls nothing.
-/

namespace TinyPipewire.Waits

open RankedLocks (Op)

/-- What a thread may have that others wait for, for each of `n` handles or once. -/
inductive Place (n : ℕ)
  /-- The thread of the loop is at work. -/
  | thread (h : Fin n)
  /-- `pw_thread_loop_lock`. -/
  | loop (h : Fin n)
  /-- The data thread is in a cycle. -/
  | cycle (h : Fin n)
  /-- `filter->push_lock`. -/
  | push (h : Fin n)
  /-- `g_pw_init_mutex`. -/
  | init
  /-- `g_lock` of the log. -/
  | log
  deriving DecidableEq

/-- The loop's lock alone can be taken again by the thread that has it. -/
def Place.recursive {n : ℕ} : Place n → Bool
  | .loop _ => true
  | _ => false

/-- What is done under the loop lock. -/
inductive LoopTurn
  /-- `pw_thread_loop_timed_wait_full`, until it is signalled or it is late. -/
  | wait
  /-- A PipeWire call on the node, which may have to find its data thread between cycles. -/
  | node
  | log
  deriving DecidableEq

inductive Turn
  /-- From `pw_thread_loop_lock` to `pw_thread_loop_unlock`. -/
  | loop (ts : List LoopTurn)
  /-- A call on the node without the loop lock. -/
  | node
  | push
  | init
  | log
  /-- `pw_thread_loop_stop`. -/
  | stopThread
  deriving DecidableEq

section Ops

variable {n : ℕ} (h : Fin n)

def LoopTurn.ops : LoopTurn → List (Op (Place n))
  | .wait => [.wait (.loop h), .wake (.loop h)]
  | .node => [.join (.cycle h)]
  | .log => [.lock .log, .unlock .log]

/-- What is done with the loop's lock. -/
def locked (ops : List (Op (Place n))) : List (Op (Place n)) :=
  .lock (.loop h) :: (ops ++ [.unlock (.loop h)])

def Turn.ops : Turn → List (Op (Place n))
  | .loop ts => locked h (ts.flatMap (LoopTurn.ops h))
  | .node => [.join (.cycle h)]
  | .push => [.lock (.push h), .unlock (.push h)]
  | .init => [.lock .init, .unlock .init]
  | .log => [.lock .log, .unlock .log]
  | .stopThread => [.join (.thread h)]

end Ops

/-- Where a call comes from: outside of the handle's own callbacks, from its loop's thread, from
its cycle, or from the error callback that a format setter runs on the thread it was called on. -/
inductive Caller
  | outside
  | dispatch
  | cycle
  | setter
  deriving DecidableEq

/-- `pwf_filter_refuse_in_callback` and `pwf_stream_refuse_in_callback`. The thread that called a
setter is neither of the handle's own. -/
def refused (who : Caller) (loopThreadToo : Bool) : Bool :=
  who == .cycle || (loopThreadToo && who == .dispatch)

def logIf (b : Bool) : List Turn := if b then [.log] else []

/-! ### The connection and the registry -/

/-- How often a thread wakes, and whether what it waits for has come in time. -/
structure Await where
  wakes : ℕ
  ok : Bool
  deriving DecidableEq, Repr

def Await.turns (w : Await) : List LoopTurn := List.replicate w.wakes .wait

structure ConnectTry where
  loopNew : Bool
  loopStart : Bool
  contextNew : Bool
  contextConnect : Bool
  answer : Await
  deriving DecidableEq, Repr

/-- `pwf_pw_core_connect`, and whether it returns 0. -/
def pwfPwCoreConnect (t : ConnectTry) : List Turn × Bool :=
  if !t.loopNew || !t.loopStart then ([.log], false)
  else if !t.contextNew || !t.contextConnect then ([.loop [], .log], false)
  else (.loop t.answer.turns :: logIf !t.answer.ok, t.answer.ok)

/-- `pwf_filter_teardown` and `pwf_stream_teardown`, where there is a loop and a node. -/
def pwfTeardown (loop node : Bool) : List Turn :=
  (if loop && node then [.loop [.node]] else if node then [.node] else []) ++
    if loop then [.stopThread] else []

structure BindTry where
  /-- There is a registry already. -/
  bound : Bool
  registryNew : Bool
  answer : Await
  deriving DecidableEq, Repr

/-- `pwf_pw_registry_bind`, and whether it returns 0. -/
def pwfPwRegistryBind (t : BindTry) : List Turn × Bool :=
  if t.bound then ([], true)
  else if !t.registryNew then ([.loop [], .log], false)
  else (.loop t.answer.turns :: logIf !t.answer.ok, t.answer.ok)

/-- `pwf_pw_registry_sync`. -/
def pwfPwRegistrySync (answer : Await) : List Turn := [.loop answer.turns]

structure FormatsTry where
  bind : BindTry
  found : Bool
  nodeBound : Bool
  answer : Await
  deriving DecidableEq, Repr

/-- `pwf_pw_enum_video_formats`. -/
def pwfPwEnumVideoFormats (t : FormatsTry) : List Turn :=
  if !t.nodeBound then [.loop [], .log] else .loop t.answer.turns :: logIf !t.answer.ok

/-- `pwf_filter_get_target_video_formats` and `pwf_stream_get_target_video_formats`; a stream may
have no target to ask. -/
def pwfGetTargetVideoFormats (who : Caller) (named : Bool) (t : FormatsTry) : List Turn :=
  let (ts, ok) := pwfPwRegistryBind t.bind
  if refused who true then [.log]
  else if !named then []
  else if !ok then ts
  else if !t.found then ts ++ [.log]
  else ts ++ pwfPwEnumVideoFormats t

/-! ### A filter's calls -/

structure FilterTry where
  calloc : Bool
  /-- There is no name, or it is copied. -/
  named : Bool
  connect : ConnectTry
  filterNew : Bool
  deriving DecidableEq, Repr

/-- `pwf_filter_create`. -/
def pwfFilterCreate (t : FilterTry) : List Turn :=
  let (ts, ok) := pwfPwCoreConnect t.connect
  if !t.calloc || !t.named then [.init, .init]
  else if !ok then .init :: (ts ++ pwfTeardown t.connect.loopNew false ++ [.init])
  else if !t.filterNew then
    .init :: (ts ++ [.loop [.node], .log] ++ pwfTeardown true false ++ [.init])
  else .init :: (ts ++ [.loop [.node]])

/-- `pwf_filter_add_port_common`, where it is reached. -/
def pwfFilterAddPort (reached : Bool) : List Turn := if reached then [.loop [.node]] else []

/-- `pwf_filter_start`; `ports` is whether there are any. -/
def pwfFilterStart (who : Caller) (ports connected : Bool) : List Turn :=
  if refused who false then [.log]
  else if !ports then []
  else .loop [.node] :: logIf !connected

/-- `pwf_filter_release_all_links`. -/
def pwfFilterReleaseAllLinks : List Turn := [.loop []]

/-- A flush, and the wait until it is drained. -/
def drainTurns (drain : Bool) (drained : Await) : List LoopTurn :=
  if drain then .node :: (drained.turns ++ if drained.ok then [] else [.log]) else []

/-- `pwf_filter_stop`. -/
def pwfFilterStop (who : Caller) (running drain : Bool) (drained : Await) : List Turn :=
  if refused who drain then [.log]
  else if !running then []
  else .loop (drainTurns drain drained ++ [.node]) :: pwfFilterReleaseAllLinks

/-- `pwf_filter_destroy`. -/
def pwfFilterDestroy (who : Caller) (running : Bool) : List Turn :=
  if refused who true then [.log]
  else
    (if running then pwfFilterStop who running false ⟨0, true⟩ else pwfFilterReleaseAllLinks) ++
      [.loop []] ++ pwfTeardown true true ++ [.init]

/-- `pwf_filter_push_port_data`, of data that a port takes. -/
def pwfFilterPushPortData (grown : Bool) : List Turn := .push :: logIf !grown

/-- `pwf_filter_port_push_event`, of an event that a port takes. -/
def pwfFilterPortPushEvent (who : Caller) (input : Bool) : List Turn :=
  if input then [.push] else if who == .cycle then [] else [.loop []]

structure LinkTry where
  /-- The filter runs, and the port has no link. -/
  ready : Bool
  bind : BindTry
  /-- The round-trips until the target's ports are there. -/
  targetSyncs : List Await
  /-- It has several of them. -/
  several : Bool
  found : Bool
  /-- The round-trips until the filter's own port is there. -/
  ownSyncs : List Await
  own : Bool
  propsNew : Bool
  created : Bool
  negotiated : Await
  deriving DecidableEq, Repr

/-- `pwf_filter_port_link`. -/
def pwfFilterPortLink (who : Caller) (t : LinkTry) : List Turn :=
  let (ts, ok) := pwfPwRegistryBind t.bind
  let resolved := ts ++ t.targetSyncs.flatMap pwfPwRegistrySync ++ logIf t.several
  let known := resolved ++ t.ownSyncs.flatMap pwfPwRegistrySync
  if refused who true then [.log]
  else if !t.ready then []
  else if !ok then ts
  else if !t.found then resolved ++ [.log]
  else if !t.own then known ++ [.log]
  else if !t.propsNew then known
  else if !t.created then known ++ [.loop [], .log]
  else known ++ .loop t.negotiated.turns :: logIf !t.negotiated.ok

/-- `pwf_filter_port_unlink`. -/
def pwfFilterPortUnlink (who : Caller) (linked : Bool) : List Turn :=
  if refused who false then [.log] else if linked then [.loop []] else []

/-! ### A stream's calls -/

structure StreamTry where
  calloc : Bool
  connect : ConnectTry
  deriving DecidableEq, Repr

/-- `pwf_stream_alloc`. -/
def pwfStreamAlloc (t : StreamTry) : List Turn :=
  let (ts, ok) := pwfPwCoreConnect t.connect
  if !t.calloc then [.init, .init]
  else if !ok then .init :: (ts ++ pwfTeardown t.connect.loopNew false ++ [.init])
  else .init :: ts

/-- `pwf_stream_internal_connect`. The node that was there is destroyed first: it is stopped, what
`pwf_stream_on_state_changed` does as it goes is `onLost`, and it is taken away. -/
def pwfStreamInternalConnect {n : ℕ} (h : Fin n) (node connected : Bool)
    (onLost : List (Op (Place n))) : List (Op (Place n)) :=
  (if node then locked h (LoopTurn.ops h .node ++ onLost ++ LoopTurn.ops h .node) else []) ++
    (.loop [.node] :: logIf !connected).flatMap (Turn.ops h)

/-- `pwf_stream_set_audio_config` and `pwf_stream_set_video_config_ex`. -/
def pwfStreamSetConfig {n : ℕ} (h : Fin n) (who : Caller) (accepted node connected : Bool)
    (onLost : List (Op (Place n))) : List (Op (Place n)) :=
  if refused who true then Turn.ops h .log
  else if !accepted then []
  else pwfStreamInternalConnect h node connected onLost

/-- `pwf_stream_start`. -/
def pwfStreamStart (who : Caller) (ready : Bool) : List Turn :=
  if refused who false then [.log] else if ready then [.loop [.node]] else []

/-- `pwf_stream_stop`. -/
def pwfStreamStop (who : Caller) (running drain : Bool) (drained : Await) : List Turn :=
  if refused who drain then [.log]
  else if !running then []
  else [.loop (drainTurns drain drained ++ [.node])]

/-- `pwf_stream_release_links`. -/
def pwfStreamReleaseLinks (linked : Bool) : List Turn := if linked then [.loop []] else []

/-- `pwf_stream_destroy`. -/
def pwfStreamDestroy (who : Caller) (running linked node : Bool) : List Turn :=
  if refused who true then [.log]
  else
    (if running then pwfStreamStop who running false ⟨0, true⟩ else []) ++
      pwfStreamReleaseLinks linked ++ [.loop []] ++ pwfTeardown true node ++ [.init]

structure WireTry where
  propsNew : Bool
  created : Bool
  negotiated : Await
  deriving DecidableEq, Repr

/-- `pwf_stream_link_one`, and whether the link is there. -/
def pwfStreamLinkOne (t : WireTry) : List Turn × Bool :=
  if !t.propsNew then ([], false)
  else if !t.created then ([.loop []], false)
  else ([.loop t.negotiated.turns], t.negotiated.ok)

/-- The links one after the other; the first that fails takes the others with it. -/
def linkEach : List WireTry → List Turn
  | [] => []
  | t :: ts =>
    (pwfStreamLinkOne t).1 ++
      if (pwfStreamLinkOne t).2 then .log :: linkEach ts else pwfStreamReleaseLinks true ++ [.log]

structure StreamLinkTry where
  /-- The stream runs, the application wires it, and it has no links. -/
  ready : Bool
  bind : BindTry
  /-- The wait until its own ports are there. -/
  ports : Await
  found : Bool
  /-- Neither side has more ports than there is room for. -/
  fits : Bool
  paired : Bool
  alloc : Bool
  each : List WireTry
  /-- All were linked, and the target has more ports. -/
  surplus : Bool
  deriving DecidableEq, Repr

/-- `pwf_stream_link`. -/
def pwfStreamLink (who : Caller) (t : StreamLinkTry) : List Turn :=
  let (ts, ok) := pwfPwRegistryBind t.bind
  let own := ts ++ [.loop t.ports.turns]
  if refused who true then [.log]
  else if !t.ready then []
  else if !ok then ts
  else if !t.ports.ok || !t.found then own ++ [.log]
  else if !t.fits then own
  else if !t.paired then own ++ [.log]
  else if !t.alloc then own
  else own ++ linkEach t.each ++ logIf t.surplus

/-- `pwf_stream_unlink`. -/
def pwfStreamUnlink (who : Caller) (linked : Bool) : List Turn :=
  if refused who false then [.log] else pwfStreamReleaseLinks linked

/-- `pwf_stream_get_target_list`. -/
def pwfStreamGetTargetList (who : Caller) (t : BindTry) : List Turn :=
  let (ts, ok) := pwfPwRegistryBind t
  if refused who true then [.log] else if ok then ts ++ [.loop []] else ts

/-! ### Calls, events and cycles -/

/-- A call that runs no callback. -/
inductive PlainCall
  | filterCreate (t : FilterTry)
  | filterAddPort (reached : Bool)
  | filterStart (ports connected : Bool)
  | filterStop (running drain : Bool) (drained : Await)
  | filterDestroy (running : Bool)
  | filterPushPortData (grown : Bool)
  | filterPortPushEvent (input : Bool)
  | filterPortLink (t : LinkTry)
  | filterPortUnlink (linked : Bool)
  | filterGetTargetVideoFormats (t : FormatsTry)
  | streamCreate (t : StreamTry)
  | streamStart (ready : Bool)
  | streamStop (running drain : Bool) (drained : Await)
  | streamDestroy (running linked node : Bool)
  | streamLink (t : StreamLinkTry)
  | streamUnlink (linked : Bool)
  | streamGetTargetList (t : BindTry)
  | streamGetTargetVideoFormats (named : Bool) (t : FormatsTry)
  /-- `pwf_log_set_callback` and `pwf_log_set_level`. -/
  | logSet
  deriving DecidableEq, Repr

def PlainCall.turns (who : Caller) : PlainCall → List Turn
  | .filterCreate t => pwfFilterCreate t
  | .filterAddPort reached => pwfFilterAddPort reached
  | .filterStart ports connected => pwfFilterStart who ports connected
  | .filterStop running drain drained => pwfFilterStop who running drain drained
  | .filterDestroy running => pwfFilterDestroy who running
  | .filterPushPortData grown => pwfFilterPushPortData grown
  | .filterPortPushEvent input => pwfFilterPortPushEvent who input
  | .filterPortLink t => pwfFilterPortLink who t
  | .filterPortUnlink linked => pwfFilterPortUnlink who linked
  | .filterGetTargetVideoFormats t => pwfGetTargetVideoFormats who true t
  | .streamCreate t => pwfStreamAlloc t
  | .streamStart ready => pwfStreamStart who ready
  | .streamStop running drain drained => pwfStreamStop who running drain drained
  | .streamDestroy running linked node => pwfStreamDestroy who running linked node
  | .streamLink t => pwfStreamLink who t
  | .streamUnlink linked => pwfStreamUnlink who linked
  | .streamGetTargetList t => pwfStreamGetTargetList who t
  | .streamGetTargetVideoFormats named t => pwfGetTargetVideoFormats who named t
  | .logSet => [.log]

/-- A call. A format setter that destroys the node of a running stream may have its error
callback run, which then calls `errorCb`. -/
inductive Call (n : ℕ)
  | plain (c : PlainCall)
  | streamSetConfig (accepted node connected lost : Bool) (errorCb : List (Fin n × Call n))

variable {n : ℕ}

/-- What a callback of a handle does: calls on handles, among them its own. -/
abbrev Calls (n : ℕ) := List (Fin n × Call n)

mutual

def Call.ops (who : Caller) (h : Fin n) : Call n → List (Op (Place n))
  | .plain c => (c.turns who).flatMap (Turn.ops h)
  | .streamSetConfig accepted node connected lost errorCb =>
    pwfStreamSetConfig h who accepted node connected
      (if lost then Turn.ops h .log ++ callbackOps h .setter errorCb else [])

/-- Its calls, each with what the handle that is called sees of the thread. -/
def callbackOps (h : Fin n) (who : Caller) : List (Fin n × Call n) → List (Op (Place n))
  | [] => []
  | (h', c) :: cs => c.ops (if h' = h then who else .outside) h' ++ callbackOps h who cs

end

/-- What the loop's thread may be told. An error callback is the calls it makes. -/
inductive LoopEvent (n : ℕ)
  /-- An answer, a drained node, a new port or a link's state, which wake a waiting call. -/
  | signal
  /-- `pwf_filter_on_param_changed` and `pwf_stream_on_param_changed` of a format. -/
  | format (mismatch useDmabuf : Bool)
  /-- A lost source: a format that is cleared, a link that is gone, a stream that is
  unconnected. -/
  | sourceLost (errorCb : Calls n)
  /-- `pwf_stream_on_node_removed` of the linked device. -/
  | nodeRemoved (errorCb : Calls n)

def LoopEvent.ops (h : Fin n) : LoopEvent n → List (Op (Place n))
  | .signal => []
  | .format mismatch useDmabuf =>
    (logIf mismatch ++ if useDmabuf then [Turn.node] else []).flatMap (Turn.ops h)
  | .sourceLost errorCb => Turn.ops h .log ++ callbackOps h .dispatch errorCb
  | .nodeRemoved errorCb =>
    (.log :: pwfStreamReleaseLinks true).flatMap (Turn.ops h) ++ callbackOps h .dispatch errorCb

/-- The loop's thread has the lock while it handles what came in. -/
def dispatchOps (h : Fin n) (events : List (LoopEvent n)) : List (Op (Place n)) :=
  .lock (.thread h) :: .lock (.loop h) ::
    (events.flatMap (LoopEvent.ops h) ++ [.unlock (.loop h), .unlock (.thread h)])

/-- One cycle of the data thread, with the calls of the data callback and what is logged after
it. Only a filter has pushes to fetch. -/
structure Cycle (n : ℕ) where
  filter : Bool
  dataCb : Calls n
  logs : ℕ

/-- `pwf_filter_on_process`, `pwf_stream_on_process` and `pwf_stream_on_process_playback`. -/
def Cycle.ops (h : Fin n) (c : Cycle n) : List (Op (Place n)) :=
  .lock (.cycle h) ::
    ((if c.filter then [.tryLock (.push h), .unlockTried (.push h)] else []) ++
      (callbackOps h .cycle c.dataCb ++ (List.replicate c.logs Turn.log).flatMap (Turn.ops h)) ++
      [.unlock (.cycle h)])

/-! ### The threads -/

/-- The application's threads, and of each handle its loop's thread and its data thread. -/
inductive Thread (m n : ℕ)
  | app (i : Fin m)
  | loop (h : Fin n)
  | data (h : Fin n)
  deriving DecidableEq

def Thread.equiv (m n : ℕ) : (Fin m ⊕ Fin n ⊕ Fin n) ≃ Thread m n where
  toFun
    | .inl i => .app i
    | .inr (.inl h) => .loop h
    | .inr (.inr h) => .data h
  invFun
    | .app i => .inl i
    | .loop h => .inr (.inl h)
    | .data h => .inr (.inr h)
  left_inv t := by rcases t with i | h | h <;> rfl
  right_inv t := by cases t <;> rfl

instance (m n : ℕ) : Fintype (Thread m n) := Fintype.ofEquiv _ (Thread.equiv m n)

/-- What the thread of the handle's loop is refused. -/
def PlainCall.refusedInLoop : PlainCall → Bool
  | .filterStop _ drain _ | .streamStop _ drain _ => drain
  | .filterDestroy _ | .filterPortLink _ | .filterGetTargetVideoFormats _ | .streamDestroy _ _ _
  | .streamLink _ | .streamGetTargetList _ | .streamGetTargetVideoFormats _ _ => true
  | _ => false

/-- A handle's own callback does not create it, and no cycle adds a port. -/
def PlainCall.own (who : Caller) : PlainCall → Bool
  | .filterCreate _ | .streamCreate _ => false
  | .filterAddPort reached => !(who == .cycle && reached)
  | c => !(who == .setter && c.refusedInLoop)

/-- What a callback may call of its own handle. Where a setter has it run nothing is refused, and
it keeps from what its loop's thread would be refused there. -/
def Call.own (who : Caller) : Call n → Bool
  | .plain c => c.own who
  | .streamSetConfig _ _ _ _ _ => who != .setter

/-- A callback calls its own handle, or handles that are numbered after it. -/
def InTurn (h : Fin n) (who : Caller) (c : Fin n × Call n) : Prop :=
  h < c.1 ∨ c.1 = h ∧ c.2.own who = true

/-- So do the callbacks that a call has run, and those that their calls have run. -/
inductive Call.KeepsOrder : (h : Fin n) → (c : Call n) → Prop
  | plain {h : Fin n} {c : PlainCall} : Call.KeepsOrder h (.plain c)
  | streamSetConfig {h : Fin n} {accepted node connected lost : Bool} {errorCb : Calls n}
      (hcs : ∀ c ∈ errorCb, InTurn h .setter c) (hdeep : ∀ c ∈ errorCb, Call.KeepsOrder c.1 c.2) :
      Call.KeepsOrder h (.streamSetConfig accepted node connected lost errorCb)

def KeepOrder (h : Fin n) (who : Caller) (cs : Calls n) : Prop :=
  ∀ c ∈ cs, InTurn h who c ∧ c.2.KeepsOrder c.1

def LoopEvent.KeepsOrder (h : Fin n) : LoopEvent n → Prop
  | .sourceLost errorCb | .nodeRemoved errorCb => KeepOrder h .dispatch errorCb
  | _ => True

/-- What a thread may begin: a call, a round of its loop, or a cycle. -/
def May (m n : ℕ) : Thread m n → List (Op (Place n)) → Prop
  | .app _, ops => ∃ h c, ops = Call.ops .outside h c ∧ c.KeepsOrder h
  | .loop h, ops => ∃ events, ops = dispatchOps h events ∧ ∀ e ∈ events, e.KeepsOrder h
  | .data h, ops => ∃ c : Cycle n, ops = c.ops h ∧ KeepOrder h .cycle c.dataCb

/-- Any number of threads and handles. -/
def waitMachine (m n : ℕ) := RankedLocks.lockMachine (Place.recursive (n := n)) (May m n)

end TinyPipewire.Waits
