import TinyPipewire.Lib.Custody

/-!
# What a handle is made of

A filter or a stream is a client of its own: a loop with its thread, a context, a core, its
node, a registry and links, each made on others. Every call of the library is given as what it
makes, uses and drops, in order, with the outcome of each allocation and each PipeWire call in
the call's argument. Checks that only decide whether a call does anything are one field of it.
-/

namespace TinyPipewire.Core

open Custody (Event Held)

inductive Obj
  /-- One count of `g_pw_init_count`. -/
  | share
  /-- `struct pwf_filter` or `struct pwf_stream`. -/
  | memory
  /-- A copied string, numbered as it is made. -/
  | text (n : ℕ)
  | pushLock
  | loop
  /-- The loop's thread runs. -/
  | thread
  /-- The loop is locked. -/
  | lock
  | context
  | core
  /-- `conn->core_listener` is registered. -/
  | hook
  /-- `filter->pw_filter` or `stream->pw_stream`. -/
  | node
  | registry
  /-- The proxy a format query binds. -/
  | query
  /-- The properties of a link, or of a stream's node, to be made. -/
  | props
  /-- `port->link_proxy` of a filter's port. -/
  | link (port : ℕ)
  /-- `stream->links`. -/
  | linkSet
  /-- `stream->links->links`. -/
  | linkArray
  /-- `proxy` of a stream's link. -/
  | wire (i : ℕ)
  deriving DecidableEq, Repr

/-- What an object is made on, and what must outlive it. A listener's memory is that of the
struct it is in. -/
def Obj.needs : Obj → List Obj
  | .share => []
  | .memory => [.share]
  | .text _ | .pushLock | .loop | .props | .linkSet => [.memory]
  | .thread | .lock | .context => [.loop]
  | .core => [.context]
  | .hook | .node | .registry => [.core]
  | .query => [.registry]
  | .link _ => [.core, .node]
  | .linkArray => [.linkSet]
  | .wire _ => [.core, .linkArray]

/-- What the loop's thread works with from its start to its end. -/
def Obj.ofThread : Obj → Bool
  | .context | .core => true
  | _ => false

/-- What comes and goes while the loop's thread runs. -/
def Obj.guarded : Obj → Bool
  | .hook | .node | .registry | .query | .link _ | .wire _ => true
  | _ => false

/-- What PipeWire has on the loop is made under the loop lock, and dropped under it or when the
thread is stopped, the connection only then. The thread is stopped without the lock. -/
def objRules : Custody.Rules Obj where
  needs := Obj.needs
  make := fun h k => k.ofThread = true ∨ k.guarded = true → h .lock = true
  drop := fun h k => (k.guarded = true → h .lock = true ∨ h .thread = false) ∧
    (k.ofThread = true → h .thread = false) ∧ (k = .thread → h .lock = false)

abbrev Events := List (Event Obj)

/-- What is done between `pw_thread_loop_lock` and `pw_thread_loop_unlock`. -/
def locked (es : Events) : Events := .make .lock :: (es ++ [.drop .lock])

/-! ### The connection -/

/-- `struct pwf_pw_core_conn`. `thread` is no field of the source: PipeWire knows whether the
loop's thread runs, and `pw_thread_loop_stop` does nothing where it does not. -/
structure Conn where
  loop : Bool
  thread : Bool
  context : Bool
  core : Bool
  deriving DecidableEq, Repr

def Conn.none : Conn := ⟨false, false, false, false⟩

def Conn.up : Conn := ⟨true, true, true, true⟩

/-- Which calls of `pwf_pw_core_connect` succeed, and whether the server answers. -/
structure ConnectTry where
  loopNew : Bool
  loopStart : Bool
  contextNew : Bool
  contextConnect : Bool
  synced : Bool
  deriving DecidableEq

/-- A request to the core and the wait for its answer, under the lock. -/
def pwfPwCoreSyncLocked : Events := [.make .hook, .use .core, .use .loop, .drop .hook]

/-- `pwf_pw_core_connect`, with what it leaves and whether it returns 0. -/
def pwfPwCoreConnect (t : ConnectTry) : Conn × Events × Bool :=
  if !t.loopNew then (.none, [], false)
  else if !t.loopStart then (⟨true, false, false, false⟩, [.make .loop], false)
  else if !t.contextNew then
    (⟨true, true, false, false⟩, [.make .loop, .make .thread] ++ locked [], false)
  else if !t.contextConnect then
    (⟨true, true, true, false⟩, [.make .loop, .make .thread] ++ locked [.make .context], false)
  else
    (.up, [.make .loop, .make .thread] ++
      locked ([.make .context, .make .core] ++ pwfPwCoreSyncLocked), t.synced)

/-- An object is dropped if the pointer to it is not NULL. -/
def dropIf (b : Bool) (k : Obj) : Events := if b then [.drop k] else []

/-- `pwf_pw_core_teardown`. -/
def pwfPwCoreTeardown (c : Conn) : Events :=
  dropIf (c.loop && c.thread) .thread ++ dropIf c.core .core ++ dropIf c.context .context ++
    dropIf c.loop .loop

/-- `pwf_filter_teardown` and `pwf_stream_teardown`. -/
def pwfTeardown (node : Bool) (c : Conn) : Events :=
  (if c.loop && node then locked [.drop .node] else dropIf node .node) ++ pwfPwCoreTeardown c

/-! ### The registry -/

/-- Whether `pw_core_get_registry` gives a registry and the server answers. -/
structure BindTry where
  registryNew : Bool
  synced : Bool
  deriving DecidableEq

/-- `pwf_pw_registry_bind`, with the registry it leaves and whether it returns 0. -/
def pwfPwRegistryBind (registry : Bool) (t : BindTry) : Bool × Events × Bool :=
  if registry then (true, [], true)
  else if !t.registryNew then (false, locked [], false)
  else (true, locked (.make .registry :: pwfPwCoreSyncLocked), t.synced)

/-- Some `pwf_pw_registry_sync`, one after the other. -/
def pwfPwRegistrySyncs (n : ℕ) : Events := (List.replicate n (locked pwfPwCoreSyncLocked)).flatten

/-- What a query of a target's formats comes to. -/
structure FormatsTry where
  bind : BindTry
  /-- The target is a node in the registry. -/
  found : Bool
  /-- `pw_registry_bind` gives a proxy of it. -/
  bound : Bool
  deriving DecidableEq

/-- `pwf_pw_enum_video_formats`. -/
def pwfPwEnumVideoFormats (bound : Bool) : Events :=
  locked (if bound then .make .query :: (pwfPwCoreSyncLocked ++ [.drop .query]) else [])

/-- `pwf_filter_get_target_video_formats` and `pwf_stream_get_target_video_formats`. -/
def pwfGetTargetVideoFormats (registry : Bool) (t : FormatsTry) : Bool × Events :=
  let (registry, es, ok) := pwfPwRegistryBind registry t.bind
  (registry, if ok && t.found then es ++ pwfPwEnumVideoFormats t.bound else es)

/-! ### A filter -/

structure FilterHandle where
  conn : Conn
  name : Option ℕ
  node : Bool
  registry : Bool
  running : Bool
  /-- For each port, whether it has a link proxy. -/
  links : List Bool
  deriving DecidableEq, Repr

structure FilterTry where
  /-- `callback` is not NULL. -/
  callback : Bool
  calloc : Bool
  named : Bool
  copied : Bool
  connect : ConnectTry
  filterNew : Bool
  deriving DecidableEq

/-- `strdup` of a name that is given. -/
def copyName (named : Bool) : Events := if named then [.make (.text 0)] else []

/-- `filter->name` then. -/
def copiedName (named : Bool) : Option ℕ := if named then some 0 else none

/-- `pwf_filter_create`. -/
def pwfFilterCreate (t : FilterTry) : Option FilterHandle × Events :=
  let opened := [.make .share, .make .memory] ++ copyName t.named
  let closed := dropIf t.named (.text 0) ++ [.drop .memory, .drop .share]
  let (conn, es, ok) := pwfPwCoreConnect t.connect
  if !t.callback then (none, [])
  else if !t.calloc then (none, [.make .share, .drop .share])
  else if t.named && !t.copied then
    (none, [.make .share, .make .memory, .drop .memory, .drop .share])
  else if !ok then (none, opened ++ es ++ pwfTeardown false conn ++ closed)
  else if !t.filterNew then (none, opened ++ es ++ locked [] ++ pwfTeardown false conn ++ closed)
  else
    (some ⟨conn, copiedName t.named, true, false, false, []⟩,
      opened ++ es ++ locked [.make .node] ++ [.make .pushLock])

/-- The ports that have a link proxy. -/
def linked (links : List Bool) : List ℕ := (List.range links.length).filter (links.getD · false)

/-- `pwf_filter_release_all_links`. -/
def FilterHandle.releaseAllLinks (f : FilterHandle) : FilterHandle × Events :=
  if !f.conn.loop then (f, [])
  else ({ f with links := f.links.map fun _ => false },
    locked ((linked f.links).map fun p => .drop (.link p)))

/-- `pwf_filter_stop`. -/
def FilterHandle.stop (f : FilterHandle) (drain : Bool) : FilterHandle × Events :=
  if !f.running then (f, [])
  else
    let (g, es) := { f with running := false }.releaseAllLinks
    (g, locked (if drain then [.use .node, .use .loop, .use .node] else [.use .node]) ++ es)

/-- `pwf_pw_registry_teardown`, as both kinds of handle are destroyed. -/
def destroyRegistry (c : Conn) (registry : Bool) : Events :=
  if c.loop then locked (dropIf registry .registry) else []

/-- `pwf_filter_destroy`. -/
def FilterHandle.destroy (f : FilterHandle) : Events :=
  let (g, es) := if f.running then f.stop false else f.releaseAllLinks
  es ++ destroyRegistry g.conn g.registry ++ pwfTeardown g.node g.conn ++ [.drop .pushLock] ++
    (g.name.toList.map fun n => .drop (.text n)) ++ [.drop .memory, .drop .share]

structure LinkTry where
  bind : BindTry
  /-- How many round-trips the search for both ports takes, and whether it succeeds. -/
  syncs : ℕ
  found : Bool
  propsNew : Bool
  created : Bool
  negotiated : Bool
  deriving DecidableEq

/-- `pwf_filter_port_link` of an input port. -/
def FilterHandle.portLink (f : FilterHandle) (p : ℕ) (t : LinkTry) : FilterHandle × Events :=
  if !f.running || f.links.getD p true then (f, [])
  else
    let (registry, es, ok) := pwfPwRegistryBind f.registry t.bind
    let g := { f with registry }
    let es' := es ++ pwfPwRegistrySyncs t.syncs ++ [.use .node]
    if !ok then (g, es)
    else if !t.found || !t.propsNew then (g, es')
    else if !t.created then (g, es' ++ [.make .props] ++ locked [] ++ [.drop .props])
    else if !t.negotiated then
      (g, es' ++ [.make .props] ++
        locked [.make (.link p), .use .loop, .drop (.link p)] ++ [.drop .props])
    else ({ g with links := g.links.set p true },
      es' ++ [.make .props] ++ locked [.make (.link p), .use .loop] ++ [.drop .props])

inductive FilterOp
  /-- Whether `pw_filter_add_port` is reached, and whether the port gets into the list. -/
  | addPort (reached listed : Bool)
  /-- `pwf_filter_start`, past its checks. -/
  | start (connected : Bool)
  | stop (drain : Bool)
  | portLink (p : ℕ) (t : LinkTry)
  | portUnlink (p : ℕ)
  | getTargetVideoFormats (t : FormatsTry)
  | destroy
  deriving DecidableEq

def FilterHandle.call (f : FilterHandle) : FilterOp → Option FilterHandle × Events
  | .addPort reached listed =>
    (some { f with links := if listed then f.links ++ [false] else f.links },
      if reached then locked [.use .node] else [])
  | .start connected =>
    (some { f with running := f.running || connected }, locked [.use .node])
  | .stop drain => ((f.stop drain).1, (f.stop drain).2)
  | .portLink p t => ((f.portLink p t).1, (f.portLink p t).2)
  | .portUnlink p =>
    if f.links.getD p false then
      (some { f with links := f.links.set p false }, locked [.drop (.link p)])
    else (some f, [])
  | .getTargetVideoFormats t =>
    let (registry, es) := pwfGetTargetVideoFormats f.registry t
    (some { f with registry }, es)
  | .destroy => (none, f.destroy)

/-! ### A stream -/

structure StreamHandle where
  conn : Conn
  node : Bool
  registry : Bool
  running : Bool
  target : Option ℕ
  role : Option ℕ
  /-- No field of the source: how many strings were copied. -/
  texts : ℕ
  /-- For each link of the set, whether it has a proxy. -/
  links : Option (List Bool)
  deriving DecidableEq, Repr

structure StreamTry where
  /-- The callback is not NULL and the type is one a stream has. -/
  accepted : Bool
  calloc : Bool
  connect : ConnectTry
  deriving DecidableEq

/-- `pwf_stream_alloc`, for `pwf_stream_create` and `pwf_stream_create_playback`. -/
def pwfStreamCreate (t : StreamTry) : Option StreamHandle × Events :=
  let (conn, es, ok) := pwfPwCoreConnect t.connect
  if !t.accepted then (none, [])
  else if !t.calloc then (none, [.make .share, .drop .share])
  else if !ok then
    (none, [.make .share, .make .memory] ++ es ++ pwfTeardown false conn ++
      [.drop .memory, .drop .share])
  else
    (some ⟨conn, false, false, false, none, none, 0, none⟩,
      [.make .share, .make .memory] ++ es)

/-- `pwf_stream_release_links`, on whichever thread. -/
def releaseLinks (links : Option (List Bool)) : Events :=
  match links with
  | none => []
  | some ps =>
    locked ((linked ps).map fun i => .drop (.wire i)) ++ [.drop .linkArray, .drop .linkSet]

/-- How a string is given: NULL or empty, not copied for lack of memory, or copied. -/
inductive TextTry
  | cleared
  | failed
  | copied
  deriving DecidableEq

/-- `pwf_stream_replace_string`, with the slot and the number of copies it leaves. -/
def pwfStreamReplaceString (slot : Option ℕ) (texts : ℕ) : TextTry → Option ℕ × ℕ × Events
  | .failed => (slot, texts, [])
  | .cleared => (none, texts, slot.toList.map fun n => .drop (.text n))
  | .copied =>
    (some texts, texts + 1, .make (.text texts) :: slot.toList.map fun n => .drop (.text n))

/-- The properties of the node: whether there is memory for them or not, the target and the role
are set in them. -/
def StreamHandle.nodeProps (s : StreamHandle) (propsNew : Bool) : Events :=
  (if propsNew then [.make .props] else []) ++
    (s.target.toList ++ s.role.toList).flatMap fun n => [.use (.text n), .use .props]

/-- `pwf_stream_internal_connect`: whether `pw_properties_new`, `pw_stream_new` and
`pw_stream_connect` succeed. `pw_stream_new` takes the properties, also where it fails. -/
def StreamHandle.internalConnect (s : StreamHandle) (propsNew created connected : Bool) :
    StreamHandle × Events :=
  let old := (if s.node then locked [.drop .node] else []) ++ s.nodeProps propsNew
  let taken := dropIf propsNew .props
  if !created then ({ s with node := false }, old ++ locked taken)
  else if !connected then
    ({ s with node := false }, old ++ locked (taken ++ [.make .node, .use .node, .drop .node]))
  else ({ s with node := true }, old ++ locked (taken ++ [.make .node, .use .node]))

/-- `pwf_stream_stop`. -/
def StreamHandle.stop (s : StreamHandle) (drain : Bool) : StreamHandle × Events :=
  if !s.running then (s, [])
  else ({ s with running := false },
    locked (if drain then [.use .node, .use .loop, .use .node] else [.use .node]))

/-- What becomes of one link. -/
inductive WireTry
  | noProps
  | noProxy
  /-- It reports an error, or nothing in time. -/
  | refused
  | negotiated
  deriving DecidableEq

/-- `pwf_stream_link_one`. -/
def pwfStreamLinkOne (i : ℕ) : WireTry → Events
  | .noProps => []
  | .noProxy => .make .props :: (locked [] ++ [.drop .props])
  | .refused | .negotiated =>
    .make .props :: (locked [.make (.wire i), .use .loop] ++ [.drop .props])

/-- The links up to the first that fails: what is done, which have a proxy, and whether all
negotiated. -/
def linkEach (i : ℕ) : List WireTry → Events × List Bool × Bool
  | [] => ([], [], true)
  | .negotiated :: ts =>
    let (es, ps, ok) := linkEach (i + 1) ts
    (pwfStreamLinkOne i .negotiated ++ es, true :: ps, ok)
  | t :: _ => (pwfStreamLinkOne i t, [decide (t = .refused)], false)

structure StreamLinkTry where
  bind : BindTry
  /-- The stream's own ports appear, the target has a node and ports enough. -/
  paired : Bool
  setNew : Bool
  arrayNew : Bool
  each : List WireTry
  deriving DecidableEq

/-- `pwf_stream_link` of a stream the application wires itself. -/
def StreamHandle.link (s : StreamHandle) (t : StreamLinkTry) : StreamHandle × Events :=
  if s.links.isSome || !s.running || !s.node then (s, [])
  else
    let (registry, es, ok) := pwfPwRegistryBind s.registry t.bind
    let g := { s with registry }
    let es' := es ++ locked [.use .node, .use .loop]
    if !ok then (g, es)
    else if !t.paired || !t.setNew then (g, es')
    else if !t.arrayNew then (g, es' ++ [.make .linkSet, .drop .linkSet])
    else
      let (made, ps, all) := linkEach 0 t.each
      let es'' := es' ++ [.make .linkSet, .make .linkArray] ++ made
      if all then ({ g with links := some ps }, es'')
      else (g, es'' ++ releaseLinks (some ps))

/-- `pwf_stream_destroy`. -/
def StreamHandle.destroy (s : StreamHandle) : Events :=
  let (g, es) := if s.running then s.stop false else (s, [])
  es ++ releaseLinks g.links ++ destroyRegistry g.conn g.registry ++ pwfTeardown g.node g.conn ++
    (g.target.toList.map fun n => .drop (.text n)) ++
    (g.role.toList.map fun n => .drop (.text n)) ++ [.drop .memory, .drop .share]

inductive StreamOp
  | setTarget (t : TextTry)
  | setRole (t : TextTry)
  /-- A format setter that accepts the format. -/
  | setConfig (propsNew created connected : Bool)
  /-- `pwf_stream_start`. -/
  | start
  | stop (drain : Bool)
  | link (t : StreamLinkTry)
  | unlink
  /-- The loop thread is told that the linked device is gone. -/
  | nodeRemoved
  /-- The loop thread is told that the source is lost. -/
  | sourceLost
  /-- `pwf_stream_get_target_list`. -/
  | getTargetList (t : BindTry)
  | getTargetVideoFormats (t : FormatsTry)
  | destroy
  deriving DecidableEq

def StreamHandle.call (s : StreamHandle) : StreamOp → Option StreamHandle × Events
  | .setTarget t =>
    let (target, texts, es) := pwfStreamReplaceString s.target s.texts t
    (some { s with target, texts }, es)
  | .setRole t =>
    let (role, texts, es) := pwfStreamReplaceString s.role s.texts t
    (some { s with role, texts }, es)
  | .setConfig propsNew created connected =>
    let (g, es) := s.internalConnect propsNew created connected
    (some { g with running := g.running && !(created && connected) }, es)
  | .start =>
    if s.node then (some { s with running := true }, locked [.use .node]) else (some s, [])
  | .stop drain => ((s.stop drain).1, (s.stop drain).2)
  | .link t => ((s.link t).1, (s.link t).2)
  | .unlink | .nodeRemoved => (some { s with links := none }, releaseLinks s.links)
  | .sourceLost => (some { s with running := false }, [])
  | .getTargetList t =>
    let (registry, es, ok) := pwfPwRegistryBind s.registry t
    (some { s with registry }, if ok then es ++ locked [] else es)
  | .getTargetVideoFormats t =>
    let (registry, es) := pwfGetTargetVideoFormats s.registry t
    (some { s with registry }, es)
  | .destroy => (none, s.destroy)

/-! ### Both -/

inductive Handle
  | filter (f : FilterHandle)
  | stream (s : StreamHandle)
  deriving DecidableEq, Repr

inductive HandleOp
  | createFilter (t : FilterTry)
  | createStream (t : StreamTry)
  | filter (op : FilterOp)
  | stream (op : StreamOp)
  deriving DecidableEq

def Handle.call : Option Handle → HandleOp → Option Handle × Events
  | none, .createFilter t => ((pwfFilterCreate t).1.map .filter, (pwfFilterCreate t).2)
  | none, .createStream t => ((pwfStreamCreate t).1.map .stream, (pwfStreamCreate t).2)
  | some (.filter f), .filter op => ((f.call op).1.map .filter, (f.call op).2)
  | some (.stream s), .stream op => ((s.call op).1.map .stream, (s.call op).2)
  | r, _ => (r, [])

end TinyPipewire.Core
