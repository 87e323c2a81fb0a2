import TinyPipewire.Core.Handles

/-!
# The objects of a handle keep to the rules

For each call, from what the handle has when it is called to what it has when it returns.
-/

namespace TinyPipewire.Core

open Custody (Event Held)

variable {h h' : Held Obj} {es es' : Events} {k : Obj}

/-- What a handle has between its calls, beside what its record tells. -/
structure Idle (h : Held Obj) : Prop where
  memory : h .memory = true
  loop : h .loop = true
  thread : h .thread = true
  context : h .context = true
  core : h .core = true
  lock : h .lock = false
  hook : h .hook = false
  query : h .query = false
  props : h .props = false

/-- `h` with the loop locked. -/
abbrev holding (h : Held Obj) : Held Obj := Function.update h .lock true

theorem needs_lock (j : Obj) : Obj.lock ∉ j.needs := by cases j <;> simp [Obj.needs]

theorem needs_guarded {j : Obj} (hk : k.guarded = true) (hj : k ∈ j.needs) :
    (k = .registry ∧ j = .query) ∨ (k = .node ∧ ∃ p, j = .link p) := by
  cases j <;> simp [Obj.needs] at hj <;> simp_all
  all_goals obtain rfl | rfl := hj <;> simp_all [Obj.guarded]

theorem guarded_ne_lock (hk : k.guarded = true) : k ≠ .lock := by
  rintro rfl
  simp [Obj.guarded] at hk

theorem guarded_not_ofThread (hk : k.guarded = true) : k.ofThread = false := by
  cases k <;> simp_all [Obj.guarded, Obj.ofThread]

/-- The rule for a section under the loop lock. -/
theorem runs_locked (hloop : h .loop = true) (hlock : h .lock = false)
    (hr : objRules.Runs (holding h) es (holding h')) (hlock' : h' .lock = false) :
    objRules.Runs h (locked es) h' := by
  have hlocks : objRules.Runs h [.make .lock] (holding h) := by
    refine .single ⟨hlock, ?_, ?_⟩
    · simpa [objRules, Obj.needs] using hloop
    · simp [objRules, Obj.ofThread, Obj.guarded]
  have hunlocks : objRules.Runs (holding h') [.drop .lock] h' := by
    have hdrop := Custody.Rules.Runs.single (R := objRules) (h := holding h') (e := .drop .lock)
      ⟨by simp, fun j hj => absurd hj (needs_lock j), by simp [objRules, Obj.ofThread, Obj.guarded]⟩
    rw [Custody.after_drop, Function.update_idem, ← hlock', Function.update_eq_self] at hdrop
    exact hdrop
  exact hlocks.append (hr.append hunlocks)

/-- An object is made under the lock. -/
theorem runs_make (hk : k ≠ .lock) (hnew : h k = false)
    (hneeds : ∀ j ∈ k.needs, h j = true) :
    objRules.Runs (holding h) [.make k] (holding (Function.update h k true)) := by
  rw [holding, holding, Function.update_comm hk]
  refine .single ⟨?_, ?_, ?_⟩
  · rwa [Function.update_of_ne hk]
  · intro j hj
    by_cases hjl : j = .lock
    · simp [hjl]
    · rw [Function.update_of_ne hjl]
      exact hneeds j hj
  · intro _
    simp

/-- An object is dropped under the lock. -/
theorem runs_drop (hk : k.guarded = true) (hold : h k = true)
    (hfree : ∀ j, k ∈ j.needs → h j = false) :
    objRules.Runs (holding h) [.drop k] (holding (Function.update h k false)) := by
  rw [holding, holding, Function.update_comm (guarded_ne_lock hk)]
  refine .single ⟨?_, ?_, ?_⟩
  · rwa [Function.update_of_ne (guarded_ne_lock hk)]
  · intro j hj
    have hjl : j ≠ .lock := by
      rintro rfl
      obtain ⟨-, hq⟩ | ⟨-, p, hp⟩ := needs_guarded (j := .lock) hk hj
      · cases hq
      · cases hp
    rw [Function.update_of_ne hjl]
    exact hfree j hj
  · refine ⟨fun _ => Or.inl (by simp), fun ht => ?_, ?_⟩
    · simp [guarded_not_ofThread hk] at ht
    · rintro rfl
      simp [Obj.guarded] at hk

theorem runs_use (hk : h k = true) : objRules.Runs (holding h) [.use k] (holding h) := by
  refine .single ?_
  by_cases hkl : k = .lock
  · simp [hkl]
  · simpa [hkl] using hk

/-- Uses of what is there change nothing. -/
theorem runs_uses (ks : List Obj) (hk : ∀ k ∈ ks, h k = true) :
    objRules.Runs (holding h) (ks.map .use) (holding h) := by
  induction ks with
  | nil => exact .nil
  | cons k ks ih =>
    exact (runs_use (hk k (by simp))).append (ih fun j hj => hk j (by simp [hj]))

/-- A round-trip leaves what there was. -/
theorem runs_sync (hcore : h .core = true) (hloop : h .loop = true) (hhook : h .hook = false) :
    objRules.Runs (holding h) pwfPwCoreSyncLocked (holding h) := by
  have hmake : objRules.Runs (holding h) [.make .hook] (holding (Function.update h .hook true)) :=
    runs_make (by simp) hhook (by simpa [Obj.needs] using hcore)
  have huse : objRules.Runs (holding (Function.update h .hook true)) [.use .core, .use .loop]
      (holding (Function.update h .hook true)) :=
    runs_uses [.core, .loop] (by simp [hcore, hloop])
  have hdrop : objRules.Runs (holding (Function.update h .hook true)) [.drop .hook]
      (holding h) := by
    have := runs_drop (h := Function.update h .hook true) (k := .hook) rfl (by simp)
      (fun j hj => by rcases needs_guarded rfl hj with ⟨hq, -⟩ | ⟨hq, -⟩ <;> simp at hq)
    rwa [Function.update_idem, ← hhook, Function.update_eq_self] at this
  exact hmake.append (huse.append hdrop)

/-! ### Between calls -/

variable {b : Bool} {t : BindTry}

theorem Idle.update (hi : Idle h) (hk : k = .node ∨ k = .registry ∨ (∃ p, k = .link p) ∨
    (∃ i, k = .wire i) ∨ k = .linkSet ∨ k = .linkArray ∨ (∃ n, k = .text n)) :
    Idle (Function.update h k b) := by
  rcases hk with rfl | rfl | ⟨_, rfl⟩ | ⟨_, rfl⟩ | rfl | rfl | ⟨_, rfl⟩ <;>
    exact ⟨by simp [hi.memory], by simp [hi.loop], by simp [hi.thread], by simp [hi.context],
      by simp [hi.core], by simp [hi.lock], by simp [hi.hook], by simp [hi.query],
      by simp [hi.props]⟩

/-- A section that leaves what there was. -/
theorem Idle.section (hi : Idle h) (hr : objRules.Runs (holding h) es (holding h)) :
    objRules.Runs h (locked es) h := runs_locked hi.loop hi.lock hr hi.lock

theorem Idle.uses (hi : Idle h) (ks : List Obj) (hk : ∀ k ∈ ks, h k = true) :
    objRules.Runs h (locked (ks.map .use)) h := hi.section (runs_uses ks hk)

theorem Idle.sync (hi : Idle h) :
    objRules.Runs (holding h) pwfPwCoreSyncLocked (holding h) := runs_sync hi.core hi.loop hi.hook

theorem Idle.registrySyncs (hi : Idle h) (n : ℕ) :
    objRules.Runs h (pwfPwRegistrySyncs n) h := by
  induction n with
  | zero => exact .nil
  | succ n ih =>
    rw [pwfPwRegistrySyncs, List.replicate_succ, List.flatten_cons]
    exact (hi.section hi.sync).append ih

/-- A bind leaves the registry it says, and what else there was. -/
theorem Idle.registryBind (hi : Idle h) (hb : h .registry = b) :
    objRules.Runs h (pwfPwRegistryBind b t).2.1
      (Function.update h .registry (pwfPwRegistryBind b t).1) := by
  cases b with
  | true =>
    have hsame : Function.update h .registry true = h := by
      rw [← hb, Function.update_eq_self]
    simpa [pwfPwRegistryBind, hsame] using Custody.Rules.Runs.nil
  | false =>
    have hsame : Function.update h .registry false = h := by
      rw [← hb, Function.update_eq_self]
    by_cases hn : t.registryNew = true
    · have hmake : objRules.Runs (holding h) [.make .registry]
          (holding (Function.update h .registry true)) :=
        runs_make (by simp) hb (by simpa [Obj.needs] using hi.core)
      have hidle : Idle (Function.update h .registry true) := hi.update (by simp)
      have hsync := hmake.append hidle.sync
      simpa [pwfPwRegistryBind, hn] using runs_locked hi.loop hi.lock hsync hidle.lock
    · simpa [pwfPwRegistryBind, hn, hsame] using hi.section .nil

/-- A query of formats drops the proxy it binds. -/
theorem Idle.enumVideoFormats (hi : Idle h) (hr : h .registry = true) (bound : Bool) :
    objRules.Runs h (pwfPwEnumVideoFormats bound) h := by
  unfold pwfPwEnumVideoFormats
  cases bound with
  | false => exact hi.section .nil
  | true =>
    have hmake : objRules.Runs (holding h) [.make .query]
        (holding (Function.update h .query true)) :=
      runs_make (by simp) hi.query (by simpa [Obj.needs] using hr)
    have hsync : objRules.Runs (holding (Function.update h .query true)) pwfPwCoreSyncLocked
        (holding (Function.update h .query true)) :=
      runs_sync (by simp [hi.core]) (by simp [hi.loop]) (by simp [hi.hook])
    have hdrop : objRules.Runs (holding (Function.update h .query true)) [.drop .query]
        (holding h) := by
      have := runs_drop (h := Function.update h .query true) (k := .query) rfl (by simp)
        (fun j hj => by rcases needs_guarded rfl hj with ⟨hq, -⟩ | ⟨hq, -⟩ <;> simp at hq)
      rwa [Function.update_idem, ← hi.query, Function.update_eq_self] at this
    exact hi.section (hmake.append (hsync.append hdrop))

theorem registryBind_ok (h : (pwfPwRegistryBind b t).2.2 = true) :
    (pwfPwRegistryBind b t).1 = true := by
  unfold pwfPwRegistryBind at h ⊢
  split_ifs at h ⊢ <;> simp_all

theorem Idle.getTargetVideoFormats (hi : Idle h) (hb : h .registry = b) (t : FormatsTry) :
    objRules.Runs h (pwfGetTargetVideoFormats b t).2
      (Function.update h .registry (pwfGetTargetVideoFormats b t).1) := by
  have hbind := hi.registryBind (t := t.bind) hb
  have hidle : Idle (Function.update h .registry (pwfPwRegistryBind b t.bind).1) :=
    hi.update (by simp)
  unfold pwfGetTargetVideoFormats
  by_cases hok : ((pwfPwRegistryBind b t.bind).2.2 && t.found) = true
  · have hreg := registryBind_ok (Bool.and_eq_true_iff.mp hok).1
    simp only [hok, if_true]
    exact hbind.append (hidle.enumVideoFormats (by simp [hreg]) t.bound)
  · simp only [hok]
    exact hbind

/-! ### The connection -/

/-- What is there once a connection is. -/
def Conn.on (c : Conn) (h : Held Obj) : Held Obj
  | .loop => c.loop
  | .thread => c.thread
  | .context => c.context
  | .core => c.core
  | k => h k

/-- The memory of a handle is there, and nothing that stands on a loop. -/
structure Bare (h : Held Obj) : Prop where
  memory : h .memory = true
  loop : h .loop = false
  thread : h .thread = false
  lock : h .lock = false
  context : h .context = false
  core : h .core = false
  hook : h .hook = false
  node : h .node = false
  registry : h .registry = false
  link : ∀ p, h (.link p) = false
  wire : ∀ i, h (.wire i) = false

variable {c : Conn}

theorem Conn.on_none (hb : Bare h) : Conn.none.on h = h := by
  funext k
  cases k <;> simp [Conn.on, Conn.none, hb.loop, hb.thread, hb.context, hb.core]

/-- `pwf_pw_core_connect` leaves what it says. -/
theorem runs_connect (hb : Bare h) (t : ConnectTry) :
    objRules.Runs h (pwfPwCoreConnect t).2.1 ((pwfPwCoreConnect t).1.on h) := by
  have hloop : objRules.Runs h [.make .loop] ((⟨true, false, false, false⟩ : Conn).on h) := by
    have hmake := Custody.Rules.Runs.single (R := objRules) (h := h) (e := .make .loop)
      ⟨hb.loop, by simpa [objRules, Obj.needs] using hb.memory,
        by simp [objRules, Obj.ofThread, Obj.guarded]⟩
    have hon : (Event.make Obj.loop).after h = (⟨true, false, false, false⟩ : Conn).on h := by
      funext k
      cases k <;> simp [Conn.on, hb.thread, hb.context, hb.core]
    rwa [hon] at hmake
  have hstart : objRules.Runs ((⟨true, false, false, false⟩ : Conn).on h) [.make .thread]
      ((⟨true, true, false, false⟩ : Conn).on h) := by
    have hmake := Custody.Rules.Runs.single (R := objRules)
      (h := (⟨true, false, false, false⟩ : Conn).on h) (e := .make .thread)
      ⟨rfl, by simp [objRules, Obj.needs, Conn.on], by simp [objRules, Obj.ofThread, Obj.guarded]⟩
    have hon : (Event.make Obj.thread).after ((⟨true, false, false, false⟩ : Conn).on h) =
        (⟨true, true, false, false⟩ : Conn).on h := by
      funext k
      cases k <;> simp [Conn.on]
    rwa [hon] at hmake
  have hthread : objRules.Runs h [.make .loop, .make .thread]
      ((⟨true, true, false, false⟩ : Conn).on h) := hloop.append hstart
  have hcontext : objRules.Runs (holding ((⟨true, true, false, false⟩ : Conn).on h))
      [.make .context] (holding ((⟨true, true, true, false⟩ : Conn).on h)) := by
    have hmake := runs_make (h := (⟨true, true, false, false⟩ : Conn).on h) (k := .context)
      (by simp) rfl (by simp [Obj.needs, Conn.on])
    have hon : Function.update ((⟨true, true, false, false⟩ : Conn).on h) .context true =
        (⟨true, true, true, false⟩ : Conn).on h := by
      funext k
      cases k <;> simp [Conn.on]
    rwa [hon] at hmake
  have hcore : objRules.Runs (holding ((⟨true, true, true, false⟩ : Conn).on h))
      [.make .core] (holding (Conn.up.on h)) := by
    have hmake := runs_make (h := (⟨true, true, true, false⟩ : Conn).on h) (k := .core)
      (by simp) rfl (by simp [Obj.needs, Conn.on])
    have hon : Function.update ((⟨true, true, true, false⟩ : Conn).on h) .core true =
        Conn.up.on h := by
      funext k
      cases k <;> simp [Conn.on, Conn.up]
    rwa [hon] at hmake
  unfold pwfPwCoreConnect
  split_ifs
  · rw [Conn.on_none hb]
    exact .nil
  · exact hloop
  · exact hthread.append (runs_locked rfl hb.lock .nil hb.lock)
  · exact hthread.append (runs_locked rfl hb.lock hcontext hb.lock)
  · refine hthread.append (runs_locked rfl hb.lock ?_ hb.lock)
    exact (hcontext.append hcore).append (runs_sync rfl rfl hb.hook)

/-- As far as a connection got, each part has what it is made on. -/
structure Conn.Partial (c : Conn) : Prop where
  thread : c.thread = true → c.loop = true
  context : c.context = true → c.loop = true
  core : c.core = true → c.context = true

theorem connect_partial (t : ConnectTry) : (pwfPwCoreConnect t).1.Partial := by
  unfold pwfPwCoreConnect
  split_ifs <;> constructor <;> simp [Conn.none, Conn.up]

theorem connect_up {t : ConnectTry} (h : (pwfPwCoreConnect t).2.2 = true) :
    (pwfPwCoreConnect t).1 = .up := by
  unfold pwfPwCoreConnect at h ⊢
  split_ifs at h ⊢
  rfl

/-- An object that may be there is dropped. -/
theorem runs_dropIf (hb : h k = b) (hfree : ∀ j, k ∈ j.needs → h j = false)
    (hd : objRules.drop h k) : objRules.Runs h (dropIf b k) (Function.update h k false) := by
  cases b with
  | true => exact .single ⟨hb, hfree, hd⟩
  | false =>
    have hsame : Function.update h k false = h := by rw [← hb, Function.update_eq_self]
    rw [hsame]
    exact Custody.Rules.Runs.nil

/-- `pwf_pw_core_teardown` leaves nothing of a connection. -/
theorem runs_coreTeardown (hb : Bare h) (hc : c.Partial) :
    objRules.Runs (c.on h) (pwfPwCoreTeardown c) h := by
  have hthread : objRules.Runs (c.on h) (dropIf (c.loop && c.thread) .thread)
      (Function.update (c.on h) .thread false) := by
    refine runs_dropIf ?_ (fun j hj => by cases j <;> simp [Obj.needs] at hj) ?_
    · have hrun := hc.thread
      cases hl : c.loop <;> cases ht : c.thread <;> simp_all [Conn.on]
    · simp [objRules, Obj.ofThread, Obj.guarded, Conn.on, hb.lock]
  have hcore : objRules.Runs (Function.update (c.on h) .thread false) (dropIf c.core .core)
      (Function.update (Function.update (c.on h) .thread false) .core false) := by
    refine runs_dropIf (by simp [Conn.on]) ?_ ?_
    · intro j hj
      cases j <;> simp [Obj.needs] at hj <;>
        simp [Conn.on, hb.hook, hb.node, hb.registry, hb.link, hb.wire]
    · simp [objRules, Obj.guarded]
  have hcontext : objRules.Runs (Function.update (Function.update (c.on h) .thread false) .core
      false) (dropIf c.context .context) (Function.update (Function.update (Function.update
        (c.on h) .thread false) .core false) .context false) := by
    refine runs_dropIf (by simp [Conn.on]) ?_ ?_
    · intro j hj
      cases j <;> simp [Obj.needs] at hj
      simp
    · simp [objRules, Obj.guarded]
  have hloop : objRules.Runs (Function.update (Function.update (Function.update (c.on h) .thread
      false) .core false) .context false) (dropIf c.loop .loop) h := by
    have hdrop := runs_dropIf (k := .loop) (b := c.loop) (h := Function.update (Function.update
      (Function.update (c.on h) .thread false) .core false) .context false)
      (by simp [Conn.on]) ?_ (by simp [objRules, Obj.ofThread, Obj.guarded])
    · have hon : Function.update (Function.update (Function.update (Function.update (c.on h)
          .thread false) .core false) .context false) .loop false = h := by
        funext k
        cases k <;> simp [Conn.on, hb.loop, hb.thread, hb.context, hb.core]
      rwa [hon] at hdrop
    · intro j hj
      cases j <;> simp [Obj.needs] at hj <;> simp [Conn.on, hb.lock]
  exact ((hthread.append hcore).append hcontext).append hloop

theorem Bare.teardown (hb : Bare h) (hc : c.Partial) :
    objRules.Runs (c.on h) (pwfTeardown false c) h := by
  simpa [pwfTeardown, dropIf] using runs_coreTeardown hb hc

/-- With a node and a connection, the node goes first. -/
theorem Bare.teardownNode (hb : Bare h) (node : Bool) :
    objRules.Runs (Function.update (Conn.up.on h) .node node) (pwfTeardown node .up) h := by
  have hnode : objRules.Runs (Function.update (Conn.up.on h) .node node)
      (if node then locked [.drop .node] else dropIf node .node) (Conn.up.on h) := by
    have hoff : Function.update (Conn.up.on h) .node false = Conn.up.on h := by
      funext k
      cases k <;> simp [Conn.on, hb.node]
    cases node with
    | false =>
      rw [hoff]
      exact .nil
    | true =>
      have hdrop := runs_drop (h := Function.update (Conn.up.on h) .node true) (k := .node) rfl
        (by simp) (fun j hj => by
          cases j <;> simp [Obj.needs] at hj
          simp [Conn.on, hb.link])
      rw [Function.update_idem, hoff] at hdrop
      exact runs_locked (by simp [Conn.on, Conn.up]) (by simp [Conn.on, hb.lock]) hdrop hb.lock
  have hcore := runs_coreTeardown hb (c := .up) ⟨by simp [Conn.up], by simp [Conn.up],
    by simp [Conn.up]⟩
  have happend := hnode.append hcore
  cases node <;> simpa [pwfTeardown, Conn.up] using happend

end TinyPipewire.Core
