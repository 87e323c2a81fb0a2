import Mathlib.Data.List.GetD
import TinyPipewire.Core.HandleObjects

/-!
# The objects of a filter

What `pwf_filter_create` makes and `pwf_filter_destroy` drops, and what each call between them
leaves. Links and the memory of a struct are first, which a stream has as well.
-/

namespace TinyPipewire.Core

open Custody (Event Held)

variable {h h' : Held Obj} {es es' : Events} {k : Obj} {c : Conn}

/-! ### Links -/

theorem mem_linked {links : List Bool} {p : ℕ} : p ∈ linked links ↔ links.getD p false = true := by
  unfold linked
  rw [List.mem_filter, List.mem_range]
  constructor
  · exact fun h => h.2
  · intro h
    refine ⟨?_, h⟩
    by_contra hlt
    rw [List.getD_eq_default _ _ (by omega)] at h
    cases h

/-- The links that are there are dropped under the lock. -/
theorem runs_dropLinks {g : ℕ → Obj} (hg : Function.Injective g)
    (hguard : ∀ p, (g p).guarded = true) (hleaf : ∀ p j, g p ∉ Obj.needs j) {links : List Bool}
    (hl : ∀ p, h (g p) = links.getD p false) (hoff : ∀ p, h' (g p) = false)
    (hsame : ∀ k, (∀ p, k ≠ g p) → h' k = h k) :
    objRules.Runs (holding h) ((linked links).map fun p => .drop (g p)) (holding h') := by
  have hlock : ∀ p, g p ≠ .lock := fun p => guarded_ne_lock (hguard p)
  have hall := Custody.Rules.Runs.dropAll (R := objRules) (h := holding h)
    ((linked links).map g) ?_ ?_ ?_ ?_
  · have hend : (fun k => if k ∈ (linked links).map g then false else holding h k) =
        holding h' := by
      funext k
      by_cases hk : ∃ p, k = g p
      · obtain ⟨p, rfl⟩ := hk
        have hmem : g p ∈ (linked links).map g ↔ links.getD p false = true := by
          rw [List.mem_map_of_injective hg, mem_linked]
        rw [holding, holding, Function.update_of_ne (hlock p), Function.update_of_ne (hlock p),
          hoff, hl]
        by_cases hp : links.getD p false = true
        · rw [if_pos (hmem.mpr hp)]
        · rw [if_neg fun h => hp (hmem.mp h)]
          simpa using hp
      · have hnot : k ∉ (linked links).map g := by
          intro hmem
          obtain ⟨p, -, rfl⟩ := List.mem_map.mp hmem
          exact hk ⟨p, rfl⟩
        rw [if_neg hnot]
        by_cases hkl : k = .lock
        · simp [hkl]
        · rw [holding, holding, Function.update_of_ne hkl, Function.update_of_ne hkl]
          exact (hsame k fun p hp => hk ⟨p, hp⟩).symm
    rw [hend, List.map_map] at hall
    exact hall
  · exact (List.nodup_range.filter _).map hg
  · intro k hk
    obtain ⟨p, hp, rfl⟩ := List.mem_map.mp hk
    rw [holding, Function.update_of_ne (hlock p), hl]
    exact mem_linked.mp hp
  · intro k hk
    obtain ⟨p, -, rfl⟩ := List.mem_map.mp hk
    exact hleaf p
  · intro e he k hk
    obtain ⟨p, -, rfl⟩ := List.mem_map.mp hk
    have hheld : e .lock = true := by
      rw [he .lock, holding, Function.update_self]
      intro hmem
      obtain ⟨q, -, hq⟩ := List.mem_map.mp hmem
      exact hlock q hq
    refine ⟨fun _ => Or.inl hheld, ?_, ?_⟩
    · simp [guarded_not_ofThread (hguard p)]
    · intro ht
      have := hguard p
      simp [ht, Obj.guarded] at this

/-- What is done under the lock while a link's properties are there. -/
theorem Idle.withProps (hi : Idle h) (hi' : Idle h')
    (hr : objRules.Runs (holding (Function.update h .props true)) es
      (holding (Function.update h' .props true))) :
    objRules.Runs h (.make .props :: (locked es ++ [.drop .props])) h' := by
  have hmake : objRules.Runs h [.make .props] (Function.update h .props true) :=
    .single ⟨hi.props, by simpa [objRules, Obj.needs] using hi.memory,
      by simp [objRules, Obj.ofThread, Obj.guarded]⟩
  have hsection : objRules.Runs (Function.update h .props true) (locked es)
      (Function.update h' .props true) :=
    runs_locked (by simp [hi.loop]) (by simp [hi.lock]) hr (by simp [hi'.lock])
  have hdrop : objRules.Runs (Function.update h' .props true) [.drop .props] h' := by
    have hfree := Custody.Rules.Runs.single (R := objRules) (h := Function.update h' .props true)
      (e := .drop .props)
      ⟨by simp, fun j hj => by cases j <;> simp [objRules, Obj.needs] at hj,
        by simp [objRules, Obj.ofThread, Obj.guarded]⟩
    rwa [Custody.after_drop, Function.update_idem, ← hi'.props, Function.update_eq_self] at hfree
  exact hmake.append (hsection.append hdrop)

/-- A link is made while its properties are there, and the loop waited for. -/
theorem Idle.linkMade (hi : Idle h) (hk : (∃ p, k = .link p) ∨ ∃ i, k = .wire i)
    (hnew : h k = false) (hneeds : ∀ j ∈ k.needs, h j = true) :
    objRules.Runs (holding (Function.update h .props true)) [.make k, .use .loop]
      (holding (Function.update (Function.update h k true) .props true)) := by
  have hprops : k ≠ .props := by
    obtain ⟨_, rfl⟩ | ⟨_, rfl⟩ := hk <;> simp
  have hlock : k ≠ .lock := by
    obtain ⟨_, rfl⟩ | ⟨_, rfl⟩ := hk <;> simp
  have hloop : k ≠ .loop := by
    obtain ⟨_, rfl⟩ | ⟨_, rfl⟩ := hk <;> simp
  have hmake := runs_make (h := Function.update h .props true) hlock
    (by rwa [Function.update_of_ne hprops]) (fun j hj => by
      by_cases hj' : j = .props
      · simp [hj']
      · rw [Function.update_of_ne hj']
        exact hneeds j hj)
  rw [Function.update_comm hprops.symm] at hmake
  refine Custody.Rules.Runs.append hmake (runs_use ?_)
  rw [Function.update_of_ne (by simp), Function.update_of_ne hloop.symm]
  exact hi.loop

/-! ### A handle's memory -/

/-- What there is once the struct is allocated. -/
def alloced : Held Obj
  | .share | .memory => true
  | _ => false

theorem runs_alloc : objRules.Runs Custody.none [.make .share, .make .memory] alloced := by
  have hshare : objRules.Runs Custody.none [.make .share]
      (Function.update Custody.none .share true) :=
    .single ⟨rfl, by simp [objRules, Obj.needs], by simp [objRules, Obj.ofThread, Obj.guarded]⟩
  have hmemory : objRules.Runs (Function.update Custody.none .share true) [.make .memory]
      (Function.update (Function.update Custody.none .share true) .memory true) :=
    .single ⟨rfl, by simp [objRules, Obj.needs], by simp [objRules, Obj.ofThread, Obj.guarded]⟩
  have hend : Function.update (Function.update Custody.none Obj.share true) .memory true =
      alloced := by
    funext k
    cases k <;> simp [alloced]
  rw [hend] at hmemory
  exact hshare.append hmemory

theorem runs_free : objRules.Runs alloced [.drop .memory, .drop .share] Custody.none := by
  have hmemory : objRules.Runs alloced [.drop .memory] (Function.update alloced .memory false) :=
    .single ⟨rfl, fun j hj => by cases j <;> simp [objRules, Obj.needs, alloced] at hj ⊢,
      by simp [objRules, Obj.ofThread, Obj.guarded]⟩
  have hshare : objRules.Runs (Function.update alloced .memory false) [.drop .share]
      (Function.update (Function.update alloced .memory false) .share false) :=
    .single ⟨rfl, fun j hj => by cases j <;> simp [objRules, Obj.needs] at hj ⊢,
      by simp [objRules, Obj.ofThread, Obj.guarded]⟩
  have hend : Function.update (Function.update alloced .memory false) .share false =
      Custody.none := by
    funext k
    cases k <;> simp [alloced]
  rw [hend] at hshare
  exact hmemory.append hshare

theorem bare_alloced {n : ℕ} {b : Bool} : Bare (Function.update alloced (.text n) b) := by
  constructor <;> simp [alloced]

/-- A string that is there is freed. -/
theorem runs_freeText {n : ℕ} (hn : h (.text n) = true) :
    objRules.Runs h [.drop (.text n)] (Function.update h (.text n) false) :=
  .single ⟨hn, fun j hj => by cases j <;> simp [objRules, Obj.needs] at hj,
    by simp [objRules, Obj.ofThread, Obj.guarded]⟩

theorem runs_copyText {n : ℕ} (hm : h .memory = true) (hn : h (.text n) = false) :
    objRules.Runs h [.make (.text n)] (Function.update h (.text n) true) :=
  .single ⟨hn, by simpa [objRules, Obj.needs] using hm,
    by simp [objRules, Obj.ofThread, Obj.guarded]⟩

/-! ### A filter -/

/-- What a filter has between its calls. -/
def FilterHandle.holds (f : FilterHandle) : Held Obj
  | .share | .memory | .pushLock => true
  | .text n => decide (f.name = some n)
  | .loop => f.conn.loop
  | .thread => f.conn.thread
  | .context => f.conn.context
  | .core => f.conn.core
  | .node => f.node
  | .registry => f.registry
  | .link p => f.links.getD p false
  | _ => false

structure FilterHandle.Good (f : FilterHandle) : Prop where
  conn : f.conn = .up
  node : f.node = true

variable {f : FilterHandle}

theorem FilterHandle.Good.idle (hf : f.Good) : Idle f.holds := by
  constructor <;> simp [FilterHandle.holds, hf.conn, Conn.up]

theorem FilterHandle.holds_registry {b : Bool} :
    Function.update f.holds .registry b = { f with registry := b }.holds := by
  funext k
  cases k <;> simp [FilterHandle.holds]

/-- The struct, named, with nothing else. -/
theorem runs_opened (named : Bool) :
    objRules.Runs Custody.none ([.make .share, .make .memory] ++ copyName named)
      (Function.update alloced (.text 0) named) := by
  refine runs_alloc.append ?_
  cases named with
  | true => exact runs_copyText rfl rfl
  | false =>
    have hsame : Function.update alloced (.text 0) false = alloced := Function.update_eq_self _ _
    rw [hsame]
    exact .nil

theorem runs_closed (named : Bool) :
    objRules.Runs (Function.update alloced (.text 0) named)
      (dropIf named (.text 0) ++ [.drop .memory, .drop .share]) Custody.none := by
  refine Custody.Rules.Runs.append ?_ runs_free
  have hend : Function.update (Function.update alloced (.text 0) named) (.text 0) false =
      alloced := by
    rw [Function.update_idem]
    exact Function.update_eq_self _ _
  have hdrop := runs_dropIf (k := .text 0) (b := named)
    (h := Function.update alloced (.text 0) named) (by simp)
    (fun j hj => by cases j <;> simp [Obj.needs] at hj)
    (by simp [objRules, Obj.ofThread, Obj.guarded])
  rwa [hend] at hdrop

/-- What a call of a filter, or the one that creates it, leaves: the filter with what its
record tells, or nothing. -/
def FilterHandle.Leaves (h : Held Obj) (r : Option FilterHandle × Events) : Prop :=
  match r with
  | (none, es) => objRules.Runs h es Custody.none
  | (some f, es) => f.Good ∧ objRules.Runs h es f.holds

theorem runs_shared : objRules.Runs Custody.none [.make .share, .drop .share] Custody.none := by
  have hshare : objRules.Runs Custody.none [.make .share]
      (Function.update Custody.none .share true) :=
    .single ⟨rfl, by simp [objRules, Obj.needs], by simp [objRules, Obj.ofThread, Obj.guarded]⟩
  have hdrop : objRules.Runs (Function.update Custody.none .share true) [.drop .share]
      (Function.update (Function.update Custody.none .share true) .share false) :=
    .single ⟨rfl, fun j hj => by cases j <;> simp [objRules, Obj.needs] at hj ⊢,
      by simp [objRules, Obj.ofThread, Obj.guarded]⟩
  have hend : Function.update (Function.update Custody.none Obj.share true) .share false =
      Custody.none := by
    rw [Function.update_idem]
    exact Function.update_eq_self _ _
  rw [hend] at hdrop
  exact hshare.append hdrop

theorem leaves_filterCreate (t : FilterTry) :
    FilterHandle.Leaves Custody.none (pwfFilterCreate t) := by
  have hopened := runs_opened t.named
  have hclosed := runs_closed t.named
  have hbare := bare_alloced (n := 0) (b := t.named)
  have hconnect := hopened.append (runs_connect hbare t.connect)
  have hpart := connect_partial t.connect
  have hup := connect_up (t := t.connect)
  unfold pwfFilterCreate
  generalize pwfPwCoreConnect t.connect = r at hconnect hpart hup ⊢
  obtain ⟨conn, es, ok⟩ := r
  simp only at hconnect hpart hup ⊢
  split_ifs with hcb hcalloc hname hok hnew
  · exact .nil
  · exact runs_shared
  · exact runs_alloc.append runs_free
  · exact (hconnect.append (hbare.teardown hpart)).append hclosed
  · obtain rfl := hup (by simpa using hok)
    exact ((hconnect.append (runs_locked rfl rfl .nil rfl)).append
      (hbare.teardown hpart)).append hclosed
  · obtain rfl := hup (by simpa using hok)
    refine ⟨⟨rfl, rfl⟩, ?_⟩
    set h := Conn.up.on (Function.update alloced (.text 0) t.named) with hh
    have hnode : objRules.Runs (holding h) [.make .node] (holding (Function.update h .node true)) :=
      runs_make (by simp) rfl (by simp [Obj.needs, hh, Conn.on, Conn.up])
    have hlock : objRules.Runs (Function.update h .node true) [.make .pushLock]
        (Function.update (Function.update h .node true) .pushLock true) :=
      .single ⟨rfl, by simp [objRules, Obj.needs, hh, Conn.on, alloced],
        by simp [objRules, Obj.ofThread, Obj.guarded]⟩
    have hend : Function.update (Function.update h .node true) .pushLock true =
        (⟨.up, copiedName t.named, true, false, false, []⟩ : FilterHandle).holds := by
      funext k
      cases k with
      | text n =>
        by_cases hn : n = 0
        · subst n
          cases hname : t.named <;>
            simp [FilterHandle.holds, hh, Conn.on, copiedName, hname]
        · cases hname : t.named <;>
            simp [FilterHandle.holds, hh, Conn.on, alloced, copiedName, hn, Ne.symm hn]
      | _ => simp [FilterHandle.holds, hh, Conn.on, alloced, Conn.up]
    rw [hend] at hlock
    exact (hconnect.append (runs_locked rfl rfl hnode rfl)).append hlock

theorem FilterHandle.Good.uses (hf : f.Good) (ks : List Obj)
    (hk : ∀ k ∈ ks, k = .node ∨ k = .loop) :
    objRules.Runs f.holds (locked (ks.map .use)) f.holds := by
  refine hf.idle.uses ks fun k hmem => ?_
  obtain rfl | rfl := hk k hmem
  · exact hf.node
  · exact hf.idle.loop

theorem getD_off (links : List Bool) (p : ℕ) : (links.map fun _ => false).getD p false = false := by
  rw [List.getD_eq_getElem?_getD, List.getElem?_map]
  cases links[p]? <;> rfl

/-- No port has a link proxy. -/
def FilterHandle.Unlinked (f : FilterHandle) : Prop := ∀ p, f.links.getD p false = false

/-- The links of all ports go, and nothing else. -/
theorem FilterHandle.Good.releaseAllLinks (hf : f.Good) :
    f.releaseAllLinks.1.Good ∧ f.releaseAllLinks.1.Unlinked ∧
      objRules.Runs f.holds f.releaseAllLinks.2 f.releaseAllLinks.1.holds := by
  have hloop : f.conn.loop = true := by simp [hf.conn, Conn.up]
  unfold FilterHandle.releaseAllLinks
  rw [if_neg (by simp [hloop])]
  have hg : ({ f with links := f.links.map fun _ => false } : FilterHandle).Good :=
    ⟨hf.conn, hf.node⟩
  refine ⟨hg, getD_off f.links, runs_locked hf.idle.loop hf.idle.lock ?_ hg.idle.lock⟩
  refine runs_dropLinks (fun p q hpq => by simpa using hpq) (fun p => rfl) ?_ (fun p => rfl)
    (getD_off f.links) ?_
  · intro p j
    cases j <;> simp [Obj.needs]
  · intro k hk
    cases k with
    | link p => exact absurd rfl (hk p)
    | _ => rfl

theorem FilterHandle.Good.stop (hf : f.Good) (drain : Bool) :
    (f.stop drain).1.Good ∧ (f.running = true → (f.stop drain).1.Unlinked) ∧
      objRules.Runs f.holds (f.stop drain).2 (f.stop drain).1.holds := by
  unfold FilterHandle.stop
  by_cases hrun : f.running = true
  swap
  · rw [if_pos (by simp [hrun])]
    exact ⟨hf, fun h => absurd h hrun, .nil⟩
  rw [if_neg (by simp [hrun])]
  have hg : ({ f with running := false } : FilterHandle).Good := ⟨hf.conn, hf.node⟩
  obtain ⟨hgood, hoff, hruns⟩ := hg.releaseAllLinks
  refine ⟨hgood, fun _ => hoff, Custody.Rules.Runs.append ?_ hruns⟩
  cases drain with
  | true => exact hf.uses [.node, .loop, .node] (by simp)
  | false => exact hf.uses [.node] (by simp)

/-- The registry goes while the loop still runs. -/
theorem Idle.destroyRegistry (hi : Idle h) {b : Bool} (hb : h .registry = b)
    (hq : h .query = false) :
    objRules.Runs h (destroyRegistry .up b) (Function.update h .registry false) := by
  have hi' : Idle (Function.update h .registry false) := hi.update (by simp)
  refine runs_locked hi.loop hi.lock ?_ hi'.lock
  cases b with
  | false =>
    have hsame : Function.update h .registry false = h := by rw [← hb, Function.update_eq_self]
    rw [hsame]
    exact Custody.Rules.Runs.nil
  | true =>
    refine runs_drop rfl hb fun j hj => ?_
    cases j <;> simp [Obj.needs] at hj
    exact hq

/-- What is left of a filter without its node and connection. -/
def FilterHandle.rest (f : FilterHandle) : Held Obj
  | .share | .memory | .pushLock => true
  | .text n => decide (f.name = some n)
  | _ => false

theorem FilterHandle.bare_rest : Bare f.rest := by
  constructor <;> simp [FilterHandle.rest]

theorem FilterHandle.runs_freeRest :
    objRules.Runs f.rest ([.drop .pushLock] ++ (f.name.toList.map fun n => .drop (.text n)) ++
      [.drop .memory, .drop .share]) Custody.none := by
  have hlock : objRules.Runs f.rest [.drop .pushLock] (Function.update f.rest .pushLock false) :=
    .single ⟨rfl, fun j hj => by cases j <;> simp [objRules, Obj.needs] at hj,
      by simp [objRules, Obj.ofThread, Obj.guarded]⟩
  refine Custody.Rules.Runs.append (hlock.append ?_) runs_free
  cases hname : f.name with
  | none =>
    have hend : Function.update f.rest .pushLock false = alloced := by
      funext k
      cases k <;> simp [FilterHandle.rest, alloced, hname]
    rw [hend]
    exact .nil
  | some n =>
    have hfree := runs_freeText (h := Function.update f.rest .pushLock false) (n := n)
      (by simp [FilterHandle.rest, hname])
    have hend : Function.update (Function.update f.rest .pushLock false) (.text n) false =
        alloced := by
      funext k
      cases k with
      | text m => by_cases hm : m = n <;> simp [FilterHandle.rest, alloced, hname, hm, Ne.symm]
      | _ => simp [FilterHandle.rest, alloced]
    rw [hend] at hfree
    exact hfree

/-- `pwf_filter_destroy` leaves nothing. -/
theorem FilterHandle.Good.destroy (hf : f.Good) :
    objRules.Runs f.holds f.destroy Custody.none := by
  have hrelease : ∃ g es, (if f.running then f.stop false else f.releaseAllLinks) = (g, es) ∧
      g.Good ∧ g.Unlinked ∧ objRules.Runs f.holds es g.holds := by
    by_cases hrun : f.running = true
    · obtain ⟨hg, hoff, hruns⟩ := hf.stop false
      exact ⟨_, _, if_pos hrun, hg, hoff hrun, hruns⟩
    · obtain ⟨hg, hoff, hruns⟩ := hf.releaseAllLinks
      exact ⟨_, _, if_neg hrun, hg, hoff, hruns⟩
  obtain ⟨g, es, heq, hg, hlinks, hruns⟩ := hrelease
  unfold FilterHandle.destroy
  rw [heq]
  have hregistry := hg.idle.destroyRegistry (b := g.registry) rfl rfl
  have hnode : Function.update g.holds .registry false =
      Function.update (Conn.up.on g.rest) .node true := by
    funext k
    cases k with
    | link p => exact hlinks p
    | _ => simp [FilterHandle.holds, FilterHandle.rest, Conn.on, hg.conn, hg.node]
  rw [hnode] at hregistry
  have hdown := FilterHandle.bare_rest (f := g).teardownNode true
  have hall := ((hruns.append hregistry).append hdown).append g.runs_freeRest
  rw [← hg.conn, ← hg.node] at hall
  simpa [List.append_assoc] using hall

/-- One link is recorded as what it is. -/
theorem FilterHandle.holds_link {p : ℕ} {b : Bool} (hp : p < f.links.length) :
    Function.update f.holds (.link p) b = { f with links := f.links.set p b }.holds := by
  funext k
  cases k with
  | link q =>
    by_cases hq : q = p
    · subst q
      simp [FilterHandle.holds, List.getD_eq_getElem?_getD, hp]
    · simp [FilterHandle.holds, List.getD_eq_getElem?_getD, hq, Ne.symm hq]
  | _ => simp [FilterHandle.holds]

/-- A port's link is made, or not, and the properties it was asked for with are freed. -/
theorem FilterHandle.Good.portLink (hf : f.Good) (p : ℕ) (t : LinkTry) :
    (f.portLink p t).1.Good ∧
      objRules.Runs f.holds (f.portLink p t).2 (f.portLink p t).1.holds := by
  have hbind := hf.idle.registryBind (t := t.bind) (b := f.registry) rfl
  rw [f.holds_registry] at hbind
  unfold FilterHandle.portLink
  by_cases hrefused : (!f.running || f.links.getD p true) = true
  · rw [if_pos hrefused]
    exact ⟨hf, .nil⟩
  rw [if_neg hrefused]
  generalize pwfPwRegistryBind f.registry t.bind = r at hbind ⊢
  obtain ⟨registry, es, ok⟩ := r
  simp only at hbind ⊢
  set g : FilterHandle := { f with registry } with hgdef
  have hg : g.Good := ⟨hf.conn, hf.node⟩
  have hsearch : objRules.Runs f.holds (es ++ pwfPwRegistrySyncs t.syncs ++ [.use .node])
      g.holds :=
    (hbind.append (hg.idle.registrySyncs t.syncs)).append (.single hg.node)
  have hnew : f.links.getD p false = false := by
    rw [Bool.or_eq_true, not_or] at hrefused
    rw [List.getD_eq_getElem?_getD] at hrefused ⊢
    cases hl : f.links[p]? <;> simp_all
  have hp : p < g.links.length := by
    by_contra hlt
    rw [List.getD_eq_default _ _ (by simpa [hgdef] using hlt)] at hrefused
    simp at hrefused
  have hneeds : ∀ j ∈ (Obj.link p).needs, g.holds j = true := by
    intro j hj
    obtain rfl | rfl : j = .core ∨ j = .node := by simpa [Obj.needs] using hj
    · exact hg.idle.core
    · exact hg.node
  have hmade := hg.idle.linkMade (k := .link p) (Or.inl ⟨p, rfl⟩) hnew hneeds
  split_ifs
  · exact ⟨hg, hbind⟩
  · exact ⟨hg, hsearch⟩
  · refine ⟨hg, ?_⟩
    rw [List.append_assoc, List.append_assoc]
    exact hsearch.append (hg.idle.withProps hg.idle .nil)
  · refine ⟨hg, ?_⟩
    have hdrop := runs_drop (h := Function.update (Function.update g.holds (.link p) true) .props
      true) (k := .link p) rfl (by simp) (fun j hj => by cases j <;> simp [Obj.needs] at hj)
    have hback : Function.update (Function.update (Function.update g.holds (.link p) true) .props
        true) (.link p) false = Function.update g.holds .props true := by
      rw [Function.update_comm (by simp), Function.update_idem]
      congr 1
      funext k
      by_cases hk : k = .link p
      · subst k
        rw [Function.update_self]
        exact hnew.symm
      · simp [hk]
    rw [hback] at hdrop
    rw [List.append_assoc, List.append_assoc]
    exact hsearch.append (hg.idle.withProps hg.idle (hmade.append hdrop))
  · have hg' : ({ g with links := g.links.set p true } : FilterHandle).Good := ⟨hf.conn, hf.node⟩
    rw [g.holds_link hp] at hmade
    rw [List.append_assoc, List.append_assoc]
    exact ⟨hg', hsearch.append (hg.idle.withProps hg'.idle hmade)⟩

/-- Each call of a filter leaves what its record tells. -/
theorem FilterHandle.Good.call (hf : f.Good) (op : FilterOp) :
    FilterHandle.Leaves f.holds (f.call op) := by
  cases op with
  | addPort reached listed =>
    have hports : ({ f with links := if listed then f.links ++ [false] else f.links } :
        FilterHandle).holds = f.holds := by
      funext k
      cases k with
      | link p =>
        cases listed with
        | false => rfl
        | true =>
          simp only [FilterHandle.holds, if_true]
          by_cases hp : p < f.links.length
          · exact List.getD_append _ _ _ _ hp
          · rw [List.getD_append_right _ _ _ _ (by omega),
              List.getD_eq_default _ _ (Nat.not_lt.mp hp)]
            cases p - f.links.length <;> rfl
      | _ => rfl
    refine ⟨⟨hf.conn, hf.node⟩, ?_⟩
    rw [hports]
    cases reached with
    | true => exact hf.uses [.node] (by simp)
    | false => exact .nil
  | start connected => exact ⟨⟨hf.conn, hf.node⟩, hf.uses [.node] (by simp)⟩
  | stop drain => exact ⟨(hf.stop drain).1, (hf.stop drain).2.2⟩
  | portLink p t => exact hf.portLink p t
  | portUnlink p =>
    simp only [FilterHandle.call]
    split_ifs with hlinked
    · have hp : p < f.links.length := by
        by_contra hlt
        rw [List.getD_eq_default _ _ (by omega)] at hlinked
        cases hlinked
      have hg : ({ f with links := f.links.set p false } : FilterHandle).Good :=
        ⟨hf.conn, hf.node⟩
      have hdrop := runs_drop (h := f.holds) (k := .link p) rfl hlinked
        (fun j hj => by cases j <;> simp [Obj.needs] at hj)
      rw [f.holds_link hp] at hdrop
      exact ⟨hg, runs_locked hf.idle.loop hf.idle.lock hdrop hg.idle.lock⟩
    · exact ⟨hf, .nil⟩
  | getTargetVideoFormats t =>
    have hquery := hf.idle.getTargetVideoFormats (b := f.registry) rfl t
    rw [f.holds_registry] at hquery
    exact ⟨⟨hf.conn, hf.node⟩, hquery⟩
  | destroy => exact hf.destroy

end TinyPipewire.Core
