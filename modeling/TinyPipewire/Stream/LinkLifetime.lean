import TinyPipewire.Stream.Routing

/-!
# How long a link set lives

Every proxy alive is a link of the one set alive, which `stream->links` points to, and
releasing that set destroys the proxies it counts and frees it. The set a call still
fills counts fewer links than it has, so nobody else may release it.
-/

namespace TinyPipewire.Stream

/-- The proxy of link `j`. -/
def LinkSet.proxyAt (set : LinkSet) (j : ℕ) : Option ℕ := set.links[j]?.bind (·.proxy)

/-- The proxy of link `j` of set `l`. -/
def LinkMemory.proxyAt (m : LinkMemory) (l j : ℕ) : Option ℕ := (m.sets l).bind (·.proxyAt j)

/-- What is in memory, against what was destroyed and freed: each once, and nothing that is
still there. -/
structure LinkMemory.Sound (ws : List RoutingOut) (m : LinkMemory) : Prop where
  live : ∀ l, m.sets l ≠ none ↔ m.links = some l
  owned : ∀ id l j, m.proxies id = some (l, j) ↔ m.proxyAt l j = some id
  oldSet : ∀ l, m.sets l ≠ none → l < m.nextSet
  oldProxy : ∀ id, m.proxies id ≠ none → id < m.nextProxy
  destroyed : ∀ id, ws.count (.destroyed id) =
    if id < m.nextProxy ∧ m.proxies id = none then 1 else 0
  freed : ∀ l, ws.count (.freed l) = if l < m.nextSet ∧ m.sets l = none then 1 else 0
  asked : ∀ id i props, .requested id i props ∈ ws → id < m.nextProxy
  safe : m.faulted = false
  unharmed : .fault .links ∉ ws

/-- It tells nothing of the links' memory. -/
def RoutingOut.neutral : RoutingOut → Bool
  | .requested _ _ _ | .destroyed _ | .freed _ | .fault .links => false
  | _ => true

section Memory

variable {m : LinkMemory} {ws vs : List RoutingOut} {set : LinkSet} {l i j id : ℕ}

theorem sound_init : LinkMemory.Sound [] RoutingState.init.mem := by
  constructor <;> simp [RoutingState.init, LinkMemory.proxyAt]

theorem sound_append (hn : ∀ w ∈ vs, w.neutral = true) (h : m.Sound ws) :
    m.Sound (ws ++ vs) := by
  have hnot : ∀ w : RoutingOut, w.neutral = false → vs.count w = 0 := by
    intro w hw
    rw [List.count_eq_zero]
    intro hmem
    simp [hn w hmem] at hw
  refine ⟨h.live, h.owned, h.oldSet, h.oldProxy, fun id => ?_, fun l => ?_,
    fun id i props hmem => ?_, h.safe, ?_⟩
  · rw [List.count_append, hnot _ rfl, h.destroyed id, Nat.add_zero]
  · rw [List.count_append, hnot _ rfl, h.freed l, Nat.add_zero]
  · rcases List.mem_append.mp hmem with hmem | hmem
    · exact h.asked id i props hmem
    · simpa [RoutingOut.neutral] using hn _ hmem
  · intro hmem
    rcases List.mem_append.mp hmem with hmem | hmem
    · exact h.unharmed hmem
    · simpa [RoutingOut.neutral] using hn _ hmem

theorem sound_requested (i : ℕ) (props : LinkProps) (hid : id < m.nextProxy) (h : m.Sound ws) :
    m.Sound (ws ++ [.requested id i props]) := by
  refine ⟨h.live, h.owned, h.oldSet, h.oldProxy, fun id => ?_, fun l => ?_,
    fun id' i' props' hmem => ?_, h.safe, ?_⟩
  · simpa using h.destroyed id
  · simpa using h.freed l
  · rcases List.mem_append.mp hmem with hmem | hmem
    · exact h.asked id' i' props' hmem
    · obtain ⟨rfl, -, -⟩ := RoutingOut.requested.inj (List.mem_singleton.mp hmem)
      exact hid
  · simp [h.unharmed]

/-- A set whose links keep their proxies replaces the old one. -/
theorem sound_setSet {old : LinkSet} (hold : m.sets l = some old)
    (hp : ∀ j, set.proxyAt j = old.proxyAt j) (h : m.Sound ws) :
    (m.setSet l set).Sound ws := by
  have hnone : ∀ l', (m.setSet l set).sets l' = none ↔ m.sets l' = none := by
    intro l'
    by_cases hl : l' = l
    · subst hl
      simp [LinkMemory.setSet, hold]
    · simp [LinkMemory.setSet, hl]
  have hproxy : ∀ l' j, (m.setSet l set).proxyAt l' j = m.proxyAt l' j := by
    intro l' j
    by_cases hl : l' = l
    · subst hl
      simp [LinkMemory.proxyAt, LinkMemory.setSet, hold, hp]
    · simp [LinkMemory.proxyAt, LinkMemory.setSet, hl]
  refine ⟨fun l' => ?_, fun id l' j => ?_, fun l' hl' => ?_, h.oldProxy, h.destroyed,
    fun l' => ?_, h.asked, h.safe, h.unharmed⟩
  · rw [Ne, hnone]
    exact h.live l'
  · rw [hproxy]
    exact h.owned id l' j
  · exact h.oldSet l' (mt (hnone l').mpr hl')
  · simp only [hnone]
    exact h.freed l'

theorem proxyAt_zeroed {pairs target : ℕ} :
    LinkSet.proxyAt ⟨List.replicate pairs .zeroed, 0, target⟩ j = none := by
  unfold LinkSet.proxyAt
  cases hj : (List.replicate pairs StreamLink.zeroed)[j]? with
  | none => rfl
  | some k =>
    obtain rfl : k = StreamLink.zeroed := List.eq_of_mem_replicate (List.mem_of_getElem? hj)
    rfl

theorem sound_publish {pairs target : ℕ} (hlinks : m.links = none) (h : m.Sound ws) :
    (m.publish pairs target).Sound ws := by
  have hnone : ∀ l, m.sets l = none := by
    intro l
    by_contra hl
    simp [(h.live l).mp hl] at hlinks
  have hproxies : ∀ id, m.proxies id = none := by
    intro id
    by_contra hid
    obtain ⟨⟨l, j⟩, hlj⟩ := Option.ne_none_iff_exists'.mp hid
    have hat := (h.owned id l j).mp hlj
    simp [LinkMemory.proxyAt, hnone] at hat
  have hzero : ∀ l j, (m.publish pairs target).proxyAt l j = none := by
    intro l j
    by_cases hl : l = m.nextSet
    · simp only [LinkMemory.proxyAt, LinkMemory.publish, hl, Function.update_self,
        Option.bind_some]
      exact proxyAt_zeroed
    · simp [LinkMemory.proxyAt, LinkMemory.publish, hl, hnone]
  refine ⟨fun l => ?_, fun id l j => ?_, fun l hl => ?_, h.oldProxy, h.destroyed,
    fun l => ?_, h.asked, h.safe, h.unharmed⟩
  · by_cases hl : l = m.nextSet
    · simp [LinkMemory.publish, hl]
    · simp [LinkMemory.publish, hl, hnone, Ne.symm hl]
  · rw [hzero]
    simp [LinkMemory.publish, hproxies]
  · by_cases hl' : l = m.nextSet
    · simp [LinkMemory.publish, hl']
    · simp [LinkMemory.publish, hl', hnone] at hl
  · rw [h.freed l]
    by_cases hl : l = m.nextSet
    · simp [LinkMemory.publish, hl]
    · have : l < m.nextSet ↔ l < m.nextSet + 1 := by omega
      simp [LinkMemory.publish, hl, hnone, this]

theorem proxyAt_createProxy {l' : ℕ} (hset : m.sets l = some set)
    (hi : i < set.links.length) : (m.createProxy l i set).proxyAt l' j =
      if l' = l ∧ j = i then some m.nextProxy else m.proxyAt l' j := by
  by_cases hl : l' = l
  · subst hl
    by_cases hj : j = i
    · subst hj
      simp [LinkMemory.proxyAt, LinkMemory.createProxy, LinkMemory.setSet, LinkSet.proxyAt, hi]
    · simp [LinkMemory.proxyAt, LinkMemory.createProxy, LinkMemory.setSet, LinkSet.proxyAt,
        hset, hj, Ne.symm hj]
  · simp [LinkMemory.proxyAt, LinkMemory.createProxy, LinkMemory.setSet, hl]

/-- A link without a proxy gets a new one. -/
theorem sound_createProxy (hset : m.sets l = some set) (hi : i < set.links.length)
    (hnone : set.proxyAt i = none) (h : m.Sound ws) : (m.createProxy l i set).Sound ws := by
  have hsets : ∀ l', (m.createProxy l i set).sets l' = none ↔ m.sets l' = none := by
    intro l'
    by_cases hl : l' = l
    · subst hl
      simp [LinkMemory.createProxy, LinkMemory.setSet, hset]
    · simp [LinkMemory.createProxy, LinkMemory.setSet, hl]
  have hnew : m.proxies m.nextProxy = none := by
    by_contra hp
    exact lt_irrefl _ (h.oldProxy _ hp)
  refine ⟨fun l' => ?_, fun id l' j => ?_, fun l' hl' => ?_, fun id hid => ?_, fun id => ?_,
    fun l' => ?_, fun id i props hmem => (h.asked id i props hmem).trans (Nat.lt_succ_self _),
    h.safe, h.unharmed⟩
  · rw [Ne, hsets]
    exact h.live l'
  · rw [proxyAt_createProxy hset hi]
    by_cases hid : id = m.nextProxy
    · subst hid
      have hlate : m.proxyAt l' j ≠ some m.nextProxy := by
        intro hat
        simp [(h.owned _ _ _).mpr hat] at hnew
      by_cases hlj : l' = l ∧ j = i
      · simp [LinkMemory.createProxy, hlj]
      · simp only [LinkMemory.createProxy, Function.update_self, if_neg hlj, hlate, iff_false]
        rintro heq
        simp only [Option.some.injEq, Prod.mk.injEq] at heq
        exact hlj ⟨heq.1.symm, heq.2.symm⟩
    · have hold : (m.createProxy l i set).proxies id = m.proxies id := by
        simp [LinkMemory.createProxy, hid]
      rw [hold, h.owned id l' j]
      by_cases hlj : l' = l ∧ j = i
      · obtain ⟨rfl, rfl⟩ := hlj
        simp [LinkMemory.proxyAt, hset, hnone, Ne.symm hid]
      · rw [if_neg hlj]
  · exact h.oldSet l' (mt (hsets l').mpr hl')
  · by_cases hid' : id = m.nextProxy
    · simp [LinkMemory.createProxy, hid']
    · have hold : m.proxies id ≠ none := by simpa [LinkMemory.createProxy, hid'] using hid
      exact (h.oldProxy id hold).trans (Nat.lt_succ_self _)
  · rw [h.destroyed id]
    by_cases hid : id = m.nextProxy
    · simp [LinkMemory.createProxy, hid]
    · have hlt : id < m.nextProxy ↔ id < m.nextProxy + 1 := by omega
      simp [LinkMemory.createProxy, hid, hlt]
  · simp only [hsets]
    exact h.freed l'

/-- The links a release goes over have their proxies destroyed. -/
theorem mem_released (hj : j < set.nLinks) (hid : set.proxyAt j = some id) :
    id ∈ set.released := by
  obtain ⟨k, hk, hp⟩ := Option.bind_eq_some_iff.mp hid
  refine List.mem_filterMap.mpr ⟨k, ?_, hp⟩
  refine List.mem_of_getElem? (i := j) ?_
  rw [List.getElem?_take_of_lt hj]
  exact hk

theorem released_proxyAt (h : id ∈ set.released) : ∃ j, set.proxyAt j = some id := by
  obtain ⟨k, hk, hp⟩ := List.mem_filterMap.mp h
  obtain ⟨j, hj⟩ := List.mem_iff_getElem?.mp (List.mem_of_mem_take hk)
  exact ⟨j, by rw [LinkSet.proxyAt, hj]; exact hp⟩

/-- What no two entries of a list give, it gives once. -/
theorem nodup_filterMap {α β : Type} {f : α → Option β} {ks : List α}
    (h : ∀ (i j : ℕ) (b : β), ks[i]?.bind f = some b → ks[j]?.bind f = some b → i = j) :
    (ks.filterMap f).Nodup := by
  induction ks with
  | nil => simp
  | cons k ks ih =>
    have htail := ih fun i j b hi hj => Nat.succ.inj (h (i + 1) (j + 1) b hi hj)
    cases hk : f k with
    | none =>
      rw [List.filterMap_cons_none hk]
      exact htail
    | some b =>
      rw [List.filterMap_cons_some hk, List.nodup_cons]
      refine ⟨fun hmem => ?_, htail⟩
      obtain ⟨k', hk', hb⟩ := List.mem_filterMap.mp hmem
      obtain ⟨j, hj⟩ := List.mem_iff_getElem?.mp hk'
      have hzero := h 0 (j + 1) b (by simp [hk]) (by simp [hj, hb])
      omega

/-- One proxy is of one link. -/
theorem released_nodup (hset : m.sets l = some set) (h : m.Sound ws) : set.released.Nodup := by
  have hinj : ∀ i j id, set.proxyAt i = some id → set.proxyAt j = some id → i = j := by
    intro i j id hi hj
    have hat : ∀ {i}, set.proxyAt i = some id → m.proxies id = some (l, i) := by
      intro i hi
      exact (h.owned id l i).mpr (by simpa [LinkMemory.proxyAt, hset] using hi)
    have heq := (hat hi).symm.trans (hat hj)
    exact (Prod.mk.inj (Option.some.inj heq)).2
  exact ((List.take_sublist _ _).filterMap _).nodup (nodup_filterMap hinj)

/-- The proxies there are belong to the set that is published. -/
theorem proxies_published (h : m.Sound ws) (hlinks : m.links = some l)
    (hset : m.sets l = some set) {id l' j : ℕ} :
    m.proxies id = some (l', j) ↔ l' = l ∧ set.proxyAt j = some id := by
  rw [h.owned]
  constructor
  · intro hat
    have hl : m.sets l' ≠ none := by
      intro hnone
      simp [LinkMemory.proxyAt, hnone] at hat
    obtain rfl : l = l' := Option.some.inj (hlinks.symm.trans ((h.live l').mp hl))
    exact ⟨rfl, by simpa [LinkMemory.proxyAt, hset] using hat⟩
  · rintro ⟨rfl, hat⟩
    simpa [LinkMemory.proxyAt, hset] using hat

/-- A set that counts all its proxies has them all released. -/
theorem mem_released_iff (h : m.Sound ws) (hlinks : m.links = some l) (hset : m.sets l = some set)
    (hcounted : ∀ j id, set.proxyAt j = some id → j < set.nLinks) {id : ℕ} :
    id ∈ set.released ↔ m.proxies id ≠ none := by
  constructor
  · intro hmem
    obtain ⟨j, hj⟩ := released_proxyAt hmem
    simp [(proxies_published h hlinks hset).mpr ⟨rfl, hj⟩]
  · intro hne
    obtain ⟨⟨l', j⟩, hlj⟩ := Option.ne_none_iff_exists'.mp hne
    obtain ⟨-, hat⟩ := (proxies_published h hlinks hset).mp hlj
    exact mem_released (hcounted j id hat) hat

/-- There is no set but the one that is published. -/
theorem sets_update_none (h : m.Sound ws) (hlinks : m.links = some l) (l' : ℕ) :
    Function.update m.sets l none l' = none := by
  by_cases hl : l' = l
  · simp [hl]
  · rw [Function.update_of_ne hl]
    by_contra hne
    exact hl (Option.some.inj (((h.live l').mp hne).symm.trans hlinks))

theorem count_destroyed {ids : List ℕ} {id : ℕ} :
    (ids.map RoutingOut.destroyed ++ [RoutingOut.freed l]).count (.destroyed id) =
      ids.count id := by
  rw [List.count_append, List.count_map_of_injective _ _
    (fun a b hab => RoutingOut.destroyed.inj hab)]
  simp

theorem count_freed {ids : List ℕ} {l' : ℕ} :
    (ids.map RoutingOut.destroyed ++ [RoutingOut.freed l]).count (.freed l') =
      if l' = l then 1 else 0 := by
  rw [List.count_append, List.count_eq_zero_of_not_mem (by simp), Nat.zero_add]
  by_cases hl : l' = l
  · simp [hl]
  · simp [hl, Ne.symm hl]

/-- A release of a set that counts all its proxies destroys them and frees it, once. -/
theorem sound_releaseLinks (h : m.Sound ws)
    (hcounted : ∀ l set, m.links = some l → m.sets l = some set →
      ∀ j id, set.proxyAt j = some id → j < set.nLinks) :
    m.releaseLinks.1.Sound (ws ++ m.releaseLinks.2) ∧ m.releaseLinks.1.links = none := by
  cases hlinks : m.links with
  | none =>
    have hr : m.releaseLinks = (m, []) := by simp [LinkMemory.releaseLinks, hlinks]
    rw [hr, List.append_nil]
    exact ⟨h, hlinks⟩
  | some l =>
    obtain ⟨set, hset⟩ := Option.ne_none_iff_exists'.mp ((h.live l).mpr hlinks)
    have hreleased : ∀ id, id ∈ set.released ↔ m.proxies id ≠ none :=
      fun id => mem_released_iff h hlinks hset (hcounted l set hlinks hset)
    have hr : m.releaseLinks = ({ m with
          links := none
          sets := Function.update m.sets l none
          proxies := fun id => if id ∈ set.released then none else m.proxies id },
        set.released.map .destroyed ++ [.freed l]) := by
      simp [LinkMemory.releaseLinks, hlinks, hset]
    have hgone : ∀ id, (if id ∈ set.released then none else m.proxies id) = none := by
      intro id
      by_cases hid : id ∈ set.released
      · rw [if_pos hid]
      · rw [if_neg hid]
        simpa using mt (hreleased id).mpr hid
    have hsets := sets_update_none h hlinks
    rw [hr]
    refine ⟨⟨fun l' => ?_, fun id l' j => ?_, fun l' hl' => ?_, fun id hid => ?_,
      fun id => ?_, fun l' => ?_, fun id i props hmem => h.asked id i props ?_, h.safe, ?_⟩,
      rfl⟩
    · simp [hsets]
    · simp only [hgone, LinkMemory.proxyAt, hsets]
      simp
    · exact absurd (hsets l') hl'
    · exact absurd (hgone id) hid
    · rw [List.count_append, count_destroyed, h.destroyed id]
      simp only [hgone, and_true]
      by_cases hid : id ∈ set.released
      · have hone := List.count_eq_one_of_mem (released_nodup hset h) hid
        have hne := (hreleased id).mp hid
        simp [hone, hne, h.oldProxy id hne]
      · have hnone : m.proxies id = none := by simpa using mt (hreleased id).mpr hid
        simp [List.count_eq_zero_of_not_mem hid, hnone]
    · rw [List.count_append, count_freed, h.freed l']
      simp only [hsets, and_true]
      by_cases hl : l' = l
      · subst hl
        have hne : m.sets l' ≠ none := by simp [hset]
        simp [hne, h.oldSet l' hne]
      · have hnone : m.sets l' = none := by simpa [hl] using hsets l'
        simp [hl, hnone]
    · simpa using hmem
    · simp [h.unharmed]

end Memory

/-! ### The set a call fills -/

/-- A set with the call's links, of which it counts those before `c.i`; those before `lo`
have a proxy, and those from `hi` on have none. -/
structure LinkSet.Filled (set : LinkSet) (c : Wiring) (lo hi : ℕ) : Prop where
  pairs : set.links.length = c.pairs
  index : c.i < c.pairs
  count : set.nLinks = c.i
  target : set.targetNodeId = c.targetNode
  made : ∀ j, j < lo → set.proxyAt j ≠ none
  unmade : ∀ j, hi ≤ j → set.proxyAt j = none

namespace RoutingState

variable (s : RoutingState)

def Filling (c : Wiring) (lo hi : ℕ) : Prop :=
  s.mem.links = some c.set ∧ ∃ set, s.mem.sets c.set = some set ∧ set.Filled c lo hi

/-- A call has its set published, filled as far as it got; between calls every link of the
set has a proxy and is counted. -/
def CallInv : Prop :=
  match s.call with
  | .idle => ∀ l set, s.mem.links = some l → s.mem.sets l = some set →
      set.nLinks = set.links.length ∧ ∀ j, j < set.links.length → set.proxyAt j ≠ none
  | .lookup _ => s.mem.links = none
  | .wiring c => s.Filling c c.i c.i
  | .waiting c => s.Filling c (c.i + 1) (c.i + 1)
  | .waited c r => s.Filling c (if r = .ok then c.i + 1 else c.i) (c.i + 1)

structure Inv (ws : List RoutingOut) : Prop where
  sound : s.mem.Sound ws
  call : s.CallInv

/-- While a call has its set published, neither its target goes nor does an error callback
unlink the stream. -/
def LinksKept : RoutingAction → Prop
  | .globalRemoved id => ∀ c ∈ s.call.published, id ≠ c.targetNode
  | .callbackUnlink => s.call.published = none
  | _ => True

instance : DecidablePred s.LinksKept
  | .globalRemoved id => inferInstanceAs (Decidable (∀ c ∈ s.call.published, id ≠ c.targetNode))
  | .callbackUnlink => inferInstanceAs (Decidable (_ = _))
  | .linkEnter _ | .linkLookupFailed _ | .awaitOwnPorts _ | .ownPortsTimeout | .listPorts _ _ _
  | .requestLink _ _ _ | .resumeLink _ | .recordLink | .info _ _ | .nodeAdded _
  | .portAdded _ _ _ | .sourceLost | .callbackStop | .callbackStart | .callbackReturn | .unlink
  | .start | .stop =>
    inferInstanceAs (Decidable True)

end RoutingState

section Step

variable {cfg : StreamConfig} {s : RoutingState} {c : Wiring} {set : LinkSet}
  {ws : List RoutingOut} {l i j lo hi : ℕ}

theorem proxyAt_set {k : StreamLink} (hk : i < set.links.length → k.proxy = set.proxyAt i) :
    LinkSet.proxyAt { set with links := set.links.set i k } j = set.proxyAt j := by
  by_cases hj : j = i
  · subst hj
    by_cases hi : j < set.links.length
    · simp [LinkSet.proxyAt, hi, hk hi]
    · simp [LinkSet.proxyAt, hi]
  · simp [LinkSet.proxyAt, Ne.symm hj]

theorem proxyAt_set_self {k : StreamLink} (hi : i < set.links.length) :
    LinkSet.proxyAt { set with links := set.links.set i k } i = k.proxy := by
  simp [LinkSet.proxyAt, hi]

theorem proxyAt_set_other {k : StreamLink} (hj : j ≠ i) :
    LinkSet.proxyAt { set with links := set.links.set i k } j = set.proxyAt j := by
  simp [LinkSet.proxyAt, Ne.symm hj]

theorem proxyAt_lt (h : set.proxyAt j ≠ none) : j < set.links.length := by
  by_contra hj
  exact h (by simp [LinkSet.proxyAt, List.getElem?_eq_none (not_lt.mp hj)])

theorem filled_congr {set' : LinkSet} (h : set.Filled c lo hi)
    (hlen : set'.links.length = set.links.length) (hcount : set'.nLinks = set.nLinks)
    (htarget : set'.targetNodeId = set.targetNodeId)
    (hp : ∀ j, set'.proxyAt j = set.proxyAt j) : set'.Filled c lo hi where
  pairs := hlen.trans h.pairs
  index := h.index
  count := hcount.trans h.count
  target := htarget.trans h.target
  made := fun j hj => by rw [hp]; exact h.made j hj
  unmade := fun j hj => by rw [hp]; exact h.unmade j hj

theorem filled_mono {lo' hi' : ℕ} (h : set.Filled c lo hi) (hlo : lo' ≤ lo) (hhi : hi ≤ hi') :
    set.Filled c lo' hi' :=
  { h with
    made := fun j hj => h.made j (hj.trans_le hlo)
    unmade := fun j hj => h.unmade j (hhi.trans hj) }

theorem readPort_neutral {reg : Registry} {ports : List PortPtr} {junk : ℕ} :
    ∀ w ∈ (readPort reg ports i junk).2, w.neutral = true := by
  unfold readPort
  split
  · split <;> simp [RoutingOut.neutral]
  · simp [RoutingOut.neutral]

/-- Between calls a release is of a set that counts all its links. -/
theorem inv_release (h : s.Inv ws) (hcall : s.call.published = none) :
    s.mem.releaseLinks.1.Sound (ws ++ s.mem.releaseLinks.2) ∧
      s.mem.releaseLinks.1.links = none := by
  refine sound_releaseLinks h.sound fun l set hl hset j id hj => ?_
  have hinv := h.call
  unfold RoutingState.CallInv at hinv
  cases hc : s.call with
  | idle =>
    rw [hc] at hinv
    rw [(hinv l set hl hset).1]
    exact proxyAt_lt (by simp [hj])
  | lookup =>
    rw [hc] at hinv
    simp [hl] at hinv
  | wiring c | waiting c | waited c r => simp [hc, LinkCall.published] at hcall

theorem inv_linkOne {props created : Bool} {junk : ℕ × ℕ} (h : s.Inv ws)
    (hc : s.call = .wiring c) : (s.linkOne cfg c props created junk).1.Inv
      (ws ++ (s.linkOne cfg c props created junk).2) := by
  have hcall := h.call
  unfold RoutingState.CallInv at hcall
  rw [hc] at hcall
  obtain ⟨hlinks, set, hset, hfilled⟩ := hcall
  have hread : ∀ w ∈ (readPort s.registry c.own c.i junk.1).2 ++
      (readPort s.registry c.peer c.i junk.2).2, w.neutral = true := by
    intro w hw
    rcases List.mem_append.mp hw with hw | hw
    · exact readPort_neutral w hw
    · exact readPort_neutral w hw
  have hlen : c.i < set.links.length := hfilled.pairs ▸ hfilled.index
  have hnone : set.proxyAt c.i = none := hfilled.unmade c.i le_rfl
  unfold RoutingState.linkOne
  simp only [hset]
  cases props with
  | false =>
    refine ⟨sound_append hread h.sound, hlinks, set, hset, ?_⟩
    exact filled_mono hfilled le_rfl (Nat.le_succ _)
  | true =>
    cases created with
    | false =>
      have hsame : ∀ j, LinkSet.proxyAt { set with links := set.links.set c.i .zeroed } j =
          set.proxyAt j := fun j => proxyAt_set fun _ => hnone.symm
      refine ⟨sound_append hread (sound_setSet hset hsame h.sound), hlinks, _,
        Function.update_self .., ?_⟩
      exact filled_mono (filled_congr hfilled (by simp) rfl rfl hsame) le_rfl (Nat.le_succ _)
    | true =>
      have hself : LinkSet.proxyAt
          { set with links := set.links.set c.i ⟨some s.mem.nextProxy, false, false⟩ } c.i =
            some s.mem.nextProxy := proxyAt_set_self hlen
      refine ⟨?_, hlinks, _, Function.update_self .., ?_⟩
      · have hrequested := fun props => sound_requested c.i props
          (Nat.lt_succ_self s.mem.nextProxy)
          (sound_append hread (sound_createProxy hset hlen hnone h.sound))
        simp only [List.append_assoc ws] at hrequested
        exact hrequested _
      · refine ⟨by simpa using hfilled.pairs, hfilled.index, hfilled.count, hfilled.target,
          fun j hj => ?_, fun j hj => ?_⟩
        · rcases Nat.lt_succ_iff_lt_or_eq.mp hj with hj | rfl
          · rw [proxyAt_set_other hj.ne]
            exact hfilled.made j hj
          · rw [hself]
            simp
        · have hne : j ≠ c.i := by omega
          rw [proxyAt_set_other hne]
          exact hfilled.unmade j (by omega)

theorem inv_resumed {timedOut : Bool} (h : s.Inv ws) (hc : s.call = .waiting c) :
    (s.resumed c timedOut).1.Inv (ws ++ (s.resumed c timedOut).2) := by
  have hcall := h.call
  unfold RoutingState.CallInv at hcall
  rw [hc] at hcall
  obtain ⟨hlinks, set, hset, hfilled⟩ := hcall
  unfold RoutingState.resumed
  rw [hset, List.append_nil]
  refine ⟨h.sound, hlinks, set, hset, filled_mono hfilled ?_ le_rfl⟩
  split <;> omega

theorem inv_recorded {r : PwfError} (h : s.Inv ws) (hc : s.call = .waited c r) :
    (s.recorded c r).1.Inv (ws ++ (s.recorded c r).2) := by
  have hcall := h.call
  unfold RoutingState.CallInv at hcall
  rw [hc] at hcall
  obtain ⟨hlinks, set, hset, hfilled⟩ := hcall
  have hsound : (s.mem.setSet c.set { set with nLinks := c.i + 1 }).Sound ws :=
    sound_setSet hset (fun _ => rfl) h.sound
  unfold RoutingState.recorded
  simp only [hset]
  by_cases hr : r = .ok
  · simp only [hr, if_pos] at hfilled
    have hpeer : ∀ i, ∀ w ∈ (readPort s.registry c.peer i 0).2, w.neutral = true :=
      fun i => readPort_neutral
    rw [if_neg (by simpa using hr)]
    split
    · rename_i hnext
      refine ⟨sound_append (hpeer c.i) hsound, hlinks, _, Function.update_self .., ?_⟩
      exact ⟨hfilled.pairs, hnext, rfl, hfilled.target, hfilled.made, hfilled.unmade⟩
    · rename_i hlast
      have hpairs : c.i + 1 = c.pairs := by
        have hlt := hfilled.index
        omega
      refine ⟨sound_append ?_ hsound, ?_⟩
      · intro w hw
        rcases List.mem_append.mp hw with hw | hw
        · rcases List.mem_append.mp hw with hw | hw
          · exact hpeer c.i w hw
          · split at hw
            · exact hpeer c.pairs w hw
            · simp at hw
        · obtain rfl := List.mem_singleton.mp hw
          rfl
      · intro l set' hl hset'
        obtain rfl : c.set = l := Option.some.inj (hlinks.symm.trans hl)
        obtain rfl : { set with nLinks := c.i + 1 } = set' := by
          simpa [LinkMemory.setSet] using hset'
        refine ⟨hpairs.trans hfilled.pairs.symm, fun j hj => hfilled.made j ?_⟩
        have hlen := hfilled.pairs
        simp only at hj
        omega
  · rw [if_pos hr]
    have hlinks' : (s.mem.setSet c.set { set with nLinks := c.i + 1 }).links = some c.set :=
      hlinks
    obtain ⟨hrel, hnone⟩ := sound_releaseLinks hsound fun l set' hl hset' j id hj => by
      obtain rfl : c.set = l := Option.some.inj (hlinks'.symm.trans hl)
      obtain rfl : { set with nLinks := c.i + 1 } = set' := by
        simpa [LinkMemory.setSet] using hset'
      by_contra hge
      have hat : set.proxyAt j = some id := hj
      have hge : ¬ j < c.i + 1 := hge
      rw [hfilled.unmade j (by omega)] at hat
      simp at hat
    refine ⟨?_, ?_⟩
    · rw [← List.append_assoc]
      refine sound_append ?_ hrel
      intro w hw
      obtain rfl := List.mem_singleton.mp hw
      rfl
    · intro l set' hl
      simp [hnone] at hl

/-- A set of the same shape and proxies may stand for another. -/
theorem callInv_setSet {set' : LinkSet} (hset : s.mem.sets l = some set)
    (hlen : set'.links.length = set.links.length) (hcount : set'.nLinks = set.nLinks)
    (htarget : set'.targetNodeId = set.targetNodeId)
    (hp : ∀ j, set'.proxyAt j = set.proxyAt j) (h : s.CallInv) :
    RoutingState.CallInv { s with mem := s.mem.setSet l set' } := by
  have hfilling : ∀ {c lo hi}, s.Filling c lo hi →
      RoutingState.Filling { s with mem := s.mem.setSet l set' } c lo hi := by
    rintro c lo hi ⟨hlinks, old, hold, hfilled⟩
    refine ⟨hlinks, ?_⟩
    by_cases hl : c.set = l
    · subst hl
      obtain rfl : set = old := Option.some.inj (hset.symm.trans hold)
      exact ⟨set', Function.update_self .., filled_congr hfilled hlen hcount htarget hp⟩
    · exact ⟨old, (Function.update_of_ne hl ..).trans hold, hfilled⟩
  unfold RoutingState.CallInv at h ⊢
  cases hc : s.call with
  | idle =>
    rw [hc] at h
    intro l' set'' hl hset''
    by_cases hl' : l' = l
    · subst hl'
      obtain rfl : set' = set'' := by simpa [LinkMemory.setSet] using hset''
      obtain ⟨hn, hall⟩ := h l' set hl hset
      refine ⟨hcount.trans (hn.trans hlen.symm), fun j hj => ?_⟩
      rw [hp]
      exact hall j (hlen ▸ hj)
    · exact h l' set'' hl (by simpa [LinkMemory.setSet, hl'] using hset'')
  | lookup =>
    rw [hc] at h
    exact h
  | wiring c | waiting c | waited c r =>
    rw [hc] at h
    exact hfilling h

/-- The link a proxy alive reports to is there. -/
theorem proxy_link {id : ℕ} (h : s.mem.Sound ws) (hp : s.mem.proxies id = some (l, j)) :
    ∃ set, s.mem.sets l = some set ∧ set.proxyAt j = some id := by
  have hat := (h.owned id l j).mp hp
  obtain ⟨set, hset, hj⟩ := Option.bind_eq_some_iff.mp hat
  exact ⟨set, hset, hj⟩

theorem inv_informed {id : ℕ} {i : PwLinkInfo} (h : s.Inv ws) :
    (s.informed id i).1.Inv (ws ++ (s.informed id i).2) := by
  unfold RoutingState.informed
  split
  · simpa using h
  · cases hp : s.mem.proxies id with
    | none => simpa using h
    | some lj =>
      obtain ⟨l, j⟩ := lj
      obtain ⟨set, hset, hat⟩ := proxy_link h.sound hp
      simp only [hset]
      have hj : j < set.links.length := proxyAt_lt (by simp [hat])
      have hsame : ∀ j', LinkSet.proxyAt { set with
          links := set.links.set j (linkOnInfo ((set.links[j]?).getD .zeroed) i.state) } j' =
            set.proxyAt j' := by
        intro j'
        refine proxyAt_set fun _ => ?_
        rw [linkOnInfo_proxy]
        simp [LinkSet.proxyAt, hj]
      refine ⟨sound_append (by simp [RoutingOut.neutral]) (sound_setSet hset hsame h.sound), ?_⟩
      exact callInv_setSet hset (by simp) rfl rfl hsame h.call

/-- A call that looks things up has no set yet, and no other is published. -/
theorem lookup_unlinked {k : Lookup} (h : s.CallInv) (hc : s.call = .lookup k) :
    s.mem.links = none := by
  unfold RoutingState.CallInv at h
  rwa [hc] at h

theorem inv_listed {ownNode targetNode : ℕ} {allocated : Bool} {k : Lookup} (h : s.Inv ws)
    (hc : s.call = .lookup k) : (s.listed cfg ownNode targetNode allocated).1.Inv
      (ws ++ (s.listed cfg ownNode targetNode allocated).2) := by
  have hlinks : s.mem.links = none := lookup_unlinked h.call hc
  have hidle : RoutingState.CallInv { s with call := .idle } := by
    intro l set hl
    exact absurd (hlinks.symm.trans hl) (by simp)
  unfold RoutingState.listed
  dsimp only
  split
  · exact ⟨sound_append (by simp [RoutingOut.neutral]) h.sound, hidle⟩
  · rename_i hok
    split
    · exact ⟨sound_append (by simp [RoutingOut.neutral]) h.sound, hidle⟩
    · refine ⟨sound_append (by simp [RoutingOut.neutral]) (sound_publish hlinks h.sound), rfl,
        _, Function.update_self .., ?_⟩
      refine ⟨by simp, ?_, rfl, rfl, fun j hj => absurd hj (Nat.not_lt_zero _), fun j _ => ?_⟩
      · have hpairs := not_or.mp (not_or.mp hok).2
        exact Nat.pos_of_ne_zero hpairs.2
      · exact proxyAt_zeroed

theorem published_filling (h : s.CallInv) (hc : s.call.published = some c) :
    ∃ lo hi, s.Filling c lo hi := by
  unfold RoutingState.CallInv at h
  cases hcall : s.call with
  | idle | lookup k => simp [hcall, LinkCall.published] at hc
  | wiring d | waiting d | waited d r =>
    obtain rfl : d = c := by simpa [hcall, LinkCall.published] using hc
    rw [hcall] at h
    exact ⟨_, _, h⟩

theorem callInv_unlinked (hlinks : s.mem.links = none) (hc : s.call.published = none) :
    s.CallInv := by
  unfold RoutingState.CallInv
  cases hcall : s.call with
  | idle =>
    intro l set hl
    simp [hlinks] at hl
  | lookup => exact hlinks
  | wiring d | waiting d | waited d r => simp [hcall, LinkCall.published] at hc

/-- The links are as they were, and so is the call. -/
theorem inv_same {t : RoutingState} {vs : List RoutingOut} (hm : t.mem = s.mem)
    (hc : t.call = s.call) (hn : ∀ w ∈ vs, w.neutral = true) (h : s.Inv ws) :
    t.Inv (ws ++ vs) := by
  refine ⟨hm ▸ sound_append hn h.sound, ?_⟩
  have hcall := h.call
  unfold RoutingState.CallInv RoutingState.Filling at hcall ⊢
  rw [hm, hc]
  exact hcall

theorem reportError_same (cfg : StreamConfig) (s : RoutingState) :
    (s.reportError cfg).1.mem = s.mem ∧ (s.reportError cfg).1.call = s.call ∧
      ∀ w ∈ (s.reportError cfg).2, w.neutral = true := by
  obtain ⟨hc, hm, -⟩ := reportError_keeps cfg s
  refine ⟨hm, hc, ?_⟩
  intro w hw
  obtain rfl := reportError_emits hw
  rfl

theorem inv_unlinked (h : s.Inv ws) (hc : s.call.published = none) :
    (s.withMemory s.mem.releaseLinks).1.Inv (ws ++ (s.withMemory s.mem.releaseLinks).2) := by
  obtain ⟨hsound, hlinks⟩ := inv_release h hc
  exact ⟨hsound, callInv_unlinked hlinks hc⟩

theorem inv_globalRemoved {id : ℕ} (h : s.Inv ws)
    (hkept : ∀ c ∈ s.call.published, id ≠ c.targetNode) :
    (s.globalRemoved cfg id).1.Inv (ws ++ (s.globalRemoved cfg id).2) := by
  have hquiet : RoutingState.Inv { s with registry := s.registry.globalRemove id } (ws ++ []) :=
    inv_same (s := s) rfl rfl (by simp) h
  rw [List.append_nil] at hquiet
  unfold RoutingState.globalRemoved
  split
  · rwa [List.append_nil]
  · cases hlinks : s.mem.links with
    | none => simpa using hquiet
    | some l =>
      obtain ⟨set, hset⟩ := Option.ne_none_iff_exists'.mp ((h.sound.live l).mpr hlinks)
      simp only [hset]
      split
      · simpa using hquiet
      · rename_i htarget
        have hcall : s.call.published = none := by
          by_contra hne
          obtain ⟨c, hc⟩ := Option.ne_none_iff_exists'.mp hne
          obtain ⟨lo, hi, hl, set', hset', hfilled⟩ := published_filling h.call hc
          obtain rfl : l = c.set := Option.some.inj (hlinks.symm.trans hl)
          obtain rfl : set = set' := Option.some.inj (hset.symm.trans hset')
          exact hkept c hc ((not_not.mp htarget).symm.trans hfilled.target)
        obtain ⟨hm, hc, hn⟩ := reportError_same cfg
          (RoutingState.withMemory { s with registry := s.registry.globalRemove id }
            s.mem.releaseLinks).1
        rw [← List.append_assoc]
        exact inv_same hm hc hn (inv_unlinked hquiet hcall)

/-- A call gets past its checks only on a stream without links. -/
theorem linkRefusal_unlinked {inCallback : Bool} (h : linkRefusal cfg s inCallback = none) :
    s.mem.links = none := by
  cases hl : s.mem.links with
  | none => rfl
  | some l =>
    unfold linkRefusal at h
    split at h
    · simp at h
    · split at h
      · simp at h
      · simp [hl] at h

/-- Every action that keeps a call's links keeps the invariant. -/
theorem inv_next {a : RoutingAction} (he : s.Enabled a) (hk : s.LinksKept a)
    (h : s.Inv ws) : (s.step cfg a).1.Inv (ws ++ (s.step cfg a).2) := by
  have hnil : ∀ w ∈ ([] : List RoutingOut), w.neutral = true := by simp
  cases a with
  | linkEnter inCallback =>
    cases hr : linkRefusal cfg s inCallback with
    | some r =>
      simp only [RoutingState.step, hr]
      exact inv_same rfl rfl (by simp [RoutingOut.neutral]) h
    | none =>
      simp only [RoutingState.step, hr]
      refine ⟨by simpa using h.sound, callInv_unlinked ?_ rfl⟩
      exact linkRefusal_unlinked hr
  | linkLookupFailed r =>
    obtain ⟨k, hc⟩ := RoutingState.lookupFails_call he.2
    have hlinks : s.mem.links = none := lookup_unlinked h.call hc
    exact ⟨sound_append (by simp [RoutingState.step, RoutingOut.neutral]) h.sound,
      callInv_unlinked hlinks rfl⟩
  | awaitOwnPorts nodeId =>
    obtain ⟨hc, -⟩ := RoutingState.awaits_call he.2
    have hlinks : s.mem.links = none := by
      rcases hc with hc | hc
      · exact lookup_unlinked h.call hc
      · exact lookup_unlinked h.call hc
    exact ⟨sound_append hnil h.sound, callInv_unlinked hlinks rfl⟩
  | ownPortsTimeout =>
    have hlinks : s.mem.links = none := lookup_unlinked h.call he.2.1
    exact ⟨sound_append (by simp [RoutingState.step, RoutingOut.neutral]) h.sound,
      callInv_unlinked hlinks rfl⟩
  | listPorts ownNode targetNode allocated => exact inv_listed h he.2.1
  | requestLink props created junk =>
    obtain ⟨c, hc⟩ := RoutingState.requests_call he.2
    simp only [RoutingState.step, hc]
    exact inv_linkOne h hc
  | resumeLink t =>
    obtain ⟨c, hc, -⟩ := RoutingState.resumes_call he.2
    simp only [RoutingState.step, hc]
    exact inv_resumed h hc
  | recordLink =>
    obtain ⟨c, r, hc⟩ := RoutingState.records_call he.2
    simp only [RoutingState.step, hc]
    exact inv_recorded h hc
  | info id i => exact inv_informed h
  | globalRemoved id => exact inv_globalRemoved h hk
  | sourceLost =>
    simp only [RoutingState.step, RoutingState.sourceLost]
    split
    · obtain ⟨hm, hc, hn⟩ := reportError_same cfg { s with state := .stopped }
      exact inv_same (s := s) hm hc hn h
    · exact inv_same rfl rfl hnil h
  | callbackUnlink => exact inv_unlinked h hk
  | unlink =>
    have hc : s.call = .idle := he.2.2
    exact inv_unlinked h (by simp [hc, LinkCall.published])
  | callbackStop | stop =>
    simp only [RoutingState.step]
    split <;> exact inv_same (s := s) rfl rfl hnil h
  | nodeAdded | portAdded | callbackStart | start | callbackReturn =>
    exact inv_same (s := s) rfl rfl hnil h

end Step

/-! ### Whole runs -/

variable {cfg : StreamConfig} {s : RoutingState} {a : RoutingAction}

theorem inv_run {xs : List RoutingAction}
    (h : ((routingMachine cfg).restrict RoutingState.LinksKept).Valid .init xs) :
    ((routingMachine cfg).exec .init xs).Inv ((routingMachine cfg).outs .init xs) := by
  refine Machine.history_restrict (P := fun ws s => s.Inv ws) ⟨sound_init, ?_⟩
    (fun _ _ _ he hk h => inv_next he hk h) h
  exact callInv_unlinked rfl rfl

/-- The turn of the loop that returns ends the call, with the result of its link. -/
theorem recorded_returned {c : Wiring} {r r' : PwfError} (h : .returned r ∈ (s.recorded c r').2) :
    r = r' ∧ (r' = .ok → ¬ c.i + 1 < c.pairs) ∧ (s.recorded c r').1.call = .idle := by
  cases hset : s.mem.sets c.set with
  | none =>
    simp [RoutingState.recorded, RoutingState.withMemory, hset, LinkMemory.touchFreed] at h
  | some set =>
    simp only [RoutingState.recorded, hset] at h ⊢
    by_cases hr : r' = .ok
    · subst hr
      by_cases hnext : c.i + 1 < c.pairs
      · simp only [ne_eq, not_true_eq_false, if_false, if_pos hnext] at h
        exact absurd (readPort_emits h) (by simp)
      · simp only [ne_eq, not_true_eq_false, if_false, if_neg hnext] at h ⊢
        refine ⟨?_, fun _ => hnext, trivial⟩
        rcases List.mem_append.mp h with h | h
        · rcases List.mem_append.mp h with h | h
          · exact absurd (readPort_emits h) (by simp)
          · split at h
            · exact absurd (readPort_emits h) (by simp)
            · simp at h
        · simpa using h
    · simp only [if_pos hr] at h ⊢
      refine ⟨?_, fun hok => absurd hok hr, trivial⟩
      rcases List.mem_append.mp h with h | h
      · simpa [RoutingOut.ofRelease] using releaseLinks_emits h
      · simpa using h

/-- A call that returns is over, and it returns `PWF_OK` only back from its last link. -/
theorem returned_step {r : PwfError} (he : s.Enabled a)
    (h : .returned r ∈ (s.step cfg a).2) : (s.step cfg a).1.call = .idle ∧
      (r = .ok → a = .recordLink ∧ ∃ c, s.call = .waited c .ok ∧ ¬ c.i + 1 < c.pairs) := by
  have hmay := step_emits h
  cases a with
  | linkLookupFailed r' =>
    obtain rfl : r = r' := by simpa [RoutingAction.emits] using hmay
    refine ⟨rfl, ?_⟩
    rintro rfl
    have hfails : s.lookupFails .ok = true := he.2
    unfold RoutingState.lookupFails at hfails
    split at hfails
    · simp at hfails
    · simp at hfails
    · simp at hfails
  | ownPortsTimeout =>
    obtain rfl : r = .timeout := by simpa [RoutingAction.emits] using hmay
    exact ⟨rfl, fun hok => absurd hok (by simp)⟩
  | listPorts ownNode targetNode allocated =>
    refine ⟨?_, ?_⟩
    · simp only [RoutingState.step, RoutingState.listed] at h ⊢
      split
      · rfl
      · split
        · rfl
        · rename_i hok hallocated
          simp [if_neg hok, if_neg hallocated] at h
    · rintro rfl
      simp [RoutingAction.emits] at hmay
  | recordLink =>
    obtain ⟨c, r', hc⟩ := RoutingState.records_call he.2
    simp only [RoutingState.step, hc] at h ⊢
    obtain ⟨rfl, hlast, hcall⟩ := recorded_returned h
    refine ⟨hcall, ?_⟩
    rintro rfl
    exact ⟨trivial, c, rfl, hlast rfl⟩
  | _ => simp [RoutingAction.emits, RoutingOut.ofRelease, RoutingOut.isFault] at hmay

/-- A proxy `stream->links` owns: a link it counts. -/
def LinkMemory.Owns (m : LinkMemory) (id : ℕ) : Prop :=
  ∃ l set, m.links = some l ∧ m.sets l = some set ∧
    ∃ j < set.nLinks, set.proxyAt j = some id

/-- After the last link the set is still the one the call published. -/
theorem recorded_last {ws : List RoutingOut} {c : Wiring} (h : s.Inv ws)
    (hc : s.call = .waited c .ok) (hlast : ¬ c.i + 1 < c.pairs) :
    (s.recorded c .ok).1.mem.links = some c.set ∧
      ∃ set, (s.recorded c .ok).1.mem.sets c.set = some set := by
  have hcall := h.call
  unfold RoutingState.CallInv at hcall
  rw [hc] at hcall
  obtain ⟨hlinks, set, hset, -⟩ := hcall
  have hmem : (s.recorded c .ok).1.mem =
      s.mem.setSet c.set { set with nLinks := c.i + 1 } := by
    simp [RoutingState.recorded, hset, hlast]
  rw [hmem]
  exact ⟨hlinks, _, Function.update_self ..⟩

/-- Between calls a proxy somebody made is gone, or is one of the links. -/
theorem destroyed_or_owned {ws : List RoutingOut} {id i : ℕ} {props : LinkProps}
    (h : s.Inv ws) (hc : s.call = .idle) (hreq : .requested id i props ∈ ws) :
    ws.count (.destroyed id) = 1 ∨ s.mem.Owns id := by
  have hlt := h.sound.asked id i props hreq
  cases hp : s.mem.proxies id with
  | none =>
    left
    rw [h.sound.destroyed id, if_pos ⟨hlt, hp⟩]
  | some lj =>
    obtain ⟨l, j⟩ := lj
    right
    obtain ⟨set, hset, hat⟩ := proxy_link h.sound hp
    have hlinks : s.mem.links = some l := (h.sound.live l).mp (by simp [hset])
    have hcall := h.call
    unfold RoutingState.CallInv at hcall
    rw [hc] at hcall
    refine ⟨l, set, hlinks, hset, j, ?_, hat⟩
    rw [(hcall l set hlinks hset).1]
    exact proxyAt_lt (by simp [hat])

theorem links_never_used_after_free {xs : List RoutingAction}
    (h : ((routingMachine cfg).restrict RoutingState.LinksKept).Valid .init (xs ++ [a])) :
    let M := routingMachine cfg
    let s := M.exec .init xs
    let t := M.next s a
    let ws := M.outs .init (xs ++ [a])
    .fault .links ∉ ws ∧ (∀ l, ws.count (.freed l) ≤ 1) ∧
      (.returned .ok ∈ M.out s a → ∃ l set, t.mem.links = some l ∧ t.mem.sets l = some set) ∧
      ∀ r, .returned r ∈ M.out s a → ∀ id i props, .requested id i props ∈ ws →
        ws.count (.destroyed id) = 1 ∨ t.mem.Owns id := by
  intro M s t ws
  have hs : s.Inv (M.outs .init xs) := inv_run (Machine.valid_append.mp h).1
  have hexec : M.exec .init (xs ++ [a]) = t := Machine.exec_append
  have ht : t.Inv ws := hexec ▸ inv_run h
  have he : s.Enabled a := (Machine.valid_append.mp (Machine.valid_of_restrict h)).2.1
  refine ⟨ht.sound.unharmed, fun l => ?_, fun hok => ?_, fun r hr id i props hreq => ?_⟩
  · rw [ht.sound.freed l]
    split <;> omega
  · obtain ⟨rfl, c, hc, hlast⟩ := (returned_step he hok).2 rfl
    obtain ⟨hlinks, set, hset⟩ := recorded_last hs hc hlast
    have hnext : t = (s.recorded c .ok).1 := by
      simp [t, M, routingMachine, RoutingState.step, hc]
    exact ⟨c.set, set, hnext ▸ hlinks, hnext ▸ hset⟩
  · exact destroyed_or_owned ht (returned_step he hr).1 hreq

theorem links_never_used_after_free_timeout :
    let M := routingMachine wiredCapture
    let xs := captureGraph ++ requestFirst ++ firstUp ++
      [.requestLink true true (0, 0), .resumeLink true]
    let s := M.exec .init xs
    let t := M.next s .recordLink
    let ws := M.outs .init (xs ++ [.recordLink])
    .fault .links ∉ ws ∧ (∀ l, ws.count (.freed l) ≤ 1) ∧
      (.returned .ok ∈ M.out s .recordLink →
        ∃ l set, t.mem.links = some l ∧ t.mem.sets l = some set) ∧
      ∀ r, .returned r ∈ M.out s .recordLink → ∀ id i props, .requested id i props ∈ ws →
        ws.count (.destroyed id) = 1 ∨ t.mem.Owns id :=
  links_never_used_after_free (by decide)

/-- The source vanishes while the call waits for its first link, which the set does not count
yet: the set is freed under the call, and the link's proxy is never destroyed. -/
theorem link_set_freed_under_its_call :
    let M := routingMachine wiredCapture
    let xs := captureGraph ++ requestFirst
    let ys := xs ++ [.globalRemoved 20, .callbackReturn]
    M.Valid .init (ys ++ [.resumeLink true]) ∧
      M.out (M.exec .init xs) (.globalRemoved 20) = [.freed 0, .errorCallback] ∧
      M.out (M.exec .init ys) (.resumeLink true) = [.fault .links] ∧
      (M.exec .init ys).mem.links = none ∧
      .destroyed 0 ∉ M.outs .init (ys ++ [.resumeLink true]) := by
  decide

end TinyPipewire.Stream
