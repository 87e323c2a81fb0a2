import TinyPipewire.Core.FilterObjects

/-!
# The objects of a stream

The counterpart for a stream: its strings, which are replaced, its `pw_stream`, which a format
setter replaces, and the link set, which is made and released as a whole.
-/

namespace TinyPipewire.Core

open Custody (Event Held)

variable {h : Held Obj} {es : Events} {k : Obj} {s : StreamHandle}

/-- A link set is there, with the proxies that are. -/
def wiring (h : Held Obj) (ps : List Bool) : Held Obj
  | .linkSet | .linkArray => true
  | .wire i => ps.getD i false
  | k => h k

/-- What a stream has between its calls, without its link set. -/
def StreamHandle.base (s : StreamHandle) : Held Obj
  | .share | .memory => true
  | .text n => decide (s.target = some n ∨ s.role = some n)
  | .loop => s.conn.loop
  | .thread => s.conn.thread
  | .context => s.conn.context
  | .core => s.conn.core
  | .node => s.node
  | .registry => s.registry
  | _ => false

def StreamHandle.holds (s : StreamHandle) : Held Obj :=
  match s.links with
  | none => s.base
  | some ps => wiring s.base ps

/-- The strings are numbered as they were copied, and a stream that runs has a `pw_stream`. -/
structure StreamHandle.Good (s : StreamHandle) : Prop where
  conn : s.conn = .up
  runs : s.running = true → s.node = true
  target : ∀ n, s.target = some n → n < s.texts
  role : ∀ n, s.role = some n → n < s.texts
  apart : ∀ n, s.target = some n → s.role ≠ some n

/-- There is no link set. -/
structure Unwired (h : Held Obj) : Prop where
  linkSet : h .linkSet = false
  linkArray : h .linkArray = false
  wire : ∀ i, h (.wire i) = false

theorem StreamHandle.base_unwired : Unwired s.base := ⟨rfl, rfl, fun _ => rfl⟩

theorem wiring_of_other (hk : k ≠ .linkSet ∧ k ≠ .linkArray ∧ ∀ i, k ≠ .wire i) (ps : List Bool) :
    wiring h ps k = h k := by
  cases k <;> simp_all [wiring]

theorem Idle.wired (hi : Idle h) (ps : List Bool) : Idle (wiring h ps) :=
  ⟨hi.memory, hi.loop, hi.thread, hi.context, hi.core, hi.lock, hi.hook, hi.query, hi.props⟩

theorem StreamHandle.Good.idleBase (hs : s.Good) : Idle s.base := by
  constructor <;> simp [StreamHandle.base, hs.conn, Conn.up]

theorem StreamHandle.Good.idle (hs : s.Good) : Idle s.holds := by
  unfold StreamHandle.holds
  cases s.links with
  | none => exact hs.idleBase
  | some ps => exact hs.idleBase.wired ps

/-- A change of what is no link set is one below it. -/
theorem wiring_update {b : Bool} (hk : k ≠ .linkSet ∧ k ≠ .linkArray ∧ ∀ i, k ≠ .wire i)
    (ps : List Bool) : Function.update (wiring h ps) k b = wiring (Function.update h k b) ps := by
  obtain ⟨hset, harray, hwire⟩ := hk
  funext j
  by_cases hj : j = k
  · subst j
    cases k <;> simp_all [wiring]
  · cases j <;> simp [wiring, hj]

theorem StreamHandle.holds_update {t : StreamHandle} {b : Bool}
    (hk : k ≠ .linkSet ∧ k ≠ .linkArray ∧ ∀ i, k ≠ .wire i) (hl : t.links = s.links)
    (hb : Function.update s.base k b = t.base) : Function.update s.holds k b = t.holds := by
  unfold StreamHandle.holds
  rw [hl]
  cases s.links with
  | none => exact hb
  | some ps => rw [wiring_update hk, hb]

theorem StreamHandle.holds_of_other (hk : k ≠ .linkSet ∧ k ≠ .linkArray ∧ ∀ i, k ≠ .wire i) :
    s.holds k = s.base k := by
  unfold StreamHandle.holds
  cases s.links with
  | none => rfl
  | some ps => exact wiring_of_other hk ps

/-! ### The link set -/

/-- The links of a set go, then its memory. -/
theorem Idle.linksReleased (hi : Idle h) (hu : Unwired h) (ps : List Bool) :
    objRules.Runs (wiring h ps) (releaseLinks (some ps)) h := by
  have hoff : Idle (wiring h []) := hi.wired []
  have hlinks : objRules.Runs (wiring h ps)
      (locked ((linked ps).map fun i => .drop (.wire i))) (wiring h []) := by
    refine runs_locked (hi.wired ps).loop (hi.wired ps).lock ?_ hoff.lock
    refine runs_dropLinks (fun p q hpq => by simpa using hpq) (fun p => rfl) ?_ (fun p => rfl)
      (fun p => rfl) ?_
    · intro p j
      cases j <;> simp [Obj.needs]
    · intro k hk
      cases k with
      | wire i => exact absurd rfl (hk i)
      | _ => rfl
  have harray : objRules.Runs (wiring h []) [.drop .linkArray]
      (Function.update (wiring h []) .linkArray false) :=
    .single ⟨rfl, fun j hj => by cases j <;> simp [objRules, Obj.needs, wiring] at hj ⊢,
      by simp [objRules, Obj.ofThread, Obj.guarded]⟩
  have hset : objRules.Runs (Function.update (wiring h []) .linkArray false) [.drop .linkSet]
      (Function.update (Function.update (wiring h []) .linkArray false) .linkSet false) :=
    .single ⟨rfl, fun j hj => by cases j <;> simp [objRules, Obj.needs] at hj ⊢,
      by simp [objRules, Obj.ofThread, Obj.guarded]⟩
  have hend : Function.update (Function.update (wiring h []) .linkArray false) .linkSet false =
      h := by
    funext k
    cases k <;> simp [wiring, hu.linkSet, hu.linkArray, hu.wire]
  rw [hend] at hset
  exact hlinks.append (harray.append hset)

/-- One more link of a set. -/
theorem wiring_snoc {ps : List Bool} {b : Bool} :
    Function.update (wiring h ps) (.wire ps.length) b = wiring h (ps ++ [b]) := by
  funext k
  cases k with
  | wire i =>
    by_cases hi : i = ps.length
    · subst i
      simp [wiring, List.getD_eq_getElem?_getD]
    · by_cases hlt : i < ps.length
      · simp [wiring, hi, List.getD_eq_getElem?_getD, List.getElem?_append, hlt]
      · have hge : i - ps.length ≠ 0 := by omega
        simp [wiring, hi, List.getD_eq_getElem?_getD, List.getElem?_append, hlt, hge]
  | _ => simp [wiring]

theorem wiring_snoc_false {ps : List Bool} : wiring h (ps ++ [false]) = wiring h ps := by
  rw [← wiring_snoc]
  have hoff : wiring h ps (.wire ps.length) = false := by
    simp [wiring, List.getD_eq_getElem?_getD]
  rw [← hoff, Function.update_eq_self]

/-- One link is tried with the properties it is asked for, which are freed. -/
theorem Idle.linkTried (hi : Idle h) (ps : List Bool) (t : WireTry) :
    objRules.Runs (wiring h ps) (pwfStreamLinkOne ps.length t)
      (wiring h (ps ++ [decide (t = .refused ∨ t = .negotiated)])) := by
  have hidle := hi.wired ps
  have hmade : objRules.Runs (wiring h ps)
      (.make .props :: (locked [.make (.wire ps.length), .use .loop] ++ [.drop .props]))
      (wiring h (ps ++ [true])) := by
    have hneeds : ∀ j ∈ (Obj.wire ps.length).needs, wiring h ps j = true := by
      intro j hj
      obtain rfl | rfl : j = .core ∨ j = .linkArray := by simpa [Obj.needs] using hj
      · exact hidle.core
      · rfl
    have hlink := hidle.linkMade (k := .wire ps.length) (Or.inr ⟨_, rfl⟩)
      (by simp [wiring, List.getD_eq_getElem?_getD]) hneeds
    rw [wiring_snoc] at hlink
    exact hidle.withProps (hi.wired _) hlink
  cases t with
  | noProps =>
    rw [show decide (WireTry.noProps = .refused ∨ WireTry.noProps = .negotiated) = false from rfl,
      wiring_snoc_false]
    exact .nil
  | noProxy =>
    rw [show decide (WireTry.noProxy = .refused ∨ WireTry.noProxy = .negotiated) = false from rfl,
      wiring_snoc_false]
    exact hidle.withProps hidle .nil
  | refused => exact hmade
  | negotiated => exact hmade

/-- The links of a set up to the first that fails. -/
theorem Idle.linksTried (hi : Idle h) (ts : List WireTry) (ps : List Bool) :
    objRules.Runs (wiring h ps) (linkEach ps.length ts).1
      (wiring h (ps ++ (linkEach ps.length ts).2.1)) := by
  induction ts generalizing ps with
  | nil =>
    rw [linkEach, List.append_nil]
    exact .nil
  | cons t ts ih =>
    have hone := hi.linkTried ps t
    cases t with
    | negotiated =>
      have hrest := ih (ps ++ [true])
      rw [List.length_append, List.length_singleton, List.append_assoc] at hrest
      exact hone.append hrest
    | noProps => exact hone
    | noProxy => exact hone
    | refused => exact hone

/-! ### Strings and the `pw_stream` -/

/-- A string is replaced: the copy is made before the old one is freed. -/
theorem runs_replaceString {h' : Held Obj} {slot : Option ℕ} (other : Option ℕ) {texts : ℕ}
    {t : TextTry}
    (hm : h .memory = true) (hh : ∀ n, h (.text n) = decide (slot = some n ∨ other = some n))
    (hslot : ∀ n, slot = some n → n < texts) (hother : ∀ n, other = some n → n < texts)
    (hapart : ∀ n, slot = some n → other ≠ some n)
    (hh' : ∀ n, h' (.text n) =
      decide ((pwfStreamReplaceString slot texts t).1 = some n ∨ other = some n))
    (hsame : ∀ k, (∀ n, k ≠ .text n) → h' k = h k) :
    objRules.Runs h (pwfStreamReplaceString slot texts t).2.2 h' := by
  have hfree : ∀ g : Held Obj, (∀ n, slot = some n → g (.text n) = true) →
      objRules.Runs g (slot.toList.map fun n => .drop (.text n))
        (fun k => if ∃ n, slot = some n ∧ k = .text n then false else g k) := by
    intro g hg
    cases slot with
    | none => simpa using Custody.Rules.Runs.nil
    | some n =>
      have hdrop := runs_freeText (hg n rfl)
      have hend : Function.update g (.text n) false =
          fun k => if ∃ m, some n = some m ∧ k = .text m then false else g k := by
        funext k
        by_cases hk : k = .text n <;> simp [hk]
      rwa [hend] at hdrop
  cases t with
  | failed =>
    have hend : h' = h := by
      funext k
      cases k with
      | text n => rw [hh', hh]; rfl
      | _ => exact hsame _ (by simp)
    rw [hend]
    exact .nil
  | cleared =>
    have hdrop := hfree h fun n hn => by simp [hh, hn]
    have hend : (fun k => if ∃ n, slot = some n ∧ k = .text n then false else h k) = h' := by
      funext k
      cases k with
      | text n =>
        rw [hh', hh]
        by_cases hn : slot = some n
        · simp [hn, pwfStreamReplaceString, hapart n hn]
        · simp [hn, pwfStreamReplaceString]
      | _ => simpa using (hsame _ (by simp)).symm
    rw [hend] at hdrop
    exact hdrop
  | copied =>
    have hnew : h (.text texts) = false := by
      rw [hh, decide_eq_false_iff_not, not_or]
      exact ⟨fun hs => Nat.lt_irrefl _ (hslot _ hs), fun ho => Nat.lt_irrefl _ (hother _ ho)⟩
    have hdrop := hfree (Function.update h (.text texts) true) fun n hn => by
      have hne : n ≠ texts := (hslot n hn).ne
      simp [hne, hh, hn]
    have hend : (fun k => if ∃ n, slot = some n ∧ k = .text n then false
        else Function.update h (.text texts) true k) = h' := by
      funext k
      cases k with
      | text n =>
        rw [hh']
        by_cases hn : slot = some n
        · have hne : texts ≠ n := (hslot n hn).ne'
          simp [hn, pwfStreamReplaceString, hapart n hn, hne]
        · by_cases hnt : n = texts
          · simp [hnt, pwfStreamReplaceString, hnt ▸ hn]
          · simp [hn, hnt, Ne.symm hnt, pwfStreamReplaceString, hh]
      | _ => simpa using (hsame _ (by simp)).symm
    rw [hend] at hdrop
    exact (runs_copyText hm hnew).append hdrop

theorem replaceString_lt {slot : Option ℕ} {texts n : ℕ} {t : TextTry}
    (hslot : ∀ n, slot = some n → n < texts)
    (hn : (pwfStreamReplaceString slot texts t).1 = some n) :
    n < (pwfStreamReplaceString slot texts t).2.1 := by
  cases t with
  | failed => exact hslot n hn
  | cleared => cases hn
  | copied =>
    obtain rfl : texts = n := by simpa [pwfStreamReplaceString] using hn
    exact Nat.lt_succ_self texts

theorem replaceString_le (slot : Option ℕ) (texts : ℕ) (t : TextTry) :
    texts ≤ (pwfStreamReplaceString slot texts t).2.1 := by
  cases t <;> simp [pwfStreamReplaceString]

theorem replaceString_apart {slot : Option ℕ} {texts n : ℕ} {t : TextTry}
    {other : Option ℕ} (hapart : ∀ n, slot = some n → other ≠ some n)
    (hother : ∀ n, other = some n → n < texts)
    (hn : (pwfStreamReplaceString slot texts t).1 = some n) : other ≠ some n := by
  cases t with
  | failed => exact hapart n hn
  | cleared => cases hn
  | copied =>
    obtain rfl : texts = n := by simpa [pwfStreamReplaceString] using hn
    exact fun ho => Nat.lt_irrefl _ (hother _ ho)

/-- Strings are set in properties that are there, which leaves all as it was. -/
theorem runs_setProps {ns : List ℕ} (hprops : h .props = true)
    (htexts : ∀ n ∈ ns, h (.text n) = true) :
    objRules.Runs h (ns.flatMap fun n => [.use (.text n), .use .props]) h := by
  induction ns with
  | nil => exact .nil
  | cons n ns ih =>
    have htext : objRules.Runs h [.use (.text n)] h := .single (htexts n (by simp))
    have hset : objRules.Runs h [.use .props] h := .single hprops
    rw [List.flatMap_cons]
    exact (htext.append hset).append (ih fun m hm => htexts m (by simp [hm]))

/-- The properties of a node are there, if there is memory for them. -/
theorem StreamHandle.runs_nodeProps {propsNew : Bool} (hi : Idle h)
    (htexts : ∀ n ∈ s.target.toList ++ s.role.toList, h (.text n) = true)
    (hprops : propsNew = false → s.target.toList ++ s.role.toList = []) :
    objRules.Runs h (s.nodeProps propsNew) (Function.update h .props propsNew) := by
  cases propsNew with
  | false =>
    have hsame : Function.update h .props false = h := by rw [← hi.props, Function.update_eq_self]
    rw [StreamHandle.nodeProps, hprops rfl, hsame]
    exact .nil
  | true =>
    have hmake : objRules.Runs h [.make .props] (Function.update h .props true) :=
      .single ⟨hi.props, by simpa [objRules, Obj.needs] using hi.memory,
        by simp [objRules, Obj.ofThread, Obj.guarded]⟩
    exact hmake.append (runs_setProps (by simp) fun n hn => by simpa using htexts n hn)

/-- `pw_stream_new` takes them under the lock. -/
theorem Idle.takeProps (hi : Idle h) (hi' : Idle h') {propsNew : Bool}
    (hr : objRules.Runs (holding h) es (holding h')) :
    objRules.Runs (Function.update h .props propsNew)
      (locked (dropIf propsNew .props ++ es)) h' := by
  have hback : Function.update (holding (Function.update h .props propsNew)) .props false =
      holding h := by
    have hsame : Function.update h .props false = h := by rw [← hi.props, Function.update_eq_self]
    rw [holding, holding, Function.update_comm (by simp), Function.update_idem, hsame]
  have htake : objRules.Runs (holding (Function.update h .props propsNew))
      (dropIf propsNew .props) (holding h) := by
    have hgiven : holding (Function.update h .props propsNew) .props = propsNew := by simp
    have hdrop := runs_dropIf hgiven (fun j hj => by cases j <;> simp [Obj.needs] at hj)
      (by simp [objRules, Obj.ofThread, Obj.guarded])
    rwa [hback] at hdrop
  exact runs_locked (by simp [hi.loop]) (by simp [hi.lock]) (htake.append hr) hi'.lock

/-- The old `pw_stream` goes, and the new one is there if it connects. -/
theorem StreamHandle.Good.internalConnect {propsNew : Bool} (hs : s.Good)
    (created connected : Bool)
    (hprops : propsNew = false → s.target.toList ++ s.role.toList = []) :
    (s.internalConnect propsNew created connected).1 =
        { s with node := created && connected } ∧
      objRules.Runs s.holds (s.internalConnect propsNew created connected).2
        (s.internalConnect propsNew created connected).1.holds := by
  set g : StreamHandle := { s with node := false } with hg
  have hidle : Idle g.holds :=
    StreamHandle.Good.idle (s := { g with running := false })
      ⟨hs.conn, by simp, hs.target, hs.role, hs.apart⟩
  have hfree : ∀ j, Obj.node ∈ j.needs → s.holds j = false := by
    intro j hj
    cases j <;> simp [Obj.needs] at hj
    exact s.holds_of_other (by simp)
  have hold : objRules.Runs s.holds (if s.node then locked [.drop .node] else []) g.holds := by
    have hoff : Function.update s.holds .node false = g.holds :=
      StreamHandle.holds_update (by simp) rfl (by
        funext k
        cases k <;> simp [StreamHandle.base, hg])
    by_cases hn : s.node = true
    · rw [if_pos hn]
      have hdrop := runs_drop (h := s.holds) (k := .node) rfl
        ((s.holds_of_other (by simp)).trans hn) hfree
      rw [hoff] at hdrop
      exact runs_locked hs.idle.loop hs.idle.lock hdrop hidle.lock
    · rw [if_neg hn, ← hoff]
      have hsame : s.holds .node = false :=
        (s.holds_of_other (by simp)).trans (Bool.not_eq_true _ ▸ hn)
      rw [← hsame, Function.update_eq_self]
      exact .nil
  have hon : Function.update g.holds .node true = ({ s with node := true } : StreamHandle).holds :=
    StreamHandle.holds_update (by simp) rfl (by
      funext k
      cases k <;> simp [StreamHandle.base, hg])
  have hgnode : g.holds .node = false := g.holds_of_other (by simp)
  have hnew : objRules.Runs (holding g.holds) [.make .node, .use .node]
      (holding ({ s with node := true } : StreamHandle).holds) := by
    have hmake := runs_make (h := g.holds) (k := .node) (by simp) hgnode
      (by simpa [Obj.needs] using hidle.core)
    rw [hon] at hmake
    have huse : objRules.Runs (holding ({ s with node := true } : StreamHandle).holds)
        [.use .node] (holding ({ s with node := true } : StreamHandle).holds) :=
      runs_use (by rw [← hon]; simp)
    exact hmake.append huse
  have hnewIdle : Idle ({ s with node := true } : StreamHandle).holds := by
    rw [← hon]
    exact hidle.update (by simp)
  have htexts : ∀ n ∈ s.target.toList ++ s.role.toList, g.holds (.text n) = true := by
    intro n hn
    rw [g.holds_of_other (by simp)]
    simpa [StreamHandle.base, hg] using hn
  have hready := hold.append (s.runs_nodeProps hidle htexts hprops)
  unfold StreamHandle.internalConnect
  cases created with
  | false =>
    refine ⟨rfl, hready.append ?_⟩
    have htaken : objRules.Runs (Function.update g.holds .props propsNew)
        (locked (dropIf propsNew .props ++ [])) g.holds := hidle.takeProps hidle .nil
    rwa [List.append_nil] at htaken
  | true =>
    cases connected with
    | false =>
      refine ⟨rfl, hready.append (hidle.takeProps hidle ?_)⟩
      have hdrop := runs_drop (h := ({ s with node := true } : StreamHandle).holds) (k := .node)
        rfl (by rw [← hon]; simp) (by
          intro j hj
          cases j <;> simp [Obj.needs] at hj
          exact StreamHandle.holds_of_other (by simp))
      have hback : Function.update ({ s with node := true } : StreamHandle).holds .node false =
          g.holds := by
        rw [← hon, Function.update_idem, ← hgnode, Function.update_eq_self]
      rw [hback] at hdrop
      exact hnew.append hdrop
    | true => exact ⟨rfl, hready.append (hidle.takeProps hnewIdle hnew)⟩

/-! ### The calls of a stream -/

theorem StreamHandle.holds_node (hs : s.node = true) : s.holds .node = true :=
  (s.holds_of_other (by simp)).trans hs

theorem StreamHandle.Good.uses (hs : s.Good) (hn : s.node = true) (ks : List Obj)
    (hk : ∀ k ∈ ks, k = .node ∨ k = .loop) :
    objRules.Runs s.holds (locked (ks.map .use)) s.holds := by
  refine hs.idle.uses ks fun k hmem => ?_
  obtain rfl | rfl := hk k hmem
  · exact s.holds_node hn
  · exact hs.idle.loop

theorem StreamHandle.Good.stop (hs : s.Good) (drain : Bool) :
    (s.stop drain).1.Good ∧ (s.stop drain).1.holds = s.holds ∧
      objRules.Runs s.holds (s.stop drain).2 s.holds := by
  unfold StreamHandle.stop
  by_cases hrun : s.running = true
  swap
  · rw [if_pos (by simp [hrun])]
    exact ⟨hs, rfl, .nil⟩
  rw [if_neg (by simp [hrun])]
  refine ⟨⟨hs.conn, by simp, hs.target, hs.role, hs.apart⟩, rfl, ?_⟩
  cases drain with
  | true => exact hs.uses (hs.runs hrun) [.node, .loop, .node] (by simp)
  | false => exact hs.uses (hs.runs hrun) [.node] (by simp)

/-- The link set goes as a whole. -/
theorem StreamHandle.Good.releaseLinks (hs : s.Good) :
    objRules.Runs s.holds (releaseLinks s.links) s.base := by
  unfold StreamHandle.holds
  cases s.links with
  | none => exact .nil
  | some ps => exact hs.idleBase.linksReleased s.base_unwired ps

theorem StreamHandle.holds_registry {b : Bool} :
    Function.update s.holds .registry b = { s with registry := b }.holds :=
  StreamHandle.holds_update (by simp) rfl (by
    funext k
    cases k <;> simp [StreamHandle.base])

/-- `pwf_stream_link` leaves the whole set or what there was before it. -/
theorem StreamHandle.Good.link (hs : s.Good) (t : StreamLinkTry) :
    (s.link t).1.Good ∧ objRules.Runs s.holds (s.link t).2 (s.link t).1.holds := by
  have hregistry : s.holds .registry = s.registry := s.holds_of_other (by simp)
  have hbind := hs.idle.registryBind (t := t.bind) hregistry
  rw [s.holds_registry] at hbind
  unfold StreamHandle.link
  by_cases hrefused : (s.links.isSome || !s.running || !s.node) = true
  · rw [if_pos hrefused]
    exact ⟨hs, .nil⟩
  rw [if_neg hrefused]
  have hnone : s.links = none := by
    cases hl : s.links <;> simp_all
  have hnode : s.node = true := by
    cases hn : s.node <;> simp_all
  generalize pwfPwRegistryBind s.registry t.bind = r at hbind ⊢
  obtain ⟨registry, es, ok⟩ := r
  simp only at hbind ⊢
  set g : StreamHandle := { s with registry } with hgdef
  have hg : g.Good := ⟨hs.conn, hs.runs, hs.target, hs.role, hs.apart⟩
  have hgnone : g.links = none := hnone
  have hbase : g.holds = g.base := by
    unfold StreamHandle.holds
    rw [hgnone]
  have hawait : objRules.Runs s.holds (es ++ locked [.use .node, .use .loop]) g.holds :=
    hbind.append (hg.uses hnode [.node, .loop] (by simp))
  have hset : objRules.Runs g.base [.make .linkSet] (Function.update g.base .linkSet true) :=
    .single ⟨rfl, by simp [objRules, Obj.needs, StreamHandle.base],
      by simp [objRules, Obj.ofThread, Obj.guarded]⟩
  have harray : objRules.Runs (Function.update g.base .linkSet true) [.make .linkArray]
      (wiring g.base []) := by
    have hmake := Custody.Rules.Runs.single (R := objRules)
      (h := Function.update g.base .linkSet true) (e := .make .linkArray)
      ⟨rfl, by simp [objRules, Obj.needs], by simp [objRules, Obj.ofThread, Obj.guarded]⟩
    have hend : (Event.make Obj.linkArray).after (Function.update g.base .linkSet true) =
        wiring g.base [] := by
      funext k
      cases k <;> simp [wiring, StreamHandle.base]
    rwa [hend] at hmake
  split_ifs
  · exact ⟨hg, hbind⟩
  · exact ⟨hg, hawait⟩
  · refine ⟨hg, ?_⟩
    have hfree : objRules.Runs (Function.update g.base .linkSet true) [.drop .linkSet] g.base := by
      have hdrop := Custody.Rules.Runs.single (R := objRules)
        (h := Function.update g.base .linkSet true) (e := .drop .linkSet)
        ⟨rfl, fun j hj => by cases j <;> simp [objRules, Obj.needs, StreamHandle.base] at hj ⊢,
          by simp [objRules, Obj.ofThread, Obj.guarded]⟩
      have hend : (Event.drop Obj.linkSet).after (Function.update g.base .linkSet true) =
          g.base := by
        rw [Custody.after_drop, Function.update_idem]
        exact Function.update_eq_self _ _
      rwa [hend] at hdrop
    rw [hbase] at hawait ⊢
    exact hawait.append (hset.append hfree)
  · have heach := hg.idleBase.linksTried t.each []
    rw [hbase] at hawait
    have hall := (hawait.append (hset.append harray)).append heach
    have hsome : objRules.Runs s.holds (es ++ locked [.use .node, .use .loop] ++
        [.make .linkSet, .make .linkArray] ++ (linkEach 0 t.each).1)
        ({ g with links := some (linkEach 0 t.each).2.1 } : StreamHandle).holds := hall
    exact ⟨⟨hs.conn, hs.runs, hs.target, hs.role, hs.apart⟩, hsome⟩
  · have heach := hg.idleBase.linksTried t.each []
    rw [hbase] at hawait ⊢
    have hall := ((hawait.append (hset.append harray)).append heach).append
      (hg.idleBase.linksReleased g.base_unwired (linkEach 0 t.each).2.1)
    exact ⟨hg, hall⟩

/-- What is left of a stream without its node and connection. -/
def StreamHandle.rest (s : StreamHandle) : Held Obj
  | .share | .memory => true
  | .text n => decide (s.target = some n ∨ s.role = some n)
  | _ => false

theorem StreamHandle.bare_rest : Bare s.rest := by
  constructor <;> simp [StreamHandle.rest]

theorem StreamHandle.Good.runs_freeRest (hs : s.Good) :
    objRules.Runs s.rest ((s.target.toList.map fun n => .drop (.text n)) ++
      (s.role.toList.map fun n => .drop (.text n)) ++ [.drop .memory, .drop .share])
      Custody.none := by
  have htexts : objRules.Runs s.rest ((s.target.toList ++ s.role.toList).map
      fun n => .drop (.text n)) alloced := by
    have hn : ((s.target.toList ++ s.role.toList).map Obj.text).Nodup := by
      refine List.Nodup.map (fun a b hab => by simpa using hab) ?_
      cases ht : s.target with
      | none => cases s.role <;> simp
      | some n =>
        cases hr : s.role with
        | none => simp
        | some m =>
          have hne : n ≠ m := fun h => hs.apart n ht (h ▸ hr)
          simp [hne]
    have hdrops := Custody.Rules.Runs.dropAll (R := objRules) (h := s.rest) _ hn ?_ ?_ ?_
    · have hend : (fun k => if k ∈ (s.target.toList ++ s.role.toList).map Obj.text then false
          else s.rest k) = alloced := by
        funext k
        cases k with
        | text n =>
          simp only [List.mem_map, List.mem_append, Option.mem_toList, Obj.text.injEq,
            exists_eq_right, StreamHandle.rest, alloced]
          split_ifs with hn
          · rfl
          · simpa using hn
        | _ => simp [StreamHandle.rest, alloced]
      rwa [hend, List.map_map] at hdrops
    · intro k hk
      obtain ⟨n, hn, rfl⟩ := List.mem_map.mp hk
      simpa [StreamHandle.rest] using hn
    · intro k hk j hj
      obtain ⟨n, -, rfl⟩ := List.mem_map.mp hk
      cases j <;> simp [objRules, Obj.needs] at hj
    · intro g _ k hk
      obtain ⟨n, -, rfl⟩ := List.mem_map.mp hk
      simp [objRules, Obj.ofThread, Obj.guarded]
  rw [List.map_append] at htexts
  exact htexts.append runs_free

/-- `pwf_stream_destroy` leaves nothing. -/
theorem StreamHandle.Good.destroy (hs : s.Good) :
    objRules.Runs s.holds s.destroy Custody.none := by
  obtain ⟨g, es, heq, hg, hstop⟩ : ∃ g es, (if s.running then s.stop false else (s, [])) = (g, es) ∧
      g.Good ∧ objRules.Runs s.holds es g.holds := by
    by_cases hrun : s.running = true
    · obtain ⟨hg, hsame, hruns⟩ := hs.stop false
      rw [← hsame] at hruns
      exact ⟨(s.stop false).1, (s.stop false).2, if_pos hrun, hg, hsame ▸ hruns⟩
    · exact ⟨s, [], if_neg hrun, hs, .nil⟩
  unfold StreamHandle.destroy
  rw [heq]
  have hregistry := hg.idleBase.destroyRegistry (b := g.registry) rfl rfl
  have hnode : Function.update g.base .registry false =
      Function.update (Conn.up.on g.rest) .node g.node := by
    funext k
    cases k <;> simp [StreamHandle.base, StreamHandle.rest, Conn.on, hg.conn]
  rw [hnode] at hregistry
  have hdown := StreamHandle.bare_rest (s := g).teardownNode g.node
  have hall := (((hstop.append hg.releaseLinks).append hregistry).append hdown).append
    hg.runs_freeRest
  rw [← hg.conn] at hall
  simpa [List.append_assoc] using hall

/-- What a call of a stream, or the one that creates it, leaves. -/
def StreamHandle.Leaves (h : Held Obj) (r : Option StreamHandle × Events) : Prop :=
  match r with
  | (none, es) => objRules.Runs h es Custody.none
  | (some s, es) => s.Good ∧ objRules.Runs h es s.holds

theorem leaves_streamCreate (t : StreamTry) :
    StreamHandle.Leaves Custody.none (pwfStreamCreate t) := by
  have hbare : Bare alloced := by constructor <;> simp [alloced]
  have hconnect := runs_alloc.append (runs_connect hbare t.connect)
  have hpart := connect_partial t.connect
  have hup := connect_up (t := t.connect)
  unfold pwfStreamCreate
  generalize pwfPwCoreConnect t.connect = r at hconnect hpart hup ⊢
  obtain ⟨conn, es, ok⟩ := r
  simp only at hconnect hpart hup ⊢
  split_ifs with hacc hcalloc hok
  · exact .nil
  · exact runs_shared
  · exact (hconnect.append (hbare.teardown hpart)).append runs_free
  · obtain rfl := hup (by simpa using hok)
    refine ⟨⟨rfl, by simp, by simp, by simp, by simp⟩, ?_⟩
    have hend : Conn.up.on alloced =
        (⟨.up, false, false, false, none, none, 0, none⟩ : StreamHandle).holds := by
      funext k
      cases k <;> simp [StreamHandle.holds, StreamHandle.base, Conn.on, Conn.up, alloced]
    rw [← hend]
    exact hconnect

/-- A format setter does not fail on a stream that runs, which would leave it running without
a `pw_stream`, and there is memory for the properties of a stream that has a target or a role:
`pw_properties_set` would not look whether there are any. -/
def StreamHandle.Prudent (s : StreamHandle) : StreamOp → Prop
  | .setConfig propsNew created connected =>
    (s.running = true → (created && connected) = true) ∧
      (propsNew = false → s.target.toList ++ s.role.toList = [])
  | _ => True

/-- Each call of a stream leaves what its record tells. -/
theorem StreamHandle.Good.call (hs : s.Good) {op : StreamOp} (hop : s.Prudent op) :
    StreamHandle.Leaves s.holds (s.call op) := by
  have hregistry : s.holds .registry = s.registry := s.holds_of_other (by simp)
  cases op with
  | setTarget t =>
    have hlt := fun n => replaceString_lt (t := t) (n := n) hs.target
    have hle := replaceString_le s.target s.texts t
    refine ⟨⟨hs.conn, hs.runs, hlt, fun n hn => (hs.role n hn).trans_le hle,
      fun n hn => replaceString_apart hs.apart hs.role hn⟩, ?_⟩
    refine runs_replaceString s.role hs.idle.memory (fun n => s.holds_of_other (by simp)) hs.target
      hs.role hs.apart (fun n => StreamHandle.holds_of_other (by simp)) fun k hk => ?_
    unfold StreamHandle.holds
    cases s.links <;> cases k <;> first | rfl | exact absurd rfl (hk _)
  | setRole t =>
    have hlt := fun n => replaceString_lt (t := t) (n := n) hs.role
    have hle := replaceString_le s.role s.texts t
    have hapart : ∀ n, s.role = some n → s.target ≠ some n := fun n hr ht => hs.apart n ht hr
    refine ⟨⟨hs.conn, hs.runs, fun n hn => (hs.target n hn).trans_le hle, hlt,
      fun n hn hr => replaceString_apart hapart hs.target hr hn⟩, ?_⟩
    refine runs_replaceString s.target hs.idle.memory (fun n => ?_) hs.role
      hs.target hapart (fun n => ?_) fun k hk => ?_
    · rw [s.holds_of_other (by simp)]
      exact decide_eq_decide.mpr or_comm
    · rw [StreamHandle.holds_of_other (by simp)]
      exact decide_eq_decide.mpr or_comm
    · unfold StreamHandle.holds
      cases s.links <;> cases k <;> first | rfl | exact absurd rfl (hk _)
  | setConfig propsNew created connected =>
    obtain ⟨hrecord, hruns⟩ := hs.internalConnect created connected hop.2
    simp only [StreamHandle.call]
    rw [hrecord] at hruns ⊢
    refine ⟨⟨hs.conn, fun hrun => ?_, hs.target, hs.role, hs.apart⟩, hruns⟩
    exact hop.1 (Bool.and_eq_true_iff.mp hrun).1
  | start =>
    simp only [StreamHandle.call]
    split_ifs with hn
    · exact ⟨⟨hs.conn, fun _ => hn, hs.target, hs.role, hs.apart⟩,
        hs.uses hn [.node] (by simp)⟩
    · exact ⟨hs, .nil⟩
  | stop drain =>
    obtain ⟨hg, hsame, hruns⟩ := hs.stop drain
    refine ⟨hg, ?_⟩
    show objRules.Runs s.holds (s.stop drain).2 (s.stop drain).1.holds
    rw [hsame]
    exact hruns
  | link t => exact hs.link t
  | unlink => exact ⟨⟨hs.conn, hs.runs, hs.target, hs.role, hs.apart⟩, hs.releaseLinks⟩
  | nodeRemoved => exact ⟨⟨hs.conn, hs.runs, hs.target, hs.role, hs.apart⟩, hs.releaseLinks⟩
  | sourceLost => exact ⟨⟨hs.conn, by simp, hs.target, hs.role, hs.apart⟩, .nil⟩
  | getTargetList t =>
    have hbind := hs.idle.registryBind (t := t) hregistry
    rw [s.holds_registry] at hbind
    simp only [StreamHandle.call]
    generalize pwfPwRegistryBind s.registry t = r at hbind ⊢
    obtain ⟨registry, es, ok⟩ := r
    have hg : ({ s with registry } : StreamHandle).Good :=
      ⟨hs.conn, hs.runs, hs.target, hs.role, hs.apart⟩
    cases ok with
    | true => exact ⟨hg, hbind.append (hg.idle.section .nil)⟩
    | false => exact ⟨hg, hbind⟩
  | getTargetVideoFormats t =>
    have hquery := hs.idle.getTargetVideoFormats hregistry t
    rw [s.holds_registry] at hquery
    exact ⟨⟨hs.conn, hs.runs, hs.target, hs.role, hs.apart⟩, hquery⟩
  | destroy => exact hs.destroy

end TinyPipewire.Core
