import Mathlib.Data.List.Nodup
import Mathlib.Logic.Function.Basic
import Mathlib.Tactic.Common

/-!
# A heap of blocks and who owns them

Addresses map to the block allocated there. An allocator may return any address
that holds no block, so freed addresses come back; nothing here assumes more.
-/

universe u v

/-- The address of a heap block. NULL is `none : Option Loc`. -/
abbrev Loc := Nat

/-- The blocks allocated now; `none` at an address that holds no block. -/
abbrev Heap (β : Type u) := Loc → Option β

namespace Heap

variable {β : Type u} {h h' h'' : Heap β} {l : Loc} {ls ks : List Loc} {b : β}

abbrev Live (h : Heap β) (l : Loc) : Prop := (h l).isSome

/-- Puts a block at an address, newly allocated or overwritten. -/
def store (h : Heap β) (l : Loc) (b : β) : Heap β := Function.update h l (some b)

/-- The block a pointer points to, and nothing for NULL. -/
def load (h : Heap β) (p : Option Loc) : Option β := p.bind h

/-- Frees every address of a list. -/
def freeAll (h : Heap β) (ls : List Loc) : Heap β := fun l => if l ∈ ls then none else h l

/-- An address `malloc` may return. -/
abbrev Fresh (h : Heap β) (l : Loc) : Prop := h l = none

/-- An address `realloc` may return for the block at `p`: the same or a fresh one. -/
abbrev Movable (h : Heap β) (p : Option Loc) (l : Loc) : Prop := p = some l ∨ h.Fresh l

/-- `realloc`: the old block goes and the new one, of contents `b`, is at `l`. -/
def move (h : Heap β) (p : Option Loc) (l : Loc) (b : β) : Heap β :=
  (h.freeAll p.toList).store l b

@[simp] theorem store_self : h.store l b l = some b := by simp [store]

theorem store_of_ne {k : Loc} (hk : k ≠ l) : h.store l b k = h k := by simp [store, hk]

@[simp] theorem freeAll_nil : h.freeAll [] = h := by
  funext l
  simp [freeAll]

theorem freeAll_of_notMem (hl : l ∉ ls) : h.freeAll ls l = h l := by simp [freeAll, hl]

theorem freeAll_freeAll : (h.freeAll ks).freeAll ls = h.freeAll (ks ++ ls) := by
  funext l
  by_cases hk : l ∈ ks
  · simp [freeAll, hk]
  · simp [freeAll, hk]

theorem live_freeAll : (h.freeAll ls).Live l ↔ h.Live l ∧ l ∉ ls := by
  by_cases hl : l ∈ ls
  · simp [Live, freeAll, hl]
  · simp [Live, freeAll, hl]

@[simp] theorem load_none : h.load none = none := rfl

@[simp] theorem load_some : h.load (some l) = h l := rfl

@[simp] theorem move_self {p : Option Loc} : h.move p l b l = some b := by simp [move]

/-- Every block allocated before, other than those of `ls`, is as it was. -/
def KeepsOff (h h' : Heap β) (ls : List Loc) : Prop :=
  ∀ l, h.Live l → l ∉ ls → h' l = h l

theorem KeepsOff.refl (h : Heap β) (ls : List Loc) : h.KeepsOff h ls := fun _ _ _ => rfl

theorem KeepsOff.live (hk : h.KeepsOff h' ls) (hl : h.Live l) (hn : l ∉ ls) : h'.Live l := by
  simpa [Live, hk l hl hn] using hl

theorem KeepsOff.trans (h1 : h.KeepsOff h' ls) (h2 : h'.KeepsOff h'' ls) :
    h.KeepsOff h'' ls := by
  intro l hl hn
  exact (h2 l (h1.live hl hn) hn).trans (h1 l hl hn)

theorem keepsOff_freeAll (hs : ks ⊆ ls) : h.KeepsOff (h.freeAll ks) ls := by
  intro k _ hn
  exact freeAll_of_notMem fun hk => hn (hs hk)

theorem KeepsOff.store (hk : h.KeepsOff h' ls) (hl : l ∈ ls ∨ h.Fresh l) :
    h.KeepsOff (h'.store l b) ls := by
  intro k hlive hn
  have hne : k ≠ l := by
    rintro rfl
    rcases hl with hl | hl
    · exact hn hl
    · simp [Live, hl] at hlive
  exact (store_of_ne hne).trans (hk k hlive hn)

/-- A list of blocks somebody may own: each allocated, each listed once. -/
structure Owns (h : Heap β) (ls : List Loc) : Prop where
  nodup : ls.Nodup
  live : ∀ l ∈ ls, h.Live l

theorem Owns.perm (ho : h.Owns ls) (hp : ls.Perm ks) : h.Owns ks :=
  ⟨hp.nodup ho.nodup, fun l hl => ho.live l (hp.mem_iff.mpr hl)⟩

/-- An operation that takes the owner of `ls` to the owner of `ls'`: it frees and
rewrites only what it owned and takes only fresh blocks. -/
structure Transfer (h : Heap β) (ls : List Loc) (h' : Heap β) (ls' : List Loc) : Prop where
  owns : h'.Owns ls'
  source : ∀ l ∈ ls', l ∈ ls ∨ h.Fresh l
  keeps : h.KeepsOff h' ls

namespace Transfer

variable {ls' ls'' : List Loc}

/-- Blocks may be dropped and reordered without touching the heap. -/
theorem of_subset (ho : h.Owns ls) (hn : ls'.Nodup) (hs : ls' ⊆ ls) : Transfer h ls h ls' :=
  ⟨⟨hn, fun l hl => ho.live l (hs hl)⟩, fun _ hl => Or.inl (hs hl), .refl h ls⟩

theorem of_sublist (ho : h.Owns ls) (hs : ls'.Sublist ls) : Transfer h ls h ls' :=
  of_subset ho (ho.nodup.sublist hs) hs.subset

theorem refl (ho : h.Owns ls) : Transfer h ls h ls := of_subset ho ho.nodup fun _ hl => hl

theorem perm (ht : Transfer h ls h' ls') (hp : ls'.Perm ls'') : Transfer h ls h' ls'' :=
  ⟨ht.owns.perm hp, fun l hl => ht.source l (hp.mem_iff.mpr hl), ht.keeps⟩

theorem perm_left (ht : Transfer h ls h' ls') (hp : ls.Perm ks) : Transfer h ks h' ls' :=
  ⟨ht.owns, fun l hl => (ht.source l hl).imp_left hp.mem_iff.mp,
    fun l hlive hn => ht.keeps l hlive fun hl => hn (hp.mem_iff.mp hl)⟩

theorem trans (h1 : Transfer h ls h' ls') (h2 : Transfer h' ls' h'' ls'') :
    Transfer h ls h'' ls'' := by
  refine ⟨h2.owns, ?_, ?_⟩
  · intro l hl
    rcases h2.source l hl with hl' | hf
    · exact h1.source l hl'
    · by_cases hlive : h.Live l
      · by_cases hin : l ∈ ls
        · exact Or.inl hin
        · have := h1.keeps.live hlive hin
          simp [Live, hf] at this
      · exact Or.inr (by simpa using hlive)
  · intro l hlive hn
    have hn' : l ∉ ls' := by
      intro hl
      rcases h1.source l hl with hin | hf
      · exact hn hin
      · simp [Live, hf] at hlive
    exact (h2.keeps l (h1.keeps.live hlive hn) hn').trans (h1.keeps l hlive hn)

/-- Writing to an owned block. -/
theorem write (ho : h.Owns ls) (hl : l ∈ ls) : Transfer h ls (h.store l b) ls := by
  refine ⟨⟨ho.nodup, ?_⟩, fun _ hk => Or.inl hk, (KeepsOff.refl h ls).store (Or.inl hl)⟩
  intro k hk
  by_cases hkl : k = l
  · simp [hkl, Live]
  · simpa [Live, store_of_ne hkl] using ho.live k hk

/-- Taking a fresh block. -/
theorem alloc (ho : h.Owns ls) (hf : h.Fresh l) :
    Transfer h ls (h.store l b) (ls ++ [l]) := by
  have hn : l ∉ ls := fun hl => by simpa [Live, hf] using ho.live l hl
  refine ⟨⟨?_, ?_⟩, ?_, (KeepsOff.refl h ls).store (Or.inr hf)⟩
  · simpa [List.nodup_append, ho.nodup] using fun k hk (he : k = l) => hn (he ▸ hk)
  · intro k hk
    by_cases hkl : k = l
    · simp [hkl, Live]
    · simpa [Live, store_of_ne hkl] using ho.live k (by simpa [hkl] using hk)
  · intro k hk
    rcases List.mem_append.mp hk with hk | hk
    · exact Or.inl hk
    · exact Or.inr ((List.mem_singleton.mp hk) ▸ hf)

/-- Freeing part of what is owned. -/
theorem free (ho : h.Owns (ks ++ ls)) : Transfer h (ks ++ ls) (h.freeAll ks) ls := by
  refine ⟨⟨(List.nodup_append.mp ho.nodup).2.1, ?_⟩,
    fun _ hl => Or.inl (List.mem_append_right _ hl), keepsOff_freeAll (List.subset_append_left _ _)⟩
  intro l hl
  have hn : l ∉ ks := fun hk => (List.nodup_append.mp ho.nodup).2.2 l hk l hl rfl
  simpa [Live, freeAll_of_notMem hn] using ho.live l (List.mem_append_right _ hl)

/-- `realloc` of an owned block, or of NULL. -/
theorem move {p : Option Loc} (ho : h.Owns (p.toList ++ ls)) (hm : h.Movable p l) :
    Transfer h (p.toList ++ ls) (h.move p l b) (l :: ls) := by
  have hfree := free ho
  have hf : (h.freeAll p.toList).Fresh l := by
    rcases hm with rfl | hf
    · simp [Fresh, freeAll]
    · simp [Fresh, freeAll, hf]
  exact hfree.trans ((alloc hfree.owns hf).perm List.perm_append_comm)

end Transfer

/-- An operation that leaves none of the blocks of `ls` behind: what is allocated after it is in
`ls'`, or was allocated before and is not of `ls`. -/
def Clean (h : Heap β) (ls : List Loc) (h' : Heap β) (ls' : List Loc) : Prop :=
  ∀ l, h'.Live l → l ∈ ls' ∨ (h.Live l ∧ l ∉ ls)

namespace Clean

variable {ls' ls'' : List Loc}

/-- Blocks may be reordered without touching the heap. -/
theorem of_subset (hs : ls ⊆ ls') : Clean h ls h ls' := by
  intro l hl
  by_cases hin : l ∈ ls
  · exact Or.inl (hs hin)
  · exact Or.inr ⟨hl, hin⟩

theorem refl (h : Heap β) (ls : List Loc) : Clean h ls h ls := of_subset fun _ hl => hl

theorem trans (h1 : Clean h ls h' ls') (h2 : Clean h' ls' h'' ls'') : Clean h ls h'' ls'' := by
  intro l hl
  rcases h2 l hl with hl | ⟨hl, hn⟩
  · exact Or.inl hl
  · exact Or.inr ((h1 l hl).resolve_left hn)

theorem store (hl : l ∈ ls') (hs : ls ⊆ ls') : Clean h ls (h.store l b) ls' := by
  intro k hk
  by_cases hkl : k = l
  · exact Or.inl (hkl ▸ hl)
  · rw [Live, store_of_ne hkl] at hk
    exact of_subset hs k hk

theorem free (hs : ls ⊆ ks ++ ls') : Clean h ls (h.freeAll ks) ls' := by
  intro l hl
  obtain ⟨hlive, hn⟩ := live_freeAll.mp hl
  by_cases hin : l ∈ ls
  · exact Or.inl ((List.mem_append.mp (hs hin)).resolve_left hn)
  · exact Or.inr ⟨hlive, hin⟩

theorem move {p : Option Loc} (hl : l ∈ ls') (hs : ls ⊆ p.toList ++ ls') :
    Clean h ls (h.move p l b) ls' :=
  (free hs).trans (store hl fun _ hk => hk)

end Clean

/-- Each owner's blocks are its own and nobody else's. -/
structure Separate {ι : Type v} (own : ι → List Loc) (h : Heap β) : Prop where
  owns : ∀ i, h.Owns (own i)
  disjoint : ∀ i j, i ≠ j → (own i).Disjoint (own j)

variable {ι : Type v} {own : ι → List Loc}

theorem Separate.notMem (hs : Separate own h) {i j : ι} (hij : i ≠ j) (hl : l ∈ own i) :
    l ∉ own j := fun hj => hs.disjoint i j hij hl hj

/-- An operation of one owner keeps every other owner's blocks. -/
theorem Separate.keeps (hs : Separate own h) {i j : ι} (hji : j ≠ i)
    (ht : Transfer h (own i) h' ls) (hl : l ∈ own j) : h' l = h l :=
  ht.keeps l ((hs.owns j).live l hl) (hs.notMem hji hl)

/-- The ownership rule: an operation of one owner leaves everybody separate. -/
theorem Separate.update [DecidableEq ι] (hs : Separate own h) {i : ι}
    (ht : Transfer h (own i) h' ls) : Separate (Function.update own i ls) h' := by
  have apart : ∀ j, j ≠ i → ∀ l ∈ ls, l ∉ own j := by
    intro j hj l hl hlj
    rcases ht.source l hl with hi | hf
    · exact hs.notMem hj hlj hi
    · simpa [Live, hf] using (hs.owns j).live l hlj
  constructor
  · intro j
    by_cases hj : j = i
    · subst j; simpa using ht.owns
    · rw [Function.update_of_ne hj]
      refine ⟨(hs.owns j).nodup, fun l hl => ?_⟩
      simpa [Live, hs.keeps hj ht hl] using (hs.owns j).live l hl
  · intro j k hjk l hj hk
    by_cases hji : j = i
    · subst j
      rw [Function.update_self] at hj
      rw [Function.update_of_ne hjk.symm] at hk
      exact apart k hjk.symm l hj hk
    · rw [Function.update_of_ne hji] at hj
      by_cases hki : k = i
      · subst k
        rw [Function.update_self] at hk
        exact apart j hji l hk hj
      · rw [Function.update_of_ne hki] at hk
        exact hs.disjoint j k hjk hj hk

end Heap
