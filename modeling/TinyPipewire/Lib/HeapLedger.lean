import TinyPipewire.Lib.Heap
import TinyPipewire.Lib.Ledger

/-!
# Blocks that change hands, and the books on them

An operation that takes the owner of some blocks to the owner of others, with the ledger of what
it took and gave back. Whoever else owns blocks of the heap meanwhile keeps them, and the books of
all together stay right.
-/

universe u

namespace Heap

open Ledger (Entry Tracks)

variable {β : Type u} {h h' h'' : Heap β} {l : Loc} {ls ls' ls'' ks : List Loc} {b : β}
  {es es' ws : List (Entry Loc)} {out out' : Loc → Prop}

/-- `malloc`, or `strdup`: the answer is an address that holds nothing, or NULL. An address in
use is never given; it counts as NULL. -/
def give (h : Heap β) (p : Option Loc) (b : β) : Heap β × Option Loc :=
  match p with
  | some l => if (h l).isNone then (h.store l b, some l) else (h, none)
  | none => (h, none)

/-- A string that may be missing is duplicated if it is there. -/
def giveSome (h : Heap β) (p : Option Loc) (b : Option β) : Heap β × Option Loc :=
  match b with
  | some b => h.give p b
  | none => (h, none)

/-- `realloc`, which may also answer with the old address; NULL leaves the old block. -/
def regrow (h : Heap β) (old p : Option Loc) (b : β) : Option (Heap β × Loc) :=
  p.bind fun l => if old = some l ∨ (h l).isNone then some (h.move old l b, l) else none

theorem give_cases (h : Heap β) (p : Option Loc) (b : β) :
    h.give p b = (h, none) ∨ ∃ l, h.Fresh l ∧ h.give p b = (h.store l b, some l) := by
  unfold give
  split
  · rename_i l
    split
    · rename_i hl
      exact Or.inr ⟨l, by simpa using hl, rfl⟩
    · exact Or.inl rfl
  · exact Or.inl rfl

theorem regrow_cases (h : Heap β) (old p : Option Loc) (b : β) :
    h.regrow old p b = none ∨
      ∃ l, h.Movable old l ∧ h.regrow old p b = some (h.move old l b, l) := by
  unfold regrow
  cases p with
  | none => exact Or.inl rfl
  | some l =>
    rw [Option.bind_some]
    split
    · rename_i hl
      exact Or.inr ⟨l, by simpa [Movable] using hl, rfl⟩
    · exact Or.inl rfl

/-- A transfer with its books: they stay right, whoever else owns blocks. -/
structure Handover (h : Heap β) (ls : List Loc) (es : List (Entry Loc)) (h' : Heap β)
    (ls' : List Loc) : Prop where
  transfer : Transfer h ls h' ls'
  books : ∀ {ws : List (Entry Loc)} {out : Loc → Prop}, Tracks ws out → (∀ l, out l → h.Live l) →
    (∀ l ∈ ls, out l) → Tracks (ws ++ es) fun l => (out l ∧ l ∉ ls) ∨ l ∈ ls'

/-- What others own is not what was taken. -/
theorem Transfer.apart (ht : Transfer h ls h' ls') (hl : h.Live l) (hn : l ∉ ls) : l ∉ ls' := by
  intro hin
  rcases ht.source l hin with hls | hf
  · exact hn hls
  · simp [Live, hf] at hl

namespace Handover

theorem of_transfer (ht : Transfer h ls h' ls') (hs : ∀ l, l ∈ ls' ↔ l ∈ ls) :
    Handover h ls [] h' ls' := by
  refine ⟨ht, ?_⟩
  intro ws out htracks _ howned
  rw [List.append_nil]
  apply htracks.congr
  intro l
  constructor
  · rintro (⟨hl, -⟩ | hl)
    · exact hl
    · exact howned l ((hs l).mp hl)
  · intro hl
    by_cases hin : l ∈ ls
    · exact Or.inr ((hs l).mpr hin)
    · exact Or.inl ⟨hl, hin⟩

theorem refl (ho : h.Owns ls) : Handover h ls [] h ls :=
  of_transfer (.refl ho) fun _ => Iff.rfl

theorem perm (hh : Handover h ls es h' ls') (hp : ls'.Perm ls'') :
    Handover h ls es h' ls'' := by
  refine ⟨hh.transfer.perm hp, ?_⟩
  intro ws out htracks hlive howned
  apply (hh.books htracks hlive howned).congr
  intro l
  rw [hp.mem_iff]

theorem perm_left (hh : Handover h ls es h' ls') (hp : ls.Perm ks) :
    Handover h ks es h' ls' := by
  refine ⟨hh.transfer.perm_left hp, ?_⟩
  intro ws out htracks hlive howned
  apply (hh.books htracks hlive fun l hl => howned l (hp.mem_iff.mp hl)).congr
  intro l
  rw [hp.mem_iff]

theorem trans (h1 : Handover h ls es h' ls') (h2 : Handover h' ls' es' h'' ls'') :
    Handover h ls (es ++ es') h'' ls'' := by
  refine ⟨h1.transfer.trans h2.transfer, ?_⟩
  intro ws out htracks hlive howned
  rw [← List.append_assoc]
  have hmid := h1.books htracks hlive howned
  have hlive' : ∀ l, (out l ∧ l ∉ ls) ∨ l ∈ ls' → h'.Live l := by
    rintro l (⟨hl, hn⟩ | hl)
    · exact h1.transfer.keeps.live (hlive l hl) hn
    · exact h1.transfer.owns.live l hl
  apply (h2.books hmid hlive' fun l hl => Or.inr hl).congr
  intro l
  constructor
  · rintro (⟨hl, hn⟩ | hl)
    · exact Or.inl ⟨Or.inl ⟨hl, hn⟩, h1.transfer.apart (hlive l hl) hn⟩
    · exact Or.inr hl
  · rintro (⟨⟨hl, hn⟩ | hl, hn'⟩ | hl)
    · exact Or.inl ⟨hl, hn⟩
    · exact absurd hl hn'
    · exact Or.inr hl

/-- Writing to an owned block. -/
theorem write (ho : h.Owns ls) (hl : l ∈ ls) : Handover h ls [] (h.store l b) ls :=
  of_transfer (.write ho hl) fun _ => Iff.rfl

/-- Taking a fresh block. -/
theorem alloc (ho : h.Owns ls) (hf : h.Fresh l) :
    Handover h ls [.took l] (h.store l b) (ls ++ [l]) := by
  refine ⟨.alloc ho hf, ?_⟩
  intro ws out htracks hlive howned
  have hout : ∀ k ∈ [l], ¬ out k := by
    intro k hk hout
    rw [List.mem_singleton] at hk
    subst hk
    simpa [Live, hf] using hlive k hout
  apply (htracks.took (List.nodup_singleton l) hout).congr
  intro k
  rw [List.mem_append]
  constructor
  · rintro (⟨hk, -⟩ | hk | hk)
    · exact Or.inl hk
    · exact Or.inl (howned k hk)
    · exact Or.inr hk
  · rintro (hk | hk)
    · by_cases hin : k ∈ ls
      · exact Or.inr (Or.inl hin)
      · exact Or.inl ⟨hk, hin⟩
    · exact Or.inr (Or.inr hk)

/-- Freeing part of what is owned. -/
theorem free (ho : h.Owns (ks ++ ls)) :
    Handover h (ks ++ ls) (ks.map .gave) (h.freeAll ks) ls := by
  refine ⟨.free ho, ?_⟩
  intro ws out htracks hlive howned
  obtain ⟨hks, -, hapart⟩ := List.nodup_append.mp ho.nodup
  have howed := htracks.gave hks fun k hk => howned k (List.mem_append_left ls hk)
  apply howed.congr
  intro l
  rw [List.mem_append]
  constructor
  · rintro (⟨hl, hn⟩ | hl)
    · exact ⟨hl, fun hk => hn (Or.inl hk)⟩
    · exact ⟨howned l (List.mem_append_right ks hl), fun hk => hapart l hk l hl rfl⟩
  · rintro ⟨hl, hn⟩
    by_cases hin : l ∈ ls
    · exact Or.inr hin
    · exact Or.inl ⟨hl, fun hk => hk.elim hn hin⟩

/-- `realloc` of an owned block, or of NULL. -/
theorem move {p : Option Loc} (ho : h.Owns (p.toList ++ ls)) (hm : h.Movable p l) :
    Handover h (p.toList ++ ls) (p.toList.map .gave ++ [.took l]) (h.move p l b) (l :: ls) := by
  have hfree := free ho
  have hf : (h.freeAll p.toList).Fresh l := by
    rcases hm with rfl | hf
    · simp [Fresh, freeAll]
    · simp [Fresh, freeAll, hf]
  exact hfree.trans ((alloc hfree.transfer.owns hf).perm List.perm_append_comm)

/-- What another owner keeps is kept. -/
theorem frame (hh : Handover h ls es h' ls') (ho : h.Owns (ls ++ ks)) :
    Handover h (ls ++ ks) es h' (ls' ++ ks) := by
  obtain ⟨-, hks, hapart⟩ := List.nodup_append.mp ho.nodup
  have hout : ∀ l ∈ ks, l ∉ ls := fun l hk hl => hapart l hl l hk rfl
  have hlive : ∀ l ∈ ks, h.Live l := fun l hk => ho.live l (List.mem_append_right ls hk)
  refine ⟨⟨⟨?_, ?_⟩, ?_, ?_⟩, ?_⟩
  · refine List.nodup_append.mpr ⟨hh.transfer.owns.nodup, hks, ?_⟩
    rintro l hl k hk rfl
    exact hh.transfer.apart (hlive l hk) (hout l hk) hl
  · intro l hl
    rcases List.mem_append.mp hl with hl | hl
    · exact hh.transfer.owns.live l hl
    · exact hh.transfer.keeps.live (hlive l hl) (hout l hl)
  · intro l hl
    rcases List.mem_append.mp hl with hl | hl
    · exact (hh.transfer.source l hl).imp_left fun hin => List.mem_append_left ks hin
    · exact Or.inl (List.mem_append_right ls hl)
  · intro l hl hn
    exact hh.transfer.keeps l hl fun hin => hn (List.mem_append_left ks hin)
  · intro ws out ht houtLive howned
    apply (hh.books ht houtLive fun l hl => howned l (List.mem_append_left ks hl)).congr
    intro l
    rw [List.mem_append, List.mem_append]
    constructor
    · rintro (⟨hl, hn⟩ | hl | hk)
      · exact Or.inl ⟨hl, fun hin => hn (Or.inl hin)⟩
      · exact Or.inr hl
      · exact Or.inl ⟨howned l (List.mem_append_right ls hk), hout l hk⟩
    · rintro (⟨hl, hn⟩ | hl)
      · by_cases hk : l ∈ ks
        · exact Or.inr (Or.inr hk)
        · exact Or.inl ⟨hl, fun hin => hin.elim hn hk⟩
      · exact Or.inr (Or.inl hl)

/-- A block that was duplicated, or none. -/
theorem giveSome {p : Option Loc} {x : Option β} (ho : h.Owns ls) :
    Handover h ls ((h.giveSome p x).2.toList.map .took) (h.giveSome p x).1
      (ls ++ (h.giveSome p x).2.toList) := by
  have hnone : Handover h ls [] h (ls ++ []) := by
    rw [List.append_nil]
    exact .refl ho
  cases x with
  | none => exact hnone
  | some b =>
    rcases give_cases h p b with hg | ⟨l, hf, hg⟩
    · rw [Heap.giveSome, hg]
      exact hnone
    · rw [Heap.giveSome, hg]
      exact alloc ho hf

/-- Whose blocks are owned, their books are those of what is owned. -/
theorem tracks (hh : Handover h ls es h' ls') (ho : h.Owns ls) (ht : Tracks ws (· ∈ ls)) :
    Tracks (ws ++ es) (· ∈ ls') := by
  apply (hh.books ht ho.live fun l hl => hl).congr
  intro l
  constructor
  · exact fun hl => Or.inr hl
  · rintro (⟨hl, hn⟩ | hl)
    · exact absurd hl hn
    · exact hl

end Handover

/-- What was duplicated is there, and what was there is as it was. -/
theorem giveSome_keeps {p : Option Loc} {x : Option β} (hl : h.Live l) :
    (h.giveSome p x).1 l = h l := by
  cases x with
  | none => rfl
  | some b =>
    rcases give_cases h p b with hg | ⟨k, hf, hg⟩
    · rw [giveSome, hg]
    · rw [giveSome, hg]
      refine store_of_ne ?_
      rintro rfl
      simp [Live, hf] at hl

theorem giveSome_holds {p : Option Loc} {x : Option β} (hl : (h.giveSome p x).2 = some l) :
    ∃ b, x = some b ∧ (h.giveSome p x).1 l = some b := by
  cases x with
  | none => simp [giveSome] at hl
  | some b =>
    rcases give_cases h p b with hg | ⟨k, hf, hg⟩
    · simp [giveSome, hg] at hl
    · rw [giveSome, hg] at hl ⊢
      obtain rfl := Option.some.inj hl
      exact ⟨b, rfl, store_self⟩

end Heap
