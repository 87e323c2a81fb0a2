import Mathlib.Data.List.Nodup
import Mathlib.Data.List.Perm.Basic
import Mathlib.Logic.Function.Basic
import Mathlib.Tactic.Common

/-!
# Removal by the last entry

An unordered array loses an entry by moving its last one into the hole. What it holds is then
what erasing the entry would leave, in another order.
-/

universe u v

namespace SwapRemove

variable {α : Type u} {β : Type v}

/-- The first entry that satisfies `p` is overwritten with the last, which goes. -/
def swapRemove (p : α → Bool) (l : List α) : List α :=
  match l.findIdx? p, l.getLast? with
  | some i, some last => (l.set i last).dropLast
  | _, _ => l

variable {p : α → Bool} {l : List α} {a b : α}

theorem swapRemove_of_forall_not (h : ∀ a ∈ l, p a = false) : swapRemove p l = l := by
  have hnone : l.findIdx? p = none := List.findIdx?_eq_none_iff.mpr h
  simp [swapRemove, hnone]

/-- An entry before the last is overwritten with it. -/
theorem set_perm (l : List α) (i : ℕ) (hi : i < l.length) :
    (l.set i b).Perm (b :: l.eraseIdx i) := by
  induction l generalizing i with
  | nil => simp at hi
  | cons c l ih =>
    cases i with
    | zero => exact List.Perm.refl _
    | succ i =>
      have hstep := ih i (by simpa using hi)
      exact (hstep.cons c).trans (List.Perm.swap b c _)

theorem swapRemove_concat (m : List α) (i : ℕ) (hf : (m ++ [b]).findIdx? p = some i) :
    swapRemove p (m ++ [b]) = m.set i b := by
  unfold swapRemove
  rw [hf, List.getLast?_concat]
  dsimp only
  rw [List.set_append]
  split
  · exact List.dropLast_concat
  · rename_i hi
    obtain ⟨hlt, -⟩ := List.findIdx?_eq_some_iff_getElem.mp hf
    rw [List.length_append, List.length_singleton] at hlt
    have hzero : i - m.length = 0 := by omega
    have hset : m.set i b = m := List.set_eq_of_length_le (by omega)
    rw [hzero, hset, List.set_cons_zero]
    exact List.dropLast_concat

/-- What is left is what erasing the entry leaves. -/
theorem swapRemove_perm : (swapRemove p l).Perm (l.eraseP p) := by
  rw [List.eraseP_eq_eraseIdx]
  cases hf : l.findIdx? p with
  | none => rw [swapRemove_of_forall_not (List.findIdx?_eq_none_iff.mp hf)]
  | some i =>
    rcases List.eq_nil_or_concat l with rfl | ⟨m, b, rfl⟩
    · simp at hf
    · rw [List.concat_eq_append] at hf ⊢
      rw [swapRemove_concat m i hf]
      have hlt : i < (m ++ [b]).length := by
        obtain ⟨h, -⟩ := List.findIdx?_eq_some_iff_getElem.mp hf
        exact h
      dsimp only
      by_cases hi : i < m.length
      · rw [List.eraseIdx_append_of_lt_length hi]
        exact (set_perm m i hi).trans (List.perm_append_singleton b _).symm
      · have heq : i = m.length := by
          rw [List.length_append, List.length_singleton] at hlt
          omega
        subst heq
        have hset : m.set m.length b = m := List.set_eq_of_length_le (Nat.le_refl _)
        rw [hset, List.eraseIdx_append_of_length_le (Nat.le_refl _)]
        simp

/-- The other entries stay. -/
theorem swapRemove_keeps (hp : p a = false) (ha : a ∈ l) : a ∈ swapRemove p l := by
  have hneg : ¬ p a = true := by simp [hp]
  exact swapRemove_perm.mem_iff.mpr ((List.mem_eraseP_of_neg hneg).mpr ha)

/-! ### Arrays with a key -/

variable [DecidableEq β] {key : α → β} {k : β}

theorem swapRemove_nodup (h : (l.map key).Nodup) :
    ((swapRemove (fun a => key a == k) l).map key).Nodup :=
  (swapRemove_perm.map key).nodup_iff.mpr
    (h.sublist (List.eraseP_sublist.map key))

/-- With distinct keys, exactly the entry of the key is gone. -/
theorem mem_swapRemove (h : (l.map key).Nodup) :
    a ∈ swapRemove (fun a => key a == k) l ↔ a ∈ l ∧ key a ≠ k := by
  rw [swapRemove_perm.mem_iff]
  induction l with
  | nil => simp
  | cons b l ih =>
    obtain ⟨hb, hl⟩ := List.nodup_cons.mp h
    by_cases hbk : key b = k
    · rw [List.eraseP_cons_of_pos (by simp [hbk])]
      constructor
      · intro ha
        refine ⟨List.mem_cons_of_mem b ha, ?_⟩
        rintro rfl
        exact hb (hbk ▸ List.mem_map_of_mem ha)
      · rintro ⟨ha, hak⟩
        rcases List.mem_cons.mp ha with rfl | ha
        · exact absurd hbk hak
        · exact ha
    · rw [List.eraseP_cons_of_neg (by simp [hbk]), List.mem_cons, List.mem_cons, ih hl]
      constructor
      · rintro (rfl | ⟨ha, hak⟩)
        · exact ⟨Or.inl rfl, hbk⟩
        · exact ⟨Or.inr ha, hak⟩
      · rintro ⟨rfl | ha, hak⟩
        · exact Or.inl rfl
        · exact Or.inr ⟨ha, hak⟩

/-- The entries are told apart by their keys, which are all live. -/
structure Keyed (key : α → β) (l : List α) (live : β → Prop) : Prop where
  nodup : (l.map key).Nodup
  live : ∀ a ∈ l, live (key a)

variable {live live' : β → Prop}

omit [DecidableEq β] in
theorem keyed_nil : Keyed key [] live := ⟨List.nodup_nil, by simp⟩

omit [DecidableEq β] in
theorem Keyed.mono (h : Keyed key l live) (hl : ∀ k, live k → live' k) : Keyed key l live' :=
  ⟨h.nodup, fun a ha => hl (key a) (h.live a ha)⟩

omit [DecidableEq β] in
/-- An entry with a key that was not live goes behind the others. -/
theorem Keyed.concat (h : Keyed key l live) (ha : ¬ live (key a)) :
    Keyed key (l ++ [a]) fun k => live k ∨ k = key a := by
  have hnew : key a ∉ l.map key := by
    intro hmem
    obtain ⟨b, hb, hba⟩ := List.mem_map.mp hmem
    exact ha (hba ▸ h.live b hb)
  constructor
  · rw [List.map_append]
    simpa using h.nodup.concat hnew
  · intro b hb
    rcases List.mem_append.mp hb with hb | hb
    · exact Or.inl (h.live b hb)
    · rw [List.mem_singleton.mp hb]
      exact Or.inr rfl

theorem Keyed.remove (h : Keyed key l live) (k : β) :
    Keyed key (swapRemove (fun a => key a == k) l) fun j => live j ∧ j ≠ k := by
  refine ⟨swapRemove_nodup h.nodup, ?_⟩
  intro a ha
  obtain ⟨hold, hne⟩ := (mem_swapRemove h.nodup).mp ha
  exact ⟨h.live a hold, hne⟩

omit [DecidableEq β] in
theorem Keyed.eq_of_key (h : Keyed key l live) (ha : a ∈ l) (hb : b ∈ l) (hab : key a = key b) :
    a = b :=
  List.inj_on_of_nodup_map h.nodup ha hb hab

/-! ### What is found first -/

theorem findIdx?_pre {pre post : List α} (hp : p a = true) (hpre : ∀ b ∈ pre, p b = false) :
    (pre ++ a :: post).findIdx? p = some pre.length := by
  have hnone : pre.findIdx? p = none := List.findIdx?_eq_none_iff.mpr hpre
  simp [List.findIdx?_append, hnone, List.findIdx?_cons, hp]

/-- The last entry takes the place of the one removed. -/
theorem swapRemove_between {pre post : List α} (hp : p a = true) (hpre : ∀ b ∈ pre, p b = false) :
    swapRemove p (pre ++ a :: (post ++ [b])) = pre ++ b :: post := by
  have hassoc : pre ++ a :: (post ++ [b]) = (pre ++ a :: post) ++ [b] := by simp
  have hidx : ((pre ++ a :: post) ++ [b]).findIdx? p = some pre.length := by
    rw [← hassoc]
    exact findIdx?_pre hp hpre
  rw [hassoc, swapRemove_concat _ _ hidx]
  simp

theorem swapRemove_last {pre : List α} (hp : p a = true) (hpre : ∀ b ∈ pre, p b = false) :
    swapRemove p (pre ++ [a]) = pre := by
  rw [swapRemove_concat _ _ (findIdx?_pre hp hpre)]
  exact List.set_eq_of_length_le (Nat.le_refl _)

/-- The entry of the key stands before the first that is looked for, and the last entry is another
that is. -/
def Overtaken (key : α → β) (k : β) (p : α → Bool) (l : List α) : Prop :=
  ∃ pre a mid b post c, l = pre ++ a :: (mid ++ b :: post ++ [c]) ∧ key a = k ∧
    (∀ x ∈ pre ++ a :: mid, p x = false) ∧ p b = true ∧ p c = true

theorem find?_pre {pre post : List α} (hp : p a = true) (hpre : ∀ b ∈ pre, p b = false) :
    (pre ++ a :: post).find? p = some a := by
  rw [List.find?_append, List.find?_eq_none.mpr (by simpa using hpre),
    List.find?_cons_of_pos hp]
  rfl

/-- Then the last entry is found instead. -/
theorem Overtaken.find? (h : (l.map key).Nodup) (ho : Overtaken key k p l) :
    ∃ b c, l.find? p = some b ∧ (swapRemove (fun a => key a == k) l).find? p = some c ∧
      key b ≠ key c := by
  obtain ⟨pre, a, mid, b, post, c, rfl, rfl, hnot, hb, hc⟩ := ho
  have hpre : ∀ x ∈ pre, (key x == key a) = false := by
    intro x hx
    rw [List.map_append, List.map_cons] at h
    have hne := (List.nodup_append.mp h).2.2 (key x) (List.mem_map_of_mem hx) (key a)
      List.mem_cons_self
    simpa using hne
  have hbc : key b ≠ key c := by
    intro heq
    have hdup : [key b, key c].Sublist
        ((pre ++ a :: (mid ++ b :: post ++ [c])).map key) := by
      have hsub : [b, c].Sublist (pre ++ a :: (mid ++ b :: post ++ [c])) := by
        have hb : [b].Sublist (mid ++ b :: post) := List.singleton_sublist.mpr (by simp)
        have hin : [b, c].Sublist (mid ++ b :: post ++ [c]) := hb.append (List.Sublist.refl [c])
        exact hin.trans ((List.sublist_cons_self a _).trans (List.sublist_append_right pre _))
      exact hsub.map key
    have hnd := h.sublist hdup
    simp [heq] at hnd
  refine ⟨b, c, ?_, ?_, hbc⟩
  · have hsplit : pre ++ a :: (mid ++ b :: post ++ [c]) =
        (pre ++ a :: mid) ++ b :: (post ++ [c]) := by simp
    rw [hsplit]
    exact find?_pre hb hnot
  · rw [swapRemove_between (by simp) hpre]
    exact find?_pre hc fun x hx => hnot x (List.mem_append_left _ hx)

/-- Otherwise the same entry is found, if it is not the one removed. -/
theorem find?_swapRemove (hne : ∀ b, l.find? p = some b → key b ≠ k)
    (ho : ¬ Overtaken key k p l) :
    (swapRemove (fun a => key a == k) l).find? p = l.find? p := by
  by_cases hk : ∀ a ∈ l, (key a == k) = false
  · rw [swapRemove_of_forall_not hk]
  · obtain ⟨a, pre, rest, ha, rfl, hpre⟩ :
        ∃ a pre rest, key a = k ∧ l = pre ++ a :: rest ∧ ∀ b ∈ pre, (key b == k) = false := by
      obtain ⟨a, hfind⟩ : ∃ a, l.find? (fun a => key a == k) = some a := by
        rw [← Option.isSome_iff_exists, List.find?_isSome]
        simpa using hk
      obtain ⟨hak, pre, rest, hl, hpre⟩ := List.find?_eq_some_iff_append.mp hfind
      exact ⟨a, pre, rest, by simpa using hak, hl, by simpa using hpre⟩
    subst ha
    cases hp : pre.find? p with
    | some b =>
      -- found before the one that is removed
      rcases List.eq_nil_or_concat rest with rfl | ⟨post, c, rfl⟩
      · rw [swapRemove_last (by simp) hpre, List.find?_append, hp]
        rfl
      · rw [List.concat_eq_append, swapRemove_between (by simp) hpre, List.find?_append,
          List.find?_append, hp]
        rfl
    | none =>
      have hnot : ∀ x ∈ pre, p x = false := by simpa using List.find?_eq_none.mp hp
      have hpa : p a = false := by
        by_contra hpos
        exact hne a (find?_pre (by simpa using hpos) hnot) rfl
      rcases List.eq_nil_or_concat rest with rfl | ⟨post, c, rfl⟩
      · rw [swapRemove_last (by simp) hpre, List.find?_append, hp]
        simp [hpa]
      · rw [List.concat_eq_append] at ho ⊢
        have hold : (pre ++ a :: (post ++ [c])).find? p = (post ++ [c]).find? p := by
          rw [List.find?_append, hp, Option.none_or, List.find?_cons_of_neg (by simp [hpa])]
        have hnew : (pre ++ c :: post).find? p = (c :: post).find? p := by
          rw [List.find?_append, hp, Option.none_or]
        rw [swapRemove_between (by simp) hpre, hold, hnew, List.find?_append]
        cases hc : p c with
        | false => simp [hc]
        | true =>
          cases hpost : post.find? p with
          | none => simp [hc]
          | some b =>
            -- the one that is last would overtake this one
            obtain ⟨hb, mid, post', rfl, hmid⟩ := List.find?_eq_some_iff_append.mp hpost
            refine (ho ⟨pre, a, mid, b, post', c, rfl, rfl, ?_, hb, hc⟩).elim
            intro x hx
            rcases List.mem_append.mp hx with hx | hx
            · exact hnot x hx
            · rcases List.mem_cons.mp hx with rfl | hx
              · exact hpa
              · simpa using hmid x hx

/-! ### Arrays that mirror a map -/

section Mirror

variable {γ : Type u} {entry : β → γ → Option α} {live : β → Option γ} {g : γ} {l' : List α}

/-- The array has one entry for each binding of the map that makes one, and no other. -/
structure Mirrors (key : α → β) (entry : β → γ → Option α) (l : List α) (live : β → Option γ) :
    Prop where
  nodup : (l.map key).Nodup
  mem : ∀ a, a ∈ l ↔ ∃ g, live (key a) = some g ∧ entry (key a) g = some a

omit [DecidableEq β] in
theorem mirrors_nil : Mirrors key entry [] fun _ => none :=
  ⟨List.nodup_nil, by simp⟩

/-- A new binding puts its entry, if it makes one, behind the others. -/
theorem Mirrors.add (h : Mirrors key entry l live) (hkey : ∀ a, entry k g = some a → key a = k)
    (hk : live k = none) :
    Mirrors key entry (l ++ (entry k g).toList) (Function.update live k (some g)) := by
  have hold : ∀ a ∈ l, key a ≠ k := by
    rintro a ha rfl
    obtain ⟨g, hg, -⟩ := (h.mem a).mp ha
    rw [hk] at hg
    cases hg
  constructor
  · cases he : entry k g with
    | none => simpa using h.nodup
    | some b =>
      rw [Option.toList_some, List.map_append, List.nodup_append]
      refine ⟨h.nodup, by simp, ?_⟩
      intro x hx y hy hxy
      obtain ⟨a, ha, rfl⟩ := List.mem_map.mp hx
      obtain rfl : y = key b := by simpa using hy
      exact hold a ha (hxy.trans (hkey b he))
  · intro a
    rw [List.mem_append, Option.mem_toList]
    by_cases hak : key a = k
    · constructor
      · rintro (ha | he)
        · exact absurd hak (hold a ha)
        · exact ⟨g, by simp [hak], hak ▸ he⟩
      · rintro ⟨g', hg, he⟩
        obtain rfl : g = g' := by simpa [hak] using hg
        exact Or.inr (hak ▸ he)
    · have hne : entry k g ≠ some a := fun he => hak (hkey a he)
      rw [Function.update_of_ne hak, h.mem a]
      constructor
      · rintro (ha | he)
        · exact ha
        · exact absurd he hne
      · exact Or.inl

theorem Mirrors.remove (h : Mirrors key entry l live) (k : β) :
    Mirrors key entry (swapRemove (fun a => key a == k) l) (Function.update live k none) := by
  refine ⟨swapRemove_nodup h.nodup, fun a => ?_⟩
  rw [mem_swapRemove h.nodup, h.mem a]
  by_cases hak : key a = k
  · constructor
    · rintro ⟨-, hne⟩
      exact absurd hak hne
    · rintro ⟨g, hg, -⟩
      simp [hak] at hg
  · rw [Function.update_of_ne hak]
    exact and_iff_left hak

omit [DecidableEq β] in
/-- Arrays that mirror one map hold the same entries. -/
theorem Mirrors.perm (h : Mirrors key entry l live) (h' : Mirrors key entry l' live) :
    l.Perm l' := by
  refine (List.perm_ext_iff_of_nodup (List.Nodup.of_map key h.nodup)
    (List.Nodup.of_map key h'.nodup)).mpr fun a => ?_
  rw [h.mem a, h'.mem a]

end Mirror

end SwapRemove
