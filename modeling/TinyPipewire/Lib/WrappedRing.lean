import Mathlib.Data.Nat.ModEq
import Mathlib.Tactic.Common

/-!
# Rings under a counter that wraps

A ring of `C` slots is addressed by a position that only grows, kept in a counter of `N`
values: the item of count `k` lies in the slot `k % N % C`. Unless `C` divides `N`, the slots
of neighbouring counts are not neighbours where the counter wraps.
-/

namespace WrappedRing

variable {N C k a r : ℕ}

/-- The slot of the item of count `k`. -/
def slot (N C k : ℕ) : ℕ := k % N % C

theorem slot_lt (hC : 0 < C) : slot N C k < C := Nat.mod_lt _ hC

/-- Two counts less than a ring apart share a slot only across a wrap, `N % C` apart. -/
theorem slot_eq_iff (hCN : C ≤ N) (hk : k < a) (ha : a < k + C) :
    slot N C k = slot N C a ↔ a % N < N % C ∧ k + N % C = a := by
  have hN : 0 < N := by omega
  have hs := Nat.mod_lt a hN
  have hc : N % C < C := Nat.mod_lt N (by omega)
  have hkd : k + (a - k) = a := by omega
  rcases Nat.lt_or_ge (a % N) (a - k) with hlt | hge
  · -- the counter has wrapped between the two
    have hkN : k % N = N + a % N - (a - k) := by
      have := Nat.div_add_mod a N
      have hq : 0 < a / N := by
        by_contra hq
        rw [Nat.eq_zero_of_not_pos hq] at this
        omega
      obtain ⟨q, hq⟩ : ∃ q, a / N = q + 1 := ⟨a / N - 1, by omega⟩
      rw [hq, Nat.mul_add, Nat.mul_one] at this
      have hk' : k = N * q + (N + a % N - (a - k)) := by omega
      rw [hk', Nat.mul_add_mod, Nat.mod_eq_of_lt (by omega)]
      omega
    have hmod : slot N C k = slot N C a ↔ (a - k) ≡ N [MOD C] := by
      rw [Nat.modEq_iff_dvd' (by omega)]
      have hdiff : N - (a - k) = N + a % N - (a - k) - a % N := by omega
      rw [hdiff, ← Nat.modEq_iff_dvd' (by omega)]
      unfold slot
      rw [hkN]
      exact eq_comm
    rw [hmod]
    unfold Nat.ModEq
    rw [Nat.mod_eq_of_lt (show a - k < C by omega)]
    omega
  · have hkN : k % N = a % N - (a - k) := by
      have := Nat.div_add_mod a N
      have hk' : k = N * (a / N) + (a % N - (a - k)) := by omega
      rw [hk', Nat.mul_add_mod, Nat.mod_eq_of_lt (by omega)]
      omega
    have hne : slot N C k ≠ slot N C a := by
      intro h
      have hmod : a % N - (a - k) ≡ a % N [MOD C] := by
        unfold slot at h
        rw [hkN] at h
        exact h
      rw [Nat.modEq_iff_dvd' (by omega)] at hmod
      have := Nat.le_of_dvd (by omega) hmod
      omega
    constructor
    · exact fun h => absurd h hne
    · rintro ⟨h, heq⟩
      omega

/-- The slot of the item of count `a` holds one of the items from count `r` on exactly if the
counter is less than `N % C` past a wrap, and that many items are there. -/
theorem occupied_iff (hCN : C ≤ N) (ha : a < r + C) :
    (∃ k, r ≤ k ∧ k < a ∧ slot N C k = slot N C a) ↔ a % N < N % C ∧ r + N % C ≤ a := by
  constructor
  · rintro ⟨k, hrk, hka, heq⟩
    obtain ⟨hlt, hk⟩ := (slot_eq_iff hCN hka (by omega)).mp heq
    exact ⟨hlt, by omega⟩
  · rintro ⟨hlt, hle⟩
    refine ⟨a - N % C, by omega, by omega, ?_⟩
    exact (slot_eq_iff hCN (by omega) (by omega)).mpr ⟨hlt, by omega⟩

/-! ### Counts kept in a word -/

variable {W w : ℕ}

theorem ofNat_add (a : ℕ) (i : BitVec W) :
    BitVec.ofNat W a + i = BitVec.ofNat W (a + i.toNat) := by
  apply BitVec.eq_of_toNat_eq
  simp

/-- The distance of two counts, where a word holds it. -/
theorem ofNat_sub_toNat (hle : r ≤ w) (hlt : w - r < 2 ^ W) :
    (BitVec.ofNat W w - BitVec.ofNat W r).toNat = w - r := by
  obtain ⟨d, rfl⟩ := Nat.exists_eq_add_of_le hle
  have h : BitVec.ofNat W (r + d) - BitVec.ofNat W r = BitVec.ofNat W d := by
    rw [BitVec.ofNat_add, BitVec.add_comm, BitVec.add_sub_cancel]
  rw [h, BitVec.toNat_ofNat, Nat.mod_eq_of_lt (by omega)]
  omega

/-- A loop counter below its bound counts on without a wrap. -/
theorem toNat_succ {i len : BitVec W} (h : i < len) : (i + 1).toNat = i.toNat + 1 := by
  have hi : i.toNat < len.toNat := h
  have hlen := len.isLt
  cases W with
  | zero => omega
  | succ W =>
    rw [BitVec.toNat_add]
    have h1 : (1 : BitVec (W + 1)).toNat = 1 := by simp
    rw [h1, Nat.mod_eq_of_lt (by omega)]

end WrappedRing
