import Mathlib.Data.List.Infix
import TinyPipewire.Utils.LoopbackRing

/-!
# The ring as a queue

As counts the positions never come too close; as slots they do where the counter wraps, unless
the capacity divides its range. Up to there the ring is a queue, in any interleaving.
-/

namespace TinyPipewire.Utils

open WrappedRing

variable {W : ℕ} {capacity : BitVec W} {s : LoopbackRing W} {ws : List (RingEvent W)} {w r : ℕ}
  {xs : List (RingStep W)}

/-- A byte goes where one was stored that is not read yet. -/
def Overwrites (ws : List (RingEvent W)) : RingEvent W → Prop
  | .stored slot _ => ∃ k, (readBytes ws).length ≤ k ∧ (storedSlots ws)[k]? = some slot
  | _ => False

/-- The ring as a queue: what is read is what was accepted, in order and within the capacity,
and what is not accepted is counted. -/
structure QueueOf (capacity : BitVec W) (s : LoopbackRing W) (ws : List (RingEvent W)) :
    Prop where
  read : readBytes ws <+: accepted ws
  unread : (accepted ws).length ≤ (readBytes ws).length + capacity.toNat
  total : (accepted ws).length + droppedBytes ws = offeredBytes ws
  dropped : s.dropped = .ofNat W (droppedBytes ws)

/-- At all times of a run the ring is a queue, and no byte of it is overwritten unread. -/
def RingSound (capacity : BitVec W) (xs : List (RingStep W)) : Prop :=
  let M := ringMachine W
  (∀ ys zs, xs = ys ++ zs →
      QueueOf capacity (M.exec (.init capacity) ys) (M.outs (.init capacity) ys)) ∧
    ∀ ys a zs, xs = ys ++ a :: zs →
      ¬ ∃ e ∈ M.out (M.exec (.init capacity) ys) a, Overwrites (M.outs (.init capacity) ys) e

/-- A byte goes at least `2 ^ W % capacity` positions past the last wrap of the counter, or
fewer bytes than that are unread. -/
def LoopbackRing.StoresClear (s : LoopbackRing W) : RingStep W → Prop
  | .storeByte =>
    match s.writer with
    | .copying _ writePos _ i =>
      2 ^ W % s.capacity.toNat ≤ (writePos + i).toNat ∨
        (writePos + i - s.reader.nextPos s.readPos).toNat < 2 ^ W % s.capacity.toNat
    | _ => True
  | _ => True

/-! ### Bytes behind the counts -/

theorem RingReader.At.nextPos {n : ℕ} {p : RingReader W} (h : p.At n w r) :
    p.nextPos (.ofNat W r) = .ofNat W n := by
  cases p with
  | idle =>
    have hn : n = r := h
    rw [hn]
    rfl
  | loaded len pos =>
    obtain ⟨rfl, -⟩ := h
    rfl
  | copying pos len i =>
    obtain ⟨rfl, rfl, -⟩ := h
    exact ofNat_add r i

/-- The slots written hold the bytes stored, in order. -/
theorem Counts.slot_iff (h : Counts s ws w r) (k n : ℕ) :
    (storedSlots ws)[k]? = some n ↔
      k < (storedSlots ws).length ∧ slot (2 ^ W) s.capacity.toNat k = n := by
  rw [h.slots, List.getElem?_map, List.length_map, List.length_range]
  by_cases hk : k < (storedSlots ws).length
  · simp [hk]
  · simp [hk]

/-- Everything read has been stored, and what is stored and not read fits the ring. -/
theorem Counts.unread_le (h : Counts s ws w r) :
    (readBytes ws).length ≤ w ∧ w ≤ (storedSlots ws).length ∧
      (storedSlots ws).length ≤ (accepted ws).length ∧
      (accepted ws).length ≤ (readBytes ws).length + s.capacity.toNat := by
  obtain ⟨hr, hread⟩ := h.reader.copied h.behind
  obtain ⟨hw, hstored, -, hacc⟩ := h.writer.stored
  omega

/-- A store overwrites an unread byte exactly if it does not go clear. -/
theorem overwrites_iff (h : Counts s ws w r) {src : List UInt8} {pos len i : BitVec W}
    (hp : s.writer = .copying src pos len i) (hi : i < len) (byte : UInt8) :
    Overwrites ws (.stored (s.index (pos + i)) byte) ↔ ¬ s.StoresClear .storeByte := by
  have hw := h.writer
  rw [hp] at hw
  obtain ⟨rfl, hstored, -, -, hfull, -⟩ := hw
  have hlt := BitVec.lt_def.mp hi
  obtain ⟨hr, hread⟩ := h.reader.copied h.behind
  have hc := s.capacity.isLt
  have hnext := h.reader.nextPos
  rw [← h.readPos] at hnext
  have hclear : s.StoresClear .storeByte ↔
      2 ^ W % s.capacity.toNat ≤ (storedSlots ws).length % 2 ^ W ∨
        (storedSlots ws).length - (readBytes ws).length < 2 ^ W % s.capacity.toNat := by
    simp only [LoopbackRing.StoresClear, hp]
    rw [ofNat_add, hnext, ← hstored, BitVec.toNat_ofNat,
      ofNat_sub_toNat (by omega) (by omega)]
  have hover : Overwrites ws (.stored (s.index (.ofNat W w + i)) byte) ↔
      ∃ k, (readBytes ws).length ≤ k ∧ k < (storedSlots ws).length ∧
        slot (2 ^ W) s.capacity.toNat k =
          slot (2 ^ W) s.capacity.toNat (storedSlots ws).length := by
    rw [ofNat_add, index_ofNat, ← hstored]
    simp only [Overwrites, h.slot_iff]
  rw [hover, hclear, occupied_iff (by omega) (by omega)]
  omega

/-- The slots not given back hold the bytes accepted, and what is read is the bytes before. -/
structure Intact (s : LoopbackRing W) (ws : List (RingEvent W)) : Prop where
  kept : ∀ k, (readBytes ws).length ≤ k → k < (storedSlots ws).length →
    s.data[slot (2 ^ W) s.capacity.toNat k]? = (accepted ws)[k]?
  read : readBytes ws <+: accepted ws

theorem intact_init : Intact (.init capacity) [] where
  kept := by
    intro k _ hk
    exact absurd hk (Nat.not_lt_zero k)
  read := List.prefix_refl []

/-- What is accepted later leaves the bytes in place. -/
theorem Intact.extend (h : Intact s ws) (hle : (storedSlots ws).length ≤ (accepted ws).length)
    {t : LoopbackRing W} {vs : List (RingEvent W)} (hdata : t.data = s.data)
    (hcapacity : t.capacity = s.capacity) (hread : readBytes vs = [])
    (hstored : storedSlots vs = []) : Intact t (ws ++ vs) where
  kept := by
    rw [readBytes_append, storedSlots_append, accepted_append, hread, hstored, hdata,
      hcapacity, List.append_nil, List.append_nil]
    intro k hk hlt
    rw [List.getElem?_append_left (by omega)]
    exact h.kept k hk hlt
  read := by
    rw [readBytes_append, accepted_append, hread, List.append_nil]
    exact h.read.trans (List.prefix_append _ _)

theorem intact_storeByte (h : Intact s ws) (hc : Counts s ws w r)
    (he : s.Enabled .storeByte) (hclear : s.StoresClear .storeByte) :
    Intact (s.step .storeByte).1 (ws ++ (s.step .storeByte).2) := by
  obtain ⟨src, pos, len, i, hp, hi⟩ := RingWriter.inLoop_iff.mp he
  have hover := (not_congr (overwrites_iff hc hp hi (src.getD i.toNat 0))).mpr
    (not_not.mpr hclear)
  have hw := hc.writer
  rw [hp] at hw
  obtain ⟨rfl, hstored, -, hlen, hfull, pre, hacc, hpre⟩ := hw
  have hlt := BitVec.lt_def.mp hi
  simp only [LoopbackRing.step, LoopbackRing.storeByte, hp]
  rw [ofNat_add, index_ofNat, ← hstored] at hover ⊢
  have hone : storedSlots (W := W) [.stored (slot (2 ^ W) s.capacity.toNat
      (storedSlots ws).length) (src.getD i.toNat 0)] =
      [slot (2 ^ W) s.capacity.toNat (storedSlots ws).length] := rfl
  have hold : accepted (ws ++ [.stored (slot (2 ^ W) s.capacity.toNat
      (storedSlots ws).length) (src.getD i.toNat 0)]) = accepted ws := by
    simp [accepted]
  have hsame : readBytes (ws ++ [.stored (slot (2 ^ W) s.capacity.toNat
      (storedSlots ws).length) (src.getD i.toNat 0)]) = readBytes ws := by
    simp [readBytes]
  refine ⟨?_, ?_⟩
  · rw [hsame, hold, storedSlots_append, hone, List.length_append, List.length_singleton]
    intro k hk hkn
    dsimp only
    rcases Nat.lt_or_eq_of_le (Nat.le_of_lt_succ hkn) with hlt' | rfl
    · -- an older byte, which the store goes past
      have hne : slot (2 ^ W) s.capacity.toNat (storedSlots ws).length ≠
          slot (2 ^ W) s.capacity.toNat k := by
        intro heq
        exact hover ⟨k, hk, (hc.slot_iff k _).mpr ⟨hlt', heq.symm⟩⟩
      rw [List.getElem?_set_ne hne]
      exact h.kept k hk hlt'
    · have hin : slot (2 ^ W) s.capacity.toNat (storedSlots ws).length < s.data.length := by
        rw [hc.size]
        exact slot_lt hc.positive
      rw [List.getElem?_set_self hin, hacc, hstored, ← hpre,
        List.getElem?_append_right (Nat.le_add_right _ _), Nat.add_sub_cancel_left,
        List.getElem?_take_of_lt hlt, List.getD_eq_getElem?_getD]
      rw [List.getElem?_eq_getElem (show i.toNat < src.length by omega)]
      rfl
  · rw [hsame, hold]
    exact h.read

theorem intact_readByte (h : Intact s ws) (hc : Counts s ws w r)
    (he : s.Enabled .readByte) :
    Intact (s.step .readByte).1 (ws ++ (s.step .readByte).2) := by
  obtain ⟨pos, len, i, hp, hi⟩ := RingReader.inLoop_iff.mp he
  have hr := hc.reader
  rw [hp] at hr
  obtain ⟨rfl, hread, -, hlen⟩ := hr
  have hlt := BitVec.lt_def.mp hi
  obtain ⟨-, hstored, hacc, -⟩ := hc.unread_le
  simp only [LoopbackRing.step, LoopbackRing.readByte, hp]
  rw [ofNat_add, index_ofNat, ← hread]
  have hkept := h.kept (readBytes ws).length (Nat.le_refl _) (by omega)
  rw [List.getD_eq_getElem?_getD, hkept]
  have hin : (readBytes ws).length < (accepted ws).length := by omega
  rw [List.getElem?_eq_getElem hin, Option.getD_some]
  have hone : readBytes (W := W) [.copied (accepted ws)[(readBytes ws).length]] =
      [(accepted ws)[(readBytes ws).length]] := rfl
  have hold : accepted (ws ++ [.copied (accepted ws)[(readBytes ws).length]]) =
      accepted ws := by
    simp [accepted]
  have hslots : storedSlots (ws ++ [.copied (accepted ws)[(readBytes ws).length]]) =
      storedSlots ws := by
    simp [storedSlots]
  refine ⟨?_, ?_⟩
  · rw [hold, hslots, readBytes_append, hone, List.length_append, List.length_singleton]
    intro k hk hkn
    exact h.kept k (by omega) hkn
  · rw [hold, readBytes_append, hone]
    exact List.concat_get_prefix h.read hin

theorem intact_next (h : Intact s ws) (hc : Counts s ws w r) {a : RingStep W}
    (he : s.Enabled a) (hclear : s.StoresClear a) :
    Intact (s.step a).1 (ws ++ (s.step a).2) := by
  have hle := hc.unread_le.2.2.1
  cases a with
  | writeEnter src => exact h.extend hle rfl rfl rfl rfl
  | writeLoad =>
    obtain ⟨src, pos, hp⟩ := RingWriter.atLoad_iff.mp he
    simp only [LoopbackRing.step, LoopbackRing.writeLoad, hp]
    exact h.extend hle rfl rfl rfl rfl
  | storeByte => exact intact_storeByte h hc he hclear
  | writeLeave =>
    obtain ⟨src, pos, len, i, hp, -⟩ := RingWriter.atStore_iff.mp he
    simp only [LoopbackRing.step, LoopbackRing.writeLeave, hp]
    exact h.extend hle rfl rfl rfl rfl
  | readEnter len => exact h.extend hle rfl rfl rfl rfl
  | readLoad =>
    obtain ⟨len, pos, hp⟩ := RingReader.atLoad_iff.mp he
    simp only [LoopbackRing.step, LoopbackRing.readLoad, hp]
    exact h.extend hle rfl rfl rfl rfl
  | readByte => exact intact_readByte h hc he
  | readLeave =>
    obtain ⟨pos, len, i, hp, -⟩ := RingReader.atStore_iff.mp he
    simp only [LoopbackRing.step, LoopbackRing.readLeave, hp]
    exact h.extend hle rfl rfl rfl rfl

/-- As long as every store goes clear, the ring holds what is accepted and not read. -/
theorem intact_run (hpos : 0 < capacity.toNat)
    (h : ((ringMachine W).restrict LoopbackRing.StoresClear).Valid (.init capacity) xs) :
    Intact ((ringMachine W).exec (.init capacity) xs)
      ((ringMachine W).outs (.init capacity) xs) := by
  have hrun := Machine.history_restrict
    (P := fun ws s => (∃ w r, Counts s ws w r) ∧ Intact s ws)
    ⟨⟨0, 0, counts_init hpos⟩, intact_init⟩ ?_ h
  · exact hrun.2
  · rintro ws s a he hclear ⟨⟨w, r, hc⟩, hs⟩
    exact ⟨counts_next ⟨w, r, hc⟩ he, intact_next hs hc he hclear⟩

theorem capacity_next (s : LoopbackRing W) (a : RingStep W) :
    (s.step a).1.capacity = s.capacity := by
  cases a with
  | writeEnter _ | readEnter _ => rfl
  | writeLoad => simp only [LoopbackRing.step, LoopbackRing.writeLoad]; split <;> rfl
  | storeByte => simp only [LoopbackRing.step, LoopbackRing.storeByte]; split <;> rfl
  | writeLeave => simp only [LoopbackRing.step, LoopbackRing.writeLeave]; split <;> rfl
  | readLoad => simp only [LoopbackRing.step, LoopbackRing.readLoad]; split <;> rfl
  | readByte => simp only [LoopbackRing.step, LoopbackRing.readByte]; split <;> rfl
  | readLeave => simp only [LoopbackRing.step, LoopbackRing.readLeave]; split <;> rfl

theorem capacity_run (h : (ringMachine W).Valid (.init capacity) xs) :
    ((ringMachine W).exec (.init capacity) xs).capacity = capacity :=
  Machine.invariant (I := fun s => s.capacity = capacity) rfl
    (fun s a _ hs => (capacity_next s a).trans hs) h

/-- Whatever its stores go over, the ring accepts what fits and counts the rest. -/
theorem ring_accounts (hpos : 0 < capacity.toNat)
    (h : (ringMachine W).Valid (.init capacity) xs) :
    let ws := (ringMachine W).outs (.init capacity) xs
    (accepted ws).length ≤ (readBytes ws).length + capacity.toNat ∧
      (accepted ws).length + droppedBytes ws = offeredBytes ws ∧
      ((ringMachine W).exec (.init capacity) xs).dropped = .ofNat W (droppedBytes ws) := by
  obtain ⟨w, r, hc⟩ := counts_run hpos h
  have hunread := hc.unread_le.2.2.2
  rw [capacity_run h] at hunread
  exact ⟨hunread, hc.total, hc.dropped⟩

theorem queueOf_run (hpos : 0 < capacity.toNat)
    (h : ((ringMachine W).restrict LoopbackRing.StoresClear).Valid (.init capacity) xs) :
    QueueOf capacity ((ringMachine W).exec (.init capacity) xs)
      ((ringMachine W).outs (.init capacity) xs) := by
  obtain ⟨hunread, htotal, hdropped⟩ := ring_accounts hpos (Machine.valid_of_restrict h)
  exact ⟨(intact_run hpos h).read, hunread, htotal, hdropped⟩

/-- An event that overwrites is of a store that does not go clear. -/
theorem exists_overwrites_iff (h : Counts s ws w r) {a : RingStep W} (he : s.Enabled a) :
    (∃ e ∈ (s.step a).2, Overwrites ws e) ↔ ¬ s.StoresClear a := by
  cases a with
  | storeByte =>
    obtain ⟨src, pos, len, i, hp, hi⟩ := RingWriter.inLoop_iff.mp he
    rw [← overwrites_iff h hp hi (src.getD i.toNat 0)]
    simp [LoopbackRing.step, LoopbackRing.storeByte, hp]
  | writeLoad =>
    obtain ⟨src, pos, hp⟩ := RingWriter.atLoad_iff.mp he
    simp [LoopbackRing.step, LoopbackRing.writeLoad, hp, Overwrites, LoopbackRing.StoresClear]
  | readByte =>
    obtain ⟨pos, len, i, hp, -⟩ := RingReader.inLoop_iff.mp he
    simp [LoopbackRing.step, LoopbackRing.readByte, hp, Overwrites, LoopbackRing.StoresClear]
  | readLeave =>
    obtain ⟨pos, len, i, hp, -⟩ := RingReader.atStore_iff.mp he
    simp [LoopbackRing.step, LoopbackRing.readLeave, hp, Overwrites, LoopbackRing.StoresClear]
  | writeEnter _ | writeLeave | readEnter _ | readLoad =>
    simp [LoopbackRing.step, LoopbackRing.StoresClear]

/-- A run is sound exactly if each of its stores goes clear. -/
theorem ringSound_iff (hpos : 0 < capacity.toNat)
    (h : (ringMachine W).Valid (.init capacity) xs) :
    RingSound capacity xs ↔
      ((ringMachine W).restrict LoopbackRing.StoresClear).Valid (.init capacity) xs := by
  have hover := Machine.never_iff_restrict (C := LoopbackRing.StoresClear)
    (W := fun ys a => ∃ e ∈ (ringMachine W).out ((ringMachine W).exec (.init capacity) ys) a,
      Overwrites ((ringMachine W).outs (.init capacity) ys) e) ?_ h
  · constructor
    · rintro ⟨-, hnever⟩
      exact hover.mp hnever
    · intro hclear
      refine ⟨?_, hover.mpr hclear⟩
      rintro ys zs rfl
      exact queueOf_run hpos (Machine.valid_append.mp hclear).1
  · intro ys a hys he
    obtain ⟨w, r, hc⟩ := counts_run hpos (Machine.valid_of_restrict hys)
    exact exists_overwrites_iff hc he

/-- Where the capacity divides the counter's range, every run is sound. -/
theorem ringSound_of_dvd (hpos : 0 < capacity.toNat) (hdvd : capacity.toNat ∣ 2 ^ W)
    (h : (ringMachine W).Valid (.init capacity) xs) : RingSound capacity xs := by
  rw [ringSound_iff hpos h, Machine.valid_restrict_iff]
  refine ⟨h, ?_⟩
  rintro ys a zs rfl
  have hcap := capacity_run (Machine.valid_append.mp h).1
  cases a with
  | storeByte =>
    simp only [LoopbackRing.StoresClear]
    split
    · left
      rw [hcap, Nat.mod_eq_zero_of_dvd hdvd]
      exact Nat.zero_le _
    · trivial
  | writeEnter _ | writeLoad | writeLeave | readEnter _ | readLoad | readByte | readLeave =>
    trivial

/-! ### A run to the wrap -/

/-- One byte in, and the same byte out. -/
def passByte (W : ℕ) : List (RingStep W) :=
  [.writeEnter [0], .writeLoad, .storeByte, .writeLeave, .readEnter 1, .readLoad, .readByte,
    .readLeave]

def passBytes (W : ℕ) : ℕ → List (RingStep W)
  | 0 => []
  | n + 1 => passBytes W n ++ passByte W

/-- The positions are brought to the last value of the counter, a byte at a time; then a write
ends one byte past the slots that the wrap skips. -/
def wrapRun (capacity : BitVec W) : List (RingStep W) :=
  passBytes W (2 ^ W - 1) ++
    .writeEnter (List.replicate (2 ^ W % capacity.toNat + 1) 0) :: .writeLoad ::
      List.replicate (2 ^ W % capacity.toNat + 1) .storeByte

/-- Both threads are idle, with `n` bytes through. -/
structure Passed (capacity : BitVec W) (s : LoopbackRing W) (n : ℕ) : Prop where
  capacity : s.capacity = capacity
  writePos : s.writePos = .ofNat W n
  readPos : s.readPos = .ofNat W n
  writer : s.writer = .idle
  reader : s.reader = .idle

/-- An empty ring takes what its capacity holds. -/
theorem ringAccept_empty {len : BitVec W} (h : len.toNat ≤ capacity.toNat) (pos : BitVec W) :
    ringAccept capacity pos pos len = (len, 0) := by
  have hnot : ¬ capacity < len := by
    rw [BitVec.lt_def]
    omega
  simp [ringAccept, hnot]

theorem passByte_next {n : ℕ} (hpos : 0 < capacity.toNat) (h : Passed capacity s n) :
    (ringMachine W).Valid s (passByte W) ∧
      Passed capacity ((ringMachine W).exec s (passByte W)) (n + 1) := by
  obtain ⟨data, cap, wp, rp, dropped, writer, reader⟩ := s
  obtain ⟨rfl, rfl, rfl, rfl, rfl⟩ := h
  dsimp only at hpos
  have hW : W ≠ 0 := by
    rintro rfl
    have := cap.isLt
    omega
  have hone : (1 : BitVec W).toNat = 1 := by
    have : 1 < 2 ^ W := Nat.one_lt_two_pow hW
    simp [Nat.mod_eq_of_lt this]
  have hle : (1 : BitVec W).toNat ≤ cap.toNat := by
    rw [hone]
    exact hpos
  have hlt : (0 : BitVec W) < 1 := by
    rw [BitVec.lt_def, hone]
    simp
  have haccept := ringAccept_empty hle (.ofNat W n)
  have havail : ringAvailable (.ofNat W n + 1) (.ofNat W n) (1 : BitVec W) = 1 := by
    have hdiff : BitVec.ofNat W n + 1 - BitVec.ofNat W n = 1 := by
      rw [BitVec.add_comm, BitVec.add_sub_cancel]
    simp only [ringAvailable, hdiff, BitVec.lt_irrefl, if_false]
  have hnext : BitVec.ofNat W n + 1 = BitVec.ofNat W (n + 1) := by
    rw [ofNat_add, hone]
  have hsize : ([0] : List UInt8).length < 2 ^ W := Nat.one_lt_two_pow hW
  have hstop : ¬ (0 : BitVec W) + 1 < 1 := by
    rw [show (0 : BitVec W) + 1 = 1 from BitVec.zero_add 1]
    exact BitVec.lt_irrefl 1
  have hlen : BitVec.ofNat W ([0] : List UInt8).length = 1 := rfl
  constructor
  · simp only [passByte, Machine.Valid, ringMachine, LoopbackRing.Enabled, LoopbackRing.step,
      LoopbackRing.writeLoad, LoopbackRing.storeByte, LoopbackRing.writeLeave,
      LoopbackRing.readLoad, LoopbackRing.readByte, LoopbackRing.readLeave,
      RingWriter.atLoad, RingWriter.inLoop, RingWriter.atStore, RingReader.atLoad,
      RingReader.inLoop, RingReader.atStore, haccept, havail, hlen, hlt, hstop, hsize,
      and_true, decide_true, decide_false, Bool.not_false]
  · simp only [passByte, Machine.exec, List.foldl, ringMachine, LoopbackRing.step,
      LoopbackRing.writeLoad, LoopbackRing.storeByte, LoopbackRing.writeLeave,
      LoopbackRing.readLoad, LoopbackRing.readByte, LoopbackRing.readLeave, haccept, havail,
      hlen]
    exact ⟨rfl, hnext, hnext, rfl, rfl⟩

theorem passBytes_next {n : ℕ} (hpos : 0 < capacity.toNat) :
    (ringMachine W).Valid (.init capacity) (passBytes W n) ∧
      Passed capacity ((ringMachine W).exec (.init capacity) (passBytes W n)) n := by
  induction n with
  | zero => exact ⟨trivial, rfl, rfl, rfl, rfl, rfl⟩
  | succ n ih =>
    obtain ⟨hvalid, hpassed⟩ := ih
    obtain ⟨hv, hp⟩ := passByte_next hpos hpassed
    exact ⟨Machine.valid_append.mpr ⟨hvalid, hv⟩, Machine.exec_append ▸ hp⟩

/-- The first bytes of a write are stored. -/
theorem storeBytes_next {src : List UInt8} {pos : BitVec W} {m k : ℕ} (hm : m < 2 ^ W)
    (hk : k ≤ m) (hp : s.writer = .copying src pos (.ofNat W m) 0) :
    let xs := List.replicate k (.storeByte : RingStep W)
    let t := (ringMachine W).exec s xs
    (ringMachine W).Valid s xs ∧ t.capacity = s.capacity ∧ t.readPos = s.readPos ∧
      t.reader = s.reader ∧ t.writer = .copying src pos (.ofNat W m) (.ofNat W k) := by
  induction k with
  | zero => exact ⟨trivial, rfl, rfl, rfl, hp⟩
  | succ k ih =>
    obtain ⟨hvalid, hcap, hread, hreader, hwriter⟩ := ih (by omega)
    have hi : BitVec.ofNat W k < BitVec.ofNat W m := by
      rw [BitVec.lt_def, BitVec.toNat_ofNat, BitVec.toNat_ofNat, Nat.mod_eq_of_lt (by omega),
        Nat.mod_eq_of_lt hm]
      omega
    have hone : BitVec.ofNat W k + 1 = BitVec.ofNat W (k + 1) := by
      rw [BitVec.ofNat_add]
      rfl
    dsimp only
    rw [List.replicate_succ', Machine.exec_append, Machine.valid_append]
    generalize (ringMachine W).exec s (List.replicate k .storeByte) = u at *
    have hnext : (ringMachine W).exec u [.storeByte] = u.storeByte.1 := rfl
    have hloop : u.writer.inLoop = true := RingWriter.inLoop_iff.mpr ⟨_, _, _, _, hwriter, hi⟩
    rw [hnext]
    simp only [LoopbackRing.storeByte, hwriter]
    exact ⟨⟨hvalid, hloop, trivial⟩, hcap, hread, hreader, by rw [hone]⟩

/-- A write that fits begins on an empty ring. -/
theorem writeBegin_next {n m : ℕ} (h : Passed capacity s n) (hm : m ≤ capacity.toNat) :
    let xs : List (RingStep W) := [.writeEnter (List.replicate m 0), .writeLoad]
    let t := (ringMachine W).exec s xs
    (ringMachine W).Valid s xs ∧ t.capacity = capacity ∧ t.readPos = .ofNat W n ∧
      t.reader = .idle ∧
      t.writer = .copying (List.replicate m 0) (.ofNat W n) (.ofNat W m) 0 := by
  obtain ⟨data, cap, wp, rp, dropped, writer, reader⟩ := s
  obtain ⟨rfl, rfl, rfl, rfl, rfl⟩ := h
  dsimp only at hm
  have hc := cap.isLt
  have hle : (BitVec.ofNat W m).toNat ≤ cap.toNat := by
    rw [BitVec.toNat_ofNat, Nat.mod_eq_of_lt (by omega)]
    exact hm
  have haccept := ringAccept_empty hle (.ofNat W n)
  refine ⟨⟨⟨rfl, ?_⟩, rfl, trivial⟩, rfl, rfl, rfl, ?_⟩
  · rw [List.length_replicate]
    omega
  · simp only [Machine.exec, List.foldl, ringMachine, LoopbackRing.step,
      LoopbackRing.writeLoad, List.length_replicate, haccept]

/-- Where the capacity does not divide the counter's range, the run to the wrap overwrites. -/
theorem wrapRun_not_sound (hpos : 0 < capacity.toNat) (hdvd : ¬ capacity.toNat ∣ 2 ^ W) :
    (ringMachine W).Valid (.init capacity) (wrapRun capacity) ∧
      ¬ RingSound capacity (wrapRun capacity) := by
  have hskip : 0 < 2 ^ W % capacity.toNat := by
    rw [Nat.pos_iff_ne_zero]
    exact fun h => hdvd (Nat.dvd_of_mod_eq_zero h)
  have hskipc := Nat.mod_lt (2 ^ W) hpos
  have hc := capacity.isLt
  generalize hd : 2 ^ W % capacity.toNat = d at *
  obtain ⟨hpass, hpassed⟩ := passBytes_next (n := 2 ^ W - 1) hpos
  obtain ⟨hbegin, hcap, hread, hreader, hwriter⟩ := writeBegin_next (m := d + 1) hpassed hskipc
  have hrun : wrapRun capacity = (passBytes W (2 ^ W - 1) ++
      [.writeEnter (List.replicate (d + 1) 0), .writeLoad] ++ List.replicate d .storeByte) ++
      [.storeByte] := by
    unfold wrapRun
    rw [hd, List.append_assoc _ (List.replicate d RingStep.storeByte), ← List.replicate_succ']
    simp
  obtain ⟨hstores, hcap', hread', hreader', hwriter'⟩ :=
    storeBytes_next (k := d) (by omega) (by omega) hwriter
  rw [hcap] at hcap'
  rw [hread] at hread'
  rw [hreader] at hreader'
  rw [← Machine.exec_append, ← Machine.exec_append, ← List.append_assoc]
    at hcap' hread' hreader' hwriter'
  have hd' : (BitVec.ofNat W d).toNat = d := by
    rw [BitVec.toNat_ofNat, Nat.mod_eq_of_lt (by omega)]
  have hlast : BitVec.ofNat W d < BitVec.ofNat W (d + 1) := by
    rw [BitVec.lt_def, hd', BitVec.toNat_ofNat, Nat.mod_eq_of_lt (by omega)]
    omega
  have hvalid : (ringMachine W).Valid (.init capacity) (wrapRun capacity) := by
    rw [hrun]
    refine Machine.valid_append.mpr ⟨Machine.valid_append.mpr
      ⟨Machine.valid_append.mpr ⟨hpass, hbegin⟩, ?_⟩, ?_, trivial⟩
    · rw [Machine.exec_append]
      exact hstores
    · exact RingWriter.inLoop_iff.mpr ⟨_, _, _, _, hwriter', hlast⟩
  refine ⟨hvalid, ?_⟩
  intro hsound
  obtain ⟨-, hclear⟩ := Machine.valid_restrict_iff.mp ((ringSound_iff hpos hvalid).mp hsound)
  have hstore := hclear _ _ [] hrun
  simp only [LoopbackRing.StoresClear, hwriter', hcap', hread', hreader', RingReader.nextPos,
    hd] at hstore
  -- `d` positions past the last one is `d - 1`, and the `d` bytes between are unread
  rcases hstore with hfar | hfew
  · have hpos' : (BitVec.ofNat W (2 ^ W - 1) + BitVec.ofNat W d).toNat = d - 1 := by
      rw [← BitVec.ofNat_add, BitVec.toNat_ofNat]
      have hsum : 2 ^ W - 1 + d = d - 1 + 2 ^ W := by omega
      rw [hsum, Nat.add_mod_right, Nat.mod_eq_of_lt (by omega)]
    omega
  · rw [BitVec.add_comm, BitVec.add_sub_cancel, hd'] at hfew
    exact Nat.lt_irrefl d hfew

/-- Every run is sound exactly if the capacity divides the counter's range. -/
theorem forall_ringSound_iff (hpos : 0 < capacity.toNat) :
    (∀ xs, (ringMachine W).Valid (.init capacity) xs → RingSound capacity xs) ↔
      capacity.toNat ∣ 2 ^ W := by
  constructor
  · intro hall
    by_contra hdvd
    obtain ⟨hvalid, hnot⟩ := wrapRun_not_sound hpos hdvd
    exact hnot (hall _ hvalid)
  · intro hdvd xs h
    exact ringSound_of_dvd hpos hdvd h

/-- A run is that of a queue which overwrites no unread byte exactly if each store goes clear of
the slots a wrap of the counter skips, or has less unread than these. -/
theorem loopback_ring_sound_iff (hpos : 0 < capacity.toNat)
    (h : (ringMachine W).Valid (.init capacity) xs) :
    RingSound capacity xs ↔
      ((ringMachine W).restrict LoopbackRing.StoresClear).Valid (.init capacity) xs :=
  ringSound_iff hpos h

/-- A ring of three bytes, of which two are offered while the reader waits for one. -/
theorem loopback_ring_sound_iff_two :
    let xs : List (RingStep 16) := [.writeEnter [1, 2], .writeLoad, .storeByte, .readEnter 1,
      .storeByte, .writeLeave, .readLoad, .readLeave]
    RingSound 3 xs ↔
      ((ringMachine 16).restrict LoopbackRing.StoresClear).Valid (.init 3) xs :=
  loopback_ring_sound_iff (by decide) (by decide)

/-- One second of the default format in a 32-bit `size_t`: the write across 4 GiB overwrites
the oldest of the bytes it has just stored. -/
theorem loopback_ring_overwrites_at_wrap :
    (ringMachine 32).Valid (.init 192000) (wrapRun 192000) ∧
      ¬ RingSound (192000 : BitVec 32) (wrapRun 192000) :=
  wrapRun_not_sound (by decide) (by decide)

end TinyPipewire.Utils
