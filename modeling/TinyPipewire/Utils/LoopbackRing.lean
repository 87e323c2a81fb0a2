import TinyPipewire.Lib.Machine
import TinyPipewire.Lib.WrappedRing

/-!
# The byte ring of `pwf_stream_loopback`

The capture thread writes and the playback thread reads. Either call loads the two positions,
copies byte by byte, and stores its own position; the threads interleave between any two of
these. Positions are `size_t`, of `W` bits, and reach `data` modulo the capacity.
-/

namespace TinyPipewire.Utils

open WrappedRing

variable {W : ℕ}

/-- Where the capture thread is in `ring_write`. -/
inductive RingWriter (W : ℕ)
  | idle
  /-- `read_pos` is loaded. -/
  | loaded (src : List UInt8) (readPos : BitVec W)
  | copying (src : List UInt8) (writePos len i : BitVec W)
  deriving DecidableEq

/-- Where the playback thread is in `ring_read`. -/
inductive RingReader (W : ℕ)
  | idle
  /-- `write_pos` is loaded. -/
  | loaded (len writePos : BitVec W)
  | copying (readPos len i : BitVec W)
  deriving DecidableEq

/-- `struct loopback_ring`, and its two threads. -/
structure LoopbackRing (W : ℕ) where
  data : List UInt8
  capacity : BitVec W
  writePos : BitVec W
  readPos : BitVec W
  dropped : BitVec W
  writer : RingWriter W
  reader : RingReader W
  deriving DecidableEq

/-- `ring_init`, where `calloc` succeeds. -/
def LoopbackRing.init (capacity : BitVec W) : LoopbackRing W where
  data := List.replicate capacity.toNat 0
  capacity := capacity
  writePos := 0
  readPos := 0
  dropped := 0
  writer := .idle
  reader := .idle

inductive RingStep (W : ℕ)
  /-- `ring_write` is called and loads `read_pos`. -/
  | writeEnter (src : List UInt8)
  /-- It loads `write_pos`, and drops what does not fit. -/
  | writeLoad
  | storeByte
  | writeLeave
  /-- `ring_read` is called and loads `write_pos`. -/
  | readEnter (len : BitVec W)
  | readLoad
  | readByte
  | readLeave
  deriving DecidableEq

inductive RingEvent (W : ℕ)
  /-- Of the bytes offered, the first `len` are accepted. -/
  | offered (src : List UInt8) (len dropped : BitVec W)
  | stored (slot : ℕ) (byte : UInt8)
  | copied (byte : UInt8)
  | returned (len : BitVec W)
  deriving DecidableEq

/-- What `ring_write` takes of `len` bytes, and what it drops. -/
def ringAccept (capacity writePos readPos len : BitVec W) : BitVec W × BitVec W :=
  let freeSpace := capacity - (writePos - readPos)
  if freeSpace < len then (freeSpace, len - freeSpace) else (len, 0)

/-- What `ring_read` copies of `len` bytes. -/
def ringAvailable (writePos readPos len : BitVec W) : BitVec W :=
  let available := writePos - readPos
  if available < len then available else len

def RingWriter.atLoad : RingWriter W → Bool
  | .loaded _ _ => true
  | _ => false

def RingWriter.inLoop : RingWriter W → Bool
  | .copying _ _ len i => i < len
  | _ => false

def RingWriter.atStore : RingWriter W → Bool
  | .copying _ _ len i => ! (i < len : Bool)
  | _ => false

def RingReader.atLoad : RingReader W → Bool
  | .loaded _ _ => true
  | _ => false

def RingReader.inLoop : RingReader W → Bool
  | .copying _ len i => i < len
  | _ => false

def RingReader.atStore : RingReader W → Bool
  | .copying _ len i => ! (i < len : Bool)
  | _ => false

/-- The position of the next byte the reader copies. -/
def RingReader.nextPos (readPos : BitVec W) : RingReader W → BitVec W
  | .copying readPos _ i => readPos + i
  | _ => readPos

namespace LoopbackRing

variable (s : LoopbackRing W)

/-- Index into `data` of a position. -/
def index (pos : BitVec W) : ℕ := (pos % s.capacity).toNat

def Enabled : RingStep W → Prop
  | .writeEnter src => s.writer = .idle ∧ src.length < 2 ^ W
  | .writeLoad => s.writer.atLoad = true
  | .storeByte => s.writer.inLoop = true
  | .writeLeave => s.writer.atStore = true
  | .readEnter _ => s.reader = .idle
  | .readLoad => s.reader.atLoad = true
  | .readByte => s.reader.inLoop = true
  | .readLeave => s.reader.atStore = true

def writeLoad : LoopbackRing W × List (RingEvent W) :=
  match s.writer with
  | .loaded src readPos =>
    let (len, dropped) := ringAccept s.capacity s.writePos readPos (.ofNat W src.length)
    ({ s with
        dropped := s.dropped + dropped
        writer := .copying src s.writePos len 0 },
      [.offered src len dropped])
  | _ => (s, [])

def storeByte : LoopbackRing W × List (RingEvent W) :=
  match s.writer with
  | .copying src writePos len i =>
    let slot := s.index (writePos + i)
    let byte := src.getD i.toNat 0
    ({ s with
        data := s.data.set slot byte
        writer := .copying src writePos len (i + 1) },
      [.stored slot byte])
  | _ => (s, [])

def writeLeave : LoopbackRing W :=
  match s.writer with
  | .copying _ writePos len _ => { s with writePos := writePos + len, writer := .idle }
  | _ => s

def readLoad : LoopbackRing W :=
  match s.reader with
  | .loaded len writePos =>
    { s with reader := .copying s.readPos (ringAvailable writePos s.readPos len) 0 }
  | _ => s

def readByte : LoopbackRing W × List (RingEvent W) :=
  match s.reader with
  | .copying readPos len i =>
    ({ s with reader := .copying readPos len (i + 1) },
      [.copied (s.data.getD (s.index (readPos + i)) 0)])
  | _ => (s, [])

def readLeave : LoopbackRing W × List (RingEvent W) :=
  match s.reader with
  | .copying readPos len _ =>
    ({ s with readPos := readPos + len, reader := .idle }, [.returned len])
  | _ => (s, [])

def step : RingStep W → LoopbackRing W × List (RingEvent W)
  | .writeEnter src => ({ s with writer := .loaded src s.readPos }, [])
  | .writeLoad => s.writeLoad
  | .storeByte => s.storeByte
  | .writeLeave => (s.writeLeave, [])
  | .readEnter len => ({ s with reader := .loaded len s.writePos }, [])
  | .readLoad => (s.readLoad, [])
  | .readByte => s.readByte
  | .readLeave => s.readLeave

end LoopbackRing

/-- The ring under its two threads, in any interleaving. -/
def ringMachine (W : ℕ) : Machine (LoopbackRing W) (RingStep W) (RingEvent W) where
  Enabled := LoopbackRing.Enabled
  next := fun s a => (s.step a).1
  out := fun s a => (s.step a).2

instance (s : LoopbackRing W) : (a : RingStep W) → Decidable ((ringMachine W).Enabled s a)
  | .writeEnter src => inferInstanceAs (Decidable (s.writer = .idle ∧ src.length < 2 ^ W))
  | .writeLoad => inferInstanceAs (Decidable (s.writer.atLoad = true))
  | .storeByte => inferInstanceAs (Decidable (s.writer.inLoop = true))
  | .writeLeave => inferInstanceAs (Decidable (s.writer.atStore = true))
  | .readEnter _ => inferInstanceAs (Decidable (s.reader = .idle))
  | .readLoad => inferInstanceAs (Decidable (s.reader.atLoad = true))
  | .readByte => inferInstanceAs (Decidable (s.reader.inLoop = true))
  | .readLeave => inferInstanceAs (Decidable (s.reader.atStore = true))

/-! ### What a run shows -/

/-- The bytes accepted, in order. -/
def accepted (ws : List (RingEvent W)) : List UInt8 :=
  ws.flatMap fun
    | .offered src len _ => src.take len.toNat
    | _ => []

/-- The bytes read, in order. -/
def readBytes (ws : List (RingEvent W)) : List UInt8 :=
  ws.filterMap fun
    | .copied byte => some byte
    | _ => none

/-- The slots written, in order. -/
def storedSlots (ws : List (RingEvent W)) : List ℕ :=
  ws.filterMap fun
    | .stored slot _ => some slot
    | _ => none

def offeredBytes (ws : List (RingEvent W)) : ℕ :=
  (ws.map fun
    | .offered src _ _ => src.length
    | _ => 0).sum

def droppedBytes (ws : List (RingEvent W)) : ℕ :=
  (ws.map fun
    | .offered _ _ dropped => dropped.toNat
    | _ => 0).sum

/-- What the calls of `ring_read` have returned in all. -/
def returnedBytes (ws : List (RingEvent W)) : ℕ :=
  (ws.map fun
    | .returned len => len.toNat
    | _ => 0).sum

/-! ### Counts behind the positions -/

section Projections

variable (ws vs : List (RingEvent W))

@[simp] theorem accepted_append : accepted (ws ++ vs) = accepted ws ++ accepted vs := by
  simp [accepted]

@[simp] theorem readBytes_append : readBytes (ws ++ vs) = readBytes ws ++ readBytes vs := by
  simp [readBytes]

@[simp] theorem storedSlots_append :
    storedSlots (ws ++ vs) = storedSlots ws ++ storedSlots vs := by
  simp [storedSlots]

@[simp] theorem offeredBytes_append :
    offeredBytes (ws ++ vs) = offeredBytes ws + offeredBytes vs := by
  simp [offeredBytes]

@[simp] theorem droppedBytes_append :
    droppedBytes (ws ++ vs) = droppedBytes ws + droppedBytes vs := by
  simp [droppedBytes]

@[simp] theorem returnedBytes_append :
    returnedBytes (ws ++ vs) = returnedBytes ws + returnedBytes vs := by
  simp [returnedBytes]

end Projections

/-- What the writer knows, of `w` bytes published and at least `r` given back. -/
def RingWriter.At (capacity stored : ℕ) (acc : List UInt8) (w r : ℕ) : RingWriter W → Prop
  | .idle => stored = w ∧ acc.length = w ∧ w ≤ r + capacity
  | .loaded src readPos => stored = w ∧ acc.length = w ∧ src.length < 2 ^ W ∧
      ∃ r₀, r₀ ≤ r ∧ r₀ ≤ w ∧ w ≤ r₀ + capacity ∧ readPos = .ofNat W r₀
  | .copying src writePos len i => writePos = .ofNat W w ∧ stored = w + i.toNat ∧
      i.toNat ≤ len.toNat ∧ len.toNat ≤ src.length ∧ w + len.toNat ≤ r + capacity ∧
      ∃ pre, acc = pre ++ src.take len.toNat ∧ pre.length = w

/-- What the reader knows, of `r` bytes given back and at least `w` published. -/
def RingReader.At (read w r : ℕ) : RingReader W → Prop
  | .idle => read = r
  | .loaded _ writePos => read = r ∧ ∃ w₀, r ≤ w₀ ∧ w₀ ≤ w ∧ writePos = .ofNat W w₀
  | .copying readPos len i => readPos = .ofNat W r ∧ read = r + i.toNat ∧
      i.toNat ≤ len.toNat ∧ r + len.toNat ≤ w

/-- The positions are the counts of bytes published and given back, as far as a word goes. -/
structure Counts (s : LoopbackRing W) (ws : List (RingEvent W)) (w r : ℕ) : Prop where
  positive : 0 < s.capacity.toNat
  size : s.data.length = s.capacity.toNat
  writePos : s.writePos = .ofNat W w
  readPos : s.readPos = .ofNat W r
  behind : r ≤ w
  writer : s.writer.At s.capacity.toNat (storedSlots ws).length (accepted ws) w r
  reader : s.reader.At (readBytes ws).length w r
  slots : storedSlots ws =
    (List.range (storedSlots ws).length).map (slot (2 ^ W) s.capacity.toNat)
  total : (accepted ws).length + droppedBytes ws = offeredBytes ws
  dropped : s.dropped = .ofNat W (droppedBytes ws)
  returned : returnedBytes ws = r

variable {capacity : BitVec W} {s : LoopbackRing W} {ws : List (RingEvent W)} {w r : ℕ}
  {xs : List (RingStep W)}

theorem RingWriter.At.mono {c n r' : ℕ} {acc : List UInt8} {p : RingWriter W}
    (h : p.At c n acc w r) (hr : r ≤ r') : p.At c n acc w r' := by
  cases p with
  | idle => exact ⟨h.1, h.2.1, Nat.le_trans h.2.2 (by omega)⟩
  | loaded src pos =>
    obtain ⟨hn, hacc, hsrc, r₀, hr₀, hrest⟩ := h
    exact ⟨hn, hacc, hsrc, r₀, Nat.le_trans hr₀ hr, hrest⟩
  | copying src pos len i =>
    obtain ⟨hpos, hn, hi, hlen, hw, hpre⟩ := h
    exact ⟨hpos, hn, hi, hlen, by omega, hpre⟩

theorem RingReader.At.mono {n w' : ℕ} {p : RingReader W} (h : p.At n w r) (hw : w ≤ w') :
    p.At n w' r := by
  cases p with
  | idle => exact h
  | loaded len pos =>
    obtain ⟨hn, w₀, hr, hw₀, hpos⟩ := h
    exact ⟨hn, w₀, hr, Nat.le_trans hw₀ hw, hpos⟩
  | copying pos len i =>
    obtain ⟨hpos, hn, hi, hr⟩ := h
    exact ⟨hpos, hn, hi, Nat.le_trans hr hw⟩

/-- The writer has stored what it published, and part of what it accepted. -/
theorem RingWriter.At.stored {c n : ℕ} {acc : List UInt8} {p : RingWriter W}
    (h : p.At c n acc w r) : w ≤ n ∧ n ≤ acc.length ∧ w ≤ r + c ∧ acc.length ≤ r + c := by
  cases p with
  | idle =>
    obtain ⟨hn, hacc, hw⟩ := h
    omega
  | loaded src pos =>
    obtain ⟨hn, hacc, -, r₀, hr₀, -, hw, -⟩ := h
    omega
  | copying src pos len i =>
    obtain ⟨-, hn, hi, hlen, hw, pre, rfl, hpre⟩ := h
    rw [List.length_append, List.length_take]
    omega

/-- The reader has copied what it gave back, of what is published. -/
theorem RingReader.At.copied {n : ℕ} {p : RingReader W} (h : p.At n w r) (hrw : r ≤ w) :
    r ≤ n ∧ n ≤ w := by
  cases p with
  | idle =>
    have hn : n = r := h
    omega
  | loaded len pos =>
    obtain ⟨hn, -⟩ := h
    omega
  | copying pos len i =>
    obtain ⟨-, hn, hi, hr⟩ := h
    omega

theorem index_ofNat (k : ℕ) : s.index (.ofNat W k) = slot (2 ^ W) s.capacity.toNat k := by
  simp [LoopbackRing.index, slot]

/-- What a write takes is what fits, and it drops the rest. -/
theorem ringAccept_toNat {r₀ : ℕ} (hr : r₀ ≤ w) (hw : w ≤ r₀ + capacity.toNat)
    (len : BitVec W) :
    (ringAccept capacity (.ofNat W w) (.ofNat W r₀) len).1.toNat =
        min len.toNat (capacity.toNat - (w - r₀)) ∧
      (ringAccept capacity (.ofNat W w) (.ofNat W r₀) len).2.toNat =
        len.toNat - min len.toNat (capacity.toNat - (w - r₀)) := by
  have hc := capacity.isLt
  have hused := ofNat_sub_toNat (W := W) hr (by omega)
  have hfree : (capacity - (BitVec.ofNat W w - BitVec.ofNat W r₀)).toNat =
      capacity.toNat - (w - r₀) := by
    rw [BitVec.toNat_sub_of_le, hused]
    rw [BitVec.le_def, hused]
    omega
  unfold ringAccept
  by_cases hlt : capacity - (BitVec.ofNat W w - BitVec.ofNat W r₀) < len
  · have hlt' := BitVec.lt_def.mp hlt
    simp only [hlt, if_true]
    rw [BitVec.toNat_sub_of_le (BitVec.le_of_lt hlt), hfree]
    omega
  · have hle := BitVec.not_lt.mp hlt
    rw [BitVec.le_def] at hle
    simp only [hlt, if_false]
    simp
    omega

/-- What a read copies is at most what is published. -/
theorem ringAvailable_toNat {w₀ : ℕ} (hr : r ≤ w₀) (hw : w₀ - r < 2 ^ W) (len : BitVec W) :
    (ringAvailable (.ofNat W w₀) (.ofNat W r) len).toNat = min len.toNat (w₀ - r) := by
  have hused := ofNat_sub_toNat hr hw
  unfold ringAvailable
  by_cases hlt : BitVec.ofNat W w₀ - BitVec.ofNat W r < len
  · have hlt' := BitVec.lt_def.mp hlt
    simp only [hlt, if_true]
    omega
  · have hle := BitVec.not_lt.mp hlt
    rw [BitVec.le_def] at hle
    simp only [hlt, if_false]
    omega

theorem RingWriter.atLoad_iff {p : RingWriter W} :
    p.atLoad = true ↔ ∃ src readPos, p = .loaded src readPos := by
  cases p <;> simp [RingWriter.atLoad]

theorem RingWriter.inLoop_iff {p : RingWriter W} :
    p.inLoop = true ↔ ∃ src writePos len i, p = .copying src writePos len i ∧ i < len := by
  cases p <;> simp [RingWriter.inLoop]

theorem RingWriter.atStore_iff {p : RingWriter W} :
    p.atStore = true ↔ ∃ src writePos len i, p = .copying src writePos len i ∧ ¬ i < len := by
  cases p <;> simp [RingWriter.atStore]

theorem RingReader.atLoad_iff {p : RingReader W} :
    p.atLoad = true ↔ ∃ len writePos, p = .loaded len writePos := by
  cases p <;> simp [RingReader.atLoad]

theorem RingReader.inLoop_iff {p : RingReader W} :
    p.inLoop = true ↔ ∃ readPos len i, p = .copying readPos len i ∧ i < len := by
  cases p <;> simp [RingReader.inLoop]

theorem RingReader.atStore_iff {p : RingReader W} :
    p.atStore = true ↔ ∃ readPos len i, p = .copying readPos len i ∧ ¬ i < len := by
  cases p <;> simp [RingReader.atStore]

theorem counts_init (hpos : 0 < capacity.toNat) : Counts (.init capacity) [] 0 0 where
  positive := hpos
  size := List.length_replicate
  writePos := rfl
  readPos := rfl
  behind := Nat.le_refl 0
  writer := ⟨rfl, rfl, Nat.zero_le _⟩
  reader := rfl
  slots := rfl
  total := rfl
  dropped := rfl
  returned := rfl

/-- The writer moves on: the reader sees no more than the bytes it has published since. -/
theorem Counts.ofWriter (h : Counts s ws w r) {data : List UInt8} {writePos dropped : BitVec W}
    {writer : RingWriter W} {vs : List (RingEvent W)} {w' : ℕ} (hle : w ≤ w')
    (hsize : data.length = s.data.length) (hpos : writePos = .ofNat W w')
    (hwriter : writer.At s.capacity.toNat (storedSlots (ws ++ vs)).length
      (accepted (ws ++ vs)) w' r)
    (hslots : storedSlots (ws ++ vs) =
      (List.range (storedSlots (ws ++ vs)).length).map (slot (2 ^ W) s.capacity.toNat))
    (htotal : (accepted vs).length + droppedBytes vs = offeredBytes vs)
    (hdropped : dropped = s.dropped + .ofNat W (droppedBytes vs))
    (hread : readBytes vs = []) (hreturned : returnedBytes vs = 0) :
    Counts { s with data := data, writePos := writePos, dropped := dropped, writer := writer }
      (ws ++ vs) w' r where
  positive := h.positive
  size := hsize.trans h.size
  writePos := hpos
  readPos := h.readPos
  behind := Nat.le_trans h.behind hle
  writer := hwriter
  reader := by
    rw [readBytes_append, hread, List.append_nil]
    exact h.reader.mono hle
  slots := hslots
  total := by
    have := h.total
    rw [accepted_append, droppedBytes_append, offeredBytes_append, List.length_append]
    omega
  dropped := by
    rw [droppedBytes_append, hdropped, h.dropped, ← BitVec.ofNat_add]
  returned := by
    rw [returnedBytes_append, hreturned, h.returned, Nat.add_zero]

/-- The reader moves on: the writer has at least the room it knows of. -/
theorem Counts.ofReader (h : Counts s ws w r) {readPos : BitVec W} {reader : RingReader W}
    {vs : List (RingEvent W)} {r' : ℕ} (hle : r ≤ r') (hbehind : r' ≤ w)
    (hpos : readPos = .ofNat W r') (hreader : reader.At (readBytes (ws ++ vs)).length w r')
    (hreturned : returnedBytes vs = r' - r) (haccepted : accepted vs = [])
    (hstored : storedSlots vs = []) (hoffered : offeredBytes vs = 0)
    (hdropped : droppedBytes vs = 0) :
    Counts { s with readPos := readPos, reader := reader } (ws ++ vs) w r' where
  positive := h.positive
  size := h.size
  writePos := h.writePos
  readPos := hpos
  behind := hbehind
  writer := by
    rw [accepted_append, storedSlots_append, haccepted, hstored, List.append_nil,
      List.append_nil]
    exact h.writer.mono hle
  reader := hreader
  slots := by
    rw [storedSlots_append, hstored, List.append_nil]
    exact h.slots
  total := by
    rw [accepted_append, droppedBytes_append, offeredBytes_append, haccepted, hoffered,
      hdropped, List.append_nil]
    exact h.total
  dropped := by
    rw [droppedBytes_append, hdropped]
    exact h.dropped
  returned := by
    rw [returnedBytes_append, hreturned, h.returned]
    omega

theorem counts_writeEnter (h : Counts s ws w r) {src : List UInt8}
    (he : s.Enabled (.writeEnter src)) :
    Counts (s.step (.writeEnter src)).1 (ws ++ (s.step (.writeEnter src)).2) w r := by
  obtain ⟨hidle, hsrc⟩ := he
  have hw := h.writer
  rw [hidle] at hw
  have hs : s.dropped = s.dropped + .ofNat W (droppedBytes (W := W) []) := by
    simp [droppedBytes]
  simp only [LoopbackRing.step]
  refine h.ofWriter (Nat.le_refl w) rfl h.writePos ?_ ?_ rfl hs rfl rfl
  · rw [List.append_nil]
    exact ⟨hw.1, hw.2.1, hsrc, r, Nat.le_refl r, h.behind, hw.2.2, h.readPos⟩
  · rw [List.append_nil]
    exact h.slots

theorem counts_writeLoad (h : Counts s ws w r) (he : s.Enabled .writeLoad) :
    Counts (s.step .writeLoad).1 (ws ++ (s.step .writeLoad).2) w r := by
  obtain ⟨src, pos, hp⟩ := RingWriter.atLoad_iff.mp he
  have hw := h.writer
  rw [hp] at hw
  obtain ⟨hstored, hacc, hsrc, r₀, hr₀, hrw, hfull, rfl⟩ := hw
  have htaken := ringAccept_toNat hrw hfull (.ofNat W src.length)
  rw [← h.writePos, BitVec.toNat_ofNat, Nat.mod_eq_of_lt hsrc] at htaken
  simp only [LoopbackRing.step, LoopbackRing.writeLoad, hp]
  generalize ringAccept s.capacity s.writePos (.ofNat W r₀) (.ofNat W src.length) = taken at *
  obtain ⟨len, dropped⟩ := taken
  obtain ⟨hlen, hdrop⟩ := htaken
  dsimp only at hlen hdrop ⊢
  have hnew : accepted (W := W) [.offered src len dropped] = src.take len.toNat := by
    simp [accepted]
  have hnone : storedSlots (ws ++ [.offered src len dropped]) = storedSlots ws := by
    simp [storedSlots]
  refine h.ofWriter (Nat.le_refl w) rfl h.writePos ?_ ?_ ?_ ?_ rfl rfl
  · rw [accepted_append, hnew, hnone]
    exact ⟨h.writePos, hstored, Nat.zero_le _, by omega, by omega, accepted ws, rfl, hacc⟩
  · rw [hnone]
    exact h.slots
  · rw [hnew, List.length_take]
    simp only [droppedBytes, offeredBytes, List.map_cons, List.map_nil, List.sum_cons,
      List.sum_nil]
    omega
  · simp [droppedBytes]

theorem counts_storeByte (h : Counts s ws w r) (he : s.Enabled .storeByte) :
    Counts (s.step .storeByte).1 (ws ++ (s.step .storeByte).2) w r := by
  obtain ⟨src, pos, len, i, hp, hi⟩ := RingWriter.inLoop_iff.mp he
  have hw := h.writer
  rw [hp] at hw
  obtain ⟨rfl, hstored, -, hlen, hfull, pre, hacc, hpre⟩ := hw
  have hlt := BitVec.lt_def.mp hi
  simp only [LoopbackRing.step, LoopbackRing.storeByte, hp]
  rw [ofNat_add, index_ofNat, ← hstored]
  have hone : storedSlots (W := W) [.stored (slot (2 ^ W) s.capacity.toNat
      (storedSlots ws).length) (src.getD i.toNat 0)] =
      [slot (2 ^ W) s.capacity.toNat (storedSlots ws).length] := rfl
  refine h.ofWriter (Nat.le_refl w) List.length_set h.writePos ?_ ?_ rfl ?_ rfl rfl
  · rw [storedSlots_append, hone, List.length_append, List.length_singleton]
    refine ⟨rfl, ?_, ?_, hlen, hfull, pre, ?_, hpre⟩
    · rw [toNat_succ hi]
      omega
    · rw [toNat_succ hi]
      omega
    · rw [accepted_append, hacc]
      simp [accepted]
  · rw [storedSlots_append, hone, List.length_append, List.length_singleton, List.range_succ,
      List.map_append, ← h.slots]
    rfl
  · simp [droppedBytes]

theorem counts_writeLeave (h : Counts s ws w r) (he : s.Enabled .writeLeave) :
    ∃ w', Counts (s.step .writeLeave).1 (ws ++ (s.step .writeLeave).2) w' r := by
  obtain ⟨src, pos, len, i, hp, hi⟩ := RingWriter.atStore_iff.mp he
  have hw := h.writer
  rw [hp] at hw
  obtain ⟨rfl, hstored, hile, hlen, hfull, pre, hacc, hpre⟩ := hw
  have hge := BitVec.not_lt.mp hi
  rw [BitVec.le_def] at hge
  simp only [LoopbackRing.step, LoopbackRing.writeLeave, hp]
  rw [ofNat_add]
  have hs : s.dropped = s.dropped + .ofNat W (droppedBytes (W := W) []) := by
    simp [droppedBytes]
  refine ⟨w + len.toNat, h.ofWriter (by omega) rfl rfl ?_ ?_ rfl hs rfl rfl⟩
  · rw [List.append_nil, hacc]
    refine ⟨by omega, ?_, hfull⟩
    rw [List.length_append, List.length_take]
    omega
  · rw [List.append_nil]
    exact h.slots

theorem counts_readEnter (h : Counts s ws w r) {len : BitVec W}
    (he : s.Enabled (.readEnter len)) :
    Counts (s.step (.readEnter len)).1 (ws ++ (s.step (.readEnter len)).2) w r := by
  have hidle : s.reader = .idle := he
  have hr := h.reader
  rw [hidle] at hr
  simp only [LoopbackRing.step]
  refine h.ofReader (Nat.le_refl r) h.behind h.readPos ?_ (Nat.sub_self r).symm rfl rfl rfl rfl
  rw [List.append_nil]
  exact ⟨hr, w, h.behind, Nat.le_refl w, h.writePos⟩

theorem counts_readLoad (h : Counts s ws w r) (he : s.Enabled .readLoad) :
    Counts (s.step .readLoad).1 (ws ++ (s.step .readLoad).2) w r := by
  obtain ⟨len, pos, hp⟩ := RingReader.atLoad_iff.mp he
  have hr := h.reader
  rw [hp] at hr
  obtain ⟨hread, w₀, hrw, hw, rfl⟩ := hr
  have hfull := h.writer.stored.2.2.1
  have hc := s.capacity.isLt
  have havail := ringAvailable_toNat hrw (show w₀ - r < 2 ^ W by omega) len
  simp only [LoopbackRing.step, LoopbackRing.readLoad, hp]
  rw [h.readPos]
  refine h.ofReader (Nat.le_refl r) h.behind rfl ?_ (Nat.sub_self r).symm rfl rfl rfl rfl
  rw [List.append_nil]
  exact ⟨rfl, hread, Nat.zero_le _, by omega⟩

theorem counts_readByte (h : Counts s ws w r) (he : s.Enabled .readByte) :
    Counts (s.step .readByte).1 (ws ++ (s.step .readByte).2) w r := by
  obtain ⟨pos, len, i, hp, hi⟩ := RingReader.inLoop_iff.mp he
  have hr := h.reader
  rw [hp] at hr
  obtain ⟨rfl, hread, -, hlen⟩ := hr
  have hlt := BitVec.lt_def.mp hi
  simp only [LoopbackRing.step, LoopbackRing.readByte, hp]
  refine h.ofReader (Nat.le_refl r) h.behind h.readPos ?_ (Nat.sub_self r).symm rfl rfl rfl rfl
  rw [readBytes_append, List.length_append]
  refine ⟨rfl, ?_, ?_, hlen⟩
  · rw [toNat_succ hi]
    show _ + 1 = _
    omega
  · rw [toNat_succ hi]
    omega

theorem counts_readLeave (h : Counts s ws w r) (he : s.Enabled .readLeave) :
    ∃ r', Counts (s.step .readLeave).1 (ws ++ (s.step .readLeave).2) w r' := by
  obtain ⟨pos, len, i, hp, hi⟩ := RingReader.atStore_iff.mp he
  have hr := h.reader
  rw [hp] at hr
  obtain ⟨rfl, hread, hile, hlen⟩ := hr
  have hge := BitVec.not_lt.mp hi
  rw [BitVec.le_def] at hge
  simp only [LoopbackRing.step, LoopbackRing.readLeave, hp]
  rw [ofNat_add]
  refine ⟨r + len.toNat, h.ofReader (by omega) hlen rfl ?_ ?_ rfl rfl rfl rfl⟩
  · rw [readBytes_append, List.length_append]
    show _ + 0 = _
    omega
  · simp [returnedBytes]

theorem counts_next (h : ∃ w r, Counts s ws w r) {a : RingStep W} (he : s.Enabled a) :
    ∃ w r, Counts (s.step a).1 (ws ++ (s.step a).2) w r := by
  obtain ⟨w, r, h⟩ := h
  cases a with
  | writeEnter src => exact ⟨w, r, counts_writeEnter h he⟩
  | writeLoad => exact ⟨w, r, counts_writeLoad h he⟩
  | storeByte => exact ⟨w, r, counts_storeByte h he⟩
  | writeLeave =>
    obtain ⟨w', h'⟩ := counts_writeLeave h he
    exact ⟨w', r, h'⟩
  | readEnter len => exact ⟨w, r, counts_readEnter h he⟩
  | readLoad => exact ⟨w, r, counts_readLoad h he⟩
  | readByte => exact ⟨w, r, counts_readByte h he⟩
  | readLeave =>
    obtain ⟨r', h'⟩ := counts_readLeave h he
    exact ⟨w, r', h'⟩

/-- After every run the positions are counts. -/
theorem counts_run (hpos : 0 < capacity.toNat)
    (h : (ringMachine W).Valid (.init capacity) xs) :
    ∃ w r, Counts ((ringMachine W).exec (.init capacity) xs)
      ((ringMachine W).outs (.init capacity) xs) w r := by
  refine Machine.history (P := fun ws s => ∃ w r, Counts s ws w r)
    ⟨0, 0, counts_init hpos⟩ ?_ h
  intro ws s a he hs
  exact counts_next hs he

end TinyPipewire.Utils
