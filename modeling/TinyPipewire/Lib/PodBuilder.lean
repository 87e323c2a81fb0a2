import TinyPipewire.Lib.Pod

/-!
# Building a POD in a buffer

A builder copies what fits and counts everything, in 32 bits: with no room at all it
only counts. An open frame gets its size as bytes are added and its header when it is
closed. `Wrote` says what a builder has added since an earlier one.
-/

namespace Pod

/-- A value that is still open: its header is at `offset`. -/
structure Frame where
  type : UInt32
  size : UInt32
  offset : UInt32
  deriving DecidableEq, Repr

def Frame.grow (n : UInt32) (f : Frame) : Frame := { f with size := f.size + n }

/-- `memcpy` into a buffer. -/
def write (data : Bytes) (i : ℕ) (bs : Bytes) : Bytes :=
  data.take i ++ (bs ++ data.drop (i + bs.length))

section Write

variable {data bs xs ys zs : Bytes} {i : ℕ}

theorem write_length (h : i + bs.length ≤ data.length) :
    (write data i bs).length = data.length := by
  simp only [write, List.length_append, List.length_take, List.length_drop]
  omega

@[simp] theorem write_nil : write data i [] = data := by simp [write]

theorem length_take_append (h : i ≤ data.length) : (data.take i ++ bs).length = i + bs.length := by
  rw [List.length_append, List.length_take]
  omega

theorem write_take (h : i ≤ data.length) :
    (write data i bs).take (i + bs.length) = data.take i ++ bs := by
  rw [write, ← List.append_assoc]
  exact List.take_left' (length_take_append h)

theorem write_drop (h : i ≤ data.length) (k : ℕ) :
    (write data i bs).drop (i + bs.length + k) = data.drop (i + bs.length + k) := by
  rw [← List.drop_drop, write, ← List.append_assoc, List.drop_left' (length_take_append h),
    List.drop_drop]

/-- Two writes in a row are one. -/
theorem write_append (h : i ≤ data.length) :
    write (write data i xs) (i + xs.length) ys = write data i (xs ++ ys) := by
  rw [write, write_take h, write_drop h, write]
  simp only [List.append_assoc, List.length_append, Nat.add_assoc]

/-- Writing over the start of what was written. -/
theorem write_patch (h : i ≤ data.length) (hl : xs.length = ys.length) :
    write (write data i (xs ++ zs)) i ys = write data i (ys ++ zs) := by
  have hi : (data.take i).length = i := List.length_take_of_le h
  have htake : (write data i (xs ++ zs)).take i = data.take i := List.take_left' hi
  have hdrop : (write data i (xs ++ zs)).drop (i + ys.length) =
      zs ++ data.drop (i + (ys ++ zs).length) := by
    rw [← List.drop_drop, write, List.drop_left' hi, List.append_assoc, List.drop_left' hl]
    simp only [List.length_append, hl]
  rw [write, htake, hdrop, write, List.append_assoc]

/-- What was written is at the start of the buffer. -/
theorem take_write_zero : (write data 0 bs).take bs.length = bs := by
  rw [write, List.take_zero, List.nil_append]
  exact List.take_left

end Write

/-- A builder over the first `size` bytes of a buffer. -/
structure Builder where
  data : Bytes
  size : UInt32
  offset : UInt32
  frames : List Frame
  room : size.toNat ≤ data.length

namespace Builder

def init (data : Bytes) (size : UInt32) (h : size.toNat ≤ data.length) : Builder :=
  ⟨data, size, 0, [], h⟩

/-- Copies bytes to a place they fit at. -/
def store (b : Builder) (i : ℕ) (bs : Bytes) : Builder where
  data := if i + bs.length ≤ b.size.toNat then write b.data i bs else b.data
  size := b.size
  offset := b.offset
  frames := b.frames
  room := by
    have hroom := b.room
    split
    · rw [write_length (by omega)]
      exact hroom
    · exact hroom

theorem store_length (b : Builder) (i : ℕ) (bs : Bytes) :
    (b.store i bs).data.length = b.data.length := by
  have hroom := b.room
  dsimp only [store]
  split
  · exact write_length (by omega)
  · rfl

/-- `spa_pod_builder_raw`. -/
def raw (b : Builder) (bs : Bytes) : Builder :=
  { b.store b.offset.toNat bs with
    offset := b.offset + .ofNat bs.length
    frames := b.frames.map (·.grow (.ofNat bs.length)) }

/-- `spa_pod_builder_pad`. -/
def pad (b : Builder) (n : ℕ) : Builder := b.raw (List.replicate (padding n) 0)

/-- A control of a sequence, or a property of an object, up to its value. -/
def entry (b : Builder) (first second : UInt32) : Builder := b.raw (word first ++ word second)

/-- A value with its body at hand. -/
def value (b : Builder) (type : UInt32) (body : Bytes) : Builder :=
  (b.raw (encode type body)).pad body.length

/-- Opens a value whose body starts with `extra`. -/
def push (b : Builder) (type : UInt32) (extra : Bytes) : Builder :=
  { b.raw (encode type extra) with
    frames := ⟨type, .ofNat extra.length, b.offset⟩ :: (b.raw (encode type extra)).frames }

/-- `spa_pod_builder_pop`. -/
def pop (b : Builder) : Builder :=
  match b.frames with
  | [] => b
  | f :: fs =>
    let closed : Builder :=
      { b.store f.offset.toNat (word f.size ++ word f.type) with frames := fs }
    closed.pad b.offset.toNat

/-- What a builder has added to an earlier one, to its frames and, where there is room for
all of it, to its buffer. -/
structure Wrote (b b' : Builder) (bs : Bytes) : Prop where
  size : b'.size = b.size
  length : b'.data.length = b.data.length
  offset : b'.offset = b.offset + .ofNat bs.length
  frames : b'.frames = b.frames.map (·.grow (.ofNat bs.length))
  data : b.offset.toNat + bs.length ≤ b.size.toNat → b'.data = write b.data b.offset.toNat bs

section Wrote

variable {b b' b1 b2 : Builder} {type : UInt32} {bs xs ys extra body : Bytes}

theorem grow_map (fs : List Frame) (m n : ℕ) :
    (fs.map (·.grow (.ofNat m))).map (·.grow (.ofNat n)) = fs.map (·.grow (.ofNat (m + n))) := by
  simp only [List.map_map]
  apply List.map_congr_left
  intro f _
  simp only [Function.comp_apply, Frame.grow, UInt32.ofNat_add, UInt32.add_assoc]

/-- There is no wrapping as long as there is room. -/
theorem toNat_add_ofNat {m : UInt32} {n : ℕ} {k : UInt32} (h : m.toNat + n ≤ k.toNat) :
    (m + .ofNat n).toNat = m.toNat + n := by
  have hk := k.toNat_lt
  rw [UInt32.toNat_add, UInt32.toNat_ofNat']
  omega

theorem Wrote.refl : Wrote b b [] := by
  refine ⟨rfl, rfl, ?_, ?_, ?_⟩
  · simp
  · simp [Frame.grow]
  · simp

theorem Wrote.trans (h1 : Wrote b b1 xs) (h2 : Wrote b1 b2 ys) : Wrote b b2 (xs ++ ys) := by
  refine ⟨h2.size.trans h1.size, h2.length.trans h1.length, ?_, ?_, ?_⟩
  · rw [h2.offset, h1.offset, List.length_append, UInt32.ofNat_add, UInt32.add_assoc]
  · rw [h2.frames, h1.frames, grow_map, List.length_append]
  · intro hr
    rw [List.length_append] at hr
    have hroom := b.room
    have hoff : b1.offset.toNat = b.offset.toNat + xs.length := by
      rw [h1.offset]
      exact toNat_add_ofNat (k := b.size) (by omega)
    rw [h2.data (by rw [hoff, h1.size]; omega), h1.data (by omega), hoff,
      write_append (by omega)]

theorem raw_wrote : Wrote b (b.raw bs) bs :=
  ⟨rfl, store_length b _ bs, rfl, rfl, fun h => if_pos h⟩

theorem value_wrote : Wrote b (b.value type body) (padded (encode type body)) := by
  have hpad : padding body.length = padding (encode type body).length := by
    rw [encode_length, padding, padding]
    omega
  rw [padded, ← hpad]
  exact raw_wrote.trans raw_wrote

/-- A value that is closed where eight bytes start is written whole. -/
theorem Wrote.pop (ha : b.offset.toNat % 8 = 0) (h : Wrote (b.push type extra) b' body) :
    Wrote b b'.pop (padded (encode type (extra ++ body))) := by
  have hlen : (encode type extra ++ body).length = (encode type (extra ++ body)).length := by
    simp only [List.length_append, encode_length]
    omega
  have hoffset : b'.offset = b.offset + .ofNat (encode type (extra ++ body)).length := by
    rw [h.offset, ← hlen, List.length_append, UInt32.ofNat_add, ← UInt32.add_assoc]
    rfl
  have hframes : b'.frames = ⟨type, .ofNat (extra ++ body).length, b.offset⟩ ::
      b.frames.map (·.grow (.ofNat (encode type (extra ++ body)).length)) := by
    rw [h.frames, push, List.map_cons, raw_wrote.frames, grow_map, ← hlen, List.length_append,
      List.length_append, UInt32.ofNat_add, UInt32.ofNat_add]
    rfl
  have hpad : padding b'.offset.toNat = padding (encode type (extra ++ body)).length := by
    rw [hoffset, UInt32.toNat_add, UInt32.toNat_ofNat', padding, padding]
    omega
  let closed : Builder :=
    { b'.store b.offset.toNat (word (.ofNat (extra ++ body).length) ++ word type) with
      frames := b.frames.map (·.grow (.ofNat (encode type (extra ++ body)).length)) }
  have hpop : b'.pop = closed.pad b'.offset.toNat := by
    rw [Builder.pop, hframes]
  have hclosed : Wrote b closed (encode type (extra ++ body)) := by
    have hlength : closed.data.length = b.data.length := by
      rw [show closed.data.length = b'.data.length from store_length b' _ _, h.length]
      exact store_length b _ _
    refine ⟨h.size, hlength, hoffset, rfl, ?_⟩
    intro hr
    have hroom := b.room
    have hsize : b'.size = b.size := h.size
    have hl : (encode type (extra ++ body)).length = 8 + (extra ++ body).length := encode_length
    have hextra : (encode type extra).length + body.length =
        (encode type (extra ++ body)).length := by
      rw [← List.length_append, hlen]
    have hpush : (b.push type extra).data = write b.data b.offset.toNat (encode type extra) :=
      raw_wrote.data (by omega)
    have hpoff : (b.push type extra).offset.toNat =
        b.offset.toNat + (encode type extra).length := by
      apply toNat_add_ofNat (k := b.size)
      omega
    have hdata := h.data (by
      rw [hpoff, Nat.add_assoc, hextra]
      exact hr)
    rw [hpush, hpoff, write_append (by omega)] at hdata
    have hbody : encode type extra ++ body =
        (word (.ofNat extra.length) ++ word type) ++ (extra ++ body) := by
      simp only [encode, List.append_assoc]
    rw [hbody] at hdata
    have hfits : b.offset.toNat +
        (word (.ofNat (extra ++ body).length) ++ word type).length ≤ b'.size.toNat := by
      rw [hsize, List.length_append, word_length, word_length]
      omega
    have hstore : closed.data = write b'.data b.offset.toNat
        (word (.ofNat (extra ++ body).length) ++ word type) := if_pos hfits
    have hover : (word (.ofNat extra.length) ++ word type).length =
        (word (.ofNat (extra ++ body).length) ++ word type).length := rfl
    rw [hstore, hdata, write_patch (by omega) hover]
    rfl
  rw [hpop, padded, ← hpad]
  exact hclosed.trans raw_wrote

end Wrote

section Entries

variable {b b' : Builder} {first second type : UInt32} {bs extra body : Bytes}

theorem Wrote.aligned (ha : b.offset.toNat % 8 = 0) (hw : b.Wrote b' bs)
    (hb : bs.length % 8 = 0) : b'.offset.toNat % 8 = 0 := by
  rw [hw.offset, UInt32.toNat_add, UInt32.toNat_ofNat']
  omega

theorem entry_value_wrote :
    b.Wrote ((b.entry first second).value type body) (Item.bytes ⟨first, second, type, body⟩) := by
  rw [Item.bytes_eq]
  exact raw_wrote.trans value_wrote

theorem entry_pop_wrote (ha : b.offset.toNat % 8 = 0)
    (h : Wrote ((b.entry first second).push type extra) b' body) :
    b.Wrote b'.pop (Item.bytes ⟨first, second, type, extra ++ body⟩) := by
  have hentry : b.Wrote (b.entry first second) (word first ++ word second) := raw_wrote
  have haligned := Wrote.aligned ha hentry (by simp)
  rw [Item.bytes_eq]
  exact hentry.trans (h.pop haligned)

end Entries

/-- A whole value written from the start of a buffer it fits. -/
theorem Wrote.of_init {data bs : Bytes} {size : UInt32} {h : size.toNat ≤ data.length}
    {b : Builder} (hw : Wrote (init data size h) b bs) (hfit : bs.length ≤ size.toNat) :
    b.data = write data 0 bs ∧ b.offset.toNat = bs.length := by
  have hz : (init data size h).offset.toNat = 0 := rfl
  constructor
  · exact hw.data (by rw [hz, Nat.zero_add]; exact hfit)
  · rw [hw.offset, toNat_add_ofNat (k := size) (by rw [hz, Nat.zero_add]; exact hfit), hz,
      Nat.zero_add]

end Builder

end Pod
