import TinyPipewire.Lib.PodBuilder
import TinyPipewire.Lib.PodWalk

/-!
# Properties and choices

A property of an object is an entry found by its key. Its value is plain, or a choice: a kind,
and values of one type and size behind one header. Either way `valuesOf` is what it has.
-/

namespace Pod

/-- The type of a choice. -/
def typeChoice : UInt32 := 19

/-- The body of a choice: kind and flags, the header its values share, and the values. -/
def choiceBody (kind flags type : UInt32) (size : ℕ) (vals : List Bytes) : Bytes :=
  word kind ++ word flags ++ (word (.ofNat size) ++ word type) ++ vals.flatten

/-- The values of a property, and how they are meant. -/
structure Values where
  kind : UInt32
  type : UInt32
  vals : List Bytes
  deriving DecidableEq, Repr

/-- The first `k` pieces of `n` bytes. -/
def pieces (n k : ℕ) (bs : Bytes) : List Bytes :=
  (List.range k).map fun i => (bs.drop (i * n)).take n

/-- `spa_pod_get_values`, of a value whose body has what its type says. -/
def valuesOf (type : UInt32) (body : Bytes) : Values :=
  if type = typeChoice then
    let kind := wordAt body 0
    let size := (wordAt body 8).toNat
    let count := if size = 0 then 0 else (body.length - 16) / size
    ⟨kind, wordAt body 12, pieces size (if kind = 0 then min 1 count else count) (body.drop 16)⟩
  else ⟨0, type, [body]⟩

/-- `spa_pod_find_prop`: type and body of the first property with a key. -/
def Value.prop (v : Value) (key : UInt32) : Option (UInt32 × Bytes) :=
  (v.entries.find? fun p => p.first = key).map fun p => (p.value.type, p.value.body)

section Choices

variable {kind flags type : UInt32} {n : ℕ} {vals : List Bytes} {body : Bytes}

/-- A word alone. -/
theorem wordAt_word_self {w : UInt32} : wordAt (word w) 0 = w := by
  have h : wordAt (word w ++ []) 0 = w := wordAt_word
  rwa [List.append_nil] at h

theorem length_flatten (h : ∀ x ∈ vals, x.length = n) :
    vals.flatten.length = vals.length * n := by
  induction vals with
  | nil => simp
  | cons x xs ih =>
    have hrest := ih fun y hy => h y (by simp [hy])
    rw [List.flatten_cons, List.length_append, h x (by simp), hrest, List.length_cons,
      Nat.add_mul, Nat.one_mul, Nat.add_comm]

/-- Pieces of one size are found one after the other. -/
theorem pieces_flatten (h : ∀ x ∈ vals, x.length = n) :
    pieces n vals.length vals.flatten = vals := by
  induction vals with
  | nil => rfl
  | cons x xs ih =>
    have hx : x.length = n := h x (by simp)
    have hrest := ih fun y hy => h y (by simp [hy])
    rw [pieces, List.length_cons, List.range_succ_eq_map, List.map_cons, List.map_map,
      List.flatten_cons]
    congr 1
    · rw [Nat.zero_mul, List.drop_zero]
      exact List.take_left' hx
    · calc (List.range xs.length).map _
          = pieces n xs.length xs.flatten := by
            apply List.map_congr_left
            intro i _
            have hstart : (i + 1) * n = x.length + i * n := by
              rw [hx, Nat.add_mul, Nat.one_mul, Nat.add_comm]
            simp only [Function.comp, Nat.succ_eq_add_one, hstart]
            rw [← List.drop_drop, List.drop_left]
        _ = xs := hrest

theorem choiceBody_length : (choiceBody kind flags type n vals).length =
    16 + vals.flatten.length := by
  simp only [choiceBody, List.length_append, word_length]

/-- A choice has the values it is written with, if it is one of several or has no other. -/
theorem valuesOf_choice (hn : 0 < n) (hsize : n < 2 ^ 32) (h : ∀ x ∈ vals, x.length = n)
    (hk : kind = 0 → vals.length ≤ 1) :
    valuesOf typeChoice (choiceBody kind flags type n vals) = ⟨kind, type, vals⟩ := by
  have hkind : wordAt (choiceBody kind flags type n vals) 0 = kind := by
    rw [choiceBody, List.append_assoc, List.append_assoc]
    exact wordAt_word
  have hfirst : wordAt (choiceBody kind flags type n vals) 8 = .ofNat n := by
    rw [choiceBody, List.append_assoc, List.append_assoc, List.append_assoc]
    exact wordAt_word_add.trans (wordAt_word_add.trans wordAt_word)
  have htype : wordAt (choiceBody kind flags type n vals) 12 = type := by
    rw [choiceBody, List.append_assoc, List.append_assoc, List.append_assoc]
    exact wordAt_word_add.trans (wordAt_word_add.trans (wordAt_word_add.trans wordAt_word))
  have hdrop : (choiceBody kind flags type n vals).drop 16 = vals.flatten := List.drop_left' rfl
  have hn' : (UInt32.ofNat n).toNat = n := by
    rw [UInt32.toNat_ofNat', Nat.mod_eq_of_lt hsize]
  have hcount : ((choiceBody kind flags type n vals).length - 16) / n = vals.length := by
    rw [choiceBody_length, Nat.add_sub_cancel_left, length_flatten h, Nat.mul_div_cancel _ hn]
  have hall : (if kind = 0 then min 1 vals.length else vals.length) = vals.length := by
    split
    · exact Nat.min_eq_right (hk ‹_›)
    · rfl
  have hne : n ≠ 0 := by omega
  simp only [valuesOf, if_true, hkind, hfirst, htype, hdrop, hn', hne, if_false, hcount, hall,
    pieces_flatten h]

theorem valuesOf_plain (h : type ≠ typeChoice) : valuesOf type body = ⟨0, type, [body]⟩ := if_neg h

end Choices

section Properties

variable {v : Value} {es : List Item} {a b key : UInt32}

/-- A property is found where it was written first. -/
theorem Value.prop_container (hv : v.body = container a b es)
    (hsize : ∀ e ∈ es, e.body.length < 2 ^ 32) :
    v.prop key = (es.find? fun e => e.first = key).map fun e => (e.type, e.body) := by
  have hitems := Value.entries_container hv hsize
  rw [← hitems, List.find?_map, Option.map_map]
  rfl

end Properties

namespace Builder

/-- A choice of values after its entry's words: the first value brings the header of all. -/
def choice (b : Builder) (kind type : UInt32) (first : Bytes) (rest : List Bytes) : Builder :=
  (rest.foldl raw ((b.push typeChoice (word kind ++ word 0)).raw (encode type first))).pop

variable {b b' : Builder} {key kind type : UInt32} {first : Bytes} {rest : List Bytes}

theorem raws_wrote (b : Builder) (rest : List Bytes) : b.Wrote (rest.foldl raw b) rest.flatten := by
  induction rest generalizing b with
  | nil => exact Wrote.refl
  | cons x xs ih => exact raw_wrote.trans (ih (b.raw x))

/-- A property with a choice of values is written as one entry. -/
theorem entry_choice_wrote (ha : b.offset.toNat % 8 = 0) :
    b.Wrote ((b.entry key 0).choice kind type first rest)
      (Item.bytes ⟨key, 0, typeChoice, choiceBody kind 0 type first.length (first :: rest)⟩) := by
  have hbody : choiceBody kind 0 type first.length (first :: rest) =
      (word kind ++ word 0) ++ (encode type first ++ rest.flatten) := by
    simp only [choiceBody, encode, List.flatten_cons, List.append_assoc]
  rw [hbody]
  exact entry_pop_wrote ha (raw_wrote.trans (raws_wrote _ rest))

/-- An object of some properties, closed. -/
theorem object_wrote {id : UInt32} {es : List Item} (ha : b.offset.toNat % 8 = 0)
    (h : Wrote (b.push type (word key ++ word id)) b' (es.flatMap Item.bytes)) :
    b.Wrote b'.pop (encode type (container key id es)) := by
  have hbody : word key ++ word id ++ es.flatMap Item.bytes = container key id es := rfl
  have hmod : (encode type (container key id es)).length % 8 = 0 := by
    have hes : (es.flatMap Item.bytes).length % 8 = 0 := flatMap_bytes_mod
    rw [encode_length, container_length]
    omega
  rw [← padded_eq hmod, ← hbody]
  exact h.pop ha

end Builder

end Pod
