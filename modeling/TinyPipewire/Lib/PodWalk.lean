import TinyPipewire.Lib.Pod

/-!
# Walking a POD

The loop over the entries of a sequence or an object, as it runs on bytes nobody checked: it
ends, it stays inside, and over entries laid out one after the other it visits just these.
-/

namespace Pod

variable {bs rest content : Bytes} {start fuel : ℕ} {v : Value} {e : Item} {es : List Item}

/-! ### Reading back what is there -/

theorem word_wordAt (h : 4 ≤ bs.length) : bs = word (wordAt bs 0) ++ bs.drop 4 := by
  match bs, h with
  | a :: b :: c :: d :: rest, _ =>
    have ha := a.toNat_lt
    have hb := b.toNat_lt
    have hc := c.toNat_lt
    have hd := d.toNat_lt
    have hw : (wordAt (a :: b :: c :: d :: rest) 0).toNat =
        a.toNat + 256 * b.toNat + 65536 * c.toNat + 16777216 * d.toNat := by
      simp only [wordAt, UInt32.toNat_ofNat']
      exact Nat.mod_eq_of_lt (by simp; omega)
    have hbyte : ∀ (k : ℕ) (x : UInt8), k % 256 = x.toNat → UInt8.ofNat k = x := by
      intro k x hk
      apply UInt8.toNat_inj.mp
      rwa [UInt8.toNat_ofNat']
    simp only [word, hw, List.drop_succ_cons, List.drop_zero, List.cons_append, List.nil_append]
    rw [hbyte _ a (by omega), hbyte _ b (by omega), hbyte _ c (by omega), hbyte _ d (by omega)]

theorem wordAt_drop (k : ℕ) : wordAt (bs.drop k) start = wordAt bs (k + start) := by
  simp [wordAt, List.getD_eq_getElem?_getD, Nat.add_assoc]

/-- A value that is read was written there. -/
theorem encode_of_read (h : read start bs = some v) :
    v.start = start + 8 ∧ v.body.length < 2 ^ 32 ∧ ∃ rest, bs = encode v.type v.body ++ rest := by
  unfold read at h
  split at h
  · rename_i hlen
    obtain rfl := Option.some.inj h
    have hbody : ((bs.drop 8).take (wordAt bs 0).toNat).length = (wordAt bs 0).toNat := by
      rw [List.length_take, List.length_drop]
      omega
    have hhead : bs = word (wordAt bs 0) ++ bs.drop 4 := word_wordAt (by omega)
    have htype : bs.drop 4 = word (wordAt (bs.drop 4) 0) ++ (bs.drop 4).drop 4 :=
      word_wordAt (by simp; omega)
    rw [wordAt_drop, List.drop_drop] at htype
    refine ⟨rfl, ?_, (bs.drop 8).drop (wordAt bs 0).toNat, ?_⟩
    · rw [hbody]
      exact UInt32.toNat_lt _
    · rw [encode, hbody, UInt32.ofNat_toNat, List.append_assoc, List.take_append_drop,
        List.append_assoc]
      rwa [← htype]
  · cases h

theorem read_within (h : read start bs = some v) : v.start + v.body.length ≤ start + bs.length := by
  obtain ⟨hstart, -, rest, rfl⟩ := encode_of_read h
  rw [hstart, List.length_append, encode_length]
  omega

/-! ### The loop -/

/-- The loop from `start` on visits these entries and ends: it stops where no entry lies inside,
and after an entry goes on past its padding. -/
inductive Walks : ℕ → Bytes → List Entry → Prop
  | stop {start : ℕ} {bs : Bytes} : read (start + 8) (bs.drop 8) = none → Walks start bs []
  | visit {start : ℕ} {bs : Bytes} {v : Value} {es : List Entry} :
      read (start + 8) (bs.drop 8) = some v →
      Walks (start + roundUp (16 + v.body.length)) (bs.drop (roundUp (16 + v.body.length))) es →
      Walks start bs (⟨wordAt bs 0, wordAt bs 4, v⟩ :: es)

/-- The loop over the entries of a sequence or an object. -/
def Value.Walks (v : Value) (es : List Entry) : Prop := Pod.Walks (v.start + 8) (v.body.drop 8) es

/-- An entry that lies inside takes sixteen bytes and its body. -/
theorem entry_length (h : read (start + 8) (bs.drop 8) = some v) :
    16 + v.body.length ≤ bs.length := by
  obtain ⟨-, -, rest, hbs⟩ := encode_of_read h
  have hlen := congrArg List.length hbs
  simp only [List.length_drop, List.length_append, encode_length] at hlen
  omega

/-- As many steps as there are bytes bring the loop to its end. -/
theorem walks_entriesFrom (h : bs.length ≤ fuel) : Walks start bs (entriesFrom fuel start bs) := by
  induction fuel generalizing start bs with
  | zero =>
    obtain rfl : bs = [] := List.eq_nil_of_length_eq_zero (by omega)
    exact Walks.stop rfl
  | succ fuel ih =>
    rw [entriesFrom]
    cases hr : read (start + 8) (bs.drop 8) with
    | none => exact Walks.stop hr
    | some v =>
      apply Walks.visit hr
      apply ih
      have hlen := entry_length hr
      rw [List.length_drop, roundUp]
      omega

theorem Walks.unique {ds ds' : List Entry} (h : Walks start bs ds) (h' : Walks start bs ds') :
    ds = ds' := by
  induction h generalizing ds' with
  | stop hr =>
    cases h' with
    | stop _ => rfl
    | visit hr' _ => simp [hr] at hr'
  | visit hr _ ih =>
    cases h' with
    | stop hr' => simp [hr] at hr'
    | visit hr' h' =>
      obtain rfl := Option.some.inj (hr.symm.trans hr')
      rw [ih h']

/-- Each turn takes sixteen bytes at least. -/
theorem Walks.length {ds : List Entry} (h : Walks start bs ds) : 16 * ds.length ≤ bs.length := by
  induction h with
  | stop _ => simp
  | visit hr _ ih =>
    have hlen := entry_length hr
    rw [List.length_drop, roundUp] at ih
    rw [List.length_cons]
    omega

/-- Nothing a loop visits reaches past its bytes. -/
theorem Walks.within {ds : List Entry} (h : Walks start bs ds) :
    ∀ d ∈ ds, d.value.start + d.value.body.length ≤ start + bs.length := by
  induction h with
  | stop _ => simp
  | @visit start bs v es hr htail ih =>
    have hlen := entry_length hr
    intro d hd
    rcases List.mem_cons.mp hd with rfl | hd
    · have hv := read_within hr
      rw [List.length_drop] at hv
      dsimp only
      omega
    · have hne : 0 < es.length := List.length_pos_of_mem hd
      have htaken := htail.length
      have hle := ih d hd
      rw [List.length_drop] at htaken hle
      omega

/-- The bodies it visits have sizes of 32 bits. -/
theorem Walks.small {ds : List Entry} (h : Walks start bs ds) :
    ∀ d ∈ ds, d.value.body.length < 2 ^ 32 := by
  induction h with
  | stop _ => simp
  | visit hr _ ih =>
    intro d hd
    rcases List.mem_cons.mp hd with rfl | hd
    · exact (encode_of_read hr).2.1
    · exact ih d hd

/-- What it visits stands where it says. -/
theorem Walks.stands {ds : List Entry} (h : Walks start bs ds) (hb : bs <+: content.drop start) :
    ∀ d ∈ ds, d.value.body <+: content.drop d.value.start := by
  induction h with
  | stop _ => simp
  | @visit start bs v es hr _ ih =>
    have hdrop : ∀ k, bs.drop k <+: content.drop (start + k) := by
      intro k
      have hk := hb.drop k
      rwa [List.drop_drop] at hk
    intro d hd
    rcases List.mem_cons.mp hd with rfl | hd
    · exact read_prefix (hdrop 8) hr
    · exact ih (hdrop _) d hd

/-- The loop over a value's entries ends, for every value. -/
theorem Value.walks_iff {ds : List Entry} : v.Walks ds ↔ ds = v.entries := by
  have hentries : v.Walks v.entries := walks_entriesFrom (by simp)
  constructor
  · intro h
    exact Walks.unique h hentries
  · rintro rfl
    exact hentries

theorem Value.entries_length : 16 * v.entries.length ≤ v.body.length := by
  have h := Walks.length (Value.walks_iff (v := v).mpr rfl)
  rw [List.length_drop] at h
  omega

theorem Value.entries_within : ∀ d ∈ v.entries,
    d.value.start + d.value.body.length ≤ v.start + v.body.length := by
  intro d hd
  have h := Walks.within (Value.walks_iff (v := v).mpr rfl) d hd
  have hlen := Value.entries_length (v := v)
  have hne : 0 < v.entries.length := List.length_pos_of_mem hd
  rw [List.length_drop] at h
  omega

theorem Value.entries_prefix (hv : v.body <+: content.drop v.start) :
    ∀ d ∈ v.entries, d.value.body <+: content.drop d.value.start := by
  have hd := hv.drop 8
  rw [List.drop_drop] at hd
  exact Walks.stands (Value.walks_iff (v := v).mpr rfl) hd

theorem Value.entries_small : ∀ d ∈ v.entries, d.value.body.length < 2 ^ 32 :=
  Walks.small (Value.walks_iff.mpr rfl)

/-! ### Entries laid out -/

/-- An entry without its padding. -/
def Item.raw (e : Item) : Bytes := word e.first ++ word e.second ++ encode e.type e.body

/-- Entries one after the other, each padded to eight bytes; the padding can hold anything, and
that of the last entry can be cut. -/
inductive Lays : List Item → Bytes → Prop
  | nil : Lays [] []
  | last {e : Item} {pad : Bytes} : pad.length ≤ padding (16 + e.body.length) →
      Lays [e] (e.raw ++ pad)
  | cons {e : Item} {pad : Bytes} {es : List Item} {bs : Bytes} :
      pad.length = padding (16 + e.body.length) → Lays es bs →
      Lays (e :: es) (e.raw ++ pad ++ bs)

theorem Item.raw_length : e.raw.length = 16 + e.body.length := by
  simp only [Item.raw, List.length_append, word_length, encode_length]
  omega

/-- An entry is read as it was written. -/
theorem read_raw (start : ℕ) (rest : Bytes) (h : e.body.length < 2 ^ 32) :
    read (start + 8) ((e.raw ++ rest).drop 8) = some ⟨e.type, start + 16, e.body⟩ ∧
      wordAt (e.raw ++ rest) 0 = e.first ∧ wordAt (e.raw ++ rest) 4 = e.second := by
  have hdrop : (e.raw ++ rest).drop 8 = encode e.type e.body ++ rest := by
    rw [Item.raw, List.append_assoc]
    exact List.drop_left' rfl
  refine ⟨?_, ?_, ?_⟩
  · rw [hdrop]
    exact read_encode h
  · rw [Item.raw, List.append_assoc, List.append_assoc, wordAt_word]
  · rw [Item.raw, List.append_assoc, List.append_assoc]
    exact wordAt_word_add.trans wordAt_word

/-- The loop visits the entries laid out. -/
theorem Lays.walks (start : ℕ) (h : Lays es bs) (hsize : ∀ e ∈ es, e.body.length < 2 ^ 32) :
    ∃ ds, Walks start bs ds ∧ ds.map Entry.item = es := by
  induction h generalizing start with
  | nil => exact ⟨[], Walks.stop rfl, rfl⟩
  | @last e pad hpad =>
    obtain ⟨hread, hfirst, hsecond⟩ := read_raw start pad (hsize e List.mem_cons_self)
    have hrest : (e.raw ++ pad).drop (roundUp (16 + e.body.length)) = [] := by
      apply List.drop_eq_nil_of_le
      rw [List.length_append, Item.raw_length, roundUp]
      omega
    refine ⟨_, Walks.visit hread (Walks.stop ?_), ?_⟩
    · rw [hrest]
      rfl
    · rw [hfirst, hsecond]
      rfl
  | @cons e pad es bs hpad hes ih =>
    rw [List.append_assoc]
    obtain ⟨hread, hfirst, hsecond⟩ := read_raw start (pad ++ bs) (hsize e List.mem_cons_self)
    have hrest : (e.raw ++ (pad ++ bs)).drop (roundUp (16 + e.body.length)) = bs := by
      rw [← List.append_assoc]
      apply List.drop_left'
      rw [List.length_append, Item.raw_length, hpad, roundUp]
    obtain ⟨ds, hds, hitems⟩ := ih (start + roundUp (16 + e.body.length))
      fun d hd => hsize d (List.mem_cons_of_mem e hd)
    refine ⟨_, Walks.visit hread (hrest.symm ▸ hds), ?_⟩
    rw [List.map_cons, hfirst, hsecond, hitems]
    rfl

theorem Lays.body_length (h : Lays es bs) : ∀ e ∈ es, e.body.length ≤ bs.length := by
  induction h with
  | nil => simp
  | last _ =>
    intro d hd
    obtain rfl := List.mem_singleton.mp hd
    rw [List.length_append, Item.raw_length]
    omega
  | cons _ _ ih =>
    intro d hd
    rw [List.length_append, List.length_append, Item.raw_length]
    rcases List.mem_cons.mp hd with rfl | hd
    · omega
    · have hle := ih d hd
      omega

/-- Entries are laid out as they are written. -/
theorem lays_bytes : Lays es (es.flatMap Item.bytes) := by
  induction es with
  | nil => exact Lays.nil
  | cons e es ih =>
    rw [List.flatMap_cons]
    apply Lays.cons _ ih
    rw [List.length_replicate]
    exact congrArg padding Item.raw_length

/-- A sequence or an object whose entries are laid out past its two words. -/
theorem Value.entries_lays {a b : UInt32} (hv : v.body = word a ++ word b ++ bs) (h : Lays es bs)
    (hsize : ∀ e ∈ es, e.body.length < 2 ^ 32) : v.entries.map Entry.item = es := by
  have hdrop : v.body.drop 8 = bs := by
    rw [hv]
    exact List.drop_left' rfl
  obtain ⟨ds, hds, hitems⟩ := h.walks (v.start + 8) hsize
  rw [← hdrop] at hds
  rwa [← Value.walks_iff.mp hds]

/-- What a container is written with is what its entries are. -/
theorem Value.entries_container {a b : UInt32} (hv : v.body = container a b es)
    (hsize : ∀ e ∈ es, e.body.length < 2 ^ 32) : v.entries.map Entry.item = es :=
  Value.entries_lays hv lays_bytes hsize

end Pod
