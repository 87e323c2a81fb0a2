import TinyPipewire.Utils.LoopbackAudio

/-!
# The frames of the loopback

The ring counts bytes. As long as whole frames are captured and asked for, both its positions
stay at the start of a frame: what it drops and what it hands out are whole frames.
-/

namespace TinyPipewire.Utils

variable {W : ℕ} {capacity : BitVec W} {s : LoopbackRing W} {es vs : List (RingEvent W)}
  {a : RingStep W} {ys : List (RingStep W)} {frame : ℕ}

/-- What is offered and asked for is whole frames. -/
def RingStep.Whole (frame : ℕ) : RingStep W → Prop
  | .writeEnter src => frame ∣ src.length
  | .readEnter len => frame ∣ len.toNat
  | _ => True

def RingWriter.Aligned (frame : ℕ) : RingWriter W → Prop
  | .idle => True
  | .loaded src readPos => frame ∣ src.length ∧ frame ∣ readPos.toNat
  | .copying _ _ len _ => frame ∣ len.toNat

def RingReader.Aligned (frame : ℕ) : RingReader W → Prop
  | .idle => True
  | .loaded len writePos => frame ∣ len.toNat ∧ frame ∣ writePos.toNat
  | .copying _ len _ => frame ∣ len.toNat

/-- What is offered, taken of it, and returned, is whole frames. -/
def RingEvent.Whole (frame : ℕ) : RingEvent W → Prop
  | .offered src len _ => frame ∣ src.length ∧ frame ∣ len.toNat
  | .returned len => frame ∣ len.toNat
  | _ => True

/-- Both positions are at the start of a frame. -/
structure Aligned (frame : ℕ) (s : LoopbackRing W) (es : List (RingEvent W)) : Prop where
  capacity : frame ∣ s.capacity.toNat
  writePos : frame ∣ s.writePos.toNat
  readPos : frame ∣ s.readPos.toNat
  writer : s.writer.Aligned frame
  reader : s.reader.Aligned frame
  whole : ∀ e ∈ es, e.Whole frame

theorem toNat_ofNat_of_lt {n : ℕ} (h : n < 2 ^ W) : (BitVec.ofNat W n).toNat = n := by
  rw [BitVec.toNat_ofNat, Nat.mod_eq_of_lt h]

/-- Events that show no sizes leave the history whole. -/
theorem whole_append (h : ∀ e ∈ es, e.Whole frame) (hvs : ∀ e ∈ vs, e.Whole frame) :
    ∀ e ∈ es ++ vs, e.Whole frame := by
  intro e he
  obtain he | he := List.mem_append.mp he
  · exact h e he
  · exact hvs e he

section Step

variable {w r : ℕ}

theorem Aligned.writeLoad (h : Aligned frame s es) (hc : Counts s es w r) (hw : w < 2 ^ W)
    (he : s.Enabled .writeLoad) :
    Aligned frame (s.step .writeLoad).1 (es ++ (s.step .writeLoad).2) := by
  obtain ⟨src, pos, hp⟩ := RingWriter.atLoad_iff.mp he
  have hat := hc.writer
  have hwriter := h.writer
  have hwritePos := h.writePos
  rw [hp] at hat hwriter
  obtain ⟨-, -, hsrc, r₀, -, hr₀, hfull, rfl⟩ := hat
  obtain ⟨hsource, hpos⟩ := hwriter
  rw [toNat_ofNat_of_lt (by omega)] at hpos
  rw [hc.writePos, toNat_ofNat_of_lt hw] at hwritePos
  obtain ⟨haccept, -⟩ := ringAccept_toNat hr₀ hfull (.ofNat W src.length)
  rw [toNat_ofNat_of_lt hsrc] at haccept
  -- the room is a whole number of frames, as is what is offered
  have hroom : frame ∣ s.capacity.toNat - (w - r₀) :=
    Nat.dvd_sub h.capacity (Nat.dvd_sub hwritePos hpos)
  have hlen : frame ∣ (ringAccept s.capacity s.writePos (.ofNat W r₀)
      (.ofNat W src.length)).1.toNat := by
    rw [hc.writePos, haccept]
    obtain hmin | hmin := Nat.le_total src.length (s.capacity.toNat - (w - r₀))
    · rwa [Nat.min_eq_left hmin]
    · rwa [Nat.min_eq_right hmin]
  simp only [LoopbackRing.step, LoopbackRing.writeLoad, hp]
  refine ⟨h.capacity, h.writePos, h.readPos, hlen, h.reader, whole_append h.whole ?_⟩
  intro e he
  rw [List.mem_singleton.mp he]
  exact ⟨hsource, hlen⟩

theorem Aligned.writeLeave (h : Aligned frame s es) (hc : Counts s es w r)
    (hshort : (accepted es).length < 2 ^ W) (he : s.Enabled .writeLeave) :
    Aligned frame (s.step .writeLeave).1 (es ++ (s.step .writeLeave).2) := by
  obtain ⟨src, pos, len, i, hp, -⟩ := RingWriter.atStore_iff.mp he
  have hat := hc.writer
  have hwriter := h.writer
  have hwritePos := h.writePos
  rw [hp] at hat hwriter
  obtain ⟨rfl, -, -, hlen, -, pre, hacc, rfl⟩ := hat
  rw [hacc, List.length_append, List.length_take, Nat.min_eq_left hlen] at hshort
  rw [hc.writePos, toNat_ofNat_of_lt (by omega)] at hwritePos
  simp only [LoopbackRing.step, LoopbackRing.writeLeave, hp, List.append_nil]
  refine ⟨h.capacity, ?_, h.readPos, trivial, h.reader, h.whole⟩
  dsimp only
  rw [WrappedRing.ofNat_add, toNat_ofNat_of_lt hshort]
  exact Nat.dvd_add hwritePos hwriter

theorem Aligned.readLoad (h : Aligned frame s es) (hc : Counts s es w r) (hw : w < 2 ^ W)
    (he : s.Enabled .readLoad) :
    Aligned frame (s.step .readLoad).1 (es ++ (s.step .readLoad).2) := by
  obtain ⟨len, pos, hp⟩ := RingReader.atLoad_iff.mp he
  have hat := hc.reader
  have hreader := h.reader
  have hreadPos := h.readPos
  rw [hp] at hat hreader
  obtain ⟨-, w₀, hr, hw₀, rfl⟩ := hat
  obtain ⟨hlen, hpos⟩ := hreader
  rw [toNat_ofNat_of_lt (by omega)] at hpos
  rw [hc.readPos, toNat_ofNat_of_lt (by omega)] at hreadPos
  have havailable := ringAvailable_toNat hr (show w₀ - r < 2 ^ W by omega) len
  simp only [LoopbackRing.step, LoopbackRing.readLoad, hp, List.append_nil]
  refine ⟨h.capacity, h.writePos, h.readPos, h.writer, ?_, h.whole⟩
  show frame ∣ (ringAvailable (.ofNat W w₀) s.readPos len).toNat
  rw [hc.readPos, havailable]
  obtain hmin | hmin := Nat.le_total len.toNat (w₀ - r)
  · rwa [Nat.min_eq_left hmin]
  · rw [Nat.min_eq_right hmin]
    exact Nat.dvd_sub hpos hreadPos

theorem Aligned.readLeave (h : Aligned frame s es) (hc : Counts s es w r) (hw : w < 2 ^ W)
    (he : s.Enabled .readLeave) :
    Aligned frame (s.step .readLeave).1 (es ++ (s.step .readLeave).2) := by
  obtain ⟨pos, len, i, hp, -⟩ := RingReader.atStore_iff.mp he
  have hat := hc.reader
  have hreader := h.reader
  have hreadPos := h.readPos
  rw [hp] at hat hreader
  obtain ⟨rfl, -, -, hle⟩ := hat
  rw [hc.readPos, toNat_ofNat_of_lt (by omega)] at hreadPos
  simp only [LoopbackRing.step, LoopbackRing.readLeave, hp]
  refine ⟨h.capacity, h.writePos, ?_, h.writer, trivial, whole_append h.whole ?_⟩
  · dsimp only
    rw [WrappedRing.ofNat_add, toNat_ofNat_of_lt (by omega)]
    exact Nat.dvd_add hreadPos hreader
  · intro e he
    rw [List.mem_singleton.mp he]
    exact hreader

theorem aligned_next (h : Aligned frame s es) (hc : Counts s es w r)
    (hshort : (accepted es).length < 2 ^ W) (he : s.Enabled a) (ha : a.Whole frame) :
    Aligned frame (s.step a).1 (es ++ (s.step a).2) := by
  have hw : w < 2 ^ W := by
    have := hc.unread_le
    omega
  cases a with
  | writeEnter src =>
    refine ⟨h.capacity, h.writePos, h.readPos, ⟨ha, h.readPos⟩, h.reader, ?_⟩
    exact whole_append h.whole (by simp [LoopbackRing.step])
  | writeLoad => exact h.writeLoad hc hw he
  | storeByte =>
    obtain ⟨src, pos, len, i, hp, -⟩ := RingWriter.inLoop_iff.mp he
    have hwriter := h.writer
    rw [hp] at hwriter
    simp only [LoopbackRing.step, LoopbackRing.storeByte, hp]
    refine ⟨h.capacity, h.writePos, h.readPos, hwriter, h.reader, whole_append h.whole ?_⟩
    intro e he
    rw [List.mem_singleton.mp he]
    trivial
  | writeLeave => exact h.writeLeave hc hshort he
  | readEnter len =>
    refine ⟨h.capacity, h.writePos, h.readPos, h.writer, ⟨ha, h.writePos⟩, ?_⟩
    exact whole_append h.whole (by simp [LoopbackRing.step])
  | readLoad => exact h.readLoad hc hw he
  | readByte =>
    obtain ⟨pos, len, i, hp, -⟩ := RingReader.inLoop_iff.mp he
    have hreader := h.reader
    rw [hp] at hreader
    simp only [LoopbackRing.step, LoopbackRing.readByte, hp]
    refine ⟨h.capacity, h.writePos, h.readPos, h.writer, hreader, whole_append h.whole ?_⟩
    intro e he
    rw [List.mem_singleton.mp he]
    trivial
  | readLeave => exact h.readLeave hc hw he

end Step

theorem aligned_run (hpos : 0 < capacity.toNat) (hframe : frame ∣ capacity.toNat)
    (h : ((ringMachine W).restrict fun _ => RingStep.Whole frame).Valid (.init capacity) ys)
    (hshort : offeredBytes ((ringMachine W).outs (.init capacity) ys) < 2 ^ W) :
    Aligned frame ((ringMachine W).exec (.init capacity) ys)
      ((ringMachine W).outs (.init capacity) ys) := by
  have hrun := Machine.history_restrict
    (P := fun es s => (∃ w r, Counts s es w r) ∧ (offeredBytes es < 2 ^ W → Aligned frame s es))
    ⟨⟨0, 0, counts_init hpos⟩, fun _ => ⟨hframe, ?_, ?_, trivial, trivial, ?_⟩⟩ ?_ h
  · exact hrun.2 hshort
  · exact Nat.dvd_zero frame
  · exact Nat.dvd_zero frame
  · intro e he
    cases he
  · rintro es s a he ha ⟨⟨w, r, hc⟩, halign⟩
    refine ⟨counts_next ⟨w, r, hc⟩ he, ?_⟩
    intro hshort
    have htotal := hc.total
    have hbefore : offeredBytes es < 2 ^ W := by
      rw [offeredBytes_append] at hshort
      omega
    exact aligned_next (halign hbefore) hc (by omega) he ha

/-! ### Frames -/

/-- The whole frames of some bytes. -/
def framesOf (n : ℕ) (bs : Bytes) : List Bytes :=
  (List.range (bs.length / n)).map fun k => (bs.drop (k * n)).take n

variable {n : ℕ} {as bs : Bytes}

/-- The frames of some bytes are those of what they begin. -/
theorem framesOf_left (bs : Bytes) :
    ((List.range (as.length / n)).map fun k => ((as ++ bs).drop (k * n)).take n) =
      framesOf n as := by
  apply List.map_congr_left
  intro k hk
  have hend : k * n + n ≤ as.length := by
    have hlt : k + 1 ≤ as.length / n := List.mem_range.mp hk
    have hmul := Nat.mul_le_mul_right n hlt
    have hfloor := Nat.div_mul_le_self as.length n
    rw [Nat.add_mul, Nat.one_mul] at hmul
    omega
  rw [List.drop_append_of_le_length (by omega), List.take_append_of_le_length]
  rw [List.length_drop]
  omega

theorem framesOf_initial (h : as <+: bs) : framesOf n as <+: framesOf n bs := by
  obtain ⟨cs, rfl⟩ := h
  have hle : as.length / n ≤ (as ++ cs).length / n :=
    Nat.div_le_div_right (by rw [List.length_append]; omega)
  obtain ⟨m, hm⟩ := Nat.exists_eq_add_of_le hle
  rw [← framesOf_left cs, framesOf, hm, List.range_add, List.map_append]
  exact List.prefix_append _ _

theorem framesOf_append (hn : 0 < n) (h : n ∣ as.length) :
    framesOf n (as ++ bs) = framesOf n as ++ framesOf n bs := by
  obtain ⟨q, hq⟩ := h
  have hdiv : as.length / n = q := by rw [hq, Nat.mul_div_cancel_left q hn]
  have hall : (as ++ bs).length / n = as.length / n + bs.length / n := by
    rw [List.length_append, hdiv, hq, Nat.add_comm, Nat.add_mul_div_left _ _ hn, Nat.add_comm]
  rw [framesOf, hall, List.range_add, List.map_append, framesOf_left, List.map_map]
  refine congrArg (framesOf n as ++ ·) (List.map_congr_left ?_)
  intro k _
  have hstart : (q + k) * n = as.length + k * n := by rw [hq, Nat.add_mul, Nat.mul_comm n]
  simp only [Function.comp, hdiv, hstart, List.drop_append]
  rw [List.drop_eq_nil_of_le (by omega), Nat.add_sub_cancel_left, List.nil_append]

theorem take_whole {src : Bytes} {k : ℕ} (hsrc : n ∣ src.length) (hk : n ∣ k) :
    n ∣ (src.take k).length := by
  rw [List.length_take]
  obtain hmin | hmin := Nat.le_total k src.length
  · rwa [Nat.min_eq_left hmin]
  · rwa [Nat.min_eq_right hmin]

/-- The frames accepted are frames captured. -/
theorem framesOf_accepted (hn : 0 < n) {ws : List LoopOut}
    (h : ∀ e ∈ ringTrace ws, e.Whole n) :
    List.Sublist (framesOf n (accepted (ringTrace ws))) (framesOf n (capturedAudio ws)) := by
  unfold capturedAudio accepted
  generalize ringTrace ws = es at h ⊢
  induction es with
  | nil => exact List.Sublist.refl _
  | cons e es ih =>
    have hrest := ih fun e he => h e (by simp [he])
    have hwhole := h e (by simp)
    rw [List.flatMap_cons, List.flatMap_cons]
    cases e with
    | offered src len dropped =>
      obtain ⟨hsrc, hlen⟩ := hwhole
      rw [framesOf_append hn (take_whole hsrc hlen), framesOf_append hn hsrc]
      exact (framesOf_initial (List.take_prefix _ _)).sublist.append hrest
    | _ => exact hrest

theorem trimmedBytes_whole {es : List (RingEvent 64)} (h : ∀ e ∈ es, e.Whole n) :
    trimmedBytes n es = 0 := by
  induction es with
  | nil => rfl
  | cons e es ih =>
    have hrest := ih fun e he => h e (by simp [he])
    have hwhole := h e (by simp)
    rw [← List.singleton_append, trimmedBytes_append, hrest, Nat.add_zero]
    cases e with
    | returned len =>
      have hmod : len.toNat % n = 0 := Nat.mod_eq_zero_of_dvd hwhole
      simpa [trimmedBytes] using hmod
    | _ => rfl

/-- What is offered is whole frames, and so is what is accepted of it. -/
theorem offered_whole {es : List (RingEvent W)} (h : ∀ e ∈ es, e.Whole n) :
    n ∣ offeredBytes es ∧ n ∣ (accepted es).length := by
  induction es with
  | nil => exact ⟨Nat.dvd_zero n, Nat.dvd_zero n⟩
  | cons e es ih =>
    obtain ⟨hoffered, haccepted⟩ := ih fun e he => h e (by simp [he])
    have hwhole := h e (by simp)
    cases e with
    | offered src len dropped =>
      obtain ⟨hsrc, hlen⟩ := hwhole
      constructor
      · exact Nat.dvd_add hsrc hoffered
      · have hcons : accepted (RingEvent.offered src len dropped :: es) =
            src.take len.toNat ++ accepted es := rfl
        rw [hcons, List.length_append]
        exact Nat.dvd_add (take_whole hsrc hlen) haccepted
    | copied byte => exact ⟨by simpa [offeredBytes] using hoffered, haccepted⟩
    | stored i => exact ⟨by simpa [offeredBytes] using hoffered, haccepted⟩
    | returned len => exact ⟨by simpa [offeredBytes] using hoffered, haccepted⟩

/-! ### The loopback -/

variable {o : LoopbackOptions} {s₀ : Loopback} {xs : List LoopAction}

/-- What the ring is given to write, and asked to read, is whole frames. -/
def Loopback.AsksWhole (n : ℕ) (s : Loopback) (a : LoopAction) : Prop :=
  ∀ b ∈ s.ringSteps a, b.Whole n

instance (n : ℕ) : (a : RingStep W) → Decidable (a.Whole n)
  | .writeEnter src => inferInstanceAs (Decidable (n ∣ src.length))
  | .readEnter len => inferInstanceAs (Decidable (n ∣ len.toNat))
  | .writeLoad | .storeByte | .writeLeave | .readLoad | .readByte | .readLeave => isTrue trivial

instance (n : ℕ) (s : Loopback) (a : LoopAction) : Decidable (s.AsksWhole n a) :=
  inferInstanceAs (Decidable (∀ b ∈ s.ringSteps a, b.Whole n))

theorem whole_valid (n : ℕ) {r : LoopbackRing W} (hv : (ringMachine W).Valid r ys)
    (hw : ∀ b ∈ ys, b.Whole n) :
    ((ringMachine W).restrict fun _ => RingStep.Whole n).Valid r ys := by
  induction ys generalizing r with
  | nil => trivial
  | cons b ys ih => exact ⟨⟨hv.1, hw b (by simp)⟩, ih hv.2 fun c hc => hw c (by simp [hc])⟩

theorem loop_aligned_run (hs : Loopback.start o = .ok s₀)
    (hv : (loopMachine.restrict (Loopback.AsksWhole o.frameBytes)).Valid s₀ xs)
    (hshort : (capturedAudio (loopMachine.outs s₀ xs)).length < 2 ^ 64) :
    Aligned o.frameBytes (loopMachine.exec s₀ xs).ring (ringTrace (loopMachine.outs s₀ xs)) := by
  obtain ⟨hring, -, -, -, -, hcapacity, hpos⟩ := Loopback.start_ok hs
  have hfollows : Machine.Follows (loopMachine.restrict (Loopback.AsksWhole o.frameBytes))
      ((ringMachine 64).restrict fun _ => RingStep.Whole o.frameBytes) Loopback.ring
      Loopback.ringSteps ringTrace :=
    loop_follows_ring.restrict fun s a he ha => whole_valid _ he.2 ha
  obtain ⟨ys, hys, hexec, houts⟩ := hfollows.run hv
  rw [hring] at hys hexec houts
  rw [Machine.exec_restrict, Machine.exec_restrict] at hexec
  rw [Machine.outs_restrict, Machine.outs_restrict] at houts
  rw [length_capturedAudio, houts] at hshort
  have hframe : o.frameBytes ∣ o.ringCapacity.toNat := ⟨_, hcapacity.trans (Nat.mul_comm _ _)⟩
  rw [hexec, houts]
  exact aligned_run hpos hframe hys hshort

/-- Where whole frames are captured and asked for, the frames played are frames captured, in
order; they are the first that were accepted, nothing being trimmed, and without an overrun the
first captured. The ring has room for a second of frames, and an overrun drops whole ones. -/
theorem loopback_keeps_frames (hs : Loopback.start o = .ok s₀)
    (hv : (loopMachine.restrict (Loopback.AsksWhole o.frameBytes)).Valid s₀ xs)
    (hshort : (capturedAudio (loopMachine.outs s₀ xs)).length < 2 ^ 64) :
    let ws := loopMachine.outs s₀ xs
    o.frameBytes ∣ (playedAudio ws).length ∧
      List.Sublist (framesOf o.frameBytes (playedAudio ws))
        (framesOf o.frameBytes (capturedAudio ws)) ∧
      playedAudio ws <+: accepted (ringTrace ws) ∧
      trimmedBytes o.frameBytes (ringTrace ws) = 0 ∧
      o.ringCapacity.toNat = o.sampleRate.toInt.toNat * o.frameBytes ∧
      o.frameBytes ∣ droppedBytes (ringTrace ws) ∧
      (droppedBytes (ringTrace ws) = 0 → playedAudio ws <+: capturedAudio ws) := by
  obtain ⟨-, -, -, -, hn, hcapacity, hpos⟩ := Loopback.start_ok hs
  have halign := loop_aligned_run hs hv hshort
  have hv := Machine.valid_of_restrict hv
  obtain ⟨ys, hys, hring, htrace⟩ := loop_ring_run hs hv
  have hplaying := playing_run hs hv
  rw [length_capturedAudio, htrace] at hshort
  have hintact := intact_run hpos (storesClear_of_short hpos hys hshort)
  obtain ⟨-, htotal, -⟩ := ring_accounts hpos hys
  rw [← htrace] at hintact htotal
  obtain ⟨before, hsub, hlen, hat⟩ := hplaying.turn
  have hwhole := hplaying.whole
  generalize loopMachine.outs s₀ xs = ws at *
  -- nothing is trimmed of a cycle
  have hall : playedAudio ws = before := by
    rw [trimmedBytes_whole halign.whole, Nat.add_zero] at hlen
    exact hsub.eq_of_length hlen
  have hprefix : playedAudio ws <+: accepted (ringTrace ws) :=
    hall ▸ hat.prefix.trans hintact.read
  refine ⟨hwhole, ?_, hprefix, trimmedBytes_whole halign.whole, hcapacity, ?_, ?_⟩
  · exact (framesOf_initial hprefix).sublist.trans (framesOf_accepted hn halign.whole)
  · obtain ⟨hoffered, haccepted⟩ := offered_whole halign.whole
    rw [← htotal] at hoffered
    exact (Nat.dvd_add_right haccepted).mp hoffered
  · intro hdropped
    have hcaptured : accepted (ringTrace ws) = capturedAudio ws := by
      apply (accepted_sublist ws).eq_of_length
      rw [length_capturedAudio]
      omega
    rwa [← hcaptured]

theorem loopback_keeps_frames_once :
    let ws := loopMachine.outs twoFrames loopOnce
    twoFrameOptions.frameBytes ∣ (playedAudio ws).length ∧
      List.Sublist (framesOf twoFrameOptions.frameBytes (playedAudio ws))
        (framesOf twoFrameOptions.frameBytes (capturedAudio ws)) ∧
      playedAudio ws <+: accepted (ringTrace ws) ∧
      trimmedBytes twoFrameOptions.frameBytes (ringTrace ws) = 0 ∧
      twoFrameOptions.ringCapacity.toNat =
        twoFrameOptions.sampleRate.toInt.toNat * twoFrameOptions.frameBytes ∧
      twoFrameOptions.frameBytes ∣ droppedBytes (ringTrace ws) ∧
      (droppedBytes (ringTrace ws) = 0 → playedAudio ws <+: capturedAudio ws) :=
  loopback_keeps_frames (o := twoFrameOptions) rfl (by decide) (by decide)

end TinyPipewire.Utils
