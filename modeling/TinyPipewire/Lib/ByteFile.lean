import Mathlib.Data.UInt
import Mathlib.Tactic.Common

/-!
# A file that is written

Its bytes and a position in them. A write goes over what is at the position, and on behind the
end; of a write that is cut short, only the first bytes do.
-/

/-- A file, and the position the next write is at. -/
structure ByteFile where
  content : List UInt8
  pos : ℕ
  le : pos ≤ content.length
  deriving DecidableEq

namespace ByteFile

/-- A file that was just made. -/
def empty : ByteFile := ⟨[], 0, Nat.le_refl 0⟩

variable (f : ByteFile)

def write (bs : List UInt8) : ByteFile where
  content := f.content.take f.pos ++ bs ++ f.content.drop (f.pos + bs.length)
  pos := f.pos + bs.length
  le := by
    have hle := f.le
    simp
    omega

/-- Back to the start. -/
def rewind : ByteFile := ⟨f.content, 0, Nat.zero_le _⟩

/-- `fwrite`, of which `n` bytes get through at most, and its count. -/
def fwrite (bs : List UInt8) (n : ℕ) : ByteFile × ℕ := (f.write (bs.take n), (bs.take n).length)

/-- Several writes, of each of which so many bytes get through at most. -/
def writeAll : ByteFile → List (List UInt8 × ℕ) → ByteFile
  | f, [] => f
  | f, (bs, n) :: rest => writeAll (f.fwrite bs n).1 rest

variable {f} {bs cs : List UInt8} {n : ℕ}

@[ext] theorem ext {g : ByteFile} (hc : f.content = g.content) (hp : f.pos = g.pos) : f = g := by
  cases f
  cases g
  cases hc
  cases hp
  rfl

/-- A write at the end adds to it. -/
theorem write_at_end (h : f.pos = f.content.length) :
    (f.write bs).content = f.content ++ bs ∧ (f.write bs).pos = (f.write bs).content.length := by
  have hcontent : (f.write bs).content = f.content ++ bs := by
    simp [write, h]
  refine ⟨hcontent, ?_⟩
  rw [hcontent, List.length_append, ← h]
  rfl

/-- Two writes one after the other are one. -/
theorem write_write : (f.write bs).write cs = f.write (bs ++ cs) := by
  have hle := f.le
  have hlen : (f.content.take f.pos ++ bs).length = f.pos + bs.length := by
    simp
    omega
  apply ext
  · have htake : (f.write bs).content.take (f.write bs).pos = f.content.take f.pos ++ bs := by
      change (f.content.take f.pos ++ bs ++ _).take (f.pos + bs.length) = _
      rw [← hlen, List.take_left]
    have hdrop : (f.write bs).content.drop ((f.write bs).pos + cs.length) =
        f.content.drop (f.pos + (bs ++ cs).length) := by
      change (f.content.take f.pos ++ bs ++ _).drop (f.pos + bs.length + cs.length) = _
      rw [← List.drop_drop, ← hlen, List.drop_left, hlen, List.drop_drop, List.length_append,
        Nat.add_assoc]
    change (f.write bs).content.take (f.write bs).pos ++ cs ++ _ = _
    rw [htake, hdrop]
    simp [write]
  · simp [write, Nat.add_assoc]

/-- What of each of the writes gets through, all together. -/
def through (ws : List (List UInt8 × ℕ)) : List UInt8 := ws.flatMap fun w => w.1.take w.2

theorem through_length (ws : List (List UInt8 × ℕ)) :
    (through ws).length = (ws.map fun w => min w.2 w.1.length).sum := by
  simp [through, List.length_flatMap]

/-- Of whole writes all gets through. -/
theorem through_whole {ws : List (List UInt8 × ℕ)} (h : ∀ w ∈ ws, w.1.length ≤ w.2) :
    through ws = (ws.map Prod.fst).flatten := by
  rw [through, List.flatMap_def]
  congr 1
  apply List.map_congr_left
  intro w hw
  exact List.take_of_length_le (h w hw)

theorem write_nil : f.write [] = f := by
  apply ext
  · simp [write]
  · simp [write]

theorem writeAll_eq (ws : List (List UInt8 × ℕ)) : f.writeAll ws = f.write (through ws) := by
  induction ws generalizing f with
  | nil => exact write_nil.symm
  | cons w ws ih =>
    obtain ⟨bs, n⟩ := w
    have hrest := ih (f := (f.fwrite bs n).1)
    rw [writeAll, hrest]
    exact write_write

end ByteFile
