import TinyPipewire.Lib.History

/-!
# Registers that keep the newest value

Values are put, turns pass without one, and a reset forgets what was kept.
-/

universe u

namespace Retain

inductive Op (α : Type u)
  | put (x : α)
  | idle
  | reset
  deriving DecidableEq, Repr

variable {α : Type u} {ops vs : List (Op α)} {x : α}

def Op.value : Op α → Option α
  | .put x => some x
  | _ => none

def Op.isReset : Op α → Bool
  | .reset => true
  | _ => false

/-- Every value that was put, oldest first. -/
def puts (ops : List (Op α)) : List α := ops.filterMap Op.value

/-- The newest value since the last reset. -/
def kept (ops : List (Op α)) : Option α := (puts (History.since Op.isReset ops)).getLast?

@[simp] theorem puts_append : puts (ops ++ vs) = puts ops ++ puts vs := by simp [puts]

@[simp] theorem puts_put : puts [.put x] = [x] := rfl

@[simp] theorem puts_idle : puts [(.idle : Op α)] = [] := rfl

@[simp] theorem puts_reset : puts [(.reset : Op α)] = [] := rfl

@[simp] theorem kept_put : kept (ops ++ [.put x]) = some x := by
  rw [kept, History.since_snoc, if_neg (by simp [Op.isReset]), puts_append, puts_put]
  exact List.getLast?_concat

@[simp] theorem kept_idle : kept (ops ++ [.idle]) = kept ops := by
  rw [kept, History.since_snoc, if_neg (by simp [Op.isReset]), puts_append, puts_idle,
    List.append_nil, kept]

@[simp] theorem kept_reset : kept (ops ++ [.reset]) = none := by
  rw [kept, History.since_snoc, if_pos (by simp [Op.isReset])]
  rfl

end Retain
