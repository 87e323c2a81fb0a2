import Mathlib.Data.Fin.Basic
import Mathlib.Order.RelClasses
import TinyPipewire.Core.Waits

/-!
# The order of what is waited for

A handle's loop thread comes before its lock, the lock before a cycle, and a cycle before the push
lock; all of a handle comes before all of the next. Calls refused in a handle's own callbacks are
those that would take one of these the other way round.
-/

namespace TinyPipewire.Waits

open RankedLocks (Op Below Orderly)

variable {m n : ℕ}

def Place.level : Place n → ℕ
  | .thread h => 4 * h
  | .loop h => 4 * h + 1
  | .cycle h => 4 * h + 2
  | .push h => 4 * h + 3
  | .init => 4 * n
  | .log => 4 * n + 1

section Levels

variable (h : Fin n)

@[simp] theorem level_thread : (Place.thread h).level = 4 * h := rfl

@[simp] theorem level_loop : (Place.loop h).level = 4 * h + 1 := rfl

@[simp] theorem level_cycle : (Place.cycle h).level = 4 * h + 2 := rfl

@[simp] theorem level_push : (Place.push h).level = 4 * h + 3 := rfl

end Levels

theorem Place.level_lt (k : Place n) : k.level < 4 * n + 2 := by
  cases k with
  | thread h | loop h | cycle h | push h =>
    have := h.isLt
    simp only [Place.level]
    omega
  | init | log =>
    simp only [Place.level]
    omega

def Place.rank (k : Place n) : Fin (4 * n + 2) := ⟨k.level, k.level_lt⟩

theorem below_iff {l : List (Place n)} {k : Place n} :
    Below Place.rank l k ↔ ∀ j ∈ l, j.level < k.level := Iff.rfl

abbrev InOrder (l : List (Place n)) (ops : List (Op (Place n))) : Prop :=
  Orderly Place.recursive Place.rank l [] ops l []

/-- What a thread has while it makes a call on a handle. Where a setter has the callback run, that
is the loop's lock and what the caller of the setter had. -/
def Caller.Holds (h : Fin n) : Caller → List (Place n) → Prop
  | .outside, l => Below Place.rank l (.thread h)
  | .dispatch, l => l = [.loop h, .thread h]
  | .cycle, l => l = [.cycle h]
  | .setter, l => ∃ l₀, l = .loop h :: l₀ ∧ Below Place.rank l₀ (.thread h)

/-- What may be done from where. -/
def Turn.fits : Caller → Turn → Bool
  | .outside, _ => true
  | .dispatch, .loop ts | .setter, .loop ts => ts.all (· != .wait)
  | .dispatch, .stopThread | .setter, .stopThread => false
  | .dispatch, _ | .setter, _ => true
  | .cycle, .loop _ | .cycle, .node | .cycle, .stopThread => false
  | .cycle, _ => true

theorem fits_setter : Turn.fits .setter = Turn.fits .dispatch := by
  funext t
  cases t <;> rfl

variable {l : List (Place n)} {h h' : Fin n} {who : Caller} {k : Place n} {t : Turn}
  {c : Call n} {cs : Calls n} {ops : List (Op (Place n))}

/-! ### One turn -/

theorem below_cons {j : Place n} (hl : Below Place.rank l k) (hj : j.level < k.level) :
    Below Place.rank (j :: l) k := by
  rw [below_iff] at hl ⊢
  intro i hi
  rcases List.mem_cons.mp hi with rfl | hi
  · exact hj
  · exact hl i hi

/-- Everything of a handle comes after what comes before its thread. -/
theorem below_of_thread (hl : Below Place.rank l (.thread h)) (hk : 4 * h ≤ k.level) :
    Below Place.rank l k := by
  rw [below_iff] at hl ⊢
  intro j hj
  exact Nat.lt_of_lt_of_le (hl j hj) hk

theorem below_nil : Below Place.rank ([] : List (Place n)) k := fun _ hj =>
  absurd hj List.not_mem_nil

/-- A lock taken and released at once. -/
theorem inOrder_once (hl : Below Place.rank l k) : InOrder l [.lock k, .unlock k] :=
  Orderly.locked (Or.inr ⟨hl, below_nil⟩) .nil

theorem inOrder_join (hl : Below Place.rank l k) : InOrder l [.join k] :=
  .join ⟨hl, below_nil⟩ .nil

theorem level_log (h : Fin n) : 4 * (h : ℕ) + 4 ≤ (Place.log : Place n).level := by
  have := h.isLt
  simp only [Place.level]
  omega

theorem level_init (h : Fin n) : 4 * (h : ℕ) + 4 ≤ (Place.init : Place n).level := by
  have := h.isLt
  simp only [Place.level]
  omega

/-- Under the loop lock a wait lets it go, if the thread has it once. -/
theorem loopTurn_inOrder {a : LoopTurn} (hcycle : Below Place.rank l (.cycle h))
    (hwait : a = .wait → Below Place.rank l (.loop h)) : InOrder (.loop h :: l) (a.ops h) := by
  have hnode : Below Place.rank (.loop h :: l) (.cycle h) := below_cons hcycle (by simp)
  cases a with
  | wait =>
    refine .wait List.mem_cons_self ?_
    rw [List.erase_cons_head]
    exact .wake ⟨hwait rfl, below_nil⟩ .nil
  | node => exact inOrder_join hnode
  | log =>
    refine inOrder_once fun j hj => Nat.lt_of_lt_of_le (hnode j hj) ?_
    have := level_log h
    simp only [Place.rank, level_cycle] at *
    omega

/-- From outside of a handle's callbacks everything may be done with it. -/
theorem turn_outside (hl : Below Place.rank l (.thread h)) : InOrder l (t.ops h) := by
  have hof : ∀ k : Place n, 4 * (h : ℕ) ≤ k.level → Below Place.rank l k :=
    fun k hk => below_of_thread hl hk
  cases t with
  | loop ts =>
    refine Orderly.locked (Or.inr ⟨hof _ (by simp), below_nil⟩) ?_
    refine Orderly.flatMap fun a _ => loopTurn_inOrder (hof _ ?_) fun _ => hof _ ?_
    · simp
    · simp
  | node | stopThread => exact inOrder_join (hof _ (by simp))
  | push => exact inOrder_once (hof _ (by simp))
  | init => exact inOrder_once (hof _ (Nat.le_trans (by omega) (level_init h)))
  | log => exact inOrder_once (hof _ (Nat.le_trans (by omega) (level_log h)))

/-- Where the loop's lock is held already, it is taken again, and nothing waits for it. -/
theorem turn_under (hmem : .loop h ∈ l) (hl : Below Place.rank l (.cycle h))
    (ht : t.fits .dispatch = true) : InOrder l (t.ops h) := by
  have hof : ∀ k : Place n, 4 * (h : ℕ) + 2 ≤ k.level → Below Place.rank l k := by
    intro k hk
    rw [below_iff] at hl ⊢
    intro j hj
    exact Nat.lt_of_lt_of_le (hl j hj) hk
  cases t with
  | loop ts =>
    refine Orderly.locked (Or.inl ⟨rfl, hmem⟩) ?_
    refine Orderly.flatMap fun a ha => loopTurn_inOrder (hof _ (by simp)) ?_
    intro hwait
    have hno := List.all_eq_true.mp ht a ha
    rw [hwait] at hno
    exact absurd hno (by decide)
  | node => exact inOrder_join (hof _ (by simp))
  | push => exact inOrder_once (hof _ (by simp))
  | init => exact inOrder_once (hof _ (Nat.le_trans (by omega) (level_init h)))
  | log => exact inOrder_once (hof _ (Nat.le_trans (by omega) (level_log h)))
  | stopThread => cases ht

/-- From a cycle. -/
theorem turn_cycle (ht : t.fits .cycle = true) : InOrder [.cycle h] (t.ops h) := by
  have hheld : ∀ k : Place n, 4 * (h : ℕ) + 3 ≤ k.level → Below Place.rank [.cycle h] k := by
    intro k hk
    rw [below_iff]
    simp only [List.mem_singleton]
    rintro j rfl
    rw [level_cycle]
    omega
  cases t with
  | push => exact inOrder_once (hheld _ (by simp))
  | init => exact inOrder_once (hheld _ (Nat.le_trans (by omega) (level_init h)))
  | log => exact inOrder_once (hheld _ (Nat.le_trans (by omega) (level_log h)))
  | loop | node | stopThread => cases ht

/-- Of a handle, whoever is in its loop or in its setter has nothing behind the lock. -/
theorem dispatch_below : Below Place.rank [.loop h, .thread h] (.cycle h) := by
  rw [below_iff]
  simp

theorem setter_below (hl : Below Place.rank l (.thread h)) :
    Below Place.rank (.loop h :: l) (.cycle h) :=
  below_cons (below_of_thread hl (by simp)) (by simp)

theorem turn_inOrder (hl : who.Holds h l) (ht : t.fits who = true) : InOrder l (t.ops h) := by
  cases who with
  | outside => exact turn_outside hl
  | dispatch =>
    obtain rfl := hl
    exact turn_under (by simp) dispatch_below ht
  | cycle =>
    obtain rfl := hl
    exact turn_cycle ht
  | setter =>
    obtain ⟨l₀, rfl, hl₀⟩ := hl
    rw [fits_setter] at ht
    exact turn_under (by simp) (setter_below hl₀) ht

theorem turns_inOrder {ts : List Turn} (hl : who.Holds h l)
    (hts : ts.all (Turn.fits who) = true) : InOrder l (ts.flatMap (Turn.ops h)) :=
  Orderly.flatMap fun t ht => turn_inOrder hl (List.all_eq_true.mp hts t ht)

/-! ### One call -/

/-- What the loop's thread is not refused does the same where a setter has the callback run. -/
theorem turns_setter {c : PlainCall} (hc : c.refusedInLoop = false) :
    c.turns .setter = c.turns .dispatch := by
  cases c with
  | filterStop running drain drained | streamStop running drain drained =>
    obtain rfl : drain = false := hc
    rfl
  | filterDestroy | filterPortLink | filterGetTargetVideoFormats | streamDestroy | streamLink
  | streamGetTargetList | streamGetTargetVideoFormats => cases hc
  | _ => rfl

/-- What is refused to a loop's thread is all that does not fit there. -/
theorem plain_fits_dispatch {c : PlainCall} (hown : c.own .dispatch = true) :
    (c.turns .dispatch).all (Turn.fits .dispatch) = true := by
  cases c with
  | filterCreate | streamCreate => cases hown
  | filterAddPort reached => cases reached <;> rfl
  | filterStart ports connected => cases ports <;> cases connected <;> rfl
  | filterStop running drain drained => cases drain <;> cases running <;> rfl
  | filterPushPortData grown => cases grown <;> rfl
  | filterPortPushEvent input => cases input <;> rfl
  | filterPortUnlink linked => cases linked <;> rfl
  | streamStart ready => cases ready <;> rfl
  | streamStop running drain drained => cases drain <;> cases running <;> rfl
  | streamUnlink linked => cases linked <;> rfl
  | _ => rfl

theorem plain_fits_cycle {c : PlainCall} (hown : c.own .cycle = true) :
    (c.turns .cycle).all (Turn.fits .cycle) = true := by
  cases c with
  | filterCreate | streamCreate => cases hown
  | filterAddPort reached =>
    cases reached with
    | false => rfl
    | true => cases hown
  | filterPushPortData grown => cases grown <;> rfl
  | filterPortPushEvent input => cases input <;> rfl
  | _ => rfl

theorem own_setter {c : PlainCall} (hown : c.own .setter = true) :
    c.refusedInLoop = false ∧ c.own .dispatch = true := by
  cases c with
  | filterCreate | streamCreate => cases hown
  | filterStop running drain drained | streamStop running drain drained =>
    cases drain with
    | false => exact ⟨rfl, rfl⟩
    | true => cases hown
  | filterDestroy | filterPortLink | filterGetTargetVideoFormats | streamDestroy | streamLink
  | streamGetTargetList | streamGetTargetVideoFormats => cases hown
  | _ => exact ⟨rfl, rfl⟩

theorem plain_fits {c : PlainCall} (hown : who ≠ .outside → c.own who = true) :
    (c.turns who).all (Turn.fits who) = true := by
  cases who with
  | outside => simp [Turn.fits]
  | dispatch => exact plain_fits_dispatch (hown (by decide))
  | cycle => exact plain_fits_cycle (hown (by decide))
  | setter =>
    obtain ⟨hnot, hdispatch⟩ := own_setter (hown (by decide))
    rw [turns_setter hnot, fits_setter]
    exact plain_fits_dispatch hdispatch

theorem holds_below (hl : who.Holds h l) (hlt : h < h') : Below Place.rank l (.thread h') := by
  have hnat : (h : ℕ) < h' := hlt
  cases who with
  | outside => exact below_of_thread hl (by rw [level_thread]; omega)
  | dispatch =>
    obtain rfl := hl
    rw [below_iff]
    simp
    omega
  | cycle =>
    obtain rfl := hl
    rw [below_iff]
    simp
    omega
  | setter =>
    obtain ⟨l₀, rfl, hl₀⟩ := hl
    have hbefore : Below Place.rank l₀ (.thread h') :=
      below_of_thread hl₀ (by rw [level_thread]; omega)
    exact below_cons hbefore (by rw [level_loop, level_thread]; omega)

theorem callbackOps_eq : callbackOps h who cs =
    cs.flatMap fun c => c.2.ops (if c.1 = h then who else .outside) c.1 := by
  induction cs with
  | nil => rfl
  | cons c cs ih => rw [callbackOps, ih, List.flatMap_cons]

/-- The calls of a callback, on its own handle or on later ones, where each of them is in order. -/
theorem callback_inOrder (hl : who.Holds h l) (hcs : ∀ c ∈ cs, InTurn h who c)
    (heach : ∀ c ∈ cs, ∀ (l : List (Place n)) (who : Caller), who.Holds c.1 l →
      (who ≠ .outside → c.2.own who = true) → InOrder l (c.2.ops who c.1)) :
    InOrder l (callbackOps h who cs) := by
  rw [callbackOps_eq]
  refine Orderly.flatMap fun c hc => ?_
  rcases hcs c hc with hlt | ⟨hself, hown⟩
  · have hne : c.1 ≠ h := fun heq => absurd (heq ▸ hlt) (lt_irrefl _)
    rw [if_neg hne]
    exact heach c hc l _ (holds_below hl hlt) fun hout => absurd rfl hout
  · rw [if_pos hself]
    exact heach c hc l who (hself ▸ hl) fun _ => hown

/-- A call takes its locks in order from where it may be made. The induction is on the callbacks
that setters have run. -/
theorem call_inOrder (hkeep : c.KeepsOrder h) : ∀ (l : List (Place n)) (who : Caller),
    who.Holds h l → (who ≠ .outside → c.own who = true) → InOrder l (c.ops who h) := by
  induction hkeep with
  | plain =>
    intro l who hl hown
    exact turns_inOrder hl (plain_fits hown)
  | @streamSetConfig h accepted node connected lost errorCb hcs _ ih =>
    intro l who hl hown
    have hlog : InOrder l (Turn.ops h .log) := turn_inOrder hl (by cases who <;> rfl)
    cases who with
    | dispatch | cycle => exact hlog
    | setter => cases hown (by decide)
    | outside =>
      have hin : Caller.setter.Holds h (.loop h :: l) := ⟨l, rfl, hl⟩
      have honLost : InOrder (.loop h :: l)
          (if lost then Turn.ops h .log ++ callbackOps h .setter errorCb else []) := by
        cases lost with
        | false => exact .nil
        | true => exact (turn_inOrder hin rfl).append (callback_inOrder hin hcs ih)
      cases accepted with
      | false => exact .nil
      | true =>
        refine Orderly.append ?_ (turns_inOrder hl (by cases connected <;> rfl))
        cases node with
        | false => exact .nil
        | true =>
          refine Orderly.locked (Or.inr ⟨below_of_thread hl (by simp), below_nil⟩) ?_
          have hjoin := inOrder_join (setter_below hl)
          exact (hjoin.append honLost).append hjoin

/-! ### What a thread begins -/

/-- What the application calls in a callback is in order. -/
theorem application_inOrder (hl : who.Holds h l) (hcs : KeepOrder h who cs) :
    InOrder l (callbackOps h who cs) :=
  callback_inOrder hl (fun c hc => (hcs c hc).1) fun c hc => call_inOrder (hcs c hc).2

theorem loopEvent_inOrder {e : LoopEvent n} (he : e.KeepsOrder h) :
    InOrder [.loop h, .thread h] (e.ops h) := by
  have hl : Caller.dispatch.Holds h [.loop h, .thread h] := rfl
  cases e with
  | signal => exact .nil
  | format mismatch useDmabuf =>
    cases mismatch <;> cases useDmabuf <;> exact turns_inOrder hl rfl
  | sourceLost errorCb => exact (turn_inOrder hl rfl).append (application_inOrder hl he)
  | nodeRemoved errorCb => exact (turns_inOrder hl rfl).append (application_inOrder hl he)

theorem dispatch_inOrder {events : List (LoopEvent n)} (he : ∀ e ∈ events, e.KeepsOrder h) :
    InOrder [] (dispatchOps h events) := by
  have hloop : Below Place.rank [.thread h] (.loop h) := by
    rw [below_iff]
    simp
  refine .lock (Or.inr ⟨below_nil, below_nil⟩) (.lock (Or.inr ⟨hloop, below_nil⟩) ?_)
  refine (Orderly.flatMap fun e hmem => loopEvent_inOrder (he e hmem)).append ?_
  have hlast : [Place.loop h, .thread h].erase (.loop h) = [.thread h] := List.erase_cons_head _ _
  have hthread : [Place.thread h].erase (.thread h) = [] := List.erase_cons_head _ _
  refine .unlock List.mem_cons_self ?_
  rw [hlast]
  refine .unlock List.mem_cons_self ?_
  rw [hthread]
  exact .nil

theorem cycle_inOrder {c : Cycle n} (hc : KeepOrder h .cycle c.dataCb) : InOrder [] (c.ops h) := by
  have hl : Caller.cycle.Holds h [.cycle h] := rfl
  refine Orderly.locked (Or.inr ⟨below_nil, below_nil⟩) ?_
  refine Orderly.append ?_ (Orderly.append (application_inOrder hl hc) ?_)
  · cases c.filter with
    | false => exact .nil
    | true =>
      refine .tryLock (by simp) List.not_mem_nil (.unlockTried (by simp) List.mem_cons_self ?_)
      rw [List.erase_cons_head]
      exact .nil
  · refine Orderly.flatMap fun t ht => ?_
    rw [List.eq_of_mem_replicate ht]
    exact turn_cycle rfl

theorem may_inOrder (t : Thread m n) (ops : List (Op (Place n))) (hmay : May m n t ops) :
    InOrder [] ops := by
  cases t with
  | app i =>
    obtain ⟨h, c, rfl, hkeep⟩ := hmay
    exact call_inOrder hkeep [] .outside below_nil fun hout => absurd rfl hout
  | loop h =>
    obtain ⟨events, rfl, he⟩ := hmay
    exact dispatch_inOrder he
  | data h =>
    obtain ⟨c, rfl, hc⟩ := hmay
    exact cycle_inOrder hc

end TinyPipewire.Waits
