import TinyPipewire.Core.WaitOrder

/-!
# Every call returns

Whatever the threads of any handles are doing, each of them goes on or waits for one that does,
and when nothing more is begun all of it ends. A thread that waits for an answer has let go all
that the answer may need.
-/

namespace TinyPipewire.Waits

open RankedLocks (Op State)

variable {m n : ℕ} {h : Fin n} {who : Caller} {u : Thread m n} {t : Turn} {c : Call n}
  {cs : Calls n} {op : Op (Place n)} {ops : List (Op (Place n))}
  {xs : List (RankedLocks.Action (Thread m n) (Place n))}

/-- Only a loop's own thread is at work for it, and that thread never waits on the loop. -/
def Thread.Does (u : Thread m n) : Op (Place n) → Prop
  | .lock (.thread h) | .tryLock (.thread h) | .wake (.thread h) => u = .loop h
  | .wake (.loop h) => u ≠ .loop h
  | _ => True

theorem does_turn (hu : u = .loop h → t.fits .dispatch = true) (hop : op ∈ t.ops h) :
    u.Does op := by
  cases t with
  | loop ts =>
    simp only [Turn.ops, locked, List.mem_cons, List.mem_append, List.mem_flatMap,
      List.not_mem_nil, or_false] at hop
    rcases hop with rfl | ⟨a, ha, hop⟩ | rfl
    · exact trivial
    · cases a with
      | wait =>
        simp only [LoopTurn.ops, List.mem_cons, List.not_mem_nil, or_false] at hop
        rcases hop with rfl | rfl
        · exact trivial
        · intro hloop
          have hno := List.all_eq_true.mp (hu hloop) _ ha
          exact absurd hno (by decide)
      | node =>
        obtain rfl := List.mem_singleton.mp hop
        exact trivial
      | log =>
        simp only [LoopTurn.ops, List.mem_cons, List.not_mem_nil, or_false] at hop
        rcases hop with rfl | rfl <;> exact trivial
    · exact trivial
  | node | stopThread =>
    obtain rfl := List.mem_singleton.mp hop
    exact trivial
  | push | init | log =>
    simp only [Turn.ops, List.mem_cons, List.not_mem_nil, or_false] at hop
    rcases hop with rfl | rfl <;> exact trivial

theorem does_turns {ts : List Turn} (hu : u = .loop h → ts.all (Turn.fits .dispatch) = true)
    (hop : op ∈ ts.flatMap (Turn.ops h)) : u.Does op := by
  obtain ⟨t, ht, hop⟩ := List.mem_flatMap.mp hop
  exact does_turn (fun hloop => List.all_eq_true.mp (hu hloop) t ht) hop

/-- A loop's thread makes calls on its own handle as what it is, and on later handles. -/
def Thread.Calls (u : Thread m n) (h : Fin n) (who : Caller) : Prop :=
  ∀ h', u = .loop h' → h' < h ∨ h' = h ∧ who = .dispatch

theorem does_callback (hu : u.Calls h who) (hcs : ∀ c ∈ cs, InTurn h who c)
    (heach : ∀ c ∈ cs, ∀ who : Caller, u.Calls c.1 who → (who = .dispatch → c.2.own who = true) →
      ∀ op ∈ c.2.ops who c.1, u.Does op) (hop : op ∈ callbackOps h who cs) : u.Does op := by
  rw [callbackOps_eq] at hop
  obtain ⟨c, hc, hop⟩ := List.mem_flatMap.mp hop
  rcases hcs c hc with hlt | ⟨hself, hown⟩
  · have hne : c.1 ≠ h := fun heq => absurd (heq ▸ hlt) (lt_irrefl _)
    rw [if_neg hne] at hop
    refine heach c hc .outside (fun h' heq => Or.inl ?_) (fun hout => by cases hout) op hop
    rcases hu h' heq with hbefore | ⟨rfl, -⟩
    · exact hbefore.trans hlt
    · exact hlt
  · rw [if_pos hself] at hop
    exact heach c hc who (hself ▸ hu) (fun _ => hown) op hop

theorem does_call (hkeep : c.KeepsOrder h) : ∀ who : Caller, u.Calls h who →
    (who = .dispatch → c.own who = true) → ∀ op ∈ c.ops who h, u.Does op := by
  induction hkeep with
  | plain =>
    intro who hu hown op hop
    refine does_turns (fun hloop => ?_) hop
    rcases hu _ hloop with hlt | ⟨-, rfl⟩
    · exact absurd hlt (lt_irrefl _)
    · exact plain_fits_dispatch (hown rfl)
  | @streamSetConfig h accepted node connected lost errorCb hcs _ ih =>
    intro who hu hown op hop
    have hlog : ∀ op ∈ Turn.ops h .log, u.Does op := fun op hop => does_turn (fun _ => rfl) hop
    by_cases hrefused : refused who true = true
    · simp only [Call.ops, pwfStreamSetConfig, if_pos hrefused] at hop
      exact hlog op hop
    have hbefore : u.Calls h .setter := by
      intro h' heq
      rcases hu h' heq with hlt | ⟨-, rfl⟩
      · exact Or.inl hlt
      · exact absurd rfl hrefused
    simp only [Call.ops, pwfStreamSetConfig, if_neg hrefused] at hop
    cases accepted with
    | false => exact absurd hop List.not_mem_nil
    | true =>
      rcases List.mem_append.mp hop with hop | hop
      · cases node with
        | false => exact absurd hop List.not_mem_nil
        | true =>
          simp only [if_true, locked, LoopTurn.ops, List.mem_cons, List.mem_append,
            List.not_mem_nil, or_false] at hop
          rcases hop with rfl | ((rfl | hop) | rfl) | rfl
          · exact trivial
          · exact trivial
          · cases lost with
            | false => exact absurd hop List.not_mem_nil
            | true =>
              rcases List.mem_append.mp hop with hop | hop
              · exact hlog op hop
              · exact does_callback hbefore hcs ih hop
          · exact trivial
          · exact trivial
      · exact does_turns (fun _ => by cases connected <;> rfl) hop

theorem does_application (hu : u.Calls h who) (hcs : KeepOrder h who cs)
    (hop : op ∈ callbackOps h who cs) : u.Does op :=
  does_callback hu (fun c hc => (hcs c hc).1) (fun c hc => does_call (hcs c hc).2) hop

theorem does_loopEvent {e : LoopEvent n} (he : e.KeepsOrder h) (hop : op ∈ e.ops h) :
    (Thread.loop h : Thread m n).Does op := by
  have hself : (Thread.loop h : Thread m n).Calls h .dispatch :=
    fun h' heq => Or.inr ⟨(Thread.loop.inj heq).symm, rfl⟩
  cases e with
  | signal => exact absurd hop List.not_mem_nil
  | format mismatch useDmabuf =>
    refine does_turns (fun _ => ?_) hop
    cases mismatch <;> cases useDmabuf <;> rfl
  | sourceLost errorCb =>
    rcases List.mem_append.mp hop with hop | hop
    · exact does_turn (fun _ => rfl) hop
    · exact does_application hself he hop
  | nodeRemoved errorCb =>
    rcases List.mem_append.mp hop with hop | hop
    · exact does_turns (fun _ => rfl) hop
    · exact does_application hself he hop

theorem may_does (u : Thread m n) (ops : List (Op (Place n))) (hmay : May m n u ops) :
    ∀ op ∈ ops, u.Does op := by
  intro op hop
  cases u with
  | app i =>
    obtain ⟨h, c, rfl, hkeep⟩ := hmay
    exact does_call hkeep .outside (fun _ heq => by cases heq) (fun heq => by cases heq) op hop
  | loop h =>
    obtain ⟨events, rfl, he⟩ := hmay
    simp only [dispatchOps, List.mem_cons, List.mem_append, List.mem_flatMap, List.not_mem_nil,
      or_false] at hop
    rcases hop with rfl | rfl | ⟨e, hmem, hop⟩ | rfl | rfl
    · rfl
    · exact trivial
    · exact does_loopEvent (he e hmem) hop
    · exact trivial
    · exact trivial
  | data h =>
    obtain ⟨c, rfl, hc⟩ := hmay
    simp only [Cycle.ops, List.mem_cons, List.mem_append, List.not_mem_nil, or_false] at hop
    rcases hop with rfl | (hop | hop | hop) | rfl
    · exact trivial
    · cases hf : c.filter with
      | false =>
        rw [hf] at hop
        exact absurd hop List.not_mem_nil
      | true =>
        simp only [hf, if_true, List.mem_cons, List.not_mem_nil, or_false] at hop
        rcases hop with rfl | rfl <;> exact trivial
    · exact does_application (fun _ heq => by cases heq) hc hop
    · exact does_turns (fun heq => by cases heq) hop
    · exact trivial

/-! ### What holds in every run -/

/-- Whichever calls the threads make, whatever their callbacks call on later handles or, of what
they may, on their own, and however the steps of all of them mix: a thread that has not finished
goes on, or waits, over others that wait, for one that goes on. -/
theorem waits_reach_running_thread (hx : (waitMachine m n).Valid .idle xs) :
    let s := (waitMachine m n).exec .idle xs
    ∀ t, s.todo t ≠ [] → ∃ u, Relation.ReflTransGen (s.WaitsFor Place.recursive) t u ∧
      s.CanStep Place.recursive u := by
  intro s t ht
  exact (RankedLocks.inv_run may_inOrder hx).exists_canStep ht

/-- The first of two. -/
def firstOfTwo : Fin 2 := (Fin.last 0).castSucc

/-- The second of two. -/
def lastOfTwo : Fin 2 := Fin.last 1

/-- One thread drains a stream while its device goes away, which has it unlinked. Another gives a
running stream a new format, and the error callback that this has run unlinks it. -/
def drainedStream : List (RankedLocks.Action (Thread 2 2) (Place 2)) :=
  [.begin (.app firstOfTwo)
      (Call.ops .outside firstOfTwo (.plain (.streamStop true true ⟨1, true⟩))),
    .begin (.loop firstOfTwo)
      (dispatchOps firstOfTwo [.nodeRemoved [(firstOfTwo, .plain (.streamUnlink true))]]),
    .begin (.app lastOfTwo) (Call.ops .outside lastOfTwo
      (.streamSetConfig true true true true [(lastOfTwo, .plain (.streamUnlink true))])),
    .step (.app firstOfTwo), .step (.loop firstOfTwo), .step (.app lastOfTwo),
    .step (.app lastOfTwo)]

theorem unlink_keepsOrder {h : Fin n} {linked : Bool} :
    KeepOrder h .dispatch [(h, .plain (.streamUnlink linked))] ∧
      KeepOrder h .setter [(h, .plain (.streamUnlink linked))] := by
  refine ⟨?_, ?_⟩ <;>
    · intro c hc
      obtain rfl := List.mem_singleton.mp hc
      exact ⟨Or.inr ⟨rfl, rfl⟩, .plain⟩

theorem drainedStream_valid : (waitMachine 2 2).Valid .idle drainedStream := by
  have hdispatch : ∀ e ∈ [LoopEvent.nodeRemoved [(firstOfTwo, .plain (.streamUnlink true))]],
      e.KeepsOrder firstOfTwo := by
    intro e he
    obtain rfl := List.mem_singleton.mp he
    exact unlink_keepsOrder.1
  have hsetter : (Call.streamSetConfig true true true true
      [(lastOfTwo, .plain (.streamUnlink true))]).KeepsOrder lastOfTwo :=
    .streamSetConfig (fun c hc => (unlink_keepsOrder.2 c hc).1) fun c hc =>
      (unlink_keepsOrder.2 c hc).2
  exact ⟨⟨rfl, _, _, rfl, .plain⟩, ⟨rfl, _, rfl, hdispatch⟩, ⟨rfl, _, _, rfl, hsetter⟩,
    ⟨_, _, rfl, by decide⟩, ⟨_, _, rfl, by decide⟩, ⟨_, _, rfl, by decide⟩,
    ⟨_, _, rfl, by decide⟩, trivial⟩

/-- The loop's thread waits for the call that has its lock. -/
theorem waits_reach_running_thread_drained :
    let s := (waitMachine 2 2).exec .idle drainedStream
    ∀ t, s.todo t ≠ [] → ∃ u, Relation.ReflTransGen (s.WaitsFor Place.recursive) t u ∧
      s.CanStep Place.recursive u :=
  waits_reach_running_thread drainedStream_valid

/-- The handle that a place is of. -/
def Place.handle : Place n → Option (Fin n)
  | .thread h | .loop h | .cycle h | .push h => some h
  | .init | .log => none

/-- A thread that waits on a loop is not the loop's own, and has nothing of this handle or of a
later one: its lock is let go however it was taken, and what it waits for can come. -/
theorem wait_lets_loop_go (hx : (waitMachine m n).Valid .idle xs)
    (hwait : ((waitMachine m n).exec .idle xs).todo u = .wake (.loop h) :: ops) :
    u ≠ .loop h ∧ ∀ k ∈ ((waitMachine m n).exec .idle xs).held u, ∃ h' < h, k.handle = some h' := by
  obtain ⟨htodo, hheld⟩ := RankedLocks.todo_run may_does hx u
  have hother : u ≠ .loop h :=
    htodo (.wake (.loop h)) (List.mem_of_mem_head? (congrArg List.head? hwait))
  refine ⟨hother, fun k hk => ?_⟩
  have hlevel : k.level < 4 * h + 1 :=
    (RankedLocks.inv_run may_inOrder hx).wake_below hwait hk
  have hlast := h.isLt
  cases k with
  | thread h' =>
    obtain ⟨op, hdoes, htakes⟩ := hheld _ hk
    have hown : u = .loop h' := by
      cases op with
      | lock | tryLock | wake =>
        obtain rfl := Option.some.inj htakes
        exact hdoes
      | join | unlock | unlockTried | wait => cases htakes
    have hne : h' ≠ h := fun heq => hother (heq ▸ hown)
    rw [level_thread] at hlevel
    exact ⟨h', lt_of_le_of_ne (Fin.le_def.mpr (by omega)) hne, rfl⟩
  | loop h' | cycle h' | push h' =>
    simp only [Place.level] at hlevel
    exact ⟨h', Fin.lt_def.mpr (by omega), rfl⟩
  | init | log =>
    simp only [Place.level] at hlevel
    omega

/-- The call drains, and waits: the loop's thread can take the lock. -/
def waitingStream : List (RankedLocks.Action (Thread 2 2) (Place 2)) :=
  drainedStream ++ [.step (.app firstOfTwo), .step (.app firstOfTwo)]

theorem wait_lets_loop_go_drained :
    (Thread.app firstOfTwo : Thread 2 2) ≠ .loop firstOfTwo ∧
      ∀ k ∈ ((waitMachine 2 2).exec .idle waitingStream).held (.app firstOfTwo),
        ∃ h' < firstOfTwo, k.handle = some h' := by
  have hvalid : (waitMachine 2 2).Valid .idle waitingStream :=
    Machine.valid_append.mpr
      ⟨drainedStream_valid, ⟨_, _, rfl, by decide⟩, ⟨_, _, rfl, by decide⟩, trivial⟩
  exact wait_lets_loop_go hvalid rfl

end TinyPipewire.Waits
