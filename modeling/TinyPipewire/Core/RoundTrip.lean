import TinyPipewire.Core.RegistryBind

/-!
# Round-trips one after the other

`pwf_pw_core_connect` and `pwf_pw_core_sync_locked` share the fields of a connection in which the
loop thread notes the answer to a round-trip, or an error. A reply may come after its call gave
up, and is then dispatched while a later call waits.
-/

namespace TinyPipewire.Core

/-- `PW_ID_CORE`. -/
def PW_ID_CORE : UInt32 := 0

/-- The call that waits for a round-trip. -/
inductive RoundTrip
  | connect
  | sync
  deriving DecidableEq, Repr

/-- What `pwf_pw_core_connect` may fail at before its round-trip. -/
inductive ConnectFailure
  | threadLoopNew
  | threadLoopStart
  | contextNew
  | contextConnect
  deriving DecidableEq, Repr

/-- `struct pwf_pw_core_conn`, and the requests made on its core. -/
structure CoreConn where
  /-- `conn->core` is set. -/
  core : Bool
  pendingSeq : Int
  syncDone : Bool
  connectResult : Int
  /-- The call that waits, with `core_listener` added. -/
  waiting : Option RoundTrip
  /-- The sequence numbers of the requests so far, oldest first. -/
  seqs : List Int
  deriving DecidableEq

inductive CoreAction
  /-- `pwf_pw_core_connect`; `seq` is what `pw_core_sync` returns, if it comes to that. -/
  | connect (failure : Option ConnectFailure) (seq : Int)
  /-- `pwf_pw_core_sync_locked`. -/
  | sync (seq : Int)
  /-- Something else asks for a round-trip on the core. -/
  | otherRequest (seq : Int)
  /-- The loop thread dispatches the reply to a request. -/
  | reply (k : ℕ)
  /-- It dispatches a `done` that is not the core's. -/
  | otherDone (id : UInt32) (seq : Int)
  | error (res : Int)
  /-- `pw_thread_loop_timed_wait_full` returns: it was signalled, or the deadline passed. -/
  | wake (timedOut : Bool)
  deriving DecidableEq

inductive CoreOut
  /-- A call begins its wait; if its request was made, with its number. -/
  | entered (call : RoundTrip) (k : Option ℕ)
  | replied (k : ℕ)
  | failed (res : Int)
  | returned (call : RoundTrip) (res : Int)
  deriving DecidableEq, Repr

namespace CoreConn

variable (s : CoreConn)

/-- A connection that is not made yet. -/
def unconnected : CoreConn := ⟨false, 0, false, 0, none, []⟩

/-- `pwf_pw_core_on_done`. -/
def onDone (id : UInt32) (seq : Int) : CoreConn :=
  if id = PW_ID_CORE ∧ seq = s.pendingSeq then { s with syncDone := true } else s

/-- `pwf_pw_core_on_error`. -/
def onError (res : Int) : CoreConn :=
  { s with connectResult := if res < 0 then res else -1, syncDone := true }

/-- The requests after `pw_core_sync`, which fails with a negative result. -/
def request (seq : Int) : List Int := if seq < 0 then s.seqs else s.seqs ++ [seq]

/-- The number of that request. -/
def requestNo (seq : Int) : Option ℕ := if seq < 0 then none else some s.seqs.length

/-- The two calls up to their wait. -/
def enter (call : RoundTrip) (seq : Int) : CoreConn × List CoreOut :=
  ({ s with
      core := true
      pendingSeq := seq
      syncDone := false
      connectResult := 0
      waiting := some call
      seqs := s.request seq },
    [.entered call (s.requestNo seq)])

/-- What the call returns if its deadline passes. -/
def timeoutResult : RoundTrip → Int
  | .connect => -1
  | .sync => -ETIMEDOUT

/-- The rest of the loop, when a wait of its has returned. -/
def wake (timedOut : Bool) : CoreConn × List CoreOut :=
  match s.waiting with
  | none => (s, [])
  | some call =>
    if timedOut = true then
      ({ s with connectResult := timeoutResult call, waiting := none },
        [.returned call (timeoutResult call)])
    else if s.syncDone = true then
      ({ s with waiting := none }, [.returned call s.connectResult])
    else (s, [])

/-- What the action does, and what is seen of it; the core is listened to while a call waits. -/
def step : CoreAction → CoreConn × List CoreOut
  | .connect (some _) _ => (s, [.returned .connect (-1)])
  | .connect none seq => s.enter .connect seq
  | .sync seq => s.enter .sync seq
  | .otherRequest seq => ({ s with seqs := s.request seq }, [])
  | .reply k =>
    match s.seqs[k]? with
    | none => (s, [])
    | some seq => (if s.waiting.isSome then s.onDone PW_ID_CORE seq else s, [.replied k])
  | .otherDone id seq => (if s.waiting.isSome then s.onDone id seq else s, [])
  | .error res => (if s.waiting.isSome then s.onError res else s, [.failed res])
  | .wake timedOut => s.wake timedOut

/-- The action can be taken now. The numbers of distinct requests are distinct. -/
def Enabled : CoreAction → Prop
  | .connect _ seq => s.core = false ∧ s.waiting = none ∧ seq ∉ s.seqs
  | .sync seq => s.core = true ∧ s.waiting = none ∧ seq ∉ s.seqs
  | .otherRequest seq => s.core = true ∧ seq ∉ s.seqs
  | .reply k => k < s.seqs.length
  | .otherDone id _ => id ≠ PW_ID_CORE
  | .error _ => s.core = true
  | .wake _ => s.waiting ≠ none

instance : DecidablePred s.Enabled
  | .connect _ _ | .sync _ => inferInstanceAs (Decidable (_ ∧ _ ∧ _))
  | .otherRequest _ => inferInstanceAs (Decidable (_ ∧ _))
  | .reply _ => inferInstanceAs (Decidable (_ < _))
  | .otherDone _ _ => inferInstanceAs (Decidable (_ ≠ _))
  | .error _ => inferInstanceAs (Decidable (_ = _))
  | .wake _ => inferInstanceAs (Decidable (_ ≠ _))

end CoreConn

/-- A connection, its calls one after the other, and what the server answers. -/
def coreMachine : Machine CoreConn CoreAction CoreOut where
  Enabled := CoreConn.Enabled
  next := fun s a => (s.step a).1
  out := fun s a => (s.step a).2

instance (s : CoreConn) (a : CoreAction) : Decidable (coreMachine.Enabled s a) :=
  inferInstanceAs (Decidable (s.Enabled a))

/-! ### What a call is answered -/

/-- A call begins its wait, or returns. -/
def CoreOut.ofCall : CoreOut → Bool
  | .entered _ _ | .returned _ _ => true
  | .replied _ | .failed _ => false

/-- The call that waits has had the reply to its own request since it began to, and no error. -/
def Answered (ws : List CoreOut) : Prop :=
  ∃ us call k wait, ws = us ++ .entered call (some k) :: wait ∧
    (∀ w ∈ wait, w.ofCall = false) ∧ .replied k ∈ wait ∧ ∀ res, .failed res ∉ wait

namespace CoreConn

/-- What a connection knows of a wait, of which this was seen so far. -/
structure Waits (s : CoreConn) (k : Option ℕ) (wait : List CoreOut) : Prop where
  quiet : ∀ w ∈ wait, w.ofCall = false
  own : ∀ i, k = some i → s.seqs[i]? = some s.pendingSeq
  unsent : k = none → s.pendingSeq < 0
  done : s.syncDone = true → s.connectResult = 0 → ∃ i, k = some i ∧ .replied i ∈ wait
  result : (∀ res, .failed res ∉ wait) ∧ s.connectResult = 0 ∨ s.connectResult < 0

/-- The requests have distinct numbers, and a call that waits knows what came of its own. -/
structure Tracks (ws : List CoreOut) (s : CoreConn) : Prop where
  nodup : s.seqs.Nodup
  nonneg : ∀ seq ∈ s.seqs, 0 ≤ seq
  waits : ∀ call, s.waiting = some call → ∃ us k wait,
    ws = us ++ .entered call k :: wait ∧ s.Waits k wait

variable {s : CoreConn} {ws : List CoreOut} {k : Option ℕ} {wait : List CoreOut} {call : RoundTrip}
  {seq : Int}

theorem request_nodup (h : Tracks ws s) (hseq : seq ∉ s.seqs) : (s.request seq).Nodup := by
  unfold request
  split
  · exact h.nodup
  · refine List.nodup_append.mpr ⟨h.nodup, by simp, ?_⟩
    intro a ha b hb hab
    rw [List.mem_singleton.mp hb] at hab
    exact hseq (hab ▸ ha)

theorem request_nonneg (h : Tracks ws s) : ∀ q ∈ s.request seq, 0 ≤ q := by
  intro q hq
  unfold request at hq
  split at hq
  · exact h.nonneg q hq
  · rename_i hneg
    rcases List.mem_append.mp hq with hq | hq
    · exact h.nonneg q hq
    · rw [List.mem_singleton.mp hq]
      omega

/-- A request leaves those before it in their places. -/
theorem request_getElem? {i : ℕ} {q : Int} (h : s.seqs[i]? = some q) :
    (s.request seq)[i]? = some q := by
  unfold request
  split
  · exact h
  · obtain ⟨hi, -⟩ := List.getElem?_eq_some_iff.mp h
    rw [List.getElem?_append_left hi]
    exact h

theorem requestNo_own {i : ℕ} (h : s.requestNo seq = some i) :
    (s.request seq)[i]? = some seq := by
  unfold requestNo at h
  unfold request
  split at h
  · cases h
  · rename_i hneg
    obtain rfl := Option.some.inj h
    rw [if_neg hneg]
    exact List.getElem?_concat_length

/-- A call begins its wait with nothing seen. -/
theorem tracks_enter (h : Tracks ws s) (hseq : seq ∉ s.seqs) :
    Tracks (ws ++ (s.enter call seq).2) (s.enter call seq).1 where
  nodup := request_nodup h hseq
  nonneg := request_nonneg h
  waits := by
    intro c hc
    obtain rfl : call = c := Option.some.inj hc
    refine ⟨ws, s.requestNo seq, [], rfl, ?_⟩
    exact {
      quiet := by simp
      own := fun i hi => requestNo_own hi
      unsent := by
        intro hno
        unfold requestNo at hno
        split at hno
        · assumption
        · cases hno
      done := fun hd => absurd hd (by simp [enter])
      result := Or.inl ⟨by simp, rfl⟩ }

/-- A reply or an error is neither the beginning of a call nor its end. -/
theorem quiet_snoc {w : CoreOut} (h : ∀ v ∈ wait, v.ofCall = false) (hw : w.ofCall = false) :
    ∀ v ∈ wait ++ [w], v.ofCall = false := by
  intro v hv
  rcases List.mem_append.mp hv with hv | hv
  · exact h v hv
  · rw [List.mem_singleton.mp hv]
    exact hw

/-- The reply that a call takes for its own is to its own request. -/
theorem waits_reply (h : Tracks ws s) (hw : s.Waits k wait) {i : ℕ} (hi : s.seqs[i]? = some seq) :
    (s.onDone PW_ID_CORE seq).Waits k (wait ++ [.replied i]) := by
  have hquiet := quiet_snoc (w := .replied i) hw.quiet rfl
  have hresult : (∀ res, .failed res ∉ wait ++ [CoreOut.replied i]) ∧ s.connectResult = 0 ∨
      s.connectResult < 0 := by
    rcases hw.result with ⟨hnone, hzero⟩ | hneg
    · exact Or.inl ⟨by simpa using hnone, hzero⟩
    · exact Or.inr hneg
  by_cases hseq : seq = s.pendingSeq
  · have hkept : s.onDone PW_ID_CORE seq = { s with syncDone := true } := if_pos ⟨rfl, hseq⟩
    rw [hkept]
    refine ⟨hquiet, hw.own, hw.unsent, ?_, hresult⟩
    intro _ _
    cases k with
    | none =>
      have hneg := hw.unsent rfl
      have hpos := h.nonneg seq (List.mem_of_getElem? hi)
      omega
    | some j =>
      have hj := hw.own j rfl
      have hlt : i < s.seqs.length := (List.getElem?_eq_some_iff.mp hi).1
      have hij : i = j := (List.getElem?_inj hlt h.nodup).mp (by rw [hi, hj, hseq])
      exact ⟨j, rfl, by simp [hij]⟩
  · have hkept : s.onDone PW_ID_CORE seq = s := if_neg fun hboth => hseq hboth.2
    rw [hkept]
    refine ⟨hquiet, hw.own, hw.unsent, ?_, hresult⟩
    intro hd hz
    obtain ⟨j, hj, hmem⟩ := hw.done hd hz
    exact ⟨j, hj, List.mem_append_left _ hmem⟩

/-- After an error nothing makes the result of the wait 0 again. -/
theorem waits_error (hw : s.Waits k wait) (res : Int) :
    (s.onError res).Waits k (wait ++ [.failed res]) := by
  have hneg : (s.onError res).connectResult < 0 := by
    unfold onError
    dsimp only
    split
    · assumption
    · omega
  refine ⟨quiet_snoc hw.quiet rfl, hw.own, hw.unsent, ?_, Or.inr hneg⟩
  intro _ hz
  omega

/-- What is not the core's to say changes nothing. -/
theorem onDone_other {id : UInt32} (hid : id ≠ PW_ID_CORE) : s.onDone id seq = s :=
  if_neg fun hboth => hid hboth.1

/-- What comes in while a call waits comes after the call began to. -/
theorem tracks_dispatched {t : CoreConn} {w : CoreOut} (h : Tracks ws s)
    (hseqs : t.seqs = s.seqs) (hwaiting : t.waiting = s.waiting)
    (hw : ∀ call k wait, s.waiting = some call → s.Waits k wait → t.Waits k (wait ++ [w])) :
    Tracks (ws ++ [w]) t where
  nodup := hseqs ▸ h.nodup
  nonneg := hseqs ▸ h.nonneg
  waits := by
    intro call hc
    rw [hwaiting] at hc
    obtain ⟨us, k, wait, rfl, hwait⟩ := h.waits call hc
    exact ⟨us, k, wait ++ [w], by simp, hw call k wait hc hwait⟩

/-- No call waits any more. -/
theorem tracks_idle {t : CoreConn} (h : Tracks ws s) (hseqs : t.seqs = s.seqs)
    (hidle : t.waiting = none) (ws' : List CoreOut) : Tracks ws' t where
  nodup := hseqs ▸ h.nodup
  nonneg := hseqs ▸ h.nonneg
  waits call hc := by
    rw [hidle] at hc
    cases hc

theorem tracks_otherRequest (h : Tracks ws s) (hseq : seq ∉ s.seqs) :
    Tracks ws { s with seqs := s.request seq } where
  nodup := request_nodup h hseq
  nonneg := request_nonneg h
  waits := by
    intro call hc
    obtain ⟨us, k, wait, hws, hw⟩ := h.waits call hc
    exact ⟨us, k, wait, hws, hw.quiet, fun i hi => request_getElem? (hw.own i hi), hw.unsent,
      hw.done, hw.result⟩

theorem onDone_fields {id : UInt32} :
    (s.onDone id seq).seqs = s.seqs ∧ (s.onDone id seq).waiting = s.waiting := by
  unfold onDone
  split
  · exact ⟨rfl, rfl⟩
  · exact ⟨rfl, rfl⟩

theorem tracks_step (h : Tracks ws s) {a : CoreAction} (he : coreMachine.Enabled s a) :
    Tracks (ws ++ coreMachine.out s a) (coreMachine.next s a) := by
  cases a with
  | connect failure seq =>
    obtain ⟨hcore, hidle, hseq⟩ := he
    cases failure with
    | none => exact tracks_enter h hseq
    | some f => exact tracks_idle h rfl hidle _
  | sync seq => exact tracks_enter h he.2.2
  | otherRequest seq =>
    have hout : coreMachine.out s (.otherRequest seq) = [] := rfl
    rw [hout, List.append_nil]
    exact tracks_otherRequest h he.2
  | reply i =>
    obtain ⟨seq, hi⟩ : ∃ seq, s.seqs[i]? = some seq := ⟨_, List.getElem?_eq_getElem he⟩
    have hout : coreMachine.out s (.reply i) = [.replied i] := by simp [coreMachine, step, hi]
    have hnext : coreMachine.next s (.reply i) =
        if s.waiting.isSome then s.onDone PW_ID_CORE seq else s := by
      simp [coreMachine, step, hi]
    rw [hout, hnext]
    cases hc : s.waiting with
    | none => exact tracks_idle h rfl hc _
    | some call =>
      exact tracks_dispatched h onDone_fields.1 onDone_fields.2
        fun _ _ _ _ hw => waits_reply h hw hi
  | otherDone id seq =>
    have hid : id ≠ PW_ID_CORE := he
    have hout : coreMachine.out s (.otherDone id seq) = [] := rfl
    have hnext : coreMachine.next s (.otherDone id seq) = s := by
      simp [coreMachine, step, onDone_other hid]
    rw [hout, hnext, List.append_nil]
    exact h
  | error res =>
    have hnext : coreMachine.next s (.error res) =
        if s.waiting.isSome then s.onError res else s := rfl
    have hout : coreMachine.out s (.error res) = [.failed res] := rfl
    rw [hout, hnext]
    cases hc : s.waiting with
    | none => exact tracks_idle h rfl hc _
    | some call => exact tracks_dispatched h rfl rfl fun _ _ _ _ hw => waits_error hw res
  | wake timedOut =>
    cases hc : s.waiting with
    | none => exact absurd hc he
    | some call =>
      by_cases ht : timedOut = true
      · exact tracks_idle h (by simp [coreMachine, step, CoreConn.wake, hc, ht])
          (by simp [coreMachine, step, CoreConn.wake, hc, ht]) _
      · by_cases hd : s.syncDone = true
        · exact tracks_idle h (by simp [coreMachine, step, CoreConn.wake, hc, ht, hd])
            (by simp [coreMachine, step, CoreConn.wake, hc, ht, hd]) _
        · have hsame : s.wake timedOut = (s, []) := by simp [CoreConn.wake, hc, ht, hd]
          have hout : coreMachine.out s (.wake timedOut) = [] := congrArg Prod.snd hsame
          have hnext : coreMachine.next s (.wake timedOut) = s := congrArg Prod.fst hsame
          rw [hout, hnext, List.append_nil]
          exact h

theorem tracks_unconnected : Tracks [] unconnected where
  nodup := List.nodup_nil
  nonneg := by simp [unconnected]
  waits call hc := by cases hc

/-- A call returns when a wait of its does, or before it has any. -/
theorem returned_cases {a : CoreAction} {res : Int} {pre post : List CoreOut}
    (hout : coreMachine.out s a = pre ++ .returned call res :: post) :
    pre = [] ∧ (res = -1 ∨ s.waiting = some call ∧
      (res = timeoutResult call ∨ s.syncDone = true ∧ res = s.connectResult)) := by
  have hone : ∀ w : CoreOut, [w] = pre ++ .returned call res :: post →
      pre = [] ∧ w = .returned call res := by
    intro w hw
    cases pre with
    | nil => exact ⟨rfl, (List.cons.inj hw).1⟩
    | cons v pre => simp at hw
  cases a with
  | connect failure seq =>
    cases failure with
    | none => cases (hone _ hout).2
    | some f =>
      obtain ⟨hpre, hw⟩ := hone _ hout
      cases hw
      exact ⟨hpre, Or.inl rfl⟩
  | sync seq => cases (hone _ hout).2
  | otherRequest seq => simp [coreMachine, step] at hout
  | reply k =>
    cases hk : s.seqs[k]? with
    | none => simp [coreMachine, step, hk] at hout
    | some seq =>
      have hstep : coreMachine.out s (.reply k) = [.replied k] := by simp [coreMachine, step, hk]
      rw [hstep] at hout
      cases (hone _ hout).2
  | otherDone id seq => simp [coreMachine, step] at hout
  | error e => cases (hone _ hout).2
  | wake timedOut =>
    have hwake : (s.wake timedOut).2 = pre ++ .returned call res :: post := hout
    unfold CoreConn.wake at hwake
    split at hwake
    · simp at hwake
    · rename_i c hc
      split at hwake
      · obtain ⟨hpre, hw⟩ := hone _ hwake
        cases hw
        exact ⟨hpre, Or.inr ⟨hc, Or.inl rfl⟩⟩
      · split at hwake
        · rename_i hd
          obtain ⟨hpre, hw⟩ := hone _ hwake
          cases hw
          exact ⟨hpre, Or.inr ⟨hc, Or.inr ⟨hd, rfl⟩⟩⟩
        · simp at hwake

/-- What a call returns is negative, or 0 with the answer there. -/
theorem Tracks.returned (h : Tracks ws s) {res : Int} (hc : s.waiting = some call)
    (hres : res = timeoutResult call ∨ s.syncDone = true ∧ res = s.connectResult) :
    res = 0 ∧ Answered ws ∨ res < 0 := by
  obtain ⟨us, k, wait, rfl, hw⟩ := h.waits call hc
  rcases hres with rfl | ⟨hd, rfl⟩
  · cases call with
    | connect => exact Or.inr (by decide)
    | sync => exact Or.inr (by decide)
  · rcases hw.result with ⟨hnone, hzero⟩ | hneg
    · obtain ⟨i, rfl, hmem⟩ := hw.done hd hzero
      exact Or.inl ⟨hzero, us, call, i, wait, rfl, hw.quiet, hmem, hnone⟩
    · exact Or.inr hneg

end CoreConn

/-- In every run of a connection and its calls, a call returns 0 only if the reply to its own
request, and no error, came in while it waited; else it returns a negative value. -/
theorem roundTrip_answered {xs : List CoreAction} (h : coreMachine.Valid .unconnected xs)
    {us vs : List CoreOut} {call : RoundTrip} {res : Int}
    (hout : coreMachine.outs .unconnected xs = us ++ .returned call res :: vs) :
    res = 0 ∧ Answered us ∨ res < 0 := by
  obtain ⟨ys, a, zs, pre, post, rfl, rfl, ha⟩ := Machine.outs_split hout
  have hys : coreMachine.Valid .unconnected ys := (Machine.valid_append.mp h).1
  have htracks := Machine.history (P := CoreConn.Tracks) CoreConn.tracks_unconnected
    (fun ws s a he hs => CoreConn.tracks_step hs he) hys
  obtain ⟨rfl, hneg | ⟨hc, hres⟩⟩ := CoreConn.returned_cases ha
  · exact Or.inr (by omega)
  · rw [List.append_nil]
    exact htracks.returned hc hres

/-- A sync that gave up gets its reply in the next one's wait, which is answered by its own. -/
theorem roundTrip_answered_late :
    let xs : List CoreAction := [.connect none 1, .reply 0, .wake false, .sync 2, .wake true,
      .sync 3, .reply 1, .wake false, .reply 2, .wake false]
    ∃ us, coreMachine.outs .unconnected xs = us ++ [.returned .sync 0] ∧ Answered us ∧
      .replied 1 ∈ us ∧ .returned .sync (-ETIMEDOUT) ∈ us := by
  intro xs
  have hvalid : coreMachine.Valid .unconnected xs := by decide
  have hout : coreMachine.outs .unconnected xs =
      [.entered .connect (some 0), .replied 0, .returned .connect 0, .entered .sync (some 1),
        .returned .sync (-ETIMEDOUT), .entered .sync (some 2), .replied 1, .replied 2] ++
        .returned .sync 0 :: [] := by decide
  rcases roundTrip_answered hvalid hout with ⟨-, hanswered⟩ | hneg
  · exact ⟨_, hout, hanswered, by decide, by decide⟩
  · cases hneg

end TinyPipewire.Core
