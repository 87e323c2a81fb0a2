import TinyPipewire.Core.StreamObjects

/-!
# Any number of handles

Filters and streams are created, used and destroyed on any threads; the calls on one handle
follow one another, and everything the calls on different handles do interleaves. `pw_init` and
`pw_deinit` are what the handles have in common.
-/

namespace TinyPipewire.Core

open Custody (Event Held Crew Move Seen has theirs isUp)

/-- What may be called: nothing on a handle that is destroyed, no format setter fails on a stream
that runs, and it has memory for properties in which something is to be set. -/
def Handle.May : Option Handle → HandleOp → Prop
  | none, .createFilter _ => True
  | none, .createStream _ => True
  | some (.filter _), .filter _ => True
  | some (.stream s), .stream op => s.Prudent op
  | _, _ => False

instance (s : StreamHandle) : DecidablePred s.Prudent
  | .setConfig _ _ _ => inferInstanceAs (Decidable ((_ → _) ∧ (_ → _)))
  | .setTarget _ | .setRole _ | .start | .stop _ | .link _ | .unlink | .nodeRemoved | .sourceLost
  | .getTargetList _ | .getTargetVideoFormats _ | .destroy => inferInstanceAs (Decidable True)

instance : ∀ (r : Option Handle) (op : HandleOp), Decidable (Handle.May r op)
  | none, .createFilter _ | none, .createStream _ => inferInstanceAs (Decidable True)
  | none, .filter _ | none, .stream _ => inferInstanceAs (Decidable False)
  | some (.filter _), .filter _ => inferInstanceAs (Decidable True)
  | some (.filter _), .createFilter _ | some (.filter _), .createStream _
  | some (.filter _), .stream _ => inferInstanceAs (Decidable False)
  | some (.stream s), .stream op => inferInstanceAs (Decidable (s.Prudent op))
  | some (.stream _), .createFilter _ | some (.stream _), .createStream _
  | some (.stream _), .filter _ => inferInstanceAs (Decidable False)

def Handle.program : Custody.Program Obj (Option Handle) HandleOp where
  start := none
  May := Handle.May
  call := Handle.call

instance (r : Option Handle) (op : HandleOp) : Decidable (Handle.program.May r op) :=
  inferInstanceAs (Decidable (Handle.May r op))

/-- Between its calls a handle has what its record tells. -/
def Handle.Told : Option Handle → Held Obj → Prop
  | none, h => h = Custody.none
  | some (.filter f), h => f.Good ∧ h = f.holds
  | some (.stream s), h => s.Good ∧ h = s.holds

variable {h : Held Obj}

theorem FilterHandle.Leaves.told {r : Option FilterHandle × Events}
    (hr : FilterHandle.Leaves h r) : objRules.machine.Valid h r.2 ∧
      Handle.Told (r.1.map .filter) (objRules.machine.exec h r.2) := by
  obtain ⟨_ | f, es⟩ := r
  · exact hr
  · exact ⟨hr.2.1, hr.1, hr.2.2⟩

theorem StreamHandle.Leaves.told {r : Option StreamHandle × Events}
    (hr : StreamHandle.Leaves h r) : objRules.machine.Valid h r.2 ∧
      Handle.Told (r.1.map .stream) (objRules.machine.exec h r.2) := by
  obtain ⟨_ | s, es⟩ := r
  · exact hr
  · exact ⟨hr.2.1, hr.1, hr.2.2⟩

theorem Handle.call_told {r : Option Handle} {op : HandleOp} (htold : Handle.Told r h)
    (hmay : Handle.May r op) : objRules.machine.Valid h (Handle.call r op).2 ∧
      Handle.Told (Handle.call r op).1 (objRules.machine.exec h (Handle.call r op).2) := by
  cases r with
  | none =>
    obtain rfl : h = Custody.none := htold
    cases op with
    | createFilter t => exact (leaves_filterCreate t).told
    | createStream t => exact (leaves_streamCreate t).told
    | filter op => exact hmay.elim
    | stream op => exact hmay.elim
  | some handle =>
    cases handle with
    | filter f =>
      obtain ⟨hf, rfl⟩ : f.Good ∧ h = f.holds := htold
      cases op with
      | filter op => exact (hf.call op).told
      | createFilter t => exact hmay.elim
      | createStream t => exact hmay.elim
      | stream op => exact hmay.elim
    | stream s =>
      obtain ⟨hs, rfl⟩ : s.Good ∧ h = s.holds := htold
      cases op with
      | stream op => exact (hs.call hmay).told
      | createFilter t => exact hmay.elim
      | createStream t => exact hmay.elim
      | filter op => exact hmay.elim

/-- Every call keeps to the rules. -/
theorem program_obeys : Handle.program.Obeys objRules Handle.Told where
  start := rfl
  call := fun _ _ _ htold hmay => Handle.call_told htold hmay

/-- How far an object is from `pw_init`. -/
def Obj.height : Obj → ℕ
  | .share => 0
  | .memory => 1
  | .text _ | .pushLock | .loop | .props | .linkSet => 2
  | .thread | .lock | .context | .linkArray => 3
  | .core => 4
  | .hook | .node | .registry | .wire _ => 5
  | .query | .link _ => 6

theorem rests_share : objRules.RestsOn .share := by
  refine ⟨Obj.height, fun k hk => ?_⟩
  cases k <;> simp_all [objRules, Obj.needs, Obj.height]

/-! ### Everything the library does with PipeWire -/

variable {ι : Type} [DecidableEq ι] {xs : List (Move ι HandleOp)} {us vs : List (Seen ι Obj)}
  {i : ι} {e : Event Obj}

/-- All handles, none of them created. -/
abbrev world (ι : Type) [DecidableEq ι] : Machine (Crew ι Obj (Option Handle)) (Move ι HandleOp)
    (Seen ι Obj) := Handle.program.crew .share

abbrev worldStart (ι : Type) : Crew ι Obj (Option Handle) := Crew.start Handle.program

/-- Each thing a handle does is allowed by what it has then, and PipeWire is initialised. -/
theorem handle_events_allowed (hv : (world ι).Valid (worldStart ι) xs)
    (hw : (world ι).outs (worldStart ι) xs = us ++ .did i e :: vs) :
    objRules.Allows (has i objRules us) e ∧ isUp us = true :=
  Custody.did_sound rests_share program_obeys hv hw

/-- A named filter is created and destroyed. -/
def filterOnce : List (Move Bool HandleOp) :=
  .call true (.createFilter ⟨true, true, true, true, ⟨true, true, true, true, true⟩, true⟩) ::
    (List.replicate 17 (.step true) ++
      .call true (.filter .destroy) :: List.replicate 15 (.step true))

/-- The last thing it does is to give its count back. -/
theorem handle_events_allowed_last :
    let us := ((world Bool).outs (worldStart Bool) filterOnce).take 32
    objRules.Allows (has true objRules us) (.drop .share) ∧ isUp us = true := by
  intro us
  have hv : (world Bool).Valid (worldStart Bool) filterOnce := by decide
  have hw : (world Bool).outs (worldStart Bool) filterOnce =
      us ++ .did true (.drop .share) :: [.down] := by decide
  exact handle_events_allowed hv hw

/-- PipeWire is initialised when it is not, deinitialised when it is and no handle has anything
left, and initialised exactly as long as some handle counts. -/
theorem pw_init_counted (hv : (world ι).Valid (worldStart ι) xs) :
    (∀ us vs, (world ι).outs (worldStart ι) xs = us ++ .up :: vs → isUp us = false) ∧
    (∀ us vs, (world ι).outs (worldStart ι) xs = us ++ .down :: vs →
      isUp us = true ∧ ∀ i, has i objRules us = Custody.none) ∧
    (isUp ((world ι).outs (worldStart ι) xs) = true ↔
      ∃ i, has i objRules ((world ι).outs (worldStart ι) xs) .share = true) :=
  ⟨fun _ _ hw => Custody.up_sound program_obeys hv hw,
    fun _ _ hw => Custody.down_sound rests_share program_obeys hv hw,
    Custody.isUp_iff program_obeys hv⟩

/-- A stream and a filter are created at the same time and destroyed at the same time, and then a
filter begins again. -/
def overlapping : List (Move Bool HandleOp) :=
  .call false (.createStream ⟨true, true, ⟨true, true, true, true, true⟩⟩) ::
    .call true (.createFilter ⟨true, true, true, true, ⟨true, true, true, true, true⟩, true⟩) ::
    ((List.replicate 12 [.step false, .step true]).flatten ++ List.replicate 5 (.step true) ++
      .call false (.stream .destroy) :: .call true (.filter .destroy) ::
      ((List.replicate 8 [.step true, .step false]).flatten ++ List.replicate 7 (.step true) ++
        [.call true (.createFilter ⟨true, true, true, true, ⟨true, true, true, true, true⟩, true⟩),
          .step true]))

/-- The first of them brings PipeWire up, the last takes it down, and the third brings it up
again. -/
theorem pw_init_counted_overlapping :
    let ws := (world Bool).outs (worldStart Bool) overlapping
    ws.count .up = 2 ∧ ws.count .down = 1 ∧
      (∀ us vs, ws = us ++ .up :: vs → isUp us = false) ∧
      (∀ us vs, ws = us ++ .down :: vs → isUp us = true ∧ ∀ i, has i objRules us = Custody.none) ∧
      (isUp ws = true ↔ ∃ i, has i objRules ws .share = true) := by
  intro ws
  have hv : (world Bool).Valid (worldStart Bool) overlapping := by decide
  exact ⟨by decide, by decide, pw_init_counted hv⟩

/-- A handle that is destroyed, or was never created, has dropped everything it made, each thing
once. -/
theorem handle_leaves_nothing (hv : (world ι).Valid (worldStart ι) xs)
    (hidle : (((world ι).exec (worldStart ι) xs).seats i).pending = [])
    (hgone : (((world ι).exec (worldStart ι) xs).seats i).record = none) (k : Obj) :
    Ledger.Settled
      ((theirs i ((world ι).outs (worldStart ι) xs)).filterMap Event.entry) k := by
  refine Custody.settled_idle program_obeys hv ?_ k
  have htold := Custody.told_idle program_obeys hv hidle
  rw [hgone] at htold
  exact htold

theorem handle_leaves_nothing_filter :
    Ledger.Settled
      ((theirs true ((world Bool).outs (worldStart Bool) filterOnce)).filterMap Event.entry)
      .context := by
  have hv : (world Bool).Valid (worldStart Bool) filterOnce := by decide
  exact handle_leaves_nothing hv (by decide) (by decide) .context

end TinyPipewire.Core
