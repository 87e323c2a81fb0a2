import TinyPipewire.Core.RegistryIds
import TinyPipewire.Lib.Cells

/-!
# Listing the ports of a node

`pwf_pw_registry_list_ports` on the array it is given. The ports are counted as the cache has
them; the first of them are inserted by ordinal, and no later one takes their place.
-/

namespace TinyPipewire.Core

open TinyPipewire.Stream (SpaDirection)

namespace Registry

/-- The node's ports in the direction, in the order of the cache. -/
def portsOf (reg : Registry) (nodeId : UInt32) (dir : SpaDirection) : List PortEntry :=
  reg.ports.filter fun e => decide (e.nodeId = nodeId) && decide (e.direction = dir)

/-- One turn of the loop of `pwf_pw_registry_list_ports`: the count, and the cells of `out`,
which may be NULL. -/
def listPort (nodeId : UInt32) (dir : SpaDirection) (max : ℕ)
    (acc : ℕ × Option (ℕ → PortEntry)) (e : PortEntry) : ℕ × Option (ℕ → PortEntry) :=
  if e.nodeId ≠ nodeId ∨ e.direction ≠ dir then acc
  else
    let found := acc.1 + 1
    match acc.2 with
    | none => (found, none)
    | some out =>
      if max < found then (found, some out)
      else
        let moved := Cells.shiftWhile (fun d => decide (e.ordinal < d.ordinal)) (found - 1) out
        (found, some (Function.update moved.2 moved.1 e))

/-- `pwf_pw_registry_list_ports`, one cell after another. -/
def listPortsInto (reg : Registry) (nodeId : UInt32) (dir : SpaDirection)
    (out : Option (ℕ → PortEntry)) (max : ℕ) : ℕ × Option (ℕ → PortEntry) :=
  reg.ports.foldl (listPort nodeId dir max) (0, out)

/-- The ports are counted, no cell from `max` on is written, and those in front of it get the
ports of the lowest ordinals, in order. -/
def ListsLowest (reg : Registry) (nodeId : UInt32) (dir : SpaDirection) (out : ℕ → PortEntry)
    (max : ℕ) : Prop :=
  ∃ cells, reg.listPortsInto nodeId dir (some out) max =
      ((reg.portsOf nodeId dir).length, some cells) ∧
    (∀ i, max ≤ i → cells i = out i) ∧
    InsertBack.Lowest (fun e => e.ordinal.toNat) (reg.portsOf nodeId dir)
      (Cells.first (min (reg.portsOf nodeId dir).length max) cells)

/-- No port behind the first `max` has a lower ordinal than one of them. -/
def LowestFirst (reg : Registry) (nodeId : UInt32) (dir : SpaDirection) (max : ℕ) : Prop :=
  ∀ x ∈ (reg.portsOf nodeId dir).take max, ∀ y ∈ (reg.portsOf nodeId dir).drop max,
    x.ordinal.toNat ≤ y.ordinal.toNat

/-- One of the node's outputs has the id, and none has a lower ordinal. -/
def PicksLowest (reg : Registry) (nodeId : UInt32) (id : UInt32) : Prop :=
  ∃ e ∈ reg.portsOf nodeId .output, e.id = id ∧
    ∀ d ∈ reg.portsOf nodeId .output, e.ordinal.toNat ≤ d.ordinal.toNat

/-- One of the outputs that are considered has the lowest ordinal. -/
def LowestConsidered (reg : Registry) (nodeId : UInt32) : Prop :=
  ∃ e ∈ (reg.portsOf nodeId .output).take maxTargetPorts,
    ∀ d ∈ reg.portsOf nodeId .output, e.ordinal.toNat ≤ d.ordinal.toNat

end Registry

variable {reg : Registry} {nodeId : UInt32} {dir : SpaDirection} {max : ℕ}
  {out : ℕ → PortEntry}

/-! ### The array -/

/-- The loop over some ports has counted and inserted as the list of them has it. -/
structure Listed (max : ℕ) (out : ℕ → PortEntry) (acc : ℕ × Option (ℕ → PortEntry))
    (listed : ℕ × List PortEntry) : Prop where
  count : acc.1 = listed.1
  cells : ∃ cells, acc.2 = some cells ∧ Cells.first (min listed.1 max) cells = listed.2 ∧
    ∀ i, max ≤ i → cells i = out i

theorem listed_step {acc : ℕ × Option (ℕ → PortEntry)} {listed : ℕ × List PortEntry}
    (h : Listed max out acc listed) (e : PortEntry) :
    Listed max out (Registry.listPort nodeId dir max acc e)
      (InsertBack.collect (fun e => e.ordinal.toNat)
        (fun e => decide (e.nodeId = nodeId) && decide (e.direction = dir)) max listed e) := by
  obtain ⟨hcount, cells, hsome, hfirst, hframe⟩ := h
  unfold Registry.listPort InsertBack.collect
  by_cases hskip : e.nodeId ≠ nodeId ∨ e.direction ≠ dir
  · rw [if_pos hskip, if_neg (by simpa [or_iff_not_imp_left] using hskip)]
    exact ⟨hcount, cells, hsome, hfirst, hframe⟩
  · obtain ⟨hn, hd⟩ : e.nodeId = nodeId ∧ e.direction = dir := by simpa using hskip
    rw [if_neg hskip, if_pos (by simp [hn, hd]), hsome, hcount]
    dsimp only
    by_cases hfull : max < listed.1 + 1
    · rw [if_pos hfull, if_pos hfull]
      refine ⟨rfl, cells, rfl, ?_, hframe⟩
      rw [← hfirst]
      congr 1
      dsimp only
      omega
    · rw [if_neg hfull, if_neg hfull, Nat.add_sub_cancel]
      refine ⟨rfl, _, rfl, ?_, ?_⟩
      · have hmin : min (listed.1 + 1) max = listed.1 + 1 := by omega
        have hold : min listed.1 max = listed.1 := by omega
        rw [hold] at hfirst
        dsimp only
        rw [hmin, Cells.first_shiftWhile, hfirst]
        rfl
      · intro i hi
        obtain ⟨hmoved, hle, -, -⟩ := Cells.shiftWhile_spec
          (p := fun d : PortEntry => decide (e.ordinal < d.ordinal)) listed.1 cells
        rw [Function.update_of_ne (by omega), hmoved, Cells.shift_frame (by omega)]
        exact hframe i hi

theorem listed_foldl (l : List PortEntry) {acc : ℕ × Option (ℕ → PortEntry)}
    {listed : ℕ × List PortEntry} (h : Listed max out acc listed) :
    Listed max out (l.foldl (Registry.listPort nodeId dir max) acc)
      (l.foldl (InsertBack.collect (fun e => e.ordinal.toNat)
        (fun e => decide (e.nodeId = nodeId) && decide (e.direction = dir)) max) listed) := by
  induction l generalizing acc listed with
  | nil => exact h
  | cons e l ih => exact ih (listed_step h e)

/-- The array gets what the listing of the cache has, and nothing behind `max`. -/
theorem listPortsInto_some (reg : Registry) (nodeId : UInt32) (dir : SpaDirection)
    (out : ℕ → PortEntry) (max : ℕ) :
    ∃ cells, reg.listPortsInto nodeId dir (some out) max =
        ((reg.portsOf nodeId dir).length, some cells) ∧
      (∀ i, max ≤ i → cells i = out i) ∧
      Cells.first (min (reg.portsOf nodeId dir).length max) cells =
        InsertBack.sort (fun e => e.ordinal.toNat) ((reg.portsOf nodeId dir).take max) := by
  have hstart : Listed max out (0, some out) (0, []) :=
    ⟨rfl, out, rfl, by simp [Cells.first], fun _ _ => rfl⟩
  have hall : Listed max out (reg.listPortsInto nodeId dir (some out) max)
      (reg.listPorts nodeId dir max) := listed_foldl reg.ports hstart
  rw [listPorts_eq] at hall
  obtain ⟨hcount, cells, hsome, hfirst, hframe⟩ := hall
  exact ⟨cells, Prod.ext hcount hsome, hframe, hfirst⟩

/-- Without an array the ports are only counted. -/
theorem listPortsInto_none (reg : Registry) (nodeId : UInt32) (dir : SpaDirection) (max : ℕ) :
    reg.listPortsInto nodeId dir none max = ((reg.portsOf nodeId dir).length, none) := by
  have hcount : ∀ (l : List PortEntry) (n : ℕ),
      l.foldl (Registry.listPort nodeId dir max) (n, none) =
        (n + (l.filter fun e => decide (e.nodeId = nodeId) && decide (e.direction = dir)).length,
          none) := by
    intro l
    induction l with
    | nil => exact fun n => rfl
    | cons e l ih =>
      intro n
      rw [List.foldl_cons, Registry.listPort]
      by_cases hskip : e.nodeId ≠ nodeId ∨ e.direction ≠ dir
      · rw [if_pos hskip, ih, List.filter_cons_of_neg]
        simpa [or_iff_not_imp_left] using hskip
      · obtain ⟨hn, hd⟩ : e.nodeId = nodeId ∧ e.direction = dir := by simpa using hskip
        rw [if_neg hskip, List.filter_cons_of_pos (by simp [hn, hd]), List.length_cons]
        dsimp only
        rw [ih]
        congr 1
        omega
  have h0 := hcount reg.ports 0
  rwa [Nat.zero_add] at h0

theorem listsLowest_iff : reg.ListsLowest nodeId dir out max ↔
    reg.LowestFirst nodeId dir max := by
  obtain ⟨cells, heq, hframe, hfirst⟩ := listPortsInto_some reg nodeId dir out max
  have hsort : InsertBack.Lowest (fun e : PortEntry => e.ordinal.toNat) (reg.portsOf nodeId dir)
      (Cells.first (min (reg.portsOf nodeId dir).length max) cells) ↔
        reg.LowestFirst nodeId dir max := by
    rw [hfirst]
    exact InsertBack.sort_take_lowest_iff
  rw [← hsort]
  constructor
  · rintro ⟨cells', heq', -, hlowest⟩
    rw [heq] at heq'
    obtain rfl : cells = cells' := Option.some.inj (Prod.mk.inj heq').2
    exact hlowest
  · intro hlowest
    exact ⟨cells, heq, hframe, hlowest⟩

/-! ### The port that is picked -/

/-- The port picked is the first of those listed, from the first registry that has any. -/
theorem pickFrom_eq (attempts : ℕ) (pre post : List Registry) (hpre : pre.length < attempts)
    (hnone : ∀ r ∈ pre, r.portsOf nodeId .output = [])
    (hsome : reg.portsOf nodeId .output ≠ []) :
    pickFrom nodeId attempts (pre ++ reg :: post) =
      (((InsertBack.sort (fun e => e.ordinal.toNat)
        ((reg.portsOf nodeId .output).take maxTargetPorts)).head?.map (·.id)).getD 0) := by
  induction pre generalizing attempts with
  | nil =>
    obtain ⟨k, rfl⟩ : ∃ k, attempts = k + 1 := ⟨attempts - 1, by simp at hpre; omega⟩
    have hpos : 0 < (reg.portsOf nodeId .output).length := List.length_pos_of_ne_nil hsome
    rw [List.nil_append, pickFrom, listPorts_eq]
    exact if_pos hpos
  | cons r pre ih =>
    rw [List.length_cons] at hpre
    obtain ⟨k, rfl⟩ : ∃ k, attempts = k + 1 := ⟨attempts - 1, by omega⟩
    have hzero : (r.portsOf nodeId .output).length = 0 := by
      rw [hnone r List.mem_cons_self]
      rfl
    rw [List.cons_append, pickFrom, listPorts_eq]
    dsimp only
    rw [show (r.ports.filter _).length = 0 from hzero, if_neg (by omega)]
    exact ih k (by omega) fun r hr => hnone r (List.mem_cons_of_mem _ hr)

/-- The first port listed is one of the lowest ordinal exactly if one of those considered is. -/
theorem head_lowest_iff (hd : reg.Distinct) (hsome : reg.portsOf nodeId .output ≠ []) :
    reg.PicksLowest nodeId (((InsertBack.sort (fun e : PortEntry => e.ordinal.toNat)
        ((reg.portsOf nodeId .output).take maxTargetPorts)).head?.map (·.id)).getD 0) ↔
      reg.LowestConsidered nodeId := by
  have hmem : ∀ e ∈ reg.portsOf nodeId .output, e ∈ reg.ports :=
    fun e he => List.mem_of_mem_filter he
  have hperm : (InsertBack.sort (fun e : PortEntry => e.ordinal.toNat)
      ((reg.portsOf nodeId .output).take maxTargetPorts)).Perm
        ((reg.portsOf nodeId .output).take maxTargetPorts) := InsertBack.sort_perm
  have hsorted : (InsertBack.sort (fun e : PortEntry => e.ordinal.toNat)
      ((reg.portsOf nodeId .output).take maxTargetPorts)).Pairwise
        fun x y => x.ordinal.toNat ≤ y.ordinal.toNat := InsertBack.sort_sorted
  cases hl : InsertBack.sort (fun e : PortEntry => e.ordinal.toNat)
      ((reg.portsOf nodeId .output).take maxTargetPorts) with
  | nil =>
    rw [hl] at hperm
    have hempty := hperm.symm.eq_nil
    rw [List.take_eq_nil_iff] at hempty
    rcases hempty with h | h
    · exact absurd h (by decide)
    · exact absurd h hsome
  | cons first rest =>
    rw [hl] at hperm hsorted
    have hfirst : first ∈ (reg.portsOf nodeId .output).take maxTargetPorts :=
      hperm.mem_iff.mp List.mem_cons_self
    change reg.PicksLowest nodeId first.id ↔ _
    constructor
    · rintro ⟨e, he, hid, hlow⟩
      have hfe : e = first :=
        hd.ports.eq_of_key (hmem e he) (hmem first (List.mem_of_mem_take hfirst)) hid
      exact ⟨first, hfirst, hfe ▸ hlow⟩
    · rintro ⟨e, he, hlow⟩
      refine ⟨first, List.mem_of_mem_take hfirst, rfl, ?_⟩
      intro d hdm
      refine Nat.le_trans ?_ (hlow d hdm)
      rcases List.mem_cons.mp (hperm.mem_iff.mpr he) with rfl | he
      · exact Nat.le_refl _
      · exact (List.pairwise_cons.mp hsorted).1 e he

/-- The ports are always counted, with or without an array, and no cell from `max` on is written.
The array gets the ports of the lowest ordinals exactly if they are the first the cache has, and
the port picked of a node, from the first of at most ten looks that finds any, is of its lowest
output ordinal exactly if one of the first 64 is. -/
theorem listing_lowest_iff (reg : Registry) (nodeId : UInt32) :
    (∀ dir max,
      reg.listPortsInto nodeId dir none max = ((reg.portsOf nodeId dir).length, none)) ∧
      (∀ dir out max,
        (∃ cells, reg.listPortsInto nodeId dir (some out) max =
            ((reg.portsOf nodeId dir).length, some cells) ∧ ∀ i, max ≤ i → cells i = out i) ∧
          (reg.ListsLowest nodeId dir out max ↔ reg.LowestFirst nodeId dir max)) ∧
      ∀ pre post : List Registry, reg.Distinct →
        pre.length < targetPortAttempts → (∀ r ∈ pre, r.portsOf nodeId .output = []) →
        reg.portsOf nodeId .output ≠ [] →
        (reg.PicksLowest nodeId (pickTargetPort nodeId (pre ++ reg :: post)) ↔
          reg.LowestConsidered nodeId) := by
  refine ⟨listPortsInto_none reg nodeId, ?_, ?_⟩
  · intro dir out max
    obtain ⟨cells, heq, hframe, -⟩ := listPortsInto_some reg nodeId dir out max
    exact ⟨⟨cells, heq, hframe⟩, listsLowest_iff⟩
  · intro pre post hd hpre hnone hsome
    rw [pickTargetPort, pickFrom_eq targetPortAttempts pre post hpre hnone hsome]
    exact head_lowest_iff hd hsome

/-- An output port of node 5. -/
def outputEntry (id ordinal : UInt32) : PortEntry := ⟨id, 5, .ofChars ['c'], .output, ordinal⟩

/-- Two outputs, the second first. -/
def secondFirst : Registry := ⟨[], 0, [outputEntry 10 1, outputEntry 11 0], 32⟩

/-- 65 outputs, the last first. -/
def crowded : Registry :=
  ⟨[], 0, (List.range 65).map fun i => outputEntry (.ofNat (i + 1)) (.ofNat (64 - i)), 128⟩

theorem listing_lowest_iff_two :
    (secondFirst.PicksLowest 5 (pickTargetPort 5 [.zeroed, secondFirst]) ↔
      secondFirst.LowestConsidered 5) := by
  have hdistinct : secondFirst.Distinct := by
    refine ⟨SwapRemove.keyed_nil, ?_, ?_⟩
    · decide
    · decide
  exact (listing_lowest_iff secondFirst 5).2.2 [.zeroed] [] hdistinct (by decide) (by decide)
    (by decide)

/-- An array for one port gets the first of the two, not the one of the lowest ordinal; and of
65 outputs the one picked is the lowest of the first 64. -/
theorem listing_misses_lowest :
    ¬ secondFirst.ListsLowest 5 .output (fun _ => outputEntry 0 0) 1 ∧
      pickTargetPort 5 [crowded] = 64 ∧ ¬ crowded.PicksLowest 5 64 ∧ crowded.PicksLowest 5 65 := by
  refine ⟨?_, by decide +kernel, ?_, ?_⟩
  · rw [listsLowest_iff]
    unfold Registry.LowestFirst
    decide
  · unfold Registry.PicksLowest
    decide +kernel
  · unfold Registry.PicksLowest
    decide +kernel

end TinyPipewire.Core
