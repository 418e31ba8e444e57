import Grommet.Topology.Model
import Mathlib.Algebra.Order.Group.Nat
import Mathlib.Data.List.Flatten
import Mathlib.Data.List.Nodup
import Mathlib.Data.List.Pairwise

/-!
# A plan never shares a core

The cores of a plan are the best of the machine's, as many as its budget, in two parts: reactors
take the first processing unit of each core of the first part, and workers take units of the
second.  Since no two cores share a unit, no CPU is assigned twice; since the cores are sorted,
no reactor is on an efficiency core while a worker is on a performance core.
-/

open Checked

namespace Grommet.Topology

/-- Two cores without a processing unit in common. -/
def Core.Apart (c d : Core) : Prop := ∀ pu ∈ c.pus, pu ∉ d.pus

instance (c d : Core) : Decidable (c.Apart d) :=
  inferInstanceAs (Decidable (∀ pu ∈ c.pus, pu ∉ d.pus))

theorem Core.first_mem (c : Core) :
  c.first ∈ c.pus
  := List.head_mem _

instance : Std.Symm Core.Apart := ⟨fun _ _ h pu hd hc => h pu hc hd⟩

/-- The core of a processing unit. -/
theorem Core.unique {cores : List Core} (h : cores.Pairwise Core.Apart) {c d : Core} {pu : ℕ}
    (hc : c ∈ cores) (hd : d ∈ cores) (hpc : pu ∈ c.pus) (hpd : pu ∈ d.pus) :
  c = d
  := by
  by_contra hne
  exact h.forall hc hd hne pu hpc hpd

/-! ### The budget -/

/-- There is a core to plan for, and no more than are left or allowed. -/
theorem budget_bounds {visible : ℕ} (workload : Workload) (quota : Option Quota)
    (hvisible : 0 < visible) :
  0 < (budget visible workload quota).1 ∧ (budget visible workload quota).1 ≤ visible ∧
    (budget visible workload quota).1 ≤ max 1 (visible - workload.reserveCores) ∧
    ∀ q ∈ quota, (budget visible workload quota).1 ≤ q.usableCores
  := by
  have hfirst : max (visible - workload.reserveCores) 1 ≤ visible := by omega
  cases quota with
  | none =>
    refine ⟨by simp [budget], hfirst, by simp [budget, max_comm], ?_⟩
    rintro q ⟨⟩
  | some quota =>
    have husable : 0 < quota.usableCores := by
      simp [Quota.usableCores]
    simp only [budget]
    split
    · rename_i hlt
      simp only [Option.mem_some_iff, forall_eq', le_refl, and_true]
      omega
    · rename_i hge
      simp only [Option.mem_some_iff, forall_eq']
      omega

/-- The compute share leaves a core for a reactor, whatever the rounding yields. -/
theorem offloadShare_lt {budget : ℕ} (fraction : Fraction) (hbudget : 0 < budget) :
  ∃ share, offloadShare budget fraction = .ok share ∧ share < budget
  := by
  unfold offloadShare
  split
  · exact ⟨0, rfl, hbudget⟩
  · rename_i hcases
    have htwo : 1 ≤ budget - 1 := by omega
    refine ⟨max 1 (min (fraction.rounded budget) (budget - 1)), ?_, by omega⟩
    simp [sub_of_le (show 1 ≤ budget by omega), clamp, assert, htwo]

/-! ### Sorting -/

theorem perm_sortCores (cores : List Core) :
  (sortCores cores).Perm cores
  := List.perm_insertionSort _ _

/-- Sorted cores are ordered by their keys. -/
theorem pairwise_sortCores (cores : List Core) :
  (sortCores cores).Pairwise fun c d => c.key ≤ d.key
  := by
  have htotal : Std.Total fun c d : Core => c.key ≤ d.key := ⟨fun c d => le_total c.key d.key⟩
  have htrans : IsTrans Core fun c d : Core => c.key ≤ d.key := ⟨fun _ _ _ => le_trans⟩
  exact List.pairwise_insertionSort _ _

/-- No efficiency core comes before a performance core. -/
theorem performance_of_key_le {c d : Core} (h : c.key ≤ d.key) (hc : c.performance = false) :
  d.performance = false
  := by
  have hle : (!c.performance) ≤ !d.performance := by
    rcases Prod.Lex.le_iff.mp h with hlt | ⟨heq, -⟩
    · exact hlt.le
    · exact heq.le
  rw [hc] at hle
  cases hd : d.performance with
  | false => rfl
  | true =>
    rw [hd] at hle
    exact absurd hle (by decide)

/-! ### Pools -/

/-- The CPUs of all pools together. -/
def poolCpus (pools : List OffloadPool) : List ℕ := pools.flatMap OffloadPool.cpus

/-- New workers join those there are. -/
theorem perm_addWorkers (node : ℕ) (cpus : List ℕ) (pools : List OffloadPool) :
  (poolCpus (addWorkers node cpus pools)).Perm (poolCpus pools ++ cpus)
  := by
  induction pools with
  | nil => simp [addWorkers, poolCpus]
  | cons pool pools ih =>
    unfold poolCpus at ih ⊢
    rw [addWorkers]
    split
    · simp only [List.flatMap_cons, List.append_assoc]
      exact List.perm_append_comm.append_left _
    · simp only [List.flatMap_cons, List.append_assoc]
      exact ih.append_left _

/-- The nodes that have a pool, and the one that has new workers. -/
theorem mem_nodes_addWorkers {node : ℕ} {cpus : List ℕ} {pools : List OffloadPool} {n : ℕ} :
  n ∈ (addWorkers node cpus pools).map OffloadPool.node ↔
    n = node ∨ n ∈ pools.map OffloadPool.node
  := by
  induction pools with
  | nil => simp [addWorkers]
  | cons pool pools ih =>
    rw [addWorkers]
    split
    · rename_i heq
      simp only [List.map_cons, List.mem_cons, heq]
      tauto
    · simp only [List.map_cons, List.mem_cons, ih]
      tauto

/-- No node gets a second pool. -/
theorem nodup_addWorkers {node : ℕ} {cpus : List ℕ} {pools : List OffloadPool}
    (h : (pools.map OffloadPool.node).Nodup) :
  ((addWorkers node cpus pools).map OffloadPool.node).Nodup
  := by
  induction pools with
  | nil => simp [addWorkers]
  | cons pool pools ih =>
    rw [List.map_cons, List.nodup_cons] at h
    rw [addWorkers]
    split
    · rw [List.map_cons, List.nodup_cons]
      exact h
    · rename_i hne
      rw [List.map_cons, List.nodup_cons, mem_nodes_addWorkers]
      exact ⟨fun hmem => hmem.elim hne h.1, ih h.2⟩

/-- A worker was in a pool of its node before, or is new at the node. -/
theorem mem_addWorkers {node : ℕ} {cpus : List ℕ} {pools : List OffloadPool} {pool : OffloadPool}
    {cpu : ℕ} (hpool : pool ∈ addWorkers node cpus pools) (hcpu : cpu ∈ pool.cpus) :
  (∃ p ∈ pools, p.node = pool.node ∧ cpu ∈ p.cpus) ∨ pool.node = node ∧ cpu ∈ cpus
  := by
  induction pools with
  | nil =>
    rw [addWorkers, List.mem_singleton] at hpool
    subst hpool
    exact Or.inr ⟨rfl, hcpu⟩
  | cons first pools ih =>
    rw [addWorkers] at hpool
    split at hpool
    · rename_i heq
      rcases List.mem_cons.mp hpool with rfl | hmem
      · rcases List.mem_append.mp hcpu with hold | hnew
        · exact Or.inl ⟨first, by simp, rfl, hold⟩
        · exact Or.inr ⟨heq, hnew⟩
      · exact Or.inl ⟨pool, by simp [hmem], rfl, hcpu⟩
    · rcases List.mem_cons.mp hpool with rfl | hmem
      · exact Or.inl ⟨pool, by simp, rfl, hcpu⟩
      · rcases ih hmem with ⟨p, hp, hnode, hmem⟩ | hnew
        · exact Or.inl ⟨p, by simp [hp], hnode, hmem⟩
        · exact Or.inr hnew

/-- The pools of some cores: their workers, one pool for a node, each worker at its node. -/
structure Pools (workload : Workload) (cores : List Core) (pools : List OffloadPool) : Prop where
  perm : (poolCpus pools).Perm (cores.flatMap (workers workload))
  nodup : (pools.map OffloadPool.node).Nodup
  home : ∀ pool ∈ pools, ∀ cpu ∈ pool.cpus,
    ∃ c ∈ cores, c.node = pool.node ∧ cpu ∈ workers workload c

/-- The pools of one core more. -/
theorem Pools.add {workload : Workload} {cores : List Core} {pools : List OffloadPool}
    (h : Pools workload cores pools) (core : Core) :
  Pools workload (cores ++ [core]) (addWorkers core.node (workers workload core) pools)
  := by
  constructor
  · rw [List.flatMap_append, List.flatMap_singleton]
    exact (perm_addWorkers _ _ _).trans (h.perm.append_right _)
  · exact nodup_addWorkers h.nodup
  · intro pool hpool cpu hcpu
    rcases mem_addWorkers hpool hcpu with ⟨p, hp, hnode, hmem⟩ | ⟨hnode, hmem⟩
    · obtain ⟨c, hc, hcnode, hcmem⟩ := h.home p hp cpu hmem
      exact ⟨c, by simp [hc], hcnode.trans hnode, hcmem⟩
    · exact ⟨core, by simp, hnode.symm, hmem⟩

theorem offloadPools_pools (workload : Workload) (cores : List Core) :
  Pools workload cores (offloadPools workload cores)
  := by
  induction cores using List.reverseRecOn with
  | nil =>
    constructor
    · exact List.Perm.refl _
    · exact List.nodup_nil
    · rintro pool ⟨⟩
  | append_singleton cores core ih =>
    rw [offloadPools, List.foldl_append]
    exact ih.add core

/-- Workers take processing units of their core. -/
theorem workers_sublist (workload : Workload) (core : Core) :
  (workers workload core).Sublist core.pus
  := by
  rw [workers]
  split
  · rw [List.singleton_sublist]
    exact core.first_mem
  · exact List.Sublist.refl _

/-! ### Sound layouts -/

/-- The CPUs of the shards and of the workers. -/
def assigned (shards : List ShardPlacement) (offload : List OffloadPool) : List ℕ :=
  shards.map ShardPlacement.cpu ++ poolCpus offload

/-- The cores of which some processing unit is assigned. -/
def usedCores (cores : List Core) (shards : List ShardPlacement) (offload : List OffloadPool) :
    List Core :=
  cores.filter fun core => core.pus.any fun pu => pu ∈ assigned shards offload

/-- A layout that can run and shares no core. -/
structure Sound (cores : List Core) (workload : Workload) (quota : Option Quota)
    (shards : List ShardPlacement) (offload : List OffloadPool) : Prop where
  runs : shards ≠ []
  reserves : (usedCores cores shards offload).length ≤
    max 1 (cores.length - workload.reserveCores)
  withinQuota : ∀ q ∈ quota, (usedCores cores shards offload).length ≤ q.usableCores
  once : (assigned shards offload).Nodup
  placed : ∀ shard ∈ shards, ∃ c ∈ cores, shard.cpu ∈ c.pus ∧ c.node = shard.node
  atHome : ∀ pool ∈ offload, ∀ cpu ∈ pool.cpus, ∃ c ∈ cores, cpu ∈ c.pus ∧ c.node = pool.node
  onePool : (offload.map OffloadPool.node).Nodup
  isolated : ∀ shard ∈ shards, ∀ c ∈ cores, shard.cpu ∈ c.pus →
    ∀ cpu ∈ poolCpus offload, cpu ∉ c.pus
  best : ∀ shard ∈ shards, ∀ c ∈ cores, shard.cpu ∈ c.pus → c.performance = false →
    ∀ cpu ∈ poolCpus offload, ∀ d ∈ cores, cpu ∈ d.pus → d.performance = false

section

variable {cores front back rest : List Core} {workload : Workload}

/-- The reactors of some cores. -/
def reactors (cores : List Core) : List ShardPlacement :=
  cores.map fun core => ⟨core.first, core.node⟩

/-- A worker's CPU is a processing unit of a core that was given to compute. -/
theorem mem_poolCpus {cpu : ℕ} (h : cpu ∈ poolCpus (offloadPools workload back)) :
  ∃ d ∈ back, cpu ∈ d.pus
  := by
  rw [(offloadPools_pools workload back).perm.mem_iff, List.mem_flatMap] at h
  obtain ⟨d, hd, hmem⟩ := h
  exact ⟨d, hd, (workers_sublist workload d).subset hmem⟩

/-- An assigned CPU is a processing unit of a core that is planned for. -/
theorem mem_assigned {cpu : ℕ}
    (h : cpu ∈ assigned (reactors front) (offloadPools workload back)) :
  ∃ c ∈ front ++ back, cpu ∈ c.pus
  := by
  rcases List.mem_append.mp h with hshard | hpool
  · rw [reactors, List.map_map, List.mem_map] at hshard
    obtain ⟨c, hc, rfl⟩ := hshard
    exact ⟨c, by simp [hc], c.first_mem⟩
  · obtain ⟨d, hd, hmem⟩ := mem_poolCpus hpool
    exact ⟨d, by simp [hd], hmem⟩

/-- No CPU is assigned twice when the cores are apart. -/
theorem nodup_assigned (h : (front ++ back).Pairwise Core.Apart) :
  (assigned (reactors front) (offloadPools workload back)).Nodup
  := by
  have hall : ((front ++ back).flatMap Core.pus).Nodup := by
    rw [List.nodup_flatMap]
    refine ⟨fun c _ => c.nodup, h.imp ?_⟩
    intro c d hcd
    exact hcd
  have hperm : (assigned (reactors front) (offloadPools workload back)).Perm
      (front.map Core.first ++ back.flatMap (workers workload)) := by
    rw [assigned, reactors, List.map_map]
    exact (offloadPools_pools workload back).perm.append_left _
  have hsub : (front.map Core.first ++ back.flatMap (workers workload)).Sublist
      ((front ++ back).flatMap Core.pus) := by
    rw [List.flatMap_append]
    apply List.Sublist.append
    · rw [List.map_eq_flatMap]
      apply List.Sublist.flatMap_right
      intro c _
      rw [List.singleton_sublist]
      exact c.first_mem
    · apply List.Sublist.flatMap_right
      intro d _
      exact workers_sublist workload d
  rw [hperm.nodup_iff]
  exact List.Nodup.sublist hsub hall

/-- The cores with an assigned CPU are among those that are planned for. -/
theorem usedCores_length (h : cores.Pairwise Core.Apart)
    (hperm : (front ++ back ++ rest).Perm cores) :
  (usedCores cores (reactors front) (offloadPools workload back)).length ≤ (front ++ back).length
  := by
  have hunused : rest.filter (fun core => core.pus.any fun pu =>
      pu ∈ assigned (reactors front) (offloadPools workload back)) = [] := by
    rw [List.filter_eq_nil_iff]
    intro d hd hany
    rw [List.any_eq_true] at hany
    obtain ⟨pu, hpu, hmem⟩ := hany
    obtain ⟨c, hc, hpc⟩ := mem_assigned (of_decide_eq_true hmem)
    have hapart := (hperm.pairwise_iff (fun h => Std.Symm.symm _ _ h)).mpr h
    exact (List.pairwise_append.mp hapart).2.2 c hc d hd pu hpc hpu
  rw [usedCores, ← (hperm.filter _).length_eq, List.filter_append, hunused, List.append_nil]
  exact List.length_filter_le _ _

/-- Sorted cores that are apart, split in two within the budget, make a sound layout. -/
theorem sound_of_split {quota : Option Quota} (h : cores.Pairwise Core.Apart)
    (hperm : (front ++ back ++ rest).Perm cores) (hfront : front ≠ [])
    (hsorted : ∀ c ∈ front, ∀ d ∈ back, c.key ≤ d.key)
    (hreserve : (front ++ back).length ≤ max 1 (cores.length - workload.reserveCores))
    (hquota : ∀ q ∈ quota, (front ++ back).length ≤ q.usableCores) :
  Sound cores workload quota (reactors front) (offloadPools workload back)
  := by
  have hapart := (hperm.pairwise_iff (fun h => Std.Symm.symm _ _ h)).mpr h
  have hkept := (List.pairwise_append.mp hapart).1
  have hbetween := (List.pairwise_append.mp hkept).2.2
  have hmem : ∀ c ∈ front ++ back, c ∈ cores := by
    intro c hc
    exact hperm.subset (List.mem_append_left _ hc)
  have hshard : ∀ shard ∈ reactors front, ∀ c ∈ cores, shard.cpu ∈ c.pus → c ∈ front := by
    intro shard hs c hc hpc
    obtain ⟨c', hc', rfl⟩ := List.mem_map.mp hs
    rw [Core.unique h hc (hmem c' (by simp [hc'])) hpc c'.first_mem]
    exact hc'
  have hworker : ∀ cpu ∈ poolCpus (offloadPools workload back), ∀ d ∈ cores, cpu ∈ d.pus →
      d ∈ back := by
    intro cpu hcpu d hd hpd
    obtain ⟨d', hd', hpd'⟩ := mem_poolCpus hcpu
    rw [Core.unique h hd (hmem d' (by simp [hd'])) hpd hpd']
    exact hd'
  constructor
  · simpa [reactors] using hfront
  · exact (usedCores_length h hperm).trans hreserve
  · intro q hq
    exact (usedCores_length h hperm).trans (hquota q hq)
  · exact nodup_assigned hkept
  · intro shard hs
    obtain ⟨c, hc, rfl⟩ := List.mem_map.mp hs
    exact ⟨c, hmem c (by simp [hc]), c.first_mem, rfl⟩
  · intro pool hpool cpu hcpu
    obtain ⟨d, hd, hnode, hmemw⟩ := (offloadPools_pools workload back).home pool hpool cpu hcpu
    exact ⟨d, hmem d (by simp [hd]), (workers_sublist workload d).subset hmemw, hnode⟩
  · exact (offloadPools_pools workload back).nodup
  · intro shard hs c hc hpc cpu hcpu hpu
    exact hbetween c (hshard shard hs c hc hpc) c (hworker cpu hcpu c hc hpu) cpu hpu hpu
  · intro shard hs c hc hpc heff cpu hcpu d hd hpd
    have hle := hsorted c (hshard shard hs c hc hpc) d (hworker cpu hcpu d hd hpd)
    exact performance_of_key_le hle heff

end

/-- A layout of cores that are apart is sound. -/
theorem layOut_sound {cores : List Core} (h : cores.Pairwise Core.Apart) (hne : cores ≠ [])
    (hybrid : Bool) (workload : Workload) (quota : Option Quota) :
  ∃ shards offload notes, layOut cores hybrid workload quota = .ok (shards, offload, notes) ∧
    Sound cores workload quota shards offload
  := by
  have hlength := (perm_sortCores cores).length_eq
  have hvisible : 0 < (sortCores cores).length := by
    rw [hlength]
    exact List.length_pos_iff.mpr hne
  obtain ⟨hpos, hle, hreserve, hquota⟩ := budget_bounds workload quota hvisible
  obtain ⟨share, hshare, hlt⟩ := offloadShare_lt workload.computeFraction hpos
  set b := (budget (sortCores cores).length workload quota).1 with hb
  have hkept : ((sortCores cores).take b).length = b := by
    rw [List.length_take]
    omega
  set front := ((sortCores cores).take b).take (b - share) with hfront
  set back := ((sortCores cores).take b).drop (b - share) with hback
  have hparts : front ++ back = (sortCores cores).take b := List.take_append_drop _ _
  have hsplit : splitAt ((sortCores cores).take b) (b - share) = .ok (front, back) := by
    simp [splitAt, assert, hle, hfront, hback]
  have hperm : (front ++ back ++ (sortCores cores).drop b).Perm cores := by
    rw [hparts, List.take_append_drop]
    exact perm_sortCores cores
  obtain ⟨notes, hlayout⟩ : ∃ notes, layOut cores hybrid workload quota =
      .ok (reactors front, offloadPools workload back, notes) := by
    simp only [layOut, ← hb, hshare, ok_bind, sub_of_le hlt.le, hsplit]
    exact ⟨_, rfl⟩
  refine ⟨_, _, notes, hlayout, ?_⟩
  apply sound_of_split h hperm
  · rw [← List.length_pos_iff, hfront, List.length_take, hkept]
    omega
  · have hpairs := (pairwise_sortCores cores).sublist (List.take_sublist b _)
    rw [← hparts] at hpairs
    exact (List.pairwise_append.mp hpairs).2.2
  · rw [hparts, hkept, ← hlength]
    exact hreserve
  · rw [hparts, hkept]
    exact hquota

/-- A plan without knowledge of the machine has a reactor and uses each CPU once. -/
theorem fromCpuCount_disjoint (debugAssertions : Bool) (visible : ℕ) (workload : Workload) :
  ∃ plan, fromCpuCount debugAssertions visible workload = .ok plan ∧ plan.shards ≠ [] ∧
    (assigned plan.shards plan.offload).Nodup ∧
    ∀ cpu ∈ assigned plan.shards plan.offload, cpu < max visible 1
  := by
  set budget := max (max visible 1 - workload.reserveCores) 1 with hbudget
  set compute := min (workload.computeFraction.rounded budget) (budget - 1) with hcompute
  have hcompute_lt : compute < budget := by omega
  have hpools : poolCpus (if compute = 0 then [] else
      [⟨0, List.range' (budget - compute) compute⟩]) = List.range' (budget - compute) compute := by
    split
    · rename_i hzero
      simp [hzero, poolCpus]
    · simp [poolCpus]
  have hassigned : assigned ((List.range (budget - compute)).map fun cpu => ⟨cpu, 0⟩)
      (if compute = 0 then [] else [⟨0, List.range' (budget - compute) compute⟩]) =
      List.range budget := by
    have happend := @List.range'_append_1 0 (budget - compute) compute
    rw [Nat.zero_add, Nat.sub_add_cancel hcompute_lt.le] at happend
    rw [assigned, hpools, List.map_map, List.range_eq_range', List.range_eq_range', ← happend]
    congr 1
    exact List.map_id _
  obtain ⟨notes, hplan⟩ : ∃ notes, fromCpuCount debugAssertions visible workload = .ok {
      shards := (List.range (budget - compute)).map fun cpu => ⟨cpu, 0⟩
      offload := if compute = 0 then [] else [⟨0, List.range' (budget - compute) compute⟩]
      canBindCpu := false
      canBindMemory := false
      notes := notes } := by
    simp only [fromCpuCount, ← hbudget, ← hcompute, sub_of_le hcompute_lt.le, ok_bind]
    exact ⟨_, rfl⟩
  refine ⟨_, hplan, ?_, ?_, ?_⟩
  · rw [Ne, List.map_eq_nil_iff, List.range_eq_nil]
    omega
  · rw [hassigned]
    exact List.nodup_range
  · intro cpu hcpu
    rw [hassigned, List.mem_range] at hcpu
    omega

/-- A plan can run and never shares a core.  For cores that are apart, `planShared` places a
shard, keeps to its reservation and its quota, and assigns each CPU once and no unit of a shard's
core to a worker; the plan from a CPU count alone places a shard and assigns each CPU once, too. -/
theorem plan_never_shares_a_core (debugAssertions : Bool) (cores : List Core)
    (hne : cores ≠ []) (hapart : cores.Pairwise Core.Apart) (workload : Workload)
    (quota : Option Quota) :
  (∀ hybrid, ∃ shards offload notes,
      layOut cores hybrid workload quota = .ok (shards, offload, notes) ∧
      Sound cores workload quota shards offload) ∧
    (∀ machine, physicalCores machine = cores →
      ∃ plan, planShared debugAssertions machine workload quota = .ok plan ∧
        Sound cores workload quota plan.shards plan.offload) ∧
    ∀ visible, ∃ plan, fromCpuCount debugAssertions visible workload = .ok plan ∧
      plan.shards ≠ [] ∧ (assigned plan.shards plan.offload).Nodup ∧
      ∀ cpu ∈ assigned plan.shards plan.offload, cpu < max visible 1
  := by
  refine ⟨fun hybrid => layOut_sound hapart hne hybrid workload quota, ?_, ?_⟩
  · rintro machine rfl
    obtain ⟨shards, offload, notes, hlayout, hsound⟩ :=
      layOut_sound hapart hne (performanceCpus machine).isSome workload quota
    obtain ⟨plan, hplan, rfl, rfl⟩ : ∃ plan,
        planShared debugAssertions machine workload quota = .ok plan ∧
        plan.shards = shards ∧ plan.offload = offload := by
      rw [planShared, hlayout]
      exact ⟨_, rfl, rfl, rfl⟩
    exact ⟨plan, hplan, hsound⟩
  · intro visible
    exact fromCpuCount_disjoint debugAssertions visible workload

/-- A hybrid machine: two performance cores with siblings, and two efficiency cores. -/
def hybridMachine : Machine where
  cpuset := {0, 1, 2, 3, 4, 5}
  coreObjects := [⟨some {4}, none⟩, ⟨some {0, 1}, none⟩, ⟨some {5}, none⟩, ⟨some {2, 3}, none⟩]
  puObjects := []
  numaNodeObjects := [⟨some {0, 1, 4}, some 0⟩, ⟨some {2, 3, 5}, some 1⟩]
  cpuKinds := some [⟨{4, 5}, some 0⟩, ⟨{0, 1, 2, 3}, some 1⟩]
  cpuBinding := some true
  memoryBinding := none

/-- Half of the work is compute. -/
def halfCompute : Workload where
  computeFraction := ⟨false, fun cores => (cores + 1) / 2⟩
  reserveCores := 0
  isolateSmt := false
  preferPerformanceCores := true

/-- Reactors take the performance cores, and each node has a pool of its own. -/
example :
  planShared false hybridMachine halfCompute none = .ok {
    shards := [⟨0, 0⟩, ⟨2, 1⟩]
    offload := [⟨0, [4]⟩, ⟨1, [5]⟩]
    canBindCpu := true
    canBindMemory := false
    notes := [] }
  := by decide

theorem plan_never_shares_a_hybrid_core :
  (∀ hybrid, ∃ shards offload notes,
      layOut (physicalCores hybridMachine) hybrid halfCompute (some ⟨3⟩) =
        .ok (shards, offload, notes) ∧
      Sound (physicalCores hybridMachine) halfCompute (some ⟨3⟩) shards offload) ∧
    (∀ machine, physicalCores machine = physicalCores hybridMachine →
      ∃ plan, planShared true machine halfCompute (some ⟨3⟩) = .ok plan ∧
        Sound (physicalCores hybridMachine) halfCompute (some ⟨3⟩) plan.shards plan.offload) ∧
    ∀ visible, ∃ plan, fromCpuCount true visible halfCompute = .ok plan ∧
      plan.shards ≠ [] ∧ (assigned plan.shards plan.offload).Nodup ∧
      ∀ cpu ∈ assigned plan.shards plan.offload, cpu < max visible 1
  := plan_never_shares_a_core true (physicalCores hybridMachine) (by decide) (by decide)
    halfCompute (some ⟨3⟩)

end Grommet.Topology
