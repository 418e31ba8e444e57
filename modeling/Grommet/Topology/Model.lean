import Grommet.Library.Checked
import Mathlib.Algebra.GroupWithZero.Nat
import Mathlib.Data.Finset.Lattice.Fold
import Mathlib.Data.Finset.Range
import Mathlib.Data.List.Sort
import Mathlib.Data.Prod.Lex
import Mathlib.Order.Lattice.Nat

/-!
# Planning a layout

A machine is what hwloc reports of it: objects with their sets of processing units.
`planShared` reduces it to physical cores, keeps the best of them within a budget, gives whole
cores to reactors and to offload pools, one pool for each memory node, and says what it did.
`fromCpuCount` plans from a number of CPUs alone.

The share of the demand that is compute is a floating point number.  What the planners ask of it
is whether it is positive and what it makes of a number of cores, rounded.
-/

open Checked

namespace Grommet.Topology

/-! ### What the caller knows -/

/-- The share of CPU demand that is offloaded compute. -/
structure Fraction where
  /-- Whether it is zero or less. -/
  nonpositive : Bool
  /-- The share of a number of cores, rounded to a whole number of them. -/
  rounded : ℕ → ℕ

/-- What the workload looks like. -/
structure Workload where
  computeFraction : Fraction
  /-- Cores left for the operating system. -/
  reserveCores : ℕ
  /-- Never let an offload worker share a physical core with a reactor. -/
  isolateSmt : Bool
  preferPerformanceCores : Bool

/-- A limit on the CPU time, in cores. -/
structure Quota where
  /-- The limit without the fraction of a core. -/
  cores : ℕ

/-- The most threads that can stay runnable within a quota. -/
def Quota.usableCores (quota : Quota) : ℕ := max quota.cores 1

/-! ### What the hardware reports -/

/-- A set of logical CPUs. -/
abbrev CpuSet := Finset ℕ

/-- The members of a set of CPUs, in increasing order. -/
def CpuSet.iterSet (set : CpuSet) : List ℕ :=
  (List.range (set.sup id + 1)).filter (· ∈ set)

theorem CpuSet.nodup_iterSet (set : CpuSet) :
  set.iterSet.Nodup
  := List.nodup_range.filter _

/-- An object of the hierarchy. -/
structure Object where
  cpuset : Option CpuSet
  osIndex : Option ℕ

/-- CPUs of one kind, with their rank if they have one. -/
structure CpuKind where
  cpuset : CpuSet
  efficiency : Option ℕ

/-- What binding memory supports. -/
structure MemoryBinding where
  setCurrentThread : Bool
  bindPolicy : Bool

/-- A machine. -/
structure Machine where
  /-- The CPUs this process may run on. -/
  cpuset : CpuSet
  coreObjects : List Object
  puObjects : List Object
  numaNodeObjects : List Object
  cpuKinds : Option (List CpuKind)
  /-- Whether the thread itself can be bound, if binding is supported. -/
  cpuBinding : Option Bool
  memoryBinding : Option MemoryBinding

/-- The memory nodes with their CPUs. -/
def numaNodes (machine : Machine) : List (ℕ × CpuSet) :=
  machine.numaNodeObjects.zipIdx.filterMap fun (node, fallback) =>
    node.cpuset.map fun cpus => (node.osIndex.getD fallback, cpus)

/-- The processing units ranked as most performant, on a hybrid machine. -/
def performanceCpus (machine : Machine) : Option CpuSet := do
  let kinds ← machine.cpuKinds
  if kinds.length < 2 then
    none
  else
    let best ← (kinds.filterMap CpuKind.efficiency).max?
    some ((kinds.filter (·.efficiency = some best)).foldl (fun set kind => set ∪ kind.cpuset) ∅)

/-- A physical core reduced to what placement needs. -/
structure Core where
  pus : List ℕ
  node : ℕ
  performance : Bool
  nonempty : pus ≠ []
  nodup : pus.Nodup
  deriving DecidableEq

/-- The first processing unit of a core. -/
def Core.first (core : Core) : ℕ := core.pus.head core.nonempty

/-- The core that an object describes, if one of its processing units may be used. -/
def describe (allowed : CpuSet) (nodes : List (ℕ × CpuSet)) (performance : Option CpuSet)
    (object : Object) : Option Core :=
  object.cpuset.bind fun cpus =>
    match h : cpus.iterSet.filter (· ∈ allowed) with
    | [] => none
    | first :: rest =>
      some {
        pus := first :: rest
        node := ((nodes.find? fun node => first ∈ node.2).map Prod.fst).getD 0
        performance := performance.all fun set => first ∈ set
        nonempty := List.cons_ne_nil _ _
        nodup := h ▸ cpus.nodup_iterSet.filter _ }

/-- The physical cores that may be used. -/
def physicalCores (machine : Machine) : List Core :=
  let describe := describe machine.cpuset (numaNodes machine) (performanceCpus machine)
  let cores := machine.coreObjects.filterMap describe
  if cores.isEmpty then
    -- without core objects each processing unit is one
    machine.puObjects.filterMap describe
  else
    cores

/-! ### The plan -/

/-- One reactor's placement. -/
structure ShardPlacement where
  cpu : ℕ
  node : ℕ
  deriving DecidableEq

/-- One offload pool, local to a memory node. -/
structure OffloadPool where
  node : ℕ
  cpus : List ℕ
  deriving DecidableEq

structure Plan where
  shards : List ShardPlacement
  offload : List OffloadPool
  canBindCpu : Bool
  canBindMemory : Bool
  notes : List String
  deriving DecidableEq

/-- The number of offload workers. -/
def Plan.offloadWorkers (plan : Plan) : ℕ := (plan.offload.map fun pool => pool.cpus.length).sum

/-- The pool that a shard on a node should submit to. -/
def Plan.poolFor (plan : Plan) (node : ℕ) : Option OffloadPool :=
  (plan.offload.find? fun pool => pool.node = node).or plan.offload.head?

/-- The order of the cores: performance cores first, then by node and by processing unit. -/
def Core.key (core : Core) : Bool ×ₗ ℕ ×ₗ ℕ :=
  toLex (!core.performance, toLex (core.node, core.first))

/-- Best cores first. -/
def sortCores (cores : List Core) : List Core :=
  cores.insertionSort fun a b => a.key ≤ b.key

/-- The number of cores to plan for, with what there is to say about it. -/
def budget (visible : ℕ) (workload : Workload) (quota : Option Quota) : ℕ × List String :=
  let budget := max (visible - workload.reserveCores) 1
  match quota with
  | none => (budget, [])
  | some quota =>
    let limit := quota.usableCores
    if limit < budget then
      (limit, [s!"CPU quota allows {limit} cores of {visible} visible; planning for the quota, " ++
        "since exceeding it throttles every thread at once"])
    else
      (budget, [])

/-- A number between two bounds, which must be in order. -/
def clamp (n low high : ℕ) : Checked ℕ := do
  assert (low ≤ high) "assertion failed: min <= max"
  .ok (max low (min n high))

/-- Two parts of a list, the first of a length that must be in range. -/
def splitAt {α : Type} (l : List α) (mid : ℕ) : Checked (List α × List α) := do
  assert (mid ≤ l.length) "mid > len"
  .ok (l.take mid, l.drop mid)

/-- The cores of a budget that are given to compute. -/
def offloadShare (budget : ℕ) (fraction : Fraction) : Checked ℕ :=
  if fraction.nonpositive ∨ budget ≤ 1 then
    .ok 0
  else do
    let last ← sub budget 1
    clamp (fraction.rounded budget) 1 last

/-- The CPUs of a core that offload workers take. -/
def workers (workload : Workload) (core : Core) : List ℕ :=
  if workload.isolateSmt then [core.first] else core.pus

/-- Give CPUs to the pool of a node, which is made when there is none. -/
def addWorkers (node : ℕ) (cpus : List ℕ) : List OffloadPool → List OffloadPool
  | [] => [⟨node, cpus⟩]
  | pool :: pools =>
    if pool.node = node then
      { pool with cpus := pool.cpus ++ cpus } :: pools
    else
      pool :: addWorkers node cpus pools

/-- One pool for each memory node of the cores. -/
def offloadPools (workload : Workload) (cores : List Core) : List OffloadPool :=
  cores.foldl (fun offload core => addWorkers core.node (workers workload core) offload) []

/-- What there is to say when reactors run on efficiency cores. -/
def efficiencyNote (hybrid : Bool) (workload : Workload) (shardCores : List Core) : List String :=
  let onEfficiency := (shardCores.filter (!·.performance)).length
  if hybrid ∧ workload.preferPerformanceCores ∧ onEfficiency > 0 then
    [s!"{onEfficiency} reactors placed on efficiency cores; there were not enough " ++
      "performance cores to hold them all"]
  else
    []

/-- What there is to say when workers leave siblings idle. -/
def siblingNote (workload : Workload) (offloadCores : List Core) : List String :=
  if workload.isolateSmt ∧ offloadCores.any fun core => core.pus.length > 1 then
    ["offload workers take one thread per physical core, leaving SMT siblings idle so " ++
      "they cannot contend with a reactor"]
  else
    []

/-- What there is to say about a build with debug assertions. -/
def debugNote (debugAssertions : Bool) : List String :=
  if debugAssertions then
    ["built with debug assertions: the scheduler checks its invariants every reactor " ++
      "iteration, which is linear in resident keys, so timing from this build describes a " ++
      "different program"]
  else
    []

/-- The shards, the pools and the notes for the cores of a machine. -/
def layOut (cores : List Core) (hybrid : Bool) (workload : Workload) (quota : Option Quota) :
    Checked (List ShardPlacement × List OffloadPool × List String) := do
  let cores := sortCores cores
  let visible := cores.length
  let (budget, quotaNote) := budget visible workload quota
  let usingNote := if budget < visible then [s!"using {budget} of {visible} usable cores"] else []
  let cores := cores.take budget
  let offloadCores ← offloadShare budget workload.computeFraction
  let split ← sub budget offloadCores
  let (shardCores, offloadCores) ← splitAt cores split
  .ok (shardCores.map fun core => ⟨core.first, core.node⟩,
    offloadPools workload offloadCores,
    quotaNote ++ usingNote ++ efficiencyNote hybrid workload shardCores ++
      siblingNote workload offloadCores)

/-- Compute a layout for a machine. -/
def planShared (debugAssertions : Bool) (machine : Machine) (workload : Workload)
    (quota : Option Quota) : Checked Plan := do
  let (shards, offload, notes) ←
    layOut (physicalCores machine) (performanceCpus machine).isSome workload quota
  let canBindCpu := machine.cpuBinding.any id
  let canBindMemory :=
    machine.memoryBinding.any fun memory => memory.setCurrentThread && memory.bindPolicy
  let bindNote := if canBindCpu then [] else
    ["this platform does not support binding a thread to a CPU; placement is advisory"]
  .ok {
    shards := shards
    offload := offload
    canBindCpu := canBindCpu
    canBindMemory := canBindMemory
    notes := notes ++ bindNote ++ debugNote debugAssertions }

/-! ### Planning without reading the machine -/

/-- Plan a layout from a number of CPUs. -/
def fromCpuCount (debugAssertions : Bool) (visible : ℕ) (workload : Workload) : Checked Plan := do
  let visible := max visible 1
  let countNote := [s!"built without the `topology` feature: planning for {visible} logical " ++
    "CPUs from available_parallelism, with no knowledge of SMT siblings, memory nodes or core " ++
    "kinds, and no thread binding"]
  let budget := max (visible - workload.reserveCores) 1
  let reserveNote := if budget < max (visible - workload.reserveCores) budget then
    [s!"{visible} CPUs is too few to reserve {workload.reserveCores}"] else []
  let compute := workload.computeFraction.rounded budget
  let compute := min compute (budget - 1)
  let reactors ← sub budget compute
  let smtNote := if workload.isolateSmt then
    ["SMT isolation was requested but cannot be honoured without hwloc: sibling threads are " ++
      "indistinguishable from separate cores here, so a compute worker may share a physical " ++
      "core with a reactor"] else []
  .ok {
    shards := (List.range reactors).map fun cpu => ⟨cpu, 0⟩
    offload := if compute = 0 then [] else [⟨0, List.range' reactors compute⟩]
    canBindCpu := false
    canBindMemory := false
    notes := countNote ++ reserveNote ++ smtNote ++ debugNote debugAssertions }

end Grommet.Topology
