import Kernel16.Proofs.Heap.Takeover
import Kernel16.Proofs.Kernel.Store
import Kernel16.Proofs.Kernel.TrapSetup

/-!
# How a boot ends

A boot sets up traps, heap and tasks in this order, over whatever an earlier one has left, and
ends in one of three ways.  If the heap refuses the pool, the traps are new, but heap and tasks
are as they were.  If the pool is too small for the stack of the idle task, the kernel halts with
a new heap and without tasks.  Otherwise the idle task is the only task and runs, and its stack is
all that was taken from the heap.

No ending switches the processor: the flow that boots becomes the idle task.
-/

namespace Kernel16

def BootConfig.pool (config : BootConfig) : PoolOffer := ⟨config.poolStart, config.poolSize⟩

/-! ## The stack of the idle task -/

/-- The block of the idle task's stack, at the start of a pool. -/
def idleBlock (first managed : Nat) : Block :=
  ⟨first, if managed < 1056 then managed else 1040⟩

/-- What stays free of the pool. -/
def idleRest (first managed : Nat) : List Block :=
  if managed < 1056 then [] else [⟨first + 1040, managed - 1040⟩]

namespace Partition

variable {first managed : Nat}

theorem neededFor_idleStackSize : neededFor idleStackSize = 1040 := rfl

theorem cut_idle (first managed : Nat) :
    Block.cut ⟨first, managed⟩ 1040 = (idleBlock first managed, idleRest first managed) := by
  have hrest : headerSize ≤ managed - 1040 ↔ ¬ managed < 1056 := by
    unfold headerSize
    omega
  unfold Block.cut idleBlock idleRest
  by_cases hsmall : managed < 1056 <;> simp [hrest, hsmall]

theorem allocate_idle (h : 1040 ≤ managed) :
    (whole first managed).allocate idleStackSize = some (first + headerSize,
      ⟨first, first + managed, idleRest first managed, [idleBlock first managed]⟩) := by
  have hfirst : takeFirst 1040 [⟨first, managed⟩] =
      some (idleBlock first managed, idleRest first managed) := by
    rw [takeFirst, if_pos h, cut_idle, List.append_nil]
  rw [allocate, if_neg (by decide), neededFor_idleStackSize, whole, hfirst]
  rfl

theorem allocate_idle_eq_none (h : managed < 1040) :
    (whole first managed).allocate idleStackSize = none :=
  allocate_eq_none_iff.mpr (.inr (List.forall_mem_singleton.mpr h))

end Partition

namespace Arena

variable {s : Arena} {first managed : Nat}

/-- The arena is one pool, of which only the stack of the idle task is taken. -/
structure HoldsIdle (s : Arena) (first managed : Nat) : Prop where
  start_eq : s.heap.start = first
  limit_eq : s.heap.limit = first + managed
  block_eq : s.blockAt (first + headerSize) = idleBlock first managed
  freeBlocks_eq : s.freeBlocks = idleRest first managed

theorem exists_allocate_idle (hs : s.Represents (Partition.whole first managed))
    (hp : (Partition.whole first managed).Valid) (h : 1040 ≤ managed) :
    ∃ t, s.allocate idleStackSize = some (first + headerSize, t) ∧ t.HoldsIdle first managed := by
  obtain ⟨t, hallocate, ht⟩ := hs.allocate_eq_some hp (Partition.allocate_idle h)
  have hvalid := hp.allocate (Partition.allocate_idle h)
  have hheader := Memory.header_eq_iff.mp (ht.live_header _ List.mem_cons_self)
  refine ⟨t, hallocate, ht.start_eq, ht.limit_eq, ?_, ht.freeBlocks_eq hvalid⟩
  rw [blockAt, Nat.add_sub_cancel]
  exact congrArg (Block.mk first) hheader.1

end Arena

namespace TaskTable

variable {s t : Arena} {base : Nat}

theorem init_of_no_stack (hnone : s.allocate idleStackSize = none) (segments : Segments)
    (entry : Nat) : init s segments entry = (.error .noStack, cleared segments, s) := by
  simp only [init, occupy, firstUnused?_cleared, hnone]

/-- The table with the idle task alone. -/
def idling (segments : Segments) (entry base : Nat) : TaskTable :=
  ((cleared segments).setSlot 0
    ((cleared segments).newSlot entry ⟨base, idleStackSize⟩)).start 0

theorem init_of_stack (hstack : s.allocate idleStackSize = some (base, t)) (segments : Segments)
    (entry : Nat) : init s segments entry = (.ok 0, idling segments entry base, t) := by
  simp only [init, occupy, firstUnused?_cleared, hstack, idling]

/-- The idle task is the only task and has the processor. -/
structure OnlyIdle (t : TaskTable) (stack : Stack) : Prop where
  current_eq : t.current = some 0
  idle_eq : t.idle = some 0
  running : (t.slot 0).state = .running
  others : ∀ i, i ≠ 0 → (t.slot i).state = .unused
  count : t.countTasks = 1
  stack_eq : t.stack? 0 = some stack

theorem onlyIdle_idling (segments : Segments) (entry base : Nat) :
    (idling segments entry base).OnlyIdle ⟨base, idleStackSize⟩ where
  current_eq := rfl
  idle_eq := rfl
  running := by rw [idling, slot_start_cleared, if_pos rfl]
  others := by
    intro i hi
    rw [idling, slot_start_cleared, if_neg hi]
  count := rfl
  stack_eq := rfl

end TaskTable

/-! ## The phases -/

/-- Tasks and heap with the rig, which together are all that a boot works on. -/
def Kernel.whole (k : Kernel) : Store × Rig := (k.store, k.rig)

namespace KernelM

variable {α : Type} {k : Kernel}

theorem returns_rig_trapPhase (config : BootConfig) (k : Kernel) :
    Returns Kernel.rig (trapPhase config) k (.ok ())
      ((k.rig.withTraps config.lines).setInterrupts true) := by
  refine returns_bootPhase (fun _ _ => rfl) _ fun k₁ hk₁ => ?_
  have hset : Keeps Kernel.rig (setPreemption config.preemption) := keeps_modify fun _ => rfl
  refine (hset.returns k₁).bind fun k₂ hk₂ => ?_
  rw [← hk₁, ← hk₂]
  exact (returns_rig_initTraps config.lines k₂).bind_pure _

theorem keeps_rig_withLock {m : KernelM α} (hm : Keeps Kernel.rig m) (resource : Resource) :
    Keeps Kernel.rig (withLock resource m) := by
  intro k
  obtain ⟨a, ha⟩ := hm (k.locked resource)
  exact ⟨a, returns_rig_withLock ha⟩

theorem keeps_rig_initHeap (start size : Nat) : Keeps Kernel.rig (initHeap start size) := by
  have hheap : Keeps Kernel.rig (onHeap (Arena.attempt (·.init start size))) :=
    keeps_rig_withLock (keeps_modifyGet fun _ => rfl) .heap
  refine hheap.bind fun result => ?_
  split
  all_goals exact (keeps_rig_logMessage _ _ _).bind fun _ => keeps_pure _

theorem keeps_rig_initTaskTable (segments : Segments) :
    Keeps Kernel.rig (onTasks (withLock .heap (modifyGet (initTaskTable segments)))) :=
  keeps_rig_withLock (keeps_rig_withLock (keeps_modifyGet fun _ => rfl) .heap) .tasks

theorem keeps_rig_heapPhase (config : BootConfig) : Keeps Kernel.rig (heapPhase config) := by
  refine (keeps_rig_logMessage _ _ _).bind fun _ => Keeps.bind ?phase fun result => ?report
  case phase =>
    refine (keeps_rig_initHeap _ _).bind fun result => ?_
    split
    all_goals exact keeps_pure _
  case report =>
    cases result
    all_goals exact (keeps_rig_logMessage _ _ _).bind fun _ => keeps_pure _

theorem exists_initTaskTable {segments : Segments} {answer : Except CreationError TaskId}
    {tasks : TaskTable} {arena : Arena}
    (hinit : TaskTable.init k.arena segments idleStart = (answer, tasks, arena)) :
    ∃ k', onTasks (withLock .heap (modifyGet (initTaskTable segments))) k = .ok answer k' ∧
      k'.store = { k.store with tasks, arena } ∧ k'.rig = k.rig := by
  obtain ⟨_, hrig⟩ := keeps_rig_initTaskTable segments k
  exact (returns_store_initTaskTable hinit).both hrig

theorem returns_whole_initTasks (hk : k.installed = true) {base : Nat} {arena : Arena}
    (hstack : k.arena.allocate idleStackSize = some (base, arena)) :
    Returns Kernel.whole initTasks k 0
      ({ k.store with
        tasks := .idling k.machine.settings.segments idleStart base
        arena := arena }, k.rig) := by
  obtain ⟨k₁, hk₁, hstore, hrig⟩ := exists_initTaskTable
    (TaskTable.init_of_stack hstack k.machine.settings.segments idleStart)
  rw [Returns, initTasks, bind_of_ok (newTaskSegments_of_installed hk), bind_of_ok hk₁]
  exact ⟨_, bind_of_ok (logMessage_apply _ _ _ k₁) _, Prod.ext hstore hrig⟩

theorem initTasks_of_no_stack (hk : k.installed = true)
    (hnone : k.arena.allocate idleStackSize = none) :
    ∃ k', initTasks k = .error .cpuHalted k' ∧
      k'.whole = ({ k.store with
        tasks := .cleared k.machine.settings.segments
        halted := true }, k.rig.halt) := by
  obtain ⟨k₁, hk₁, hstore, hrig⟩ := exists_initTaskTable
    (TaskTable.init_of_no_stack hnone k.machine.settings.segments idleStart)
  have hinstalled : k₁.installed = true := (congrArg Store.installed hstore).trans hk
  obtain ⟨logger, hhalt⟩ := halt_eq (α := TaskId) hinstalled
    ("failed to create idle task: " ++ CreationError.noStack.message)
  rw [initTasks, bind_of_ok (newTaskSegments_of_installed hk), bind_of_ok hk₁]
  refine ⟨_, hhalt, Prod.ext ?store ?rig⟩
  case store => exact congrArg (fun s : Store => { s with halted := true }) hstore
  case rig =>
    rw [← hrig]
    exact rig_push (e := .halt false) { k₁ with halted := true, machine := k₁.machine.halt, logger }
      rfl rfl

theorem returns_whole_taskPhase (hk : k.installed = true) {base : Nat} {arena : Arena}
    (hstack : k.arena.allocate idleStackSize = some (base, arena)) :
    Returns Kernel.whole taskPhase k (.ok 0)
      ({ k.store with
        tasks := .idling k.machine.settings.segments idleStart base
        arena := arena }, k.rig) := by
  refine returns_bootPhase (fun _ _ => rfl) _ fun k₁ hk₁ => ?_
  obtain ⟨hstore, hrig⟩ := Prod.mk.inj hk₁
  have hinstalled : k₁.installed = true := (congrArg Store.installed hstore).trans hk
  have hsettings : k₁.machine.settings = k.machine.settings := congrArg Store.settings hstore
  have harena : k₁.arena = k.arena := congrArg Store.arena hstore
  rw [← hstore, ← hrig, ← hsettings]
  exact (returns_whole_initTasks hinstalled (harena ▸ hstack)).bind_pure _

theorem taskPhase_of_no_stack (hk : k.installed = true)
    (hnone : k.arena.allocate idleStackSize = none) :
    ∃ k', taskPhase k = .error .cpuHalted k' ∧
      k'.whole = ({ k.store with
        tasks := .cleared k.machine.settings.segments
        halted := true }, k.rig.halt) := by
  obtain ⟨k₁, hlog, hwhole⟩ : Returns Kernel.whole
      (logMessage .info "boot" ("scheduler" ++ "...")) k () k.whole :=
    ⟨_, logMessage_apply _ _ _ k, rfl⟩
  obtain ⟨hstore, hrig⟩ := Prod.mk.inj hwhole
  have hinstalled : k₁.installed = true := (congrArg Store.installed hstore).trans hk
  have harena : k₁.arena = k.arena := congrArg Store.arena hstore
  have hsettings : k₁.machine.settings = k.machine.settings := congrArg Store.settings hstore
  obtain ⟨k₂, hhalt, hk₂⟩ := initTasks_of_no_stack hinstalled (harena ▸ hnone)
  rw [hstore, hrig, hsettings] at hk₂
  refine ⟨k₂, ?_, hk₂⟩
  rw [taskPhase, bootPhase, bind_of_ok hlog, bind_apply, bind_apply, hhalt]

theorem boot_eq (config : BootConfig) (k : Kernel) :
    ∃ k', boot config k = (do
        match ← heapPhase config with
        | .error e => return .error e
        | .ok () => taskPhase : KernelM (Except BootFailure TaskId)) k' ∧
      k'.store = { k.store with installed := true, preemption := config.preemption } ∧
      k'.rig = (Rig.withTraps { k.rig with installed := true } config.lines).setInterrupts true := by
  have hbegin : Returns Kernel.whole (beginBoot config) k ()
      ({ k.store with installed := true }, { k.rig with installed := true }) :=
    ⟨_, modify_apply _ k, rfl⟩
  obtain ⟨k₁, hk₁, hwhole⟩ := hbegin
  obtain ⟨hstore₁, hrig₁⟩ := Prod.mk.inj hwhole
  obtain ⟨k₂, hk₂, hstore₂, hrig₂⟩ :=
    (returns_trapPhase config k₁).both (returns_rig_trapPhase config k₁)
  rw [hstore₁] at hstore₂
  rw [hrig₁] at hrig₂
  exact ⟨k₂, (bind_of_ok hk₁ _).trans (bind_of_ok hk₂ _), hstore₂, hrig₂⟩

theorem heapPhase_of_error {config : BootConfig} {e : PoolError}
    (hpool : k.arena.init config.poolStart config.poolSize = .error e) :
    Returns Kernel.whole (heapPhase config) k (.error (.pool e)) k.whole := by
  obtain ⟨_, hrig⟩ := keeps_rig_heapPhase config k
  obtain ⟨k', hk', hstore, hrig⟩ := (returns_heapPhase config k).both hrig
  simp only [Arena.attempt, hpool] at hk' hstore
  exact ⟨k', hk', Prod.ext hstore hrig⟩

theorem heapPhase_of_ok {config : BootConfig} {managed : Nat} {opened : Arena}
    (hpool : k.arena.init config.poolStart config.poolSize = .ok (managed, opened)) :
    Returns Kernel.whole (heapPhase config) k (.ok ()) ({ k.store with arena := opened }, k.rig) := by
  obtain ⟨_, hrig⟩ := keeps_rig_heapPhase config k
  obtain ⟨k', hk', hstore, hrig⟩ := (returns_heapPhase config k).both hrig
  simp only [Arena.attempt, hpool] at hk' hstore
  exact ⟨k', hk', Prod.ext hstore hrig⟩

end KernelM

namespace Kernel

open KernelM

variable {k k' : Kernel} {config : BootConfig} {managed : Nat} {opened : Arena} {e : PoolError}

/-! ## The endings -/

/-- What holds after every boot. -/
structure Initialized (config : BootConfig) (k k' : Kernel) : Prop
    extends k.TrapsReady config.lines k' where
  preemption_eq : k'.preemption = config.preemption
  /-- The processor was not switched. -/
  switches_eq : k'.switches = k.switches
  switchEvents_eq : k'.machine.switchEvents = k.machine.switchEvents

/-- The heap has refused the pool. -/
structure Refused (config : BootConfig) (e : PoolError) (k k' : Kernel) : Prop
    extends k.Initialized config k' where
  result : boot config k = .ok (.error (.pool e)) k'
  interrupts_eq : k'.machine.interrupts = true
  halted_eq : k'.halted = k.halted
  arena_eq : k'.arena = k.arena
  tasks_eq : k'.tasks = k.tasks

/-- The heap has taken the pool, which has no room for the stack of the idle task. -/
structure Stackless (config : BootConfig) (managed : Nat) (k k' : Kernel) : Prop
    extends k.Initialized config k' where
  result : boot config k = .error .cpuHalted k'
  interrupts_eq : k'.machine.interrupts = false
  halted_eq : k'.halted = true
  tasks_eq : k'.tasks = { segments := k.machine.settings.segments }
  start_eq : k'.arena.heap.start = config.pool.first
  limit_eq : k'.arena.heap.limit = config.pool.first + managed
  freeBlocks_eq : k'.arena.freeBlocks = [⟨config.pool.first, managed⟩]

/-- The heap has taken the pool, and the flow that boots is the idle task. -/
structure Idles (config : BootConfig) (managed : Nat) (k k' : Kernel) : Prop
    extends k.Initialized config k' where
  result : boot config k = .ok (.ok 0) k'
  interrupts_eq : k'.machine.interrupts = true
  halted_eq : k'.halted = k.halted
  tasks : k'.tasks.OnlyIdle ⟨config.pool.first + 16, 1024⟩
  heap : k'.arena.HoldsIdle config.pool.first managed

/-- How a boot of the kernel `k` ends. -/
structure Ends (config : BootConfig) (k : Kernel) : Prop where
  refused : ∀ e, k.arena.init config.poolStart config.poolSize = .error e →
    ∃ k', k.Refused config e k'
  stackless : ∀ managed opened,
    k.arena.init config.poolStart config.poolSize = .ok (managed, opened) →
    config.poolStart + config.poolSize < wordLimit → managed < 1040 →
      ∃ k', k.Stackless config managed k'
  idles : ∀ managed opened,
    k.arena.init config.poolStart config.poolSize = .ok (managed, opened) →
    config.poolStart + config.poolSize < wordLimit → 1040 ≤ managed →
      ∃ k', k.Idles config managed k'

theorem initialized_of_rig (hbase : k.handlerTable.controller.base = lineVectorBase)
    (hpreemption : k'.preemption = config.preemption)
    (hrig : k'.wiring = (Rig.withTraps { k.rig with installed := true } config.lines).atRest) :
    k.Initialized config k' := by
  have htraps := trapsReady_of_wiring (k := { k with installed := true }) hbase hrig
  constructor
  case toTrapsReady =>
    exact ⟨htraps.stubs, htraps.others, htraps.enabled, htraps.words, htraps.exposedWrites,
      htraps.ticks, htraps.handlerTable⟩
  case preemption_eq => exact hpreemption
  case switches_eq =>
    exact (Rig.switches_eq_of_atRest hrig).trans (Rig.switches_withTraps _ _)
  case switchEvents_eq =>
    exact (Rig.switchEvents_eq_of_atRest hrig).trans (Rig.switchEvents_withTraps _ _)

/-- The pool that was taken is one free block. -/
theorem represents_of_taken
    (hpool : k.arena.init config.poolStart config.poolSize = .ok (managed, opened))
    (hfits : config.poolStart + config.poolSize < wordLimit) :
    opened.Represents (Partition.whole config.pool.first managed) ∧
      (Partition.whole config.pool.first managed).Valid := by
  have hstart : opened.heap.start = config.pool.first := by
    have heq := k.arena.init_eq (o := config.pool) hfits
    rw [BootConfig.pool, hpool] at heq
    split at heq
    next => cases heq
    next =>
      obtain ⟨_, rfl⟩ := Prod.mk.inj (Except.ok.inj heq)
      rfl
  exact hstart ▸ Arena.represents_of_init hpool hfits

theorem exists_refused (hbase : k.handlerTable.controller.base = lineVectorBase)
    (hpool : k.arena.init config.poolStart config.poolSize = .error e) :
    ∃ k', k.Refused config e k' := by
  obtain ⟨k₁, hboot, hstore₁, hrig₁⟩ := boot_eq config k
  have harena₁ : k₁.arena = k.arena := congrArg Store.arena hstore₁
  obtain ⟨k₂, hk₂, hwhole⟩ := heapPhase_of_error (harena₁ ▸ hpool)
  obtain ⟨hstore₂, hrig₂⟩ := Prod.mk.inj hwhole
  have hstore := hstore₂.trans hstore₁
  have hrig := hrig₂.trans hrig₁
  refine ⟨k₂, initialized_of_rig hbase (congrArg Store.preemption hstore) ?_, ?_, ?_,
    congrArg Store.halted hstore, congrArg Store.arena hstore, congrArg Store.tasks hstore⟩
  · rw [wiring, hrig, Rig.atRest_setInterrupts]
  · rw [hboot, bind_of_ok hk₂]
    rfl
  · exact (congrArg (·.machine.interrupts) hrig).trans (Rig.interrupts_setInterrupts _ true)

theorem boot_of_accepted
    (hpool : k.arena.init config.poolStart config.poolSize = .ok (managed, opened)) :
    ∃ k', boot config k = taskPhase k' ∧
      k'.store = { k.store with
        arena := opened, installed := true, preemption := config.preemption } ∧
      k'.rig = (Rig.withTraps { k.rig with installed := true } config.lines).setInterrupts true := by
  obtain ⟨k₁, hboot, hstore₁, hrig₁⟩ := boot_eq config k
  have harena₁ : k₁.arena = k.arena := congrArg Store.arena hstore₁
  obtain ⟨k₂, hk₂, hwhole⟩ := heapPhase_of_ok (harena₁ ▸ hpool)
  obtain ⟨hstore₂, hrig₂⟩ := Prod.mk.inj hwhole
  rw [hstore₁] at hstore₂
  refine ⟨k₂, ?_, hstore₂, hrig₂.trans hrig₁⟩
  rw [hboot, bind_of_ok hk₂]

theorem exists_stackless (hbase : k.handlerTable.controller.base = lineVectorBase)
    (hpool : k.arena.init config.poolStart config.poolSize = .ok (managed, opened))
    (hfits : config.poolStart + config.poolSize < wordLimit) (hsmall : managed < 1040) :
    ∃ k', k.Stackless config managed k' := by
  obtain ⟨hrepresents, hvalid⟩ := represents_of_taken hpool hfits
  have hnone := hrepresents.allocate_eq_none (Partition.allocate_idle_eq_none hsmall)
  obtain ⟨k₁, hboot, hstore₁, hrig₁⟩ := boot_of_accepted hpool
  have hinstalled : k₁.installed = true := congrArg Store.installed hstore₁
  have harena₁ : k₁.arena = opened := congrArg Store.arena hstore₁
  have hsettings : k₁.machine.settings = k.machine.settings := congrArg Store.settings hstore₁
  obtain ⟨k₂, hk₂, hwhole⟩ := taskPhase_of_no_stack hinstalled (harena₁ ▸ hnone)
  obtain ⟨hstore₂, hrig₂⟩ := Prod.mk.inj hwhole
  rw [hstore₁, hsettings] at hstore₂
  have harena : k₂.arena = opened := congrArg Store.arena hstore₂
  refine ⟨k₂, initialized_of_rig hbase (congrArg Store.preemption hstore₂) ?wiring,
    hboot.trans hk₂, congrArg (·.machine.interrupts) hrig₂, congrArg Store.halted hstore₂,
    congrArg Store.tasks hstore₂, ?_, ?_, ?_⟩
  case wiring => rw [wiring, hrig₂, Rig.atRest_halt, hrig₁, Rig.atRest_setInterrupts]
  · rw [harena, hrepresents.start_eq]
    rfl
  · rw [harena, hrepresents.limit_eq]
    rfl
  · rw [harena, hrepresents.freeBlocks_eq hvalid]
    rfl

theorem exists_idles (hbase : k.handlerTable.controller.base = lineVectorBase)
    (hpool : k.arena.init config.poolStart config.poolSize = .ok (managed, opened))
    (hfits : config.poolStart + config.poolSize < wordLimit) (hroom : 1040 ≤ managed) :
    ∃ k', k.Idles config managed k' := by
  obtain ⟨hrepresents, hvalid⟩ := represents_of_taken hpool hfits
  obtain ⟨arena, hstack, hholds⟩ := Arena.exists_allocate_idle hrepresents hvalid hroom
  obtain ⟨k₁, hboot, hstore₁, hrig₁⟩ := boot_of_accepted hpool
  have hinstalled : k₁.installed = true := congrArg Store.installed hstore₁
  have harena₁ : k₁.arena = opened := congrArg Store.arena hstore₁
  obtain ⟨k₂, hk₂, hwhole⟩ := returns_whole_taskPhase hinstalled (harena₁ ▸ hstack)
  obtain ⟨hstore₂, hrig₂⟩ := Prod.mk.inj hwhole
  rw [hstore₁] at hstore₂
  have hrig := hrig₂.trans hrig₁
  have htasks : k₂.tasks = .idling k₁.machine.settings.segments idleStart
      (config.pool.first + headerSize) := congrArg Store.tasks hstore₂
  have harena : k₂.arena = arena := congrArg Store.arena hstore₂
  refine ⟨k₂, initialized_of_rig hbase (congrArg Store.preemption hstore₂) ?wiring,
    hboot.trans hk₂, ?flag, congrArg Store.halted hstore₂,
    htasks ▸ TaskTable.onlyIdle_idling _ _ _, harena ▸ hholds⟩
  case wiring => rw [wiring, hrig, Rig.atRest_setInterrupts]
  case flag =>
    exact (congrArg (·.machine.interrupts) hrig).trans (Rig.interrupts_setInterrupts _ true)

/-- From every state of the kernel and its machine, and on every pool. -/
theorem boot_ends (hbase : k.handlerTable.controller.base = lineVectorBase)
    (config : BootConfig) : k.Ends config where
  refused := fun _ hpool => exists_refused hbase hpool
  stackless := fun _ _ hpool hfits hsmall => exists_stackless hbase hpool hfits hsmall
  idles := fun _ _ hpool hfits hroom => exists_idles hbase hpool hfits hroom

/-- Pools at an unaligned address.  One is of no use, one is too small for the stack of the idle
task by a word, and one is just large enough. -/
theorem boot_ends_leftover :
    leftover.handlerTable.controller.base = lineVectorBase ∧
      (∃ k', leftover.Refused { poolStart := 4099, poolSize := 20 } (.tooSmall 20) k') ∧
      (∃ k', leftover.Stackless { poolStart := 4099, poolSize := 1044 } 1032 k') ∧
      ∃ k', leftover.Idles { poolStart := 4099, poolSize := 1045 } 1040 k' := by
  have hbase : leftover.handlerTable.controller.base = lineVectorBase := by decide +kernel
  have hnone : leftover.arena.init 4099 20 = .error (.tooSmall 20) :=
    leftover.arena.init_eq (o := ⟨4099, 20⟩) (by decide)
  have hshort : leftover.arena.init 4099 1044 =
      .ok (1032, leftover.arena.taken ⟨4099, 1044⟩) :=
    leftover.arena.init_eq (o := ⟨4099, 1044⟩) (by decide)
  have hsnug : leftover.arena.init 4099 1045 =
      .ok (1040, leftover.arena.taken ⟨4099, 1045⟩) :=
    leftover.arena.init_eq (o := ⟨4099, 1045⟩) (by decide)
  exact ⟨hbase, (boot_ends hbase { poolStart := 4099, poolSize := 20 }).refused _ hnone,
    (boot_ends hbase { poolStart := 4099, poolSize := 1044 }).stackless _ _ hshort (by decide)
      (by decide),
    (boot_ends hbase { poolStart := 4099, poolSize := 1045 }).idles _ _ hsnug (by decide)
      (by decide)⟩

end Kernel

end Kernel16
