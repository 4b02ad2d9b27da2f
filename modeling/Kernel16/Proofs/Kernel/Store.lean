import Kernel16.Proofs.Kernel.Halting
import Kernel16.Proofs.Task.Reclamation

/-!
# What kernel programs do to the tasks and the heap

The store of a kernel is its task table and its heap, with the few things on which it depends
whether and how a program changes them.  Programs of the kernel do to the store what requests do
to tasks and heap on their own: a yield hands the processor on, and a boot that comes to its end
sets up the heap and then the tasks.
-/

namespace Kernel16

structure Store where
  tasks : TaskTable
  arena : Arena
  settings : MachineSettings
  installed : Bool
  halted : Bool
  base : UInt8
  /-- Whether the timer may yield. -/
  preemption : Bool

namespace Store

/-- Yields of the kernel switch, and their switches return. -/
structure Active (s : Store) : Prop where
  installed : s.installed = true
  halted : s.halted = false
  unlimited : s.settings.switchBudget = none
  base : s.base = lineVectorBase

/-- Tasks and heap as a system that keeps no account. -/
def system (s : Store) : TaskSystem := ⟨s.tasks, s.arena, [], []⟩

def put (s : Store) (u : TaskSystem) : Store := { s with tasks := u.tasks, arena := u.arena }

def perform (s : Store) (r : TaskRequest) : Store := s.put (s.system.perform r)

/-- Reaps and then rotates. -/
def handOn (s : Store) : Store := (s.perform .reap).perform (.rotate s.settings.saved)

end Store

namespace Kernel

def store (k : Kernel) : Store where
  tasks := k.tasks
  arena := k.arena
  settings := k.machine.settings
  installed := k.installed
  halted := k.halted
  base := k.handlerTable.controller.base
  preemption := k.preemption

@[simp] theorem system_store (k : Kernel) : k.store.system = ⟨k.tasks, k.arena, [], []⟩ := rfl

end Kernel

namespace KernelM

variable {α β : Type} {m : KernelM α} {k : Kernel} {change : Store → Store}

theorem discreet_store : Discreet Kernel.store :=
  ⟨fun _ _ => rfl, fun _ _ => rfl, fun _ _ _ => rfl⟩

/-- The program returns, and changes the store in this way. -/
def Stores (change : Store → Store) (m : KernelM α) : Prop :=
  ∀ k, ∃ a, Returns Kernel.store m k a (change k.store)

theorem Stores.returns {m : KernelM Unit} (hm : Stores change m) (k : Kernel) :
    Returns Kernel.store m k () (change k.store) := by
  obtain ⟨_, ha⟩ := hm k
  exact ha

theorem stores_request {f : Kernel → α × Kernel} {r : TaskRequest}
    (h : ∀ k : Kernel, (f k).2 = { k with
      tasks := (k.store.system.perform r).tasks
      arena := (k.store.system.perform r).arena }) :
    Stores (·.perform r) (modifyGet f : KernelM α) :=
  fun k => ⟨(f k).1, (f k).2, rfl, congrArg Kernel.store (h k)⟩

theorem Stores.withLock (hm : Stores change m) (resource : Resource) :
    Stores change (withLock resource m) := by
  intro k
  obtain ⟨a, ha⟩ := hm (k.locked resource)
  rw [discreet_store.locked] at ha
  exact ⟨a, discreet_store.returns_withLock ha⟩

theorem Stores.followedBy {f : α → KernelM β} (hm : Stores change m)
    (hf : ∀ a, Keeps Kernel.store (f a)) : Stores change (m >>= f) := by
  intro k
  obtain ⟨a, k', ha, hstore⟩ := hm k
  obtain ⟨b, k'', hb, hstore'⟩ := hf a k'
  exact ⟨b, k'', (bind_of_ok ha f).trans hb, hstore'.trans hstore⟩

/-! ## Requests -/

theorem stores_newTask (entry stackSize : Nat) :
    Stores (·.perform (.create entry stackSize)) (newTask entry stackSize) := by
  have htable : Stores (·.perform (.create entry stackSize))
      (modifyGet (createInTable entry stackSize)) := by
    refine stores_request fun k => ?_
    unfold createInTable
    split
    next hresult => simp only [Kernel.system_store, TaskSystem.perform, hresult]
    next hresult => simp only [Kernel.system_store, TaskSystem.perform, hresult]
  refine ((htable.withLock .heap).withLock .tasks).followedBy fun result => ?_
  split
  all_goals exact (discreet_store.keeps_logMessage _ _ _).bind fun _ => keeps_pure _

/-- The task that ends is marked, before it yields for the first time. -/
theorem stores_endTask_zero : Stores (·.perform .endCurrent) (endTask 0) := by
  have hmark : Stores (·.perform .endCurrent) (modifyGet markEnded) := by
    refine stores_request fun k => ?_
    unfold markEnded
    split
    next hresult => simp only [Kernel.system_store, TaskSystem.perform, hresult]
    next hresult => simp only [Kernel.system_store, TaskSystem.perform, hresult]
  refine (hmark.withLock .tasks).followedBy fun ended => ?_
  cases ended
  all_goals exact (discreet_store.keeps_logMessage _ _ _).bind fun _ => keeps_pure _

theorem stores_allocate (n : Nat) : Stores (·.perform (.allocate n)) (allocate n) := by
  have harena : Stores (·.perform (.allocate n)) (onHeap (Arena.attemptAllocate n)) := by
    refine Stores.withLock (stores_request fun k => ?_) .heap
    cases hresult : k.arena.allocate n <;>
      simp only [Arena.attemptAllocate, Kernel.system_store, TaskSystem.perform, hresult]
  refine harena.followedBy fun result => ?_
  split
  all_goals exact (discreet_store.keeps_logMessage _ _ _).bind fun _ => keeps_pure _

theorem stores_free (a : Nat) : Stores (·.perform (.free a)) (free a) := by
  have harena : Stores (·.perform (.free a)) (onHeap (Arena.attempt (·.free a))) := by
    refine Stores.withLock (stores_request fun k => ?_) .heap
    cases hresult : k.arena.free a <;>
      simp only [Arena.attempt, Kernel.system_store, TaskSystem.perform, TaskSystem.takeBack,
        hresult]
  refine harena.followedBy fun result => ?_
  split
  · exact discreet_store.keeps_logMessage _ _ _
  · exact keeps_pure _
  · exact discreet_store.keeps_logMessage _ _ _

theorem stores_write (a : Nat) (bytes : List UInt8) :
    Stores (·.perform (.write a bytes)) (modifyMemory (·.writeBytes a bytes)) :=
  fun k => ⟨(), _, modify_apply _ k, rfl⟩

/-! ## Yielding -/

theorem stores_reapTasks : Stores (·.perform .reap) (modifyGet reapTasks) := by
  refine stores_request fun k => ?_
  simp only [reapTasks, Kernel.system_store, TaskSystem.tasks_reap, TaskSystem.arena_reap]

/-- To choose a task is to reap, which gives the store `s`, and then to rotate the table. -/
theorem returns_nextSwitch {s : Store} (hs : k.store.perform .reap = s) :
    Returns Kernel.store nextSwitch k (s.tasks.rotate.map Prod.fst)
      { s with tasks := (s.tasks.rotate.map Prod.snd).getD s.tasks } := by
  obtain ⟨warnings, hreap⟩ := stores_reapTasks.withLock .heap (k.locked .tasks)
  simp only [discreet_store.locked, hs] at hreap
  refine discreet_store.returns_withLock (hreap.bind fun k₁ hk₁ => ?_)
  refine ((keeps_forM discreet_store.keeps_emit _).returns k₁).bind fun k₂ hk₂ => ?_
  refine ((discreet_store.keeps_noteAccess .tasks).returns k₂).bind fun k₃ hk₃ => ?_
  obtain rfl : k₃.store = s := hk₃.trans (hk₂.trans hk₁)
  have htasks : k₃.store.tasks = k₃.tasks := rfl
  have hrotate : rotateTasks k₃ = (k₃.tasks.rotate.map Prod.fst,
      { k₃ with tasks := (k₃.tasks.rotate.map Prod.snd).getD k₃.tasks }) := by
    unfold rotateTasks
    cases k₃.tasks.rotate <;> rfl
  refine ⟨(rotateTasks k₃).2, ?_, ?_⟩
  · rw [modifyGet_apply, hrotate, htasks]
  · rw [hrotate]
    rfl

theorem stores_saveOutgoing (switch : Switch) :
    Stores (fun s => { s with
      tasks := s.settings.saved.elim s.tasks fun image => switch.save image s.tasks })
      (saveOutgoing switch) := by
  refine fun k => ⟨(), _, modify_apply _ k, ?_⟩
  cases hsaved : k.machine.settings.saved <;> simp only [Kernel.store, hsaved, Option.elim]

theorem spendSwitch_of_unlimited (h : k.machine.settings.switchBudget = none) :
    spendSwitch k = .ok () k := by
  unfold spendSwitch
  rw [bind_of_ok (get_apply k), h]
  rfl

/-- What a switch saves does not reach into the image that it loads. -/
theorem apart_switchEvent {t u : TaskTable} {switch : Switch} (h : t.rotate = some (switch, u))
    (k : Kernel) :
    (k.switchEvent switch).save + Registers.byteCount ≤ (k.switchEvent switch).load ∨
      (k.switchEvent switch).load + Registers.byteCount ≤ (k.switchEvent switch).save := by
  obtain ⟨_, hne, _, _⟩ := TaskTable.exists_of_rotate h
  exact k.placement.apart hne.symm

theorem returns_switchTasks (hunlimited : k.machine.settings.switchBudget = none)
    (switch : Switch) :
    Returns Kernel.store (switchTasks switch) k () { k.store with
      tasks := k.machine.settings.saved.elim k.tasks fun image => switch.save image k.tasks } := by
  have hnote : ∀ e : Event, Keeps Kernel.store (note e) := fun _ => keeps_modify fun _ => rfl
  have hrecord : Keeps Kernel.store (modify fun k' =>
      { k' with machine := k'.machine.recordSwitch (k.switchEvent switch) }) :=
    keeps_modify fun _ => rfl
  unfold switchTasks
  refine Returns.get_bind (((hnote _).returns k).bind fun k₁ hk₁ => ?_)
  refine (hrecord.returns k₁).bind fun k₂ hk₂ => ?_
  refine ((stores_saveOutgoing switch).returns k₂).bind fun k₃ hk₃ => ?_
  rw [hk₂, hk₁] at hk₃
  have hunlimited₃ : k₃.machine.settings.switchBudget = none :=
    (congrArg (·.settings.switchBudget) hk₃).trans hunlimited
  exact ⟨k₃, spendSwitch_of_unlimited hunlimited₃, hk₃⟩

theorem returns_yield (hk : k.store.Active) : Returns Kernel.store yield k () k.store.handOn := by
  have hrestore : Keeps Kernel.store
      (if k.machine.interrupts = true then setInterrupts true else pure ()) := by
    split
    · exact discreet_store.keeps_setInterrupts true
    · exact keeps_pure ()
  have hmasked : (k.setInterrupts false).store = k.store := discreet_store.interrupts k false
  have hunlimited := hk.unlimited
  -- The reaping must not be unfolded when stores are compared.
  have hsettings : (k.store.perform .reap).settings = k.store.settings := rfl
  rw [Store.handOn, ← hsettings]
  rw [← hsettings] at hunlimited
  generalize hs : k.store.perform .reap = s at hunlimited ⊢
  rw [Returns, yield_of_not_halted hk.installed hk.halted]
  refine (returns_nextSwitch (hmasked ▸ hs)).bind fun k₁ hk₁ => ?_
  simp only [Store.perform, Store.put, Store.system, TaskSystem.perform]
  cases hrotate : s.tasks.rotate with
  | none =>
      rw [hrotate] at hk₁
      exact hk₁ ▸ hrestore.returns k₁
  | some result =>
      obtain ⟨switch, tasks⟩ := result
      rw [hrotate] at hk₁
      refine ((discreet_store.keeps_logMessage _ _ _).returns k₁).bind fun k₂ hk₂ => ?_
      have hstore := hk₂.trans hk₁
      have hunlimited₂ : k₂.machine.settings.switchBudget = none :=
        (congrArg (·.settings.switchBudget) hstore).trans hunlimited
      refine (returns_switchTasks hunlimited₂ switch).bind fun k₃ hk₃ => ?_
      have hsettings₂ : k₂.machine.settings = s.settings := congrArg Store.settings hstore
      have htasks₂ : k₂.tasks = tasks := congrArg Store.tasks hstore
      rw [hstore, hsettings₂, htasks₂] at hk₃
      exact hk₃ ▸ hrestore.returns k₃

/-! ## Interrupts -/

theorem keeps_store_note (e : Event) : Keeps Kernel.store (note e) := keeps_modify fun _ => rfl

theorem keeps_store_runBus (p : BusProgram α) : Keeps Kernel.store (runBus p) := by
  refine keeps_modifyGet fun k => ?_
  simp only [Kernel.store, k.machine.settings_run p]

theorem store_setHandler (k : Kernel) (line : UInt8) (handler : Option HandlerId) :
    Kernel.store { k with handlerTable := k.handlerTable.setHandler line handler } = k.store := by
  simp only [Kernel.store, HandlerTable.controller_setHandler]

theorem keeps_store_countTick : Keeps Kernel.store countTick := by
  refine Keeps.bind (keeps_modify fun _ => rfl) fun _ => ?_
  exact keeps_get.bind fun _ => keeps_store_note _

/-- The timer yields if it may; other lines do nothing more. -/
theorem returns_conclude_served (hk : k.store.Active) (line : UInt8) (handled : Bool) :
    Returns Kernel.store (conclude (.served line handled)) k ()
      (if line = timerLine ∧ k.preemption = true then k.store.handOn else k.store) := by
  unfold conclude
  dsimp only
  by_cases hline : line = timerLine
  · rw [if_pos hline]
    refine (keeps_store_countTick.returns k).bind fun k₁ hk₁ => Returns.get_bind ?_
    have hpreemption : k₁.preemption = k.preemption := congrArg Store.preemption hk₁
    rw [hpreemption, ← hk₁]
    by_cases hyield : k.preemption = true
    · rw [if_pos hyield, if_pos ⟨hline, hyield⟩]
      exact returns_yield (hk₁ ▸ hk)
    · rw [if_neg hyield, if_neg fun h => hyield h.2]
      exact returns_pure () k₁
  · rw [if_neg hline, if_neg fun h => hline h.1]
    exact returns_pure () k

/-! ## Booting -/

theorem keeps_store_installStubs : Keeps Kernel.store installStubs := by
  have hvector : ∀ vector target, Keeps Kernel.store (setVector vector target) := by
    intro vector target
    refine Keeps.bind (keeps_modify fun k => ?_) fun _ => keeps_store_note _
    simp only [Kernel.store, k.machine.settings_setVector]
  refine (keeps_foldlM (fun installed vector => ?_) servedVectors 0).bind fun installed => ?_
  · refine keeps_get.bind fun k => ?_
    split
    · exact (hvector _ _).bind fun _ => keeps_pure _
    · exact (discreet_store.keeps_logMessage _ _ _).bind fun _ => keeps_pure _
  · exact (discreet_store.keeps_logMessage _ _ _).bind fun _ => keeps_pure _

theorem keeps_store_initTraps (lines : LineSet) : Keeps Kernel.store (initTraps lines) := by
  refine (discreet_store.keeps_setInterrupts false).bind fun _ => ?_
  refine discreet_store.keeps_handlerTableCopy.bind fun table => ?_
  refine (keeps_store_runBus _).bind fun _ => ?_
  refine keeps_store_installStubs.bind fun installed => ?_
  refine (keeps_store_runBus _).bind fun _ => ?_
  refine Keeps.bind (keeps_modify fun _ => rfl) fun _ => ?_
  exact (discreet_store.keeps_logMessage _ _ _).bind fun _ =>
    discreet_store.keeps_setInterrupts true

theorem returns_bootPhase {σ : Type} {view : Kernel → σ}
    (hlogger : ∀ (k : Kernel) logger, view { k with logger } = view k)
    {phase : KernelM (Except BootFailure α)} {result : Except BootFailure α} {v : σ}
    (name : String) (hphase : ∀ k', view k' = view k → Returns view phase k' result v) :
    Returns view (bootPhase name phase) k result v := by
  have hlog (level : Log.Level) (target message : String) :
      Keeps view (logMessage level target message) :=
    keeps_modify fun k => hlogger k _
  refine ((hlog _ _ _).returns k).bind fun k₁ hk₁ => ?_
  refine (hphase k₁ hk₁).bind fun k₂ hk₂ => ?_
  rw [← hk₂]
  cases result
  all_goals exact ((hlog _ _ _).returns k₂).bind_pure _

theorem returns_trapPhase (config : BootConfig) (k : Kernel) :
    Returns Kernel.store (trapPhase config) k (.ok ())
      { k.store with preemption := config.preemption } := by
  refine returns_bootPhase discreet_store.logger _ fun k₁ hk₁ => ?_
  have hset : Returns Kernel.store (setPreemption config.preemption) k₁ ()
      { k.store with preemption := config.preemption } :=
    ⟨_, modify_apply _ k₁, by rw [← hk₁]; rfl⟩
  refine hset.bind fun k₂ hk₂ => ?_
  rw [← hk₂]
  exact ((keeps_store_initTraps config.lines).returns k₂).bind_pure _

theorem returns_store_initHeap (start size : Nat) (k : Kernel) :
    Returns Kernel.store (initHeap start size) k (Arena.attempt (·.init start size) k.arena).1
      { k.store with arena := (Arena.attempt (·.init start size) k.arena).2 } := by
  have hheap : Returns Kernel.store (onHeap (Arena.attempt (·.init start size))) k
      (Arena.attempt (·.init start size) k.arena).1
      { k.store with arena := (Arena.attempt (·.init start size) k.arena).2 } := by
    rw [← k.arena_locked .heap, ← discreet_store.locked k .heap]
    exact discreet_store.returns_withLock ⟨_, rfl, rfl⟩
  refine hheap.bind fun k' hk' => ?_
  rw [← hk']
  split
  all_goals exact (discreet_store.returns_logMessage _ _ _ k').bind_pure _

theorem returns_heapPhase (config : BootConfig) (k : Kernel) :
    Returns Kernel.store (heapPhase config) k
      ((Arena.attempt (·.init config.poolStart config.poolSize) k.arena).1.map
        (fun _ => ()) |>.mapError .pool)
      { k.store with
        arena := (Arena.attempt (·.init config.poolStart config.poolSize) k.arena).2 } := by
  refine returns_bootPhase discreet_store.logger _ fun k₁ hk₁ => ?_
  have harena : k.arena = k₁.arena := (congrArg Store.arena hk₁).symm
  rw [harena, ← hk₁]
  refine (returns_store_initHeap _ _ k₁).bind fun k₂ hk₂ => ?_
  rw [← hk₂]
  generalize (Arena.attempt (·.init config.poolStart config.poolSize) k₁.arena).1 = result
  cases result with
  | ok managed => exact returns_pure _ k₂
  | error e => exact returns_pure _ k₂

theorem returns_store_initTaskTable {segments : Segments} {answer : Except CreationError TaskId}
    {tasks : TaskTable} {arena : Arena}
    (hinit : TaskTable.init k.arena segments idleStart = (answer, tasks, arena)) :
    Returns Kernel.store (onTasks (withLock .heap (modifyGet (initTaskTable segments)))) k answer
      { k.store with tasks, arena } := by
  have hstore : ((k.locked .tasks).locked .heap).store = k.store :=
    (discreet_store.locked _ _).trans (discreet_store.locked k _)
  have harena : ((k.locked .tasks).locked .heap).arena = k.arena := congrArg Store.arena hstore
  refine discreet_store.returns_withLock (discreet_store.returns_withLock
    ⟨{ (k.locked .tasks).locked .heap with tasks, arena }, ?_, ?_⟩)
  · rw [modifyGet_apply, initTaskTable, harena, hinit]
  · exact congrArg (fun s : Store => { s with tasks, arena }) hstore

theorem returns_taskPhase (hk : k.installed = true) {idle : TaskId} {tasks : TaskTable}
    {arena : Arena}
    (hinit : TaskTable.init k.arena k.machine.settings.segments idleStart =
      (.ok idle, tasks, arena)) :
    Returns Kernel.store taskPhase k (.ok idle) { k.store with tasks, arena } := by
  refine returns_bootPhase discreet_store.logger _ fun k₁ hk₁ => ?_
  have hinstalled : k₁.installed = true := (congrArg Store.installed hk₁).trans hk
  have hsettings : k.machine.settings = k₁.machine.settings := (congrArg Store.settings hk₁).symm
  have harena : k.arena = k₁.arena := (congrArg Store.arena hk₁).symm
  rw [harena, hsettings] at hinit
  have htasks : Returns Kernel.store initTasks k₁ idle { k₁.store with tasks, arena } := by
    rw [Returns, initTasks, bind_of_ok (newTaskSegments_of_installed hinstalled)]
    refine (returns_store_initTaskTable hinit).bind fun k₂ hk₂ => ?_
    rw [← hk₂]
    exact (discreet_store.returns_logMessage _ _ _ k₂).bind_pure _
  rw [← hk₁]
  exact htasks.bind_pure _

/-- Without memory for the stack of the idle task the last phase does not end. -/
theorem exists_init_of_taskPhase (hk : k.Ready) {idle : TaskId} {k' : Kernel}
    (hphase : taskPhase k = .ok (.ok idle) k') :
    TaskTable.init k.arena k.machine.settings.segments idleStart =
        (.ok idle, k'.tasks, k'.arena) ∧
      k'.store = { k.store with tasks := k'.tasks, arena := k'.arena } := by
  cases hstack : k.arena.allocate idleStackSize with
  | none =>
      obtain ⟨k₁, hlog, hstore⟩ :=
        discreet_store.returns_logMessage .info "boot" ("scheduler" ++ "...") k
      have hready : k₁.Ready := ⟨(congrArg Store.installed hstore).trans hk.installed,
        (congrArg Store.base hstore).trans hk.base⟩
      have harena : k₁.arena = k.arena := congrArg Store.arena hstore
      obtain ⟨_, hhalt, _⟩ := initTasks_halts hready (harena ▸ hstack)
      rw [taskPhase, bootPhase, bind_of_ok hlog, bind_apply, bind_apply, hhalt] at hphase
      cases hphase
  | some stack =>
      have hanswer := TaskTable.fst_init k.arena k.machine.settings.segments idleStart
      rw [hstack] at hanswer
      cases hresult : TaskTable.init k.arena k.machine.settings.segments idleStart with
      | mk answer rest =>
          obtain ⟨tasks, arena⟩ := rest
          rw [hresult] at hanswer
          obtain rfl : answer = .ok 0 := hanswer
          obtain ⟨k₁, hk₁, hstore⟩ := returns_taskPhase hk.installed hresult
          obtain ⟨hidle, rfl⟩ := EStateM.Result.ok.inj (hk₁.symm.trans hphase)
          obtain rfl : 0 = idle := Except.ok.inj hidle
          obtain rfl : k₁.tasks = tasks := congrArg Store.tasks hstore
          obtain rfl : k₁.arena = arena := congrArg Store.arena hstore
          exact ⟨rfl, hstore⟩

/-- A boot that comes to its end has set up the heap and then the tasks. -/
theorem boot_cases (hbase : k.handlerTable.controller.base = lineVectorBase) {config : BootConfig}
    {idle : TaskId} {k' : Kernel} (hboot : boot config k = .ok (.ok idle) k') :
    ∃ managed opened,
      k.arena.init config.poolStart config.poolSize = .ok (managed, opened) ∧
      TaskTable.init opened k.machine.settings.segments idleStart =
        (.ok idle, k'.tasks, k'.arena) ∧
      k'.store = { k.store with
        tasks := k'.tasks, arena := k'.arena, installed := true,
        preemption := config.preemption } := by
  have hbegin : Returns Kernel.store (beginBoot config) k () { k.store with installed := true } :=
    ⟨_, modify_apply _ k, rfl⟩
  obtain ⟨k₁, hk₁, hstore₁⟩ := hbegin
  obtain ⟨k₂, hk₂, hstore₂⟩ := returns_trapPhase config k₁
  obtain ⟨k₃, hk₃, hstore₃⟩ := returns_heapPhase config k₂
  rw [boot, bind_of_ok hk₁, bind_of_ok hk₂] at hboot
  dsimp only at hboot
  rw [bind_of_ok hk₃] at hboot
  rw [hstore₁] at hstore₂
  have harena : k₂.arena = k.arena := congrArg Store.arena hstore₂
  rw [harena] at hboot hstore₃
  cases hpool : k.arena.init config.poolStart config.poolSize with
  | error e =>
      simp only [Arena.attempt, hpool] at hboot
      cases hboot
  | ok result =>
      obtain ⟨managed, opened⟩ := result
      simp only [Arena.attempt, hpool, Except.map, Except.mapError] at hboot
      simp only [Arena.attempt, hpool, hstore₂] at hstore₃
      have hready : k₃.Ready :=
        ⟨congrArg Store.installed hstore₃, (congrArg Store.base hstore₃).trans hbase⟩
      obtain ⟨hinit, hstore⟩ := exists_init_of_taskPhase hready hboot
      have hopened : k₃.arena = opened := congrArg Store.arena hstore₃
      have hsettings : k₃.machine.settings = k.machine.settings := congrArg Store.settings hstore₃
      rw [hopened, hsettings] at hinit
      rw [hstore₃] at hstore
      exact ⟨managed, opened, rfl, hinit, hstore⟩

/-- The boot has come to its end, and of the kernel it leaves `p` is true. -/
def endsWith (p : Kernel → Bool) :
    EStateM.Result Stop Kernel (Except BootFailure TaskId) → Bool
  | .ok (.ok i) k => decide (i = 0) && p k
  | _ => false

theorem exists_of_endsWith {p : Kernel → Bool}
    {result : EStateM.Result Stop Kernel (Except BootFailure TaskId)}
    (h : endsWith p result = true) : ∃ k, result = .ok (.ok 0) k ∧ p k = true := by
  unfold endsWith at h
  split at h
  next i k =>
    obtain ⟨hi, hp⟩ := Bool.and_eq_true_iff.mp h
    exact ⟨k, by rw [of_decide_eq_true hi], hp⟩
  next => cases h

end KernelM

end Kernel16
