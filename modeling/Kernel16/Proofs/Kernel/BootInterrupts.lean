import Kernel16.Proofs.Kernel.Booting
import Kernel16.Proofs.Kernel.Servicing

/-!
# Interrupts while the kernel boots

From the end of the first phase of a boot interrupts are enabled, and the timer may already
yield: before there is a heap, before there are tasks, and when the idle task is the only one.
At each of these points nothing can be scheduled.  So a boot with interrupts leaves the footing
of the boot without, but for one service for each interrupt, and it leaves what only handlers
change the way the handlers have left it.
-/

namespace Kernel16

theorem TaskTable.OnlyIdle.calm {t : TaskTable} {stack : Stack} (h : t.OnlyIdle stack) :
    t.Calm where
  reap_eq := by
    intro s
    refine List.foldl_fixed' (fun i => if_neg ?_) _
    by_cases hi : i = 0
    · simp [reapable, hi, h.running]
    · simp [reapable, h.others i hi]
  rotate_eq := by
    cases hsearch : t.search 0 t.cursor slotCount t.cursor with
    | none => simp [rotate, h.current_eq, hsearch]
    | some new =>
        have heligible := search_eligible hsearch
        simp only [eligible, Bool.and_eq_true, decide_eq_true_eq] at heligible
        rw [h.others new heligible.1] at heligible
        exact absurd heligible.2 (by decide)

/-! ## Phases -/

namespace KernelM

variable {σ : Type} {g : Control → σ} {k : Kernel}

theorem returns_scene_heapPhase {config : BootConfig} {managed : Nat} {opened : Arena}
    (hpool : k.arena.init config.poolStart config.poolSize = .ok (managed, opened)) :
    Returns (Kernel.scene g) (heapPhase config) k (.ok ())
      (k.footing.refit k.tasks opened, g k.control) := by
  refine returns_bootPhase discreet_scene.logger _ fun k₁ hk₁ => ?_
  have hlocked : (k₁.locked .heap).scene g = k.scene g := (discreet_scene.locked k₁ _).trans hk₁
  have harena : (k₁.locked .heap).arena = k.arena := congrArg (fun scene => scene.1.arena) hlocked
  have htasks : (k₁.locked .heap).tasks = k.tasks := congrArg (fun scene => scene.1.tasks) hlocked
  have hheap : Returns (Kernel.scene g)
      (onHeap (Arena.attempt (·.init config.poolStart config.poolSize))) k₁ (.ok managed)
      (k.footing.refit k.tasks opened, g k.control) := by
    refine discreet_scene.returns_withLock ⟨{ k₁.locked .heap with arena := opened }, ?_, ?_⟩
    · rw [modifyGet_apply, harena, Arena.attempt, hpool]
    · rw [← htasks]
      exact congrArg (fun scene => (scene.1.refit (k₁.locked .heap).tasks opened, scene.2)) hlocked
  have hinit : Returns (Kernel.scene g) (initHeap config.poolStart config.poolSize) k₁
      (.ok managed) (k.footing.refit k.tasks opened, g k.control) := by
    refine hheap.bind fun k₂ hk₂ => ?_
    rw [← hk₂]
    exact (discreet_scene.returns_logMessage _ _ _ k₂).bind_pure _
  refine hinit.bind fun k₂ hk₂ => ?_
  rw [← hk₂]
  exact returns_pure _ k₂

theorem returns_scene_taskPhase (hk : k.installed = true) {base : Nat} {arena : Arena}
    (hstack : k.arena.allocate idleStackSize = some (base, arena)) :
    Returns (Kernel.scene g) taskPhase k (.ok 0)
      (k.footing.refit (.idling k.machine.settings.segments idleStart base) arena,
        g k.control) := by
  refine returns_bootPhase discreet_scene.logger _ fun k₁ hk₁ => ?_
  have hfooting₁ : k₁.footing = k.footing := (Prod.mk.inj hk₁).1
  have hinstalled : k₁.installed = true := (congrArg Footing.installed hfooting₁).trans hk
  have hsettings : k₁.machine.settings = k.machine.settings :=
    congrArg (fun f => f.machine.settings) hfooting₁
  have hlocked : ((k₁.locked .tasks).locked .heap).scene g = k.scene g :=
    (discreet_scene.locked _ _).trans ((discreet_scene.locked k₁ _).trans hk₁)
  have harena : ((k₁.locked .tasks).locked .heap).arena = k.arena :=
    congrArg (fun scene => scene.1.arena) hlocked
  generalize htable : TaskTable.idling k.machine.settings.segments idleStart base = tasks
  have hinit : Returns (Kernel.scene g)
      (onTasks (withLock .heap (modifyGet (initTaskTable k.machine.settings.segments)))) k₁ (.ok 0)
      (k.footing.refit tasks arena, g k.control) := by
    refine discreet_scene.returns_withLock (discreet_scene.returns_withLock
      ⟨{ (k₁.locked .tasks).locked .heap with tasks, arena }, ?_, ?_⟩)
    · rw [modifyGet_apply, initTaskTable, harena, TaskTable.init_of_stack hstack, htable]
    · exact congrArg (fun scene => (scene.1.refit tasks arena, scene.2)) hlocked
  have htasks : Returns (Kernel.scene g) initTasks k₁ 0
      (k.footing.refit tasks arena, g k.control) := by
    rw [Returns, initTasks, bind_of_ok (newTaskSegments_of_installed hinstalled), hsettings]
    refine hinit.bind fun k₂ hk₂ => ?_
    rw [← hk₂]
    exact (discreet_scene.returns_logMessage _ _ _ k₂).bind_pure _
  exact htasks.bind_pure _

end KernelM

/-! ## Boots with interrupts -/

/-- What arrives after each of the phases. -/
structure BootInterrupts where
  afterTraps : List Arrival := []
  afterHeap : List Arrival := []
  afterTasks : List Arrival := []

def BootInterrupts.arrivals (b : BootInterrupts) : List Arrival :=
  b.afterTraps ++ b.afterHeap ++ b.afterTasks

namespace KernelM

variable {σ : Type} {g : Control → σ} {run : Handlers} {k : Kernel} {config : BootConfig}

/-- A boot from the end of the trap phase on. -/
def finishBoot (run : Handlers) (config : BootConfig) (b : BootInterrupts) :
    KernelM (Except BootFailure TaskId) := do
  deliver run b.afterTraps
  match ← heapPhase config with
  | .error e => return .error e
  | .ok () =>
      deliver run b.afterHeap
      let result ← taskPhase
      deliver run b.afterTasks
      return result

def bootInterrupted (run : Handlers) (config : BootConfig) (b : BootInterrupts) :
    KernelM (Except BootFailure TaskId) := do
  beginBoot config
  match ← trapPhase config with
  | .error e => return .error e
  | .ok () => finishBoot run config b

theorem bootInterrupted_nothing (run : Handlers) (config : BootConfig) :
    bootInterrupted run config {} = boot config := by
  refine bind_congr fun _ => bind_congr fun traps => ?_
  cases traps with
  | error e => rfl
  | ok _ =>
      change finishBoot run config {} = _
      rw [finishBoot, deliver_nil, pure_bind]
      refine bind_congr fun heap => ?_
      cases heap with
      | error e => rfl
      | ok _ => simp only [pure_bind, bind_pure]

/-- With interrupts or without, the boot comes to its end, as long as there is memory. -/
theorem returns_scene_finishBoot (hrun : run.Keep (Kernel.scene g)) (hk : k.footing.Idle)
    {managed base : Nat} {opened arena : Arena}
    (hpool : k.arena.init config.poolStart config.poolSize = .ok (managed, opened))
    (hstack : opened.allocate idleStackSize = some (base, arena)) (b : BootInterrupts) :
    ∃ services, Attended (Control.ShowsTable g) k.handlerTable b.arrivals services ∧
      Returns (Kernel.scene g) (finishBoot run config b) k (.ok 0)
        ((k.footing.refit (.idling k.machine.settings.segments idleStart base) arena).serveAll
          services, g k.control) := by
  have hidling := TaskTable.onlyIdle_idling k.machine.settings.segments idleStart base
  generalize htable : TaskTable.idling k.machine.settings.segments idleStart base = tasks
    at hidling ⊢
  obtain ⟨services₁, hattended₁, k₁, hk₁, hscene₁⟩ := returns_scene_deliver hrun hk b.afterTraps
  obtain ⟨hfooting₁, hcontrol₁⟩ := Prod.mk.inj hscene₁
  have hidle₁ : k₁.footing.Idle := hfooting₁ ▸ hk.serveAll services₁
  have harena₁ : k₁.arena = k.arena :=
    (congrArg Footing.arena hfooting₁).trans (by rw [Footing.serveAll_eq]; rfl)
  obtain ⟨k₂, hk₂, hscene₂⟩ := returns_scene_heapPhase (g := g) (k := k₁) (harena₁ ▸ hpool)
  obtain ⟨hfooting₂, hcontrol₂⟩ := Prod.mk.inj hscene₂
  have hidle₂ : k₂.footing.Idle := hfooting₂ ▸ hidle₁.refit hidle₁.calm opened
  obtain ⟨services₃, hattended₃, k₃, hk₃, hscene₃⟩ := returns_scene_deliver hrun hidle₂ b.afterHeap
  obtain ⟨hfooting₃, hcontrol₃⟩ := Prod.mk.inj hscene₃
  have hidle₃ : k₃.footing.Idle := hfooting₃ ▸ hidle₂.serveAll services₃
  rw [hfooting₂, hfooting₁] at hfooting₃
  have harena₃ : k₃.arena = opened :=
    (congrArg Footing.arena hfooting₃).trans (by rw [Footing.serveAll_eq]; rfl)
  have hsettings₃ : k₃.machine.settings = k.machine.settings := by
    refine (congrArg (fun f => f.machine.settings) hfooting₃).trans ?_
    rw [← Footing.refit_serveAll, ← Footing.serveAll_append]
    exact Footing.settings_serveAll rfl _
  obtain ⟨k₄, hk₄, hscene₄⟩ :=
    returns_scene_taskPhase (g := g) hidle₃.installed (harena₃ ▸ hstack)
  rw [hsettings₃, htable] at hscene₄
  obtain ⟨hfooting₄, hcontrol₄⟩ := Prod.mk.inj hscene₄
  have hidle₄ : k₄.footing.Idle := hfooting₄ ▸ hidle₃.refit hidling.calm arena
  obtain ⟨services₅, hattended₅, k₅, hk₅, hscene₅⟩ := returns_scene_deliver hrun hidle₄ b.afterTasks
  refine ⟨services₁ ++ services₃ ++ services₅, ?attended, k₅, ?run, ?scene⟩
  case attended =>
    have hsame₂ := hcontrol₂.trans hcontrol₁
    have hsame₄ := hcontrol₄.trans (hcontrol₃.trans hsame₂)
    exact (hattended₁.append (hattended₃.of_table fun hg => hg k₂.control k.control hsame₂)).append
      (hattended₅.of_table fun hg => hg k₄.control k.control hsame₄)
  case run =>
    rw [finishBoot, bind_of_ok hk₁, bind_of_ok hk₂]
    dsimp only
    rw [bind_of_ok hk₃, bind_of_ok hk₄, bind_of_ok hk₅]
    rfl
  case scene =>
    rw [hscene₅, hcontrol₄, hcontrol₃, hcontrol₂, hcontrol₁, hfooting₄, hfooting₃]
    simp only [Footing.refit_serveAll, Footing.refit_refit, Footing.serveAll_append]

/-- The boot that is not interrupted and the one that is come from the same kernel, with traps. -/
theorem exists_trapsUp (config : BootConfig) (k : Kernel) :
    ∃ k₁, k₁.store = { k.store with installed := true, preemption := config.preemption } ∧
      ∀ run b, bootInterrupted run config b k = finishBoot run config b k₁ := by
  have hbegin : Returns Kernel.store (beginBoot config) k () { k.store with installed := true } :=
    ⟨_, modify_apply _ k, rfl⟩
  obtain ⟨k₁, hk₁, hstore₁⟩ := hbegin
  obtain ⟨k₂, hk₂, hstore₂⟩ := returns_trapPhase config k₁
  rw [hstore₁] at hstore₂
  exact ⟨k₂, hstore₂, fun run b => (bind_of_ok hk₁ _).trans (bind_of_ok hk₂ _)⟩

/-- What only handlers change is as the handlers leave it. -/
theorem exists_finishBoot (hrun : run.Keep Kernel.footing) (hk : k.footing.Idle)
    {managed base : Nat} {opened arena : Arena}
    (hpool : k.arena.init config.poolStart config.poolSize = .ok (managed, opened))
    (hstack : opened.allocate idleStackSize = some (base, arena)) (b : BootInterrupts) :
    ∃ services k', finishBoot run config b k = .ok (.ok 0) k' ∧
      Attended (run.Keep Kernel.handlerTable) k.handlerTable b.arrivals services ∧
      k'.footing = (k.footing.refit (.idling k.machine.settings.segments idleStart base)
        arena).serveAll services ∧
      ∀ {σ : Type} (g : Control → σ), run.Keep (fun k => g k.control) →
        g k'.control = g k.control := by
  have hends {σ : Type} (g : Control → σ) (hg : run.Keep fun k => g k.control) :=
    returns_scene_finishBoot (hrun.scene hg) hk hpool hstack b
  have hunit : run.Keep fun _ => () := fun id line => (hrun id line).map fun _ => ()
  obtain ⟨services, k', hk', hattended, hfooting⟩ : ∃ services k',
      finishBoot run config b k = .ok (.ok 0) k' ∧
        Attended (run.Keep Kernel.handlerTable) k.handlerTable b.arrivals services ∧
        k'.footing = (k.footing.refit (.idling k.machine.settings.segments idleStart base)
          arena).serveAll services := by
    by_cases htable : run.Keep Kernel.handlerTable
    · obtain ⟨services, hattended, k', hk', hscene⟩ := hends Control.handlerTable htable
      have hcalled := hattended.called fun _ _ hsame => hsame
      exact ⟨services, k', hk', ⟨hattended.lines, fun _ => hcalled⟩, (Prod.mk.inj hscene).1⟩
    · obtain ⟨services, hattended, k', hk', hscene⟩ := hends (fun _ => ()) hunit
      exact ⟨services, k', hk', ⟨hattended.lines, fun hkeep => absurd hkeep htable⟩,
        (Prod.mk.inj hscene).1⟩
  refine ⟨services, k', hk', hattended, hfooting, fun g hg => ?_⟩
  obtain ⟨_, _, k'', hk'', hscene⟩ := hends g hg
  obtain ⟨_, rfl⟩ := EStateM.Result.ok.inj (hk'.symm.trans hk'')
  exact (Prod.mk.inj hscene).2

end KernelM

/-! ## The interrupt flag -/

namespace Conduct

open KernelM

/-- When a program returns, the interrupt flag is as it was. -/
def restoring : Conduct where
  state := Kernel.Ready
  continues := fun k k' => k'.Ready ∧ k'.machine.interrupts = k.machine.interrupts
  stops := fun _ _ _ => True
  ready := fun hk => hk
  state_of := fun _ h => h.1
  trans := fun h h' => ⟨h'.1, h'.2.trans h.2⟩
  stops_of := fun _ _ => trivial
  ordinary := fun hk h => ⟨h.ready hk, h.interrupts⟩

variable {run : Handlers}

theorem restoring_yield : restoring.Obeys yield := by
  intro k hk
  cases hhalted : k.halted with
  | true =>
      rw [yield_of_halted hhalted]
      exact .ok ⟨hk, rfl⟩
  | false =>
      obtain ⟨k₁, hk₁, hend⟩ := yield_cases hk.installed hhalted
      have hready₁ : k₁.Ready := hk₁.ready ⟨hk.installed, hk.base⟩
      have hunlocked {k' : Kernel} (hready : k'.Ready) (hmasked : k'.machine.interrupts = false) :
          restoring.continues k (k'.unlocked k.machine.interrupts) :=
        ⟨(Kernel.continues_unlocked hready _).ready,
          k'.interrupts_unlocked _ hready.installed hmasked⟩
      rcases hend with hnone | ⟨k₂, hk₂, hreturns | ⟨_, hstops⟩⟩
      · rw [hnone]
        exact .ok (hunlocked hready₁ hk₁.interrupts)
      · rw [hreturns]
        exact .ok (hunlocked ⟨hk₂.installed.trans hready₁.installed, hk₂.base.trans hready₁.base⟩
          (hk₂.interrupts.trans hk₁.interrupts))
      · rw [hstops]
        exact .error trivial

theorem restoring_taskPhase : restoring.Obeys taskPhase := by
  have hinit : restoring.Obeys initTasks := by
    intro k hk
    obtain ⟨k', hk', hend⟩ := initTasks_cases hk.installed
    rcases hend with ⟨_, i, hi⟩ | ⟨_, reason, hreason⟩
    · rw [hi]
      exact .ok (restoring.ordinary hk hk')
    · obtain ⟨k'', hhalt, _⟩ := halt_cases (α := TaskId) (hk'.ready hk).installed reason
      rw [hreason, hhalt]
      exact .error trivial
  exact Obeys.bootPhase _ (hinit.bind fun _ => obeys_of_ordinary (ordinary_pure _))

theorem restoring_deliver (hrun : restoring.Handle run) (arrivals : List Arrival) :
    restoring.Obeys (deliver run arrivals) := by
  induction arrivals with
  | nil => exact obeys_of_ordinary (ordinary_pure ())
  | cons a rest ih =>
      have hvector := Controller.not_lt_line a.inRange
      have hdispatch := hrun.dispatch restoring_yield (fun h => absurd h hvector) a.frame
      exact hdispatch.discard.bind fun _ => ih

theorem restoring_finishBoot (hrun : restoring.Handle run) (config : BootConfig)
    (b : BootInterrupts) : restoring.Obeys (finishBoot run config b) := by
  refine (restoring_deliver hrun _).bind fun _ => (obeys_heapPhase config).bind fun heap => ?_
  cases heap with
  | error e => exact obeys_of_ordinary (ordinary_pure _)
  | ok _ =>
      refine (restoring_deliver hrun _).bind fun _ => restoring_taskPhase.bind fun result => ?_
      exact (restoring_deliver hrun _).bind fun _ => obeys_of_ordinary (ordinary_pure _)

end Conduct

namespace Kernel

open KernelM

variable {run : Handlers} {arrivals : List Arrival} {k k' : Kernel}

/-! ## The boot that is not disturbed -/

theorem switches_eq_filter_effects (k : Kernel) : k.switches = k.effects.filter Event.isSwitch := by
  simp only [switches, effects, List.filter_filter]
  refine List.filter_congr fun e _ => ?_
  cases e <;> rfl

/-- The second kernel is the first one, but for the service of these interrupts and for what the
handlers may change.  What they may change is as it was unless they do change it. -/
structure Unharmed (run : Handlers) (arrivals : List Arrival) (k k' : Kernel) : Prop where
  tasks_eq : k'.tasks = k.tasks
  arena_eq : k'.arena = k.arena
  installed_eq : k'.installed = k.installed
  halted_eq : k'.halted = k.halted
  settings_eq : k'.machine.settings = k.machine.settings
  halts_eq : k'.machine.halts = k.machine.halts
  switches_eq : k'.switches = k.switches
  switchEvents_eq : k'.machine.switchEvents = k.machine.switchEvents
  maskRegisters_eq : k'.maskRegisters = k.maskRegisters
  read_eq : ∀ address, address ≠ Controller.primaryCommand →
    address ≠ Controller.secondaryCommand → k'.machine.read address = k.machine.read address
  effects_eq : ∃ services,
    Attended (run.Keep handlerTable) k.handlerTable arrivals services ∧
      k'.effects = k.effects ++ Service.eventsOfAll k.ticks services
  ticks_eq : k'.ticks = k.ticks + .ofNat (arrivals.countP (·.line = timerLine))
  controller_eq : k'.handlerTable.controller = k.handlerTable.controller
  handlerTable_eq : run.Keep Kernel.handlerTable → k'.handlerTable = k.handlerTable
  preemption_eq : run.Keep Kernel.preemption → k'.preemption = k.preemption
  vectors_eq : run.Keep (fun k => k.machine.vectors) → k'.machine.vectors = k.machine.vectors
  interrupts_eq : Conduct.restoring.Handle run → k'.machine.interrupts = k.machine.interrupts

theorem unharmed_of_served {services : List Service}
    (hattended : Attended (run.Keep handlerTable) k.handlerTable arrivals services)
    (hfooting : k'.footing = k.footing.serveAll services)
    (hcontrol : ∀ {σ : Type} (g : Control → σ), run.Keep (fun k => g k.control) →
      g k'.control = g k.control)
    (hinterrupts : Conduct.restoring.Handle run →
      k'.machine.interrupts = k.machine.interrupts) : k.Unharmed run arrivals k' := by
  rw [Footing.serveAll_eq] at hfooting
  have hbare : k'.machine.bare = k.machine.bare.acknowledgeAll (services.map Service.line) :=
    congrArg Footing.machine hfooting
  have hshielded := Machine.shielded_acknowledgeAll (m := k.machine.bare) rfl
    (services.map Service.line)
  rw [← hbare] at hshielded
  have heffects : k'.effects = k.effects ++ Service.eventsOfAll k.ticks services :=
    congrArg Footing.effects hfooting
  have hread : ∀ address, address ≠ Controller.primaryCommand →
      address ≠ Controller.secondaryCommand →
        k'.machine.read address = k.machine.read address := by
    intro address hprimary hsecondary
    have hread := Machine.read_acknowledgeAll (m := k.machine.bare) (services.map Service.line)
      hprimary hsecondary
    rw [← hbare] at hread
    exact hread
  constructor
  case tasks_eq => exact congrArg Footing.tasks hfooting
  case arena_eq => exact congrArg Footing.arena hfooting
  case installed_eq => exact congrArg Footing.installed hfooting
  case halted_eq => exact congrArg Footing.halted hfooting
  case settings_eq => exact hshielded.settings
  case halts_eq => exact hshielded.halts
  case switches_eq =>
    have hnone : (Service.eventsOfAll k.ticks services).filter Event.isSwitch = [] :=
      List.filter_eq_nil_iff.mpr fun e he =>
        Bool.eq_false_iff.mp (Service.isSwitch_of_mem_eventsOfAll he)
    rw [switches_eq_filter_effects, heffects, List.filter_append, hnone, List.append_nil,
      switches_eq_filter_effects]
  case switchEvents_eq => exact hshielded.switchEvents
  case maskRegisters_eq =>
    exact Prod.ext (hread Controller.primaryData (by decide) (by decide))
      (hread Controller.secondaryData (by decide) (by decide))
  case read_eq => exact hread
  case effects_eq => exact ⟨services, hattended, heffects⟩
  case ticks_eq =>
    have hcount : Service.countTicks services = arrivals.countP (·.line = timerLine) := by
      have hcount := congrArg (List.countP (· = timerLine)) hattended.lines
      rw [List.countP_map, List.countP_map] at hcount
      exact hcount
    rw [← hcount]
    exact congrArg Footing.ticks hfooting
  case controller_eq => exact congrArg Controller.mk (congrArg Footing.base hfooting)
  case handlerTable_eq => exact hcontrol Control.handlerTable
  case preemption_eq => exact hcontrol Control.preemption
  case vectors_eq => exact hcontrol Control.vectors
  case interrupts_eq => exact hinterrupts

/-- Interrupts that arrive while the kernel boots for the first time do no harm. -/
theorem bootInterrupted_unharmed {config : BootConfig} {i : TaskId} {plain : Kernel}
    (hrun : run.Keep Kernel.footing) (hbase : k.handlerTable.controller.base = lineVectorBase)
    (hblank : k.tasks.Blank) (hboot : boot config k = .ok (.ok i) plain) (b : BootInterrupts) :
    ∃ k', bootInterrupted run config b k = .ok (.ok i) k' ∧ plain.Unharmed run b.arrivals k' := by
  obtain ⟨managed, opened, hpool, hinit, _⟩ := boot_cases hbase hboot
  obtain ⟨base, arena, hstack⟩ : ∃ base arena,
      opened.allocate idleStackSize = some (base, arena) := by
    cases hstack : opened.allocate idleStackSize with
    | some stack => exact ⟨stack.1, stack.2, rfl⟩
    | none =>
        rw [TaskTable.init_of_no_stack hstack] at hinit
        cases (Prod.mk.inj hinit).1
  obtain ⟨k₁, hstore, htraps⟩ := exists_trapsUp config k
  have htasks : k₁.tasks = k.tasks := congrArg Store.tasks hstore
  have hcalm : k₁.tasks.Calm := htasks ▸ hblank.calm
  have hidle : k₁.footing.Idle :=
    ⟨congrArg Store.installed hstore, (congrArg Store.base hstore).trans hbase, hcalm⟩
  have harena : k₁.arena = k.arena := congrArg Store.arena hstore
  have hends := exists_finishBoot hrun hidle (harena ▸ hpool) hstack
  obtain ⟨unserved, plain', hplain, hunattended, hfooting₀, hcontrol₀⟩ := hends {}
  obtain ⟨services, k', hk', hattended, hfooting, hcontrol⟩ := hends b
  obtain rfl : unserved = [] := List.map_eq_nil_iff.mp hunattended.lines
  have htable : run.Keep handlerTable → k₁.handlerTable = plain'.handlerTable :=
    fun hkeep => (hcontrol₀ Control.handlerTable hkeep).symm
  have hserved : k'.footing = plain'.footing.serveAll services :=
    hfooting.trans (congrArg (Footing.serveAll · services) hfooting₀.symm)
  have hinterrupts : Conduct.restoring.Handle run →
      k'.machine.interrupts = plain'.machine.interrupts := by
    intro hrestore
    have hready : k₁.Ready := ⟨hidle.installed, hidle.base⟩
    have hflag₀ := Conduct.restoring_finishBoot hrestore config {} k₁ hready
    have hflag := Conduct.restoring_finishBoot hrestore config b k₁ hready
    rw [hplain, Conduct.allows_ok_iff] at hflag₀
    rw [hk', Conduct.allows_ok_iff] at hflag
    exact hflag.2.trans hflag₀.2.symm
  rw [← bootInterrupted_nothing run config, htraps, hplain] at hboot
  obtain ⟨hi, rfl⟩ := EStateM.Result.ok.inj hboot
  exact ⟨k', by rw [htraps, hk', hi], unharmed_of_served (hattended.of_table htable) hserved
    (fun g hg => (hcontrol g hg).trans (hcontrol₀ g hg).symm) hinterrupts⟩

/-! ## Two boots -/

/-- The driver of line 1 waits for one interrupt only. -/
def withDriver : Kernel := (attachHandler 1 3).after {}

/-- A handler that does nothing but take itself off its line has done so after the boot. -/
theorem bootInterrupted_oneShot :
    oneShot.Keep Kernel.footing ∧ withDriver.tasks.Blank ∧
      withDriver.handlerTable.controller.base = lineVectorBase ∧
      ∃ plain k',
        boot { poolStart := 268435456, poolSize := 8192, maxLevel := none } withDriver =
          .ok (.ok 0) plain ∧
        bootInterrupted oneShot { poolStart := 268435456, poolSize := 8192, maxLevel := none }
          { afterTasks := [{ line := 1 }] } withDriver = .ok (.ok 0) k' ∧
        plain.handlerTable.handler? 1 = some 3 ∧ k'.handlerTable.handler? 1 = none := by
  have hrun : oneShot.Keep Kernel.footing := Handlers.keep_footing_ofBodies fun _ => by decide
  have hplain : endsWith (fun k => decide (k.handlerTable.handler? 1 = some 3))
      (boot { poolStart := 268435456, poolSize := 8192, maxLevel := none } withDriver) = true := by
    decide +kernel
  have hinterrupted : endsWith (fun k => decide (k.handlerTable.handler? 1 = none))
      (bootInterrupted oneShot { poolStart := 268435456, poolSize := 8192, maxLevel := none }
        { afterTasks := [{ line := 1 }] } withDriver) = true := by
    decide +kernel
  obtain ⟨plain, hplain, hattached⟩ := exists_of_endsWith hplain
  obtain ⟨k', hk', hdetached⟩ := exists_of_endsWith hinterrupted
  exact ⟨hrun, TaskTable.blank_empty, by decide +kernel, plain, k', hplain, hk',
    of_decide_eq_true hattached, of_decide_eq_true hdetached⟩

/-- The timer may yield, and ticks in each phase; a line of the second controller and the line of
the driver are raised between. -/
def busyBoot : BootInterrupts where
  afterTraps := [{ line := 0 }, { line := 9 }]
  afterHeap := [{ line := 1 }, { line := 0 }]
  afterTasks := [{ line := 0 }, { line := 1 }]

theorem bootInterrupted_unharmed_busyBoot :
    oneShot.Keep Kernel.footing ∧ withDriver.handlerTable.controller.base = lineVectorBase ∧
      withDriver.tasks.Blank ∧
      ∃ plain k',
        boot { poolStart := 4096, poolSize := 8192, preemption := true } withDriver =
          .ok (.ok 0) plain ∧
        bootInterrupted oneShot { poolStart := 4096, poolSize := 8192, preemption := true }
          busyBoot withDriver = .ok (.ok 0) k' ∧
        plain.Unharmed oneShot busyBoot.arrivals k' ∧ k'.ticks = 3 := by
  have hrun : oneShot.Keep Kernel.footing := Handlers.keep_footing_ofBodies fun _ => by decide
  have hbase : withDriver.handlerTable.controller.base = lineVectorBase := by decide +kernel
  have hblank : withDriver.tasks.Blank := TaskTable.blank_empty
  have hplain : endsWith (fun k => decide (k.ticks = 0))
      (boot { poolStart := 4096, poolSize := 8192, preemption := true } withDriver) = true := by
    decide +kernel
  obtain ⟨plain, hplain, hticks⟩ := exists_of_endsWith hplain
  obtain ⟨k', hk', hunharmed⟩ := bootInterrupted_unharmed hrun hbase hblank hplain busyBoot
  refine ⟨hrun, hbase, hblank, plain, k', hplain, hk', hunharmed, ?_⟩
  rw [hunharmed.ticks_eq, of_decide_eq_true hticks]
  rfl

end Kernel

end Kernel16
