import Kernel16.Proofs.Kernel.Conduct

/-!
# A halt is final

Whatever halts the kernel, a halt remembers it, masks interrupts and stops the machine, once
and as the last thing that happens.  An exception does nothing else than that.

No operation forgets a halt, and each way to a switch looks for it first, also the one of a
timer interrupt, of the idle task and of a new boot.  So the processor is never switched
again, whatever the kernel is called for.
-/

namespace Kernel16

namespace Kernel

/-- No halt happens, and no switch if the kernel has halted before. -/
structure Continues (k k' : Kernel) : Prop where
  ready : k'.Ready
  halted : k'.halted = k.halted
  events : k.Adds (fun e => e.isHalt = false ∧ (k.halted = true → e.isSwitch = false)) k'

/-- The kernel goes on until it halts; then nothing follows. -/
structure Halts (k k' : Kernel) : Prop where
  ready : k'.Ready
  halted : k'.halted = true
  interrupts : k'.machine.interrupts = false
  events : ∃ es, k'.trace.toList = k.trace.toList ++ es ++ [.halt false] ∧
    ∀ e ∈ es, e.isHalt = false ∧ (k.halted = true → e.isSwitch = false)

variable {k k' k'' : Kernel}

theorem Continues.refl (hk : k.Ready) : k.Continues k := ⟨hk, rfl, adds_of_trace_eq rfl⟩

theorem continues_setInterrupts (hk : k.Ready) (enabled : Bool) :
    k.Continues (k.setInterrupts enabled) :=
  ⟨⟨hk.installed, hk.base⟩, rfl, adds_of_trace_eq rfl⟩

theorem continues_unlocked (hk : k.Ready) (before : Bool) : k.Continues (k.unlocked before) := by
  unfold unlocked
  split
  · exact continues_setInterrupts hk true
  · exact .refl hk

theorem Continues.trans (h : k.Continues k') (h' : k'.Continues k'') : k.Continues k'' where
  ready := h'.ready
  halted := h'.halted.trans h.halted
  events := h.events.trans (h'.events.imp fun _ he => h.halted ▸ he)

theorem Continues.halts (h : k.Continues k') (h' : k'.Halts k'') : k.Halts k'' where
  ready := h'.ready
  halted := h'.halted
  interrupts := h'.interrupts
  events := by
    obtain ⟨es, htrace, hes⟩ := h.events
    obtain ⟨es', htrace', hes'⟩ := h'.events
    refine ⟨es ++ es', by rw [htrace', htrace, List.append_assoc k.trace.toList], ?_⟩
    intro e he
    exact (List.mem_append.mp he).elim (hes e) fun he => h.halted ▸ hes' e he

theorem Ordinary.continues (h : k.Ordinary k') (hk : k.Ready) : k.Continues k' where
  ready := h.ready hk
  halted := h.halted
  events := h.events.imp fun e he => by
    rw [Event.isOrdinary, Bool.and_eq_true, Bool.and_eq_true, Bool.not_eq_true',
      Bool.not_eq_true'] at he
    exact ⟨he.1.1, fun _ => he.1.2⟩

theorem Switched.continues (h : k.Switched k') (hk : k.Ready) (hhalted : k.halted = false) :
    k.Continues k' where
  ready := ⟨h.installed.trans hk.installed, h.base.trans hk.base⟩
  halted := h.halted
  events := by
    obtain ⟨switch, image, htrace⟩ := h.trace
    refine adds_of_push htrace ⟨rfl, fun h => ?_⟩
    rw [hhalted] at h
    cases h

theorem HaltsAfter.halts (h : k.HaltsAfter [] k') (hk : k.Ready) : k.Halts k' where
  ready := ⟨h.installed.trans hk.installed, h.handlerTable ▸ hk.base⟩
  halted := h.halted
  interrupts := h.interrupts
  events := ⟨[], by rw [h.trace, List.append_nil, List.nil_append], List.forall_mem_nil _⟩

end Kernel

namespace KernelM

variable {k : Kernel} {run : Handlers}

/-- Without memory for its stack there is no idle task. -/
theorem initTasks_halts (hk : k.Ready) (hnone : k.arena.allocate idleStackSize = none) :
    ∃ k', initTasks k = .error .cpuHalted k' ∧ k.Halts k' := by
  obtain ⟨k₁, hk₁, hend⟩ := initTasks_cases hk.installed
  rcases hend with ⟨hsome, _⟩ | ⟨_, reason, hreason⟩
  · rw [hnone] at hsome
    cases hsome
  · have hcontinues := hk₁.continues hk
    obtain ⟨k₂, hhalt, hk₂⟩ := halt_cases (α := TaskId) hcontinues.ready.installed reason
    exact ⟨k₂, hreason.trans hhalt,
      hcontinues.halts (hk₂.halts hcontinues.ready)⟩

end KernelM

namespace Conduct

open KernelM

/-- A program halts as the last thing it does, or it goes on until it returns or the machine
does no more switches. -/
def halting : Conduct where
  state := Kernel.Ready
  continues := Kernel.Continues
  stops := fun k stop k' =>
    match stop with
    | .cpuHalted => k.Halts k'
    | .switchBudget => k.Continues k'
    | .noMachine _ => False
  ready := fun hk => hk
  state_of := fun _ h => h.ready
  trans := Kernel.Continues.trans
  stops_of := by
    intro k k' k'' stop h h'
    cases stop with
    | cpuHalted => exact h.halts h'
    | switchBudget => exact h.trans h'
    | noMachine reason => exact h'
  ordinary := fun hk h => h.continues hk

variable {α : Type} {run : Handlers}

theorem halting_halt (reason : String) : halting.Obeys (halt reason : KernelM α) := by
  intro k hk
  obtain ⟨k', hhalt, hk'⟩ := halt_cases (α := α) hk.installed reason
  rw [hhalt]
  exact .error (hk'.halts hk)

theorem halting_setInterrupts (enabled : Bool) : halting.Obeys (setInterrupts enabled) :=
  fun _ hk => .ok (Kernel.continues_setInterrupts hk enabled)

theorem halting_yield : halting.Obeys yield := by
  intro k hk
  cases hhalted : k.halted with
  | true =>
      rw [yield_of_halted hhalted]
      exact .ok (.refl hk)
  | false =>
      obtain ⟨k₁, hk₁, hend⟩ := yield_cases hk.installed hhalted
      have hmasked := Kernel.continues_setInterrupts hk false
      have hchosen := hmasked.trans (hk₁.continues hmasked.ready)
      rcases hend with hnone | ⟨k₂, hk₂, hend⟩
      · rw [hnone]
        exact .ok (hchosen.trans (Kernel.continues_unlocked hchosen.ready _))
      · have hswitched :=
          hchosen.trans (hk₂.continues hchosen.ready (hchosen.halted.trans hhalted))
        rcases hend with hreturns | ⟨_, hstops⟩
        · rw [hreturns]
          exact .ok (hswitched.trans (Kernel.continues_unlocked hswitched.ready _))
        · rw [hstops]
          exact .error hswitched

theorem halting_yieldTimes (rounds : Nat) : halting.Obeys (yieldTimes rounds) := by
  induction rounds with
  | zero => exact obeys_of_ordinary (ordinary_pure ())
  | succ rounds ih => exact halting_yield.bind fun _ => ih

theorem halting_endTask (rounds : Nat) : halting.Obeys (endTask rounds) := by
  have hmark : Ordinary (modifyGet markEnded) := by
    refine ordinary_modifyGet fun k => ?_
    unfold markEnded
    split <;> rfl
  refine (obeys_of_ordinary hmark.withLock).bind fun ended => ?_
  cases ended
  all_goals
    exact (obeys_of_ordinary (ordinary_logMessage _ _ _)).bind fun _ => halting_yieldTimes rounds

theorem halting_initTasks : halting.Obeys initTasks := by
  intro k hk
  obtain ⟨k', hk', hend⟩ := initTasks_cases hk.installed
  rcases hend with ⟨_, i, hi⟩ | ⟨hnone, _⟩
  · rw [hi]
    exact .ok (hk'.continues hk)
  · obtain ⟨k'', hhalt, hk''⟩ := initTasks_halts hk hnone
    rw [hhalt]
    exact .error hk''

theorem halting_initTraps (lines : LineSet) : halting.Obeys (initTraps lines) := by
  refine (halting_setInterrupts false).bind fun _ => ?_
  refine (obeys_of_ordinary ordinary_handlerTableCopy).bind fun table => ?_
  refine (obeys_of_ordinary (ordinary_runBus _)).bind fun _ => ?_
  refine (obeys_of_ordinary ordinary_installStubs).bind fun installed => ?_
  refine (obeys_of_ordinary (ordinary_runBus _)).bind fun _ => ?_
  refine Obeys.bind (obeys_of_ordinary (ordinary_modify fun _ => rfl)) fun _ => ?_
  exact (obeys_of_ordinary (ordinary_logMessage _ _ _)).bind fun _ => halting_setInterrupts true

theorem halting_trapPhase (config : BootConfig) : halting.Obeys (trapPhase config) := by
  refine Obeys.bootPhase _ (Obeys.bind ?_ fun _ => (halting_initTraps _).bind fun _ => ?_)
  · exact obeys_of_ordinary (ordinary_modify fun _ => rfl)
  · exact obeys_of_ordinary (ordinary_pure _)

theorem halting_taskPhase : halting.Obeys taskPhase :=
  Obeys.bootPhase _ (halting_initTasks.bind fun _ => obeys_of_ordinary (ordinary_pure _))

theorem halting_boot (config : BootConfig) : halting.Obeys (boot config) := by
  have hbegin : halting.Obeys (beginBoot config) :=
    fun k hk => .ok ⟨⟨rfl, hk.base⟩, rfl, Kernel.adds_of_trace_eq rfl⟩
  unfold boot
  refine hbegin.bind fun _ => (halting_trapPhase config).bind fun traps => ?_
  cases traps with
  | error e => exact obeys_of_ordinary (ordinary_pure _)
  | ok _ =>
      refine (obeys_heapPhase config).bind fun heap => ?_
      cases heap with
      | error e => exact obeys_of_ordinary (ordinary_pure _)
      | ok _ => exact halting_taskPhase

theorem halting_idleLoop (rounds : Nat) : halting.Obeys (idleLoop rounds) := by
  refine (obeys_of_ordinary (ordinary_logMessage _ _ _)).bind fun _ => ?_
  refine (obeys_of_ordinary ordinary_get).bind fun k => ?_
  split
  · exact (halting_setInterrupts true).bind fun _ => halting_yieldTimes rounds
  · exact halting_yieldTimes rounds

theorem halting_program (hrun : halting.Handle run) (call : KernelCall) :
    halting.Obeys (call.program run) := by
  unfold KernelCall.program
  cases call with
  | data call => exact obeys_of_ordinary call.ordinary_program
  | initTasks => exact halting_initTasks.discard
  | yield => exact halting_yield
  | endTask rounds => exact halting_endTask rounds
  | dispatch vector frame | enterTrap vector frame =>
      exact (hrun.dispatch halting_yield (fun _ reason => halting_halt reason) frame).discard
  | initTraps lines => exact halting_initTraps lines
  | boot config => exact (halting_boot config).discard
  | idleLoop rounds => exact halting_idleLoop rounds
  | setInterrupts enabled => exact halting_setInterrupts enabled

end Conduct

namespace Kernel

open KernelM

variable {run : Handlers} {k k' k'' : Kernel} {calls : List KernelCall}

/-! ## Runs -/

/-- A halt is not forgotten, and after it nothing is switched. -/
structure Latches (k k' : Kernel) : Prop where
  ready : k'.Ready
  halted : k.halted = true → k'.halted = true
  switches : k.halted = true →
    k'.trace.toList.filter Event.isSwitch = k.trace.toList.filter Event.isSwitch

theorem Latches.refl (hk : k.Ready) : k.Latches k := ⟨hk, id, fun _ => rfl⟩

theorem Latches.trans (h : k.Latches k') (h' : k'.Latches k'') : k.Latches k'' where
  ready := h'.ready
  halted := fun hhalted => h'.halted (h.halted hhalted)
  switches := fun hhalted => (h'.switches (h.halted hhalted)).trans (h.switches hhalted)

theorem Continues.latches (h : k.Continues k') : k.Latches k' where
  ready := h.ready
  halted := fun hhalted => h.halted.trans hhalted
  switches := fun hhalted => (h.events.imp fun _ he => he.2 hhalted).filter_eq

theorem Halts.latches (h : k.Halts k') : k.Latches k' where
  ready := h.ready
  halted := fun _ => h.halted
  switches := by
    intro hhalted
    obtain ⟨es, htrace, hes⟩ := h.events
    have hadds : k.Adds (fun e => e.isSwitch = false) k' := by
      refine ⟨es ++ [.halt false], by rw [htrace, List.append_assoc], ?_⟩
      intro e he
      rcases List.mem_append.mp he with he | he
      · exact (hes e he).2 hhalted
      · rw [List.mem_singleton.mp he]
        rfl
    exact hadds.filter_eq

theorem continues_of_returns {m : KernelM Unit} (hm : Conduct.halting.Obeys m) (hk : k.Ready)
    (hresult : m k = .ok () k') : k.Continues k' := by
  have hallowed := hm k hk
  rw [hresult, Conduct.allows_ok_iff] at hallowed
  exact hallowed

theorem halts_of_stops {m : KernelM Unit} {stop : Stop} (hm : Conduct.halting.Obeys m)
    (hk : k.Ready) (hresult : m k = .error stop k') :
    stop = .cpuHalted ∧ k.Halts k' ∨ stop = .switchBudget ∧ k.Continues k' := by
  have hallowed := hm k hk
  rw [hresult, Conduct.allows_error_iff] at hallowed
  cases stop with
  | cpuHalted => exact Or.inl ⟨rfl, hallowed⟩
  | switchBudget => exact Or.inr ⟨rfl, hallowed⟩
  | noMachine reason => exact hallowed.elim

theorem Ready.latches {m : KernelM Unit} (hk : k.Ready) (hm : Conduct.halting.Obeys m) :
    k.Latches (m.after k) := by
  unfold after
  cases hresult : m k with
  | ok _ k' => exact (continues_of_returns hm hk hresult).latches
  | error stop k' =>
      rcases halts_of_stops hm hk hresult with ⟨_, hhalts⟩ | ⟨_, hcontinues⟩
      · exact hhalts.latches
      · exact hcontinues.latches

theorem Ready.latches_afterCalls (hk : k.Ready) (hrun : Conduct.halting.Handle run)
    (calls : List KernelCall) : k.Latches (k.afterCalls run calls) := by
  induction calls generalizing k with
  | nil => exact .refl hk
  | cons call rest ih =>
      have hcall := hk.latches (Conduct.halting_program hrun call)
      exact hcall.trans (ih hcall.ready)

/-- What a kernel does about halts, from a state that was reached. -/
structure Final (run : Handlers) (k : Kernel) : Prop where
  halt : ∀ reason, ∃ k', (KernelM.halt reason : KernelM Unit) k = .error .cpuHalted k' ∧
    k.HaltsAfter [] k'
  exception : ∀ vector frame, vector < lineVectorBase →
    ∃ k', KernelM.dispatch run vector frame k = .error .cpuHalted k' ∧
      k.HaltsAfter [.access .handlers false] k'
  noStack : k.arena.allocate idleStackSize = none →
    ∃ k', KernelM.initTasks k = .error .cpuHalted k' ∧ k.Halts k'
  returns : ∀ (call : KernelCall) k', call.program run k = .ok () k' → k.Continues k'
  stops : ∀ (call : KernelCall) stop k', call.program run k = .error stop k' →
    stop = .cpuHalted ∧ k.Halts k' ∨ stop = .switchBudget ∧ k.Continues k'
  latches : ∀ calls, k.Latches (k.afterCalls run calls)

theorem Ready.final (hk : k.Ready) (hrun : Conduct.halting.Handle run) : k.Final run where
  halt := fun reason => halt_cases hk.installed reason
  exception := fun _ frame hvector => dispatch_exception run hk.installed (hk.base ▸ hvector) frame
  noStack := fun hnone => initTasks_halts hk hnone
  returns := fun call _ => continues_of_returns (Conduct.halting_program hrun call) hk
  stops := fun call _ _ => halts_of_stops (Conduct.halting_program hrun call) hk
  latches := hk.latches_afterCalls hrun

/-- Whichever calls were made before, whether they returned or stopped. -/
theorem run_final (hrun : Conduct.halting.Handle run) (hk : k.Ready) (calls : List KernelCall) :
    (k.afterCalls run calls).Final run :=
  (hk.latches_afterCalls hrun calls).ready.final hrun

def impatient : Handlers := Handlers.ofBodies fun _ => .yielding

/-- The timer takes the processor from the idle task, and the new task faults. -/
def faulting : List KernelCall :=
  [.data (.newTask 0x100 512), .data (.setPreemption true), .data (.attachHandler 1 1),
    .dispatch 0x20 none, .dispatch 0x0D none]

theorem run_final_faulting :
    Conduct.halting.Handle impatient ∧ booted.Ready ∧
      (booted.afterCalls impatient faulting).Final impatient ∧
      (booted.afterCalls impatient faulting).halted = true ∧
      (booted.afterCalls impatient faulting).effects.countP Event.isSwitch = 1 ∧
      (booted.afterCalls impatient (faulting ++ [.setInterrupts true, .yield,
        .dispatch 0x20 none, .dispatch 0x21 none])).effects.countP Event.isSwitch = 1 := by
  have hrun : Conduct.halting.Handle impatient :=
    Conduct.Handle.ofBodies Conduct.halting_yield _
  have hk : booted.Ready := ⟨by decide +kernel, by decide +kernel⟩
  exact ⟨hrun, hk, run_final hrun hk faulting, by decide +kernel, by decide +kernel,
    by decide +kernel⟩

end Kernel

end Kernel16
