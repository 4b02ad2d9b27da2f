import Kernel16.Proofs.Kernel.Timer
import Kernel16.Proofs.Task.Lifecycle

/-!
# Ordinary programs

Most operations of the kernel are ordinary.  From an installed kernel they return, leave the
interrupt flag and the machine's settings as they were, and neither halt nor switch nor use
shared state with interrupts enabled, also where one lock is taken inside of another.

Yielding and setting up the tasks are not, but each of them is ordinary up to the point where
it switches or halts.
-/

namespace Kernel16

namespace Event

def isHalt : Event → Bool
  | .halt _ => true
  | _ => false

/-- Shared state was used, or the processor was switched, with interrupts enabled. -/
def isExposed : Event → Bool
  | .access _ interrupts => interrupts
  | .switch _ _ _ interrupts => interrupts
  | _ => false

def isOrdinary (e : Event) : Bool := !e.isHalt && !e.isSwitch && !e.isExposed

end Event

namespace Machine

theorem interrupts_run (m : Machine) (p : BusProgram α) :
    (m.run p).2.1.interrupts = m.interrupts := by
  induction p generalizing m with
  | done value => rfl
  | read address next ih => exact ih _ m
  | write address value next ih => exact (ih _).trans (m.interrupts_write address value)

theorem settings_run (m : Machine) (p : BusProgram α) :
    (m.run p).2.1.settings = m.settings := by
  induction p generalizing m with
  | done value => rfl
  | read address next ih => exact ih _ m
  | write address value next ih => exact (ih _).trans (m.settings_write address value)

theorem interrupts_setVector (m : Machine) (v : UInt8) (target : FarPointer) :
    (m.setVector v target).interrupts = m.interrupts := by
  simp only [setVector, countWrite]
  split <;> rfl

theorem settings_setVector (m : Machine) (v : UInt8) (target : FarPointer) :
    (m.setVector v target).settings = m.settings := by
  simp only [setVector, countWrite]
  split <;> rfl

end Machine

theorem TaskTable.fst_init (s : Arena) (segments : Segments) (entry : Nat) :
    (init s segments entry).1 =
      if (s.allocate idleStackSize).isSome then .ok 0 else .error .noStack := by
  unfold init occupy
  rw [firstUnused?_cleared]
  dsimp only
  cases s.allocate idleStackSize <;> rfl

namespace Kernel

variable {k k' k'' : Kernel} {P Q : Event → Prop}

/-! ## Events of a program -/

/-- Only events with `P` were added. -/
def Adds (P : Event → Prop) (k k' : Kernel) : Prop :=
  ∃ es, k'.trace.toList = k.trace.toList ++ es ∧ ∀ e ∈ es, P e

theorem adds_of_trace_eq (h : k'.trace = k.trace) : Adds P k k' :=
  ⟨[], by rw [h, List.append_nil], List.forall_mem_nil _⟩

theorem adds_of_push {e : Event} (h : k'.trace = k.trace.push e) (he : P e) : Adds P k k' :=
  ⟨[e], by rw [h, Array.toList_push], List.forall_mem_singleton.mpr he⟩

theorem Adds.trans (h : Adds P k k') (h' : Adds P k' k'') : Adds P k k'' := by
  obtain ⟨es, htrace, hes⟩ := h
  obtain ⟨es', htrace', hes'⟩ := h'
  refine ⟨es ++ es', by rw [htrace', htrace, List.append_assoc], ?_⟩
  intro e he
  exact (List.mem_append.mp he).elim (hes e) (hes' e)

theorem Adds.imp (h : Adds P k k') (hPQ : ∀ e, P e → Q e) : Adds Q k k' := by
  obtain ⟨es, htrace, hes⟩ := h
  exact ⟨es, htrace, fun e he => hPQ e (hes e he)⟩

theorem Adds.filter_eq {p : Event → Bool} (h : Adds (fun e => p e = false) k k') :
    k'.trace.toList.filter p = k.trace.toList.filter p := by
  obtain ⟨es, htrace, hes⟩ := h
  have hnone : es.filter p = [] :=
    List.filter_eq_nil_iff.mpr fun e he => Bool.eq_false_iff.mp (hes e he)
  rw [htrace, List.filter_append, hnone, List.append_nil]

/-! ## Ordinary steps -/

structure Ordinary (k k' : Kernel) : Prop where
  interrupts : k'.machine.interrupts = k.machine.interrupts
  settings : k'.machine.settings = k.machine.settings
  installed : k'.installed = k.installed
  halted : k'.halted = k.halted
  base : k'.handlerTable.controller.base = k.handlerTable.controller.base
  events : Adds (fun e => e.isOrdinary = true) k k'

theorem Ordinary.refl (k : Kernel) : k.Ordinary k :=
  ⟨rfl, rfl, rfl, rfl, rfl, adds_of_trace_eq rfl⟩

theorem Ordinary.trans (h : k.Ordinary k') (h' : k'.Ordinary k'') : k.Ordinary k'' where
  interrupts := h'.interrupts.trans h.interrupts
  settings := h'.settings.trans h.settings
  installed := h'.installed.trans h.installed
  halted := h'.halted.trans h.halted
  base := h'.base.trans h.base
  events := h.events.trans h'.events

theorem Ordinary.ready (h : k.Ordinary k') (hk : k.Ready) : k'.Ready :=
  ⟨h.installed.trans hk.installed, h.base.trans hk.base⟩

/-- What an operation on data alone leaves as it was. -/
def frame (k : Kernel) : Machine × Bool × Bool × UInt8 × Array Event :=
  (k.machine, k.installed, k.halted, k.handlerTable.controller.base, k.trace)

theorem ordinary_of_frame (h : k'.frame = k.frame) : k.Ordinary k' := by
  simp only [frame, Prod.mk.injEq] at h
  obtain ⟨hmachine, hinstalled, hhalted, hbase, htrace⟩ := h
  exact ⟨by rw [hmachine], by rw [hmachine], hinstalled, hhalted, hbase, adds_of_trace_eq htrace⟩

section Unlocked

variable (k : Kernel) (before : Bool)

@[simp] theorem settings_unlocked : (k.unlocked before).machine.settings = k.machine.settings := by
  unfold unlocked
  split <;> rfl

@[simp] theorem installed_unlocked : (k.unlocked before).installed = k.installed := by
  unfold unlocked
  split <;> rfl

@[simp] theorem halted_unlocked : (k.unlocked before).halted = k.halted := by
  unfold unlocked
  split <;> rfl

@[simp] theorem handlerTable_unlocked : (k.unlocked before).handlerTable = k.handlerTable := by
  unfold unlocked
  split <;> rfl

@[simp] theorem trace_unlocked : (k.unlocked before).trace = k.trace := by
  unfold unlocked
  split <;> rfl

theorem interrupts_unlocked (hk : k.installed = true) (hmasked : k.machine.interrupts = false) :
    (k.unlocked before).machine.interrupts = before := by
  unfold unlocked
  cases before with
  | false => exact hmasked
  | true => simp [hk, setInterrupts]

end Unlocked

/-- An ordinary step with interrupts masked, after which the flag is put back. -/
theorem ordinary_of_masked (hk : k.installed = true) (h : (k.setInterrupts false).Ordinary k') :
    k.Ordinary (k'.unlocked k.machine.interrupts) where
  interrupts := k'.interrupts_unlocked _ (h.installed.trans hk) h.interrupts
  settings := (k'.settings_unlocked _).trans h.settings
  installed := (k'.installed_unlocked _).trans h.installed
  halted := (k'.halted_unlocked _).trans h.halted
  base := by rw [handlerTable_unlocked, h.base]; rfl
  events := by
    obtain ⟨es, htrace, hes⟩ := h.events
    exact ⟨es, by rw [trace_unlocked, htrace]; rfl, hes⟩

theorem ordinary_of_locked (hk : k.installed = true) {resource : Resource}
    (h : (k.locked resource).Ordinary k') : k.Ordinary (k'.unlocked k.flagAtLock) := by
  have hflag : k.flagAtLock = k.machine.interrupts := by rw [flagAtLock, hk, Bool.true_and]
  have hstep : (k.setInterrupts false).Ordinary (k.locked resource) := by
    rw [locked_of_installed _ hk]
    exact ⟨rfl, rfl, rfl, rfl, rfl, adds_of_push rfl rfl⟩
  rw [hflag]
  exact ordinary_of_masked hk (hstep.trans h)

/-- The processor was switched, with the interrupt flag as it is. -/
structure Switched (k k' : Kernel) : Prop where
  interrupts : k'.machine.interrupts = k.machine.interrupts
  unlimited : k.machine.settings.switchBudget = none →
    k'.machine.settings.switchBudget = none
  installed : k'.installed = k.installed
  halted : k'.halted = k.halted
  base : k'.handlerTable.controller.base = k.handlerTable.controller.base
  trace : ∃ switch image,
    k'.trace = k.trace.push (.switch switch image k.ticks k.machine.interrupts)

end Kernel

namespace KernelM

variable {α β : Type} {m : KernelM α} {f : α → KernelM β} {k : Kernel}

/-! ## Ordinary programs -/

def OrdinaryFrom (k : Kernel) (m : KernelM α) : Prop :=
  ∃ a k', m k = .ok a k' ∧ k.Ordinary k'

/-- From an installed kernel the program returns, and takes ordinary steps only. -/
def Ordinary (m : KernelM α) : Prop :=
  ∀ k, k.installed = true → OrdinaryFrom k m

theorem OrdinaryFrom.bind (hm : OrdinaryFrom k m)
    (hf : ∀ a k', k.Ordinary k' → OrdinaryFrom k' (f a)) : OrdinaryFrom k (m >>= f) := by
  obtain ⟨a, k', ha, hk'⟩ := hm
  obtain ⟨b, k'', hb, hk''⟩ := hf a k' hk'
  exact ⟨b, k'', (bind_of_ok ha f).trans hb, hk'.trans hk''⟩

theorem Ordinary.bind (hm : Ordinary m) (hf : ∀ a, Ordinary (f a)) : Ordinary (m >>= f) :=
  fun k hk => (hm k hk).bind fun a k' hk' => hf a k' (hk'.installed.trans hk)

theorem ordinary_pure (a : α) : Ordinary (pure a : KernelM α) :=
  fun k _ => ⟨a, k, rfl, .refl k⟩

theorem Ordinary.discard (hm : Ordinary m) : Ordinary (m >>= fun _ => pure ()) :=
  hm.bind fun _ => ordinary_pure ()

theorem ordinary_get : Ordinary (get : KernelM Kernel) :=
  fun k _ => ⟨k, k, rfl, .refl k⟩

theorem ordinary_modify {g : Kernel → Kernel} (h : ∀ k, (g k).frame = k.frame) :
    Ordinary (modify g : KernelM PUnit) :=
  fun k _ => ⟨(), g k, rfl, Kernel.ordinary_of_frame (h k)⟩

theorem ordinary_modifyGet {g : Kernel → α × Kernel} (h : ∀ k, (g k).2.frame = k.frame) :
    Ordinary (modifyGet g : KernelM α) :=
  fun k _ => ⟨(g k).1, (g k).2, rfl, Kernel.ordinary_of_frame (h k)⟩

theorem ordinary_emit (r : Log.Record) : Ordinary (emit r) :=
  ordinary_modify fun _ => rfl

theorem ordinary_logMessage (level : Log.Level) (target message : String) :
    Ordinary (logMessage level target message) :=
  ordinary_emit _

theorem ordinary_note {e : Event} (he : e.isOrdinary = true) : Ordinary (note e) :=
  fun k _ => ⟨(), _, note_apply e k, ⟨rfl, rfl, rfl, rfl, rfl, Kernel.adds_of_push rfl he⟩⟩

theorem ordinary_forM {f : α → KernelM PUnit} (hf : ∀ a, Ordinary (f a)) (l : List α) :
    Ordinary (l.forM f) := by
  induction l with
  | nil => exact ordinary_pure ()
  | cons a rest ih => exact (hf a).bind fun _ => ih

theorem ordinary_foldlM {f : β → α → KernelM β} (hf : ∀ b a, Ordinary (f b a)) (l : List α)
    (b : β) : Ordinary (l.foldlM f b) := by
  induction l generalizing b with
  | nil => exact ordinary_pure b
  | cons a rest ih =>
      rw [List.foldlM_cons]
      exact (hf b a).bind ih

theorem ordinary_runBus (p : BusProgram α) : Ordinary (runBus p) := by
  intro k _
  refine ⟨_, _, modifyGet_apply _ k, ?_⟩
  refine ⟨k.machine.interrupts_run p, k.machine.settings_run p, rfl, rfl, rfl, ?_⟩
  refine ⟨(k.machine.run p).2.2.map Event.bus, by simp, ?_⟩
  intro e he
  obtain ⟨access, _, rfl⟩ := List.mem_map.mp he
  rfl

theorem ordinary_setVector (vector : UInt8) (target : FarPointer) :
    Ordinary (setVector vector target) := by
  intro k _
  refine ⟨(), _, (bind_of_ok (modify_apply _ k) _).trans (note_apply _ _), ?_⟩
  refine ⟨?_, ?_, rfl, rfl, rfl, Kernel.adds_of_push rfl rfl⟩
  · exact k.machine.interrupts_setVector vector target
  · exact k.machine.settings_setVector vector target

/-- What is done under a lock may rely on masked interrupts. -/
theorem ordinary_withMask {resource : Resource}
    (hm : ∀ k, k.installed = true → k.machine.interrupts = false → OrdinaryFrom k m) :
    Ordinary (withLock resource m) := by
  intro k hk
  have hlocked : (k.locked resource).installed = true ∧
      (k.locked resource).machine.interrupts = false := by
    rw [Kernel.locked_of_installed _ hk]
    exact ⟨hk, rfl⟩
  obtain ⟨a, k', ha, hk'⟩ := hm _ hlocked.1 hlocked.2
  exact ⟨a, _, withLock_of_ok ha, Kernel.ordinary_of_locked hk hk'⟩

theorem Ordinary.withLock {resource : Resource} (hm : Ordinary m) :
    Ordinary (withLock resource m) :=
  ordinary_withMask fun k hk _ => hm k hk

/-! ## The heap -/

theorem ordinary_onHeap (g : Arena → α × Arena) : Ordinary (onHeap g) :=
  (ordinary_modifyGet fun _ => rfl).withLock

theorem ordinary_initHeap (start size : Nat) : Ordinary (initHeap start size) := by
  refine (ordinary_onHeap _).bind fun result => ?_
  cases result with
  | ok managed => exact (ordinary_logMessage _ _ _).bind fun _ => ordinary_pure _
  | error e => exact (ordinary_logMessage _ _ _).bind fun _ => ordinary_pure _

theorem ordinary_allocate (n : Nat) : Ordinary (allocate n) := by
  refine (ordinary_onHeap _).bind fun result => ?_
  cases result with
  | none => exact (ordinary_logMessage _ _ _).bind fun _ => ordinary_pure _
  | some address => exact (ordinary_logMessage _ _ _).bind fun _ => ordinary_pure _

theorem ordinary_reserveStack (n : Nat) : Ordinary (reserveStack n) := by
  refine (ordinary_onHeap _).bind fun stack => ?_
  split
  · exact (ordinary_logMessage _ _ _).bind fun _ => ordinary_pure _
  · exact ordinary_pure _

theorem ordinary_free (address : Nat) : Ordinary (free address) := by
  refine (ordinary_onHeap _).bind fun result => ?_
  split
  · exact ordinary_logMessage _ _ _
  · exact ordinary_pure _
  · exact ordinary_logMessage _ _ _

theorem ordinary_modifyMemory (g : Memory → Memory) : Ordinary (modifyMemory g) :=
  ordinary_modify fun _ => rfl

theorem ordinary_allocateAligned (layout : Layout) : Ordinary (allocateAligned layout) := by
  unfold allocateAligned
  split
  · exact ordinary_pure _
  · refine (ordinary_allocate _).bind fun raw => ?_
    split
    · exact ordinary_pure _
    · exact (ordinary_modifyMemory _).bind fun _ => ordinary_pure _

theorem ordinary_freeAligned (address : Nat) (layout : Layout) :
    Ordinary (freeAligned address layout) := by
  unfold freeAligned
  split
  · exact ordinary_free _
  · split
    · exact ordinary_pure _
    · exact ordinary_get.bind fun _ => ordinary_free _

theorem ordinary_allocateZeroed (layout : Layout) : Ordinary (allocateZeroed layout) := by
  refine (ordinary_allocateAligned layout).bind fun address => ?_
  split
  · exact (ordinary_modifyMemory _).bind fun _ => ordinary_pure _
  · exact ordinary_pure _

theorem ordinary_reallocate (address : Nat) (old new : Layout) :
    Ordinary (reallocate address old new) := by
  refine (ordinary_allocateAligned new).bind fun target => ?_
  split
  · refine (ordinary_modifyMemory _).bind fun _ => ?_
    exact (ordinary_freeAligned address old).bind fun _ => ordinary_pure _
  · exact ordinary_pure _

/-! ## Tasks and handlers -/

theorem ordinary_onTasks (g : TaskTable → α) :
    Ordinary (onTasks do return g (← get).tasks) :=
  (ordinary_get.bind fun _ => ordinary_pure _).withLock

theorem ordinary_newTask (entry stackSize : Nat) : Ordinary (newTask entry stackSize) := by
  have htable : Ordinary (modifyGet (createInTable entry stackSize)) := by
    refine ordinary_modifyGet fun k => ?_
    unfold createInTable
    split <;> rfl
  refine htable.withLock.withLock.bind fun result => ?_
  split
  all_goals exact (ordinary_logMessage _ _ _).bind fun _ => ordinary_pure _

theorem ordinary_nextSwitch : Ordinary nextSwitch := by
  have hreap : Ordinary (modifyGet reapTasks) := by
    refine ordinary_modifyGet fun k => ?_
    simp only [reapTasks, Kernel.frame]
  have hrotate : Ordinary (modifyGet rotateTasks) := by
    refine ordinary_modifyGet fun k => ?_
    unfold rotateTasks
    split <;> rfl
  refine ordinary_withMask fun k hk hmasked => ?_
  refine (hreap.withLock k hk).bind fun warnings k₁ hk₁ => ?_
  refine (ordinary_forM ordinary_emit warnings k₁ (hk₁.installed.trans hk)).bind
    fun _ k₂ hk₂ => ?_
  have hk₂ := hk₁.trans hk₂
  -- The heap lock has left the interrupts masked, so the table is not exposed.
  have haccess : (Event.access .tasks k₂.machine.interrupts).isOrdinary = true := by
    rw [hk₂.interrupts, hmasked]
    rfl
  refine OrdinaryFrom.bind (ordinary_note haccess k₂ (hk₂.installed.trans hk)) fun _ k₃ hk₃ => ?_
  exact hrotate k₃ (hk₃.installed.trans (hk₂.installed.trans hk))

theorem ordinary_handlerTableCopy : Ordinary handlerTableCopy :=
  (ordinary_get.bind fun _ => ordinary_pure _).withLock

theorem ordinary_attachHandler (line : UInt8) (handler : HandlerId) :
    Ordinary (attachHandler line handler) := by
  unfold attachHandler
  split
  · exact (ordinary_logMessage _ _ _).bind fun _ => ordinary_pure _
  · refine (ordinary_modifyGet fun k => ?_).withLock
    simp only [Kernel.frame, HandlerTable.attach, HandlerTable.controller_setHandler]

theorem ordinary_detachHandler (line : UInt8) : Ordinary (detachHandler line) := by
  refine (ordinary_modifyGet fun k => ?_).withLock
  simp only [Kernel.frame, HandlerTable.detach, HandlerTable.controller_setHandler]

theorem ordinary_enableLine (line : UInt8) : Ordinary (enableLine line) := by
  unfold enableLine
  split
  · exact ordinary_handlerTableCopy.bind fun _ => ordinary_runBus _
  · exact ordinary_pure ()

theorem ordinary_disableLine (line : UInt8) : Ordinary (disableLine line) := by
  unfold disableLine
  split
  · exact ordinary_handlerTableCopy.bind fun _ => ordinary_runBus _
  · exact ordinary_pure ()

theorem ordinary_installStubs : Ordinary installStubs := by
  unfold installStubs
  refine (ordinary_foldlM ?install servedVectors 0).bind fun installed => ?report
  case install =>
    intro installed vector
    refine ordinary_get.bind fun k => ?_
    split
    · exact (ordinary_setVector _ _).bind fun _ => ordinary_pure _
    · exact (ordinary_logMessage _ _ _).bind fun _ => ordinary_pure _
  case report => exact (ordinary_logMessage _ _ _).bind fun _ => ordinary_pure _

theorem ordinary_countTick : Ordinary countTick := by
  refine Ordinary.bind (ordinary_modify fun _ => rfl) fun _ => ?_
  exact ordinary_get.bind fun k => ordinary_note rfl

/-! ## Programs that schedule -/

theorem frame_saveOutgoing (switch : Switch) (k : Kernel) :
    ∃ k', saveOutgoing switch k = .ok () k' ∧ k'.frame = k.frame := by
  refine ⟨_, modify_apply _ k, ?_⟩
  split <;> rfl

theorem switchTasks_cases (switch : Switch) (k : Kernel) :
    ∃ k', k.Switched k' ∧
      (switchTasks switch k = .ok () k' ∨
        k.machine.settings.switchBudget ≠ none ∧
          switchTasks switch k = .error .switchBudget k') := by
  obtain ⟨k₁, hk₁, hframe⟩ := frame_saveOutgoing switch
    { k with
      machine := k.machine.recordSwitch (k.switchEvent switch)
      trace := k.trace.push
        (.switch switch (switch.load k.tasks) k.ticks k.machine.interrupts) }
  simp only [Kernel.frame, Prod.mk.injEq] at hframe
  obtain ⟨hmachine, hinstalled, hhalted, hbase, htrace⟩ := hframe
  have hrun : switchTasks switch k = spendSwitch k₁ := by
    simp only [switchTasks, bind_apply, get_apply, note_apply, modify_apply, hk₁]
  have hbudget : k₁.machine.settings.switchBudget = k.machine.settings.switchBudget := by
    rw [hmachine]
    rfl
  rw [hrun, spendSwitch, bind_apply, get_apply]
  cases hleft : k.machine.settings.switchBudget with
  | none =>
      rw [hleft] at hbudget
      refine ⟨k₁, ⟨?_, fun _ => hbudget, hinstalled, hhalted, hbase, _, _, htrace⟩, Or.inl ?_⟩
      · rw [hmachine]
        rfl
      · simp only [hbudget, pure_apply]
  | some left =>
      rw [hleft] at hbudget
      refine ⟨{ k₁ with machine.settings.switchBudget := some (left - 1) },
        ⟨?_, (fun h => nomatch hleft.symm.trans h), hinstalled, hhalted, hbase, _, _, htrace⟩, ?_⟩
      · simp only [hmachine]
        rfl
      · simp only [hbudget, bind_apply, set_apply]
        split
        next => exact Or.inr ⟨nofun, rfl⟩
        next => exact Or.inl rfl

def switchMessage (switch : Switch) : String :=
  "switch " ++ TaskId.name switch.outgoing ++ " -> " ++ TaskId.name switch.incoming

theorem yield_of_halted (hhalted : k.halted = true) : yield k = .ok () k := by
  unfold yield
  rw [bind_of_ok (get_apply k), if_pos (by rw [hhalted, Bool.true_or])]
  rfl

theorem yield_of_not_halted (hk : k.installed = true) (hhalted : k.halted = false) :
    yield k = (do
      match ← nextSwitch with
      | some switch =>
          logMessage .trace "sched" (switchMessage switch)
          switchTasks switch
      | none => pure ()
      if k.machine.interrupts then setInterrupts true : KernelM Unit) (k.setInterrupts false) := by
  unfold yield
  rw [bind_of_ok (get_apply k), if_neg (by simp [hk, hhalted]),
    bind_of_ok (interruptFlag_apply k), bind_of_ok (setInterrupts_apply false k)]
  rfl

/-- A yield of a kernel that has not halted chooses a task with interrupts masked.  Then there
is nothing to switch to, or the switch returns, or the machine does no more switches. -/
theorem yield_cases (hk : k.installed = true) (hhalted : k.halted = false) :
    ∃ k₁, (k.setInterrupts false).Ordinary k₁ ∧
      (yield k = .ok () (k₁.unlocked k.machine.interrupts) ∨
        ∃ k₂, k₁.Switched k₂ ∧
          (yield k = .ok () (k₂.unlocked k.machine.interrupts) ∨
            k₁.machine.settings.switchBudget ≠ none ∧ yield k = .error .switchBudget k₂)) := by
  have hrestore : ∀ k' : Kernel, k'.installed = true →
      (if k.machine.interrupts = true then setInterrupts true else pure ()) k' =
        .ok () (k'.unlocked k.machine.interrupts) := by
    intro k' hk'
    unfold Kernel.unlocked
    cases k.machine.interrupts <;> simp [hk']
  obtain ⟨choice, k₁, hchoice, hk₁⟩ := ordinary_nextSwitch (k.setInterrupts false) hk
  have hinstalled := hk₁.installed.trans hk
  rw [yield_of_not_halted hk hhalted, bind_of_ok hchoice]
  cases choice with
  | none => exact ⟨k₁, hk₁, Or.inl (hrestore k₁ hinstalled)⟩
  | some switch =>
      obtain ⟨_, k₂, hlog, hk₂⟩ :=
        ordinary_logMessage .trace "sched" (switchMessage switch) k₁ hinstalled
      obtain ⟨k₃, hk₃, hend⟩ := switchTasks_cases switch k₂
      refine ⟨k₂, hk₁.trans hk₂, Or.inr ⟨k₃, hk₃, ?_⟩⟩
      dsimp only
      rw [bind_of_ok hlog]
      rcases hend with hreturns | ⟨hlimited, hstops⟩
      · rw [bind_of_ok hreturns]
        exact Or.inl (hrestore k₃ (hk₃.installed.trans (hk₂.installed.trans hinstalled)))
      · rw [bind_apply, hstops]
        exact Or.inr ⟨hlimited, rfl⟩

theorem newTaskSegments_of_installed (hk : k.installed = true) :
    newTaskSegments k = .ok k.machine.settings.segments k := by
  unfold newTaskSegments
  rw [bind_of_ok (get_apply k), hk]
  rfl

theorem ordinary_initTaskTable (segments : Segments) :
    Ordinary (onTasks (withLock .heap (modifyGet (initTaskTable segments)))) :=
  (ordinary_modifyGet fun _ => rfl).withLock.withLock

/-- Whether the tasks can be set up depends only on the stack of the idle task. -/
theorem initTasks_cases (hk : k.installed = true) :
    ∃ k', k.Ordinary k' ∧
      ((k.arena.allocate idleStackSize).isSome = true ∧ (∃ i, initTasks k = .ok i k') ∨
        k.arena.allocate idleStackSize = none ∧ ∃ reason, initTasks k = halt reason k') := by
  obtain ⟨result, k₁, hresult, hk₁⟩ := ordinary_initTaskTable k.machine.settings.segments k hk
  have hvalue : result =
      (TaskTable.init k.arena k.machine.settings.segments idleStart).1 := by
    have hrun := hresult
    rw [onTasks, withLock_apply, withLock_apply, modifyGet_apply] at hrun
    obtain ⟨rfl, _⟩ := EStateM.Result.ok.inj hrun
    simp only [initTaskTable, Kernel.arena_locked]
  rw [TaskTable.fst_init] at hvalue
  unfold initTasks
  rw [bind_of_ok (newTaskSegments_of_installed hk), bind_of_ok hresult, hvalue]
  cases hallocate : k.arena.allocate idleStackSize with
  | none => exact ⟨k₁, hk₁, Or.inr ⟨rfl, _, rfl⟩⟩
  | some stack =>
      refine ⟨_, hk₁.trans ?_, Or.inl ⟨rfl, 0, bind_of_ok (logMessage_apply _ _ _ k₁) _⟩⟩
      exact Kernel.ordinary_of_frame rfl

end KernelM

end Kernel16
