import Kernel16.Kernel.Traps

/-!
# How kernel programs run

A program of the kernel takes a kernel to a result.  The lemmas here give the
results of the steps from which the operations of the kernel are built, so that
no other proof looks into the monad.  A lock changes nothing but the interrupt
flag and the trace around what it protects.

A program keeps a part of the kernel if it returns from every state and that
part is then as it was.  A halt changes next to nothing, and an exception comes
to nothing but a halt.
-/

namespace Kernel16

namespace Kernel

/-- The kernel inside a lock. -/
def locked (k : Kernel) (resource : Resource) : Kernel :=
  let k := if k.installed then k.setInterrupts false else k
  { k with trace := k.trace.push (.access resource k.machine.interrupts) }

/-- The kernel after a lock, at which the interrupt flag was `before`. -/
def unlocked (k : Kernel) (before : Bool) : Kernel :=
  if before && k.installed then k.setInterrupts true else k

/-- The flag that a lock remembers. -/
def flagAtLock (k : Kernel) : Bool := k.installed && k.machine.interrupts

variable (k : Kernel) (resource : Resource) (before : Bool)

@[simp] theorem arena_locked : (k.locked resource).arena = k.arena := by
  unfold locked
  split <;> rfl

@[simp] theorem handlerTable_locked : (k.locked resource).handlerTable = k.handlerTable := by
  unfold locked
  split <;> rfl

variable {k} {k' k'' : Kernel}

theorem locked_of_installed (hk : k.installed = true) :
    k.locked resource = { k.setInterrupts false with
      trace := k.trace.push (.access resource false) } := by
  simp [locked, hk, setInterrupts]

/-- The same data, with these events added. -/
structure SameData (k : Kernel) (events : List Event) (k' : Kernel) : Prop where
  trace : k'.trace.toList = k.trace.toList ++ events
  installed : k'.installed = k.installed
  arena : k'.arena = k.arena
  tasks : k'.tasks = k.tasks
  handlerTable : k'.handlerTable = k.handlerTable
  ticks : k'.ticks = k.ticks

/-- The kernel halts, with no other effect than these events before. -/
structure HaltsAfter (k : Kernel) (events : List Event) (k' : Kernel) : Prop
    extends k.SameData (events ++ [.halt false]) k' where
  halted : k'.halted = true
  interrupts : k'.machine.interrupts = false

theorem SameData.trans {events events' : List Event} (h : k.SameData events k')
    (h' : k'.SameData events' k'') : k.SameData (events ++ events') k'' where
  trace := by rw [h'.trace, h.trace, List.append_assoc]
  installed := h'.installed.trans h.installed
  arena := h'.arena.trans h.arena
  tasks := h'.tasks.trans h.tasks
  handlerTable := h'.handlerTable.trans h.handlerTable
  ticks := h'.ticks.trans h.ticks

end Kernel

namespace KernelM

variable {α β σ : Type} {k k' : Kernel}

/-! ## Results of single steps -/

theorem bind_apply (m : KernelM α) (f : α → KernelM β) (k : Kernel) :
    (m >>= f) k =
      match m k with
      | .ok a k' => f a k'
      | .error e k' => .error e k' := by
  change EStateM.bind m f k = _
  unfold EStateM.bind
  cases m k <;> rfl

theorem bind_of_ok {m : KernelM α} {a : α} (h : m k = .ok a k') (f : α → KernelM β) :
    (m >>= f) k = f a k' := by
  rw [bind_apply, h]

@[simp] theorem pure_apply (a : α) (k : Kernel) : (pure a : KernelM α) k = .ok a k := rfl

@[simp] theorem get_apply (k : Kernel) : (get : KernelM Kernel) k = .ok k k := rfl

@[simp] theorem set_apply (k k' : Kernel) : (set k' : KernelM PUnit) k = .ok () k' := rfl

@[simp] theorem modify_apply (f : Kernel → Kernel) (k : Kernel) :
    (modify f : KernelM PUnit) k = .ok () (f k) := rfl

@[simp] theorem modifyGet_apply (f : Kernel → α × Kernel) (k : Kernel) :
    (modifyGet f : KernelM α) k = .ok (f k).1 (f k).2 := rfl

@[simp] theorem logMessage_apply (level : Log.Level) (target message : String) (k : Kernel) :
    logMessage level target message k =
      .ok () { k with logger := k.logger.emit (.of level target message) } := rfl

@[simp] theorem note_apply (e : Event) (k : Kernel) :
    note e k = .ok () { k with trace := k.trace.push e } := rfl

@[simp] theorem interruptFlag_apply (k : Kernel) :
    interruptFlag k = .ok k.machine.interrupts k := rfl

@[simp] theorem setInterrupts_apply (enabled : Bool) (k : Kernel) :
    setInterrupts enabled k = .ok () (k.setInterrupts enabled) := rfl

@[simp] theorem noteAccess_apply (resource : Resource) (k : Kernel) :
    noteAccess resource k =
      .ok () { k with trace := k.trace.push (.access resource k.machine.interrupts) } := rfl

theorem maskInterrupts_apply (k : Kernel) :
    maskInterrupts k = .ok k.flagAtLock (if k.installed then k.setInterrupts false else k) := by
  unfold maskInterrupts Kernel.flagAtLock
  cases hinstalled : k.installed <;>
    simp only [bind_apply, get_apply, hinstalled, if_true, if_false, Bool.false_eq_true,
      interruptFlag_apply, setInterrupts_apply, pure_apply, Bool.true_and, Bool.false_and]

theorem restoreInterrupts_apply (before : Bool) (k : Kernel) :
    restoreInterrupts before k = .ok () (k.unlocked before) := by
  unfold restoreInterrupts Kernel.unlocked
  rw [bind_apply, get_apply]
  dsimp only
  split <;> rfl

theorem withLock_apply (resource : Resource) (body : KernelM α) (k : Kernel) :
    withLock resource body k =
      match body (k.locked resource) with
      | .ok a k' => .ok a (k'.unlocked k.flagAtLock)
      | .error e k' => .error e k' := by
  simp only [withLock, bind_apply, maskInterrupts_apply, noteAccess_apply, Kernel.locked]
  split
  next => simp only [restoreInterrupts_apply, pure_apply]
  next => rfl

theorem withLock_of_ok {resource : Resource} {body : KernelM α} {a : α}
    (h : body (k.locked resource) = .ok a k') :
    withLock resource body k = .ok a (k'.unlocked k.flagAtLock) := by
  rw [withLock_apply, h]

/-- The kernel after the program has returned or stopped. -/
def after (m : KernelM α) (k : Kernel) : Kernel :=
  match m k with
  | .ok _ k' => k'
  | .error _ k' => k'

theorem after_bind_of_ok {m : KernelM α} {a : α} (h : m k = .ok a k') (f : α → KernelM β) :
    (m >>= f).after k = (f a).after k' := by
  rw [after, bind_of_ok h f, after]

theorem after_bind_pure (m : KernelM α) (b : β) (k : Kernel) :
    (m >>= fun _ => pure b).after k = m.after k := by
  unfold after
  rw [bind_apply]
  cases m k <;> rfl

/-! ## What a program returns and leaves -/

/-- From `k` the program returns `a` and leaves a kernel of which `view` shows `v`. -/
def Returns (view : Kernel → σ) (m : KernelM α) (k : Kernel) (a : α) (v : σ) : Prop :=
  ∃ k', m k = .ok a k' ∧ view k' = v

section Returns

variable {view : Kernel → σ} {m : KernelM α} {f : α → KernelM β} {a : α} {b : β} {v w : σ}

theorem returns_pure (a : α) (k : Kernel) :
    Returns view (pure a : KernelM α) k a (view k) :=
  ⟨k, rfl, rfl⟩

theorem Returns.bind (hm : Returns view m k a v)
    (hf : ∀ k', view k' = v → Returns view (f a) k' b w) : Returns view (m >>= f) k b w := by
  obtain ⟨k', hk', hview⟩ := hm
  obtain ⟨k'', hk'', hview'⟩ := hf k' hview
  exact ⟨k'', (bind_of_ok hk' f).trans hk'', hview'⟩

theorem Returns.bind_pure (hm : Returns view m k a v) (g : α → β) :
    Returns view (m >>= fun a => pure (g a)) k (g a) v := by
  obtain ⟨k', hk', hview⟩ := hm
  exact ⟨k', bind_of_ok hk' _, hview⟩

theorem Returns.map {τ : Type} (g : σ → τ) (hm : Returns view m k a v) :
    Returns (fun k => g (view k)) m k a (g v) := by
  obtain ⟨k', hk', hview⟩ := hm
  exact ⟨k', hk', congrArg g hview⟩

theorem Returns.both {τ : Type} {view' : Kernel → τ} {a b : α} {v : σ} {w : τ}
    (h : Returns view m k a v) (h' : Returns view' m k b w) :
    ∃ k', m k = .ok a k' ∧ view k' = v ∧ view' k' = w := by
  obtain ⟨k', hk', hview⟩ := h
  obtain ⟨k'', hk'', hview'⟩ := h'
  obtain ⟨rfl, rfl⟩ := EStateM.Result.ok.inj (hk'.symm.trans hk'')
  exact ⟨k', hk', hview, hview'⟩

theorem Returns.get_bind {f : Kernel → KernelM β} (h : Returns view (f k) k b v) :
    Returns view (get >>= f) k b v :=
  h

theorem Returns.view_after (h : Returns view m k a v) : view (m.after k) = v := by
  obtain ⟨k', hk', hview⟩ := h
  rw [after, hk', hview]

end Returns

/-! ## What a program keeps -/

/-- The program returns, and what `view` shows of the kernel is as before. -/
def Keeps (view : Kernel → σ) (m : KernelM α) : Prop :=
  ∀ k, ∃ a, Returns view m k a (view k)

variable {view : Kernel → σ} {m : KernelM α}

theorem keeps_pure (a : α) : Keeps view (pure a : KernelM α) :=
  fun k => ⟨a, returns_pure a k⟩

theorem Keeps.bind {f : α → KernelM β} (hm : Keeps view m) (hf : ∀ a, Keeps view (f a)) :
    Keeps view (m >>= f) := by
  intro k
  obtain ⟨a, k', ha, hview⟩ := hm k
  obtain ⟨b, k'', hb, hview'⟩ := hf a k'
  exact ⟨b, k'', (bind_of_ok ha f).trans hb, hview'.trans hview⟩

theorem Keeps.map {τ : Type} (g : σ → τ) (hm : Keeps view m) :
    Keeps (fun k => g (view k)) m := by
  intro k
  obtain ⟨a, ha⟩ := hm k
  exact ⟨a, ha.map g⟩

theorem Keeps.both {τ : Type} {view' : Kernel → τ} (h : Keeps view m) (h' : Keeps view' m) :
    Keeps (fun k => (view k, view' k)) m := by
  intro k
  obtain ⟨a, ha⟩ := h k
  obtain ⟨b, hb⟩ := h' k
  obtain ⟨k', hk', hview, hview'⟩ := ha.both hb
  exact ⟨a, k', hk', Prod.ext hview hview'⟩

theorem Keeps.returns {m : KernelM Unit} (hm : Keeps view m) (k : Kernel) :
    Returns view m k () (view k) := by
  obtain ⟨_, ha⟩ := hm k
  exact ha

theorem Keeps.view_after (hm : Keeps view m) (k : Kernel) : view (m.after k) = view k := by
  obtain ⟨a, ha⟩ := hm k
  exact ha.view_after

/-- What follows the stop of a program is not run, so the rest only has to keep the view. -/
theorem view_after_bind {f : α → KernelM β} (hf : ∀ a, Keeps view (f a)) (m : KernelM α)
    (k : Kernel) : view ((m >>= f).after k) = view (m.after k) := by
  unfold after
  rw [bind_apply]
  cases hresult : m k with
  | ok a k' => exact (hf a).view_after k'
  | error e k' => rfl

theorem keeps_forM {f : α → KernelM PUnit} (hf : ∀ a, Keeps view (f a)) (l : List α) :
    Keeps view (l.forM f) := by
  induction l with
  | nil => exact keeps_pure ()
  | cons a rest ih => exact (hf a).bind fun _ => ih

theorem keeps_foldlM {f : β → α → KernelM β} (hf : ∀ b a, Keeps view (f b a)) (l : List α)
    (b : β) : Keeps view (l.foldlM f b) := by
  induction l generalizing b with
  | nil => exact keeps_pure b
  | cons a rest ih =>
      rw [List.foldlM_cons]
      exact (hf b a).bind ih

theorem keeps_get : Keeps view (get : KernelM Kernel) :=
  fun k => ⟨k, k, rfl, rfl⟩

theorem keeps_modify {f : Kernel → Kernel} (h : ∀ k, view (f k) = view k) :
    Keeps view (modify f : KernelM PUnit) :=
  fun k => ⟨(), f k, rfl, h k⟩

theorem keeps_modifyGet {f : Kernel → α × Kernel} (h : ∀ k, view (f k).2 = view k) :
    Keeps view (modifyGet f : KernelM α) :=
  fun k => ⟨(f k).1, (f k).2, rfl, h k⟩

/-! ## Views that locks and the log do not change -/

/-- The view shows neither the log, nor the interrupt flag, nor uses of shared state. -/
structure Discreet (view : Kernel → σ) : Prop where
  logger : ∀ (k : Kernel) (logger : Log.Logger), view { k with logger } = view k
  interrupts : ∀ (k : Kernel) (enabled : Bool), view (k.setInterrupts enabled) = view k
  access : ∀ (k : Kernel) (resource : Resource) (enabled : Bool),
    view { k with trace := k.trace.push (.access resource enabled) } = view k

namespace Discreet

variable (h : Discreet view)
include h

theorem locked (k : Kernel) (resource : Resource) : view (k.locked resource) = view k := by
  unfold Kernel.locked
  rw [h.access]
  split
  · exact h.interrupts k false
  · rfl

theorem unlocked (k : Kernel) (before : Bool) : view (k.unlocked before) = view k := by
  unfold Kernel.unlocked
  split
  · exact h.interrupts k true
  · rfl

theorem returns_withLock {resource : Resource} {a : α} {v : σ}
    (hm : Returns view m (k.locked resource) a v) : Returns view (withLock resource m) k a v := by
  obtain ⟨k', hk', hview⟩ := hm
  exact ⟨_, withLock_of_ok hk', (h.unlocked k' _).trans hview⟩

theorem returns_logMessage (level : Log.Level) (target message : String) (k : Kernel) :
    Returns view (logMessage level target message) k () (view k) :=
  ⟨_, logMessage_apply level target message k, h.logger k _⟩

theorem returns_handlerTableCopy (k : Kernel) :
    Returns view handlerTableCopy k k.handlerTable (view k) := by
  rw [← k.handlerTable_locked .handlers, ← h.locked k .handlers]
  exact h.returns_withLock ⟨_, rfl, rfl⟩

theorem keeps_withLock {resource : Resource} (hm : Keeps view m) :
    Keeps view (withLock resource m) := by
  intro k
  obtain ⟨a, ha⟩ := hm (k.locked resource)
  rw [h.locked] at ha
  exact ⟨a, h.returns_withLock ha⟩

theorem keeps_setInterrupts (enabled : Bool) : Keeps view (setInterrupts enabled) :=
  keeps_modify fun k => h.interrupts k enabled

theorem keeps_emit (r : Log.Record) : Keeps view (emit r) :=
  keeps_modify fun k => h.logger k _

theorem keeps_logMessage (level : Log.Level) (target message : String) :
    Keeps view (logMessage level target message) :=
  h.keeps_emit _

theorem keeps_noteAccess (resource : Resource) : Keeps view (noteAccess resource) :=
  keeps_modify fun k => h.access k resource _

theorem keeps_handlerTableCopy : Keeps view handlerTableCopy :=
  fun k => ⟨_, h.returns_handlerTableCopy k⟩

section Handlers

variable (hhandlers : ∀ (k : Kernel) (line : UInt8) (handler : Option HandlerId),
  view { k with handlerTable := k.handlerTable.setHandler line handler } = view k)
include hhandlers

theorem keeps_attachHandler (line : UInt8) (handler : HandlerId) :
    Keeps view (attachHandler line handler) := by
  unfold attachHandler
  split
  · exact (h.keeps_logMessage _ _ _).bind fun _ => keeps_pure _
  · exact h.keeps_withLock (keeps_modifyGet fun k => hhandlers k line (some handler))

theorem keeps_detachHandler (line : UInt8) : Keeps view (detachHandler line) :=
  h.keeps_withLock (keeps_modifyGet fun k => hhandlers k line none)

end Handlers

end Discreet

/-! ## Halting -/

theorem halt_eq {α : Type} (hk : k.installed = true) (reason : String) :
    ∃ logger, (halt reason : KernelM α) k = .error .cpuHalted { k with
      halted := true
      machine := k.machine.halt
      logger
      trace := k.trace.push (.halt false) } := by
  unfold halt
  rw [bind_of_ok (modify_apply _ k), bind_of_ok (get_apply _), if_pos hk,
    bind_of_ok (setInterrupts_apply _ _)]
  dsimp only
  rw [bind_of_ok (logMessage_apply _ _ _ _), bind_of_ok (logMessage_apply _ _ _ _),
    bind_of_ok (get_apply _)]
  simp only [Kernel.setInterrupts, hk, if_true]
  exact ⟨_, rfl⟩

theorem halt_cases {α : Type} (hk : k.installed = true) (reason : String) :
    ∃ k', (halt reason : KernelM α) k = .error .cpuHalted k' ∧ k.HaltsAfter [] k' := by
  obtain ⟨logger, hhalt⟩ := halt_eq hk reason
  exact ⟨_, hhalt, ⟨by simp, rfl, rfl, rfl, rfl, rfl⟩, rfl, rfl⟩

theorem handlerTableCopy_cases (hk : k.installed = true) :
    ∃ k', handlerTableCopy k = .ok k.handlerTable k' ∧
      k.SameData [.access .handlers false] k' := by
  unfold handlerTableCopy
  rw [withLock_apply, Kernel.locked_of_installed _ hk]
  refine ⟨_, rfl, ?_⟩
  unfold Kernel.unlocked
  split <;> exact ⟨by simp [Kernel.setInterrupts], rfl, rfl, rfl, rfl, rfl⟩

/-- An exception halts the kernel before any handler runs. -/
theorem dispatch_exception (run : Handlers) (hk : k.installed = true) {vector : UInt8}
    (hvector : vector < k.handlerTable.controller.base) (frame : Option TrapFrame) :
    ∃ k', dispatch run vector frame k = .error .cpuHalted k' ∧
      k.HaltsAfter [.access .handlers false] k' := by
  obtain ⟨k₁, hcopy, hk₁⟩ := handlerTableCopy_cases hk
  have hfatal : route k.handlerTable run vector frame k₁ =
      .ok (.fatal (.ofFrame vector frame)) k₁ := by
    unfold route
    rw [if_pos hvector]
    rfl
  obtain ⟨k₂, hhalt, hk₂⟩ := halt_cases (hk₁.installed.trans hk)
    (Fault.ofFrame vector frame).text
  unfold dispatch
  rw [bind_of_ok (get_apply k), if_pos hk, bind_of_ok hcopy, bind_of_ok hfatal,
    conclude, bind_apply, hhalt]
  exact ⟨k₂, rfl, hk₁.trans hk₂.toSameData, hk₂.halted, hk₂.interrupts⟩

end KernelM

end Kernel16
