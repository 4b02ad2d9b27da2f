import Kernel16.Proofs.Kernel.Store

/-!
# Ended tasks of a running kernel

Once a kernel has booted it is run by what its tasks do in turn.  They create tasks and end, use
the heap, attach handlers and yield.  A line may interrupt them between any two of these acts:
that begins with the call of a handler and ends with an acknowledgement, after which the timer
may yield, and whatever the handler does stands between, with what is done by tasks to which it
yields.

A task that ends is reclaimed by the first yield that another task makes, and not before.
-/

namespace Kernel16

open Text

inductive KernelAct where
  | create (entry stackSize : Nat)
  /-- The task on the processor is marked as ended. -/
  | endCurrent
  | allocate (n : Nat)
  | free (a : Nat)
  | write (a : Nat) (bytes : List UInt8)
  | attach (line : UInt8) (handler : HandlerId)
  | detach (line : UInt8)
  | setPreemption (enabled : Bool)
  | setInterrupts (enabled : Bool)
  | yield
  /-- A line interrupts, up to the call of its handler. -/
  | beginLine (line : UInt8)
  /-- What follows the handler of a line. -/
  | endLine (line : UInt8)
  deriving DecidableEq, Repr

namespace KernelM

def beginLine (line : UInt8) : KernelM Unit := do
  match (← handlerTableCopy).handler? line with
  | some id => note (.handler id line)
  | none =>
      logMessage .warn "traps"
        (s!"Unhandled IRQ {line.toNat} (Vector " ++ hex 2 (lineVectorBase + line).toNat ++ ")")

def endLine (line : UInt8) : KernelM Unit := do
  runBus (Controller.acknowledge line)
  conclude (.served line true)

end KernelM

namespace KernelAct

def program : KernelAct → KernelM Unit
  | .create entry stackSize => do let _ ← KernelM.newTask entry stackSize
  | .endCurrent => KernelM.endTask 0
  | .allocate n => do let _ ← KernelM.allocate n
  | .free a => KernelM.free a
  | .write a bytes => KernelM.modifyMemory (·.writeBytes a bytes)
  | .attach line handler => do let _ ← KernelM.attachHandler line handler
  | .detach line => do let _ ← KernelM.detachHandler line
  | .setPreemption enabled => KernelM.setPreemption enabled
  | .setInterrupts enabled => KernelM.setInterrupts enabled
  | .yield => KernelM.yield
  | .beginLine line => KernelM.beginLine line
  | .endLine line => KernelM.endLine line

/-- The request that the act makes of tasks or heap, if it is a single one. -/
def request? : KernelAct → Option TaskRequest
  | .create entry stackSize => some (.create entry stackSize)
  | .endCurrent => some .endCurrent
  | .allocate n => some (.allocate n)
  | .free a => some (.free a)
  | .write a bytes => some (.write a bytes)
  | _ => none

/-- Clients of the heap free no stack of a task, and write to live blocks only. -/
def Permitted (k : Kernel) : KernelAct → Prop
  | .free a => ∀ i : TaskId, ∀ stack ∈ k.tasks.stack? i, stack.base ≠ a
  | .write a bytes => ∃ b ∈ k.arena.liveBlocks, b.payload ≤ a ∧ a + bytes.length ≤ b.limit
  | _ => True

/-- The act comes to a yield. -/
def Yields (k : Kernel) : KernelAct → Prop
  | .yield => True
  | .endLine line => line = timerLine ∧ k.preemption = true
  | _ => False

instance decidablePermitted (k : Kernel) : (act : KernelAct) → Decidable (act.Permitted k)
  | .free a =>
      inferInstanceAs (Decidable (∀ i : TaskId, ∀ stack ∈ k.tasks.stack? i, stack.base ≠ a))
  | .write a bytes =>
      inferInstanceAs (Decidable
        (∃ b ∈ k.arena.liveBlocks, b.payload ≤ a ∧ a + bytes.length ≤ b.limit))
  | .create _ _ | .endCurrent | .allocate _ | .attach _ _ | .detach _ | .setPreemption _
  | .setInterrupts _ | .yield | .beginLine _ | .endLine _ => isTrue trivial

instance decidableYields (k : Kernel) : (act : KernelAct) → Decidable (act.Yields k)
  | .endLine line => inferInstanceAs (Decidable (line = timerLine ∧ k.preemption = true))
  | .yield => isTrue trivial
  | .create _ _ | .endCurrent | .allocate _ | .free _ | .write _ _ | .attach _ _ | .detach _
  | .setPreemption _ | .setInterrupts _ | .beginLine _ => isFalse id

open KernelM

variable {k : Kernel} {act : KernelAct}

theorem keeps_store_beginLine (line : UInt8) : Keeps Kernel.store (KernelM.beginLine line) := by
  refine discreet_store.keeps_handlerTableCopy.bind fun table => ?_
  split
  · exact keeps_store_note _
  · exact discreet_store.keeps_logMessage _ _ _

theorem returns_endLine (hk : k.store.Active) (line : UInt8) :
    Returns Kernel.store (KernelM.endLine line) k ()
      (if line = timerLine ∧ k.preemption = true then k.store.handOn else k.store) := by
  refine ((keeps_store_runBus _).returns k).bind fun k' hk' => ?_
  have hpreemption : k'.preemption = k.preemption := congrArg Store.preemption hk'
  rw [← hpreemption, ← hk']
  exact returns_conclude_served (hk'.symm ▸ hk) line true

theorem stores_of_request {r : TaskRequest} (h : act.request? = some r) :
    Stores (·.perform r) act.program := by
  cases act with
  | create entry stackSize =>
      cases h
      exact (stores_newTask entry stackSize).followedBy fun _ => keeps_pure ()
  | endCurrent =>
      cases h
      exact stores_endTask_zero
  | allocate n =>
      cases h
      exact (stores_allocate n).followedBy fun _ => keeps_pure ()
  | free a =>
      cases h
      exact stores_free a
  | write a bytes =>
      cases h
      exact stores_write a bytes
  | attach | detach | setPreemption | setInterrupts | yield | beginLine | endLine => cases h

theorem returns_of_yields (hk : k.store.Active) (h : act.Yields k) :
    Returns Kernel.store act.program k () k.store.handOn := by
  cases act with
  | yield => exact returns_yield hk
  | endLine line =>
      obtain ⟨hline, hpreemption⟩ := h
      have hend := returns_endLine hk line
      rw [if_pos ⟨hline, hpreemption⟩] at hend
      exact hend
  | create | endCurrent | allocate | free | write | attach | detach | setPreemption
  | setInterrupts | beginLine => exact h.elim

/-- All other acts leave tasks and heap alone. -/
theorem returns_of_idle (hk : k.store.Active) (hrequest : act.request? = none)
    (hyields : ¬ act.Yields k) :
    ∃ preemption, Returns Kernel.store act.program k () { k.store with preemption } := by
  cases act with
  | create | endCurrent | allocate | free | write => cases hrequest
  | yield => exact absurd trivial hyields
  | attach line handler =>
      have hkeeps := discreet_store.keeps_attachHandler store_setHandler line handler
      exact ⟨k.preemption, (hkeeps.bind fun _ => keeps_pure ()).returns k⟩
  | detach line =>
      have hkeeps := discreet_store.keeps_detachHandler store_setHandler line
      exact ⟨k.preemption, (hkeeps.bind fun _ => keeps_pure ()).returns k⟩
  | setPreemption enabled => exact ⟨enabled, _, modify_apply _ k, rfl⟩
  | setInterrupts enabled =>
      exact ⟨k.preemption, (discreet_store.keeps_setInterrupts enabled).returns k⟩
  | beginLine line => exact ⟨k.preemption, (keeps_store_beginLine line).returns k⟩
  | endLine line =>
      have hquiet : ¬ (line = timerLine ∧ k.preemption = true) := hyields
      have hend := returns_endLine hk line
      rw [if_neg hquiet] at hend
      exact ⟨k.preemption, hend⟩

theorem Yields.permitted (h : act.Yields k) : act.Permitted k := by
  cases act with
  | yield | endLine => trivial
  | create | endCurrent | allocate | free | write | attach | detach | setPreemption
  | setInterrupts | beginLine => exact h.elim

theorem not_yields_of_request {r : TaskRequest} (h : act.request? = some r) : ¬ act.Yields k := by
  cases act with
  | create | endCurrent | allocate | free | write => exact id
  | attach | detach | setPreemption | setInterrupts | yield | beginLine | endLine => cases h

theorem ne_of_request {r : TaskRequest} (h : act.request? = some r) :
    r ≠ .reap ∧ ∀ saved, r ≠ .rotate saved := by
  cases act with
  | create | endCurrent | allocate | free | write =>
      cases h
      exact ⟨nofun, fun _ => nofun⟩
  | attach | detach | setPreemption | setInterrupts | yield | beginLine | endLine => cases h

end KernelAct

/-! ## The account of a kernel -/

theorem TaskSystem.perform_congr {u v : TaskSystem} (htasks : u.tasks = v.tasks)
    (harena : u.arena = v.arena) (r : TaskRequest) :
    (u.perform r).tasks = (v.perform r).tasks ∧ (u.perform r).arena = (v.perform r).arena := by
  cases r with
  | create entry stackSize =>
      cases hresult : v.tasks.create v.arena entry stackSize <;>
        simp only [perform, htasks, harena, hresult, and_self]
  | rotate saved =>
      cases hresult : v.tasks.rotate <;>
        simp only [perform, htasks, harena, hresult, and_self]
  | endCurrent =>
      cases hresult : v.tasks.endCurrent <;>
        simp only [perform, htasks, harena, hresult, and_self]
  | reap => simp only [tasks_reap, arena_reap, htasks, harena, and_self]
  | allocate n =>
      cases hresult : v.arena.allocate n <;>
        simp only [perform, htasks, harena, hresult, and_self]
  | free a =>
      cases hresult : v.arena.free a <;>
        simp only [perform, takeBack, htasks, harena, hresult, and_self]
  | write a bytes => exact ⟨htasks, by rw [perform, perform, harena]⟩

namespace Store

variable {s : Store} {u : TaskSystem}

theorem Active.perform (h : s.Active) (r : TaskRequest) : (s.perform r).Active :=
  ⟨h.installed, h.halted, h.unlimited, h.base⟩

theorem Active.handOn (h : s.Active) : s.handOn.Active :=
  (h.perform .reap).perform (.rotate s.settings.saved)

/-- The tasks and the heap of the store are those of the system. -/
structure Mirrors (s : Store) (u : TaskSystem) : Prop where
  tasks : s.tasks = u.tasks
  arena : s.arena = u.arena

theorem Mirrors.perform (h : s.Mirrors u) (r : TaskRequest) :
    (s.perform r).Mirrors (u.perform r) := by
  obtain ⟨htasks, harena⟩ := TaskSystem.perform_congr (u := s.system) h.tasks h.arena r
  exact ⟨htasks, harena⟩

theorem Mirrors.handOn (h : s.Mirrors u) : s.handOn.Mirrors (u.handOn s.settings.saved) :=
  (h.perform .reap).perform (.rotate s.settings.saved)

end Store

namespace Kernel

open KernelM

/-- Slot `c`, whose task has ended, owns the stack `x` still, in the live block `b`. -/
structure Retains (k : Kernel) (c : TaskId) (x : Stack) (b : Block) : Prop where
  ended : (k.tasks.slot c).state = .ended
  stack : (k.tasks.slot c).stack = x
  live : b ∈ k.arena.liveBlocks
  payload : b.payload = x.base

/-- The act is a yield that is made while another task than `c` has the processor. -/
def Reclaims (k : Kernel) (c : TaskId) (act : KernelAct) : Prop :=
  act.Yields k ∧ k.tasks.current ≠ some c

/-- The system `u` keeps account of the kernel's tasks and heap. -/
structure Accounted (k : Kernel) (u : TaskSystem) (managed : Nat) : Prop where
  active : k.store.Active
  mirrors : k.store.Mirrors u
  consistent : u.Consistent managed
  tidy : u.tasks.Tidy

variable {k k' : Kernel} {u v : TaskSystem} {managed : Nat} {act : KernelAct} {c : TaskId}
  {x : Stack} {b : Block} {acts : List KernelAct}

theorem Accounted.tasks_eq (h : k.Accounted u managed) : k.tasks = u.tasks := h.mirrors.tasks

theorem Accounted.arena_eq (h : k.Accounted u managed) : k.arena = u.arena := h.mirrors.arena

theorem Accounted.retains_iff (h : k.Accounted u managed) :
    k.Retains c x b ↔ u.Retains c x b := by
  constructor
  · intro hk
    obtain ⟨hended, hstack, hlive, hpayload⟩ := hk
    rw [h.tasks_eq] at hended hstack
    rw [h.arena_eq, h.consistent.holds.mem_liveBlocks] at hlive
    obtain ⟨y, d, hd, _⟩ := h.consistent.exists_retains hended
    obtain rfl : x = y := hstack.symm.trans hd.stack
    -- The block of the slot is known by its payload.
    obtain rfl : b = d := h.consistent.holds.eq_of_payload hlive
      (List.mem_append_left _ hd.block) (hpayload.trans hd.payload.symm)
    exact hd
  · intro hu
    refine ⟨h.tasks_eq ▸ hu.ended, h.tasks_eq ▸ hu.stack, ?_, hu.payload⟩
    rw [h.arena_eq, h.consistent.holds.mem_liveBlocks]
    exact List.mem_append_left _ hu.block

theorem Accounted.permits (h : k.Accounted u managed) (hact : act.Permitted k) {r : TaskRequest}
    (hrequest : act.request? = some r) : u.Permits r := by
  cases act with
  | create | endCurrent | allocate =>
      cases hrequest
      trivial
  | free a =>
      cases hrequest
      rw [KernelAct.Permitted, h.tasks_eq] at hact
      exact hact
  | write a bytes =>
      cases hrequest
      obtain ⟨b, hb, hinside⟩ := hact
      rw [h.arena_eq, h.consistent.holds.mem_liveBlocks] at hb
      exact ⟨b, hb, hinside⟩
  | attach | detach | setPreemption | setInterrupts | yield | beginLine | endLine =>
      cases hrequest

/-- How the account `u` of the kernel follows an act. -/
inductive Follows (k : Kernel) (u : TaskSystem) (act : KernelAct) : TaskSystem → Prop
  | request {r : TaskRequest} (request_eq : act.request? = some r) (permits : u.Permits r) :
      Follows k u act (u.perform r)
  | yields (yields : act.Yields k) : Follows k u act (u.handOn k.machine.settings.saved)
  | idle (not_yields : ¬ act.Yields k) : Follows k u act u

theorem Follows.retains (h : k.Follows u act v) (hu : k.Accounted u managed)
    (hr : u.Retains c x b) (hspares : ¬ k.Reclaims c act) : v.Retains c x b := by
  cases h with
  | request hrequest hpermits =>
      obtain ⟨hreap, _⟩ := KernelAct.ne_of_request hrequest
      exact hr.perform hu.consistent hpermits fun hr => absurd hr hreap
  | yields hyields =>
      have hcurrent : u.tasks.current = some c := by
        rw [← hu.tasks_eq]
        by_contra hother
        exact hspares ⟨hyields, hother⟩
      exact hr.handOn hu.consistent hcurrent _
  | idle => exact hr

theorem Follows.reclaimed (h : k.Follows u act v) (hu : k.Accounted u managed)
    (hr : u.Retains c x b) (hreclaims : k.Reclaims c act) :
    (v.tasks.slot c).state = .unused ∧ b ∈ v.arena.freeBlocks := by
  obtain ⟨hyields, hother⟩ := hreclaims
  cases h with
  | request hrequest => exact absurd hyields (KernelAct.not_yields_of_request hrequest)
  | yields => exact hr.reclaimed hu.consistent (hu.tasks_eq ▸ hother) _
  | idle hnot => exact absurd hyields hnot

theorem Follows.ended (h : k.Follows u act v) (hu : k.Accounted u managed)
    (hyields : act.Yields k) (hended : (v.tasks.slot c).state = .ended) :
    k.tasks.current = some c ∧ v.tasks.current ≠ some c := by
  cases h with
  | request hrequest => exact absurd hyields (KernelAct.not_yields_of_request hrequest)
  | yields =>
      rw [hu.tasks_eq]
      exact hu.consistent.ended_handOn _ hended
  | idle hnot => exact absurd hyields hnot

theorem Accounted.step (h : k.Accounted u managed) (hact : act.Permitted k) :
    ∃ k' v, act.program k = .ok () k' ∧ k'.Accounted v managed ∧ k.Follows u act v := by
  by_cases hyields : act.Yields k
  · obtain ⟨k', hk', hstore⟩ := KernelAct.returns_of_yields h.active hyields
    refine ⟨k', _, hk', ?_, .yields hyields⟩
    exact ⟨hstore ▸ h.active.handOn, hstore ▸ h.mirrors.handOn, h.consistent.handOn _,
      h.consistent.tidy_handOn _⟩
  · cases hrequest : act.request? with
    | some r =>
        obtain ⟨k', hk', hstore⟩ := (KernelAct.stores_of_request hrequest).returns k
        have hpermits := h.permits hact hrequest
        obtain ⟨_, hrotate⟩ := KernelAct.ne_of_request hrequest
        refine ⟨k', _, hk', ?_, .request hrequest hpermits⟩
        exact ⟨hstore ▸ h.active.perform r, hstore ▸ h.mirrors.perform r,
          h.consistent.perform hpermits, h.consistent.tidy_perform h.tidy hrotate⟩
    | none =>
        obtain ⟨preemption, k', hk', hstore⟩ := KernelAct.returns_of_idle h.active hrequest hyields
        refine ⟨k', u, hk', ?_, .idle hyields⟩
        refine ⟨hstore ▸ ?_, hstore ▸ ?_, h.consistent, h.tidy⟩
        · exact ⟨h.active.installed, h.active.halted, h.active.unlimited, h.active.base⟩
        · exact ⟨h.mirrors.tasks, h.mirrors.arena⟩

theorem Accounted.after (h : k.Accounted u managed) (hact : act.Permitted k) :
    ∃ v, (act.program.after k).Accounted v managed ∧ k.Follows u act v := by
  obtain ⟨k', v, hk', hv, hfollows⟩ := h.step hact
  have hafter : act.program.after k = k' := by rw [KernelM.after, hk']
  exact ⟨v, hafter ▸ hv, hfollows⟩

/-! ## Runs -/

def afterActs (k : Kernel) (acts : List KernelAct) : Kernel :=
  acts.foldl (fun k act => act.program.after k) k

/-- Each act is permitted when it is made. -/
def Allows (k : Kernel) : List KernelAct → Prop
  | [] => True
  | act :: rest => act.Permitted k ∧ (act.program.after k).Allows rest

/-- None of the acts is a yield that is made while another task than `c` has the processor. -/
def Spares (k : Kernel) (c : TaskId) : List KernelAct → Prop
  | [] => True
  | act :: rest => ¬ k.Reclaims c act ∧ (act.program.after k).Spares c rest

instance decidableAllows : (k : Kernel) → (acts : List KernelAct) → Decidable (k.Allows acts)
  | _, [] => isTrue trivial
  | k, act :: rest =>
      have := decidableAllows (act.program.after k) rest
      inferInstanceAs (Decidable (_ ∧ _))

theorem Accounted.run (h : k.Accounted u managed) (hacts : k.Allows acts) :
    ∃ v, (k.afterActs acts).Accounted v managed := by
  induction acts generalizing k u with
  | nil => exact ⟨u, h⟩
  | cons act rest ih =>
      obtain ⟨v, hv, _⟩ := h.after hacts.1
      exact ih hv hacts.2

theorem Accounted.retains_run (h : k.Accounted u managed) (hr : k.Retains c x b)
    (hacts : k.Allows acts) (hspares : k.Spares c acts) : (k.afterActs acts).Retains c x b := by
  induction acts generalizing k u with
  | nil => exact hr
  | cons act rest ih =>
      obtain ⟨v, hv, hfollows⟩ := h.after hacts.1
      have hnext := hfollows.retains h (h.retains_iff.mp hr) hspares.1
      exact ih hv (hv.retains_iff.mpr hnext) hacts.2 hspares.2

/-! ## Programs of several acts -/

theorem Accounted.yieldTimes_eq (h : k.Accounted u managed) (rounds : Nat) :
    yieldTimes rounds k = .ok () (k.afterActs (List.replicate rounds .yield)) := by
  induction rounds generalizing k u with
  | zero => rfl
  | succ rounds ih =>
      have hact : KernelAct.yield.Permitted k := trivial
      obtain ⟨k', v, hk', hv, _⟩ := h.step hact
      have hafter : KernelAct.yield.program.after k = k' := by rw [KernelM.after, hk']
      have hyield : yield k = .ok () k' := hk'
      rw [yieldTimes, bind_of_ok hyield, ih hv, List.replicate_succ, afterActs, afterActs,
        List.foldl_cons, hafter]

theorem endTask_eq (rounds : Nat) : endTask rounds = endTask 0 >>= fun _ => yieldTimes rounds := by
  funext k
  rw [bind_apply, endTask, endTask, bind_apply, bind_apply]
  cases onTasks (modifyGet markEnded) k with
  | error stop k' => rfl
  | ok ended k' => cases ended <;> rfl

theorem Accounted.endTask_eq (h : k.Accounted u managed) (rounds : Nat) :
    endTask rounds k = .ok () (k.afterActs (.endCurrent :: List.replicate rounds .yield)) := by
  have hact : KernelAct.endCurrent.Permitted k := trivial
  obtain ⟨k', v, hk', hv, _⟩ := h.step hact
  have hafter : KernelAct.endCurrent.program.after k = k' := by rw [KernelM.after, hk']
  have hmark : endTask 0 k = .ok () k' := hk'
  rw [Kernel.endTask_eq, bind_of_ok hmark, hv.yieldTimes_eq, afterActs, afterActs,
    List.foldl_cons, hafter]

theorem afterActs_append (k : Kernel) (before later : List KernelAct) :
    k.afterActs (before ++ later) = (k.afterActs before).afterActs later :=
  List.foldl_append

section Route

variable {table : HandlerTable} {run : Handlers} {line : UInt8} {k₁ k₂ k₃ : Kernel}

theorem route_of_handler (hbase : table.controller.base = lineVectorBase)
    (hline : line.toNat < lineCount) (frame : Option TrapFrame) {id : HandlerId}
    (hhandler : table.handler? line = some id) (hcall : note (.handler id line) k = .ok () k₁)
    (hrun : run id line k₁ = .ok () k₂)
    (hack : runBus (Controller.acknowledge line) k₂ = .ok () k₃) :
    route table run (lineVectorBase + line) frame k = .ok (.served line true) k₃ := by
  unfold route
  rw [if_neg (hbase ▸ Controller.not_lt_line hline), Controller.lineOf?_line hbase hline]
  dsimp only
  rw [hhandler]
  dsimp only
  rw [bind_of_ok hcall, bind_of_ok hrun]
  exact bind_of_ok hack _

theorem route_of_no_handler (hbase : table.controller.base = lineVectorBase)
    (hline : line.toNat < lineCount) (frame : Option TrapFrame)
    (hhandler : table.handler? line = none)
    (hlog : logMessage .warn "traps"
      (s!"Unhandled IRQ {line.toNat} (Vector " ++ hex 2 (lineVectorBase + line).toNat ++ ")") k =
        .ok () k₁)
    (hack : runBus (Controller.acknowledge line) k₁ = .ok () k₂) :
    route table run (lineVectorBase + line) frame k = .ok (.served line false) k₂ := by
  unfold route
  rw [if_neg (hbase ▸ Controller.not_lt_line hline), Controller.lineOf?_line hbase hline]
  dsimp only
  rw [hhandler]
  dsimp only
  rw [bind_of_ok hlog]
  exact bind_of_ok hack _

end Route

/-- To serve a line is to begin it, to run its handler if it has one, and to end it. -/
theorem Accounted.dispatch_eq (h : k.Accounted u managed) {run : Handlers} {line : UInt8}
    (frame : Option TrapFrame) (hline : line.toNat < lineCount)
    (hacts : (k.afterActs [.beginLine line]).Allows acts)
    (hhandler : ∀ id, k.handlerTable.handler? line = some id →
      run id line (k.afterActs [.beginLine line]) =
        .ok () ((k.afterActs [.beginLine line]).afterActs acts))
    (hnone : k.handlerTable.handler? line = none → acts = []) :
    dispatch run (lineVectorBase + line) frame k =
      .ok (.served line (k.handlerTable.handler? line).isSome)
        (k.afterActs (.beginLine line :: (acts ++ [.endLine line]))) := by
  have hbase : k.handlerTable.controller.base = lineVectorBase := h.active.base
  have hinstalled : k.installed = true := h.active.installed
  obtain ⟨k₁, hcopy, _⟩ := discreet_store.returns_handlerTableCopy k
  have hfirst : (KernelAct.beginLine line).Permitted k := trivial
  obtain ⟨k₂, v, hbegin, hv, _⟩ := h.step hfirst
  have hk₂ : k.afterActs [.beginLine line] = k₂ := by
    rw [afterActs, List.foldl_cons, List.foldl_nil, KernelM.after, hbegin]
  rw [hk₂] at hacts hhandler
  obtain ⟨w, hw⟩ := hv.run hacts
  obtain ⟨k₃, hack, _⟩ :=
    (keeps_store_runBus (Controller.acknowledge line)).returns (k₂.afterActs acts)
  have hlast : (KernelAct.endLine line).Permitted (k₂.afterActs acts) := trivial
  obtain ⟨k₄, _, hend, _⟩ := hw.step hlast
  have hk₄ : k.afterActs (.beginLine line :: (acts ++ [.endLine line])) = k₄ := by
    rw [← List.singleton_append, afterActs_append, hk₂, afterActs_append, afterActs,
      List.foldl_cons, List.foldl_nil, KernelM.after, hend]
  have hbegin : beginLine line k = .ok () k₂ := hbegin
  rw [beginLine, bind_of_ok hcopy] at hbegin
  have hend : endLine line (k₂.afterActs acts) = .ok () k₄ := hend
  rw [endLine, bind_of_ok hack] at hend
  have hroute : route k.handlerTable run (lineVectorBase + line) frame k₁ =
      .ok (.served line (k.handlerTable.handler? line).isSome) k₃ := by
    cases hcase : k.handlerTable.handler? line with
    | none =>
        obtain rfl := hnone hcase
        rw [hcase] at hbegin
        exact route_of_no_handler hbase hline frame hcase hbegin hack
    | some id =>
        rw [hcase] at hbegin
        exact route_of_handler hbase hline frame hcase hbegin (hhandler id hcase) hack
  rw [dispatch, bind_of_ok (get_apply k), if_pos hinstalled, bind_of_ok hcopy, bind_of_ok hroute,
    hk₄]
  exact bind_of_ok hend _

/-- How the kernel treats tasks that end, from a state that was reached. -/
structure Prompt (k : Kernel) : Prop where
  returns : ∀ act : KernelAct, act.Permitted k → ∃ k', act.program k = .ok () k'
  owns : ∀ c ∈ k.tasks.endedSlots, ∃ x b, k.Retains c x b ∧ x.base + x.size ≤ b.limit
  /-- A yield leaves no ended task but the one that made it. -/
  ended_after_yield : ∀ act : KernelAct, act.Yields k →
    ∀ c ∈ (act.program.after k).tasks.endedSlots,
      k.tasks.current = some c ∧ (act.program.after k).tasks.current ≠ some c
  /-- An ended task keeps its slot and its stack until another task yields; then both are
  taken back. -/
  reclaimed : ∀ c x b acts, k.Retains c x b → k.Allows acts → k.Spares c acts →
    (k.afterActs acts).Retains c x b ∧
      ∀ act : KernelAct, (k.afterActs acts).Reclaims c act →
        ((act.program.after (k.afterActs acts)).tasks.slot c).state = .unused ∧
          b ∈ (act.program.after (k.afterActs acts)).arena.freeBlocks
  card_ended : k.tasks.endedSlots.card ≤ 2
  current_ended : k.tasks.endedSlots.card = 2 →
    ∃ c ∈ k.tasks.endedSlots, k.tasks.current = some c
  endTask : ∀ rounds, KernelM.endTask rounds k =
    .ok () (k.afterActs (.endCurrent :: List.replicate rounds .yield))
  dispatch : ∀ (run : Handlers) (line : UInt8) (frame : Option TrapFrame) (acts : List KernelAct),
    line.toNat < lineCount → (k.afterActs [.beginLine line]).Allows acts →
    (∀ id, k.handlerTable.handler? line = some id →
      run id line (k.afterActs [.beginLine line]) =
        .ok () ((k.afterActs [.beginLine line]).afterActs acts)) →
    (k.handlerTable.handler? line = none → acts = []) →
    KernelM.dispatch run (lineVectorBase + line) frame k =
      .ok (.served line (k.handlerTable.handler? line).isSome)
        (k.afterActs (.beginLine line :: (acts ++ [.endLine line])))

theorem Accounted.card_endedSlots (h : k.Accounted u managed) :
    k.tasks.endedSlots.card ≤ 2 ∧ (k.tasks.endedSlots.card = 2 →
      ∃ c ∈ k.tasks.endedSlots, k.tasks.current = some c) := by
  obtain ⟨c, hlifecycle⟩ := h.consistent.lifecycle
  have hcurrent := hlifecycle.current_eq
  have hcard := h.tidy.card_endedSlots hcurrent
  rw [h.tasks_eq]
  exact ⟨hcard.1, fun htwo => ⟨c, hcard.2 htwo, hcurrent⟩⟩

theorem Accounted.prompt (h : k.Accounted u managed) : k.Prompt where
  returns := by
    intro act hact
    obtain ⟨k', _, hk', _⟩ := h.step hact
    exact ⟨k', hk'⟩
  owns := by
    intro c hc
    rw [TaskTable.mem_endedSlots, h.tasks_eq] at hc
    obtain ⟨x, b, hr, hroom⟩ := h.consistent.exists_retains hc
    exact ⟨x, b, h.retains_iff.mpr hr, hroom⟩
  ended_after_yield := by
    intro act hyields c hc
    obtain ⟨v, hv, hfollows⟩ := h.after hyields.permitted
    rw [TaskTable.mem_endedSlots, hv.tasks_eq] at hc
    rw [hv.tasks_eq]
    exact hfollows.ended h hyields hc
  reclaimed := by
    intro c x b acts hr hacts hspares
    have hr' := h.retains_run hr hacts hspares
    refine ⟨hr', ?_⟩
    intro act hreclaims
    obtain ⟨w, hw⟩ := h.run hacts
    obtain ⟨v, hv, hfollows⟩ := hw.after hreclaims.1.permitted
    rw [hv.tasks_eq, hv.arena_eq]
    exact hfollows.reclaimed hw (hw.retains_iff.mp hr') hreclaims
  card_ended := h.card_endedSlots.1
  current_ended := h.card_endedSlots.2
  endTask := h.endTask_eq
  dispatch := fun _ _ frame _ hline hacts hhandler hnone =>
    h.dispatch_eq frame hline hacts hhandler hnone

theorem accounted_of_boot {config : BootConfig} {idle : TaskId}
    (hhalted : k.halted = false) (hbase : k.handlerTable.controller.base = lineVectorBase)
    (hunlimited : k.machine.settings.switchBudget = none)
    (hfits : config.poolStart + config.poolSize < wordLimit)
    (hboot : boot config k = .ok (.ok idle) k') :
    ∃ u managed, k'.Accounted u managed := by
  obtain ⟨managed, opened, hpool, hinit, hstore⟩ := boot_cases hbase hboot
  refine ⟨.started opened k'.tasks k'.arena, managed, ?_, ⟨rfl, rfl⟩, ?_, ?_⟩
  · rw [hstore]
    exact ⟨rfl, hhalted, hunlimited, hbase⟩
  · exact TaskSystem.consistent_started hpool hfits hinit
  · exact TaskTable.tidy_of_init hinit

/-- Whatever tasks, clients of the heap and interrupts do after a boot on a pool that lies in the
address space, ended tasks are reclaimed by the first yield of another task, and not before. -/
theorem run_prompt {config : BootConfig} {idle : TaskId}
    (hhalted : k.halted = false) (hbase : k.handlerTable.controller.base = lineVectorBase)
    (hunlimited : k.machine.settings.switchBudget = none)
    (hfits : config.poolStart + config.poolSize < wordLimit)
    (hboot : boot config k = .ok (.ok idle) k') (hacts : k'.Allows acts) :
    (k'.afterActs acts).Prompt := by
  obtain ⟨u, managed, hu⟩ := accounted_of_boot hhalted hbase hunlimited hfits hboot
  obtain ⟨v, hv⟩ := hu.run hacts
  exact hv.prompt

theorem boot_booted : boot { poolStart := 4096, poolSize := 8192 } {} = .ok (.ok 0) booted := by
  have hends :
      endsWith (fun _ => true) (boot { poolStart := 4096, poolSize := 8192 } {}) = true := by
    decide +kernel
  obtain ⟨k, hboot, _⟩ := exists_of_endsWith hends
  rw [booted, after, hboot]

/-- The first of two tasks ends and the timer takes the processor from it.  Then the second one
ends too. -/
def exitAfterExit : List KernelAct :=
  [.create 0x100 256, .create 0x200 256, .allocate 40, .setPreemption true, .attach 0 7, .yield,
    .endCurrent, .beginLine 0, .endLine 0, .endCurrent]

theorem run_prompt_exitAfterExit :
    4096 + 8192 < wordLimit ∧ booted.Allows exitAfterExit ∧
      (booted.afterActs exitAfterExit).Prompt ∧
      (booted.afterActs exitAfterExit).tasks.endedSlots = {1, 2} ∧
      (booted.afterActs exitAfterExit).tasks.current = some 2 ∧
      (booted.afterActs (exitAfterExit ++ [.yield])).tasks.endedSlots = {2} := by
  have hfits : 4096 + 8192 < wordLimit := by decide
  have hacts : booted.Allows exitAfterExit := by decide +kernel
  exact ⟨hfits, hacts, run_prompt rfl rfl rfl hfits boot_booted hacts, by decide +kernel,
    by decide +kernel, by decide +kernel⟩

end Kernel

end Kernel16
