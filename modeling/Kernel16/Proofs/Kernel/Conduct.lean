import Kernel16.Kernel.Boot
import Kernel16.Proofs.Kernel.Ordinary

/-!
# The conduct of kernel programs

A conduct says what programs may have done when they return, and how they may stop.  Ordinary
programs obey every conduct, and programs that obey it may follow each other.  If yielding
obeys a conduct, and the handlers do, then so does the dispatch of every vector that is no
exception.
-/

namespace Kernel16

structure Conduct where
  /-- The states in which programs are run. -/
  state : Kernel → Prop
  /-- From the first state to the second a program may go on. -/
  continues : Kernel → Kernel → Prop
  stops : Kernel → Stop → Kernel → Prop
  ready : ∀ {k}, state k → k.Ready
  state_of : ∀ {k k'}, state k → continues k k' → state k'
  trans : ∀ {k k' k''}, continues k k' → continues k' k'' → continues k k''
  stops_of : ∀ {k k' k'' stop}, continues k k' → stops k' stop k'' → stops k stop k''
  ordinary : ∀ {k k'}, state k → k.Ordinary k' → continues k k'

namespace Conduct

open KernelM

variable {α β : Type} {c : Conduct} {m : KernelM α} {f : α → KernelM β} {k : Kernel}
  {run : Handlers}

/-- From `k` a program may have this result. -/
inductive Allows (c : Conduct) (k : Kernel) : EStateM.Result Stop Kernel α → Prop
  | ok {a : α} {k' : Kernel} (h : c.continues k k') : Allows c k (.ok a k')
  | error {stop : Stop} {k' : Kernel} (h : c.stops k stop k') : Allows c k (.error stop k')

def Obeys (c : Conduct) (m : KernelM α) : Prop := ∀ k, c.state k → c.Allows k (m k)

@[simp] theorem allows_ok_iff {a : α} {k' : Kernel} :
    c.Allows k (.ok a k') ↔ c.continues k k' :=
  ⟨fun h => by cases h; assumption, .ok⟩

@[simp] theorem allows_error_iff {stop : Stop} {k' : Kernel} :
    c.Allows k (.error stop k' : EStateM.Result Stop Kernel α) ↔ c.stops k stop k' :=
  ⟨fun h => by cases h; assumption, .error⟩

theorem Allows.bind (hk : c.state k) (hm : c.Allows k (m k))
    (hf : ∀ a k', m k = .ok a k' → c.state k' → c.Allows k' (f a k')) :
    c.Allows k ((m >>= f) k) := by
  rw [bind_apply]
  cases hresult : m k with
  | error stop k' =>
      rw [hresult, allows_error_iff] at hm
      exact .error hm
  | ok a k' =>
      rw [hresult, allows_ok_iff] at hm
      have hrest := hf a k' hresult (c.state_of hk hm)
      dsimp only
      cases hrest' : f a k' with
      | ok b k'' =>
          rw [hrest', allows_ok_iff] at hrest
          exact .ok (c.trans hm hrest)
      | error stop k'' =>
          rw [hrest', allows_error_iff] at hrest
          exact .error (c.stops_of hm hrest)

theorem Obeys.bind (hm : c.Obeys m) (hf : ∀ a, c.Obeys (f a)) : c.Obeys (m >>= f) :=
  fun k hk => Allows.bind hk (hm k hk) fun a k' _ hk' => hf a k' hk'

theorem obeys_of_ordinary (hm : Ordinary m) : c.Obeys m := by
  intro k hk
  obtain ⟨a, k', ha, hk'⟩ := hm k (c.ready hk).installed
  rw [ha]
  exact .ok (c.ordinary hk hk')

theorem Obeys.discard (hm : c.Obeys m) : c.Obeys (m >>= fun _ => pure ()) :=
  hm.bind fun _ => obeys_of_ordinary (ordinary_pure ())

/-- The handlers obey the conduct whenever they are called. -/
def Handle (c : Conduct) (run : Handlers) : Prop := ∀ id line, c.Obeys (run id line)

theorem Handle.route (hrun : c.Handle run) (d : HandlerTable) (vector : UInt8)
    (frame : Option TrapFrame) : c.Obeys (route d run vector frame) := by
  have hserved : ∀ (line : UInt8) (handled : Bool), c.Obeys (do
      runBus (Controller.acknowledge line)
      return Outcome.served line handled) := fun line handled =>
    obeys_of_ordinary ((ordinary_runBus _).bind fun _ => ordinary_pure _)
  unfold KernelM.route
  split
  · exact obeys_of_ordinary (ordinary_pure _)
  · split
    · exact obeys_of_ordinary ((ordinary_logMessage _ _ _).bind fun _ => ordinary_pure _)
    · next line _ =>
        dsimp only
        split
        · next id _ =>
            refine (obeys_of_ordinary (ordinary_note rfl)).bind fun _ => ?_
            exact (hrun id line).bind fun _ => hserved line _
        · exact (obeys_of_ordinary (ordinary_logMessage _ _ _)).bind fun _ => hserved line _

/-! ## Dispatching -/

/-- Whatever the program returns has `P`. -/
def Answers (P : α → Prop) (m : KernelM α) : Prop := ∀ k a k', m k = .ok a k' → P a

theorem answers_pure {P : α → Prop} {a : α} (ha : P a) : Answers P (pure a : KernelM α) := by
  intro k b k' h
  cases h
  exact ha

theorem answers_bind {P : β → Prop} (hf : ∀ a, Answers P (f a)) : Answers P (m >>= f) := by
  intro k b k' h
  rw [bind_apply] at h
  cases hresult : m k with
  | ok a k₁ =>
      rw [hresult] at h
      exact hf a k₁ b k' h
  | error stop k₁ =>
      rw [hresult] at h
      cases h

theorem answers_route {d : HandlerTable} {vector : UInt8} (frame : Option TrapFrame)
    (hvector : ¬ vector < d.controller.base) :
    Answers (fun outcome => ∀ fault, outcome ≠ .fatal fault)
      (KernelM.route d run vector frame) := by
  have hserved : ∀ (line : UInt8) (handled : Bool),
      Answers (fun outcome => ∀ fault, outcome ≠ .fatal fault) (do
        runBus (Controller.acknowledge line)
        return Outcome.served line handled) := fun line handled =>
    answers_bind fun _ => answers_pure fun _ => nofun
  unfold KernelM.route
  rw [if_neg hvector]
  split
  · exact answers_bind fun _ => answers_pure fun _ => nofun
  · dsimp only
    split
    · exact answers_bind fun _ => answers_bind fun _ => hserved _ _
    · exact answers_bind fun _ => hserved _ _

theorem obeys_conclude (hyield : c.Obeys yield) {outcome : Outcome}
    (hfatal : ∀ fault, outcome = .fatal fault → c.Obeys (halt fault.text : KernelM Unit)) :
    c.Obeys (conclude outcome) := by
  unfold conclude
  cases outcome with
  | fatal fault => exact hfatal fault rfl
  | served line handled =>
      dsimp only
      split
      · refine (obeys_of_ordinary ordinary_countTick).bind fun _ => ?_
        refine (obeys_of_ordinary ordinary_get).bind fun k => ?_
        split
        · exact hyield
        · exact obeys_of_ordinary (ordinary_pure ())
      · exact obeys_of_ordinary (ordinary_pure ())
  | ignored => exact obeys_of_ordinary (ordinary_pure ())

theorem Handle.dispatch (hrun : c.Handle run) (hyield : c.Obeys yield) {vector : UInt8}
    (hfatal : vector < lineVectorBase → ∀ reason, c.Obeys (halt reason : KernelM Unit))
    (frame : Option TrapFrame) : c.Obeys (dispatch run vector frame) := by
  intro k hk
  obtain ⟨k', hcopy, _⟩ := discreet_timer.returns_handlerTableCopy k
  unfold KernelM.dispatch
  rw [bind_of_ok (get_apply k), if_pos (c.ready hk).installed]
  refine Allows.bind hk (obeys_of_ordinary ordinary_handlerTableCopy k hk) fun d k₁ hd hk₁ => ?_
  refine Allows.bind hk₁ (hrun.route d vector frame k₁ hk₁) fun outcome k₂ houtcome hk₂ => ?_
  refine Allows.bind hk₂ (obeys_conclude hyield ?_ k₂ hk₂) fun _ k₃ _ hk₃ =>
    obeys_of_ordinary (ordinary_pure _) k₃ hk₃
  intro fault hfault
  have hbase : d.controller.base = lineVectorBase := by
    obtain ⟨rfl, _⟩ := EStateM.Result.ok.inj (hcopy.symm.trans hd)
    exact (c.ready hk).base
  refine hfatal ?_ _
  by_contra hvector
  exact answers_route frame (hbase ▸ hvector) _ _ _ houtcome fault hfault

/-- The vector of the line after this one. -/
theorem not_exception_next {line : UInt8} (hline : line.toNat + 1 < lineCount) :
    ¬ lineVectorBase + 1 + line < lineVectorBase := by
  have hnext : (1 + line).toNat = 1 + line.toNat := by
    rw [UInt8.toNat_add]
    exact Nat.mod_eq_of_lt (Nat.lt_trans (Nat.add_comm _ 1 ▸ hline) (by decide))
  have hlast : (1 + line).toNat < lineCount := by
    rw [hnext, Nat.add_comm]
    exact hline
  rw [UInt8.add_assoc]
  exact Controller.not_lt_line hlast

theorem Handle.nested (hyield : c.Obeys yield) (body : HandlerId → HandlerBody) (depth : Nat) :
    c.Handle (.nested body depth) := by
  induction depth with
  | zero => exact fun _ _ => obeys_of_ordinary (ordinary_pure ())
  | succ depth ih =>
      intro id line
      unfold Handlers.nested
      cases body id with
      | quiet => exact obeys_of_ordinary (ordinary_pure ())
      | once => exact obeys_of_ordinary (ordinary_detachHandler line).discard
      | handOver next => exact obeys_of_ordinary (ordinary_attachHandler line next).discard
      | yielding => exact hyield
      | chaining =>
          dsimp only [HandlerBody.run]
          split
          next hline =>
            have hvector := not_exception_next hline
            exact (ih.dispatch hyield (fun h => absurd h hvector) none).discard
          next => exact obeys_of_ordinary (ordinary_pure ())
      | reporting => exact obeys_of_ordinary (ordinary_logMessage _ _ _)

theorem Handle.ofBodies (hyield : c.Obeys yield) (body : HandlerId → HandlerBody) :
    c.Handle (.ofBodies body) :=
  Handle.nested hyield body lineCount

/-! ## Booting -/

theorem Obeys.bootPhase {phase : KernelM (Except BootFailure α)} (name : String)
    (hphase : c.Obeys phase) : c.Obeys (bootPhase name phase) := by
  refine (obeys_of_ordinary (ordinary_logMessage _ _ _)).bind fun _ => hphase.bind fun result => ?_
  cases result with
  | ok a => exact obeys_of_ordinary ((ordinary_logMessage _ _ _).bind fun _ => ordinary_pure _)
  | error e => exact obeys_of_ordinary ((ordinary_logMessage _ _ _).bind fun _ => ordinary_pure _)

theorem obeys_heapPhase (config : BootConfig) : c.Obeys (heapPhase config) := by
  refine Obeys.bootPhase _ ((obeys_of_ordinary (ordinary_initHeap _ _)).bind fun result => ?_)
  cases result with
  | ok managed => exact obeys_of_ordinary (ordinary_pure _)
  | error e => exact obeys_of_ordinary (ordinary_pure _)

end Conduct

/-! ## Calls -/

/-- The calls that neither schedule nor set up the traps. -/
inductive DataCall where
  | initHeap (start size : Nat)
  | heapIsReady
  | heapUsage
  | allocate (n : Nat)
  | reserveStack (n : Nat)
  | free (address : Nat)
  | allocateAligned (layout : Layout)
  | freeAligned (address : Nat) (layout : Layout)
  | allocateZeroed (layout : Layout)
  | reallocate (address : Nat) (old new : Layout)
  | newTask (entry stackSize : Nat)
  | taskOnProcessor
  | stateOf (n : Nat)
  | imageOf (n : Nat)
  | countTasks
  | attachHandler (line : UInt8) (handler : HandlerId)
  | detachHandler (line : UInt8)
  | enableLine (line : UInt8)
  | disableLine (line : UInt8)
  | setPreemption (enabled : Bool)

inductive KernelCall where
  | data (call : DataCall)
  | initTasks
  | yield
  /-- The task on the processor ends, and yields this often. -/
  | endTask (rounds : Nat)
  | dispatch (vector : UInt8) (frame : Option TrapFrame)
  | enterTrap (vector : Nat) (frame : Option TrapFrame)
  | initTraps (lines : LineSet)
  | boot (config : BootConfig)
  | idleLoop (rounds : Nat)
  /-- Whoever calls the kernel may enable and disable interrupts between two calls. -/
  | setInterrupts (enabled : Bool)

namespace DataCall

open KernelM

def program : DataCall → KernelM Unit
  | .initHeap start size => do let _ ← KernelM.initHeap start size
  | .heapIsReady => do let _ ← KernelM.heapIsReady
  | .heapUsage => do let _ ← KernelM.heapUsage
  | .allocate n => do let _ ← KernelM.allocate n
  | .reserveStack n => do let _ ← KernelM.reserveStack n
  | .free address => KernelM.free address
  | .allocateAligned layout => do let _ ← KernelM.allocateAligned layout
  | .freeAligned address layout => KernelM.freeAligned address layout
  | .allocateZeroed layout => do let _ ← KernelM.allocateZeroed layout
  | .reallocate address old new => do let _ ← KernelM.reallocate address old new
  | .newTask entry stackSize => do let _ ← KernelM.newTask entry stackSize
  | .taskOnProcessor => do let _ ← KernelM.taskOnProcessor
  | .stateOf n => do let _ ← KernelM.stateOf n
  | .imageOf n => do let _ ← KernelM.imageOf n
  | .countTasks => do let _ ← KernelM.countTasks
  | .attachHandler line handler => do let _ ← KernelM.attachHandler line handler
  | .detachHandler line => do let _ ← KernelM.detachHandler line
  | .enableLine line => KernelM.enableLine line
  | .disableLine line => KernelM.disableLine line
  | .setPreemption enabled => KernelM.setPreemption enabled

theorem ordinary_program (call : DataCall) : Ordinary call.program := by
  cases call with
  | initHeap start size => exact (ordinary_initHeap start size).discard
  | heapIsReady | heapUsage => exact (ordinary_onHeap _).discard
  | allocate n => exact (ordinary_allocate n).discard
  | reserveStack n => exact (ordinary_reserveStack n).discard
  | free address => exact ordinary_free address
  | allocateAligned layout => exact (ordinary_allocateAligned layout).discard
  | freeAligned address layout => exact ordinary_freeAligned address layout
  | allocateZeroed layout => exact (ordinary_allocateZeroed layout).discard
  | reallocate address old new => exact (ordinary_reallocate address old new).discard
  | newTask entry stackSize => exact (ordinary_newTask entry stackSize).discard
  | taskOnProcessor => exact (ordinary_onTasks TaskTable.current).discard
  | stateOf n => exact (ordinary_onTasks (TaskTable.state · n)).discard
  | imageOf n => exact (ordinary_onTasks (TaskTable.image? · n)).discard
  | countTasks => exact (ordinary_onTasks TaskTable.countTasks).discard
  | attachHandler line handler => exact (ordinary_attachHandler line handler).discard
  | detachHandler line => exact (ordinary_detachHandler line).discard
  | enableLine line => exact ordinary_enableLine line
  | disableLine line => exact ordinary_disableLine line
  | setPreemption enabled => exact ordinary_modify fun _ => rfl

end DataCall

namespace KernelCall

open KernelM

def program (run : Handlers) : KernelCall → KernelM Unit
  | .data call => call.program
  | .initTasks => do let _ ← KernelM.initTasks
  | .yield => KernelM.yield
  | .endTask rounds => KernelM.endTask rounds
  | .dispatch vector frame => do let _ ← KernelM.dispatch run vector frame
  | .enterTrap vector frame => KernelM.enterTrap run vector frame
  | .initTraps lines => KernelM.initTraps lines
  | .boot config => do let _ ← KernelM.boot config
  | .idleLoop rounds => KernelM.idleLoop rounds
  | .setInterrupts enabled => KernelM.setInterrupts enabled

end KernelCall

namespace Kernel

/-- The kernel after the calls, each of which has returned or stopped. -/
def afterCalls (run : Handlers) (k : Kernel) (calls : List KernelCall) : Kernel :=
  calls.foldl (fun k call => (call.program run).after k) k

end Kernel

end Kernel16
