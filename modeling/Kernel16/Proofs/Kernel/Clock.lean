import Kernel16.Kernel.Handlers
import Kernel16.Proofs.Kernel.Execution

/-!
# What the timer works on

The clock of a kernel is its tick count with the effects so far: what was done
to the bus and the processor, which handlers were called and which ticks were
counted.  Uses of shared state and writes to the vector table are no effects.

Scheduling decisions, changes of the handler table and new tasks have no
effects.  Setting up the traps has some, but neither acknowledges an interrupt
nor switches.
-/

namespace Kernel16

namespace Event

def isEffect : Event → Bool
  | .access _ _ | .vectorWrite _ _ => false
  | _ => true

def isSwitch : Event → Bool
  | .switch _ _ _ _ => true
  | _ => false

/-- The end of an interrupt at the controller with this command register. -/
def endOfInterrupt (command : UInt16) : Event :=
  .bus (.write command Controller.acknowledgement)

end Event

/-- No effect, or one switch if it is allowed. -/
def MaySwitch (allowed : Prop) (es : List Event) : Prop :=
  es = [] ∨ allowed ∧ ∃ e, e.isSwitch = true ∧ es = [e]

theorem MaySwitch.count {allowed : Prop} {es : List Event} (h : MaySwitch allowed es)
    (command : UInt16) : es.count (.endOfInterrupt command) = 0 := by
  rcases h with rfl | ⟨_, e, he, rfl⟩
  · rfl
  · rw [List.count_eq_zero]
    intro hmem
    rw [← List.mem_singleton.mp hmem] at he
    exact nomatch he

theorem MaySwitch.eq_of_switch {allowed : Prop} {front switches before back : List Event}
    {e : Event} (h : MaySwitch allowed switches) (hfront : ∀ e ∈ front, e.isSwitch = false)
    (he : e.isSwitch = true) (heq : front ++ switches = before ++ e :: back) :
    before = front := by
  rcases List.append_eq_append_iff.mp heq with ⟨middle, hbefore, hswitches⟩ | ⟨middle, hcut, htail⟩
  · rcases h with rfl | ⟨_, e', _, rfl⟩
    · simp at hswitches
    · cases middle with
      | nil => rw [hbefore, List.append_nil]
      | cons first rest => simp at hswitches
  · cases middle with
    | nil => rw [hcut, List.append_nil]
    | cons first rest =>
        obtain ⟨rfl, _⟩ := List.cons.inj htail
        rw [hfront e (by simp [hcut])] at he
        exact absurd he (by decide)

/-- How a line is acknowledged: at the second controller, if it is one of its lines,
and at the first one. -/
def acknowledgements (line : UInt8) : List Event :=
  (if 8 ≤ line then [Event.endOfInterrupt Controller.secondaryCommand] else []) ++
    [Event.endOfInterrupt Controller.primaryCommand]

/-- The command register of each controller, with the first line that it acknowledges. -/
def Controller.acknowledging : List (UInt16 × Nat) :=
  [(primaryCommand, 0), (secondaryCommand, 8)]

/-- The event neither switches nor acknowledges. -/
structure Event.Silent (e : Event) : Prop where
  isSwitch_eq : e.isSwitch = false
  ne_endOfInterrupt : ∀ c ∈ Controller.acknowledging, e ≠ .endOfInterrupt c.1

theorem Event.silent_write {address : UInt16} {value : UInt8}
    (h : value ≠ Controller.acknowledgement ∨
      address ≠ Controller.primaryCommand ∧ address ≠ Controller.secondaryCommand) :
    (Event.bus (.write address value)).Silent := by
  refine ⟨rfl, fun c hc heq => ?_⟩
  obtain ⟨haddress, hvalue⟩ : address = c.1 ∧ value = Controller.acknowledgement := by
    simpa [endOfInterrupt] using heq
  obtain ⟨hprimary, hsecondary⟩ := h.resolve_left (absurd hvalue)
  simp only [Controller.acknowledging, List.mem_cons, List.not_mem_nil, or_false] at hc
  rcases hc with rfl | rfl
  · exact hprimary haddress
  · exact hsecondary haddress

theorem count_endOfInterrupt_of_silent {es : List Event} (hes : ∀ e ∈ es, e.Silent)
    {c : UInt16 × Nat} (hc : c ∈ Controller.acknowledging) :
    es.count (.endOfInterrupt c.1) = 0 := by
  rw [List.count_eq_zero]
  exact fun hmem => (hes _ hmem).ne_endOfInterrupt c hc rfl

theorem count_acknowledgements (line : UInt8) {c : UInt16 × Nat}
    (hc : c ∈ Controller.acknowledging) :
    (acknowledgements line).count (.endOfInterrupt c.1) = if c.2 ≤ line.toNat then 1 else 0 := by
  have hsecond : (8 ≤ line) = (8 ≤ line.toNat) := rfl
  unfold acknowledgements
  simp only [Controller.acknowledging, List.mem_cons, List.not_mem_nil, or_false] at hc
  rcases hc with rfl | rfl
  · split <;> rfl
  · simp only [hsecond]
    split <;> rfl

theorem isSwitch_of_mem_acknowledgements {line : UInt8} {e : Event}
    (he : e ∈ acknowledgements line) : e.isSwitch = false := by
  unfold acknowledgements at he
  rcases List.mem_append.mp he with he | he
  · split at he
    · rw [List.mem_singleton.mp he]
      rfl
    · exact nomatch he
  · rw [List.mem_singleton.mp he]
    rfl

/-! ## Programs that acknowledge nothing -/

namespace BusProgram

variable {α β : Type}

def Acknowledgeless : BusProgram α → Prop
  | .done _ => True
  | .read _ next => ∀ value, (next value).Acknowledgeless
  | .write address value next =>
      (Event.bus (.write address value)).Silent ∧ next.Acknowledgeless

theorem Acknowledgeless.bind {p : BusProgram α} {f : α → BusProgram β} (hp : p.Acknowledgeless)
    (hf : ∀ a, (f a).Acknowledgeless) : (p.bind f).Acknowledgeless := by
  induction p with
  | done value => exact hf value
  | read address next ih => exact fun value => ih value (hp value)
  | write address value next ih => exact ⟨hp.1, ih hp.2⟩

theorem acknowledgeless_outputs {writes : List (UInt16 × UInt8)}
    (h : ∀ w ∈ writes, (Event.bus (.write w.1 w.2)).Silent) :
    (outputs writes).Acknowledgeless := by
  induction writes with
  | nil => trivial
  | cons w rest ih =>
      obtain ⟨hw, hrest⟩ := List.forall_mem_cons.mp h
      exact ⟨hw, ih hrest⟩

theorem Acknowledgeless.silent {p : BusProgram α} (hp : p.Acknowledgeless) (m : Machine)
    {access : BusAccess} (h : access ∈ (m.run p).2.2) : (Event.bus access).Silent := by
  induction p generalizing m with
  | done value => exact nomatch h
  | read address next ih =>
      rcases List.mem_cons.mp h with rfl | h
      · exact ⟨rfl, fun _ _ => nofun⟩
      · exact ih _ (hp _) _ h
  | write address value next ih =>
      rcases List.mem_cons.mp h with rfl | h
      · exact hp.1
      · exact ih hp.2 _ h

end BusProgram

namespace Controller

theorem acknowledgeless_setEnabled (lines : LineSet) :
    (setEnabled lines).Acknowledgeless := by
  apply BusProgram.acknowledgeless_outputs
  simp only [List.forall_mem_cons, List.not_mem_nil, false_imp_iff, implies_true, and_true]
  exact ⟨Event.silent_write (.inr (by decide)), Event.silent_write (.inr (by decide))⟩

theorem acknowledgeless_enable (lines : LineSet) : (enable lines).Acknowledgeless :=
  fun _ _ => acknowledgeless_setEnabled _

theorem acknowledgeless_setUp (c : Controller) : c.setUp.Acknowledgeless := by
  have hwords : ∀ w ∈ c.initializationWords, w.2 ≠ acknowledgement ∨
      w.1 ≠ primaryCommand ∧ w.1 ≠ secondaryCommand := by
    simp [initializationWords, acknowledgement, primaryCommand, primaryData, secondaryCommand,
      secondaryData]
  refine BusProgram.Acknowledgeless.bind (BusProgram.acknowledgeless_outputs ?_)
    fun _ => acknowledgeless_setEnabled _
  intro w hw
  obtain ⟨word, hword, hw⟩ := List.mem_flatMap.mp hw
  simp only [List.mem_cons, List.not_mem_nil, or_false] at hw
  rcases hw with rfl | rfl
  · exact Event.silent_write (hwords w hword)
  · exact Event.silent_write (.inl (by decide))

end Controller

structure Clock where
  ticks : UInt32
  effects : List Event
  installed : Bool
  halted : Bool
  base : UInt8

def Clock.add (c : Clock) (effects : List Event) : Clock :=
  { c with effects := c.effects ++ effects }

@[simp] theorem Clock.add_nil (c : Clock) : c.add [] = c := by
  simp [add]

@[simp] theorem Clock.add_add (c : Clock) (first second : List Event) :
    (c.add first).add second = c.add (first ++ second) := by
  simp [add]

namespace Kernel

def effects (k : Kernel) : List Event := k.trace.toList.filter Event.isEffect

def clock (k : Kernel) : Clock where
  ticks := k.ticks
  effects := k.effects
  installed := k.installed
  halted := k.halted
  base := k.handlerTable.controller.base

/-- The clock, and whether the timer may yield. -/
def timer (k : Kernel) : Clock × Bool := (k.clock, k.preemption)

end Kernel

namespace KernelM

variable {α β : Type} {m : KernelM α} {k : Kernel}

/-! ## Programs without effects -/

theorem Returns.clock {a : α} {c : Clock} {preemption : Bool}
    (hm : Returns Kernel.timer m k a (c, preemption)) : Returns Kernel.clock m k a c :=
  hm.map Prod.fst

theorem Keeps.clock (hm : Keeps Kernel.timer m) : Keeps Kernel.clock m :=
  hm.map Prod.fst

theorem discreet_timer : Discreet Kernel.timer where
  logger := fun _ _ => rfl
  interrupts := fun _ _ => rfl
  access := fun k resource enabled => by
    simp [Kernel.timer, Kernel.clock, Kernel.effects, Event.isEffect]

theorem keeps_setPreemption (enabled : Bool) : Keeps Kernel.clock (setPreemption enabled) :=
  keeps_modify fun _ => rfl

theorem timer_setHandler (k : Kernel) (line : UInt8) (handler : Option HandlerId) :
    Kernel.timer { k with handlerTable := k.handlerTable.setHandler line handler } = k.timer := by
  simp only [Kernel.timer, Kernel.clock, HandlerTable.controller_setHandler]
  rfl

theorem keeps_setVector (vector : UInt8) (target : FarPointer) :
    Keeps Kernel.timer (setVector vector target) := by
  have hmachine : Keeps Kernel.timer
      (modify fun k => { k with machine := k.machine.setVector vector target }) :=
    keeps_modify fun _ => rfl
  refine hmachine.bind fun _ => keeps_modify fun k => ?_
  simp [Kernel.timer, Kernel.clock, Kernel.effects, Event.isEffect]

theorem keeps_newTask (entry stackSize : Nat) : Keeps Kernel.timer (newTask entry stackSize) := by
  have htable : Keeps Kernel.timer (modifyGet (createInTable entry stackSize)) := by
    apply keeps_modifyGet
    intro k
    unfold createInTable
    split <;> rfl
  refine (discreet_timer.keeps_withLock (discreet_timer.keeps_withLock htable)).bind
    fun result => ?_
  split
  all_goals exact (discreet_timer.keeps_logMessage _ _ _).bind fun _ => keeps_pure _

/-- To choose a task changes only the tasks and the heap. -/
theorem Discreet.keeps_nextSwitch {σ : Type} {view : Kernel → σ} (hview : Discreet view)
    (hdata : ∀ (k : Kernel) tasks arena, view { k with tasks, arena } = view k) :
    Keeps view nextSwitch := by
  have hreap : Keeps view (modifyGet reapTasks) := keeps_modifyGet fun k => hdata k _ _
  have hrotate : Keeps view (modifyGet rotateTasks) := by
    apply keeps_modifyGet
    intro k
    unfold rotateTasks
    split
    next tasks _ => exact hdata k tasks k.arena
    next => rfl
  refine hview.keeps_withLock ((hview.keeps_withLock hreap).bind fun warnings => ?_)
  refine (keeps_forM hview.keeps_emit warnings).bind fun _ => ?_
  exact (hview.keeps_noteAccess .tasks).bind fun _ => hrotate

/-- A yield comes down to its switch, if there is one. -/
theorem Discreet.view_after_yield {σ : Type} {view : Kernel → σ} (hview : Discreet view)
    (hdata : ∀ (k : Kernel) tasks arena, view { k with tasks, arena } = view k) (k : Kernel) :
    view (yield.after k) = view k ∨ k.halted = false ∧
      ∃ switch k', view k' = view k ∧
        view (yield.after k) = view ((switchTasks switch).after k') := by
  unfold yield
  rw [after_bind_of_ok (get_apply k)]
  by_cases hidle : (k.halted || !k.installed) = true
  · rw [if_pos hidle]
    exact Or.inl rfl
  · have hhalted : k.halted = false := by
      cases hhalted : k.halted with
      | false => rfl
      | true => simp [hhalted] at hidle
    have hrestore : Keeps view
        (if k.machine.interrupts = true then setInterrupts true else pure ()) := by
      split
      · exact hview.keeps_setInterrupts true
      · exact keeps_pure ()
    -- The choice of a task returns; only the switch can stop, and then nothing follows it.
    obtain ⟨switch, k₁, hk₁, hview₁⟩ := hview.keeps_nextSwitch hdata (k.setInterrupts false)
    rw [hview.interrupts] at hview₁
    rw [if_neg hidle, after_bind_of_ok (interruptFlag_apply k),
      after_bind_of_ok (setInterrupts_apply false k), after_bind_of_ok hk₁]
    cases switch with
    | none => exact Or.inl ((hrestore.view_after k₁).trans hview₁)
    | some switch =>
        dsimp only
        rw [after_bind_of_ok (logMessage_apply _ _ _ k₁), view_after_bind fun _ => hrestore]
        exact Or.inr ⟨hhalted, switch, _, (hview.logger k₁ _).trans hview₁, rfl⟩

/-! ## Programs with effects -/

theorem returns_note {e : Event} (he : e.isEffect = true) (k : Kernel) :
    Returns Kernel.timer (note e) k () (k.clock.add [e], k.preemption) := by
  refine ⟨_, note_apply e k, ?_⟩
  simp [Kernel.timer, Kernel.clock, Kernel.effects, Clock.add, he]

theorem returns_runBus (p : BusProgram α) (k : Kernel) :
    Returns Kernel.timer (runBus p) k (k.machine.run p).1
      (k.clock.add ((k.machine.run p).2.2.map Event.bus), k.preemption) := by
  refine ⟨_, modifyGet_apply _ k, ?_⟩
  have hbus : ∀ accesses : List BusAccess,
      (accesses.map Event.bus).filter Event.isEffect = accesses.map Event.bus := by
    intro accesses
    rw [List.filter_eq_self]
    intro e he
    obtain ⟨access, _, rfl⟩ := List.mem_map.mp he
    rfl
  simp [Kernel.timer, Kernel.clock, Kernel.effects, Clock.add, hbus]

theorem view_after_spendSwitch {σ : Type} {view : Kernel → σ}
    (hbudget : ∀ (k : Kernel) budget,
      view { k with machine.settings.switchBudget := budget } = view k) (k : Kernel) :
    view (spendSwitch.after k) = view k := by
  unfold spendSwitch
  rw [after_bind_of_ok (get_apply k)]
  cases k.machine.settings.switchBudget with
  | none => rfl
  | some left =>
      dsimp only
      rw [after_bind_of_ok (set_apply k _)]
      split <;> exact hbudget k _

/-- What a switch does that is seen in neither the tasks nor the budget of the machine. -/
theorem view_after_switchTasks {σ : Type} (view : Kernel → σ)
    (htasks : ∀ (k : Kernel) tasks, view { k with tasks } = view k)
    (hbudget : ∀ (k : Kernel) budget,
      view { k with machine.settings.switchBudget := budget } = view k)
    (switch : Switch) (k : Kernel) :
    view ((switchTasks switch).after k) = view { k with
      machine := k.machine.recordSwitch (k.switchEvent switch)
      trace := k.trace.push
        (.switch switch (switch.load k.tasks) k.ticks k.machine.interrupts) } := by
  have hsave : Keeps view (saveOutgoing switch) := by
    apply keeps_modify
    intro k
    split
    next image _ => exact htasks k _
    next => rfl
  unfold switchTasks
  rw [after_bind_of_ok (get_apply k), after_bind_of_ok (note_apply _ k),
    after_bind_of_ok (modify_apply _ _)]
  obtain ⟨a, k₁, hk₁, hview⟩ := hsave { k with
    machine := k.machine.recordSwitch (k.switchEvent switch)
    trace := k.trace.push (.switch switch (switch.load k.tasks) k.ticks k.machine.interrupts) }
  rw [after_bind_of_ok hk₁, view_after_spendSwitch hbudget, hview]

theorem timer_after_switchTasks (switch : Switch) (k : Kernel) :
    ∃ e, e.isSwitch = true ∧
      ((switchTasks switch).after k).timer = (k.clock.add [e], k.preemption) := by
  refine ⟨.switch switch (switch.load k.tasks) k.ticks k.machine.interrupts, rfl, ?_⟩
  rw [view_after_switchTasks Kernel.timer (fun _ _ => rfl) (fun _ _ => rfl)]
  simp [Kernel.timer, Kernel.clock, Kernel.effects, Clock.add, Event.isEffect]

theorem timer_after_yield (k : Kernel) :
    ∃ es, (yield.after k).timer = (k.clock.add es, k.preemption) ∧
      MaySwitch (k.halted = false) es := by
  rcases discreet_timer.view_after_yield (fun _ _ _ => rfl) k with
    hnone | ⟨hhalted, switch, k₁, hk₁, hswitch⟩
  · refine ⟨[], ?_, Or.inl rfl⟩
    rw [hnone, Clock.add_nil]
    rfl
  · obtain ⟨e, he, htimer⟩ := timer_after_switchTasks switch k₁
    refine ⟨[e], ?_, Or.inr ⟨hhalted, e, he, rfl⟩⟩
    have hclock : k₁.clock = k.clock := congrArg Prod.fst hk₁
    have hpreemption : k₁.preemption = k.preemption := congrArg Prod.snd hk₁
    rw [hswitch, htimer, hclock, hpreemption]

/-! ## Acknowledging -/

theorem accesses_outputs (m : Machine) (writes : List (UInt16 × UInt8)) :
    (m.run (.outputs writes)).2.2 = writes.map fun w => .write w.1 w.2 := by
  induction writes generalizing m with
  | nil => rfl
  | cons w rest ih => simp only [BusProgram.outputs, Machine.run, ih, List.map_cons]

theorem returns_acknowledge (line : UInt8) (k : Kernel) :
    Returns Kernel.timer (runBus (Controller.acknowledge line)) k ()
      (k.clock.add (acknowledgements line), k.preemption) := by
  have haccesses : (k.machine.run (Controller.acknowledge line)).2.2.map Event.bus =
      acknowledgements line := by
    unfold Controller.acknowledge acknowledgements
    rw [accesses_outputs]
    split <;> rfl
  rw [← haccesses]
  exact returns_runBus (Controller.acknowledge line) k

/-! ## Setting up -/

/-- From every state the program returns.  Its effects neither switch nor acknowledge, and
it changes the tick count by `count`. -/
def SetsUp (count : UInt32 → UInt32) (m : KernelM α) : Prop :=
  ∀ k, ∃ a es, Returns Kernel.timer m k a
      ({ k.clock with ticks := count k.ticks }.add es, k.preemption) ∧
    ∀ e ∈ es, e.Silent

variable {count count' : UInt32 → UInt32}

theorem SetsUp.bind {f : α → KernelM β} (hm : SetsUp count m) (hf : ∀ a, SetsUp count' (f a)) :
    SetsUp (fun n => count' (count n)) (m >>= f) := by
  intro k
  obtain ⟨a, es, ⟨k₁, hk₁, htimer₁⟩, hes⟩ := hm k
  obtain ⟨b, es', ⟨k₂, hk₂, htimer₂⟩, hes'⟩ := hf a k₁
  refine ⟨b, es ++ es', ⟨k₂, (bind_of_ok hk₁ f).trans hk₂, ?_⟩, ?_⟩
  · have hclock : k₁.clock = { k.clock with ticks := count k.ticks }.add es :=
      congrArg Prod.fst htimer₁
    have hpreemption : k₁.preemption = k.preemption := congrArg Prod.snd htimer₁
    have hticks : k₁.ticks = count k.ticks := congrArg Clock.ticks hclock
    rw [htimer₂, hclock, hticks, hpreemption, ← Clock.add_add]
    rfl
  · intro e he
    exact (List.mem_append.mp he).elim (hes e) (hes' e)

theorem Keeps.setsUp (hm : Keeps Kernel.timer m) : SetsUp id m := by
  intro k
  obtain ⟨a, ha⟩ := hm k
  refine ⟨a, [], ?_, fun _ he => nomatch he⟩
  rw [Clock.add_nil]
  exact ha

theorem SetsUp.andThen {f : α → KernelM β} (hm : SetsUp id m)
    (hf : ∀ a, SetsUp count (f a)) : SetsUp count (m >>= f) :=
  hm.bind hf

theorem SetsUp.followedBy {f : α → KernelM β} (hm : SetsUp count m)
    (hf : ∀ a, SetsUp id (f a)) : SetsUp count (m >>= f) :=
  hm.bind hf

theorem setsUp_runBus {p : BusProgram α} (hp : p.Acknowledgeless) : SetsUp id (runBus p) := by
  intro k
  refine ⟨_, _, returns_runBus p k, ?_⟩
  intro e he
  obtain ⟨access, haccess, rfl⟩ := List.mem_map.mp he
  exact hp.silent k.machine haccess

theorem keeps_installStubs : Keeps Kernel.timer installStubs := by
  unfold installStubs
  refine (keeps_foldlM ?install servedVectors 0).bind fun installed => ?report
  case install =>
    intro installed vector
    refine keeps_get.bind fun k => ?_
    split
    · exact (keeps_setVector _ _).bind fun _ => keeps_pure _
    · exact (discreet_timer.keeps_logMessage _ _ _).bind fun _ => keeps_pure _
  case report =>
    exact (discreet_timer.keeps_logMessage _ _ _).bind fun _ => keeps_pure _

theorem setsUp_initTraps (lines : LineSet) : SetsUp (fun _ => 0) (initTraps lines) := by
  have hreset : SetsUp (fun _ => 0) (modify fun k => { k with ticks := 0 }) := by
    intro k
    refine ⟨(), [], ⟨_, modify_apply _ k, ?_⟩, fun _ he => nomatch he⟩
    rw [Clock.add_nil]
    rfl
  refine (discreet_timer.keeps_setInterrupts false).setsUp.andThen fun _ => ?_
  refine discreet_timer.keeps_handlerTableCopy.setsUp.andThen fun table => ?_
  refine (setsUp_runBus (table.controller.acknowledgeless_setUp)).andThen fun _ => ?_
  refine keeps_installStubs.setsUp.andThen fun installed => ?_
  refine (setsUp_runBus (Controller.acknowledgeless_enable lines.withCascade)).andThen fun _ => ?_
  refine hreset.followedBy fun _ => ?_
  exact (discreet_timer.keeps_logMessage _ _ _).setsUp.andThen fun _ =>
    (discreet_timer.keeps_setInterrupts true).setsUp

end KernelM

end Kernel16
