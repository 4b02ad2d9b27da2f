import Kernel16.Kernel.Handlers
import Kernel16.Proofs.Kernel.TrapSetup
import Kernel16.Proofs.Task.Transition

/-!
# Interrupts when nothing can be scheduled

While there is no task to switch to and none to reap, all that an interrupt does is to be
served: the handler of its line is called, if there is one, the line is acknowledged, and the
timer counts a tick.

Handlers are taken to leave alone what a kernel stands on, which is called its footing here:
tasks, heap, ticks, the machine and what is done to it.  They may log, and may change the
handler table, the vector table, the interrupt flag and whether the timer yields.
-/

namespace Kernel16

/-! ## Services -/

namespace Machine

variable {m : Machine}

/-- The machine without interrupt flag and vector table. -/
def bare (m : Machine) : Machine :=
  { m with interrupts := false, vectors := .replicate vectorCount default, exposedWrites := 0 }

theorem bare_write (m : Machine) (address : UInt16) (value : UInt8) :
    (m.write address value).bare = m.bare.write address value := by
  simp only [bare, write, countWrite, setLatch]
  split <;> split <;> rfl

theorem bare_run (m : Machine) (p : BusProgram α) :
    (m.run p).2.1.bare = (m.bare.run p).2.1 := by
  induction p generalizing m with
  | done value => rfl
  | read address next ih => exact ih (m.read address) m
  | write address value next ih =>
      rw [run, run, ← bare_write]
      exact ih (m.write address value)

theorem read_run_outputs {writes : List (UInt16 × UInt8)} {other : UInt16}
    (hwrites : ∀ w ∈ writes, w.1.toNat < latchCount ∧ other ≠ w.1) :
    (m.run (.outputs writes)).2.1.read other = m.read other := by
  induction writes generalizing m with
  | nil => rfl
  | cons w rest ih =>
      obtain ⟨⟨hlatched, hother⟩, hrest⟩ := List.forall_mem_cons.mp hwrites
      have hwrite : (m.write w.1 w.2).read other = m.read other := by
        rw [m.read_write w.1 w.2 hlatched, if_neg hother]
      exact (ih hrest).trans hwrite

def acknowledge (m : Machine) (line : UInt8) : Machine := (m.run (Controller.acknowledge line)).2.1

theorem read_acknowledge (line : UInt8) {other : UInt16}
    (hprimary : other ≠ Controller.primaryCommand)
    (hsecondary : other ≠ Controller.secondaryCommand) :
    (m.acknowledge line).read other = m.read other := by
  refine read_run_outputs fun w hw => ?_
  rcases List.mem_append.mp hw with hw | hw
  · split at hw
    · obtain rfl := List.mem_singleton.mp hw
      exact ⟨by decide, hsecondary⟩
    · exact nomatch hw
  · obtain rfl := List.mem_singleton.mp hw
    exact ⟨by decide, hprimary⟩

def acknowledgeAll (m : Machine) (lines : List UInt8) : Machine := lines.foldl acknowledge m

theorem shielded_acknowledgeAll (hm : m.interrupts = false) (lines : List UInt8) :
    m.Shielded (m.acknowledgeAll lines) := by
  induction lines generalizing m with
  | nil => exact .refl hm
  | cons line rest ih =>
      have hfirst : m.Shielded (m.acknowledge line) := shielded_run hm _
      exact hfirst.trans (ih hfirst.interrupts)

theorem read_acknowledgeAll (lines : List UInt8) {other : UInt16}
    (hprimary : other ≠ Controller.primaryCommand)
    (hsecondary : other ≠ Controller.secondaryCommand) :
    (m.acknowledgeAll lines).read other = m.read other := by
  induction lines generalizing m with
  | nil => rfl
  | cons line rest ih => exact ih.trans (read_acknowledge line hprimary hsecondary)

end Machine

/-- A line that was served, and the handler that was called for it. -/
structure Service where
  line : UInt8
  called : Option HandlerId

namespace Service

/-- What a service does, when so many ticks were counted before. -/
def events (s : Service) (ticks : UInt32) : List Event :=
  s.called.toList.map (.handler · s.line) ++ acknowledgements s.line ++ ticksCounted s.line ticks

/-- What services do one after the other. -/
def eventsOfAll : UInt32 → List Service → List Event
  | _, [] => []
  | ticks, s :: rest => s.events ticks ++ eventsOfAll (ticksAfter s.line ticks) rest

def countTicks (services : List Service) : Nat := services.countP (·.line = timerLine)

theorem isSwitch_of_mem_events {s : Service} {ticks : UInt32} {e : Event}
    (he : e ∈ s.events ticks) : e.isSwitch = false := by
  simp only [events, List.mem_append] at he
  rcases he with (he | he) | he
  · obtain ⟨id, _, rfl⟩ := List.mem_map.mp he
    rfl
  · exact isSwitch_of_mem_acknowledgements he
  · exact (silent_ticksCounted s.line ticks e he).isSwitch_eq

theorem isSwitch_of_mem_eventsOfAll {services : List Service} {ticks : UInt32} {e : Event}
    (he : e ∈ eventsOfAll ticks services) : e.isSwitch = false := by
  induction services generalizing ticks with
  | nil => exact nomatch he
  | cons s rest ih => exact (List.mem_append.mp he).elim isSwitch_of_mem_events ih

theorem ticksAfter_add_countTicks (ticks : UInt32) (s : Service) (rest : List Service) :
    ticksAfter s.line ticks + .ofNat (countTicks rest) =
      ticks + .ofNat (countTicks (s :: rest)) := by
  rw [countTicks, countTicks, List.countP_cons, ticksAfter]
  by_cases hline : s.line = timerLine
  · simp [hline, UInt32.ofNat_add, UInt32.add_assoc, UInt32.add_comm 1]
  · simp [hline]

end Service

/-! ## Tables on which nothing can be scheduled -/

namespace TaskTable

/-- There is nothing to reap and nothing to switch to. -/
structure Calm (t : TaskTable) : Prop where
  reap_eq : ∀ s, t.reap s = { table := t, arena := s }
  rotate_eq : t.rotate = none

variable {t : TaskTable}

theorem Blank.calm (h : t.Blank) : t.Calm :=
  ⟨h.reap_eq, t.rotate_of_no_current h.current_eq⟩

end TaskTable

/-! ## The footing of a kernel -/

structure Footing where
  tasks : TaskTable
  arena : Arena
  /-- Without interrupt flag and vector table. -/
  machine : Machine
  ticks : UInt32
  installed : Bool
  halted : Bool
  base : UInt8
  effects : List Event

namespace Footing

variable (f : Footing)

def refit (tasks : TaskTable) (arena : Arena) : Footing := { f with tasks, arena }

def serve (s : Service) : Footing :=
  { f with
    machine := f.machine.acknowledge s.line
    ticks := ticksAfter s.line f.ticks
    effects := f.effects ++ s.events f.ticks }

def serveAll (services : List Service) : Footing := services.foldl serve f

/-- Nothing can be scheduled, and the lines are where the traps expect them. -/
structure Idle : Prop where
  installed : f.installed = true
  base : f.base = lineVectorBase
  calm : f.tasks.Calm

theorem serveAll_append (first second : List Service) :
    f.serveAll (first ++ second) = (f.serveAll first).serveAll second :=
  List.foldl_append

theorem refit_refit (tasks tasks' : TaskTable) (arena arena' : Arena) :
    (f.refit tasks arena).refit tasks' arena' = f.refit tasks' arena' := rfl

theorem refit_serveAll (services : List Service) (tasks : TaskTable) (arena : Arena) :
    (f.serveAll services).refit tasks arena = (f.refit tasks arena).serveAll services := by
  induction services generalizing f with
  | nil => rfl
  | cons s rest ih => exact ih (f.serve s)

theorem serveAll_eq (services : List Service) :
    f.serveAll services =
      { f with
        machine := f.machine.acknowledgeAll (services.map Service.line)
        ticks := f.ticks + .ofNat (Service.countTicks services)
        effects := f.effects ++ Service.eventsOfAll f.ticks services } := by
  induction services generalizing f with
  | nil => simp [serveAll, Machine.acknowledgeAll, Service.countTicks, Service.eventsOfAll]
  | cons s rest ih =>
      rw [serveAll, List.foldl_cons, ← serveAll, ih, serve, Service.eventsOfAll]
      simp only [Service.ticksAfter_add_countTicks, List.append_assoc]
      rfl

variable {f}

theorem Idle.refit (hf : f.Idle) {tasks : TaskTable} (htasks : tasks.Calm) (arena : Arena) :
    (f.refit tasks arena).Idle :=
  ⟨hf.installed, hf.base, htasks⟩

theorem Idle.serveAll (hf : f.Idle) (services : List Service) : (f.serveAll services).Idle := by
  rw [serveAll_eq]
  exact ⟨hf.installed, hf.base, hf.calm⟩

theorem settings_serveAll (hf : f.machine.interrupts = false) (services : List Service) :
    (f.serveAll services).machine.settings = f.machine.settings := by
  rw [serveAll_eq]
  exact (Machine.shielded_acknowledgeAll hf _).settings

end Footing

/-- What handlers may change although they leave the footing alone. -/
structure Control where
  handlerTable : HandlerTable
  preemption : Bool
  vectors : Vector FarPointer vectorCount

/-- The handler table can be told from what `g` shows. -/
def Control.ShowsTable {σ : Type} (g : Control → σ) : Prop :=
  ∀ c c', g c = g c' → c.handlerTable = c'.handlerTable

namespace Kernel

def footing (k : Kernel) : Footing where
  tasks := k.tasks
  arena := k.arena
  machine := k.machine.bare
  ticks := k.ticks
  installed := k.installed
  halted := k.halted
  base := k.handlerTable.controller.base
  effects := k.effects

def control (k : Kernel) : Control := ⟨k.handlerTable, k.preemption, k.machine.vectors⟩

/-- The footing, with something that depends only on what handlers may change. -/
def scene {σ : Type} (g : Control → σ) (k : Kernel) : Footing × σ := (k.footing, g k.control)

end Kernel

/-! ## Handlers -/

/-- The handlers return, and leave what `view` shows as it was. -/
def Handlers.Keep {σ : Type} (run : Handlers) (view : Kernel → σ) : Prop :=
  ∀ id line, KernelM.Keeps view (run id line)

namespace KernelM

variable {α σ : Type} {g : Control → σ} {k : Kernel}

theorem discreet_scene : Discreet (Kernel.scene g) where
  logger := fun _ _ => rfl
  interrupts := fun _ _ => rfl
  access := fun k resource enabled => by
    simp [Kernel.scene, Kernel.footing, Kernel.effects, Event.isEffect,
      Kernel.control]

theorem discreet_footing : Discreet Kernel.footing where
  logger := fun _ _ => rfl
  interrupts := fun _ _ => rfl
  access := fun k resource enabled =>
    congrArg Prod.fst ((discreet_scene (g := fun _ => ())).access k resource enabled)

theorem footing_setHandler (k : Kernel) (line : UInt8) (handler : Option HandlerId) :
    Kernel.footing { k with handlerTable := k.handlerTable.setHandler line handler } =
      k.footing := by
  simp only [Kernel.footing, HandlerTable.controller_setHandler]
  rfl

end KernelM

theorem Handlers.Keep.scene {σ : Type} {run : Handlers} {g : Control → σ}
    (hfooting : run.Keep Kernel.footing) (hcontrol : run.Keep fun k => g k.control) :
    run.Keep (Kernel.scene g) :=
  fun id line => (hfooting id line).both (hcontrol id line)

theorem Handlers.keep_footing_ofBodies {body : HandlerId → HandlerBody}
    (hbody : ∀ id, body id ≠ .yielding ∧ body id ≠ .chaining) :
    (Handlers.ofBodies body).Keep Kernel.footing := by
  intro id line
  obtain ⟨hyielding, hchaining⟩ := hbody id
  unfold ofBodies nested
  cases hbody : body id with
  | quiet => exact KernelM.keeps_pure ()
  | once =>
      have hkeeps := KernelM.discreet_footing.keeps_detachHandler KernelM.footing_setHandler line
      exact hkeeps.bind fun _ => KernelM.keeps_pure ()
  | handOver next =>
      have hkeeps :=
        KernelM.discreet_footing.keeps_attachHandler KernelM.footing_setHandler line next
      exact hkeeps.bind fun _ => KernelM.keeps_pure ()
  | yielding => exact absurd hbody hyielding
  | chaining => exact absurd hbody hchaining
  | reporting => exact KernelM.discreet_footing.keeps_logMessage _ _ _

/-! ## One interrupt -/

namespace KernelM

variable {α σ : Type} {g : Control → σ} {run : Handlers} {k : Kernel} {line : UInt8}

theorem returns_scene_note_handler (id : HandlerId) (line : UInt8) (k : Kernel) :
    Returns (Kernel.scene g) (note (.handler id line)) k ()
      ({ k.footing with effects := k.effects ++ [.handler id line] }, g k.control) := by
  refine ⟨_, note_apply _ k, ?_⟩
  simp [Kernel.scene, Kernel.footing, Kernel.effects, Event.isEffect, Kernel.control]

theorem returns_scene_acknowledge (line : UInt8) (k : Kernel) :
    Returns (Kernel.scene g) (runBus (Controller.acknowledge line)) k ()
      ({ k.footing with
        machine := k.footing.machine.acknowledge line
        effects := k.effects ++ acknowledgements line }, g k.control) := by
  obtain ⟨k', hk', htimer⟩ := returns_acknowledge line k
  have heffects : k'.effects = k.effects ++ acknowledgements line :=
    congrArg (fun timer => timer.1.effects) htimer
  have hfooting : k'.footing = { k.footing with
      machine := k.footing.machine.acknowledge line
      effects := k.effects ++ acknowledgements line } := by
    cases hk'
    simp only [Kernel.footing, heffects, Machine.bare_run, Machine.acknowledge]
  have hcontrol : k'.control = k.control := by
    cases hk'
    simp only [Kernel.control, Machine.vectors_run]
  exact ⟨k', hk', Prod.ext hfooting (congrArg g hcontrol)⟩

theorem returns_scene_route (hrun : run.Keep (Kernel.scene g)) {d : HandlerTable}
    (hbase : d.controller.base = lineVectorBase) (hline : line.toNat < lineCount)
    (frame : Option TrapFrame) (k : Kernel) :
    Returns (Kernel.scene g) (route d run (lineVectorBase + line) frame) k
      (.served line (d.handler? line).isSome)
      ({ k.footing with
        machine := k.footing.machine.acknowledge line
        effects := k.effects ++ d.calls line ++ acknowledgements line }, g k.control) := by
  have hnot : ¬ lineVectorBase + line < d.controller.base := hbase ▸ Controller.not_lt_line hline
  unfold route
  rw [if_neg hnot, Controller.lineOf?_line hbase hline]
  dsimp only
  cases hhandler : d.handler? line with
  | none =>
      refine ((discreet_scene.keeps_logMessage _ _ _).returns k).bind fun k₁ hk₁ => ?_
      obtain ⟨hfooting, hcontrol⟩ := Prod.mk.inj hk₁
      have heffects : k₁.effects = k.effects := congrArg Footing.effects hfooting
      rw [HandlerTable.calls, hhandler, ← hfooting, ← hcontrol, ← heffects]
      simp only [Option.toList_none, List.map_nil, List.append_nil]
      exact (returns_scene_acknowledge line k₁).bind_pure _
  | some id =>
      refine (returns_scene_note_handler id line k).bind fun k₁ hk₁ => ?_
      refine ((hrun id line).returns k₁).bind fun k₂ hk₂ => ?_
      obtain ⟨hfooting, hcontrol⟩ := Prod.mk.inj (hk₂.trans hk₁)
      have heffects : k₂.effects = k.effects ++ d.calls line := by
        rw [HandlerTable.calls, hhandler]
        exact congrArg Footing.effects hfooting
      have hready : k.footing = { k₂.footing with effects := k.effects } := by
        rw [hfooting]
        rfl
      rw [hready, ← hcontrol, ← heffects]
      exact (returns_scene_acknowledge line k₂).bind_pure _

theorem returns_scene_countTick (k : Kernel) :
    Returns (Kernel.scene g) countTick k ()
      ({ k.footing with
        ticks := k.ticks + 1
        effects := k.effects ++ [.tick (k.ticks + 1)] }, g k.control) := by
  refine ⟨_, rfl, ?_⟩
  simp [Kernel.scene, Kernel.footing, Kernel.effects, Event.isEffect, Kernel.control]

theorem returns_scene_nextSwitch (hcalm : k.tasks.Calm) :
    Returns (Kernel.scene g) nextSwitch k none (k.scene g) := by
  have hlocked : ((k.locked .tasks).locked .heap).scene g = k.scene g :=
    (discreet_scene.locked _ _).trans (discreet_scene.locked k _)
  have htasks : ((k.locked .tasks).locked .heap).tasks = k.tasks :=
    congrArg (fun scene => scene.1.tasks) hlocked
  have hreap : Returns (Kernel.scene g) (withLock .heap (modifyGet reapTasks)) (k.locked .tasks)
      [] (k.scene g) := by
    refine discreet_scene.returns_withLock ⟨_, ?_, hlocked⟩
    rw [modifyGet_apply, reapTasks, htasks, hcalm.reap_eq]
    rw [← htasks]
    rfl
  refine discreet_scene.returns_withLock (hreap.bind fun k₁ hk₁ => ?_)
  refine (returns_pure () k₁).bind fun k₂ hk₂ => ?_
  refine ((discreet_scene.keeps_noteAccess .tasks).returns k₂).bind fun k₃ hk₃ => ?_
  have hscene := hk₃.trans (hk₂.trans hk₁)
  have htasks₃ : k₃.tasks = k.tasks := congrArg (fun scene => scene.1.tasks) hscene
  refine ⟨k₃, ?_, hscene⟩
  rw [modifyGet_apply, rotateTasks, htasks₃, hcalm.rotate_eq]

/-- There is nothing to switch to, so a yield does nothing. -/
theorem returns_scene_yield (hk : k.footing.Idle) :
    Returns (Kernel.scene g) yield k () (k.scene g) := by
  cases hhalted : k.halted with
  | true => exact ⟨k, yield_of_halted hhalted, rfl⟩
  | false =>
      have hrestore : Keeps (Kernel.scene g)
          (if k.machine.interrupts = true then setInterrupts true else pure ()) := by
        split
        · exact discreet_scene.keeps_setInterrupts true
        · exact keeps_pure ()
      have hmasked : (k.setInterrupts false).scene g = k.scene g :=
        discreet_scene.interrupts k false
      rw [Returns, yield_of_not_halted hk.installed hhalted, ← hmasked]
      refine (returns_scene_nextSwitch (k := k.setInterrupts false) hk.calm).bind fun k₁ hk₁ => ?_
      rw [← hk₁]
      exact hrestore.returns k₁

theorem returns_scene_conclude (hk : k.footing.Idle) (line : UInt8) (handled : Bool) :
    Returns (Kernel.scene g) (conclude (.served line handled)) k ()
      ({ k.footing with
        ticks := ticksAfter line k.ticks
        effects := k.effects ++ ticksCounted line k.ticks }, g k.control) := by
  unfold conclude ticksAfter ticksCounted
  dsimp only
  by_cases hline : line = timerLine
  · simp only [if_pos hline]
    refine (returns_scene_countTick k).bind fun k₁ hk₁ => Returns.get_bind ?_
    have hidle : k₁.footing.Idle := by
      rw [(Prod.mk.inj hk₁).1]
      exact ⟨hk.installed, hk.base, hk.calm⟩
    rw [← hk₁]
    split
    · exact returns_scene_yield hidle
    · exact returns_pure () k₁
  · simp only [if_neg hline, List.append_nil]
    exact returns_pure () k

/-- Whatever handlers do to the handler table, the handler that is called is the one that the
line had when it was raised. -/
theorem returns_scene_dispatch (hrun : run.Keep (Kernel.scene g)) (hk : k.footing.Idle)
    (hline : line.toNat < lineCount) (frame : Option TrapFrame) :
    Returns (Kernel.scene g) (dispatch run (lineVectorBase + line) frame) k
      (.served line (k.handlerTable.handler? line).isSome)
      (k.footing.serve ⟨line, k.handlerTable.handler? line⟩, g k.control) := by
  have hinstalled : k.installed = true := hk.installed
  refine Returns.get_bind ?_
  rw [if_pos hinstalled]
  refine (discreet_scene.returns_handlerTableCopy k).bind fun k₁ hk₁ => ?_
  refine (returns_scene_route hrun hk.base hline frame k₁).bind fun k₂ hk₂ => ?_
  obtain ⟨hfooting₁, hcontrol₁⟩ := Prod.mk.inj hk₁
  obtain ⟨hfooting₂, hcontrol₂⟩ := Prod.mk.inj hk₂
  have heffects₁ : k₁.effects = k.effects := congrArg Footing.effects hfooting₁
  rw [hfooting₁, heffects₁] at hfooting₂
  have hidle : k₂.footing.Idle := by
    rw [hfooting₂]
    exact ⟨hk.installed, hk.base, hk.calm⟩
  have hticks : k₂.ticks = k.ticks := congrArg Footing.ticks hfooting₂
  have heffects : k₂.effects =
      k.effects ++ k.handlerTable.calls line ++ acknowledgements line :=
    congrArg Footing.effects hfooting₂
  have hserved : (k.footing.serve ⟨line, k.handlerTable.handler? line⟩, g k.control) =
      ({ k₂.footing with
        ticks := ticksAfter line k₂.ticks
        effects := k₂.effects ++ ticksCounted line k₂.ticks }, g k₂.control) := by
    rw [hcontrol₂, hcontrol₁, heffects, hticks, hfooting₂]
    simp only [Footing.serve, Service.events, List.append_assoc]
    rfl
  rw [hserved]
  exact (returns_scene_conclude hidle line _).bind_pure _

end KernelM

/-! ## Any number of interrupts -/

/-- A line that is raised. -/
structure Arrival where
  line : UInt8
  inRange : line.toNat < lineCount := by decide
  frame : Option TrapFrame := none

/-- Each line that is raised is served once, in order.  If the handler table is `fixed`, then
the handlers that are called are those it has. -/
structure Attended (fixed : Prop) (t : HandlerTable) (arrivals : List Arrival)
    (services : List Service) : Prop where
  lines : services.map Service.line = arrivals.map Arrival.line
  called : fixed → ∀ s ∈ services, s.called = t.handler? s.line

namespace Attended

variable {fixed : Prop} {t t' : HandlerTable} {arrivals later : List Arrival}
  {services services' : List Service}

theorem nil : Attended fixed t [] [] := ⟨rfl, fun _ => List.forall_mem_nil _⟩

theorem append (h : Attended fixed t arrivals services) (h' : Attended fixed t later services') :
    Attended fixed t (arrivals ++ later) (services ++ services') where
  lines := by rw [List.map_append, List.map_append, h.lines, h'.lines]
  called := fun hfixed => List.forall_mem_append.mpr ⟨h.called hfixed, h'.called hfixed⟩

theorem of_table (h : Attended fixed t arrivals services) (ht : fixed → t = t') :
    Attended fixed t' arrivals services :=
  ⟨h.lines, fun hfixed => ht hfixed ▸ h.called hfixed⟩

end Attended

namespace KernelM

variable {σ : Type} {g : Control → σ} {run : Handlers} {k : Kernel}

/-- Dispatches the vector of each line, in order. -/
def deliver (run : Handlers) (arrivals : List Arrival) : KernelM Unit :=
  arrivals.forM fun a => do let _ ← dispatch run (lineVectorBase + a.line) a.frame

theorem deliver_nil (run : Handlers) : deliver run [] = pure () := rfl

theorem returns_scene_deliver (hrun : run.Keep (Kernel.scene g)) (hk : k.footing.Idle)
    (arrivals : List Arrival) :
    ∃ services, Attended (Control.ShowsTable g) k.handlerTable arrivals services ∧
      Returns (Kernel.scene g) (deliver run arrivals) k ()
        (k.footing.serveAll services, g k.control) := by
  induction arrivals generalizing k with
  | nil => exact ⟨[], .nil, returns_pure () k⟩
  | cons a rest ih =>
      obtain ⟨k₁, hk₁, hscene₁⟩ := (returns_scene_dispatch hrun hk a.inRange a.frame).bind_pure
        fun _ => ()
      obtain ⟨hfooting₁, hcontrol₁⟩ := Prod.mk.inj hscene₁
      have hidle : k₁.footing.Idle := by
        rw [hfooting₁]
        exact ⟨hk.installed, hk.base, hk.calm⟩
      obtain ⟨services, hattended, k₂, hk₂, hscene₂⟩ := ih hidle
      have hfirst : Attended (Control.ShowsTable g) k.handlerTable [a]
          [⟨a.line, k.handlerTable.handler? a.line⟩] :=
        ⟨rfl, fun _ => List.forall_mem_singleton.mpr rfl⟩
      have hrest := hattended.of_table fun hg => hg k₁.control k.control hcontrol₁
      rw [hfooting₁, hcontrol₁] at hscene₂
      exact ⟨_, hfirst.append hrest, k₂, (bind_of_ok hk₁ _).trans hk₂, hscene₂⟩

end KernelM

end Kernel16
