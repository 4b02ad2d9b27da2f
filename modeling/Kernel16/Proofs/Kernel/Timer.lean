import Kernel16.Kernel.Boot
import Kernel16.Proofs.Kernel.Clock
import Mathlib.Algebra.Ring.Nat

/-!
# Ticks and switches

A run of the kernel dispatches vectors, changes handlers, creates tasks, yields
and sets up the traps again, in any order.  Handlers may do the same, as long as
they return and neither use the bus nor schedule; they may also point vectors
elsewhere.

One request adds to the effects: what it does to the bus first, and at most one
switch at the end.  The line that a request raised is acknowledged in the first
part.  By induction over the run, as many interrupts were ended at each
controller as lines were raised, wherever the processor is switched.
-/

namespace Kernel16

/-- The handlers return and have no effects.  They may point vectors elsewhere. -/
def Handlers.Quiet (run : Handlers) : Prop :=
  ∀ id line, KernelM.Keeps Kernel.clock (run id line)

theorem Handlers.quiet_ofBodies {body : HandlerId → HandlerBody}
    (hbody : ∀ id, body id ≠ .yielding ∧ body id ≠ .chaining) :
    (Handlers.ofBodies body).Quiet := by
  intro id line
  obtain ⟨hyielding, hchaining⟩ := hbody id
  unfold ofBodies nested
  cases hbody : body id with
  | quiet => exact KernelM.keeps_pure ()
  | once =>
      have hkeeps := KernelM.discreet_timer.keeps_detachHandler KernelM.timer_setHandler line
      exact hkeeps.clock.bind fun _ => KernelM.keeps_pure ()
  | handOver next =>
      have hkeeps := KernelM.discreet_timer.keeps_attachHandler KernelM.timer_setHandler line next
      exact hkeeps.clock.bind fun _ => KernelM.keeps_pure ()
  | yielding => exact absurd hbody hyielding
  | chaining => exact absurd hbody hchaining
  | reporting => exact (KernelM.discreet_timer.keeps_logMessage _ _ _).clock

/-! ## Which vectors are lines -/

namespace Controller

variable {c : Controller} {line vector : UInt8}

theorem toNat_line (hline : line.toNat < lineCount) :
    (lineVectorBase + line).toNat = lineVectorBase.toNat + line.toNat := by
  rw [UInt8.toNat_add]
  exact Nat.mod_eq_of_lt (Nat.lt_trans (Nat.add_lt_add_left hline _) (by decide))

theorem lineOf?_of_lt (hlow : ¬ vector.toNat < c.base.toNat)
    (hhigh : vector.toNat < c.base.toNat + lineCount) :
    c.lineOf? vector = some (UInt8.ofNat (vector.toNat - c.base.toNat)) := by
  have hle : c.base ≤ vector := UInt8.le_iff_toNat_le.mpr (Nat.le_of_not_lt hlow)
  have hsub := UInt8.toNat_sub_of_le _ _ hle
  have hline : vector - c.base = UInt8.ofNat (vector.toNat - c.base.toNat) := by
    rw [← hsub, UInt8.ofNat_toNat]
  rw [lineOf?, if_pos ⟨hle, by omega⟩, hline]

theorem lineOf?_of_le (hhigh : c.base.toNat + lineCount ≤ vector.toNat) :
    c.lineOf? vector = none := by
  rw [lineOf?, if_neg]
  rintro ⟨hle, hlt⟩
  rw [UInt8.toNat_sub_of_le _ _ hle] at hlt
  omega

theorem not_lt_line (hline : line.toNat < lineCount) :
    ¬ lineVectorBase + line < lineVectorBase := by
  rw [UInt8.lt_iff_toNat_lt, toNat_line hline]
  exact Nat.not_lt.mpr (Nat.le_add_right _ _)

theorem lineOf?_line (hbase : c.base = lineVectorBase) (hline : line.toNat < lineCount) :
    c.lineOf? (lineVectorBase + line) = some line := by
  have hvector : (lineVectorBase + line).toNat = c.base.toNat + line.toNat := by
    rw [hbase, toNat_line hline]
  rw [lineOf?_of_lt (by omega) (by omega), hvector, Nat.add_sub_cancel_left, UInt8.ofNat_toNat]

theorem exists_line (hlow : ¬ vector < lineVectorBase)
    (hhigh : ¬ lineVectorBase.toNat + lineCount ≤ vector.toNat) :
    ∃ line : UInt8, line.toNat < lineCount ∧ vector = lineVectorBase + line := by
  have hle : lineVectorBase ≤ vector := UInt8.not_lt.mp hlow
  refine ⟨vector - lineVectorBase, ?_, ?_⟩
  · have hnat := UInt8.le_iff_toNat_le.mp hle
    rw [UInt8.toNat_sub_of_le _ _ hle]
    omega
  · rw [UInt8.add_comm, UInt8.sub_add_cancel]

end Controller

/-- The call of a line's handler, if it has one. -/
def HandlerTable.calls (t : HandlerTable) (line : UInt8) : List Event :=
  (t.handler? line).toList.map fun id => .handler id line

def ticksAfter (line : UInt8) (ticks : UInt32) : UInt32 :=
  if line = timerLine then ticks + 1 else ticks

/-- The tick that a line counts, if it is the timer's. -/
def ticksCounted (line : UInt8) (ticks : UInt32) : List Event :=
  if line = timerLine then [.tick (ticks + 1)] else []

theorem HandlerTable.silent_calls (t : HandlerTable) (line : UInt8) :
    ∀ e ∈ t.calls line, e.Silent := by
  intro e he
  obtain ⟨id, _, rfl⟩ := List.mem_map.mp he
  exact ⟨rfl, fun _ _ => nofun⟩

theorem silent_ticksCounted (line : UInt8) (ticks : UInt32) :
    ∀ e ∈ ticksCounted line ticks, e.Silent := by
  intro e he
  unfold ticksCounted at he
  split at he
  · obtain rfl := List.mem_singleton.mp he
    exact ⟨rfl, fun _ _ => nofun⟩
  · exact nomatch he

namespace Kernel

/-- From `k` to `k'` a line was served: its handler was called, the line was acknowledged,
a tick was counted if it is the timer's, and only then another task may have got the
processor.  Whether the timer may yield is decided after the handler has returned. -/
def Serves (k : Kernel) (line : UInt8) (k' : Kernel) : Prop :=
  ∃ switches,
    k'.clock = { k.clock with ticks := ticksAfter line k.ticks }.add
      (k.handlerTable.calls line ++ acknowledgements line ++ ticksCounted line k.ticks ++
        switches) ∧
    MaySwitch (line = timerLine ∧ k'.preemption = true ∧ k.halted = false) switches

end Kernel

namespace KernelM

variable {run : Handlers} {k : Kernel} {d : HandlerTable} {line vector : UInt8}

theorem returns_route_line (frame : Option TrapFrame) (hquiet : run.Quiet)
    (hbase : d.controller.base = lineVectorBase) (hline : line.toNat < lineCount) (k : Kernel) :
    Returns Kernel.clock (route d run (lineVectorBase + line) frame) k
      (.served line (d.handler? line).isSome)
      (k.clock.add (d.calls line ++ acknowledgements line)) := by
  have hnot : ¬ lineVectorBase + line < d.controller.base := hbase ▸ Controller.not_lt_line hline
  have hserved : ∀ (handled : Bool) (k : Kernel), Returns Kernel.clock
      (runBus (Controller.acknowledge line) >>= fun _ => pure (Outcome.served line handled)) k
      (.served line handled) (k.clock.add (acknowledgements line)) := by
    intro handled k
    exact (returns_acknowledge line k).clock.bind_pure _
  unfold route
  rw [if_neg hnot, Controller.lineOf?_line hbase hline]
  dsimp only
  cases hhandler : d.handler? line with
  | none =>
      refine ((discreet_timer.keeps_logMessage _ _ _).clock.returns k).bind fun k' hk' => ?_
      rw [HandlerTable.calls, hhandler, ← hk']
      exact hserved _ k'
  | some id =>
      refine (returns_note rfl k).clock.bind fun k₁ hk₁ => ?_
      refine ((hquiet id line).returns k₁).bind fun k₂ hk₂ => ?_
      have hclock : k₂.clock = k.clock.add [.handler id line] := hk₂.trans hk₁
      rw [HandlerTable.calls, hhandler, ← Clock.add_add]
      exact hclock ▸ hserved _ k₂

theorem returns_countTick (k : Kernel) :
    Returns Kernel.timer countTick k ()
      ({ k.clock with ticks := k.ticks + 1 }.add [.tick (k.ticks + 1)], k.preemption) := by
  refine ⟨_, rfl, ?_⟩
  simp [Kernel.timer, Kernel.clock, Kernel.effects, Clock.add, Event.isEffect]

theorem timer_after_conclude (line : UInt8) (handled : Bool) (k : Kernel) :
    ∃ es, ((conclude (.served line handled)).after k).timer =
        ({ k.clock with ticks := ticksAfter line k.ticks }.add (ticksCounted line k.ticks ++ es),
          k.preemption) ∧
      MaySwitch (line = timerLine ∧ k.preemption = true ∧ k.halted = false) es := by
  unfold conclude ticksAfter ticksCounted
  by_cases hline : line = timerLine
  · obtain ⟨k₁, hk₁, htimer₁⟩ := returns_countTick k
    have hclock : k₁.clock = { k.clock with ticks := k.ticks + 1 }.add [.tick (k.ticks + 1)] :=
      congrArg Prod.fst htimer₁
    have hpreemption : k₁.preemption = k.preemption := congrArg Prod.snd htimer₁
    have hhalted : k₁.halted = k.halted := congrArg Clock.halted hclock
    simp only [if_pos hline]
    rw [after_bind_of_ok hk₁, after_bind_of_ok (get_apply k₁)]
    by_cases hyield : k₁.preemption = true
    · obtain ⟨es, htimer, hswitch⟩ := timer_after_yield k₁
      refine ⟨es, ?_, ?_⟩
      · rw [if_pos hyield, htimer, hclock, hpreemption, Clock.add_add]
      · rw [← hpreemption, ← hhalted]
        exact hswitch.imp_right fun h => ⟨⟨hline, hyield, h.1⟩, h.2⟩
    · refine ⟨[], ?_, Or.inl rfl⟩
      rw [if_neg hyield, List.append_nil]
      exact htimer₁
  · refine ⟨[], ?_, Or.inl rfl⟩
    simp only [if_neg hline, List.append_nil, Clock.add_nil]
    rfl

theorem serves_dispatch (frame : Option TrapFrame) (hquiet : run.Quiet)
    (hinstalled : k.installed = true)
    (hbase : k.handlerTable.controller.base = lineVectorBase) (hline : line.toNat < lineCount) :
    k.Serves line ((dispatch run (lineVectorBase + line) frame).after k) := by
  obtain ⟨k₁, hk₁, htimer₁⟩ := discreet_timer.returns_handlerTableCopy k
  obtain ⟨k₂, hk₂, hclock₂⟩ := returns_route_line frame hquiet hbase hline k₁
  obtain ⟨es, htimer, hswitch⟩ :=
    timer_after_conclude line (k.handlerTable.handler? line).isSome k₂
  have hafter : (dispatch run (lineVectorBase + line) frame).after k =
      (conclude (.served line (k.handlerTable.handler? line).isSome)).after k₂ := by
    unfold dispatch
    rw [after_bind_of_ok (get_apply k), if_pos hinstalled, after_bind_of_ok hk₁,
      after_bind_of_ok hk₂, after_bind_pure]
  have hclock₁ : k₁.clock = k.clock := congrArg Prod.fst htimer₁
  rw [hclock₁] at hclock₂
  have hhalted : k₂.halted = k.halted := congrArg Clock.halted hclock₂
  have hticks : k₂.ticks = k.ticks := congrArg Clock.ticks hclock₂
  rw [← hafter] at htimer
  generalize (dispatch run (lineVectorBase + line) frame).after k = k' at htimer
  have hclock : k'.clock = { k.clock with ticks := ticksAfter line k.ticks }.add
      (k.handlerTable.calls line ++ acknowledgements line ++ ticksCounted line k.ticks ++
        es) := by
    have hclock : k'.clock = _ := congrArg Prod.fst htimer
    rw [hclock, hclock₂, hticks, List.append_assoc, ← Clock.add_add _ (_ ++ _)]
    rfl
  have hpreemption : k'.preemption = k₂.preemption := congrArg Prod.snd htimer
  refine ⟨es, hclock, ?_⟩
  rw [hpreemption, ← hhalted]
  exact hswitch

theorem clock_dispatch_beyond (run : Handlers) (frame : Option TrapFrame)
    (hinstalled : k.installed = true)
    (hbase : k.handlerTable.controller.base = lineVectorBase)
    (hvector : lineVectorBase.toNat + lineCount ≤ vector.toNat) :
    ((dispatch run vector frame).after k).clock = k.clock := by
  obtain ⟨k₁, hk₁, htimer₁⟩ := discreet_timer.returns_handlerTableCopy k
  have hnot : ¬ vector < k.handlerTable.controller.base := by
    rw [hbase, UInt8.lt_iff_toNat_lt]
    omega
  have hignored : Returns Kernel.clock (route k.handlerTable run vector frame) k₁ .ignored
      k₁.clock := by
    unfold route
    rw [if_neg hnot, Controller.lineOf?_of_le (hbase ▸ hvector)]
    exact ((discreet_timer.keeps_logMessage _ _ _).clock.returns k₁).bind_pure _
  obtain ⟨k₂, hk₂, hclock₂⟩ := hignored
  unfold dispatch
  rw [after_bind_of_ok (get_apply k), if_pos hinstalled, after_bind_of_ok hk₁,
    after_bind_of_ok hk₂, after_bind_pure]
  exact hclock₂.trans (congrArg Prod.fst htimer₁)

theorem clock_dispatch_exception (run : Handlers) (frame : Option TrapFrame)
    (hinstalled : k.installed = true)
    (hvector : vector < k.handlerTable.controller.base) :
    ∃ flag, ((dispatch run vector frame).after k).clock =
      { k.clock with halted := true }.add [.halt flag] := by
  obtain ⟨k', hrun, hk'⟩ := dispatch_exception run hinstalled hvector frame
  have heffects : k'.effects = k.effects ++ [.halt false] := by
    simp [Kernel.effects, hk'.trace, Event.isEffect]
  refine ⟨false, ?_⟩
  rw [after, hrun]
  simp only [Kernel.clock, Clock.add, hk'.ticks, heffects, hk'.installed, hk'.halted,
    hk'.handlerTable]

end KernelM

/-! ## Runs -/

inductive KernelRequest where
  | dispatch (vector : UInt8) (frame : Option TrapFrame)
  | attach (line : UInt8) (handler : HandlerId)
  | detach (line : UInt8)
  | setPreemption (enabled : Bool)
  | create (entry stackSize : Nat)
  | yield
  | initTraps (lines : LineSet)

namespace KernelRequest

def isTick : KernelRequest → Bool
  | .dispatch vector _ => decide (vector = lineVectorBase + timerLine)
  | _ => false

def isSetUp : KernelRequest → Bool
  | .initTraps _ => true
  | _ => false

/-- The dispatch of a line, `first` or one after it. -/
def isLineFrom (first : Nat) : KernelRequest → Bool
  | .dispatch vector _ =>
      decide (lineVectorBase.toNat + first ≤ vector.toNat) &&
        decide (vector.toNat < lineVectorBase.toNat + lineCount)
  | _ => false

theorem isLineFrom_line {line : UInt8} (hline : line.toNat < lineCount)
    (frame : Option TrapFrame) (first : Nat) :
    (dispatch (lineVectorBase + line) frame).isLineFrom first = decide (first ≤ line.toNat) := by
  rw [isLineFrom, Controller.toNat_line hline, decide_eq_true (Nat.add_lt_add_left hline _),
    Bool.and_true]
  simp only [Nat.add_le_add_iff_left]

theorem not_isTick_and_not_isLineFrom {vector : UInt8} (frame : Option TrapFrame)
    (hvector : vector < lineVectorBase ∨ lineVectorBase.toNat + lineCount ≤ vector.toNat) :
    (dispatch vector frame).isTick = false ∧
      ∀ first, (dispatch vector frame).isLineFrom first = false := by
  rw [UInt8.lt_iff_toNat_lt] at hvector
  have hbase : lineVectorBase.toNat = 32 := rfl
  constructor
  · refine decide_eq_false fun htimer => ?_
    rw [htimer] at hvector
    exact absurd hvector (by decide)
  · intro first
    simp only [isLineFrom, Bool.and_eq_false_iff, decide_eq_false_iff_not]
    omega

end KernelRequest

namespace Kernel

def perform (run : Handlers) (k : Kernel) : KernelRequest → Kernel
  | .dispatch vector frame => (KernelM.dispatch run vector frame).after k
  | .attach line handler => (KernelM.attachHandler line handler).after k
  | .detach line => (KernelM.detachHandler line).after k
  | .setPreemption enabled => (KernelM.setPreemption enabled).after k
  | .create entry stackSize => (KernelM.newTask entry stackSize).after k
  | .yield => KernelM.yield.after k
  | .initTraps lines => (KernelM.initTraps lines).after k

def serve (run : Handlers) (k : Kernel) (requests : List KernelRequest) : Kernel :=
  requests.foldl (perform run) k

/-- The kernel uses its machine, and its lines are where the traps expect them. -/
structure Ready (k : Kernel) : Prop where
  installed : k.installed = true
  base : k.handlerTable.controller.base = lineVectorBase

/-- What a request does to the tick count and adds to the effects: a switch comes last,
and every line that was raised has been acknowledged before. -/
structure Advances (k : Kernel) (r : KernelRequest) (k' : Kernel) : Prop where
  ready : k'.Ready
  ticks : k'.ticks = if r.isSetUp then 0 else if r.isTick then k.ticks + 1 else k.ticks
  effects : ∃ front switches, k'.effects = k.effects ++ (front ++ switches) ∧
    (∀ e ∈ front, e.isSwitch = false) ∧ MaySwitch (k.halted = false) switches ∧
    ∀ c ∈ Controller.acknowledging,
      front.count (.endOfInterrupt c.1) = if r.isLineFrom c.2 then 1 else 0

variable {run : Handlers} {k k' : Kernel} {r : KernelRequest}

theorem Ready.advances_of_add (hk : k.Ready) {ticks : UInt32} {halted : Bool}
    {front switches : List Event}
    (hclock : k'.clock = { k.clock with ticks, halted }.add (front ++ switches))
    (hticks : ticks = if r.isSetUp then 0 else if r.isTick then k.ticks + 1 else k.ticks)
    (hfront : ∀ e ∈ front, e.isSwitch = false) (hswitch : MaySwitch (k.halted = false) switches)
    (hcount : ∀ c ∈ Controller.acknowledging,
      front.count (.endOfInterrupt c.1) = if r.isLineFrom c.2 then 1 else 0) :
    k.Advances r k' where
  ready := ⟨(congrArg Clock.installed hclock).trans hk.installed,
    (congrArg Clock.base hclock).trans hk.base⟩
  ticks := (congrArg Clock.ticks hclock).trans hticks
  effects := ⟨front, switches, congrArg Clock.effects hclock, hfront, hswitch, hcount⟩

theorem Ready.advances_of_clock (hk : k.Ready) (hclock : k'.clock = k.clock)
    (hsetUp : r.isSetUp = false) (htick : r.isTick = false)
    (hline : ∀ c ∈ Controller.acknowledging, r.isLineFrom c.2 = false) : k.Advances r k' := by
  have hclock : k'.clock = { k.clock with ticks := k.ticks, halted := k.halted }.add ([] ++ []) :=
    hclock.trans (Clock.add_nil _).symm
  refine hk.advances_of_add hclock ?_ (List.forall_mem_nil _) (Or.inl rfl) ?_
  · rw [hsetUp, htick]
    rfl
  · intro c hc
    rw [hline c hc]
    rfl

theorem Ready.advances_yield (hk : k.Ready) : k.Advances .yield (KernelM.yield.after k) := by
  obtain ⟨es, htimer, hswitch⟩ := KernelM.timer_after_yield k
  have hclock : (KernelM.yield.after k).clock =
      { k.clock with ticks := k.ticks, halted := k.halted }.add ([] ++ es) :=
    congrArg Prod.fst htimer
  exact hk.advances_of_add hclock rfl (List.forall_mem_nil _) hswitch fun _ _ => rfl

theorem Ready.advances_initTraps (hk : k.Ready) (lines : LineSet) :
    k.Advances (.initTraps lines) ((KernelM.initTraps lines).after k) := by
  obtain ⟨_, es, hreturns, hes⟩ := KernelM.setsUp_initTraps lines k
  have hclock := hreturns.clock.view_after
  rw [← List.append_nil es] at hclock
  exact hk.advances_of_add hclock rfl (fun e he => (hes e he).isSwitch_eq) (Or.inl rfl)
    fun _ hc => count_endOfInterrupt_of_silent hes hc

theorem Serves.advances {line : UInt8} (h : k.Serves line k') (hk : k.Ready)
    (hline : line.toNat < lineCount) (frame : Option TrapFrame) :
    k.Advances (.dispatch (lineVectorBase + line) frame) k' := by
  obtain ⟨switches, hclock, hswitch⟩ := h
  have hcalls := k.handlerTable.silent_calls line
  have hticks := silent_ticksCounted line k.ticks
  refine hk.advances_of_add hclock ?_ ?_ (hswitch.imp_right fun h => ⟨h.1.2.2, h.2⟩) ?_
  · simp only [KernelRequest.isSetUp, KernelRequest.isTick, ticksAfter, UInt8.add_right_inj,
      decide_eq_true_eq, Bool.false_eq_true, if_false]
  · simp only [List.mem_append]
    rintro e ((he | he) | he)
    · exact (hcalls e he).isSwitch_eq
    · exact isSwitch_of_mem_acknowledgements he
    · exact (hticks e he).isSwitch_eq
  · intro c hc
    rw [List.count_append, List.count_append, count_endOfInterrupt_of_silent hcalls hc,
      count_endOfInterrupt_of_silent hticks hc, count_acknowledgements line hc]
    simp only [KernelRequest.isLineFrom_line hline, decide_eq_true_eq, Nat.zero_add,
      Nat.add_zero]

theorem Ready.advances_dispatch (hk : k.Ready) (hquiet : run.Quiet) (vector : UInt8)
    (frame : Option TrapFrame) :
    k.Advances (.dispatch vector frame) ((KernelM.dispatch run vector frame).after k) := by
  by_cases hexception : vector < lineVectorBase
  · obtain ⟨flag, hclock⟩ := KernelM.clock_dispatch_exception run frame hk.installed
      (hk.base.symm ▸ hexception)
    obtain ⟨htick, hline⟩ :=
      KernelRequest.not_isTick_and_not_isLineFrom frame (.inl hexception)
    have hsilent : ∀ e ∈ [Event.halt flag], e.Silent :=
      List.forall_mem_singleton.mpr ⟨rfl, fun _ _ => nofun⟩
    rw [← List.append_nil [Event.halt flag]] at hclock
    refine hk.advances_of_add hclock ?_ (fun e he => (hsilent e he).isSwitch_eq) (Or.inl rfl) ?_
    · rw [htick]
      rfl
    · intro c hc
      rw [count_endOfInterrupt_of_silent hsilent hc, hline]
      rfl
  by_cases hbeyond : lineVectorBase.toNat + lineCount ≤ vector.toNat
  · have hclock := KernelM.clock_dispatch_beyond run frame hk.installed hk.base hbeyond
    obtain ⟨htick, hline⟩ :=
      KernelRequest.not_isTick_and_not_isLineFrom frame (.inr hbeyond)
    exact hk.advances_of_clock hclock rfl htick fun c _ => hline c.2
  obtain ⟨line, hline, rfl⟩ := Controller.exists_line hexception hbeyond
  exact (KernelM.serves_dispatch frame hquiet hk.installed hk.base hline).advances hk hline frame

theorem Ready.advances (hk : k.Ready) (hquiet : run.Quiet) (r : KernelRequest) :
    k.Advances r (k.perform run r) := by
  cases r with
  | dispatch vector frame => exact hk.advances_dispatch hquiet vector frame
  | attach line handler =>
      have hkeeps :=
        KernelM.discreet_timer.keeps_attachHandler KernelM.timer_setHandler line handler
      exact hk.advances_of_clock (hkeeps.clock.view_after k)
        rfl rfl fun _ _ => rfl
  | detach line =>
      have hkeeps := KernelM.discreet_timer.keeps_detachHandler KernelM.timer_setHandler line
      exact hk.advances_of_clock (hkeeps.clock.view_after k)
        rfl rfl fun _ _ => rfl
  | setPreemption enabled =>
      exact hk.advances_of_clock ((KernelM.keeps_setPreemption enabled).view_after k)
        rfl rfl fun _ _ => rfl
  | create entry stackSize =>
      exact hk.advances_of_clock ((KernelM.keeps_newTask entry stackSize).clock.view_after k)
        rfl rfl fun _ _ => rfl
  | yield => exact hk.advances_yield
  | initTraps lines => exact hk.advances_initTraps lines

theorem serve_cons (run : Handlers) (k : Kernel) (r : KernelRequest)
    (rest : List KernelRequest) :
    k.serve run (r :: rest) = (k.perform run r).serve run rest := rfl

theorem serve_append (run : Handlers) (k : Kernel) (before later : List KernelRequest) :
    k.serve run (before ++ later) = (k.serve run before).serve run later :=
  List.foldl_append

theorem Ready.ready_serve (hk : k.Ready) (hquiet : run.Quiet) (requests : List KernelRequest) :
    (k.serve run requests).Ready := by
  induction requests generalizing k with
  | nil => exact hk
  | cons r rest ih => exact ih (hk.advances hquiet r).ready

theorem Ready.ticks_serve (hk : k.Ready) (hquiet : run.Quiet) {requests : List KernelRequest}
    (hsetUp : ∀ r ∈ requests, r.isSetUp = false) :
    (k.serve run requests).ticks.toNat =
      (k.ticks.toNat + requests.countP KernelRequest.isTick) % 2 ^ 32 := by
  induction requests generalizing k with
  | nil => exact (Nat.mod_eq_of_lt k.ticks.toNat_lt).symm
  | cons r rest ih =>
      have hr := hk.advances hquiet r
      have hticks := hr.ticks
      have hrest := ih hr.ready fun r' hr' => hsetUp r' (List.mem_cons_of_mem _ hr')
      rw [hsetUp r List.mem_cons_self] at hticks
      rw [serve_cons, hrest, hticks, List.countP_cons]
      have hone : (1 : UInt32).toNat = 1 := rfl
      cases r.isTick with
      | false => simp only [Bool.false_eq_true, if_false, Nat.add_zero]
      | true =>
          simp only [Bool.false_eq_true, if_false, if_true, UInt32.toNat_add, hone]
          omega

theorem Ready.count_serve (hk : k.Ready) (hquiet : run.Quiet) (requests : List KernelRequest)
    {c : UInt16 × Nat} (hc : c ∈ Controller.acknowledging) :
    (k.serve run requests).effects.count (.endOfInterrupt c.1) =
      k.effects.count (.endOfInterrupt c.1) + requests.countP (·.isLineFrom c.2) := by
  induction requests generalizing k with
  | nil => rfl
  | cons r rest ih =>
      have hr := hk.advances hquiet r
      obtain ⟨front, switches, heffects, _, hswitch, hcount⟩ := hr.effects
      rw [serve_cons, ih hr.ready, heffects, List.count_append,
        List.count_append, hcount c hc, hswitch.count, List.countP_cons]
      omega

/-- What holds after the requests of a run, and of the one that follows. -/
structure Punctual (run : Handlers) (k : Kernel) (requests : List KernelRequest) : Prop where
  ticks_from_start : (∀ r ∈ requests, r.isSetUp = false) →
    (k.serve run requests).ticks.toNat =
      (k.ticks.toNat + requests.countP KernelRequest.isTick) % 2 ^ 32
  ticks_since_setUp : ∀ before lines later, requests = before ++ .initTraps lines :: later →
    (∀ r ∈ later, r.isSetUp = false) →
    (k.serve run requests).ticks.toNat = later.countP KernelRequest.isTick % 2 ^ 32
  serves : ∀ (line : UInt8) (frame : Option TrapFrame), line.toNat < lineCount →
    (k.serve run requests).Serves line
      (k.serve run (requests ++ [.dispatch (lineVectorBase + line) frame]))
  ignores : ∀ (vector : UInt8) (frame : Option TrapFrame),
    lineVectorBase.toNat + lineCount ≤ vector.toNat →
    (k.serve run (requests ++ [.dispatch vector frame])).clock = (k.serve run requests).clock
  appends : ∀ r, (k.serve run requests).effects <+: (k.serve run (requests ++ [r])).effects
  switch_acknowledged : ∀ r front e back,
    (k.serve run (requests ++ [r])).effects =
      (k.serve run requests).effects ++ (front ++ e :: back) → e.isSwitch = true →
    ∀ c ∈ Controller.acknowledging,
      ((k.serve run requests).effects ++ front).count (.endOfInterrupt c.1) =
        k.effects.count (.endOfInterrupt c.1) +
          (requests ++ [r]).countP (·.isLineFrom c.2)

/-- Ticks are the dispatches of the timer's vector since the traps were set up, each line
is served in order, and whenever the processor is switched, every line that was raised
so far has been acknowledged. -/
theorem run_punctual (hquiet : run.Quiet) (hk : k.Ready) (requests : List KernelRequest) :
    k.Punctual run requests := by
  have hm := hk.ready_serve hquiet requests
  have hnext : ∀ r, k.serve run (requests ++ [r]) = (k.serve run requests).perform run r :=
    fun r => serve_append run k requests [r]
  constructor
  · exact hk.ticks_serve hquiet
  · rintro before lines later rfl hlater
    have hr := (hk.ready_serve hquiet before).advances hquiet (.initTraps lines)
    rw [serve_append, serve_cons, hr.ready.ticks_serve hquiet hlater, hr.ticks]
    simp [KernelRequest.isSetUp]
  · intro line frame hline
    rw [hnext]
    exact KernelM.serves_dispatch frame hquiet hm.installed hm.base hline
  · intro vector frame hvector
    rw [hnext]
    exact KernelM.clock_dispatch_beyond run frame hm.installed hm.base hvector
  · intro r
    obtain ⟨front, switches, heffects, _⟩ := (hm.advances hquiet r).effects
    rw [hnext, heffects]
    exact List.prefix_append _ _
  · intro r front e back hsplit he c hc
    obtain ⟨front', switches, heffects, hfront, hswitch, hcount⟩ := (hm.advances hquiet r).effects
    -- A switch is the last effect, so all that comes before it is in the first part.
    rw [hnext, heffects, List.append_cancel_left_eq] at hsplit
    rw [hswitch.eq_of_switch hfront he hsplit, List.count_append, hcount c hc,
      hk.count_serve hquiet requests hc, List.countP_append, List.countP_singleton, Nat.add_assoc]

def booted : Kernel := (KernelM.boot { poolStart := 4096, poolSize := 8192 }).after {}

/-- The handler of the timer takes itself off its line after the first tick. -/
def oneShot : Handlers := Handlers.ofBodies fun _ => .once

/-- The timer takes the processor from the idle task and then from the new one; a line of
the second controller is served between. -/
def twoTicks : List KernelRequest :=
  [.create 0x100 512, .setPreemption true, .attach 0 7, .dispatch 0x20 none,
    .dispatch 0x28 none, .dispatch 0x20 none]

theorem run_punctual_twoTicks :
    oneShot.Quiet ∧ booted.Ready ∧ booted.Punctual oneShot twoTicks ∧
      (booted.serve oneShot twoTicks).ticks.toNat = 2 ∧
      ((booted.serve oneShot twoTicks).effects.countP Event.isSwitch) = 2 := by
  have hquiet : oneShot.Quiet := Handlers.quiet_ofBodies fun _ => by decide
  have hready : booted.Ready := ⟨by decide +kernel, by decide +kernel⟩
  have hrun := run_punctual hquiet hready twoTicks
  have hticks := hrun.ticks_from_start (by decide)
  have hstart : booted.ticks.toNat = 0 := by decide +kernel
  rw [hstart] at hticks
  exact ⟨hquiet, hready, hrun, hticks, by decide +kernel⟩

end Kernel

end Kernel16
