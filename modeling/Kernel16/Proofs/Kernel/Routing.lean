import Kernel16.Proofs.Kernel.Ordinary

/-!
# Routing by a handler table

A handler table is used on its own: handlers are attached to its lines, detached and looked
up, and vectors are routed with it, in any order.  The history of the requests says which
handler a line has, and the base of the controllers says which vectors are lines.  So the
answer to each request, the call of a handler and the acknowledgements that follow it can be
told from the requests alone.

The handlers return and leave the bus alone.  They may yield, and may change the handler
table of the kernel, which is not the one that routes.
-/

namespace Kernel16

/-- An access to the bus, or the call of a handler. -/
def Event.isTraffic : Event → Bool
  | .bus _ | .handler _ _ => true
  | _ => false

theorem MaySwitch.filter_isTraffic {allowed : Prop} {es : List Event}
    (h : MaySwitch allowed es) : es.filter Event.isTraffic = [] := by
  rcases h with rfl | ⟨_, e, he, rfl⟩
  · rfl
  · cases e <;> first | rfl | exact nomatch he

namespace Kernel

/-- What went over the bus and which handlers were called, in order. -/
def traffic (k : Kernel) : List Event := k.effects.filter Event.isTraffic

/-- The traffic, and how many switches the machine has left if they are limited. -/
def wire (k : Kernel) : List Event × Option Nat :=
  (k.traffic, k.machine.settings.switchBudget)

end Kernel

namespace KernelM

variable {k : Kernel}

theorem discreet_wire : Discreet Kernel.wire where
  logger := fun _ _ => rfl
  interrupts := fun _ _ => rfl
  access := fun k resource enabled => by
    simp [Kernel.wire, Kernel.traffic, Kernel.effects, Event.isEffect]

theorem yield_of_not_installed (hk : k.installed = false) : yield k = .ok () k := by
  unfold yield
  rw [bind_of_ok (get_apply k), if_pos (by simp [hk])]
  rfl

/-- While switches are not limited, a yield returns. -/
theorem yield_returns (hunlimited : k.machine.settings.switchBudget = none) :
    ∃ k', yield k = .ok () k' ∧ k'.machine.settings.switchBudget = none := by
  cases hinstalled : k.installed with
  | false => exact ⟨k, yield_of_not_installed hinstalled, hunlimited⟩
  | true =>
      cases hhalted : k.halted with
      | true => exact ⟨k, yield_of_halted hhalted, hunlimited⟩
      | false =>
          obtain ⟨k₁, hk₁, hend⟩ := yield_cases hinstalled hhalted
          have hunlimited₁ : k₁.machine.settings.switchBudget = none :=
            (congrArg MachineSettings.switchBudget hk₁.settings).trans hunlimited
          rcases hend with hnone | ⟨k₂, hk₂, hreturns | ⟨hlimited, _⟩⟩
          · exact ⟨_, hnone, by rw [Kernel.settings_unlocked, hunlimited₁]⟩
          · exact ⟨_, hreturns, by rw [Kernel.settings_unlocked, hk₂.unlimited hunlimited₁]⟩
          · exact absurd hunlimited₁ hlimited

theorem returns_wire_yield (hunlimited : k.machine.settings.switchBudget = none) :
    Returns Kernel.wire yield k () k.wire := by
  obtain ⟨k', hk', hunlimited'⟩ := yield_returns hunlimited
  obtain ⟨es, htimer, hswitch⟩ := timer_after_yield k
  have heffects : k'.effects = k.effects ++ es := by
    rw [after, hk'] at htimer
    exact congrArg (fun timer => timer.1.effects) htimer
  have htraffic : k'.traffic = k.traffic := by
    rw [Kernel.traffic, heffects, List.filter_append, hswitch.filter_isTraffic, List.append_nil,
      Kernel.traffic]
  exact ⟨k', hk', by rw [Kernel.wire, Kernel.wire, htraffic, hunlimited', hunlimited]⟩

theorem returns_wire_note_handler (id : HandlerId) (line : UInt8) (k : Kernel) :
    Returns Kernel.wire (note (.handler id line)) k ()
      (k.traffic ++ [.handler id line], k.machine.settings.switchBudget) := by
  refine ⟨_, note_apply _ k, ?_⟩
  simp [Kernel.wire, Kernel.traffic, Kernel.effects, Event.isEffect, Event.isTraffic]

theorem filter_isTraffic_acknowledgements (line : UInt8) :
    (acknowledgements line).filter Event.isTraffic = acknowledgements line := by
  unfold acknowledgements
  split <;> rfl

theorem returns_wire_acknowledge (line : UInt8) (k : Kernel) :
    Returns Kernel.wire (runBus (Controller.acknowledge line)) k ()
      (k.traffic ++ acknowledgements line, k.machine.settings.switchBudget) := by
  obtain ⟨k', hk', htimer⟩ := returns_acknowledge line k
  have heffects : k'.effects = k.effects ++ acknowledgements line :=
    congrArg (fun timer => timer.1.effects) htimer
  have htraffic : k'.traffic = k.traffic ++ acknowledgements line := by
    rw [Kernel.traffic, heffects, List.filter_append, filter_isTraffic_acknowledgements,
      Kernel.traffic]
  have hsettings : k'.machine.settings = k.machine.settings := by
    cases hk'
    exact k.machine.settings_run _
  exact ⟨k', hk', by rw [Kernel.wire, htraffic, hsettings]⟩

theorem returns_wire_served (line : UInt8) (handled : Bool) {es : List Event}
    {limit : Option Nat} (hk : k.wire = (es, limit)) :
    Returns Kernel.wire
      (runBus (Controller.acknowledge line) >>= fun _ => pure (Outcome.served line handled)) k
      (.served line handled) (es ++ acknowledgements line, limit) := by
  obtain ⟨rfl, rfl⟩ := Prod.mk.inj hk
  exact (returns_wire_acknowledge line k).bind_pure _

end KernelM

/-- On a machine with this many switches left, the handlers return, leave the bus alone and
use up none of the switches. -/
def Handlers.BusFree (run : Handlers) (limit : Option Nat) : Prop :=
  ∀ id line k, k.machine.settings.switchBudget = limit →
    KernelM.Returns Kernel.wire (run id line) k () k.wire

/-- Where switches are not limited, handlers may yield. -/
theorem Handlers.busFree_ofBodies {body : HandlerId → HandlerBody} {limit : Option Nat}
    (hbody : ∀ id, body id ≠ .chaining) (hyield : ∀ id, body id = .yielding → limit = none) :
    (Handlers.ofBodies body).BusFree limit := by
  intro id line k hlimit
  have hchaining := hbody id
  have hyielding := hyield id
  unfold ofBodies nested
  cases hbody : body id with
  | quiet => exact KernelM.returns_pure () k
  | once =>
      have hkeeps := KernelM.discreet_wire.keeps_detachHandler (fun _ _ _ => rfl) line
      exact (hkeeps.bind fun _ => KernelM.keeps_pure ()).returns k
  | handOver next =>
      have hkeeps := KernelM.discreet_wire.keeps_attachHandler (fun _ _ _ => rfl) line next
      exact (hkeeps.bind fun _ => KernelM.keeps_pure ()).returns k
  | yielding => exact KernelM.returns_wire_yield (hlimit.trans (hyielding hbody))
  | chaining => exact absurd hbody hchaining
  | reporting => exact (KernelM.discreet_wire.keeps_logMessage _ _ _).returns k

/-! ## Requests -/

inductive RoutingRequest where
  | attach (line : UInt8) (handler : HandlerId)
  | detach (line : UInt8)
  | lookup (line : UInt8)
  | dispatch (vector : UInt8) (frame : Option TrapFrame)

inductive RoutingAnswer where
  | handler (id : Option HandlerId)
  | outcome (outcome : Outcome)

/-- The answer is that a line was served, `first` or one after it. -/
def RoutingAnswer.isLineFrom (first : Nat) : RoutingAnswer → Bool
  | .outcome (.served line _) => decide (first ≤ line.toNat)
  | .handler _ | .outcome (.fatal _) | .outcome .ignored => false

/-- What the request makes the handler of a line, if it changes it. -/
def RoutingRequest.sets? (line : UInt8) : RoutingRequest → Option (Option HandlerId)
  | .attach other handler => if other = line then some (some handler) else none
  | .detach other => if other = line then some none else none
  | .lookup _ | .dispatch _ _ => none

namespace HandlerTable

def perform (run : Handlers) (t : HandlerTable) :
    RoutingRequest → KernelM (RoutingAnswer × HandlerTable)
  | .attach line handler =>
      return (.handler (t.attach line handler).1, (t.attach line handler).2)
  | .detach line => return (.handler (t.detach line).1, (t.detach line).2)
  | .lookup line => return (.handler (t.handler? line), t)
  | .dispatch vector frame => do
      let outcome ← KernelM.route t run vector frame
      return (.outcome outcome, t)

def serve (run : Handlers) (t : HandlerTable) :
    List RoutingRequest → KernelM (List RoutingAnswer × HandlerTable)
  | [] => return ([], t)
  | r :: rest => do
      let (answer, t) ← t.perform run r
      let (answers, t) ← t.serve run rest
      return (answer :: answers, t)

end HandlerTable

/-! ## What the requests tell -/

namespace Routing

/-- The handler that was last attached to a line and not detached since. -/
def installed? (before : List RoutingRequest) (line : UInt8) : Option HandlerId :=
  if line.toNat < lineCount then (before.reverse.findSome? (·.sets? line)).join else none

def outcome (base : UInt8) (before : List RoutingRequest) (vector : UInt8)
    (frame : Option TrapFrame) : Outcome :=
  if vector.toNat < base.toNat then
    .fatal ⟨vector, frame.map fun f => ⟨f.cs, f.ip⟩, frame.map (·.flags)⟩
  else if vector.toNat < base.toNat + lineCount then
    let line := UInt8.ofNat (vector.toNat - base.toNat)
    .served line (installed? before line).isSome
  else .ignored

def answer (base : UInt8) (before : List RoutingRequest) : RoutingRequest → RoutingAnswer
  | .attach line _ | .detach line | .lookup line => .handler (installed? before line)
  | .dispatch vector frame => .outcome (outcome base before vector frame)

/-- What an answer comes with: one call of the line's handler, if it has one, and then the
acknowledgements of the line. -/
def events (before : List RoutingRequest) : RoutingAnswer → List Event
  | .outcome (.served line _) =>
      (installed? before line).toList.map (.handler · line) ++ acknowledgements line
  | .handler _ | .outcome (.fatal _) | .outcome .ignored => []

/-- The answers to requests that follow those `before`. -/
def answers (base : UInt8) (before : List RoutingRequest) :
    List RoutingRequest → List RoutingAnswer
  | [] => []
  | r :: rest => answer base before r :: answers base (before ++ [r]) rest

def traffic (base : UInt8) (before : List RoutingRequest) : List RoutingRequest → List Event
  | [] => []
  | r :: rest => events before (answer base before r) ++ traffic base (before ++ [r]) rest

theorem installed?_append (before : List RoutingRequest) (r : RoutingRequest) {line : UInt8}
    (hline : line.toNat < lineCount) :
    installed? (before ++ [r]) line = (r.sets? line).getD (installed? before line) := by
  simp only [installed?, if_pos hline, List.reverse_append, List.reverse_singleton,
    List.singleton_append, List.findSome?_cons]
  cases r.sets? line <;> rfl

theorem count_events (before : List RoutingRequest) (a : RoutingAnswer) {c : UInt16 × Nat}
    (hc : c ∈ Controller.acknowledging) :
    (events before a).count (.endOfInterrupt c.1) = if a.isLineFrom c.2 then 1 else 0 := by
  match a with
  | .handler _ | .outcome (.fatal _) | .outcome .ignored => rfl
  | .outcome (.served line handled) =>
      have hcalls : ((installed? before line).toList.map (Event.handler · line)).count
          (.endOfInterrupt c.1) = 0 := by
        rw [List.count_eq_zero]
        intro hmem
        obtain ⟨id, _, hid⟩ := List.mem_map.mp hmem
        exact nomatch hid
      rw [events, List.count_append, hcalls, count_acknowledgements line hc, Nat.zero_add,
        RoutingAnswer.isLineFrom]
      simp only [decide_eq_true_eq]

theorem count_traffic (base : UInt8) (before requests : List RoutingRequest) {c : UInt16 × Nat}
    (hc : c ∈ Controller.acknowledging) :
    (traffic base before requests).count (.endOfInterrupt c.1) =
      (answers base before requests).countP (·.isLineFrom c.2) := by
  induction requests generalizing before with
  | nil => rfl
  | cons r rest ih =>
      rw [traffic, answers, List.count_append, count_events before _ hc, ih, List.countP_cons,
        Nat.add_comm]

end Routing

namespace HandlerTable

/-- The table has the handlers that the requests have left. -/
structure Follows (t : HandlerTable) (base : UInt8) (requests : List RoutingRequest) : Prop where
  base_eq : t.controller.base = base
  handler?_eq : ∀ line, t.handler? line = Routing.installed? requests line

variable {t : HandlerTable} {base : UInt8} {before : List RoutingRequest}

theorem follows_init (base : UInt8) : Follows { controller := ⟨base⟩ } base [] := by
  refine ⟨rfl, fun line => ?_⟩
  simp [handler?, Routing.installed?]

theorem Follows.setHandler (ht : t.Follows base before) {line : UInt8}
    {handler : Option HandlerId} {r : RoutingRequest}
    (hr : ∀ other, r.sets? other = if line = other then some handler else none) :
    (t.setHandler line handler).Follows base (before ++ [r]) := by
  refine ⟨(congrArg Controller.base (t.controller_setHandler line handler)).trans ht.base_eq, ?_⟩
  intro other
  -- Lines past the last have no handler, whatever was attached to them.
  by_cases hother : other.toNat < lineCount
  · rw [Routing.installed?_append _ _ hother, hr, ← ht.handler?_eq]
    by_cases hline : line.toNat < lineCount
    · rw [handler?_setHandler t handler hline]
      by_cases heq : line = other
      · rw [if_pos heq, if_pos heq.symm, Option.getD_some]
      · rw [if_neg heq, if_neg (Ne.symm heq), Option.getD_none]
    · have hne : line ≠ other := fun heq => hline (heq ▸ hother)
      rw [setHandler_of_le t handler (Nat.le_of_not_lt hline), if_neg hne, Option.getD_none]
  · rw [handler?, dif_neg hother, Routing.installed?, if_neg hother]

/-- A request that sets no handler leaves the history as good as it was. -/
theorem Follows.append (ht : t.Follows base before) {r : RoutingRequest}
    (hr : ∀ line, r.sets? line = none) : t.Follows base (before ++ [r]) := by
  refine ⟨ht.base_eq, fun line => ?_⟩
  rw [ht.handler?_eq]
  by_cases hline : line.toNat < lineCount
  · rw [Routing.installed?_append _ _ hline, hr, Option.getD_none]
  · simp only [Routing.installed?, if_neg hline]

end HandlerTable

/-! ## One request -/

namespace HandlerTable

variable {run : Handlers} {t : HandlerTable} {base : UInt8} {before : List RoutingRequest}
  {limit : Option Nat} {k : Kernel}

open KernelM

theorem Follows.returns_route (ht : t.Follows base before) (hfree : run.BusFree limit)
    (hlimit : k.machine.settings.switchBudget = limit) (vector : UInt8)
    (frame : Option TrapFrame) :
    Returns Kernel.wire (route t run vector frame) k (Routing.outcome base before vector frame)
      (k.traffic ++ Routing.events before (.outcome (Routing.outcome base before vector frame)),
        limit) := by
  have hwire : k.wire = (k.traffic, limit) := by rw [Kernel.wire, hlimit]
  obtain ⟨rfl, hhandler⟩ := ht
  unfold route Routing.outcome
  by_cases hlow : vector.toNat < t.controller.base.toNat
  · simp only [if_pos hlow, UInt8.lt_iff_toNat_lt, Routing.events, List.append_nil]
    rw [← hwire]
    exact returns_pure _ k
  by_cases hhigh : vector.toNat < t.controller.base.toNat + lineCount
  · simp only [if_neg hlow, if_pos hhigh, UInt8.lt_iff_toNat_lt,
      Controller.lineOf?_of_lt hlow hhigh, Routing.events, ← hhandler]
    generalize UInt8.ofNat (vector.toNat - t.controller.base.toNat) = line
    cases t.handler? line with
    | none =>
        refine ((discreet_wire.keeps_logMessage _ _ _).returns k).bind fun k' hk' => ?_
        exact returns_wire_served line false (hk'.trans hwire)
    | some id =>
        refine (returns_wire_note_handler id line k).bind fun k₁ hk₁ => ?_
        rw [hlimit] at hk₁
        refine (hfree id line k₁ (congrArg Prod.snd hk₁)).bind fun k₂ hk₂ => ?_
        rw [← List.append_assoc]
        exact returns_wire_served line true (hk₂.trans hk₁)
  · have hbeyond := Controller.lineOf?_of_le (Nat.le_of_not_lt hhigh)
    simp only [if_neg hlow, if_neg hhigh, UInt8.lt_iff_toNat_lt, hbeyond, Routing.events,
      List.append_nil]
    rw [← hwire]
    exact ((discreet_wire.keeps_logMessage _ _ _).returns k).bind_pure _

/-- A request is answered as the history tells, and with the traffic that belongs to it. -/
theorem Follows.perform (ht : t.Follows base before) (hfree : run.BusFree limit)
    (hlimit : k.machine.settings.switchBudget = limit) (r : RoutingRequest) :
    ∃ t', t'.Follows base (before ++ [r]) ∧
      Returns Kernel.wire (t.perform run r) k (Routing.answer base before r, t')
        (k.traffic ++ Routing.events before (Routing.answer base before r), limit) := by
  have hwire : (k.traffic ++ [], limit) = k.wire := by
    rw [Kernel.wire, hlimit, List.append_nil]
  cases r with
  | attach line handler =>
      refine ⟨t.setHandler line (some handler), ht.setHandler fun _ => rfl, ?_⟩
      rw [Routing.answer, Routing.events, hwire, ← ht.handler?_eq]
      exact returns_pure _ k
  | detach line =>
      refine ⟨t.setHandler line none, ht.setHandler fun _ => rfl, ?_⟩
      rw [Routing.answer, Routing.events, hwire, ← ht.handler?_eq]
      exact returns_pure _ k
  | lookup line =>
      refine ⟨t, ht.append fun _ => rfl, ?_⟩
      rw [Routing.answer, Routing.events, hwire, ← ht.handler?_eq]
      exact returns_pure _ k
  | dispatch vector frame =>
      refine ⟨t, ht.append fun _ => rfl, ?_⟩
      rw [Routing.answer]
      exact (ht.returns_route hfree hlimit vector frame).bind_pure _

/-! ## Runs -/

theorem Follows.serve (ht : t.Follows base before) (hfree : run.BusFree limit)
    (hlimit : k.machine.settings.switchBudget = limit) (requests : List RoutingRequest) :
    ∃ t', t'.Follows base (before ++ requests) ∧
      Returns Kernel.wire (t.serve run requests) k (Routing.answers base before requests, t')
        (k.traffic ++ Routing.traffic base before requests, limit) := by
  induction requests generalizing t before k with
  | nil =>
      refine ⟨t, by rwa [List.append_nil], ?_⟩
      rw [Routing.traffic, List.append_nil, ← hlimit]
      exact returns_pure _ k
  | cons r rest ih =>
      obtain ⟨t₁, ht₁, k₁, hk₁, hwire₁⟩ := ht.perform hfree hlimit r
      obtain ⟨htraffic₁, hlimit₁⟩ := Prod.mk.inj hwire₁
      obtain ⟨t₂, ht₂, k₂, hk₂, hwire₂⟩ := ih ht₁ hlimit₁
      rw [List.append_assoc] at ht₂
      refine ⟨t₂, ht₂, k₂, ?_, ?_⟩
      · rw [HandlerTable.serve, bind_of_ok hk₁]
        dsimp only
        rw [bind_of_ok hk₂]
        rfl
      · rw [hwire₂, htraffic₁, List.append_assoc, Routing.traffic]

/-- What a run of requests, from an empty table, answers and does. -/
structure Routed (run : Handlers) (base : UInt8) (requests : List RoutingRequest)
    (k : Kernel) (t : HandlerTable) (k' : Kernel) : Prop where
  returns : serve run { controller := ⟨base⟩ } requests k =
    .ok (Routing.answers base [] requests, t) k'
  handler?_eq : ∀ line, t.handler? line = Routing.installed? requests line
  beyond : ∀ line, lineCount ≤ line.toNat →
    (∀ handler, t.attach line handler = (none, t)) ∧ t.detach line = (none, t)
  traffic : k'.traffic = k.traffic ++ Routing.traffic base [] requests
  acknowledged : ∀ c ∈ Controller.acknowledging,
    k'.traffic.count (.endOfInterrupt c.1) = k.traffic.count (.endOfInterrupt c.1) +
      (Routing.answers base [] requests).countP (·.isLineFrom c.2)

/-- Every request is answered as the requests before it tell.  A line that is served has its
handler called once and is then acknowledged once; nothing else is called or goes over the
bus.  So each controller is told of as many ends as lines of its own were served. -/
theorem run_routed (hfree : run.BusFree k.machine.settings.switchBudget) (base : UInt8)
    (requests : List RoutingRequest) :
    ∃ t k', Routed run base requests k t k' := by
  obtain ⟨t, ht, k', hk', hwire⟩ := (follows_init base).serve hfree rfl requests
  have htraffic : k'.traffic = k.traffic ++ Routing.traffic base [] requests :=
    congrArg Prod.fst hwire
  refine ⟨t, k', hk', ht.handler?_eq, ?_, htraffic, ?_⟩
  · intro line hline
    have hnone : t.handler? line = none := dif_neg (Nat.not_lt.mpr hline)
    simp only [attach, detach, hnone, setHandler_of_le t _ hline, implies_true, and_self]
  · intro c hc
    rw [htraffic, List.count_append, Routing.count_traffic base [] requests hc]

/-- Handler 7 yields; the others hand their line over, but in the kernel's own table. -/
def restless : Handlers :=
  Handlers.ofBodies fun id => if id = 7 then .yielding else .handOver 7

/-- Lines from vector 0xF4 on run past the last vector, so only twelve of them can be raised. -/
def highLines : List RoutingRequest :=
  [.attach 3 7, .attach 9 2, .attach 16 5, .dispatch 0xF7 none, .dispatch 0xFD none,
    .attach 9 7, .detach 3, .dispatch 0xF7 none, .lookup 9, .lookup 16,
    .dispatch 0xF3 (some { cs := 0x1234, ip := 0x42, flags := 0x202 })]

theorem run_routed_highLines :
    restless.BusFree ({} : Kernel).machine.settings.switchBudget ∧
      (∃ t k', Routed restless 0xF4 highLines {} t k') ∧
      Routing.answers 0xF4 [] highLines =
        [.handler none, .handler none, .handler none, .outcome (.served 3 true),
          .outcome (.served 9 true), .handler (some 2), .handler (some 7),
          .outcome (.served 3 false), .handler (some 7), .handler none,
          .outcome (.fatal ⟨0xF3, some ⟨0x1234, 0x42⟩, some 0x202⟩)] ∧
      Routing.traffic 0xF4 [] highLines =
        [.handler 7 3, .endOfInterrupt 0x20, .handler 2 9, .endOfInterrupt 0xA0,
          .endOfInterrupt 0x20, .endOfInterrupt 0x20] := by
  have hfree : restless.BusFree ({} : Kernel).machine.settings.switchBudget :=
    Handlers.busFree_ofBodies (fun id => by split <;> nofun) fun _ _ => rfl
  exact ⟨hfree, run_routed hfree 0xF4 highLines, by rfl, by rfl⟩

end HandlerTable

end Kernel16
