import Kernel16.Proofs.Kernel.Conduct

/-!
# Interrupts are masked around shared state

The calls of the kernel leave the interrupt flag as they found it, whichever it was, as long
as they neither halt the kernel nor set it up.  Heap, task table and handler table are used,
and the processor is switched, only while interrupts are masked: a lock that is taken inside
of another one remembers a masked flag, and a yield that switches has masked interrupts itself.
-/

namespace Kernel16

namespace Kernel

/-- The kernel uses a machine whose switches all return. -/
structure Steady (k : Kernel) : Prop extends k.Ready where
  unlimited : k.machine.settings.switchBudget = none

structure Masked (k k' : Kernel) : Prop where
  steady : k'.Steady
  interrupts : k'.machine.interrupts = k.machine.interrupts
  events : k.Adds (fun e => e.isExposed = false) k'

variable {k k' k'' : Kernel}

theorem Masked.refl (hk : k.Steady) : k.Masked k := ⟨hk, rfl, adds_of_trace_eq rfl⟩

theorem Masked.trans (h : k.Masked k') (h' : k'.Masked k'') : k.Masked k'' :=
  ⟨h'.steady, h'.interrupts.trans h.interrupts, h.events.trans h'.events⟩

theorem Ordinary.masked (h : k.Ordinary k') (hk : k.Steady) : k.Masked k' where
  steady := ⟨h.ready hk.toReady, h.settings ▸ hk.unlimited⟩
  interrupts := h.interrupts
  events := h.events.imp fun e he => by
    rw [Event.isOrdinary, Bool.and_eq_true, Bool.not_eq_true'] at he
    exact he.2

/-- A switch with interrupts masked. -/
theorem Switched.masked (h : k.Switched k') (hk : k.Steady)
    (hmasked : k.machine.interrupts = false) : k.Masked k' where
  steady := ⟨⟨h.installed.trans hk.installed, h.base.trans hk.base⟩, h.unlimited hk.unlimited⟩
  interrupts := h.interrupts
  events := by
    obtain ⟨switch, image, htrace⟩ := h.trace
    exact adds_of_push htrace hmasked

/-- The flag is put back after steps with interrupts masked. -/
theorem Masked.unlocked (h : (k.setInterrupts false).Masked k') :
    k.Masked (k'.unlocked k.machine.interrupts) where
  steady := by
    refine ⟨⟨?_, ?_⟩, ?_⟩
    · rw [installed_unlocked]
      exact h.steady.installed
    · rw [handlerTable_unlocked]
      exact h.steady.base
    · rw [settings_unlocked]
      exact h.steady.unlimited
  interrupts := k'.interrupts_unlocked _ h.steady.installed h.interrupts
  events := by
    obtain ⟨es, htrace, hes⟩ := h.events
    exact ⟨es, by rw [trace_unlocked, htrace]; rfl, hes⟩

end Kernel

namespace Conduct

open KernelM

/-- Programs return and leave the interrupt flag as it was.  Handlers that obey this use shared
state only the way the calls of the kernel do, whatever they do to the flag in between. -/
def masking : Conduct where
  state := Kernel.Steady
  continues := Kernel.Masked
  stops := fun _ _ _ => False
  ready := fun hk => hk.toReady
  state_of := fun _ h => h.steady
  trans := Kernel.Masked.trans
  stops_of := fun _ h => h
  ordinary := fun hk h => h.masked hk

theorem masking_yield : masking.Obeys yield := by
  intro k hk
  cases hhalted : k.halted with
  | true =>
      rw [yield_of_halted hhalted]
      exact .ok (.refl hk)
  | false =>
      obtain ⟨k₁, hk₁, hend⟩ := yield_cases hk.installed hhalted
      have hsteady : (k.setInterrupts false).Steady := ⟨⟨hk.installed, hk.base⟩, hk.unlimited⟩
      have hchosen := hk₁.masked hsteady
      rcases hend with hnone | ⟨k₂, hk₂, hreturns | ⟨hlimited, _⟩⟩
      · rw [hnone]
        exact .ok hchosen.unlocked
      · rw [hreturns]
        exact .ok (hchosen.trans (hk₂.masked hchosen.steady hk₁.interrupts)).unlocked
      · exact absurd hchosen.steady.unlimited hlimited

theorem masking_dispatch {run : Handlers} (hrun : masking.Handle run) {vector : UInt8}
    (hvector : ¬ vector < lineVectorBase) (frame : Option TrapFrame) :
    masking.Obeys (dispatch run vector frame) :=
  hrun.dispatch masking_yield (fun h => absurd h hvector) frame

end Conduct

/-- The call neither halts the kernel nor sets it up. -/
def KernelCall.Permitted (k : Kernel) : KernelCall → Prop
  | .data _ | .yield => True
  | .initTasks => (k.arena.allocate idleStackSize).isSome = true
  | .dispatch vector _ => ¬ vector < lineVectorBase
  | .enterTrap vector _ => ¬ UInt8.ofNat vector < lineVectorBase
  | .endTask _ | .initTraps _ | .boot _ | .idleLoop _ | .setInterrupts _ => False

instance KernelCall.decidablePermitted (k : Kernel) :
    (call : KernelCall) → Decidable (call.Permitted k)
  | .data _ | .yield => inferInstanceAs (Decidable True)
  | .initTasks => inferInstanceAs (Decidable ((k.arena.allocate idleStackSize).isSome = true))
  | .dispatch vector _ => inferInstanceAs (Decidable (¬ vector < lineVectorBase))
  | .enterTrap vector _ => inferInstanceAs (Decidable (¬ UInt8.ofNat vector < lineVectorBase))
  | .endTask _ | .initTraps _ | .boot _ | .idleLoop _ | .setInterrupts _ =>
      inferInstanceAs (Decidable False)

namespace Kernel

open KernelM

variable {run : Handlers} {k : Kernel} {call : KernelCall} {calls : List KernelCall}

theorem returns_of_obeys {m : KernelM Unit} (hm : Conduct.masking.Obeys m) (hk : k.Steady) :
    ∃ k', m k = .ok () k' ∧ k.Masked k' := by
  have hallowed := hm k hk
  cases hresult : m k with
  | ok a k' =>
      rw [hresult, Conduct.allows_ok_iff] at hallowed
      exact ⟨k', rfl, hallowed⟩
  | error stop k' =>
      rw [hresult, Conduct.allows_error_iff] at hallowed
      exact hallowed.elim

theorem Steady.masked_program (hk : k.Steady) (hrun : Conduct.masking.Handle run)
    (hcall : call.Permitted k) :
    ∃ k', call.program run k = .ok () k' ∧ k.Masked k' := by
  cases call with
  | data call => exact returns_of_obeys (Conduct.obeys_of_ordinary call.ordinary_program) hk
  | initTasks =>
      obtain ⟨k', hk', hend⟩ := initTasks_cases hk.installed
      rcases hend with ⟨_, i, hi⟩ | ⟨hnone, _⟩
      · exact ⟨k', bind_of_ok hi _, hk'.masked hk⟩
      · rw [KernelCall.Permitted, hnone] at hcall
        cases hcall
  | yield => exact returns_of_obeys Conduct.masking_yield hk
  | dispatch vector frame =>
      exact returns_of_obeys (Conduct.masking_dispatch hrun hcall frame).discard hk
  | enterTrap vector frame =>
      exact returns_of_obeys (Conduct.masking_dispatch hrun hcall frame).discard hk
  | endTask | initTraps | boot | idleLoop | setInterrupts => exact hcall.elim

/-! ## Runs -/

/-- Each call is permitted when it is made. -/
def Permits (run : Handlers) (k : Kernel) : List KernelCall → Prop
  | [] => True
  | call :: rest => call.Permitted k ∧ ((call.program run).after k).Permits run rest

instance decidablePermits (run : Handlers) : (k : Kernel) → (calls : List KernelCall) →
    Decidable (k.Permits run calls)
  | _, [] => inferInstanceAs (Decidable True)
  | k, call :: rest =>
      have := decidablePermits run ((call.program run).after k) rest
      inferInstanceAs (Decidable (call.Permitted k ∧ ((call.program run).after k).Permits run rest))

/-- Each of the calls returns with the flag that it was made with, and so do all of them. -/
structure Disciplined (run : Handlers) (k : Kernel) (calls : List KernelCall) : Prop where
  each : ∀ before call rest, calls = before ++ call :: rest →
    ∃ k', call.program run (k.afterCalls run before) = .ok () k' ∧
      (k.afterCalls run before).Masked k'
  all : k.Masked (k.afterCalls run calls)

theorem run_disciplined (hrun : Conduct.masking.Handle run) (hk : k.Steady)
    (hcalls : k.Permits run calls) : k.Disciplined run calls := by
  induction calls generalizing k with
  | nil => exact ⟨fun before _ _ h => absurd h (by simp), Masked.refl hk⟩
  | cons call rest ih =>
      obtain ⟨k', hk', hmasked⟩ := hk.masked_program hrun hcalls.1
      have hafter : (call.program run).after k = k' := by rw [after, hk']
      have hrest := ih (hafter ▸ hmasked.steady) hcalls.2
      refine ⟨?_, ?_⟩
      · intro before next later hsplit
        cases before with
        | nil =>
            obtain ⟨rfl, _⟩ := List.cons.inj hsplit
            exact ⟨k', hk', hmasked⟩
        | cons first before =>
            obtain ⟨rfl, htail⟩ := List.cons.inj hsplit
            exact hrest.each before next later htail
      · exact hmasked.trans (hafter ▸ hrest.all)

/-- Line 1 raises line 2 while it is served, and the handler of line 2 yields. -/
def raising : Handlers := Handlers.ofBodies fun id => if id = 1 then .chaining else .yielding

def sharedCalls : List KernelCall :=
  [.data (.newTask 0x100 512), .data (.attachHandler 1 1), .data (.attachHandler 2 2),
    .data (.setPreemption true), .dispatch 0x21 none, .dispatch 0x20 none,
    .data (.allocate 64), .yield, .initTasks, .dispatch 0x30 none]

theorem run_disciplined_raising :
    Conduct.masking.Handle raising ∧ booted.Steady ∧ booted.Permits raising sharedCalls ∧
      booted.Disciplined raising sharedCalls ∧ booted.machine.interrupts = true ∧
      ((booted.afterCalls raising sharedCalls).effects.countP Event.isSwitch) = 3 := by
  have hrun : Conduct.masking.Handle raising :=
    Conduct.Handle.ofBodies Conduct.masking_yield _
  have hk : booted.Steady :=
    ⟨⟨by decide +kernel, by decide +kernel⟩, by decide +kernel⟩
  have hcalls : booted.Permits raising sharedCalls := by decide +kernel
  exact ⟨hrun, hk, hcalls, run_disciplined hrun hk hcalls, by decide +kernel, by decide +kernel⟩

end Kernel

end Kernel16
