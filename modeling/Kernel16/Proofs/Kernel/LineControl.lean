import Kernel16.Kernel.Handlers
import Kernel16.Proofs.Kernel.MaskUpdate
import Mathlib.Data.Fintype.Basic

/-!
# The set of lines that the controllers let through

Both mask registers together are one set of lines, whatever they held at first.  Setting up the
controllers empties it, although the words for that go through the same registers; enabling and
disabling add and remove; and to acknowledge or to route an interrupt does nothing to it.  A line
never depends on the register that is not its own.
-/

namespace Kernel16

/-! ## Lines as a finite set -/

namespace LineSet

variable {s t : LineSet} {line : Fin lineCount}

def lines (s : LineSet) : Finset (Fin lineCount) :=
  Finset.univ.filter fun line => s.contains line = true

@[simp] theorem mem_lines : line ∈ s.lines ↔ s.contains line = true := by
  simp [lines]

@[simp] theorem lines_empty : empty.lines = ∅ := by
  ext line
  simp

end LineSet

/-! ## The mask registers -/

namespace Kernel

variable {k k' : Kernel} {line : Nat}

def maskRegisters (k : Kernel) : UInt8 × UInt8 :=
  (k.machine.read Controller.primaryData, k.machine.read Controller.secondaryData)

/-- The bit of a line, in the register of its controller. -/
def maskBit (k : Kernel) (line : Nat) : Bool :=
  if line < 8 then k.maskRegisters.1.toBitVec.getLsbD line
  else k.maskRegisters.2.toBitVec.getLsbD (line - 8)

/-- The complement of the mask registers. -/
def unmasked (k : Kernel) : Finset (Fin lineCount) :=
  Finset.univ.filter fun line => k.maskBit line = false

theorem enabledLines_eq (k : Kernel) :
    k.enabledLines = .ofMasks k.maskRegisters.1 k.maskRegisters.2 := rfl

theorem maskRegisters_eq_iff :
    k'.maskRegisters = k.maskRegisters ↔ k'.enabledLines = k.enabledLines := by
  constructor
  · intro h
    rw [enabledLines_eq, h, enabledLines_eq]
  · intro h
    rw [enabledLines_eq, enabledLines_eq] at h
    have hprimary := congrArg LineSet.primaryMask h
    have hsecondary := congrArg LineSet.secondaryMask h
    rw [LineSet.primaryMask_ofMasks, LineSet.primaryMask_ofMasks] at hprimary
    rw [LineSet.secondaryMask_ofMasks, LineSet.secondaryMask_ofMasks] at hsecondary
    exact Prod.ext hprimary hsecondary

theorem maskBit_eq (k : Kernel) (hline : line < lineCount) :
    k.maskBit line = !k.enabledLines.contains line := by
  rw [maskBit, enabledLines_eq]
  split
  next hfirst => rw [LineSet.contains_ofMasks_first hfirst, Bool.not_not]
  next hsecond =>
    obtain ⟨i, rfl⟩ := Nat.exists_eq_add_of_le (Nat.not_lt.mp hsecond)
    have hi : i < 8 := Nat.lt_of_add_lt_add_left hline
    rw [LineSet.contains_ofMasks_second hi, Bool.not_not, Nat.add_sub_cancel_left]

theorem lines_enabledLines (k : Kernel) : k.enabledLines.lines = k.unmasked := by
  ext line
  simp [unmasked, maskBit_eq k line.isLt]

end Kernel

namespace Machine

variable (m : Machine)

/-- The words that set the controllers up are no masks any more when all lines are disabled. -/
theorem enabledLines_run_setUp (c : Controller) :
    (m.run c.setUp).2.1.enabledLines = .empty := by
  rw [Controller.setUp, BusProgram.bind_eq, run_bind]
  exact enabledLines_run_setEnabled _ _

end Machine

/-! ## Programs that leave the masks alone -/

/-- The program never writes a mask register. -/
def BusProgram.SparesMasks : BusProgram α → Prop
  | .done _ => True
  | .read _ next => ∀ value, (next value).SparesMasks
  | .write address _ next =>
      address ≠ Controller.primaryData ∧ address ≠ Controller.secondaryData ∧ next.SparesMasks

theorem Controller.sparesMasks_acknowledge (line : UInt8) :
    (acknowledge line).SparesMasks := by
  unfold acknowledge
  split <;> simp [BusProgram.outputs, BusProgram.SparesMasks, primaryCommand, primaryData,
    secondaryCommand, secondaryData]

theorem Machine.read_write_of_not_latched (m : Machine) {address : UInt16} (value : UInt8)
    (haddress : ¬ address.toNat < latchCount) (other : UInt16) :
    (m.write address value).read other = m.read other := by
  have hlatch : (m.write address value).latch = m.latch := by
    simp only [write, setLatch, dif_neg haddress, countWrite]
    split <;> rfl
  simp only [read, hlatch]

theorem Machine.enabledLines_run_of_sparesMasks {p : BusProgram α} (hp : p.SparesMasks)
    (m : Machine) : (m.run p).2.1.enabledLines = m.enabledLines := by
  induction p generalizing m with
  | done value => rfl
  | read address next ih => exact ih _ (hp _) m
  | write address value next ih =>
      obtain ⟨hprimary, hsecondary, hnext⟩ := hp
      refine (ih hnext _).trans ?_
      by_cases haddress : address.toNat < latchCount
      · exact m.enabledLines_write_of_ne value hprimary hsecondary haddress
      · change LineSet.ofMasks ((m.write _ _).read _) ((m.write _ _).read _) = _
        rw [m.read_write_of_not_latched value haddress, m.read_write_of_not_latched value haddress]
        rfl

namespace KernelM

variable {α β σ : Type} {view : Kernel → σ} {m : KernelM α} {f : α → KernelM β}

/-- Whether the program returns or stops, what `view` shows of the kernel is as before. -/
def Preserves (view : Kernel → σ) (m : KernelM α) : Prop :=
  ∀ k, view (m.after k) = view k

theorem Keeps.preserves (hm : Keeps view m) : Preserves view m := hm.view_after

theorem preserves_pure (a : α) : Preserves view (pure a : KernelM α) := fun _ => rfl

theorem preserves_throw (stop : Stop) : Preserves view (throw stop : KernelM α) := fun _ => rfl

theorem preserves_get : Preserves view (get : KernelM Kernel) := fun _ => rfl

theorem preserves_modify {g : Kernel → Kernel} (h : ∀ k, view (g k) = view k) :
    Preserves view (modify g : KernelM PUnit) := h

theorem Preserves.bind (hm : Preserves view m) (hf : ∀ a, Preserves view (f a)) :
    Preserves view (m >>= f) := by
  intro k
  have hk := hm k
  unfold after at hk ⊢
  rw [bind_apply]
  cases hresult : m k with
  | ok a k' =>
      rw [hresult] at hk
      exact (hf a k').trans hk
  | error stop k' =>
      rw [hresult] at hk
      exact hk

theorem Preserves.discard (hm : Preserves view m) : Preserves view (m >>= fun _ => pure ()) :=
  hm.bind fun _ => preserves_pure ()

/-- The program leaves both mask registers as they are. -/
abbrev SparesMasks (m : KernelM α) : Prop := Preserves Kernel.maskRegisters m

theorem sparesMasks_iff : SparesMasks m ↔ Preserves Kernel.enabledLines m :=
  forall_congr' fun _ => Kernel.maskRegisters_eq_iff

theorem discreet_maskRegisters : Discreet Kernel.maskRegisters :=
  ⟨fun _ _ => rfl, fun _ _ => rfl, fun _ _ _ => rfl⟩

theorem sparesMasks_runBus {p : BusProgram α} (hp : p.SparesMasks) : SparesMasks (runBus p) :=
  sparesMasks_iff.mpr fun k => k.machine.enabledLines_run_of_sparesMasks hp

theorem sparesMasks_note (e : Event) : SparesMasks (note e) := preserves_modify fun _ => rfl

theorem sparesMasks_logMessage (level : Log.Level) (target message : String) :
    SparesMasks (logMessage level target message) :=
  (discreet_maskRegisters.keeps_logMessage level target message).preserves

theorem sparesMasks_yield : SparesMasks yield := sparesMasks_iff.mpr enabledLines_after_yield

theorem sparesMasks_halt (reason : String) : SparesMasks (halt reason : KernelM α) := by
  have hmachine : SparesMasks (haltMachine : KernelM α) := by
    refine Preserves.bind preserves_get fun k => ?_
    refine (sparesMasks_note _).bind fun _ => ?_
    exact Preserves.bind (preserves_modify fun _ => rfl) fun _ => preserves_throw _
  have hstop : SparesMasks (do
      logMessage .error "halt" ("KERNEL PANIC: " ++ reason)
      logMessage .error "halt" "System halted."
      if (← get).installed then haltMachine else throw (.noMachine reason) : KernelM α) := by
    refine (sparesMasks_logMessage _ _ _).bind fun _ => ?_
    refine (sparesMasks_logMessage _ _ _).bind fun _ => Preserves.bind preserves_get fun k => ?_
    split
    · exact hmachine
    · exact preserves_throw _
  refine Preserves.bind (preserves_modify fun _ => rfl) fun _ => ?_
  refine Preserves.bind preserves_get fun k => ?_
  split
  · exact (discreet_maskRegisters.keeps_setInterrupts false).preserves.bind fun _ => hstop
  · exact hstop

theorem sparesMasks_conclude (outcome : Outcome) : SparesMasks (conclude outcome) := by
  have hcount : SparesMasks countTick := by
    refine Preserves.bind (preserves_modify fun _ => rfl) fun _ => ?_
    exact preserves_get.bind fun _ => sparesMasks_note _
  cases outcome with
  | fatal fault => exact sparesMasks_halt _
  | ignored => exact preserves_pure ()
  | served line handled =>
      unfold conclude
      dsimp only
      split
      · refine hcount.bind fun _ => Preserves.bind preserves_get fun k => ?_
        split
        · exact sparesMasks_yield
        · exact preserves_pure ()
      · exact preserves_pure ()

end KernelM

/-! ## Handlers that leave the masks alone -/

namespace Handlers

open KernelM

variable {run : Handlers}

def SparesMasks (run : Handlers) : Prop := ∀ id line, KernelM.SparesMasks (run id line)

theorem SparesMasks.route (hrun : run.SparesMasks) (d : HandlerTable) (vector : UInt8)
    (frame : Option TrapFrame) : KernelM.SparesMasks (KernelM.route d run vector frame) := by
  have hserved : ∀ (line : UInt8) (handled : Bool), KernelM.SparesMasks (do
      runBus (Controller.acknowledge line)
      return Outcome.served line handled) := fun line handled =>
    (sparesMasks_runBus (Controller.sparesMasks_acknowledge line)).bind fun _ => preserves_pure _
  unfold KernelM.route
  split
  · exact preserves_pure _
  · split
    · exact (sparesMasks_logMessage _ _ _).bind fun _ => preserves_pure _
    · next line _ =>
        dsimp only
        split
        · next id _ =>
            exact (sparesMasks_note _).bind fun _ => (hrun id line).bind fun _ => hserved line _
        · exact (sparesMasks_logMessage _ _ _).bind fun _ => hserved line _

theorem SparesMasks.dispatch (hrun : run.SparesMasks) (vector : UInt8)
    (frame : Option TrapFrame) : KernelM.SparesMasks (KernelM.dispatch run vector frame) := by
  refine Preserves.bind preserves_get fun k => ?_
  split
  · refine discreet_maskRegisters.keeps_handlerTableCopy.preserves.bind fun d => ?_
    refine (hrun.route d vector frame).bind fun outcome => ?_
    exact (sparesMasks_conclude outcome).bind fun _ => preserves_pure _
  · exact (sparesMasks_logMessage _ _ _).bind fun _ => preserves_pure _

theorem sparesMasks_nested (body : HandlerId → HandlerBody) (depth : Nat) :
    (nested body depth).SparesMasks := by
  have hhandlers : ∀ (k : Kernel) (line : UInt8) (handler : Option HandlerId),
      Kernel.maskRegisters { k with handlerTable := k.handlerTable.setHandler line handler } =
        k.maskRegisters := fun _ _ _ => rfl
  induction depth with
  | zero => exact fun _ _ => preserves_pure ()
  | succ depth ih =>
      intro id line
      unfold nested
      cases body id with
      | quiet => exact preserves_pure ()
      | once =>
          exact (discreet_maskRegisters.keeps_detachHandler hhandlers line).preserves.discard
      | handOver next =>
          exact (discreet_maskRegisters.keeps_attachHandler hhandlers line next).preserves.discard
      | yielding => exact sparesMasks_yield
      | chaining =>
          dsimp only [HandlerBody.run]
          split
          · exact (ih.dispatch _ none).discard
          · exact preserves_pure ()
      | reporting => exact sparesMasks_logMessage _ _ _

theorem sparesMasks_ofBodies (body : HandlerId → HandlerBody) : (ofBodies body).SparesMasks :=
  sparesMasks_nested body lineCount

end Handlers

/-! ## Calls to the controllers -/

inductive ControllerCall where
  | setUp (c : Controller)
  | disableAll
  | update (call : MaskCall)
  | acknowledge (line : UInt8)
  /-- Routes a vector with the handlers of a table. -/
  | route (table : HandlerTable) (vector : UInt8) (frame : Option TrapFrame)

namespace ControllerCall

open KernelM

variable {run : Handlers} {s t : Finset (Fin lineCount)} {line : Fin lineCount}

def program (run : Handlers) : ControllerCall → KernelM Unit
  | .setUp c => runBus c.setUp
  | .disableAll => runBus Controller.disableAll
  | .update call => call.program
  | .acknowledge line => runBus (Controller.acknowledge line)
  | .route table vector frame => do let _ ← KernelM.route table run vector frame

/-- What the call does to a set of lines. -/
def change : ControllerCall → Finset (Fin lineCount) → Finset (Fin lineCount)
  | .setUp _, _ | .disableAll, _ => ∅
  | .update (.group lines true), s => s ∪ lines.lines
  | .update (.group lines false), s => s \ lines.lines
  | .update (.single l true), s => if hl : l.toNat < lineCount then insert ⟨l.toNat, hl⟩ s else s
  | .update (.single l false), s => if hl : l.toNat < lineCount then s.erase ⟨l.toNat, hl⟩ else s
  | .acknowledge _, s | .route _ _ _, s => s

theorem mem_change_update (call : MaskCall) :
    line ∈ (update call).change s ↔
      if call.affects line = true then call.enables = true else line ∈ s := by
  cases call with
  | single l enables =>
      by_cases hl : l.toNat < lineCount
      · cases enables <;> by_cases hline : line.val = l.toNat <;>
          simp [change, MaskCall.affects, MaskCall.enables, hl, hline, Fin.ext_iff]
      · have hline : line.val ≠ l.toNat := fun h => hl (h ▸ line.isLt)
        cases enables <;> simp [change, MaskCall.affects, hl, hline]
  | group lines enables =>
      cases enables <;> cases hline : lines.contains line <;>
        simp [change, MaskCall.affects, MaskCall.enables, hline]

/-- No line is moved to another. -/
theorem mem_change_congr (call : ControllerCall) (h : line ∈ s ↔ line ∈ t) :
    line ∈ call.change s ↔ line ∈ call.change t := by
  cases call with
  | setUp c | disableAll => exact Iff.rfl
  | update call => rw [mem_change_update, mem_change_update, h]
  | acknowledge line | route table vector frame => exact h

/-- An update of the masks is one program, whichever way it goes. -/
theorem enabledLines_after_group (lines : LineSet) (enables : Bool) (k : Kernel) :
    ((MaskCall.group lines enables).program.after k).enabledLines =
      if enables then k.enabledLines.union lines else k.enabledLines.diff lines := by
  cases enables with
  | true => exact k.machine.enabledLines_run_setEnabled (k.enabledLines.union lines)
  | false => exact k.machine.enabledLines_run_setEnabled (k.enabledLines.diff lines)

theorem enabledLines_after_update (call : MaskCall) (k : Kernel) :
    (call.program.after k).enabledLines = call.effect k.enabledLines := by
  cases call with
  | group lines enables =>
      rw [enabledLines_after_group, MaskCall.effect_eq (c := .group lines enables) rfl]
      rfl
  | single line enables =>
      cases hlines : LineSet.single? line with
      | none =>
          have heffect : MaskCall.effect (.single line enables) k.enabledLines = k.enabledLines := by
            simp only [MaskCall.effect, MaskCall.lines?, hlines]
          rw [heffect]
          cases enables <;> simp only [MaskCall.program, enableLine, disableLine, hlines] <;> rfl
      | some lines =>
          obtain ⟨_, k₁, hcopy, hk₁⟩ := discreet_enabledLines.keeps_handlerTableCopy k
          have hgroup : (MaskCall.single line enables).program.after k =
              (MaskCall.group lines enables).program.after k₁ := by
            cases enables <;>
              simp only [MaskCall.program, enableLine, disableLine, hlines, after_bind_of_ok hcopy]
          rw [hgroup, enabledLines_after_group, hk₁,
            MaskCall.effect_eq (c := .single line enables) hlines]
          rfl

/-- Each call does to the enabled lines what it does to a set. -/
theorem lines_after (hrun : run.SparesMasks) (call : ControllerCall) (k : Kernel) :
    ((call.program run).after k).enabledLines.lines = call.change k.enabledLines.lines := by
  cases call with
  | setUp c =>
      exact (congrArg LineSet.lines (k.machine.enabledLines_run_setUp c)).trans LineSet.lines_empty
  | disableAll =>
      exact (congrArg LineSet.lines (k.machine.enabledLines_run_setEnabled .empty)).trans
        LineSet.lines_empty
  | update call =>
      ext line
      rw [program, enabledLines_after_update, mem_change_update, LineSet.mem_lines,
        LineSet.mem_lines, MaskCall.contains_effect _ _ line.isLt]
      split <;> rfl
  | acknowledge line =>
      exact congrArg LineSet.lines (k.machine.enabledLines_run_acknowledge line)
  | route table vector frame =>
      have hroute := sparesMasks_iff.mp (hrun.route table vector frame)
      exact congrArg LineSet.lines (hroute.discard k)

end ControllerCall

namespace Kernel

open KernelM

variable {run : Handlers} {k k' : Kernel} {calls : List ControllerCall}
  {s t : Finset (Fin lineCount)} {line : Fin lineCount}

/-! ## Runs -/

/-- The kernel after the calls, each of which has returned or stopped. -/
def afterControl (run : Handlers) (k : Kernel) (calls : List ControllerCall) : Kernel :=
  calls.foldl (fun k call => (call.program run).after k) k

def changed (calls : List ControllerCall) (s : Finset (Fin lineCount)) : Finset (Fin lineCount) :=
  calls.foldl (fun s call => call.change s) s

theorem unmasked_afterControl (hrun : run.SparesMasks) (k : Kernel) (calls : List ControllerCall) :
    (k.afterControl run calls).unmasked = changed calls k.unmasked := by
  rw [← lines_enabledLines, ← lines_enabledLines]
  induction calls generalizing k with
  | nil => rfl
  | cons call rest ih =>
      have hcall := call.lines_after hrun k
      exact (ih _).trans (congrArg (changed rest) hcall)

theorem mem_changed_congr (calls : List ControllerCall) (h : line ∈ s ↔ line ∈ t) :
    line ∈ changed calls s ↔ line ∈ changed calls t := by
  induction calls generalizing s t with
  | nil => exact h
  | cons call rest ih => exact ih (call.mem_change_congr h)

/-- The controllers, to which these calls are made, are a set of lines. -/
structure Implements (run : Handlers) (k : Kernel) (calls : List ControllerCall) : Prop where
  enabled : ∃ lines k', runBus Controller.enabled (k.afterControl run calls) = .ok lines k' ∧
    k'.machine = (k.afterControl run calls).machine ∧ lines.lines = changed calls k.unmasked
  maskBit : ∀ line : Fin lineCount,
    (k.afterControl run calls).maskBit line = false ↔ line ∈ changed calls k.unmasked
  /-- What becomes of a line depends on nothing but its own bit. -/
  own_bit : ∀ (k' : Kernel) (line : Fin lineCount), k'.maskBit line = k.maskBit line →
    (k'.afterControl run calls).maskBit line = (k.afterControl run calls).maskBit line

theorem mem_unmasked_iff : line ∈ k.unmasked ↔ k.maskBit line = false := by
  simp [unmasked]

theorem maskBit_afterControl (hrun : run.SparesMasks) (k : Kernel) (calls : List ControllerCall)
    (line : Fin lineCount) :
    (k.afterControl run calls).maskBit line = false ↔ line ∈ changed calls k.unmasked := by
  rw [← unmasked_afterControl hrun, mem_unmasked_iff]

theorem run_implements (hrun : run.SparesMasks) (k : Kernel) (calls : List ControllerCall) :
    k.Implements run calls where
  enabled := by
    refine ⟨(k.afterControl run calls).enabledLines, _, modifyGet_apply _ _, rfl, ?_⟩
    rw [lines_enabledLines, unmasked_afterControl hrun]
  maskBit := maskBit_afterControl hrun k calls
  own_bit := by
    intro k' line hbit
    have hline : line ∈ k'.unmasked ↔ line ∈ k.unmasked := by
      rw [mem_unmasked_iff, mem_unmasked_iff, hbit]
    rw [Bool.eq_iff_iff, ← not_iff_not, Bool.not_eq_true, Bool.not_eq_true,
      maskBit_afterControl hrun, maskBit_afterControl hrun]
    exact mem_changed_congr calls hline

/-- A handler raises the next line, from which the handler of that line is called. -/
def relaying : Handlers := Handlers.ofBodies fun id => if id = 7 then .chaining else .yielding

/-- Lines of both controllers are enabled and disabled, before and after the set-up. -/
def mixedControl : List ControllerCall :=
  [.update (.group ⟨0x8181⟩ true), .setUp ⟨lineVectorBase⟩, .update (.group ⟨0x0F0F⟩ true),
    .route MaskCall.attached.handlerTable 0x21 none, .update (.single 9 false),
    .update (.single 16 true), .update (.group ⟨0xF00C⟩ false), .acknowledge 10,
    .update (.single 15 true)]

theorem run_implements_mixedControl :
    relaying.SparesMasks ∧ MaskCall.attached.Implements relaying mixedControl ∧
      changed mixedControl MaskCall.attached.unmasked = {0, 1, 8, 10, 11, 15} :=
  ⟨Handlers.sparesMasks_ofBodies _, run_implements (Handlers.sparesMasks_ofBodies _) _ _,
    by decide +kernel⟩

end Kernel

end Kernel16
