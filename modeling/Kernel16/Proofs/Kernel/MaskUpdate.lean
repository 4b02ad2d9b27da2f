import Kernel16.Proofs.Kernel.Masking

/-!
# Interrupted updates of the controllers' masks

A call that enables or disables lines reads the masks of both controllers and then writes both.
Interrupts are not masked in between, so a handler that makes such a call of its own may run
after any of the accesses.  What the handler does to a line is lost if the task has then read the
mask of the line and not yet written it; at all other points, and for all other lines, both calls
have their effect.
-/

namespace Kernel16

namespace LineSet

variable {s t : LineSet} {primary secondary : UInt8} {i line : Nat}

/-- The lines of the first controller as in `s`, those of the second as in `t`. -/
def mix (s t : LineSet) : LineSet := .ofMasks s.primaryMask t.secondaryMask

theorem getLsbD_primaryMask (s : LineSet) (hi : i < 8) :
    s.primaryMask.toBitVec.getLsbD i = !s.contains i := by
  simp [primaryMask, contains, hi]

theorem getLsbD_secondaryMask (s : LineSet) (hi : i < 8) :
    s.secondaryMask.toBitVec.getLsbD i = !s.contains (8 + i) := by
  have hlast : 8 + i < 16 := by omega
  simp [secondaryMask, contains, hi, hlast]

theorem contains_ofMasks_first (hi : i < 8) :
    (ofMasks primary secondary).contains i = !primary.toBitVec.getLsbD i := by
  have hlast : i < 16 := by omega
  simp [ofMasks, contains, hi, hlast]

theorem contains_ofMasks_second (hi : i < 8) :
    (ofMasks primary secondary).contains (8 + i) = !secondary.toBitVec.getLsbD i := by
  have hlast : 8 + i < 16 := by omega
  have hnot : ¬ 8 + i < 8 := by omega
  simp [ofMasks, contains, hlast, hnot]

theorem mask_ext {p q : UInt8} (h : ∀ i < 8, p.toBitVec.getLsbD i = q.toBitVec.getLsbD i) :
    p = q :=
  UInt8.toBitVec_inj.mp (BitVec.eq_of_getLsbD_eq fun i hi => h i hi)

@[simp] theorem primaryMask_ofMasks : (ofMasks primary secondary).primaryMask = primary := by
  refine mask_ext fun i hi => ?_
  rw [getLsbD_primaryMask _ hi, contains_ofMasks_first hi, Bool.not_not]

@[simp] theorem secondaryMask_ofMasks :
    (ofMasks primary secondary).secondaryMask = secondary := by
  refine mask_ext fun i hi => ?_
  rw [getLsbD_secondaryMask _ hi, contains_ofMasks_second hi, Bool.not_not]

theorem contains_mix (s t : LineSet) (hline : line < lineCount) :
    (s.mix t).contains line = if line < 8 then s.contains line else t.contains line := by
  split
  next hfirst =>
    rw [mix, contains_ofMasks_first hfirst, getLsbD_primaryMask _ hfirst, Bool.not_not]
  next hsecond =>
    obtain ⟨i, rfl⟩ := Nat.exists_eq_add_of_le (Nat.not_lt.mp hsecond)
    have hi : i < 8 := Nat.lt_of_add_lt_add_left hline
    rw [mix, contains_ofMasks_second hi, getLsbD_secondaryMask _ hi, Bool.not_not]

theorem contains_single {l : UInt8} (hl : l.toNat < lineCount) (hline : line < lineCount) :
    (LineSet.mk (1 <<< l.toUInt16)).contains line = decide (line = l.toNat) := by
  have hline : line < 16 := hline
  have hmod : l.toNat % 16 = l.toNat := Nat.mod_eq_of_lt hl
  simp only [contains, UInt16.toBitVec_shiftLeft, UInt8.toBitVec_toUInt16]
  simp [hline, hmod]
  rw [Bool.eq_iff_iff]
  simp
  omega

theorem ext_of_contains (h : ∀ line < lineCount, s.contains line = t.contains line) : s = t := by
  cases s
  cases t
  exact congrArg _ (UInt16.toBitVec_inj.mp (BitVec.eq_of_getLsbD_eq fun i hi => h i hi))

@[simp] theorem mix_self (s : LineSet) : s.mix s = s := by
  refine ext_of_contains fun line hline => ?_
  rw [contains_mix _ _ hline, ite_self]

@[simp] theorem mix_mix (s t u : LineSet) : (s.mix t).mix u = s.mix u := by
  rw [mix, mix, primaryMask_ofMasks, mix]

end LineSet

/-! ## The lines that are enabled -/

namespace Machine

variable (m : Machine)

def enabledLines : LineSet := (m.run Controller.enabled).1

theorem enabledLines_write_primary (s : LineSet) :
    (m.write Controller.primaryData s.primaryMask).enabledLines = s.mix m.enabledLines := by
  have hother : Controller.secondaryData ≠ Controller.primaryData := by decide
  change LineSet.ofMasks ((m.write _ _).read _) ((m.write _ _).read _) = _
  rw [read_write m _ _ (by decide), read_write m _ _ (by decide), if_pos rfl, if_neg hother,
    LineSet.mix]
  exact congrArg _ LineSet.secondaryMask_ofMasks.symm

theorem enabledLines_write_secondary (s : LineSet) :
    (m.write Controller.secondaryData s.secondaryMask).enabledLines = m.enabledLines.mix s := by
  have hother : Controller.primaryData ≠ Controller.secondaryData := by decide
  change LineSet.ofMasks ((m.write _ _).read _) ((m.write _ _).read _) = _
  rw [read_write m _ _ (by decide), read_write m _ _ (by decide), if_neg hother, if_pos rfl,
    LineSet.mix]
  exact congrArg (LineSet.ofMasks · _) LineSet.primaryMask_ofMasks.symm

theorem enabledLines_write_of_ne {address : UInt16} (value : UInt8)
    (hprimary : address ≠ Controller.primaryData)
    (hsecondary : address ≠ Controller.secondaryData) (haddress : address.toNat < latchCount) :
    (m.write address value).enabledLines = m.enabledLines := by
  change LineSet.ofMasks ((m.write _ _).read _) ((m.write _ _).read _) = _
  rw [read_write m _ _ haddress, read_write m _ _ haddress, if_neg hprimary.symm,
    if_neg hsecondary.symm]
  rfl

theorem enabledLines_run_acknowledge (line : UInt8) :
    (m.run (Controller.acknowledge line)).2.1.enabledLines = m.enabledLines := by
  have hsecondary (m : Machine) : (m.write Controller.secondaryCommand
      Controller.acknowledgement).enabledLines = m.enabledLines :=
    m.enabledLines_write_of_ne _ (by decide) (by decide) (by decide)
  have hprimary (m : Machine) : (m.write Controller.primaryCommand
      Controller.acknowledgement).enabledLines = m.enabledLines :=
    m.enabledLines_write_of_ne _ (by decide) (by decide) (by decide)
  unfold Controller.acknowledge
  split
  · exact (hprimary _).trans (hsecondary m)
  · exact hprimary m

end Machine

def Kernel.enabledLines (k : Kernel) : LineSet := k.machine.enabledLines

/-! ## Interrupted programs -/

namespace BusProgram

/-- Makes up to `n` accesses and answers the rest of the program. -/
def pause : BusProgram α → Nat → BusProgram (BusProgram α)
  | p, 0 => .done p
  | .done value, _ + 1 => .done (.done value)
  | .read address next, n + 1 => .read address fun b => (next b).pause n
  | .write address value next, n + 1 => .write address value (next.pause n)

theorem pause_bind (p : BusProgram α) (n : Nat) : (p.pause n).bind id = p := by
  induction p generalizing n with
  | done value => cases n <;> rfl
  | read address next ih =>
      cases n with
      | zero => rfl
      | succ n => rw [pause, bind, funext fun b => ih b n]
  | write address value next ih =>
      cases n with
      | zero => rfl
      | succ n => rw [pause, bind, ih n]

end BusProgram

namespace KernelM

variable {α β : Type} {k : Kernel}

/-- The program with `isr` run after its first `n` accesses. -/
def interrupted (p : BusProgram α) (n : Nat) (isr : KernelM Unit) : KernelM α := do
  let rest ← runBus (p.pause n)
  isr
  runBus rest

theorem runBus_bind (p : BusProgram α) (f : α → BusProgram β) (k : Kernel) :
    runBus (p.bind f) k = (runBus p >>= fun a => runBus (f a)) k := by
  have htrace (trace : Array Event) (es es' : List Event) :
      trace ++ (es ++ es') = trace ++ es ++ es' :=
    Array.toList_inj.mp (by simp)
  simp only [runBus, bind_apply, modifyGet_apply, Machine.run_bind, List.map_append, htrace]

/-- Nothing is changed by an interruption in which nothing is done. -/
theorem interrupted_nothing (p : BusProgram α) (n : Nat) (k : Kernel) :
    interrupted p n (pure ()) k = runBus p k := by
  calc interrupted p n (pure ()) k = (runBus (p.pause n) >>= fun rest => runBus rest) k := rfl
    _ = runBus ((p.pause n).bind id) k := (runBus_bind (p.pause n) id k).symm
    _ = runBus p k := by rw [p.pause_bind]

end KernelM

/-! ## The four accesses of an update -/

/-- Reads the enabled lines and writes what `f` makes of them. -/
def Controller.update (f : LineSet → LineSet) : BusProgram Unit := do
  let now ← enabled
  setEnabled (f now)

/-- The lines that are enabled after an update by `f` that is interrupted after `n` accesses for
an update by `g`. -/
def LineSet.interleave (f g : LineSet → LineSet) (s : LineSet) : Nat → LineSet
  | 0 => f (g s)
  | 1 => f (s.mix (g s))
  | 2 => f s
  | 3 => (g ((f s).mix s)).mix (f s)
  | _ + 4 => g (f s)

namespace Machine

variable {m : Machine} {f g : LineSet → LineSet}

theorem enabledLines_run_setEnabled (m : Machine) (s : LineSet) :
    (m.run (Controller.setEnabled s)).2.1.enabledLines = s := by
  change ((m.write Controller.primaryData s.primaryMask).write Controller.secondaryData
    s.secondaryMask).enabledLines = s
  rw [enabledLines_write_secondary, enabledLines_write_primary, LineSet.mix_mix, LineSet.mix_self]

/-- A machine `m'` takes over from `m` where the update is interrupted. -/
theorem enabledLines_interrupted (n : Nat) {m' : Machine}
    (h : m'.enabledLines = g (m.run ((Controller.update f).pause n)).2.1.enabledLines) :
    (m'.run (m.run ((Controller.update f).pause n)).1).2.1.enabledLines =
      m.enabledLines.interleave f g n := by
  match n with
  | 0 =>
      change (m'.run (Controller.setEnabled (f m'.enabledLines))).2.1.enabledLines = _
      rw [enabledLines_run_setEnabled, h]
      rfl
  | 1 =>
      have hread : LineSet.ofMasks (m.read Controller.primaryData)
          (m'.read Controller.secondaryData) = m.enabledLines.mix m'.enabledLines := by
        change _ = LineSet.ofMasks (LineSet.ofMasks _ _).primaryMask
          (LineSet.ofMasks _ _).secondaryMask
        rw [LineSet.primaryMask_ofMasks, LineSet.secondaryMask_ofMasks]
      change (m'.run (Controller.setEnabled (f (LineSet.ofMasks _ _)))).2.1.enabledLines = _
      rw [enabledLines_run_setEnabled, hread, h]
      rfl
  | 2 => exact enabledLines_run_setEnabled m' (f m.enabledLines)
  | 3 =>
      have hfirst : (m.run ((Controller.update f).pause 3)).2.1.enabledLines =
          (f m.enabledLines).mix m.enabledLines := m.enabledLines_write_primary _
      rw [hfirst] at h
      change (m'.write Controller.secondaryData (f m.enabledLines).secondaryMask).enabledLines = _
      rw [enabledLines_write_secondary, h]
      rfl
  | n + 4 =>
      have hall : (m.run ((Controller.update f).pause (n + 4))).2.1.enabledLines =
          f m.enabledLines := by
        rw [← m.enabledLines_run_setEnabled (f m.enabledLines)]
        cases n <;> rfl
      rw [hall] at h
      rw [LineSet.interleave, ← h]
      cases n <;> rfl

end Machine

/-! ## Calls -/

/-- A call that enables or disables one line, or the lines of a set. -/
inductive MaskCall where
  | single (line : UInt8) (enables : Bool)
  | group (lines : LineSet) (enables : Bool)
  deriving DecidableEq, Repr

namespace MaskCall

open KernelM

def program : MaskCall → KernelM Unit
  | .single line true => enableLine line
  | .single line false => disableLine line
  | .group lines true => runBus (Controller.enable lines)
  | .group lines false => runBus (Controller.disable lines)

def enables : MaskCall → Bool
  | .single _ enables | .group _ enables => enables

/-- The lines of the call, if it makes any access. -/
def lines? : MaskCall → Option LineSet
  | .single line _ => LineSet.single? line
  | .group lines _ => some lines

def affects : MaskCall → Nat → Bool
  | .single line _, i => decide (i = line.toNat)
  | .group lines _, i => lines.contains i

/-- What the call does to the enabled lines. -/
def effect (c : MaskCall) (s : LineSet) : LineSet :=
  match c.lines? with
  | some lines => if c.enables then s.union lines else s.diff lines
  | none => s

theorem effect_eq {c : MaskCall} {lines : LineSet} (h : c.lines? = some lines) :
    c.effect = fun s => if c.enables then s.union lines else s.diff lines := by
  funext s
  simp only [effect, h]

theorem contains_effect (c : MaskCall) (s : LineSet) {i : Nat} (hi : i < lineCount) :
    (c.effect s).contains i = if c.affects i then c.enables else s.contains i := by
  have hchange (enables : Bool) (lines : LineSet) :
      (if enables then s.union lines else s.diff lines).contains i =
        if lines.contains i then enables else s.contains i := by
    cases enables <;> cases hline : lines.contains i <;>
      simp [LineSet.contains_diff _ _ hi, hline]
  cases c with
  | group lines enables => exact hchange enables lines
  | single line enables =>
      by_cases hline : line.toNat < lineCount
      · have hlines : (single line enables).lines? = some ⟨1 <<< line.toUInt16⟩ := if_pos hline
        rw [effect_eq hlines, hchange, LineSet.contains_single hline hi]
        rfl
      · have hlines : (single line enables).lines? = none := if_neg hline
        have hother : (single line enables).affects i = false :=
          decide_eq_false fun h => hline (h ▸ hi)
        rw [hother, if_neg Bool.false_ne_true]
        simp only [effect, hlines]

/-- The call, with `isr` run after its first `n` accesses. -/
def interrupted (c : MaskCall) (n : Nat) (isr : KernelM Unit) : KernelM Unit :=
  match c with
  | .single line _ =>
      match LineSet.single? line with
      | some _ => do
          let _ ← handlerTableCopy
          KernelM.interrupted (Controller.update c.effect) n isr
      | none => return
  | .group _ _ => KernelM.interrupted (Controller.update c.effect) n isr

theorem interrupted_nothing (c : MaskCall) (n : Nat) (k : Kernel) :
    c.interrupted n (pure ()) k = c.program k := by
  cases c with
  | single line enables =>
      cases hlines : LineSet.single? line with
      | none =>
          simp only [interrupted, hlines]
          cases enables <;> simp only [program, enableLine, disableLine, hlines]
      | some lines =>
          have heffect := effect_eq (show (single line enables).lines? = some lines from hlines)
          simp only [interrupted, hlines, bind_apply, KernelM.interrupted_nothing, heffect]
          cases enables <;> simp only [program, enableLine, disableLine, hlines, bind_apply] <;> rfl
  | group lines enables =>
      rw [interrupted, KernelM.interrupted_nothing]
      cases enables <;> rfl

end MaskCall

/-! ## Interrupted calls -/

namespace KernelM

variable {α β : Type} {k : Kernel} {m : KernelM α} {f : α → KernelM β} {s t : LineSet}

/-- From `k` the program returns, and these lines are enabled then. -/
def Leaves (k : Kernel) (s : LineSet) (m : KernelM α) : Prop :=
  ∃ a k', m k = .ok a k' ∧ k'.Steady ∧ k'.enabledLines = s

/-- The program returns, and does `g` to the enabled lines. -/
def Updates (g : LineSet → LineSet) (m : KernelM α) : Prop :=
  ∀ k, k.Steady → Leaves k (g k.enabledLines) m

theorem Leaves.bind (hm : Leaves k s m)
    (hf : ∀ a k', m k = .ok a k' → k'.Steady → k'.enabledLines = s → Leaves k' t (f a)) :
    Leaves k t (m >>= f) := by
  obtain ⟨a, k', ha, hk', hlines⟩ := hm
  obtain ⟨b, k'', hb, hk'', hlines'⟩ := hf a k' ha hk' hlines
  exact ⟨b, k'', (bind_of_ok ha f).trans hb, hk'', hlines'⟩

theorem Leaves.get_bind {f : Kernel → KernelM β} (h : Leaves k s (f k)) :
    Leaves k s (get >>= f) :=
  h

theorem leaves_pure (hk : k.Steady) (a : α) : Leaves k k.enabledLines (pure a : KernelM α) :=
  ⟨a, k, rfl, hk, rfl⟩

theorem Ordinary.leaves (hm : Ordinary m) (hk : k.Steady)
    (hlines : (m.after k).enabledLines = s) : Leaves k s m := by
  obtain ⟨a, k', ha, hk'⟩ := hm k hk.installed
  rw [after, ha] at hlines
  exact ⟨a, k', ha, (hk'.masked hk).steady, hlines⟩

theorem Ordinary.leaves_of_keeps (hm : Ordinary m) (hkeeps : Keeps Kernel.enabledLines m)
    (hk : k.Steady) : Leaves k k.enabledLines m :=
  hm.leaves hk (hkeeps.view_after k)

theorem discreet_enabledLines : Discreet Kernel.enabledLines :=
  ⟨fun _ _ => rfl, fun _ _ => rfl, fun _ _ _ => rfl⟩

theorem leaves_handlerTableCopy (hk : k.Steady) : Leaves k k.enabledLines handlerTableCopy :=
  ordinary_handlerTableCopy.leaves_of_keeps discreet_enabledLines.keeps_handlerTableCopy hk

theorem discreet_handlerTable : Discreet Kernel.handlerTable :=
  ⟨fun _ _ => rfl, fun _ _ => rfl, fun _ _ _ => rfl⟩

theorem leaves_runBus (hk : k.Steady) (p : BusProgram α) :
    Leaves k (k.machine.run p).2.1.enabledLines (runBus p) :=
  (ordinary_runBus p).leaves hk rfl

theorem leaves_acknowledge (hk : k.Steady) (line : UInt8) :
    Leaves k k.enabledLines (runBus (Controller.acknowledge line)) := by
  have hbus := leaves_runBus hk (Controller.acknowledge line)
  rwa [Machine.enabledLines_run_acknowledge] at hbus

theorem enabledLines_after_yield (k : Kernel) :
    (yield.after k).enabledLines = k.enabledLines := by
  rcases discreet_enabledLines.view_after_yield (fun _ _ _ => rfl) k with
    hnone | ⟨_, switch, k₁, hk₁, hswitch⟩
  · exact hnone
  · rw [hswitch, view_after_switchTasks Kernel.enabledLines (fun _ _ => rfl) fun _ _ => rfl, ← hk₁]
    rfl

theorem leaves_yield (hk : k.Steady) : Leaves k k.enabledLines yield := by
  obtain ⟨k', hk', hmasked⟩ := Kernel.returns_of_obeys Conduct.masking_yield hk
  have hlines := enabledLines_after_yield k
  rw [after, hk'] at hlines
  exact ⟨(), k', hk', hmasked.steady, hlines⟩

theorem leaves_conclude (hk : k.Steady) {outcome : Outcome}
    (hfatal : ∀ fault, outcome ≠ .fatal fault) : Leaves k k.enabledLines (conclude outcome) := by
  have hcount : Keeps Kernel.enabledLines countTick := by
    refine Keeps.bind (keeps_modify fun _ => rfl) fun _ => ?_
    exact keeps_get.bind fun _ => keeps_modify fun _ => rfl
  cases outcome with
  | fatal fault => exact absurd rfl (hfatal fault)
  | ignored => exact leaves_pure hk ()
  | served line handled =>
      unfold conclude
      dsimp only
      split
      next =>
        refine (ordinary_countTick.leaves_of_keeps hcount hk).bind fun _ k₁ _ hk₁ hlines₁ => ?_
        rw [← hlines₁]
        refine Leaves.get_bind ?_
        split
        · exact leaves_yield hk₁
        · exact leaves_pure hk₁ ()
      next => exact leaves_pure hk ()

variable {run : Handlers} {line : UInt8} {id : HandlerId} {g : LineSet → LineSet}

/-- An interrupt does to the enabled lines what its handler does. -/
theorem leaves_dispatch (hk : k.Steady) (hid : k.handlerTable.handler? line = some id)
    (hrun : Updates g (run id line)) (frame : Option TrapFrame) :
    Leaves k (g k.enabledLines) (dispatch run (lineVectorBase + line) frame) := by
  have hline : line.toNat < lineCount := by
    by_contra hline
    rw [HandlerTable.handler?, dif_neg hline] at hid
    cases hid
  have hnot : ¬ lineVectorBase + line < k.handlerTable.controller.base :=
    hk.base ▸ Controller.not_lt_line hline
  have hnote : Keeps Kernel.enabledLines (note (.handler id line)) := keeps_modify fun _ => rfl
  have hroute : ∀ k₁ : Kernel, k₁.Steady → Leaves k₁ (g k₁.enabledLines)
      (route k.handlerTable run (lineVectorBase + line) frame) := by
    intro k₁ hk₁
    unfold route
    rw [if_neg hnot, Controller.lineOf?_line hk.base hline]
    dsimp only
    rw [hid]
    dsimp only
    refine ((ordinary_note rfl).leaves_of_keeps hnote hk₁).bind fun _ k₂ _ hk₂ hlines₂ => ?_
    rw [← hlines₂]
    refine (hrun k₂ hk₂).bind fun _ k₃ _ hk₃ hlines₃ => ?_
    rw [← hlines₃]
    refine (leaves_acknowledge hk₃ line).bind fun _ k₄ _ hk₄ hlines₄ => ?_
    rw [← hlines₄]
    exact leaves_pure hk₄ _
  obtain ⟨_, hcopy, _⟩ := discreet_enabledLines.returns_handlerTableCopy k
  refine Leaves.get_bind ?_
  rw [if_pos hk.installed]
  refine (leaves_handlerTableCopy hk).bind fun d k₁ hd hk₁ hlines₁ => ?_
  obtain ⟨rfl, -⟩ := EStateM.Result.ok.inj (hcopy.symm.trans hd)
  rw [← hlines₁]
  refine (hroute k₁ hk₁).bind fun outcome k₂ houtcome hk₂ hlines₂ => ?_
  rw [← hlines₂]
  have hfatal := Conduct.answers_route frame hnot _ _ _ houtcome
  refine (leaves_conclude hk₂ hfatal).bind fun _ k₃ _ hk₃ hlines₃ => ?_
  rw [← hlines₃]
  exact leaves_pure hk₃ _

theorem leaves_enterTrap (hk : k.Steady) (hid : k.handlerTable.handler? line = some id)
    (hrun : Updates g (run id line)) (frame : Option TrapFrame) :
    Leaves k (g k.enabledLines) (enterTrap run (lineVectorBase + line).toNat frame) := by
  unfold enterTrap
  rw [UInt8.ofNat_toNat]
  refine (leaves_dispatch hk hid hrun frame).bind fun _ k' _ hk' hlines => ?_
  rw [← hlines]
  exact leaves_pure hk' ()

/-- The update and the interrupt come to what their accesses come to. -/
theorem leaves_interrupted {f : LineSet → LineSet} {isr : KernelM Unit} (hk : k.Steady) (n : Nat)
    (hisr : ∀ k', k'.Steady → k'.handlerTable = k.handlerTable →
      Leaves k' (g k'.enabledLines) isr) :
    Leaves k (k.enabledLines.interleave f g n) (interrupted (Controller.update f) n isr) := by
  refine (leaves_runBus hk _).bind fun rest k₁ hrest hk₁ hlines₁ => ?_
  obtain ⟨rfl, rfl⟩ := EStateM.Result.ok.inj hrest
  refine (hisr _ hk₁ rfl).bind fun _ k₂ _ hk₂ hlines₂ => ?_
  rw [Kernel.enabledLines, ← Machine.enabledLines_interrupted n hlines₂]
  exact leaves_runBus hk₂ _

end KernelM

namespace MaskCall

open KernelM

variable {k : Kernel} {task handler : MaskCall} {isr : KernelM Unit} {n : Nat}
  {before after : LineSet}

/-- The first number of accesses of a call with which it has read the mask of a line. -/
def readAt (line : Nat) : Nat := if line < 8 then 1 else 2

/-- The first number of accesses of a call with which it has written the mask of a line. -/
def writtenAt (line : Nat) : Nat := if line < 8 then 3 else 4

def makesAccesses (c : MaskCall) : Bool := c.lines?.isSome

/-- The enabled lines before and after a call of a task, which a call of a handler has interrupted
after `n` accesses. -/
structure Interleaved (task handler : MaskCall) (n : Nat) (before after : LineSet) : Prop where
  task_line : ∀ line < lineCount, task.affects line = true → handler.affects line = false →
    after.contains line = task.enables
  handler_line : ∀ line < lineCount, task.affects line = false → handler.affects line = true →
    n < readAt line ∨ writtenAt line ≤ n → after.contains line = handler.enables
  lost_line : ∀ line < lineCount, task.affects line = false → handler.affects line = true →
    readAt line ≤ n → n < writtenAt line → after.contains line = before.contains line
  shared_line : ∀ line < lineCount, task.affects line = true → handler.affects line = true →
    after.contains line = if n < writtenAt line then task.enables else handler.enables
  other_line : ∀ line < lineCount, task.affects line = false → handler.affects line = false →
    after.contains line = before.contains line

theorem contains_interleave (task handler : MaskCall) (n : Nat) (s : LineSet) {line : Nat}
    (hline : line < lineCount) :
    (s.interleave task.effect handler.effect n).contains line =
      if n < readAt line then (task.effect (handler.effect s)).contains line
      else if n < writtenAt line then (task.effect s).contains line
      else (handler.effect (task.effect s)).contains line := by
  unfold readAt writtenAt
  match n with
  | 0 =>
      rw [if_pos (by split <;> omega)]
      rfl
  | 1 | 2 | 3 =>
      by_cases hfirst : line < 8 <;>
        simp [LineSet.interleave, LineSet.contains_mix _ _ hline, contains_effect _ _ hline, hfirst]
  | n + 4 =>
      rw [if_neg (by split <;> omega), if_neg (by split <;> omega)]
      rfl

theorem readAt_lt_writtenAt (line : Nat) : readAt line < writtenAt line := by
  unfold readAt writtenAt
  split <;> decide

theorem interleaved_interleave (task handler : MaskCall) (n : Nat) (s : LineSet) :
    Interleaved task handler n s (s.interleave task.effect handler.effect n) := by
  constructor
  all_goals
    intro line hline htask hhandler
    have horder := readAt_lt_writtenAt line
    simp only [contains_interleave _ _ _ _ hline, contains_effect _ _ hline, htask, hhandler]
  case task_line => simp
  case other_line => simp
  case handler_line =>
    rintro (hread | hwritten)
    · simp [hread]
    · simp [Nat.not_lt.mpr hwritten, Nat.not_lt.mpr (Nat.le_trans (Nat.le_of_lt horder) hwritten)]
  case lost_line =>
    intro hread hwritten
    simp [hwritten, Nat.not_lt.mpr hread]
  case shared_line =>
    by_cases hread : n < readAt line
    · simp [hread, Nat.lt_trans hread horder]
    · simp [hread]

theorem leaves_interrupted (hk : k.Steady) (htask : task.makesAccesses = true) (n : Nat)
    {g : LineSet → LineSet} (hisr : ∀ k', k'.Steady → k'.handlerTable = k.handlerTable →
      Leaves k' (g k'.enabledLines) isr) :
    Leaves k (k.enabledLines.interleave task.effect g n) (task.interrupted n isr) := by
  cases task with
  | group lines enables => exact KernelM.leaves_interrupted hk n hisr
  | single line enables =>
      obtain ⟨lines, hlines⟩ := Option.isSome_iff_exists.mp htask
      have hsingle : LineSet.single? line = some lines := hlines
      rw [interrupted, hsingle]
      dsimp only
      have htable := discreet_handlerTable.keeps_handlerTableCopy.view_after k
      refine (leaves_handlerTableCopy hk).bind fun _ k₁ hcopy hk₁ hlines₁ => ?_
      rw [after, hcopy] at htable
      rw [← hlines₁]
      exact KernelM.leaves_interrupted hk₁ n fun k' hk' h => hisr k' hk' (h.trans htable)

theorem updates_program (c : MaskCall) : Updates c.effect c.program := by
  intro k hk
  by_cases haccesses : c.makesAccesses = true
  · have hnothing : ∀ k' : Kernel, k'.Steady → k'.handlerTable = k.handlerTable →
        Leaves k' (id k'.enabledLines) (pure ()) := fun k' hk' _ => leaves_pure hk' ()
    have hcall := leaves_interrupted hk haccesses 0 hnothing
    rw [Leaves, interrupted_nothing] at hcall
    exact hcall
  · cases c with
    | group lines enables => exact absurd rfl haccesses
    | single line enables =>
        have hlines : LineSet.single? line = none := Option.not_isSome_iff_eq_none.mp haccesses
        have heffect : (single line enables).effect k.enabledLines = k.enabledLines := by
          simp only [effect, lines?, hlines]
        rw [heffect]
        cases enables <;> simp only [program, enableLine, disableLine, hlines] <;>
          exact leaves_pure hk ()

/-- A call of a task is interrupted by a line whose handler does what a call does. -/
theorem run_interleaved {run : Handlers} {line : UInt8} {id : HandlerId} (hk : k.Steady)
    (htask : task.makesAccesses = true) (hid : k.handlerTable.handler? line = some id)
    (hrun : Updates handler.effect (run id line)) (n : Nat) (frame : Option TrapFrame) :
    ∃ k', task.interrupted n (enterTrap run (lineVectorBase + line).toNat frame) k = .ok () k' ∧
      k'.Steady ∧ Interleaved task handler n k.enabledLines k'.enabledLines := by
  have htrap : ∀ k' : Kernel, k'.Steady → k'.handlerTable = k.handlerTable →
      Leaves k' (handler.effect k'.enabledLines)
        (enterTrap run (lineVectorBase + line).toNat frame) :=
    fun k' hk' htable => leaves_enterTrap hk' (htable ▸ hid) hrun frame
  obtain ⟨_, k', hk', hsteady, hlines⟩ := leaves_interrupted hk htask n htrap
  exact ⟨k', hk', hsteady, hlines ▸ interleaved_interleave task handler n k.enabledLines⟩

/-- A kernel in which line 1 has handler 7. -/
def attached : Kernel := (attachHandler 1 7).after Kernel.booted

theorem steady_attached : attached.Steady :=
  ⟨⟨by decide +kernel, by decide +kernel⟩, by decide +kernel⟩

theorem handler?_attached : attached.handlerTable.handler? 1 = some 7 := by decide +kernel

/-- Handlers that enable line 5. -/
def enabling : Handlers := fun _ _ => (single 5 true).program

theorem run_interleaved_enabling :
    attached.Steady ∧ (single 3 true).makesAccesses = true ∧
      attached.handlerTable.handler? 1 = some 7 ∧
      Updates (single 5 true).effect (enabling 7 1) ∧
      ∃ k', (single 3 true).interrupted 2 (enterTrap enabling 0x21 none) attached = .ok () k' ∧
        k'.Steady ∧
          Interleaved (single 3 true) (single 5 true) 2 attached.enabledLines k'.enabledLines :=
  ⟨steady_attached, rfl, handler?_attached, updates_program _,
    run_interleaved steady_attached rfl handler?_attached (updates_program _) 2 none⟩

/-- The task has read both masks when the line comes, and what the handler does is lost. -/
theorem enabling_lost :
    attached.machine.interrupts = true ∧
      ∃ k', (single 3 true).interrupted 2 (enterTrap enabling 0x21 none) attached = .ok () k' ∧
        (single 5 true).affects 5 = true ∧ (single 3 true).affects 5 = false ∧
          k'.enabledLines.contains 5 = false := by
  have htrap : ∀ k' : Kernel, k'.Steady → k'.handlerTable = attached.handlerTable →
      Leaves k' ((single 5 true).effect k'.enabledLines) (enterTrap enabling 0x21 none) := by
    intro k' hk' htable
    have hid : k'.handlerTable.handler? 1 = some 7 := by rw [htable, handler?_attached]
    exact leaves_enterTrap hk' hid (updates_program _) none
  have htask : (single 3 true).makesAccesses = true := rfl
  obtain ⟨_, k', hk', _, hlines⟩ := leaves_interrupted steady_attached htask 2 htrap
  refine ⟨by decide +kernel, k', hk', rfl, rfl, ?_⟩
  rw [hlines]
  decide +kernel

end MaskCall

end Kernel16
