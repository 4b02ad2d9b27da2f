import Kernel16.Proofs.Kernel.LineControl

/-!
# Setting up the traps

Whatever the firmware or an earlier kernel left in the vector table and in the registers of the
controllers, setting up the traps ends in one and the same way: the vectors that the kernel serves
are at their entry stubs, and exactly the requested lines are enabled, with the cascade line if a
line of the second controller needs it.  The handlers stay.

Nothing is written with interrupts enabled.  Each controller gets its words in order, then a mask
that disables all of its lines, and only at the end the mask that enables some of them.
-/

namespace Kernel16

namespace LineSet

variable {line : Nat}

theorem contains_cascade (hline : line < lineCount) : cascade.contains line = decide (line = 2) :=
  (by decide : ∀ i < 16, cascade.contains i = decide (i = 2)) line hline

theorem second_eq_zero_iff (s : LineSet) :
    s.bits &&& 0xFF00 = 0 ↔
      ∀ line, 8 ≤ line → line < lineCount → s.contains line = false := by
  have hsecond : ∀ i < 16, (0xFF00#16).getLsbD i = decide (8 ≤ i) := by decide
  have hbits : ∀ i < 16, (s.bits &&& 0xFF00).toBitVec.getLsbD i =
      (s.contains i && decide (8 ≤ i)) := by
    intro i hi
    simp only [contains, ← hsecond i hi]
    simp
  constructor
  · intro h line hfirst hline
    have hbit := hbits line hline
    rw [h] at hbit
    simpa [hfirst] using hbit.symm
  · intro h
    refine UInt16.toBitVec_inj.mp (BitVec.eq_of_getLsbD_eq fun i hi => ?_)
    rw [hbits i hi]
    by_cases hfirst : 8 ≤ i
    · rw [h i hfirst hi]
      simp
    · simp [hfirst]

theorem contains_withCascade_iff (s : LineSet) (hline : line < lineCount) :
    s.withCascade.contains line = true ↔ s.contains line = true ∨
      line = 2 ∧ ∃ other, 8 ≤ other ∧ other < lineCount ∧ s.contains other = true := by
  unfold withCascade
  split
  next h =>
    have hnone := (second_eq_zero_iff s).mp h
    refine ⟨Or.inl, fun h => h.elim id ?_⟩
    rintro ⟨_, other, hfirst, hlast, hother⟩
    rw [hnone other hfirst hlast] at hother
    cases hother
  next h =>
    have hsome : ∃ other, 8 ≤ other ∧ other < lineCount ∧ s.contains other = true := by
      by_contra hnone
      refine h ((second_eq_zero_iff s).mpr fun other hfirst hlast => ?_)
      exact Bool.eq_false_iff.mpr fun hother => hnone ⟨other, hfirst, hlast, hother⟩
    rw [contains_union, contains_cascade hline, Bool.or_eq_true, decide_eq_true_iff]
    exact or_congr_right ⟨fun h => ⟨h, hsome⟩, fun h => h.1⟩

end LineSet

/-! ## The machine -/

namespace Machine

variable {m m' m'' : Machine} {v : UInt8}

/-- From the first machine to the second interrupts are masked throughout, and the processor is
not touched. -/
structure Shielded (m m' : Machine) : Prop where
  interrupts : m'.interrupts = false
  exposedWrites : m'.exposedWrites = m.exposedWrites
  settings : m'.settings = m.settings
  halts : m'.halts = m.halts
  switchEvents : m'.switchEvents = m.switchEvents

theorem Shielded.refl (hm : m.interrupts = false) : m.Shielded m := ⟨hm, rfl, rfl, rfl, rfl⟩

theorem Shielded.trans (h : m.Shielded m') (h' : m'.Shielded m'') : m.Shielded m'' where
  interrupts := h'.interrupts
  exposedWrites := h'.exposedWrites.trans h.exposedWrites
  settings := h'.settings.trans h.settings
  halts := h'.halts.trans h.halts
  switchEvents := h'.switchEvents.trans h.switchEvents

theorem countWrite_of_masked (hm : m.interrupts = false) : m.countWrite = m :=
  if_neg (hm ▸ Bool.false_ne_true)

theorem shielded_write (hm : m.interrupts = false) (address : UInt16) (value : UInt8) :
    m.Shielded (m.write address value) := by
  have hlatch : m.Shielded (m.setLatch address value) := by
    unfold setLatch
    split <;> exact ⟨hm, rfl, rfl, rfl, rfl⟩
  unfold write
  rw [countWrite_of_masked hlatch.interrupts]
  exact ⟨hlatch.interrupts, hlatch.exposedWrites, hlatch.settings, hlatch.halts,
    hlatch.switchEvents⟩

theorem shielded_run (hm : m.interrupts = false) (p : BusProgram α) :
    m.Shielded (m.run p).2.1 := by
  induction p generalizing m with
  | done value => exact .refl hm
  | read address next ih => exact ih _ hm
  | write address value next ih =>
      have hwrite := shielded_write hm address value
      exact hwrite.trans (ih hwrite.interrupts)

theorem vectors_run (m : Machine) (p : BusProgram α) : (m.run p).2.1.vectors = m.vectors := by
  have hwrite (m : Machine) (address : UInt16) (value : UInt8) :
      (m.write address value).vectors = m.vectors := by
    simp only [write, countWrite, setLatch]
    split <;> split <;> rfl
  induction p generalizing m with
  | done value => rfl
  | read address next ih => exact ih _ m
  | write address value next ih => exact (ih _).trans (hwrite m address value)

theorem vector_run (m : Machine) (p : BusProgram α) (v : UInt8) :
    (m.run p).2.1.vector v = m.vector v := by
  rw [vector, vectors_run, vector]

theorem enabledLines_eq_of_latch (h : m'.latch = m.latch) : m'.enabledLines = m.enabledLines := by
  change LineSet.ofMasks (m'.read _) (m'.read _) = LineSet.ofMasks (m.read _) (m.read _)
  simp only [read, h]

/-! ### Entry stubs -/

/-- Points a vector at its entry stub, if there is one. -/
def pointAtStub (m : Machine) (v : UInt8) : Machine :=
  match m.stub? v with
  | some target => m.setVector v target
  | none => m

theorem shielded_pointAtStub (hm : m.interrupts = false) (v : UInt8) :
    m.Shielded (m.pointAtStub v) := by
  unfold pointAtStub
  split
  · unfold setVector
    rw [countWrite_of_masked hm]
    exact ⟨hm, rfl, rfl, rfl, rfl⟩
  · exact .refl hm

theorem stub?_eq_of_settings (h : m'.settings = m.settings) (v : UInt8) : m'.stub? v = m.stub? v := by
  rw [stub?, h, stub?]

theorem vector_pointAtStub (m : Machine) (v other : UInt8) :
    (m.pointAtStub v).vector other =
      if other = v then (m.stub? v).getD (m.vector v) else m.vector other := by
  unfold pointAtStub
  cases hstub : m.stub? v with
  | none =>
      dsimp only [Option.getD]
      split
      next h => rw [h]
      next => rfl
  | some target => exact m.vector_setVector v target other

def pointAtStubs (m : Machine) (vectors : List UInt8) : Machine :=
  vectors.foldl pointAtStub m

theorem shielded_pointAtStubs (hm : m.interrupts = false) (vectors : List UInt8) :
    m.Shielded (m.pointAtStubs vectors) := by
  induction vectors generalizing m with
  | nil => exact .refl hm
  | cons v rest ih =>
      have hfirst := shielded_pointAtStub hm v
      exact hfirst.trans (ih hfirst.interrupts)

theorem latch_pointAtStubs (m : Machine) (vectors : List UInt8) :
    (m.pointAtStubs vectors).latch = m.latch := by
  have hpoint (m : Machine) (v : UInt8) : (m.pointAtStub v).latch = m.latch := by
    unfold pointAtStub setVector countWrite
    split
    · split <;> rfl
    · rfl
  induction vectors generalizing m with
  | nil => rfl
  | cons v rest ih => exact (ih _).trans (hpoint m v)

theorem vector_pointAtStubs (m : Machine) (vectors : List UInt8) (other : UInt8) :
    (m.pointAtStubs vectors).vector other =
      if other ∈ vectors then (m.stub? other).getD (m.vector other) else m.vector other := by
  induction vectors generalizing m with
  | nil => rfl
  | cons v rest ih =>
      have hstub : (m.pointAtStub v).stub? other = m.stub? other := by
        refine stub?_eq_of_settings ?_ other
        unfold pointAtStub
        split
        · exact m.settings_setVector _ _
        · rfl
      rw [pointAtStubs, List.foldl_cons, ← pointAtStubs, ih, hstub, vector_pointAtStub]
      by_cases hv : other = v
      · subst hv
        cases m.stub? other <;> simp
      · simp [hv]

end Machine

theorem isServed_iff {v : UInt8} :
    isServed v = true ↔ v.toNat < 8 ∨ 0x20 ≤ v.toNat ∧ v.toNat ≤ 0x2F := by
  rw [isServed, Bool.or_eq_true, Bool.and_eq_true, decide_eq_true_iff, decide_eq_true_iff,
    decide_eq_true_iff, UInt8.le_iff_toNat_le]
  exact or_congr_right (and_congr_right fun _ => Nat.lt_succ_iff)

theorem mem_servedVectors {v : UInt8} (hv : isServed v = true) : v ∈ servedVectors := by
  refine List.mem_append.mpr ((isServed_iff.mp hv).imp (fun hexception => ?_) fun hline => ?_)
  · exact List.mem_map.mpr ⟨v.toNat, List.mem_range.mpr hexception, UInt8.ofNat_toNat⟩
  · have hlow : ¬ v < lineVectorBase := Nat.not_lt.mpr hline.1
    have hhigh : ¬ lineVectorBase.toNat + lineCount ≤ v.toNat :=
      Nat.not_le.mpr (Nat.lt_succ_of_le hline.2)
    obtain ⟨line, hlt, rfl⟩ := Controller.exists_line hlow hhigh
    exact List.mem_map.mpr ⟨line.toNat, List.mem_range.mpr hlt, by rw [UInt8.ofNat_toNat]⟩

namespace Machine

variable {m : Machine} {v : UInt8}

theorem stub?_eq_some (hserved : v.toNat < 8 ∨ 0x20 ≤ v.toNat ∧ v.toNat ≤ 0x2F)
    (hstub : v ∉ m.settings.missing) : m.stub? v = some (stubEntry v) := by
  rw [stub?, isServed_iff.mpr hserved, if_pos]
  simpa using hstub

theorem stub?_eq_none
    (h : 8 ≤ v.toNat ∧ v.toNat < 0x20 ∨ 0x2F < v.toNat ∨ v ∈ m.settings.missing) :
    m.stub? v = none := by
  rw [stub?, if_neg]
  intro hboth
  obtain ⟨hserved, hstub⟩ := Bool.and_eq_true_iff.mp hboth
  have hserved := isServed_iff.mp hserved
  have hstub : v ∉ m.settings.missing := by simpa using hstub
  rcases h with h | h | h
  · omega
  · omega
  · exact hstub h

theorem vector_pointAtStubs_servedVectors (m : Machine) (v : UInt8) :
    (m.pointAtStubs servedVectors).vector v = (m.stub? v).getD (m.vector v) := by
  rw [vector_pointAtStubs]
  split
  next => rfl
  next hv =>
    have hnone : m.stub? v = none := by
      have hunserved : isServed v = false := Bool.eq_false_iff.mpr fun h => hv (mem_servedVectors h)
      rw [stub?, hunserved, Bool.false_and]
      rfl
    rw [hnone]
    rfl

end Machine

/-! ## The words for the controllers -/

namespace BusProgram

theorem outputs_bind (first second : List (UInt16 × UInt8)) :
    (outputs first).bind (fun _ => outputs second) = outputs (first ++ second) := by
  induction first with
  | nil => rfl
  | cons w rest ih => exact congrArg (BusProgram.write w.1 w.2) ih

end BusProgram

/-- The address and the byte of a write. -/
def BusAccess.write? : BusAccess → Option (UInt16 × UInt8)
  | .write address value => some (address, value)
  | .read _ _ => none

namespace Controller

/-- Everything that is written to set the controllers up. -/
def setUpWrites (c : Controller) : List (UInt16 × UInt8) :=
  (c.initializationWords.flatMap fun word => [word, (delay, 0)]) ++
    [(primaryData, 0xFF), (secondaryData, 0xFF)]

theorem setUp_eq (c : Controller) : c.setUp = .outputs c.setUpWrites :=
  BusProgram.outputs_bind _ _

theorem writes_setUp (c : Controller) (m : Machine) :
    (m.run c.setUp).2.2.filterMap BusAccess.write? = c.setUpWrites := by
  rw [setUp_eq, KernelM.accesses_outputs, List.filterMap_map]
  exact List.filterMap_some

theorem writes_enable (lines : LineSet) (m : Machine) :
    (m.run (enable lines)).2.2.filterMap BusAccess.write? =
      [(primaryData, (m.run (enable lines)).2.1.enabledLines.primaryMask),
        (secondaryData, (m.run (enable lines)).2.1.enabledLines.secondaryMask)] := by
  have hlines : (m.run (enable lines)).2.1.enabledLines = m.enabledLines.union lines :=
    m.enabledLines_run_setEnabled (m.enabledLines.union lines)
  rw [hlines]
  rfl

end Controller

/-! ## The set-up -/

namespace Machine

/-- The machine with all lines disabled and the vectors in place. -/
def prepared (m : Machine) (c : Controller) : Machine :=
  (m.run c.setUp).2.1.pointAtStubs servedVectors

/-- The machine with these lines enabled, before interrupts are. -/
def opened (m : Machine) (c : Controller) (lines : LineSet) : Machine :=
  ((m.prepared c).run (Controller.enable lines)).2.1

variable {m : Machine}

theorem shielded_prepared (hm : m.interrupts = false) (c : Controller) :
    m.Shielded (m.prepared c) :=
  (shielded_run hm c.setUp).trans
    (shielded_pointAtStubs (shielded_run hm c.setUp).interrupts servedVectors)

theorem shielded_opened (hm : m.interrupts = false) (c : Controller) (lines : LineSet) :
    m.Shielded (m.opened c lines) :=
  (shielded_prepared hm c).trans (shielded_run (shielded_prepared hm c).interrupts _)

theorem vector_opened (m : Machine) (c : Controller) (lines : LineSet) (v : UInt8) :
    (m.opened c lines).vector v = (m.stub? v).getD (m.vector v) := by
  rw [opened, vector_run, prepared, vector_pointAtStubs_servedVectors, vector_run,
    stub?_eq_of_settings (m.settings_run c.setUp)]

theorem enabledLines_opened (m : Machine) (c : Controller) (lines : LineSet) :
    (m.opened c lines).enabledLines = LineSet.empty.union lines := by
  have hprepared : (m.prepared c).enabledLines = .empty := by
    rw [← m.enabledLines_run_setUp c]
    exact enabledLines_eq_of_latch (latch_pointAtStubs _ _)
  rw [← hprepared]
  exact enabledLines_run_setEnabled _ ((m.prepared c).enabledLines.union lines)

end Machine

def Event.busWrite? : Event → Option (UInt16 × UInt8)
  | .bus a => a.write?
  | _ => none

/-- What the set-up of the traps works on, and the switches, which it does not make. -/
structure Rig where
  machine : Machine
  writes : List (UInt16 × UInt8)
  switches : List Event
  handlerTable : HandlerTable
  ticks : UInt32
  installed : Bool

namespace Kernel

def busWrites (k : Kernel) : List (UInt16 × UInt8) := k.trace.toList.filterMap Event.busWrite?

def switches (k : Kernel) : List Event := k.trace.toList.filter Event.isSwitch

def rig (k : Kernel) : Rig where
  machine := k.machine
  writes := k.busWrites
  switches := k.switches
  handlerTable := k.handlerTable
  ticks := k.ticks
  installed := k.installed

end Kernel

namespace Rig

variable {α : Type} (r : Rig) (lines : LineSet)

def setInterrupts (enabled : Bool) : Rig :=
  { r with machine := { r.machine with interrupts := enabled } }

theorem setInterrupts_of_eq {enabled : Bool} (h : r.machine.interrupts = enabled) :
    r.setInterrupts enabled = r := by
  rw [setInterrupts, ← h]

def run (p : BusProgram α) : Rig :=
  { r with
    machine := (r.machine.run p).2.1
    writes := r.writes ++ (r.machine.run p).2.2.filterMap BusAccess.write? }

def pointAtStub (v : UInt8) : Rig := { r with machine := r.machine.pointAtStub v }

def pointAtStubs (vectors : List UInt8) : Rig := vectors.foldl pointAtStub r

theorem pointAtStubs_eq (vectors : List UInt8) :
    r.pointAtStubs vectors = { r with machine := r.machine.pointAtStubs vectors } := by
  induction vectors generalizing r with
  | nil => rfl
  | cons v rest ih => exact ih _

theorem writes_run_setUp (c : Controller) :
    (r.run c.setUp).writes = r.writes ++ c.setUpWrites :=
  congrArg (r.writes ++ ·) (c.writes_setUp r.machine)

theorem writes_run_enable : (r.run (Controller.enable lines)).writes = r.writes ++
    [(Controller.primaryData,
        (r.run (Controller.enable lines)).machine.enabledLines.primaryMask),
      (Controller.secondaryData,
        (r.run (Controller.enable lines)).machine.enabledLines.secondaryMask)] :=
  congrArg (r.writes ++ ·) (Controller.writes_enable lines r.machine)

/-- The rig with all lines disabled and the vectors in place. -/
def prepared : Rig :=
  ((r.setInterrupts false).run r.handlerTable.controller.setUp).pointAtStubs servedVectors

/-- The rig when everything is in place and interrupts can be enabled. -/
def withTraps : Rig :=
  { r.prepared.run (Controller.enable lines.withCascade) with ticks := 0 }

theorem writes_prepared : r.prepared.writes = r.writes ++ r.handlerTable.controller.setUpWrites := by
  rw [prepared, pointAtStubs_eq]
  exact (r.setInterrupts false).writes_run_setUp r.handlerTable.controller

theorem machine_prepared : r.prepared.machine =
    (r.setInterrupts false).machine.prepared r.handlerTable.controller := by
  rw [prepared, pointAtStubs_eq, run, Machine.prepared]

theorem machine_withTraps : (r.withTraps lines).machine =
    (r.setInterrupts false).machine.opened r.handlerTable.controller lines.withCascade := by
  rw [Machine.opened, ← machine_prepared, withTraps, run]

theorem switches_withTraps : (r.withTraps lines).switches = r.switches := by
  rw [withTraps, prepared, pointAtStubs_eq, run, run, setInterrupts]

theorem switchEvents_withTraps :
    (r.withTraps lines).machine.switchEvents = r.machine.switchEvents := by
  rw [machine_withTraps]
  exact (Machine.shielded_opened rfl _ _).switchEvents

theorem writes_withTraps : (r.withTraps lines).writes =
    r.writes ++ r.handlerTable.controller.setUpWrites ++
      [(Controller.primaryData, (r.withTraps lines).machine.enabledLines.primaryMask),
        (Controller.secondaryData, (r.withTraps lines).machine.enabledLines.secondaryMask)] := by
  rw [← writes_prepared]
  exact r.prepared.writes_run_enable lines.withCascade

end Rig

namespace KernelM

variable {α : Type} {k : Kernel}

theorem keeps_rig_logMessage (level : Log.Level) (target message : String) :
    Keeps Kernel.rig (logMessage level target message) :=
  keeps_modify fun _ => rfl

theorem rig_push (k : Kernel) {e : Event} (hwrite : e.busWrite? = none)
    (hswitch : e.isSwitch = false) : Kernel.rig { k with trace := k.trace.push e } = k.rig := by
  simp [Kernel.rig, Kernel.busWrites, Kernel.switches, hwrite, hswitch]

theorem rig_locked (k : Kernel) (resource : Resource) : (k.locked resource).rig =
    if k.installed then k.rig.setInterrupts false else k.rig := by
  unfold Kernel.locked
  rw [rig_push _ rfl rfl]
  split <;> rfl

theorem rig_unlocked (k : Kernel) (before : Bool) : (k.unlocked before).rig =
    if before && k.installed then k.rig.setInterrupts true else k.rig := by
  unfold Kernel.unlocked
  split <;> rfl

/-- A lock puts the interrupt flag back as it was. -/
theorem returns_rig_withLock {m : KernelM α} {resource : Resource} {a : α}
    (hm : Returns Kernel.rig m (k.locked resource) a (k.locked resource).rig) :
    Returns Kernel.rig (withLock resource m) k a k.rig := by
  obtain ⟨k', hk', hrig⟩ := hm
  refine ⟨_, withLock_of_ok hk', ?_⟩
  rw [rig_locked] at hrig
  have hinstalled : k'.installed = k.installed := by
    have hsame := congrArg Rig.installed hrig
    rw [apply_ite Rig.installed] at hsame
    exact hsame.trans (ite_self _)
  rw [rig_unlocked, hinstalled, hrig, Kernel.flagAtLock]
  cases hk : k.installed with
  | false => rfl
  | true =>
      cases hflag : k.machine.interrupts with
      | false => exact k.rig.setInterrupts_of_eq hflag
      | true => exact k.rig.setInterrupts_of_eq hflag

theorem returns_rig_handlerTableCopy (k : Kernel) :
    Returns Kernel.rig handlerTableCopy k k.handlerTable k.rig := by
  rw [← k.handlerTable_locked .handlers]
  exact returns_rig_withLock ⟨_, rfl, rfl⟩

theorem returns_rig_runBus (p : BusProgram α) (k : Kernel) :
    Returns Kernel.rig (runBus p) k (k.machine.run p).1 (k.rig.run p) := by
  refine ⟨_, modifyGet_apply _ k, ?_⟩
  have hwrites : ((k.machine.run p).2.2.map Event.bus).filterMap Event.busWrite? =
      (k.machine.run p).2.2.filterMap BusAccess.write? := by
    rw [List.filterMap_map]
    rfl
  have hswitches : ((k.machine.run p).2.2.map Event.bus).filter Event.isSwitch = [] := by
    rw [List.filter_map]
    simp [Event.isSwitch]
  simp [Kernel.rig, Kernel.busWrites, Kernel.switches, Rig.run, hwrites, hswitches]

theorem returns_rig_setVector (v : UInt8) (target : FarPointer) (k : Kernel) :
    Returns Kernel.rig (setVector v target) k ()
      { k.rig with machine := k.machine.setVector v target } := by
  refine ⟨_, bind_of_ok (modify_apply _ k) _, ?_⟩
  exact rig_push _ rfl rfl

section Answers

variable {β σ : Type} {view : Kernel → σ}

/-- The answer of the first program may be any. -/
theorem exists_returns_bind {m : KernelM α} {f : α → KernelM β} {v w : σ}
    (hm : ∃ a, Returns view m k a v)
    (hf : ∀ a k', view k' = v → ∃ b, Returns view (f a) k' b w) :
    ∃ b, Returns view (m >>= f) k b w := by
  obtain ⟨a, k₁, hk₁, hview₁⟩ := hm
  obtain ⟨b, k₂, hk₂, hview₂⟩ := hf a k₁ hview₁
  exact ⟨b, k₂, (bind_of_ok hk₁ f).trans hk₂, hview₂⟩

theorem returns_foldlM {f : β → α → KernelM β} {g : σ → α → σ}
    (hf : ∀ b a k, ∃ b', Returns view (f b a) k b' (g (view k) a)) (l : List α) (b : β)
    (k : Kernel) : ∃ b', Returns view (l.foldlM f b) k b' (l.foldl g (view k)) := by
  induction l generalizing b k with
  | nil => exact ⟨b, returns_pure b k⟩
  | cons a rest ih =>
      rw [List.foldlM_cons, List.foldl_cons]
      refine exists_returns_bind (hf b a k) fun b₁ k₁ hk₁ => ?_
      rw [← hk₁]
      exact ih b₁ k₁

end Answers

theorem returns_rig_installStubs (k : Kernel) :
    ∃ n, Returns Kernel.rig installStubs k n (k.rig.pointAtStubs servedVectors) := by
  refine exists_returns_bind
    (returns_foldlM (g := Rig.pointAtStub) (fun n v k => ?install) servedVectors 0 k)
    fun n k₁ hk₁ => ?report
  case install =>
    rw [Rig.pointAtStub, Machine.pointAtStub]
    cases hstub : k.rig.machine.stub? v with
    | some target =>
        refine ⟨n + 1, Returns.get_bind ?_⟩
        rw [show k.machine.stub? v = some target from hstub]
        exact (returns_rig_setVector v target k).bind_pure _
    | none =>
        refine ⟨n, Returns.get_bind ?_⟩
        rw [show k.machine.stub? v = none from hstub]
        exact ((keeps_rig_logMessage _ _ _).returns k).bind_pure _
  case report =>
    rw [Rig.pointAtStubs, ← hk₁]
    exact ⟨n, ((keeps_rig_logMessage _ _ _).returns k₁).bind_pure _⟩

theorem returns_rig_initTraps (lines : LineSet) (k : Kernel) :
    Returns Kernel.rig (initTraps lines) k () ((k.rig.withTraps lines).setInterrupts true) := by
  refine Returns.bind (v := k.rig.setInterrupts false) ⟨_, setInterrupts_apply false k, rfl⟩
    fun k₁ hk₁ => ?_
  have htable : k₁.handlerTable = k.handlerTable := congrArg Rig.handlerTable hk₁
  refine (returns_rig_handlerTableCopy k₁).bind fun k₂ hk₂ => ?_
  refine (returns_rig_runBus _ k₂).bind fun k₃ hk₃ => ?_
  obtain ⟨n, hstubs⟩ := returns_rig_installStubs k₃
  refine hstubs.bind fun k₄ hk₄ => ?_
  refine (returns_rig_runBus _ k₄).bind fun k₅ hk₅ => ?_
  refine Returns.bind (v := { k₅.rig with ticks := 0 }) ⟨_, modify_apply _ k₅, rfl⟩
    fun k₆ hk₆ => ?_
  refine ((keeps_rig_logMessage _ _ _).returns k₆).bind fun k₇ hk₇ => ?_
  have hready : k₇.rig = k.rig.withTraps lines := by
    rw [hk₇, hk₆, hk₅, hk₄, hk₃, hk₂, hk₁, htable]
    rfl
  exact ⟨_, setInterrupts_apply true k₇, congrArg (Rig.setInterrupts · true) hready⟩

end KernelM

/-! ## Ready traps -/

namespace Rig

variable {r r' : Rig}

/-- All but the interrupt flag and the halts. -/
def atRest (r : Rig) : Rig :=
  { r with machine := { r.machine with interrupts := false, halts := 0 } }

@[simp] theorem atRest_setInterrupts (r : Rig) (enabled : Bool) :
    (r.setInterrupts enabled).atRest = r.atRest := rfl

def halt (r : Rig) : Rig := { r with machine := r.machine.halt }

theorem atRest_halt (r : Rig) : r.halt.atRest = r.atRest := rfl

theorem interrupts_setInterrupts (r : Rig) (enabled : Bool) :
    (r.setInterrupts enabled).machine.interrupts = enabled := rfl

section AtRest

variable (h : r'.atRest = r.atRest)
include h

theorem vectors_eq_of_atRest : r'.machine.vectors = r.machine.vectors :=
  congrArg (·.machine.vectors) h

theorem latch_eq_of_atRest : r'.machine.latch = r.machine.latch :=
  congrArg (·.machine.latch) h

theorem exposedWrites_eq_of_atRest : r'.machine.exposedWrites = r.machine.exposedWrites :=
  congrArg (·.machine.exposedWrites) h

theorem switchEvents_eq_of_atRest : r'.machine.switchEvents = r.machine.switchEvents :=
  congrArg (·.machine.switchEvents) h

theorem switches_eq_of_atRest : r'.switches = r.switches :=
  congrArg (·.switches) h

end AtRest

end Rig

namespace Kernel

variable {k k' : Kernel} {lines : LineSet}

def wiring (k : Kernel) : Rig := k.rig.atRest

/-- The second kernel has its traps set up, the first one has them as they were before. -/
structure TrapsReady (lines : LineSet) (k k' : Kernel) : Prop where
  stubs : ∀ v : UInt8, v.toNat < 8 ∨ 0x20 ≤ v.toNat ∧ v.toNat ≤ 0x2F →
    v ∉ k.machine.settings.missing → k'.machine.vector v = stubEntry v
  others : ∀ v : UInt8,
    8 ≤ v.toNat ∧ v.toNat < 0x20 ∨ 0x2F < v.toNat ∨ v ∈ k.machine.settings.missing →
      k'.machine.vector v = k.machine.vector v
  enabled : ∀ line < lineCount, k'.enabledLines.contains line = true ↔
    lines.contains line = true ∨
      line = 2 ∧ ∃ other, 8 ≤ other ∧ other < lineCount ∧ lines.contains other = true
  /-- Both controllers are set up and let nothing through before their last word. -/
  words : ∃ words, k'.busWrites = k.busWrites ++ words ++
      [(0x21, k'.enabledLines.primaryMask), (0xA1, k'.enabledLines.secondaryMask)] ∧
    words.filter (fun w => w.1 = 0x20 ∨ w.1 = 0x21) =
      [(0x20, 0x11), (0x21, 0x20), (0x21, 0x04), (0x21, 0x01), (0x21, 0xFF)] ∧
    words.filter (fun w => w.1 = 0xA0 ∨ w.1 = 0xA1) =
      [(0xA0, 0x11), (0xA1, 0x28), (0xA1, 0x02), (0xA1, 0x01), (0xA1, 0xFF)]
  /-- Nothing was written to the bus or to the vector table with interrupts enabled. -/
  exposedWrites : k'.machine.exposedWrites = k.machine.exposedWrites
  ticks : k'.ticks = 0
  handlerTable : k'.handlerTable = k.handlerTable

theorem trapsReady_of_wiring (hbase : k.handlerTable.controller.base = lineVectorBase)
    (h : k'.wiring = (k.rig.withTraps lines).atRest) : k.TrapsReady lines k' := by
  have hopened := k.rig.machine_withTraps lines
  have hvector (v : UInt8) : k'.machine.vector v = (k.machine.stub? v).getD (k.machine.vector v) := by
    have hvectors : k'.machine.vectors = (k.rig.withTraps lines).machine.vectors :=
      Rig.vectors_eq_of_atRest h
    rw [Machine.vector, hvectors, hopened, ← Machine.vector, Machine.vector_opened]
    rfl
  have hlines : k'.enabledLines = (k.rig.withTraps lines).machine.enabledLines :=
    Machine.enabledLines_eq_of_latch (Rig.latch_eq_of_atRest h)
  constructor
  case stubs =>
    intro v hserved hstub
    rw [hvector, Machine.stub?_eq_some hserved hstub]
    rfl
  case others =>
    intro v hother
    rw [hvector, Machine.stub?_eq_none hother]
    rfl
  case enabled =>
    intro line hline
    rw [hlines, hopened, Machine.enabledLines_opened, LineSet.contains_union,
      LineSet.contains_empty, Bool.false_or, LineSet.contains_withCascade_iff _ hline]
  case words =>
    have hwrites : k'.busWrites = (k.rig.withTraps lines).writes := congrArg Rig.writes h
    have hcontroller : k.rig.handlerTable.controller = ⟨lineVectorBase⟩ :=
      congrArg Controller.mk hbase
    refine ⟨Controller.setUpWrites ⟨lineVectorBase⟩, ?_, by decide, by decide⟩
    rw [hwrites, Rig.writes_withTraps, hlines, hcontroller]
    rfl
  case exposedWrites =>
    have hwrites : k'.machine.exposedWrites = (k.rig.withTraps lines).machine.exposedWrites :=
      Rig.exposedWrites_eq_of_atRest h
    rw [hwrites, hopened]
    exact (Machine.shielded_opened rfl _ _).exposedWrites
  case ticks => exact congrArg Rig.ticks h
  case handlerTable => exact congrArg Rig.handlerTable h

/-- From every state of the kernel and its machine. -/
theorem initTraps_ready (hbase : k.handlerTable.controller.base = lineVectorBase)
    (lines : LineSet) :
    ∃ k', KernelM.initTraps lines k = .ok () k' ∧ k'.machine.interrupts = true ∧
      k.TrapsReady lines k' := by
  obtain ⟨k', hk', hrig⟩ := KernelM.returns_rig_initTraps lines k
  have hflag : k'.machine.interrupts = true :=
    (congrArg (·.machine.interrupts) hrig).trans (Rig.interrupts_setInterrupts _ true)
  refine ⟨k', hk', hflag, trapsReady_of_wiring hbase ?_⟩
  rw [wiring, hrig, Rig.atRest_setInterrupts]

/-- A kernel that was up before, with handlers and enabled lines, and without two of the stubs. -/
def leftover : Kernel :=
  { MaskCall.attached with machine.settings.missing := [0x03, 0x25], ticks := 7 }

theorem initTraps_ready_leftover :
    leftover.handlerTable.controller.base = lineVectorBase ∧
      leftover.machine.interrupts = true ∧
      ∃ k', KernelM.initTraps ⟨0x0201⟩ leftover = .ok () k' ∧ k'.machine.interrupts = true ∧
        leftover.TrapsReady ⟨0x0201⟩ k' :=
  have hbase : leftover.handlerTable.controller.base = lineVectorBase := by decide +kernel
  ⟨hbase, by decide +kernel, initTraps_ready hbase ⟨0x0201⟩⟩

end Kernel

end Kernel16
