import Kernel16.Proofs.Heap.Holding
import Kernel16.Proofs.Task.Lifecycle
import Mathlib.Data.List.Nodup

/-!
# Who owns the stacks

The task table takes its stacks from a heap that other clients use as well.  A
system keeps account of both: which blocks were handed out for stacks, which to
the clients, and which were taken back.  The heap does not know whose block it
is, and reaping frees whatever address stands in a slot.

In every state that is reached, the blocks handed out for stacks are exactly
those of the slots in use, one for each.  So no stack is freed while a slot
needs it, none is lost, and none that is reaped is refused.
-/

namespace Kernel16

def Arena.handedOut (s : Arena) (n : Nat) : List Block :=
  (s.allocate n).toList.map fun (a, t) => t.blockAt a

structure TaskSystem where
  tasks : TaskTable
  arena : Arena
  /-- Blocks that were handed out for stacks and not taken back. -/
  stackBlocks : List Block
  /-- Blocks that were handed out to other clients and not taken back. -/
  clientBlocks : List Block

inductive TaskRequest where
  | create (entry stackSize : Nat)
  /-- The switch may save registers into the slot that gives up the processor. -/
  | rotate (saved : Option Registers)
  | endCurrent
  | reap
  | allocate (n : Nat)
  | free (a : Nat)
  | write (a : Nat) (bytes : List UInt8)
  deriving DecidableEq, Repr

namespace TaskSystem

/-- The addresses that reaping gave back: the stacks of the slots that it emptied,
but for those that the heap refused. -/
def returned (u : TaskSystem) (r : Reaping) : List Nat :=
  let emptied := (List.finRange slotCount).filter fun i =>
    (u.tasks.slot i).state ≠ .unused ∧ (r.table.slot i).state = .unused ∧
      ∀ refusal ∈ r.refused, refusal.1 ≠ i
  emptied.map fun i => (u.tasks.slot i).stack.base

def without (blocks : List Block) (addresses : List Nat) : List Block :=
  blocks.filter (·.payload ∉ addresses)

def takeBack (u : TaskSystem) (addresses : List Nat) : TaskSystem where
  tasks := u.tasks
  arena := u.arena
  stackBlocks := without u.stackBlocks addresses
  clientBlocks := without u.clientBlocks addresses

def perform (u : TaskSystem) : TaskRequest → TaskSystem
  | .create entry stackSize =>
      match u.tasks.create u.arena entry stackSize with
      | .error _ => u
      | .ok (_, tasks, arena) =>
          { u with tasks, arena, stackBlocks := u.arena.handedOut stackSize ++ u.stackBlocks }
  | .rotate saved =>
      match u.tasks.rotate with
      | none => u
      | some (p, tasks) =>
          { u with tasks := saved.elim tasks fun registers => p.save registers tasks }
  | .endCurrent =>
      match u.tasks.endCurrent with
      | none => u
      | some (_, tasks) => { u with tasks }
  | .reap =>
      let r := u.tasks.reap u.arena
      { u.takeBack (u.returned r) with tasks := r.table, arena := r.arena }
  | .allocate n =>
      match u.arena.allocate n with
      | none => u
      | some (_, arena) => { u with arena, clientBlocks := u.arena.handedOut n ++ u.clientBlocks }
  | .free a =>
      match u.arena.free a with
      | .error _ => u
      | .ok (_, arena) => { u.takeBack [a] with arena }
  | .write a bytes => { u with arena.memory := u.arena.memory.writeBytes a bytes }

def run (u : TaskSystem) (requests : List TaskRequest) : TaskSystem :=
  requests.foldl perform u

/-- Clients may free any address but the stacks of the slots in use, and write
inside any block that is handed out. -/
def Permits (u : TaskSystem) : TaskRequest → Prop
  | .free a => ∀ i : TaskId, ∀ stack ∈ u.tasks.stack? i, stack.base ≠ a
  | .write a bytes =>
      ∃ b ∈ u.stackBlocks ++ u.clientBlocks, b.payload ≤ a ∧ a + bytes.length ≤ b.limit
  | _ => True

def Permitted (u : TaskSystem) : List TaskRequest → Prop
  | [] => True
  | r :: rest => u.Permits r ∧ (u.perform r).Permitted rest

instance (u : TaskSystem) : (r : TaskRequest) → Decidable (u.Permits r)
  | .free a =>
      inferInstanceAs (Decidable (∀ i : TaskId, ∀ stack ∈ u.tasks.stack? i, stack.base ≠ a))
  | .write a bytes =>
      inferInstanceAs (Decidable
        (∃ b ∈ u.stackBlocks ++ u.clientBlocks, b.payload ≤ a ∧ a + bytes.length ≤ b.limit))
  | .create _ _ | .rotate _ | .endCurrent | .reap | .allocate _ => isTrue trivial

instance decidablePermitted (u : TaskSystem) :
    (requests : List TaskRequest) → Decidable (u.Permitted requests)
  | [] => isTrue trivial
  | r :: rest =>
      have := decidablePermitted (u.perform r) rest
      inferInstanceAs (Decidable (_ ∧ _))

/-- A table that was initialized on the pool `opened`, which no one used before. -/
def started (opened : Arena) (tasks : TaskTable) (arena : Arena) : TaskSystem where
  tasks := tasks
  arena := arena
  stackBlocks := opened.handedOut idleStackSize
  clientBlocks := []

end TaskSystem

/-! ## Slots and blocks -/

namespace TaskTable

/-- The slots in use own the blocks `blocks`, one block for each slot. -/
structure Owns (t : TaskTable) (blocks : List Block) : Prop where
  block : ∀ (i : TaskId) (x : Stack), t.stack? i = some x →
    ∃ b ∈ blocks, b.payload = x.base ∧ x.size + headerSize ≤ b.size
  owner : ∀ b ∈ blocks, ∃ (i : TaskId) (x : Stack), t.stack? i = some x ∧ x.base = b.payload
  unique : ∀ (i j : TaskId) (x y : Stack), t.stack? i = some x → t.stack? j = some y →
    x.base = y.base → i = j

variable {t u : TaskTable} {s r : Arena} {blocks : List Block} {c i : TaskId}
  {entry stackSize : Nat}

theorem Owns.congr (h : t.Owns blocks) (hstack : ∀ i : TaskId, u.stack? i = t.stack? i) :
    u.Owns blocks := by
  constructor
  · intro i x hi
    exact h.block i x (hstack i ▸ hi)
  · intro b hb
    obtain ⟨i, x, hi, hbase⟩ := h.owner b hb
    exact ⟨i, x, (hstack i).trans hi, hbase⟩
  · intro i j x y hi hj
    exact h.unique i j x y (hstack i ▸ hi) (hstack j ▸ hj)

theorem not_inUse_cleared (segments : Segments) (i : TaskId) :
    ¬ (cleared segments).InUse i := by
  simp [InUse, slot_cleared]

theorem owns_cleared (segments : Segments) : (cleared segments).Owns [] := by
  have hnone : ∀ (i : TaskId) (x : Stack), (cleared segments).stack? i ≠ some x := by
    intro i x hi
    exact not_inUse_cleared segments i (stack?_eq_some_iff.mp hi).1
  refine ⟨?_, (fun _ hb => nomatch hb), ?_⟩
  · intro i x hi
    exact absurd hi (hnone i x)
  · intro i j x y hi
    exact absurd hi (hnone i x)

theorem Owns.cons (h : t.Owns blocks) {x : Stack} {b : Block} (hunused : ¬ t.InUse i)
    (hi : u.stack? i = some x) (hother : ∀ j : TaskId, i ≠ j → u.stack? j = t.stack? j)
    (hbase : b.payload = x.base) (hroom : x.size + headerSize ≤ b.size)
    (hnew : ∀ c ∈ blocks, c.payload ≠ b.payload) : u.Owns (b :: blocks) := by
  have hold : ∀ (j : TaskId) (y : Stack), i ≠ j → u.stack? j = some y →
      ∃ c ∈ blocks, c.payload = y.base ∧ y.size + headerSize ≤ c.size := by
    intro j y hij hj
    exact h.block j y ((hother j hij).symm.trans hj)
  have hapart : ∀ (j : TaskId) (y : Stack), i ≠ j → u.stack? j = some y → x.base ≠ y.base := by
    intro j y hij hj hxy
    obtain ⟨c, hc, hpayload, _⟩ := hold j y hij hj
    exact hnew c hc (hpayload.trans (hxy.symm.trans hbase.symm))
  constructor
  · intro j y hj
    by_cases hij : i = j
    · subst hij
      rw [hi] at hj
      cases hj
      exact ⟨b, List.mem_cons_self, hbase, hroom⟩
    · obtain ⟨c, hc, hy⟩ := hold j y hij hj
      exact ⟨c, List.mem_cons_of_mem _ hc, hy⟩
  · intro c hc
    rcases List.mem_cons.mp hc with rfl | hc
    · exact ⟨i, x, hi, hbase.symm⟩
    · obtain ⟨j, y, hj, hy⟩ := h.owner c hc
      have hij : i ≠ j := by
        intro hij
        subst hij
        exact hunused (stack?_eq_some_iff.mp hj).1
      exact ⟨j, y, (hother j hij).trans hj, hy⟩
  · intro j k y z hj hk hyz
    by_cases hij : i = j
    · subst hij
      rw [hi] at hj
      cases hj
      by_cases hik : i = k
      · exact hik
      · exact absurd hyz (hapart k z hik hk)
    · by_cases hik : i = k
      · subst hik
        rw [hi] at hk
        cases hk
        exact absurd hyz.symm (hapart j y hij hj)
      · exact h.unique j k y z ((hother j hij).symm.trans hj) ((hother k hik).symm.trans hk) hyz

theorem Owns.setSlot (h : t.Owns blocks) {x : Slot} {b : Block} (hunused : ¬ t.InUse i)
    (hx : x.state ≠ .unused) (hbase : b.payload = x.stack.base)
    (hroom : x.stack.size + headerSize ≤ b.size) (hnew : ∀ c ∈ blocks, c.payload ≠ b.payload) :
    (t.setSlot i x).Owns (b :: blocks) := by
  refine h.cons hunused (x := x.stack) ?_ ?_ hbase hroom hnew
  · rw [stack?_eq_some_iff, InUse, slot_setSlot_self]
    exact ⟨hx, rfl⟩
  · intro j hij
    apply stack?_congr
    · rw [InUse, InUse, slot_setSlot_of_ne _ _ hij]
    · rw [slot_setSlot_of_ne _ _ hij]

theorem stack?_rotate {p : Switch} (h : t.rotate = some (p, u)) (i : TaskId) :
    u.stack? i = t.stack? i := by
  obtain ⟨_, hne, hcanRun, rfl⟩ := exists_of_rotate h
  exact stack?_congr (inUse_handOver hne hcanRun) (stack_handOver hne)

theorem stack?_save (p : Switch) (image : Registers) (t : TaskTable) (i : TaskId) :
    (p.save image t).stack? i = t.stack? i := by
  apply stack?_congr
  · rw [InUse, InUse, state_save]
  · exact stack_save p image t i

theorem stack?_setState {state : TaskState} (hi : t.InUse i) (hstate : state ≠ .unused)
    (j : TaskId) : (t.setState i state).stack? j = t.stack? j := by
  apply stack?_congr
  · rw [InUse, slot_setState]
    split
    next hij =>
      subst hij
      exact iff_of_true hstate hi
    next => rfl
  · rw [slot_setState]
    split <;> rfl

theorem stack?_reap {x : Stack} :
    (t.reap s).table.stack? i = some x ↔ t.stack? i = some x ∧ ¬ t.reapable i = true := by
  rw [stack?_eq_some_iff, stack?_eq_some_iff, inUse_reap, slot_reap]
  constructor
  · intro h
    rw [if_neg h.1.2] at h
    exact ⟨⟨h.1.1, h.2⟩, h.1.2⟩
  · intro h
    rw [if_neg h.2]
    exact ⟨⟨h.1.1, h.2⟩, h.1.2⟩

theorem stack?_of_reapable (h : t.reapable i = true) : t.stack? i = some (t.slot i).stack := by
  have hended := (reapable_iff.mp h).1
  refine stack?_eq_some_iff.mpr ⟨?_, rfl⟩
  rw [InUse, hended]
  exact TaskState.noConfusion

/-- None of `slots` that is to be reaped owns the block. -/
def Spares (t : TaskTable) (slots : List TaskId) (b : Block) : Prop :=
  ∀ i ∈ slots, t.reapable i = true → (t.slot i).stack.base ≠ b.payload

instance (t : TaskTable) (slots : List TaskId) : DecidablePred (t.Spares slots) := fun b =>
  inferInstanceAs
    (Decidable (∀ i ∈ slots, t.reapable i = true → (t.slot i).stack.base ≠ b.payload))

theorem Owns.reap (h : t.Owns blocks) (s : Arena) :
    (t.reap s).table.Owns (blocks.filter (t.Spares (List.finRange slotCount))) := by
  constructor
  · intro i x hi
    obtain ⟨hstack, hkept⟩ := stack?_reap.mp hi
    obtain ⟨b, hb, hpayload, hroom⟩ := h.block i x hstack
    refine ⟨b, List.mem_filter.mpr ⟨hb, decide_eq_true ?_⟩, hpayload, hroom⟩
    intro j _ hj hbase
    have hij := h.unique j i _ x (stack?_of_reapable hj) hstack (hbase.trans hpayload)
    exact hkept (hij ▸ hj)
  · intro b hb
    obtain ⟨hb, hstay⟩ := List.mem_filter.mp hb
    obtain ⟨i, x, hstack, hbase⟩ := h.owner b hb
    refine ⟨i, x, stack?_reap.mpr ⟨hstack, ?_⟩, hbase⟩
    intro hreapable
    refine of_decide_eq_true hstay i (List.mem_finRange i) hreapable ?_
    rw [(stack?_eq_some_iff.mp hstack).2, hbase]
  · intro i j x y hi hj
    exact h.unique i j x y (stack?_reap.mp hi).1 (stack?_reap.mp hj).1

end TaskTable

/-! ## Reaping gives stacks back -/

namespace Reaping

variable {managed : Nat} {held : List Block} {i : TaskId}

theorem step_of_not_reapable (r : Reaping) (h : ¬ r.table.reapable i = true) : r.step i = r :=
  if_neg h

theorem step_of_free (r : Reaping) {size : Nat} {t : Arena} (h : r.table.reapable i = true)
    (hfree : r.arena.free (r.table.slot i).stack.base = .ok (size, t)) :
    r.step i = { r with table := r.table.setSlot i {}, arena := t, count := r.count + 1 } := by
  simp only [step, h, if_true, hfree]

theorem reapable_of_step {r : Reaping} {j : TaskId} (h : (r.step i).table.reapable j = true) :
    r.table.reapable j = true ∧ (r.step i).table.slot j = r.table.slot j := by
  by_cases hij : i = j
  · subst hij
    by_cases hreapable : r.table.reapable i = true
    · rw [table_step, if_pos hreapable, TaskTable.reapable, TaskTable.slot_setSlot_self] at h
      simp at h
    · rw [r.step_of_not_reapable hreapable] at h
      exact absurd h hreapable
  · rw [r.reapable_step_of_ne hij] at h
    exact ⟨h, r.slot_step_of_ne hij⟩

theorem spares_cons {r : Reaping} {rest : List TaskId} {b : Block} (hi : i ∉ rest)
    (hreapable : r.table.reapable i = true) :
    r.table.Spares (i :: rest) b ↔
      (r.step i).table.Spares rest b ∧ b.payload ≠ (r.table.slot i).stack.base := by
  have hrest : (r.step i).table.Spares rest b ↔ r.table.Spares rest b := by
    refine forall₂_congr ?_
    intro j hj
    have hij : i ≠ j := by
      intro hij
      exact hi (hij ▸ hj)
    rw [r.reapable_step_of_ne hij, r.slot_step_of_ne hij]
  rw [hrest, TaskTable.Spares, List.forall_mem_cons, and_comm, ne_comm]
  exact and_congr_right fun _ => ⟨fun h => h hreapable, fun h _ => h⟩

/-- If the slots to be reaped own different blocks, every one of them is taken back. -/
theorem foldl_of_holds {slots : List TaskId} (hnodup : slots.Nodup) (r : Reaping)
    (hholds : r.arena.Holds managed held)
    (hblock : ∀ i ∈ slots, r.table.reapable i = true →
      ∃ b ∈ held, b.payload = (r.table.slot i).stack.base)
    (hunique : ∀ i j, r.table.reapable i = true → r.table.reapable j = true →
      (r.table.slot i).stack.base = (r.table.slot j).stack.base → i = j) :
    (slots.foldl step r).refused = r.refused ∧
      (slots.foldl step r).arena.Holds managed (held.filter (r.table.Spares slots)) := by
  induction slots generalizing r held with
  | nil =>
      refine ⟨rfl, ?_⟩
      rw [List.filter_eq_self.mpr (by simp [TaskTable.Spares])]
      exact hholds
  | cons i rest ih =>
      obtain ⟨hi, hrest⟩ := List.nodup_cons.mp hnodup
      obtain ⟨hblocki, hblock⟩ := List.forall_mem_cons.mp hblock
      rw [List.foldl_cons]
      by_cases hreapable : r.table.reapable i = true
      · obtain ⟨b, hb, hpayload⟩ := hblocki hreapable
        obtain ⟨t, hfree⟩ := hholds.exists_free hb
        rw [hpayload] at hfree
        have hstep := r.step_of_free hreapable hfree
        have hnext : (r.step i).arena.Holds managed
            (held.filter (·.payload ≠ (r.table.slot i).stack.base)) := by
          rw [hstep]
          exact hholds.free hfree
        -- What was freed belonged to slot `i` alone, so the other slots keep their blocks.
        have hnextBlock : ∀ j ∈ rest, (r.step i).table.reapable j = true →
            ∃ c ∈ held.filter (·.payload ≠ (r.table.slot i).stack.base),
              c.payload = ((r.step i).table.slot j).stack.base := by
          intro j hj hstays
          obtain ⟨hreapablej, hslot⟩ := reapable_of_step hstays
          obtain ⟨c, hc, hcbase⟩ := hblock j hj hreapablej
          rw [hslot]
          refine ⟨c, List.mem_filter.mpr ⟨hc, decide_eq_true ?_⟩, hcbase⟩
          intro hbase
          have hij := hunique i j hreapable hreapablej (hbase.symm.trans hcbase)
          exact hi (hij ▸ hj)
        have hnextUnique : ∀ j k, (r.step i).table.reapable j = true →
            (r.step i).table.reapable k = true →
            ((r.step i).table.slot j).stack.base = ((r.step i).table.slot k).stack.base →
              j = k := by
          intro j k hj hk hbase
          obtain ⟨hj, hslotj⟩ := reapable_of_step hj
          obtain ⟨hk, hslotk⟩ := reapable_of_step hk
          rw [hslotj, hslotk] at hbase
          exact hunique j k hj hk hbase
        obtain ⟨hsame, hlast⟩ := ih hrest (r.step i) hnext hnextBlock hnextUnique
        have hrefused : (r.step i).refused = r.refused := by
          rw [hstep]
        refine ⟨hsame.trans hrefused, ?_⟩
        rw [List.filter_filter] at hlast
        refine hlast.perm (List.Perm.of_eq (List.filter_congr ?_))
        intro c _
        rw [← Bool.decide_and, decide_eq_decide, spares_cons hi hreapable]
      · obtain ⟨hsame, hlast⟩ := ih hrest r hholds hblock hunique
        rw [r.step_of_not_reapable hreapable]
        refine ⟨hsame, hlast.perm (List.Perm.of_eq (List.filter_congr ?_))⟩
        intro c _
        rw [decide_eq_decide, TaskTable.Spares, TaskTable.Spares, List.forall_mem_cons]
        simp [hreapable]

end Reaping

/-! ## The account is kept -/

namespace TaskSystem

/-- The account of the system is right: the heap holds out the blocks on it, and
those for stacks belong to the slots in use. -/
structure Consistent (u : TaskSystem) (managed : Nat) : Prop where
  holds : u.arena.Holds managed (u.stackBlocks ++ u.clientBlocks)
  owns : u.tasks.Owns u.stackBlocks
  lifecycle : ∃ c, u.tasks.Lifecycle c

variable {u : TaskSystem} {managed : Nat}

theorem handedOut_of_allocate {s t : Arena} {n a : Nat} (h : s.allocate n = some (a, t)) :
    s.handedOut n = [t.blockAt a] := by
  simp [Arena.handedOut, h]

theorem payload_ne_of_cons {s : Arena} {b c : Block} {held : List Block}
    (h : s.Holds managed (b :: held)) (hc : c ∈ held) : c.payload ≠ b.payload := by
  intro hpayload
  have heq := h.eq_of_payload (List.mem_cons_of_mem _ hc) List.mem_cons_self hpayload
  exact (List.nodup_cons.mp h.nodup).1 (heq ▸ hc)

theorem Consistent.create (h : u.Consistent managed) (entry stackSize : Nat) :
    (u.perform (.create entry stackSize)).Consistent managed := by
  cases hresult : u.tasks.create u.arena entry stackSize with
  | error e =>
      simp only [perform, hresult]
      exact h
  | ok result =>
      obtain ⟨i, tasks, arena⟩ := result
      obtain ⟨c, hlifecycle⟩ := h.lifecycle
      obtain ⟨base, hunused, hallocate, htasks⟩ := TaskTable.exists_of_create hresult
      obtain ⟨hholds, hpayload, hroom⟩ := h.holds.allocate hallocate
      simp only [perform, hresult, handedOut_of_allocate hallocate]
      refine ⟨hholds, ?_, ⟨c, hlifecycle.create hresult⟩⟩
      rw [htasks]
      refine h.owns.setSlot (not_not.mpr hunused) TaskState.noConfusion hpayload hroom ?_
      intro b hb
      exact payload_ne_of_cons hholds (List.mem_append_left _ hb)

theorem Consistent.rotate (h : u.Consistent managed) (saved : Option Registers) :
    (u.perform (.rotate saved)).Consistent managed := by
  cases hresult : u.tasks.rotate with
  | none =>
      simp only [perform, hresult]
      exact h
  | some result =>
      obtain ⟨p, tasks⟩ := result
      obtain ⟨c, hlifecycle⟩ := h.lifecycle
      have hrotated := (hlifecycle.rotate hresult).2
      have howns := h.owns.congr (TaskTable.stack?_rotate hresult)
      simp only [perform, hresult]
      cases saved with
      | none => exact ⟨h.holds, howns, ⟨_, hrotated⟩⟩
      | some registers =>
          have hsaved := howns.congr (TaskTable.stack?_save p registers tasks)
          exact ⟨h.holds, hsaved, ⟨_, hrotated.save p registers⟩⟩

theorem Consistent.endCurrent (h : u.Consistent managed) :
    (u.perform .endCurrent).Consistent managed := by
  cases hresult : u.tasks.endCurrent with
  | none =>
      simp only [perform, hresult]
      exact h
  | some result =>
      obtain ⟨i, tasks⟩ := result
      obtain ⟨c, hlifecycle⟩ := h.lifecycle
      obtain ⟨hi, hended⟩ := hlifecycle.endCurrent hresult
      obtain ⟨_, _, htasks⟩ := TaskTable.exists_of_endCurrent hresult
      simp only [perform, hresult]
      refine ⟨h.holds, h.owns.congr ?_, ⟨c, hended⟩⟩
      rw [htasks, hi]
      exact TaskTable.stack?_setState hlifecycle.inUse_current TaskState.noConfusion

theorem Consistent.reap_holds (h : u.Consistent managed) :
    (u.tasks.reap u.arena).refused = [] ∧
      (u.tasks.reap u.arena).arena.Holds managed
        ((u.stackBlocks ++ u.clientBlocks).filter (u.tasks.Spares (List.finRange slotCount))) := by
  refine Reaping.foldl_of_holds (List.nodup_finRange _) _ h.holds ?_ ?_
  · intro i _ hreapable
    obtain ⟨b, hb, hpayload, _⟩ := h.owns.block i _ (TaskTable.stack?_of_reapable hreapable)
    exact ⟨b, List.mem_append_left _ hb, hpayload⟩
  · intro i j hi hj hbase
    exact h.owns.unique i j _ _ (TaskTable.stack?_of_reapable hi)
      (TaskTable.stack?_of_reapable hj) hbase

theorem without_returned (hrefused : (u.tasks.reap u.arena).refused = []) (blocks : List Block) :
    without blocks (u.returned (u.tasks.reap u.arena)) =
      blocks.filter (u.tasks.Spares (List.finRange slotCount)) := by
  apply List.filter_congr
  intro b _
  rw [decide_eq_decide, returned, List.mem_map, TaskTable.Spares]
  simp only [List.mem_filter, List.mem_finRange, decide_eq_true_iff, hrefused, true_and,
    List.not_mem_nil, false_imp_iff, implies_true, and_true, forall_const,
    TaskTable.emptied_iff_reapable, not_exists, not_and]

theorem Consistent.reap (h : u.Consistent managed) : (u.perform .reap).Consistent managed := by
  obtain ⟨hrefused, hholds⟩ := h.reap_holds
  obtain ⟨c, hlifecycle⟩ := h.lifecycle
  have howns := h.owns.reap u.arena
  have hreaped := hlifecycle.reap u.arena
  rw [List.filter_append] at hholds
  simp only [perform, takeBack, without_returned hrefused]
  -- The fold behind the reaping must not be unfolded when the fields are compared.
  generalize u.tasks.reap u.arena = r at hholds howns hreaped ⊢
  exact ⟨hholds, howns, ⟨c, hreaped⟩⟩

theorem Consistent.allocate (h : u.Consistent managed) (n : Nat) :
    (u.perform (.allocate n)).Consistent managed := by
  cases hresult : u.arena.allocate n with
  | none =>
      simp only [perform, hresult]
      exact h
  | some result =>
      obtain ⟨a, arena⟩ := result
      have hholds := (h.holds.allocate hresult).1
      simp only [perform, hresult, handedOut_of_allocate hresult]
      exact ⟨hholds.perm List.perm_middle.symm, h.owns, h.lifecycle⟩

theorem Consistent.free (h : u.Consistent managed) {a : Nat} (hpermits : u.Permits (.free a)) :
    (u.perform (.free a)).Consistent managed := by
  cases hresult : u.arena.free a with
  | error e =>
      simp only [perform, hresult]
      exact h
  | ok result =>
      obtain ⟨size, arena⟩ := result
      have hholds := h.holds.free hresult
      have hkept : without u.stackBlocks [a] = u.stackBlocks := by
        apply List.filter_eq_self.mpr
        intro b hb
        obtain ⟨i, x, hstack, hbase⟩ := h.owns.owner b hb
        have hne := hpermits i x hstack
        simpa [← hbase] using hne
      have hsplit : (u.stackBlocks ++ u.clientBlocks).filter (·.payload ≠ a) =
          u.stackBlocks ++ without u.clientBlocks [a] := by
        have hsame : ∀ blocks : List Block,
            blocks.filter (·.payload ≠ a) = without blocks [a] := by
          intro blocks
          simp [without]
        rw [List.filter_append, hsame, hsame, hkept]
      simp only [perform, takeBack, hresult, hkept]
      rw [hsplit] at hholds
      exact ⟨hholds, h.owns, h.lifecycle⟩

theorem Consistent.write (h : u.Consistent managed) {a : Nat} {bytes : List UInt8}
    (hpermits : u.Permits (.write a bytes)) :
    (u.perform (.write a bytes)).Consistent managed := by
  obtain ⟨b, hb, hlow, hhigh⟩ := hpermits
  exact ⟨h.holds.write hb hlow hhigh, h.owns, h.lifecycle⟩

theorem Consistent.perform (h : u.Consistent managed) {r : TaskRequest}
    (hpermits : u.Permits r) : (u.perform r).Consistent managed := by
  cases r with
  | create entry stackSize => exact h.create entry stackSize
  | rotate saved => exact h.rotate saved
  | endCurrent => exact h.endCurrent
  | reap => exact h.reap
  | allocate n => exact h.allocate n
  | free a => exact h.free hpermits
  | write a bytes => exact h.write hpermits

theorem Consistent.run (h : u.Consistent managed) {requests : List TaskRequest}
    (hpermitted : u.Permitted requests) : (u.run requests).Consistent managed := by
  induction requests generalizing u with
  | nil => exact h
  | cons r rest ih => exact ih (h.perform hpermitted.1) hpermitted.2

theorem consistent_started {s opened arena : Arena} {start size : Nat} {segments : Segments}
    {entry : Nat} {idle : TaskId} {tasks : TaskTable}
    (hopened : s.init start size = .ok (managed, opened)) (hfits : start + size < wordLimit)
    (hinit : TaskTable.init opened segments entry = (.ok idle, tasks, arena)) :
    (started opened tasks arena).Consistent managed := by
  obtain ⟨base, _, hallocate, htasks⟩ := TaskTable.exists_of_init hinit
  obtain ⟨hholds, hpayload, hroom⟩ := (Arena.holds_of_init hopened hfits).allocate hallocate
  have hlifecycle := (TaskTable.lifecycle_of_init hinit).2
  have hslot : ∀ i, tasks.slot i = if i = 0 then
      { (TaskTable.cleared segments).newSlot entry ⟨base, idleStackSize⟩ with state := .running }
      else {} := by
    rw [htasks]
    exact TaskTable.slot_start_cleared segments _
  unfold started
  rw [handedOut_of_allocate hallocate]
  refine ⟨hholds, ?_, ⟨0, hlifecycle⟩⟩
  refine (TaskTable.owns_cleared segments).cons (i := 0) (x := ⟨base, idleStackSize⟩)
    (TaskTable.not_inUse_cleared segments 0) ?_ ?_ hpayload hroom (fun _ hc => nomatch hc)
  · rw [TaskTable.stack?_eq_some_iff, TaskTable.InUse, hslot, if_pos rfl]
    exact ⟨TaskState.noConfusion, rfl⟩
  · intro j hj
    apply TaskTable.stack?_congr
    · rw [TaskTable.InUse, TaskTable.InUse, hslot, if_neg hj.symm, TaskTable.slot_cleared]
    · rw [hslot, if_neg hj.symm, TaskTable.slot_cleared]

/-! ## Owned stacks -/

def owned (u : TaskSystem) : List Block :=
  (List.finRange slotCount).filterMap fun i : TaskId =>
    (u.tasks.stack? i).map fun x => u.arena.blockAt x.base

/-- Every slot in use has a block of its own, with room for its stack; reaping takes
back what it should; and nothing is lost from a pool of `managed` bytes. -/
structure Owned (u : TaskSystem) (managed : Nat) : Prop where
  block : ∀ (i : TaskId) (x : Stack), u.tasks.stack? i = some x →
    u.arena.blockAt x.base ∈ u.stackBlocks ∧ (u.arena.blockAt x.base).payload = x.base ∧
      x.base + x.size ≤ (u.arena.blockAt x.base).limit
  different : ∀ (i j : TaskId) (x y : Stack), u.tasks.stack? i = some x →
    u.tasks.stack? j = some y → i ≠ j →
      u.arena.blockAt x.base ≠ u.arena.blockAt y.base ∧
        (u.arena.blockAt x.base).Apart (u.arena.blockAt y.base)
  not_free : ∀ (i : TaskId) (x : Stack), u.tasks.stack? i = some x →
    u.arena.blockAt x.base ∉ u.arena.freeBlocks ∧
      ∀ b ∈ u.arena.freeBlocks, b.Apart (u.arena.blockAt x.base)
  current : ∃ (c : TaskId) (x : Stack), u.tasks.current = some c ∧ u.tasks.stack? c = some x
  reap_slot : ∀ i, (u.tasks.reap u.arena).table.slot i =
    if (u.tasks.slot i).state = .ended ∧ u.tasks.current ≠ some i then {} else u.tasks.slot i
  reap_count : (u.tasks.reap u.arena).count = (List.finRange slotCount).countP fun i =>
    (u.tasks.slot i).state = .ended ∧ u.tasks.current ≠ some i
  reap_accepted : (u.tasks.reap u.arena).refused = [] ∧ (u.tasks.reap u.arena).warnings = []
  usage : u.arena.usage.managed = managed ∧
    u.arena.usage.free + (u.owned.map Block.size).sum +
      (u.clientBlocks.map Block.size).sum = managed

theorem Consistent.exists_block (h : u.Consistent managed) {i : TaskId} {x : Stack}
    (hi : u.tasks.stack? i = some x) :
    u.arena.blockAt x.base ∈ u.stackBlocks ∧ (u.arena.blockAt x.base).payload = x.base ∧
      x.size + headerSize ≤ (u.arena.blockAt x.base).size := by
  obtain ⟨b, hb, hpayload, hroom⟩ := h.owns.block i x hi
  have hblock : u.arena.blockAt x.base = b := by
    rw [← hpayload]
    exact h.holds.blockAt_payload (List.mem_append_left _ hb)
  rw [hblock]
  exact ⟨hb, hpayload, hroom⟩

theorem Consistent.eq_of_block (h : u.Consistent managed) {i j : TaskId} {x y : Stack}
    (hi : u.tasks.stack? i = some x) (hj : u.tasks.stack? j = some y)
    (hblock : u.arena.blockAt x.base = u.arena.blockAt y.base) : i = j := by
  have hx := (h.exists_block hi).2.1
  have hy := (h.exists_block hj).2.1
  refine h.owns.unique i j x y hi hj ?_
  rw [← hx, hblock, hy]

theorem Consistent.owned_perm (h : u.Consistent managed) : u.owned.Perm u.stackBlocks := by
  have hstacks : u.stackBlocks.Nodup := (List.nodup_append.mp h.holds.nodup).1
  have howned : u.owned.Nodup := by
    refine List.Nodup.filterMap ?_ (List.nodup_finRange slotCount)
    intro i j b hi hj
    obtain ⟨x, hx, rfl⟩ := Option.map_eq_some_iff.mp hi
    obtain ⟨y, hy, hblock⟩ := Option.map_eq_some_iff.mp hj
    exact h.eq_of_block hx hy hblock.symm
  rw [List.perm_ext_iff_of_nodup howned hstacks]
  intro b
  simp only [owned, List.mem_filterMap, Option.map_eq_some_iff, List.mem_finRange, true_and]
  constructor
  · intro hb
    obtain ⟨i, x, hi, rfl⟩ := hb
    exact (h.exists_block hi).1
  · intro hb
    obtain ⟨i, x, hi, hbase⟩ := h.owns.owner b hb
    refine ⟨i, x, hi, ?_⟩
    rw [hbase]
    exact h.holds.blockAt_payload (List.mem_append_left _ hb)

theorem Consistent.owned (h : u.Consistent managed) : u.Owned managed := by
  obtain ⟨c, hlifecycle⟩ := h.lifecycle
  obtain ⟨hrefused, _⟩ := h.reap_holds
  obtain ⟨hmanaged, husage⟩ := h.holds.usage
  have hheld : ∀ {i : TaskId} {x : Stack}, u.tasks.stack? i = some x →
      u.arena.blockAt x.base ∈ u.stackBlocks ++ u.clientBlocks := by
    intro i x hi
    exact List.mem_append_left _ (h.exists_block hi).1
  constructor
  · intro i x hi
    obtain ⟨hmem, hpayload, hroom⟩ := h.exists_block hi
    refine ⟨hmem, hpayload, ?_⟩
    unfold Block.payload at hpayload
    unfold Block.limit
    omega
  · intro i j x y hi hj hne
    have hblocks : u.arena.blockAt x.base ≠ u.arena.blockAt y.base := by
      intro hblock
      exact hne (h.eq_of_block hi hj hblock)
    exact ⟨hblocks, h.holds.apart_of_ne (hheld hi) (hheld hj) hblocks⟩
  · intro i x hi
    exact ⟨h.holds.not_mem_free (hheld hi), fun b hb => h.holds.apart_free (hheld hi) hb⟩
  · exact ⟨c, _, hlifecycle.current_eq,
      TaskTable.stack?_eq_some_iff.mpr ⟨hlifecycle.inUse_current, rfl⟩⟩
  · intro i
    rw [TaskTable.slot_reap]
    simp only [TaskTable.reapable_iff]
  · rw [TaskTable.count_reap]
    apply List.countP_congr
    intro i _
    rw [TaskTable.reapable_iff, decide_eq_true_iff]
  · refine ⟨hrefused, ?_⟩
    rw [Reaping.warnings, hrefused, List.map_nil]
  · refine ⟨hmanaged, ?_⟩
    have hstacks := (h.owned_perm.map Block.size).sum_nat
    rw [List.map_append, List.sum_append] at husage
    omega

/-- Whatever tasks and clients do on a fresh pool that lies in the address space, the
slots in use own their stacks, reaping is never refused, and free bytes, stacks and
clients make up the pool. -/
theorem run_owned {s opened arena : Arena} {start size managed : Nat} {segments : Segments}
    {entry : Nat} {idle : TaskId} {tasks : TaskTable} (hfits : start + size < wordLimit)
    (hopened : s.init start size = .ok (managed, opened))
    (hinit : TaskTable.init opened segments entry = (.ok idle, tasks, arena))
    {requests : List TaskRequest}
    (hpermitted : (started opened tasks arena).Permitted requests) :
    ((started opened tasks arena).run requests).Owned managed :=
  ((consistent_started hopened hfits hinit).run hpermitted).owned

/-- A task starts beside a client, writes to its stack, ends, and is reaped only after
it gave up the processor.  Its slot and a part of its block are used again. -/
def stackReuse : List TaskRequest :=
  [.create 512 64, .allocate 40, .rotate (some { ax := 7 }), .write 5160 [1, 2, 3],
    .endCurrent, .reap, .rotate none, .free 5232, .free 9, .reap, .create 600 32]

theorem run_owned_stackReuse :
    4096 + 2048 < wordLimit ∧ ({} : Arena).init 4096 2048 = .ok (2048, TaskTable.stackPool) ∧
      TaskTable.init TaskTable.stackPool .initial 256 =
        (.ok 0, TaskTable.booted.2.1, TaskTable.booted.2.2) ∧
      (started TaskTable.stackPool TaskTable.booted.2.1 TaskTable.booted.2.2).Permitted
        stackReuse ∧
      ((started TaskTable.stackPool TaskTable.booted.2.1 TaskTable.booted.2.2).run
        stackReuse).Owned 2048 := by
  have hfits : 4096 + 2048 < wordLimit := by decide
  have hopened : ({} : Arena).init 4096 2048 = .ok (2048, TaskTable.stackPool) := rfl
  have hpermitted : (started TaskTable.stackPool TaskTable.booted.2.1
      TaskTable.booted.2.2).Permitted stackReuse := by
    decide +kernel
  exact ⟨hfits, hopened, TaskTable.init_stackPool, hpermitted,
    run_owned hfits hopened TaskTable.init_stackPool hpermitted⟩

end TaskSystem

end Kernel16
