import Kernel16.Proofs.Heap.Frame
import Kernel16.Proofs.Heap.Placement
import Kernel16.Proofs.Kernel.Execution
import Mathlib.Data.List.Nodup

/-!
# Clients of the kernel heap

Clients ask the kernel for plain bytes or for layouts, write to what they got
and give it back.  A layout that is stricter than the heap's own alignment is
found again through a word in front of the client's bytes, in the memory that
all clients write to.

A client that keeps to its own bytes cannot reach that word: it lies in the
payload of the client's own block and below the client's address.  The heap
writes headers only.  So in every state of a run each address that a client
holds leads back to the block that was allocated for it.
-/

namespace Kernel16

/-! ## The heap operations of the kernel -/

namespace KernelM

variable {k : Kernel} {n a size : Nat} {t : Arena}

theorem discreet_arena : Discreet Kernel.arena := ⟨fun _ _ => rfl, fun _ _ => rfl, fun _ _ _ => rfl⟩

theorem returns_onHeap (f : Arena → α × Arena) (k : Kernel) :
    Returns Kernel.arena (onHeap f) k (f k.arena).1 (f k.arena).2 := by
  rw [← discreet_arena.locked k .heap]
  exact discreet_arena.returns_withLock ⟨_, rfl, rfl⟩

theorem returns_modifyMemory (f : Memory → Memory) (k : Kernel) :
    Returns Kernel.arena (modifyMemory f) k () { k.arena with memory := f k.arena.memory } :=
  ⟨_, modify_apply _ k, rfl⟩

theorem returns_allocate (n : Nat) (k : Kernel) :
    Returns Kernel.arena (allocate n) k ((Arena.attemptAllocate n k.arena).1.getD 0)
      (Arena.attemptAllocate n k.arena).2 := by
  refine (returns_onHeap _ k).bind fun k' hk' => ?_
  rw [← hk']
  split
  next address hresult =>
    rw [hresult]
    exact (discreet_arena.returns_logMessage _ _ _ k').bind_pure _
  next hresult =>
    rw [hresult]
    exact (discreet_arena.returns_logMessage _ _ _ k').bind_pure _

theorem returns_allocate_of_none (h : k.arena.allocate n = none) :
    Returns Kernel.arena (allocate n) k 0 k.arena := by
  have hresult := returns_allocate n k
  simpa only [Arena.attemptAllocate, h, Option.getD_none] using hresult

theorem returns_allocate_of_some (h : k.arena.allocate n = some (a, t)) :
    Returns Kernel.arena (allocate n) k a t := by
  have hresult := returns_allocate n k
  simpa only [Arena.attemptAllocate, h, Option.getD_some] using hresult

/-- Whether the address is taken back or refused, the program returns. -/
theorem returns_attemptFree (a : Nat) (k : Kernel) :
    Returns Kernel.arena (free a) k () (Arena.attempt (·.free a) k.arena).2 := by
  refine (returns_onHeap _ k).bind fun k' hk' => ?_
  rw [← hk']
  split
  · exact discreet_arena.returns_logMessage _ _ _ k'
  · exact returns_pure _ k'
  · exact discreet_arena.returns_logMessage _ _ _ k'

theorem returns_free (h : k.arena.free a = .ok (size, t)) :
    Returns Kernel.arena (free a) k () t := by
  have hresult := returns_attemptFree a k
  simpa only [Arena.attempt, h] using hresult

theorem returns_initHeap (start size : Nat) (k : Kernel) :
    Returns Kernel.arena (initHeap start size) k
      (Arena.attempt (·.init start size) k.arena).1
      (Arena.attempt (·.init start size) k.arena).2 := by
  refine (returns_onHeap _ k).bind fun k' hk' => ?_
  rw [← hk']
  split
  all_goals
    exact (discreet_arena.returns_logMessage _ _ _ k').bind_pure _

theorem init_of_initHeap {start managed : Nat} {k' : Kernel}
    (h : initHeap start size k = .ok (.ok managed) k') :
    k.arena.init start size = .ok (managed, k'.arena) := by
  obtain ⟨k'', hk'', harena⟩ := returns_initHeap start size k
  rw [h] at hk''
  cases hinit : k.arena.init start size with
  | error e =>
      simp only [Arena.attempt, hinit] at hk''
      cases hk''
  | ok result =>
      simp only [Arena.attempt, hinit] at hk'' harena
      cases hk''
      rw [harena]

end KernelM

namespace Demand

def allocate : Demand → KernelM Nat
  | .plain n => KernelM.allocate n
  | .aligned l => KernelM.allocateAligned l

def giveBack (address : Nat) : Demand → KernelM Unit
  | .plain _ => KernelM.free address
  | .aligned l => KernelM.freeAligned address l

/-- The arena once the word below a strictly aligned address remembers its payload. -/
def remember (d : Demand) (raw : Nat) (s : Arena) : Arena :=
  if d.isStrict then { s with memory := s.memory.setWord (Layout.slot (d.place raw)) raw } else s

variable {d : Demand} {k : Kernel} {raw address size : Nat} {t : Arena}

theorem returns_allocate_of_none (h : k.arena.allocate d.request = none) :
    KernelM.Returns Kernel.arena d.allocate k 0 k.arena := by
  cases d with
  | plain n => exact KernelM.returns_allocate_of_none h
  | aligned l =>
      simp only [allocate, KernelM.allocateAligned, l.request?_eq]
      refine (KernelM.returns_allocate_of_none h).bind fun k' hk' => ?_
      rw [← hk']
      exact KernelM.returns_pure _ _

theorem returns_allocate_of_some (h : k.arena.allocate d.request = some (raw, t))
    (hraw : raw ≠ 0) :
    KernelM.Returns Kernel.arena d.allocate k (d.place raw) (d.remember raw t) := by
  cases d with
  | plain n => exact KernelM.returns_allocate_of_some h
  | aligned l =>
      simp only [allocate, KernelM.allocateAligned, l.request?_eq]
      refine (KernelM.returns_allocate_of_some h).bind fun k' hk' => ?_
      cases hnatural : l.isNatural with
      | true =>
          simp only [place, remember, isStrict, hnatural, hraw, decide_false, Bool.false_or,
            Bool.not_true, Bool.false_eq_true, if_true, if_false]
          rw [← hk']
          exact KernelM.returns_pure _ _
      | false =>
          simp only [place, remember, isStrict, hnatural, hraw, decide_false, Bool.false_or,
            Bool.not_false, Bool.false_eq_true, if_true, if_false]
          refine (KernelM.returns_modifyMemory _ k').bind fun k'' hk'' => ?_
          rw [← hk', ← hk'']
          exact KernelM.returns_pure _ _

theorem returns_giveBack (haddress : address ≠ 0)
    (h : k.arena.free (d.origin k.arena.memory address) = .ok (size, t)) :
    KernelM.Returns Kernel.arena (d.giveBack address) k () t := by
  cases d with
  | plain n => exact KernelM.returns_free h
  | aligned l =>
      simp only [giveBack, KernelM.freeAligned]
      cases hnatural : l.isNatural with
      | true =>
          simp only [origin, isStrict, hnatural, Bool.not_true, Bool.false_eq_true,
            if_false] at h
          exact KernelM.returns_free h
      | false =>
          simp only [origin, isStrict, hnatural, Bool.not_false, if_true] at h
          simp only [Bool.false_eq_true, haddress, if_false]
          refine KernelM.Returns.get_bind ?_
          exact KernelM.returns_free h

/-! ## What is remembered -/

section Placed

variable (hpos : 0 < d.request) (hfits : raw + d.request < wordLimit)

include hfits in
theorem origin_remember : d.origin (d.remember raw t).memory (d.place raw) = raw := by
  cases hstrict : d.isStrict with
  | false => rw [d.origin_of_not_strict hstrict, d.place_of_not_strict hstrict]
  | true =>
      simp only [origin, remember, hstrict, if_true, Memory.word_setWord]
      exact wrapWord_of_lt (Nat.lt_of_le_of_lt (Nat.le_add_right _ _) hfits)

include hpos hfits

theorem byte_remember {x : Nat} (hout : x < raw ∨ raw + d.request ≤ x) :
    (d.remember raw t).memory.byte x = t.memory.byte x := by
  cases hstrict : d.isStrict with
  | false => simp only [remember, hstrict, Bool.false_eq_true, if_false]
  | true =>
      have hlow := d.le_place_of_strict hstrict hfits
      have hhigh := d.place_add_le hpos hfits
      simp only [remember, hstrict, if_true, Layout.slot]
      exact Memory.byte_setWord_of_outside _ (by omega)

variable {managed : Nat} {held : List Block} {b : Block}

theorem holds_remember (h : t.Holds managed held) (hb : b ∈ held) (hpayload : b.payload = raw)
    (hend : raw + d.request ≤ b.limit) : (d.remember raw t).Holds managed held := by
  cases hstrict : d.isStrict with
  | false => simpa only [remember, hstrict, Bool.false_eq_true, if_false] using h
  | true =>
      have hlow := d.le_place_of_strict hstrict hfits
      have hhigh := d.place_add_le hpos hfits
      simp only [remember, hstrict, if_true, Layout.slot]
      exact h.setWord hb (by omega) (by omega)

end Placed

/-- A demand that is served has a block with room for the request, also once its payload is
remembered. -/
theorem holds_of_allocate {s : Arena} {managed : Nat} {held : List Block}
    (h : s.Holds managed held) (hresult : s.allocate d.request = some (raw, t)) :
    (t.blockAt raw).payload = raw ∧ raw + d.request ≤ (t.blockAt raw).limit ∧ 0 < d.request ∧
      (d.remember raw t).Holds managed (t.blockAt raw :: held) := by
  obtain ⟨hholds, hpayload, hroom⟩ := h.allocate hresult
  have hmem : t.blockAt raw ∈ t.blockAt raw :: held := List.mem_cons_self
  have hend : raw + d.request ≤ (t.blockAt raw).limit := by
    unfold Block.payload at hpayload
    unfold Block.limit
    omega
  have hpos : 0 < d.request := by
    -- A request of no bytes is turned down.
    refine Nat.pos_of_ne_zero fun hzero => ?_
    rw [hzero, Arena.allocate_zero] at hresult
    cases hresult
  have hfits : raw + d.request < wordLimit := Nat.lt_of_le_of_lt hend (hholds.limit_lt hmem)
  exact ⟨hpayload, hend, hpos, d.holds_remember hpos hfits hholds hmem hpayload hend⟩

end Demand

/-! ## Clients -/

/-- What a client holds: the address that it got for its demand, and the block that
this address leads to. -/
structure Allocation where
  demand : Demand
  address : Nat
  block : Block

/-- The bytes for the client lie in the payload of the block, as aligned as the client
asked for, and the payload is found again from the address. -/
structure Allocation.Sound (g : Allocation) (m : Memory) : Prop where
  aligned : g.demand.align ∣ g.address
  payload_le : g.block.payload ≤ g.address
  le_limit : g.address + max g.demand.size 1 ≤ g.block.limit
  slot_inside : g.demand.isStrict = true → g.block.payload + Memory.wordSize ≤ g.address
  origin_eq : g.demand.origin m g.address = g.block.payload

theorem Allocation.Sound.congr {g : Allocation} {m m' : Memory} (hg : g.Sound m)
    (hbytes : ∀ x, g.block.payload ≤ x → x < g.address → m'.byte x = m.byte x) : g.Sound m' := by
  refine ⟨hg.aligned, hg.payload_le, hg.le_limit, hg.slot_inside, ?_⟩
  rw [← hg.origin_eq]
  cases hstrict : g.demand.isStrict with
  | false => rw [g.demand.origin_of_not_strict hstrict, g.demand.origin_of_not_strict hstrict]
  | true =>
      have hslot := hg.slot_inside hstrict
      simp only [Demand.origin, hstrict, if_true, Layout.slot]
      apply Memory.word_congr
      intro x hlow hhigh
      exact hbytes x (by omega) (by omega)

inductive ClientRequest where
  | allocate (demand : Demand)
  | giveBack (address : Nat)
  | write (address : Nat) (bytes : List UInt8)

structure ClientSession where
  kernel : Kernel
  live : List Allocation := []

namespace ClientSession

def held (u : ClientSession) : List Block := u.live.map Allocation.block

def perform (u : ClientSession) : ClientRequest → ClientSession
  | .allocate d =>
      match d.allocate u.kernel with
      | .error _ k => { u with kernel := k }
      | .ok address k =>
          if address = 0 then { u with kernel := k }
          else
            let block := k.arena.blockAt (d.origin k.arena.memory address)
            { kernel := k, live := ⟨d, address, block⟩ :: u.live }
  | .giveBack address =>
      match u.live.find? (·.address = address) with
      | none => u
      | some g =>
          { kernel := (g.demand.giveBack address).after u.kernel
            live := u.live.filter (·.address ≠ address) }
  | .write address bytes =>
      { u with kernel := (KernelM.modifyMemory (·.writeBytes address bytes)).after u.kernel }

def run (u : ClientSession) (requests : List ClientRequest) : ClientSession :=
  requests.foldl perform u

/-- A client gives back what it holds, and writes to the bytes that it asked for. -/
def Permits (u : ClientSession) : ClientRequest → Prop
  | .allocate _ => True
  | .giveBack address => ∃ g ∈ u.live, g.address = address
  | .write address bytes =>
      ∃ g ∈ u.live, g.address ≤ address ∧ address + bytes.length ≤ g.address + g.demand.size

def Permitted (u : ClientSession) : List ClientRequest → Prop
  | [] => True
  | r :: rest => u.Permits r ∧ (u.perform r).Permitted rest

instance (u : ClientSession) : (r : ClientRequest) → Decidable (u.Permits r)
  | .allocate _ => isTrue trivial
  | .giveBack address => inferInstanceAs (Decidable (∃ g ∈ u.live, g.address = address))
  | .write address bytes =>
      inferInstanceAs (Decidable (∃ g ∈ u.live,
        g.address ≤ address ∧ address + bytes.length ≤ g.address + g.demand.size))

instance decidablePermitted (u : ClientSession) :
    (requests : List ClientRequest) → Decidable (u.Permitted requests)
  | [] => isTrue trivial
  | r :: rest =>
      have := decidablePermitted (u.perform r) rest
      inferInstanceAs (Decidable (_ ∧ _))

/-- No bytes of a payload that a client holds differ between the session and `s`. -/
def Spares (u : ClientSession) (s : Arena) : Prop :=
  ∀ g ∈ u.live, ∀ x, g.block.payload ≤ x → x < g.block.limit →
    s.memory.byte x = u.kernel.arena.memory.byte x

/-- The answer to the demand is `address`, in the block `b` that was free before. -/
structure Serves (u : ClientSession) (d : Demand) (address : Nat) (b : Block) (s : Arena) :
    Prop where
  returns : KernelM.Returns Kernel.arena d.allocate u.kernel address s
  address_ne_zero : address ≠ 0
  sound : Allocation.Sound ⟨d, address, b⟩ s.memory
  inside_free : ∃ c ∈ u.kernel.arena.freeBlocks, b.addr = c.addr ∧ b.limit ≤ c.limit
  apart : ∀ g ∈ u.live, b.Apart g.block
  apart_free : ∀ c ∈ s.freeBlocks, c.Apart b
  spares : u.Spares s

/-- The answer is zero since no free block is large enough, and nothing changed. -/
structure TurnsDown (u : ClientSession) (d : Demand) : Prop where
  allocate_eq : u.kernel.arena.allocate d.request = none
  returns : KernelM.Returns Kernel.arena d.allocate u.kernel 0 u.kernel.arena

/-- The block of the allocation, and no other, is given back to the free list. -/
structure TakesBack (u : ClientSession) (g : Allocation) (s : Arena) : Prop where
  returns : KernelM.Returns Kernel.arena (g.demand.giveBack g.address) u.kernel () s
  free_eq : u.kernel.arena.free g.block.payload = .ok (g.block.size, s)
  freeBlocks_eq : s.freeBlocks = g.block :: u.kernel.arena.freeBlocks
  spares : u.Spares s

/-- What clients of a pool of `managed` bytes rely on. -/
structure Honoured (u : ClientSession) (managed : Nat) : Prop where
  sound : ∀ g ∈ u.live, g.Sound u.kernel.arena.memory
  apart : u.live.Pairwise fun g h => g.block.Apart h.block
  apart_free : ∀ g ∈ u.live, ∀ c ∈ u.kernel.arena.freeBlocks, c.Apart g.block
  allocate : ∀ d, u.TurnsDown d ∨ ∃ address b s, u.Serves d address b s
  giveBack : ∀ g ∈ u.live, ∃ s, u.TakesBack g s
  usage : u.kernel.arena.usage.free + (u.held.map Block.size).sum = managed

/-! ## Every address leads back to its block -/

/-- The blocks that the addresses lead to are the ones that the heap handed out. -/
structure Backed (u : ClientSession) (managed : Nat) : Prop where
  holds : u.kernel.arena.Holds managed u.held
  sound : ∀ g ∈ u.live, g.Sound u.kernel.arena.memory

variable {u : ClientSession} {managed raw : Nat} {d : Demand} {g h : Allocation} {s t : Arena}

theorem mem_held (hg : g ∈ u.live) : g.block ∈ u.held :=
  List.mem_map_of_mem hg

theorem Backed.serves (hu : u.Backed managed)
    (hresult : u.kernel.arena.allocate d.request = some (raw, t)) :
    ∃ b, u.Serves d (d.place raw) b (d.remember raw t) ∧
      (d.remember raw t).Holds managed (b :: u.held) := by
  obtain ⟨hpayload, hend, hpos, hremember⟩ := d.holds_of_allocate hu.holds hresult
  have hinside := hu.holds.inside_free hresult
  generalize t.blockAt raw = b at hpayload hend hremember hinside
  have hmem : b ∈ b :: u.held := List.mem_cons_self
  have hfits : raw + d.request < wordLimit := Nat.lt_of_le_of_lt hend (hremember.limit_lt hmem)
  have hle := d.le_place hfits
  have hne : 0 < raw := hpayload ▸ Nat.add_pos_right b.addr (by decide)
  have hsound : Allocation.Sound ⟨d, d.place raw, b⟩ (d.remember raw t).memory :=
    { aligned := d.dvd_place (hpayload ▸ hremember.dvd_payload hmem)
      payload_le := Nat.le_trans (Nat.le_of_eq hpayload) hle
      le_limit := Nat.le_trans (d.place_add_le hpos hfits) hend
      slot_inside := by
        rw [hpayload]
        exact fun hstrict => d.le_place_of_strict hstrict hfits
      origin_eq := (Demand.origin_remember hfits).trans hpayload.symm }
  have hapart : ∀ g ∈ u.live, b.Apart g.block := fun g hg =>
    (List.pairwise_cons.mp hremember.apart).1 _ (mem_held hg)
  have hspares : u.Spares (d.remember raw t) := by
    intro g hg x hlow hhigh
    have hg' := hapart g hg
    unfold Block.payload at hlow hpayload
    unfold Block.Apart at hg'
    calc (d.remember raw t).memory.byte x
        = t.memory.byte x := Demand.byte_remember hpos hfits (by omega)
      _ = u.kernel.arena.memory.byte x :=
          hu.holds.byte_allocate hresult (mem_held hg) ⟨by omega, hhigh⟩
  refine ⟨b, ⟨?_, ?_, hsound, hinside, hapart, ?_, hspares⟩, hremember⟩
  · exact Demand.returns_allocate_of_some hresult (Nat.ne_of_gt hne)
  · exact Nat.ne_of_gt (Nat.lt_of_lt_of_le hne hle)
  · exact fun c hc => hremember.apart_free hmem hc

theorem Backed.perform_allocate (hu : u.Backed managed) (d : Demand) :
    (u.perform (.allocate d)).Backed managed := by
  cases hresult : u.kernel.arena.allocate d.request with
  | none =>
      obtain ⟨k, hk, harena⟩ := Demand.returns_allocate_of_none hresult
      simp only [perform, hk, if_true]
      exact ⟨harena ▸ hu.holds, fun g hg => harena ▸ hu.sound g hg⟩
  | some result =>
      obtain ⟨b, hserves, hholds⟩ := hu.serves hresult
      obtain ⟨k, hk, harena⟩ := hserves.returns
      have hsound := hserves.sound
      rw [← harena] at hholds hsound
      have hblock : k.arena.blockAt (d.origin k.arena.memory (d.place result.1)) = b := by
        rw [hsound.origin_eq]
        exact hholds.blockAt_payload List.mem_cons_self
      simp only [perform, hk, hserves.address_ne_zero, if_false, hblock]
      refine ⟨hholds, List.forall_mem_cons.mpr ⟨hsound, ?_⟩⟩
      intro g hg
      have hg' := hu.sound g hg
      refine hg'.congr fun x hlow hhigh => ?_
      have hlimit := hg'.le_limit
      rw [harena]
      exact hserves.spares g hg x hlow (by omega)

theorem Backed.takesBack (hu : u.Backed managed) (hg : g ∈ u.live) :
    ∃ s, u.TakesBack g s ∧
      s.Holds managed (u.held.filter (·.payload ≠ g.block.payload)) := by
  obtain ⟨s, hs⟩ := hu.holds.exists_free (mem_held hg)
  have hsound := hu.sound g hg
  have haddress : g.address ≠ 0 := by
    have hpayload := hsound.payload_le
    unfold Block.payload headerSize at hpayload
    omega
  refine ⟨s, ⟨?_, hs, hu.holds.freeBlocks_free (mem_held hg) hs, ?_⟩, hu.holds.free hs⟩
  · apply Demand.returns_giveBack haddress
    rw [hsound.origin_eq]
    exact hs
  · intro k hk x hlow hhigh
    exact hu.holds.byte_free hs (mem_held hk) hlow hhigh

theorem Backed.eq_of_block (hu : u.Backed managed) (hg : g ∈ u.live) (hh : h ∈ u.live)
    (hblock : g.block = h.block) : g = h :=
  List.inj_on_of_nodup_map hu.holds.nodup hg hh hblock

theorem Backed.eq_of_address (hu : u.Backed managed) (hg : g ∈ u.live) (hh : h ∈ u.live)
    (haddress : g.address = h.address) : g = h := by
  by_contra hne
  have hapart := hu.holds.apart_of_ne (mem_held hg) (mem_held hh)
    fun hblock => hne (hu.eq_of_block hg hh hblock)
  have hglow := (hu.sound g hg).payload_le
  have hglimit := (hu.sound g hg).le_limit
  have hhlow := (hu.sound h hh).payload_le
  have hhlimit := (hu.sound h hh).le_limit
  unfold Block.payload at hglow hhlow
  unfold Block.Apart at hapart
  omega

theorem Backed.held_filter (hu : u.Backed managed) (hg : g ∈ u.live) :
    (u.live.filter (·.address ≠ g.address)).map Allocation.block =
      u.held.filter (·.payload ≠ g.block.payload) := by
  rw [held, List.filter_map]
  congr 1
  apply List.filter_congr
  intro h hh
  rw [Function.comp_apply, decide_eq_decide, not_iff_not]
  constructor
  · intro haddress
    rw [hu.eq_of_address hh hg haddress]
  · intro hpayload
    rw [hu.eq_of_block hh hg (hu.holds.eq_of_payload (mem_held hh) (mem_held hg) hpayload)]

theorem Backed.perform_giveBack (hu : u.Backed managed) (hg : g ∈ u.live) :
    (u.perform (.giveBack g.address)).Backed managed := by
  have hfind : u.live.find? (·.address = g.address) = some g := by
    cases hfind : u.live.find? (·.address = g.address) with
    | none => exact absurd (decide_eq_true rfl) (List.find?_eq_none.mp hfind g hg)
    | some h =>
        have haddress := List.find?_some hfind
        rw [hu.eq_of_address (List.mem_of_find?_eq_some hfind) hg (of_decide_eq_true haddress)]
  obtain ⟨s, hs, hholds⟩ := hu.takesBack hg
  have harena := hs.returns.view_after
  simp only [perform, hfind]
  constructor
  · rw [harena, held, hu.held_filter hg]
    exact hholds
  · intro k hk
    have hk := (List.mem_filter.mp hk).1
    have hsound := hu.sound k hk
    refine hsound.congr fun x hlow hhigh => ?_
    have hlimit := hsound.le_limit
    rw [harena]
    exact hs.spares k hk x hlow (by omega)

theorem Backed.perform_write (hu : u.Backed managed) {address : Nat} {bytes : List UInt8}
    (hpermits : u.Permits (.write address bytes)) :
    (u.perform (.write address bytes)).Backed managed := by
  obtain ⟨g, hg, hlow, hhigh⟩ := hpermits
  have hsound := hu.sound g hg
  have hpayload := hsound.payload_le
  have hlimit := hsound.le_limit
  constructor
  · exact hu.holds.write (mem_held hg) (by omega) (by omega)
  · intro k hk
    have hk' := hu.sound k hk
    have hklimit := hk'.le_limit
    refine hk'.congr fun x hxlow hxhigh => ?_
    apply Memory.byte_writeBytes_of_outside
    -- What has to stay lies below the bytes that are written, or in another block.
    by_cases heq : k = g
    · rw [heq] at hxhigh
      omega
    · have hapart := hu.holds.apart_of_ne (mem_held hk) (mem_held hg)
        fun hblock => heq (hu.eq_of_block hk hg hblock)
      unfold Block.Apart at hapart
      unfold Block.payload at hxlow hpayload
      omega

theorem Backed.perform (hu : u.Backed managed) {r : ClientRequest} (hpermits : u.Permits r) :
    (u.perform r).Backed managed := by
  cases r with
  | allocate d => exact hu.perform_allocate d
  | giveBack address =>
      obtain ⟨g, hg, rfl⟩ := hpermits
      exact hu.perform_giveBack hg
  | write address bytes => exact hu.perform_write hpermits

theorem Backed.run (hu : u.Backed managed) {requests : List ClientRequest}
    (hpermitted : u.Permitted requests) : (u.run requests).Backed managed := by
  induction requests generalizing u with
  | nil => exact hu
  | cons r rest ih =>
      obtain ⟨hpermits, hrest⟩ := hpermitted
      exact ih (hu.perform hpermits) hrest

theorem Backed.honoured (hu : u.Backed managed) : u.Honoured managed := by
  refine ⟨hu.sound, ?_, ?_, ?_, ?_, hu.holds.usage.2⟩
  · exact List.pairwise_map.mp hu.holds.apart
  · exact fun g hg c hc => hu.holds.apart_free (mem_held hg) hc
  · intro d
    cases hresult : u.kernel.arena.allocate d.request with
    | none => exact Or.inl ⟨hresult, Demand.returns_allocate_of_none hresult⟩
    | some result =>
        obtain ⟨b, hserves, _⟩ := hu.serves hresult
        exact Or.inr ⟨_, b, _, hserves⟩
  · intro g hg
    obtain ⟨s, hs, _⟩ := hu.takesBack hg
    exact ⟨s, hs⟩

/-! ## Runs -/

def opened (k : Kernel) : ClientSession := { kernel := k }

theorem backed_of_initHeap {k k' : Kernel} {start size : Nat} (hfits : start + size < wordLimit)
    (hinit : KernelM.initHeap start size k = .ok (.ok managed) k') :
    (opened k').Backed managed := by
  have hinit := KernelM.init_of_initHeap hinit
  exact ⟨Arena.holds_of_init hinit hfits, fun _ hg => nomatch hg⟩

/-- Whatever clients ask for, write to their bytes and give back, each demand is either
turned down or served from a block of its own, and what is given back is exactly that
block.  Once everything is given back, as many bytes are free as at the start. -/
theorem run_honoured {k k' : Kernel} {start size managed : Nat}
    (hfits : start + size < wordLimit)
    (hinit : KernelM.initHeap start size k = .ok (.ok managed) k')
    {requests : List ClientRequest} (hpermitted : (opened k').Permitted requests) :
    let u := (opened k').run requests
    u.Honoured managed ∧ (u.live = [] → u.kernel.arena.usage.free = k'.arena.usage.free) := by
  have hopened := backed_of_initHeap hfits hinit
  have hrun := hopened.run hpermitted
  refine ⟨hrun.honoured, fun hlive => ?_⟩
  have hstart := hopened.honoured.usage
  have hend := hrun.honoured.usage
  rw [held, hlive] at hend
  exact hend.trans hstart.symm

def smallKernel : Kernel := (KernelM.initHeap 4099 256).after {}

theorem initHeap_smallKernel : KernelM.initHeap 4099 256 {} = .ok (.ok 248) smallKernel := rfl

def bytes40 : Layout := ⟨40, 64, by decide, by decide⟩

/-- Two clients fill their bytes before the first of them gives its block back. -/
def neighbours : List ClientRequest :=
  [.allocate (.aligned bytes40), .allocate (.plain 24), .write 4160 (List.replicate 40 0xFF),
    .write 4248 (List.replicate 24 0xFF), .giveBack 4160, .giveBack 4248]

theorem run_honoured_neighbours :
    4099 + 256 < wordLimit ∧ KernelM.initHeap 4099 256 {} = .ok (.ok 248) smallKernel ∧
      (opened smallKernel).Permitted neighbours ∧
      ((opened smallKernel).run neighbours).Honoured 248 ∧
      ((opened smallKernel).run neighbours).kernel.arena.usage.free =
        smallKernel.arena.usage.free := by
  have hfits : 4099 + 256 < wordLimit := by decide
  have hpermitted : (opened smallKernel).Permitted neighbours := by decide +kernel
  have hlive : ((opened smallKernel).run neighbours).live.isEmpty = true := by decide +kernel
  have hrun := run_honoured hfits initHeap_smallKernel hpermitted
  exact ⟨hfits, initHeap_smallKernel, hpermitted, hrun.1, hrun.2 (List.isEmpty_iff.mp hlive)⟩

end ClientSession

end Kernel16
