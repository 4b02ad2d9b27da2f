import Kernel16.Proofs.Heap.Arithmetic
import Kernel16.Proofs.Kernel.AlignedHeap

/-!
# No sum of the heap leaves the words

Callers take the kernel's heap over with ranges that do not wrap around, ask it
for bytes and for layouts, give back whatever addresses they like, and write to
the payloads that are handed out.  Their writes may hit the words from which
the kernel finds a payload again, so an address may lead back to any other one.

In every state that is reached so, the blocks lie inside a pool inside the
words.  Then neither the operations of the heap nor the way up to a stricter
alignment come to a sum or a difference that is no word: a payload with the
request behind it ends inside the pool, and the way up is a part of the request.
-/

namespace Kernel16

open WordProgram

/-! ## Requests with an alignment -/

namespace Layout

def requestProgram (l : Layout) : WordProgram (Option Nat) :=
  let size := max l.size 1
  if l.isNatural then return some size
  else do
    let way ← difference l.align 1
    return (sum? way Memory.wordSize).bind (sum? size ·)

def placeProgram (l : Layout) (raw : Nat) : WordProgram Nat := do
  let lowest ← sum raw Memory.wordSize
  let past ← sum lowest l.align
  let highest ← difference past 1
  roundDown highest l.align

variable (l : Layout) {raw : Nat}

theorem align_lt : l.align < wordLimit := by
  have hle := l.size_add_align_le
  unfold wordLimit UInt64.size at hle ⊢
  omega

theorem wrapping_requestProgram : l.requestProgram.wrapping = l.request? := by
  unfold requestProgram request?
  cases l.isNatural with
  | true => rfl
  | false =>
      dsimp only
      rw [if_neg (by decide), if_neg (by decide), wrapping_bind,
        wrapping_difference_of_lt l.align_pos l.align_lt, wrapping_pure]

theorem fits_requestProgram : l.requestProgram.Fits := by
  unfold requestProgram
  dsimp only
  split
  next => exact fits_pure _
  next => exact fits_bind.mpr ⟨fits_difference l.align_pos l.align_lt, fits_pure _⟩

/-- It makes no difference that the program wraps around once more before the difference. -/
theorem wrapping_placeProgram (raw : Nat) : (l.placeProgram raw).wrapping = l.place raw := by
  have hpos := l.align_pos
  rw [placeProgram, wrapping_bind, wrapping_sum, wrapping_bind, wrapping_sum, wrapping_bind,
    wrapping_roundDown hpos l.align_lt, wrapping_difference_wrapWord (by omega), place]

theorem fits_placeProgram (hstrict : l.isNatural = false)
    (hfits : raw + l.request < wordLimit) : (l.placeProgram raw).Fits := by
  have hpos := l.align_pos
  have hrequest : l.request = max l.size 1 + (l.align - 1 + Memory.wordSize) := by
    rw [request, hstrict, if_neg (by decide)]
  have hlowest : raw + Memory.wordSize < wordLimit := by omega
  have hpast : raw + Memory.wordSize + l.align < wordLimit := by omega
  refine fits_bind.mpr ⟨fits_sum.mpr hlowest, ?_⟩
  rw [wrapping_sum, wrapWord_of_lt hlowest]
  refine fits_bind.mpr ⟨fits_sum.mpr hpast, ?_⟩
  rw [wrapping_sum, wrapWord_of_lt hpast]
  exact fits_bind.mpr ⟨fits_difference (by omega) hpast, fits_roundDown hpos l.align_lt _⟩

end Layout

namespace Arena

def allocateAlignedProgram (s : Arena) (l : Layout) : WordProgram (Nat × Arena) := do
  match ← l.requestProgram with
  | none => return (0, s)
  | some n =>
      match ← s.allocateProgram n with
      | none => return (0, s)
      | some (raw, t) =>
          if raw = 0 || l.isNatural then return (raw, t)
          else
            let address ← l.placeProgram raw
            return (address, { t with memory := t.memory.setWord (Layout.slot address) raw })

variable {s t : Arena} {l : Layout} {raw a : Nat}

/-- What the program comes to if the heap has a payload `raw`, and if it has none. -/
theorem wrapping_allocateAlignedProgram (s : Arena) (l : Layout) :
    (s.allocateAlignedProgram l).wrapping =
      match s.allocate l.request with
      | none => (0, s)
      | some (raw, t) =>
          if raw = 0 || l.isNatural then (raw, t)
          else (l.place raw, { t with
            memory := t.memory.setWord (Layout.slot (l.place raw)) raw }) := by
  rw [allocateAlignedProgram, wrapping_bind, l.wrapping_requestProgram, l.request?_eq]
  dsimp only
  rw [wrapping_bind, wrapping_allocateProgram]
  cases s.allocate l.request with
  | none => rfl
  | some result =>
      dsimp only
      split
      next => rfl
      next => rw [wrapping_bind, l.wrapping_placeProgram, wrapping_pure]

theorem Bounded.fits_allocateAlignedProgram (h : s.Bounded) (l : Layout) :
    (s.allocateAlignedProgram l).Fits := by
  refine fits_bind.mpr ⟨l.fits_requestProgram, ?_⟩
  rw [l.wrapping_requestProgram, l.request?_eq]
  refine fits_bind.mpr ⟨h.fits_allocateProgram _, ?_⟩
  rw [wrapping_allocateProgram]
  cases hresult : s.allocate l.request with
  | none => exact fits_pure _
  | some result =>
      obtain ⟨raw, t⟩ := result
      obtain ⟨b, _, _, hend, hlimit⟩ := h.exists_of_allocate hresult
      dsimp only
      split
      next => exact fits_pure _
      next hplace =>
        simp only [Bool.or_eq_true, not_or, Bool.not_eq_true] at hplace
        have hfits := l.fits_placeProgram hplace.2 (Nat.lt_of_le_of_lt hend hlimit)
        exact fits_bind.mpr ⟨hfits, fits_pure _⟩

/-- Where the heap keeps to its bounds, the kernel serves a layout as the program does. -/
theorem Bounded.returns_allocateAligned {k : Kernel} (h : k.arena.Bounded) (l : Layout) :
    KernelM.Returns Kernel.arena (KernelM.allocateAligned l) k
      (k.arena.allocateAlignedProgram l).wrapping.1
      (k.arena.allocateAlignedProgram l).wrapping.2 := by
  rw [wrapping_allocateAlignedProgram]
  cases hresult : k.arena.allocate l.request with
  | none => exact Demand.returns_allocate_of_none (d := .aligned l) hresult
  | some result =>
      obtain ⟨raw, t⟩ := result
      obtain ⟨b, _, rfl, _, _⟩ := h.exists_of_allocate hresult
      have hne : b.payload ≠ 0 := Nat.ne_of_gt (Nat.add_pos_right _ (by decide))
      have hserved : KernelM.Returns Kernel.arena (KernelM.allocateAligned l) k
          ((Demand.aligned l).place b.payload) ((Demand.aligned l).remember b.payload t) :=
        Demand.returns_allocate_of_some (d := .aligned l) hresult hne
      simp only [Demand.place, Demand.remember, Demand.isStrict] at hserved
      simp only [hne, decide_false, Bool.false_or]
      cases hnatural : l.isNatural with
      | true => simpa only [hnatural, Bool.not_true, Bool.false_eq_true, if_true, if_false]
          using hserved
      | false => simpa only [hnatural, Bool.not_false, Bool.false_eq_true, if_true, if_false]
          using hserved

/-- Without a pool no request is served and no address is taken back. -/
theorem allocate_of_empty (h : s.heap = {}) (n : Nat) : s.allocate n = none := by
  cases hresult : s.allocate n with
  | none => rfl
  | some result =>
      obtain ⟨b, hb, _⟩ := exists_free_of_allocate hresult
      obtain ⟨memory, heap⟩ := s
      subst h
      cases hb

theorem attempt_free_of_empty (h : s.heap = {}) (a : Nat) :
    (attempt (·.free a) s).2 = s := by
  obtain ⟨memory, heap⟩ := s
  subst h
  by_cases ha : a = 0
  · subst ha
    rfl
  · simp only [attempt, free_of_no_pool memory ha]

/-- An address that is refused is the payload of no block that is handed out. -/
theorem Holds.attempt_free {managed : Nat} {held : List Block} (h : s.Holds managed held)
    (a : Nat) : (attempt (·.free a) s).2.Holds managed (held.filter (·.payload ≠ a)) := by
  cases hresult : s.free a with
  | ok result =>
      simp only [attempt, hresult]
      exact h.free hresult
  | error e =>
      have hkept : held.filter (·.payload ≠ a) = held := by
        refine List.filter_eq_self.mpr fun b hb => decide_eq_true ?_
        rintro rfl
        obtain ⟨t, ht⟩ := h.exists_free hb
        rw [hresult] at ht
        cases ht
      simp only [attempt, hresult, hkept]
      exact h

end Arena

namespace Demand

/-- The payload that giving back an address comes down to; address zero is passed over. -/
def returned (d : Demand) (m : Memory) (address : Nat) : Nat :=
  if address = 0 then 0 else d.origin m address

/-- Whatever the address, giving it back is to give back some payload to the heap. -/
theorem returns_giveBack_returned (d : Demand) (address : Nat) (k : Kernel) :
    KernelM.Returns Kernel.arena (d.giveBack address) k ()
      (Arena.attempt (·.free (d.returned k.arena.memory address)) k.arena).2 := by
  have hfree := fun a => KernelM.returns_attemptFree a k
  by_cases hzero : address = 0
  · have hnull : (Arena.attempt (·.free 0) k.arena).2 = k.arena := rfl
    rw [returned, if_pos hzero, hnull, hzero]
    cases d with
    | plain n => exact hnull ▸ hfree 0
    | aligned l =>
        simp only [giveBack, KernelM.freeAligned, if_true]
        split
        · exact hnull ▸ hfree 0
        · exact KernelM.returns_pure _ k
  · rw [returned, if_neg hzero]
    cases d with
    | plain n => exact hfree address
    | aligned l =>
        simp only [giveBack, KernelM.freeAligned, origin, isStrict, hzero, if_false]
        by_cases hnatural : l.isNatural = true
        · simp only [hnatural, Bool.not_true, Bool.false_eq_true, if_true, if_false]
          exact hfree address
        · simp only [hnatural, Bool.not_false, Bool.false_eq_true, if_true, if_false]
          exact KernelM.Returns.get_bind (hfree _)

end Demand

/-! ## Calls of the heap -/

inductive HeapCall where
  | init (start size : Nat)
  | allocate (demand : Demand)
  | giveBack (address : Nat) (demand : Demand)
  | write (address : Nat) (bytes : List UInt8)

/-- A kernel with the blocks that its heap has handed out. -/
structure Tenancy where
  kernel : Kernel
  held : List Block := []

namespace Tenancy

def perform (u : Tenancy) : HeapCall → Tenancy
  | .init start size =>
      match KernelM.initHeap start size u.kernel with
      | .ok (.ok _) k => { kernel := k }
      | .ok (.error _) k => { u with kernel := k }
      | .error _ k => { u with kernel := k }
  | .allocate d =>
      match d.allocate u.kernel with
      | .error _ k => { u with kernel := k }
      | .ok address k =>
          if address = 0 then { u with kernel := k }
          else
            let block := k.arena.blockAt (d.origin k.arena.memory address)
            { kernel := k, held := block :: u.held }
  | .giveBack address d =>
      { kernel := (d.giveBack address).after u.kernel
        held := u.held.filter (·.payload ≠ d.returned u.kernel.arena.memory address) }
  | .write address bytes =>
      { u with kernel := (KernelM.modifyMemory (·.writeBytes address bytes)).after u.kernel }

def run (u : Tenancy) (calls : List HeapCall) : Tenancy :=
  calls.foldl perform u

/-- Ranges do not wrap around, and callers write to payloads that are handed out. -/
def Permits (u : Tenancy) : HeapCall → Prop
  | .init start size => start + size < wordLimit
  | .allocate _ => True
  | .giveBack _ _ => True
  | .write address bytes =>
      ∃ b ∈ u.held, b.payload ≤ address ∧ address + bytes.length ≤ b.limit

def Permitted (u : Tenancy) : List HeapCall → Prop
  | [] => True
  | c :: rest => u.Permits c ∧ (u.perform c).Permitted rest

instance (u : Tenancy) : (c : HeapCall) → Decidable (u.Permits c)
  | .init start size => inferInstanceAs (Decidable (start + size < wordLimit))
  | .allocate _ => isTrue trivial
  | .giveBack _ _ => isTrue trivial
  | .write address bytes =>
      inferInstanceAs
        (Decidable (∃ b ∈ u.held, b.payload ≤ address ∧ address + bytes.length ≤ b.limit))

instance decidablePermitted (u : Tenancy) :
    (calls : List HeapCall) → Decidable (u.Permitted calls)
  | [] => isTrue trivial
  | c :: rest =>
      have := decidablePermitted (u.perform c) rest
      inferInstanceAs (Decidable (_ ∧ _))

/-! ## The heap keeps to its pool -/

/-- There is no pool, or one from which the blocks are handed out. -/
def Sound (u : Tenancy) : Prop :=
  u.kernel.arena.heap = {} ∧ u.held = [] ∨
    ∃ managed, u.kernel.arena.Holds managed u.held

variable {u : Tenancy}

theorem Sound.bounded (h : u.Sound) : u.kernel.arena.Bounded := by
  rcases h with ⟨hempty, _⟩ | ⟨managed, hholds⟩
  · exact Arena.bounded_of_empty hempty
  · exact hholds.bounded

theorem Sound.congr {k : Kernel} (h : u.Sound) (harena : k.arena = u.kernel.arena) :
    Sound { u with kernel := k } := by
  unfold Sound at h ⊢
  rw [harena]
  exact h

theorem Sound.perform_init (h : u.Sound) {start size : Nat} (hfits : start + size < wordLimit) :
    (u.perform (.init start size)).Sound := by
  obtain ⟨k, hk, harena⟩ := KernelM.returns_initHeap start size u.kernel
  cases hinit : u.kernel.arena.init start size with
  | error e =>
      simp only [Arena.attempt, hinit] at hk harena
      simp only [perform, hk]
      exact h.congr harena
  | ok result =>
      obtain ⟨managed, t⟩ := result
      simp only [Arena.attempt, hinit] at hk harena
      have hholds := Arena.holds_of_init hinit hfits
      rw [← harena] at hholds
      simp only [perform, hk]
      exact Or.inr ⟨managed, hholds⟩

theorem holds_perform_allocate {managed : Nat} (h : u.kernel.arena.Holds managed u.held)
    (d : Demand) : (u.perform (.allocate d)).kernel.arena.Holds managed
      (u.perform (.allocate d)).held := by
  cases hresult : u.kernel.arena.allocate d.request with
  | none =>
      obtain ⟨k, hk, harena⟩ := Demand.returns_allocate_of_none hresult
      simp only [perform, hk, if_true]
      exact harena ▸ h
  | some result =>
      obtain ⟨raw, t⟩ := result
      obtain ⟨hpayload, hend, _, hremember⟩ := d.holds_of_allocate h hresult
      generalize t.blockAt raw = b at hpayload hend hremember
      have hmem : b ∈ b :: u.held := List.mem_cons_self
      have hfits := Nat.lt_of_le_of_lt hend (hremember.limit_lt hmem)
      have hraw : 0 < raw := hpayload ▸ Nat.add_pos_right b.addr (by decide)
      have hplace : d.place raw ≠ 0 := Nat.ne_of_gt (Nat.lt_of_lt_of_le hraw (d.le_place hfits))
      have horigin : d.origin (d.remember raw t).memory (d.place raw) = b.payload :=
        (Demand.origin_remember hfits).trans hpayload.symm
      obtain ⟨k, hk, harena⟩ := Demand.returns_allocate_of_some hresult (Nat.ne_of_gt hraw)
      rw [← harena] at hremember horigin
      have hblock : k.arena.blockAt (d.origin k.arena.memory (d.place raw)) = b := by
        rw [horigin]
        exact hremember.blockAt_payload hmem
      simp only [perform, hk, hplace, if_false, hblock]
      exact hremember

theorem Sound.perform_allocate (h : u.Sound) (d : Demand) : (u.perform (.allocate d)).Sound := by
  rcases id h with ⟨hempty, _⟩ | ⟨managed, hholds⟩
  · obtain ⟨k, hk, harena⟩ :=
      Demand.returns_allocate_of_none (Arena.allocate_of_empty hempty d.request)
    simp only [perform, hk, if_true]
    exact h.congr harena
  · exact Or.inr ⟨managed, holds_perform_allocate hholds d⟩

theorem Sound.perform_giveBack (h : u.Sound) (address : Nat) (d : Demand) :
    (u.perform (.giveBack address d)).Sound := by
  have harena := (d.returns_giveBack_returned address u.kernel).view_after
  unfold Sound perform
  dsimp only
  rw [harena]
  rcases h with ⟨hempty, hheld⟩ | ⟨managed, hholds⟩
  · rw [Arena.attempt_free_of_empty hempty, hheld]
    exact Or.inl ⟨hempty, rfl⟩
  · exact Or.inr ⟨managed, hholds.attempt_free _⟩

theorem Sound.perform_write (h : u.Sound) {address : Nat} {bytes : List UInt8}
    (hpermits : u.Permits (.write address bytes)) : (u.perform (.write address bytes)).Sound := by
  obtain ⟨b, hb, hlow, hhigh⟩ := hpermits
  rcases h with ⟨_, hheld⟩ | ⟨managed, hholds⟩
  · rw [hheld] at hb
    cases hb
  · exact Or.inr ⟨managed, hholds.write hb hlow hhigh⟩

theorem Sound.perform (h : u.Sound) {c : HeapCall} (hpermits : u.Permits c) :
    (u.perform c).Sound := by
  cases c with
  | init start size => exact h.perform_init hpermits
  | allocate d => exact h.perform_allocate d
  | giveBack address d => exact h.perform_giveBack address d
  | write address bytes => exact h.perform_write hpermits

theorem Sound.run (h : u.Sound) {calls : List HeapCall} (hpermitted : u.Permitted calls) :
    (u.run calls).Sound := by
  induction calls generalizing u with
  | nil => exact h
  | cons c rest ih =>
      obtain ⟨hpermits, hrest⟩ := hpermitted
      exact ih (h.perform hpermits) hrest

end Tenancy

/-! ## Words all the way -/

/-- Whatever is asked of the heap next, no sum and no difference on the way leaves the
words, so that a processor that would stop there gives the same answers. -/
structure Kernel.KeepsToWords (k : Kernel) : Prop where
  init : ∀ start size, start + size < wordLimit →
    (k.arena.initProgram start size).Exact (k.arena.init start size)
  allocate : ∀ n, (k.arena.allocateProgram n).Exact (k.arena.allocate n)
  free : ∀ a, a < wordLimit → (k.arena.freeProgram a).Exact (k.arena.free a)
  findFree : ∀ x, (k.arena.findFreeProgram x).Exact
    ((k.arena.freeBlocks.find? (·.contains x)).map Block.addr)
  usage : k.arena.usageProgram.Exact k.arena.usage
  allocateAligned : ∀ l, ∃ address s, (k.arena.allocateAlignedProgram l).Exact (address, s) ∧
    KernelM.Returns Kernel.arena (KernelM.allocateAligned l) k address s
  /-- The address of a payload comes from a sum that may wrap around, and does not. -/
  payload : ∀ n a s, k.arena.allocate n = some (a, s) →
    ∃ b ∈ k.arena.freeBlocks, a = b.addr + headerSize ∧ a + n ≤ b.limit ∧ b.limit < wordLimit
  /-- The word below an address that was moved up still lies in the payload. -/
  slot : ∀ (l : Layout) a s, l.isNatural = false → k.arena.allocate l.request = some (a, s) →
    a + Memory.wordSize ≤ l.place a

theorem Arena.Bounded.keepsToWords {k : Kernel} (h : k.arena.Bounded) : k.KeepsToWords := by
  constructor
  case init =>
    intro start size hfits
    exact (Arena.fits_initProgram hfits).exact (k.arena.wrapping_initProgram start size)
  case allocate =>
    exact fun n => (h.fits_allocateProgram n).exact (k.arena.wrapping_allocateProgram n)
  case free =>
    exact fun a ha => (h.fits_freeProgram a).exact (k.arena.wrapping_freeProgram ha)
  case findFree =>
    exact fun x => (h.fits_findFreeProgram x).exact (k.arena.wrapping_findFreeProgram x)
  case usage =>
    exact h.fits_usageProgram.exact
      (Arena.wrapping_usageProgram h.start_le h.limit_lt h.free_count)
  case allocateAligned =>
    intro l
    exact ⟨_, _, (h.fits_allocateAlignedProgram l).exact rfl, h.returns_allocateAligned l⟩
  case payload => exact fun n a s hresult => h.exists_of_allocate hresult
  case slot =>
    intro l a s hstrict hresult
    obtain ⟨b, _, _, hend, hlimit⟩ := h.exists_of_allocate hresult
    exact l.le_place hstrict (Nat.lt_of_le_of_lt hend hlimit)

namespace Tenancy

def opened (k : Kernel) : Tenancy := { kernel := k }

/-- However the heap was taken over, used and written to, its sums and differences stay
words. -/
theorem run_keepsToWords {k : Kernel} (hempty : k.arena.heap = {}) {calls : List HeapCall}
    (hpermitted : (opened k).Permitted calls) : ((opened k).run calls).kernel.KeepsToWords := by
  have hopened : (opened k).Sound := Or.inl ⟨hempty, rfl⟩
  exact (hopened.run hpermitted).bounded.keepsToWords

/-- At the end of the address space, a caller writes the address of its neighbour's payload below
its own address, which then leads there, and gives back addresses that it never got. -/
def misled : List HeapCall :=
  [.init (wordLimit - 301) 290, .allocate (.aligned ClientSession.bytes40), .allocate (.plain 24),
    .write (wordLimit - 256 - 8) (Memory.littleEndian 8 (wordLimit - 152)),
    .giveBack (wordLimit - 256) (.aligned ClientSession.bytes40),
    .giveBack (wordLimit - 1) (.plain 0), .giveBack 3 (.aligned ClientSession.bytes40)]

theorem run_keepsToWords_misled :
    ({} : Kernel).arena.heap = {} ∧ (opened {}).Permitted misled ∧
      ((opened {}).run misled).kernel.KeepsToWords ∧
      ((opened {}).run misled).kernel.arena.heap.limit = wordLimit - 16 ∧
      ((opened {}).run misled).held.length = 1 := by
  have hpermitted : (opened {}).Permitted misled := by decide +kernel
  exact ⟨rfl, hpermitted, run_keepsToWords rfl hpermitted, by decide +kernel, by decide +kernel⟩

end Tenancy

end Kernel16
