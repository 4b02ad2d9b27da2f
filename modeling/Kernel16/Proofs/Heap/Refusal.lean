import Kernel16.Proofs.Heap.Session

/-!
# Which addresses are taken back

A client may hand any address to the heap.  The checks that it makes are walks
through memory that clients write to: along the links of the free blocks and
along the size words of all blocks.  In every state that a session reaches they
decide exactly whether the address is the payload of a block that is held.  All
other addresses are refused for the reason that applies, and nothing changes.
-/

namespace Kernel16

namespace Partition

variable {p : Partition} {a : Nat} {b : Block} {e : FreeRefusal}

/-- A payload can lie at `a`, as far as the range and the alignment tell. -/
def Admits (p : Partition) (a : Nat) : Prop :=
  p.start + headerSize ≤ a ∧ a < p.limit ∧ (a - p.start) % heapAlign = 0

/-- Why `a` is not the payload of a live block.  No reason is a bad size. -/
def Refuses (p : Partition) (a : Nat) : FreeRefusal → Prop
  | .null => a = 0
  | .outside => a ≠ 0 ∧ (a < p.start + headerSize ∨ p.limit ≤ a)
  | .unaligned =>
      p.start + headerSize ≤ a ∧ a < p.limit ∧ (a - p.start) % heapAlign ≠ 0
  | .alreadyFree => p.Admits a ∧ ∃ b ∈ p.free, b.Covers (a - headerSize)
  | .noPayload =>
      p.Admits a ∧ ∃ b ∈ p.live, b.addr < a - headerSize ∧ a - headerSize < b.limit
  | .badSize => False

theorem Admits.refusal_eq (ha : p.Admits a) :
    p.refusal a =
      if ∃ b ∈ p.free, b.Covers (a - headerSize) then .alreadyFree else .noPayload := by
  obtain ⟨hlow, hhigh, haligned⟩ := ha
  have hpos : 0 < headerSize := by decide
  rw [refusal, if_neg (by omega), if_neg (by omega), if_neg (not_not.mpr haligned)]

theorem refusal_of_not_admits (ha : ¬ p.Admits a) :
    p.refusal a =
      if a = 0 then .null
      else if a < p.start + headerSize ∨ p.limit ≤ a then .outside
      else .unaligned := by
  unfold refusal
  split
  next => rfl
  next =>
    split
    next => rfl
    next hrange =>
      rw [if_pos]
      intro haligned
      exact ha ⟨by omega, by omega, haligned⟩

section Valid

variable (hp : p.Valid)

include hp

theorem Valid.admits_payload (hb : b ∈ p.blocks) (hroom : headerSize < b.size) :
    p.Admits b.payload := by
  obtain ⟨hlow, hhigh, _⟩ := hp.of_mem hb
  refine ⟨Nat.add_le_add_right hlow _, ?_, hp.payload_aligned hb⟩
  unfold Block.limit at hhigh
  unfold Block.payload
  omega

theorem Valid.covers_of_payload (hb : b ∈ p.live) (hpayload : b.payload = a) :
    b.addr = a - headerSize ∧ b.Covers (a - headerSize) := by
  have haddr : b.addr = a - headerSize := by
    unfold Block.payload at hpayload
    omega
  exact ⟨haddr, haddr ▸ hp.covers_addr (mem_of_live hb)⟩

/-- The blocks tile the pool: a header that no free block covers, and that is not the
one of a live block, lies strictly inside a live block. -/
theorem Valid.inside_live_iff (ha : p.Admits a) :
    (∃ b ∈ p.live, b.addr < a - headerSize ∧ a - headerSize < b.limit) ↔
      (∀ b ∈ p.live, b.payload ≠ a) ∧ ¬ ∃ b ∈ p.free, b.Covers (a - headerSize) := by
  obtain ⟨hlow, hhigh, _⟩ := ha
  constructor
  · intro h
    obtain ⟨b, hb, hbelow, habove⟩ := h
    have hcovers : b.Covers (a - headerSize) := ⟨Nat.le_of_lt hbelow, habove⟩
    constructor
    · intro c hc hpayload
      obtain ⟨haddr, hccovers⟩ := hp.covers_of_payload hc hpayload
      have heq := hp.eq_of_covers (mem_of_live hb) (mem_of_live hc)
        hcovers hccovers
      rw [heq] at hbelow
      omega
    · intro hfree
      exact hp.not_covers_of_free hfree hb hcovers
  · intro h
    obtain ⟨hpayload, hfree⟩ := h
    obtain ⟨b, hb, hcovers⟩ := hp.exists_covers (x := a - headerSize) (by omega) (by omega)
    rcases mem_blocks.mp hb with hbfree | hblive
    · exact absurd ⟨b, hbfree, hcovers⟩ hfree
    · have hne := hpayload b hblive
      have hbelow : b.addr ≠ a - headerSize := by
        unfold Block.payload at hne
        omega
      exact ⟨b, hblive, Nat.lt_of_le_of_ne hcovers.1 hbelow, hcovers.2⟩

theorem Valid.refuses_iff_of_admits (ha : p.Admits a) :
    p.Refuses a e ↔ (∀ b ∈ p.live, b.payload ≠ a) ∧ e = p.refusal a := by
  have hpos : 0 < headerSize := by decide
  have hlow : p.start + headerSize ≤ a := ha.1
  have hhigh : a < p.limit := ha.2.1
  have haligned : (a - p.start) % heapAlign = 0 := ha.2.2
  rw [ha.refusal_eq]
  by_cases hfree : ∃ b ∈ p.free, b.Covers (a - headerSize)
  · have hpayload : ∀ b ∈ p.live, b.payload ≠ a := by
      intro b hb hba
      exact hp.not_covers_of_free hfree hb (hp.covers_of_payload hb hba).2
    rw [if_pos hfree, and_iff_right hpayload]
    cases e with
    | alreadyFree => exact iff_of_true ⟨ha, hfree⟩ rfl
    | noPayload =>
        refine iff_of_false ?_ FreeRefusal.noConfusion
        intro h
        exact ((hp.inside_live_iff ha).mp h.2).2 hfree
    | unaligned => exact iff_of_false (fun h => h.2.2 haligned) FreeRefusal.noConfusion
    | badSize => exact iff_of_false id FreeRefusal.noConfusion
    | null | outside =>
        refine iff_of_false ?_ FreeRefusal.noConfusion
        simp only [Refuses]
        omega
  · rw [if_neg hfree]
    cases e with
    | noPayload =>
        simp only [Refuses, ha, true_and, and_true, hp.inside_live_iff ha, hfree,
          not_false_eq_true]
    | alreadyFree =>
        exact iff_of_false (fun h => hfree h.2) (fun h => FreeRefusal.noConfusion h.2)
    | unaligned =>
        exact iff_of_false (fun h => h.2.2 haligned) (fun h => FreeRefusal.noConfusion h.2)
    | badSize => exact iff_of_false id (fun h => FreeRefusal.noConfusion h.2)
    | null | outside =>
        refine iff_of_false ?_ (fun h => FreeRefusal.noConfusion h.2)
        simp only [Refuses]
        omega

theorem Valid.refuses_iff_of_not_admits (ha : ¬ p.Admits a) :
    p.Refuses a e ↔ (∀ b ∈ p.live, b.payload ≠ a) ∧ e = p.refusal a := by
  have hpayload : ∀ b ∈ p.live, b.payload ≠ a := by
    intro b hb hba
    exact ha (hba ▸ hp.admits_payload (mem_of_live hb) (hp.live_room b hb))
  have hstart := hp.start_pos
  rw [and_iff_right hpayload, refusal_of_not_admits ha]
  unfold Admits at ha
  have hpos : 0 < headerSize := by decide
  by_cases hzero : a = 0
  · rw [if_pos hzero]
    cases e <;> simp only [Refuses, Admits, reduceCtorEq, iff_true, iff_false] <;> omega
  · rw [if_neg hzero]
    by_cases hrange : a < p.start + headerSize ∨ p.limit ≤ a
    · rw [if_pos hrange]
      cases e <;> simp only [Refuses, Admits, reduceCtorEq, iff_true, iff_false] <;> omega
    · rw [if_neg hrange]
      cases e <;> simp only [Refuses, Admits, reduceCtorEq, iff_true, iff_false] <;> omega

/-- Every address is either taken back or refused, and refused for one reason only. -/
theorem Valid.giveBack_eq_error_iff_refuses : p.giveBack a = .error e ↔ p.Refuses a e := by
  rw [giveBack_eq_error_iff]
  by_cases ha : p.Admits a
  · exact (hp.refuses_iff_of_admits ha).symm
  · exact (hp.refuses_iff_of_not_admits ha).symm

end Valid

end Partition

namespace Session

/-- The pool as its links show it, with the blocks that clients hold. -/
def partition (u : Session) : Partition where
  start := u.arena.heap.start
  limit := u.arena.heap.limit
  free := u.arena.freeBlocks
  live := u.held

variable {u : Session} {p : Partition} {a : Nat} {e : FreeRefusal}

theorem Follows.partition_eq (h : u.Follows p) : u.partition = p := by
  rw [partition, h.represents.start_eq, h.represents.limit_eq, h.represents.freeBlocks_eq h.valid,
    ← h.live_eq]

theorem Follows.free_eq_error_iff (h : u.Follows p) :
    u.arena.free a = .error e ↔ p.giveBack a = .error e := by
  constructor
  · intro herror
    cases hresult : p.giveBack a with
    | error e' =>
        rw [h.represents.free_eq_error h.valid hresult] at herror
        cases herror
        rfl
    | ok result =>
        obtain ⟨t, hok, _⟩ := h.represents.free_eq_ok h.valid hresult
        rw [hok] at herror
        cases herror
  · exact h.represents.free_eq_error h.valid

theorem Follows.exists_free_eq_ok_iff (h : u.Follows p) {size : Nat} :
    (∃ t, u.arena.free a = .ok (size, t)) ↔ ∃ b ∈ u.held, b.payload = a ∧ b.size = size := by
  rw [← h.live_eq]
  constructor
  · intro hok
    obtain ⟨t, ht⟩ := hok
    obtain ⟨q, hq, _⟩ := h.represents.exists_of_free h.valid ht
    obtain ⟨b, hb, hpayload, hsize, _⟩ := Partition.exists_of_giveBack hq
    exact ⟨b, hb, hpayload, hsize⟩
  · intro hheld
    obtain ⟨b, hb, rfl, rfl⟩ := hheld
    obtain ⟨q, hq⟩ := h.valid.giveBack_payload hb
    obtain ⟨t, ht, _⟩ := h.represents.free_eq_ok h.valid hq
    exact ⟨t, ht⟩

/-- Whatever clients did, an address is taken back exactly if it is the payload of a
block that is held, and the answer is the size of that block.  Every other address is
refused, with the reason that applies, and leaves memory and heap alone. -/
theorem run_free_iff {s t : Arena} {start size managed : Nat}
    (hfits : start + size < wordLimit) (hinit : s.init start size = .ok (managed, t))
    {requests : List HeapRequest} (hconfined : (opened t).Confined requests) (a : Nat) :
    let u := ((opened t).run requests).2
    (∀ size, (∃ t', u.arena.free a = .ok (size, t')) ↔
        ∃ b ∈ u.held, b.payload = a ∧ b.size = size) ∧
      (∀ e, u.arena.free a = .error e ↔ u.partition.Refuses a e) ∧
      ∀ e, u.partition.Refuses a e → u.perform (.free a) = (.freed (.error e), u) := by
  intro u
  have hrun := ((follows_of_init hinit hfits).run hconfined).2
  have herror : ∀ e, u.arena.free a = .error e ↔ u.partition.Refuses a e := by
    intro e
    rw [hrun.free_eq_error_iff, hrun.partition_eq, hrun.valid.giveBack_eq_error_iff_refuses]
  refine ⟨fun size => hrun.exists_free_eq_ok_iff, herror, ?_⟩
  intro e hrefuses
  simp only [perform, (herror e).mpr hrefuses]

/-- A client writes what looks like a header into its payload and hands in the address
behind it. -/
def forgery : List HeapRequest :=
  [.allocate 64, .allocate 8, .write 4128 (Memory.littleEndian 8 32 ++ Memory.littleEndian 8 0)]

theorem run_free_iff_forgery :
    4099 + 256 < wordLimit ∧ ({} : Arena).init 4099 256 = .ok (248, smallPool) ∧
      (opened smallPool).Confined forgery ∧
      ((opened smallPool).run forgery).2.arena.free 4144 = .error .noPayload ∧
      ∃ t, ((opened smallPool).run forgery).2.arena.free 4120 = .ok (80, t) := by
  have hfits : 4099 + 256 < wordLimit := by decide
  have hconfined : (opened smallPool).Confined forgery := by decide +kernel
  have hrun := fun a => run_free_iff hfits init_smallPool hconfined a
  have hheld : ((opened smallPool).run forgery).2.held = [⟨4184, 24⟩, ⟨4104, 80⟩] := by
    decide +kernel
  have hrange : ((opened smallPool).run forgery).2.arena.heap.start = 4104 ∧
      ((opened smallPool).run forgery).2.arena.heap.limit = 4352 := by
    decide +kernel
  refine ⟨hfits, init_smallPool, hconfined, ?_, ?_⟩
  · refine ((hrun 4144).2.1 _).mpr ⟨?_, ⟨4104, 80⟩, ?_, by decide⟩
    · unfold Partition.Admits partition
      rw [hrange.1, hrange.2]
      decide
    · rw [partition, hheld]
      decide
  · refine ((hrun 4120).1 80).mpr ⟨⟨4104, 80⟩, ?_, by decide⟩
    rw [hheld]
    decide

end Session

end Kernel16
