import Kernel16.Proofs.Heap.Holding

/-!
# What requests write

A request writes headers only: an allocation those of free blocks and the one
behind the part that it hands out, a block that is given back its own.  So the
bytes of the blocks that are handed out stay as their holders left them.
-/

namespace Kernel16

namespace Block

def InHeader (b : Block) (x : Nat) : Prop := b.addr ≤ x ∧ x < b.addr + headerSize

theorem tail_cut {b c : Block} {needed : Nat} (hle : needed ≤ b.size)
    (hc : c ∈ (b.cut needed).2) :
    c.addr = (b.cut needed).1.limit ∧ b.addr ≤ c.addr ∧ c.addr + headerSize ≤ b.limit := by
  unfold cut at hc ⊢
  split at hc
  next hrest =>
    obtain rfl := List.mem_singleton.mp hc
    rw [if_pos hrest]
    refine ⟨rfl, Nat.le_add_right _ _, ?_⟩
    dsimp only [limit]
    omega
  next => exact nomatch hc

end Block

/-- The address lies outside the header that the link is a part of. -/
def Link.Avoids : Link → Nat → Prop
  | .head, _ => True
  | .after block, x => x < block ∨ block + headerSize ≤ x

namespace Arena

variable {s t : Arena} {link : Link} {x : Nat}

theorem byte_redirect (h : link.Avoids x) (target : Nat) :
    (s.redirect link target).memory.byte x = s.memory.byte x := by
  cases link with
  | head => rfl
  | after block => exact Memory.agreeOff_setNext _ _ _ x h

/-- Carving a block writes the header that leads to it, its own header, and the header of
the tail that it leaves free. -/
theorem byte_take {b : Block} {needed : Nat} (hsize : s.memory.sizeAt b.addr = b.size)
    (hlimit : b.limit < wordLimit) (hle : needed ≤ b.size) (hlink : link.Avoids x)
    (hself : ¬ b.InHeader x) (htail : ∀ c ∈ (b.cut needed).2, ¬ c.InHeader x) :
    (s.take link b.addr needed).memory.byte x = s.memory.byte x := by
  unfold Block.InHeader at hself
  by_cases hrest : headerSize ≤ b.size - needed
  · have htail : ¬ Block.InHeader ⟨b.addr + needed, b.size - needed⟩ x :=
      htail _ (by simp [Block.cut, hrest])
    unfold Block.InHeader at htail
    rw [take_of_split hsize hlimit hle hrest]
    calc
      _ = ((s.setHeader (b.addr + needed) ⟨b.size - needed, s.memory.nextAt b.addr⟩).redirect
            link (b.addr + needed)).memory.byte x :=
          agreeOff_setNext_setSize _ _ _ _ x (by omega)
      _ = (s.setHeader (b.addr + needed)
            ⟨b.size - needed, s.memory.nextAt b.addr⟩).memory.byte x :=
          byte_redirect hlink _
      _ = s.memory.byte x := Memory.agreeOff_setHeader _ _ _ x (by dsimp only at htail; omega)
  · rw [take_of_whole hsize hrest]
    calc
      _ = (s.redirect link (s.memory.nextAt b.addr)).memory.byte x :=
          Memory.agreeOff_setNext _ _ _ x (by omega)
      _ = s.memory.byte x := byte_redirect hlink _

section Represents

variable {p : Partition} {n a : Nat}

/-- Where an allocation writes: in the header of a free block, or in that of the tail
that it leaves behind the part it hands out. -/
theorem Represents.header_of_allocate (hs : s.Represents p) (hp : p.Valid)
    (h : s.allocate n = some (a, t)) (hx : t.memory.byte x ≠ s.memory.byte x) :
    ∃ b ∈ p.free, ∃ c, (c = b ∨ c ∈ t.freeBlocks ∧ c.addr = (t.blockAt a).limit) ∧
      b.addr ≤ c.addr ∧ c.addr + headerSize ≤ b.limit ∧ c.InHeader x := by
  obtain ⟨q, hq, hrepresents, hvalid, hlive, _⟩ := hs.exists_of_allocate hp h
  obtain ⟨before, b, after, hn, hfree, hbefore, hle, _, rfl⟩ := Partition.exists_of_allocate hq
  have hblock : t.blockAt a = (b.cut (Partition.neededFor n)).1 := (List.cons.inj hlive).1.symm
  rw [hs.allocate_eq_take hp hn hfree hbefore hle] at h
  cases h
  have hmem : ∀ d ∈ before ++ b :: after, d ∈ p.free ∧ d.Sized := fun d hd =>
    have hd := hfree.symm ▸ hd
    ⟨hd, (hp.of_mem (Partition.mem_of_free hd)).2.2⟩
  have hb : b ∈ before ++ b :: after := by simp
  have hbmem := Partition.mem_of_free (hmem b hb).1
  by_contra hnone
  have hout : ∀ d ∈ before ++ b :: after, ¬ d.InHeader x := fun d hd hdx =>
    hnone ⟨d, (hmem d hd).1, d, .inl rfl, Nat.le_refl _,
      Nat.add_le_add_left (hmem d hd).2.1 _, hdx⟩
  refine hx (byte_take (hs.sizeAt hbmem) (hp.block_limit_lt hbmem) hle ?link (hout b hb) ?tail)
  case link =>
    rcases linkAfter_head_cases before with hhead | ⟨d, hd, hlink⟩
    · rw [hhead]
      trivial
    · have hd := hout d (List.mem_append_left _ hd)
      rw [hlink]
      unfold Block.InHeader at hd
      unfold Link.Avoids
      omega
  case tail =>
    intro c hc hcx
    obtain ⟨haddr, hlow, hhigh⟩ := Block.tail_cut hle hc
    refine hnone ⟨b, (hmem b hb).1, c, .inr ⟨?_, haddr.trans (congrArg _ hblock.symm)⟩, hlow,
      hhigh, hcx⟩
    rw [hrepresents.freeBlocks_eq hvalid]
    exact List.mem_append_right _ (List.mem_append_left _ hc)

end Represents

theorem exists_of_free {a size : Nat} (h : s.free a = .ok (size, t)) :
    t = { memory := s.memory.setNext (a - headerSize) s.heap.head
          heap := { s.heap with head := a - headerSize } } := by
  simp only [free] at h
  -- All branches but the last refuse the address.
  repeat' split at h
  all_goals simp only [reduceCtorEq, Except.ok.injEq, Prod.mk.injEq] at h
  exact h.2.symm

/-! ## Blocks that are handed out -/

section Holds

variable {managed n a size : Nat} {held : List Block} {b : Block}

theorem Holds.header_of_allocate (h : s.Holds managed held)
    (hresult : s.allocate n = some (a, t)) (hx : t.memory.byte x ≠ s.memory.byte x) :
    ∃ b ∈ s.freeBlocks, ∃ c, (c = b ∨ c ∈ t.freeBlocks ∧ c.addr = (t.blockAt a).limit) ∧
      b.addr ≤ c.addr ∧ c.addr + headerSize ≤ b.limit ∧ c.InHeader x := by
  obtain ⟨p, hrepresents, hvalid, _⟩ := h
  rw [hrepresents.freeBlocks_eq hvalid]
  exact hrepresents.header_of_allocate hvalid hresult hx

/-- What is given back is a block that was handed out, and only its next word changes. -/
theorem Holds.exists_of_free (h : s.Holds managed held) (hresult : s.free a = .ok (size, t)) :
    ∃ b ∈ held, b.payload = a ∧ t.heap = { s.heap with head := b.addr } ∧
      ∀ x, t.memory.byte x ≠ s.memory.byte x → b.addr + Memory.wordSize ≤ x ∧ x < b.payload := by
  obtain ⟨p, hrepresents, hvalid, hlive, _⟩ := h
  obtain ⟨q, hq, _⟩ := hrepresents.exists_of_free hvalid hresult
  obtain ⟨b, hb, rfl, _, _⟩ := Partition.exists_of_giveBack hq
  have haddr : b.payload - headerSize = b.addr := Nat.add_sub_cancel _ _
  have ht := Arena.exists_of_free hresult
  rw [haddr] at ht
  subst ht
  refine ⟨b, hlive.mem_iff.mp hb, rfl, rfl, ?_⟩
  intro x hx
  by_contra hout
  refine hx (Memory.byte_setWord_of_outside _ ?_)
  unfold Block.payload headerSize at hout
  unfold Memory.wordSize at hout ⊢
  omega

theorem Holds.byte_allocate (h : s.Holds managed held) (hresult : s.allocate n = some (a, t))
    (hb : b ∈ held) (hx : b.Covers x) : t.memory.byte x = s.memory.byte x := by
  by_contra hne
  obtain ⟨c, hc, d, _, hlow, hhigh, hdx⟩ := h.header_of_allocate hresult hne
  have hapart := h.apart_free hb hc
  unfold Block.Apart at hapart
  unfold Block.Covers at hx
  unfold Block.InHeader at hdx
  omega

theorem Holds.byte_free (h : s.Holds managed held) (hresult : s.free a = .ok (size, t))
    (hb : b ∈ held) (hlow : b.payload ≤ x) (hhigh : x < b.limit) :
    t.memory.byte x = s.memory.byte x := by
  by_contra hne
  obtain ⟨c, hc, _, _, hnext⟩ := h.exists_of_free hresult
  obtain ⟨hclow, hchigh⟩ := hnext x hne
  have hroom := h.payload_le_limit hc
  by_cases heq : b = c
  · rw [heq] at hlow
    omega
  · have hapart := h.apart_of_ne hb hc heq
    unfold Block.Apart at hapart
    unfold Block.payload at hlow hroom hchigh
    omega

end Holds

end Arena

end Kernel16
