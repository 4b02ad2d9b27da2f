import Kernel16.Proofs.Heap.Representation

/-!
# Blocks that are handed out

For clients of the heap it does not matter which blocks are free, only which
are handed out.  An arena holds out a list of blocks if it represents some
partition of its pool with these live blocks.  Then the blocks are apart from
each other and from the free list, each can be given back, and their sizes and
the free bytes add up to the pool.
-/

namespace Kernel16

namespace Arena

/-- A pool of `managed` bytes from which the blocks `held` are handed out. -/
def Holds (s : Arena) (managed : Nat) (held : List Block) : Prop :=
  ∃ p : Partition, s.Represents p ∧ p.Valid ∧ p.live.Perm held ∧ p.limit - p.start = managed

variable {s t : Arena} {managed n a size : Nat} {held : List Block} {b c : Block}

theorem Holds.perm {others : List Block} (h : s.Holds managed held) (hperm : held.Perm others) :
    s.Holds managed others := by
  obtain ⟨p, hrepresents, hvalid, hlive, hmanaged⟩ := h
  exact ⟨p, hrepresents, hvalid, hlive.trans hperm, hmanaged⟩

theorem holds_of_init {start : Nat} (h : s.init start size = .ok (managed, t))
    (hfits : start + size < wordLimit) : t.Holds managed [] := by
  obtain ⟨hrepresents, hvalid⟩ := represents_of_init h hfits
  refine ⟨_, hrepresents, hvalid, .nil, ?_⟩
  exact Nat.add_sub_cancel_left _ _

/-! ## Requests -/

theorem Holds.allocate (h : s.Holds managed held) (hresult : s.allocate n = some (a, t)) :
    t.Holds managed (t.blockAt a :: held) ∧ (t.blockAt a).payload = a ∧
      n + headerSize ≤ (t.blockAt a).size := by
  obtain ⟨p, hrepresents, hvalid, hlive, hmanaged⟩ := h
  obtain ⟨q, hq, hrepresents', hvalid', hlive', hpayload, hroom⟩ :=
    hrepresents.exists_of_allocate hvalid hresult
  obtain ⟨hstart, hlimit⟩ := Partition.range_of_allocate hq
  refine ⟨⟨q, hrepresents', hvalid', ?_, ?_⟩, hpayload, hroom⟩
  · rw [hlive']
    exact hlive.cons _
  · rw [hstart, hlimit, hmanaged]

theorem Holds.free (h : s.Holds managed held) (hresult : s.free a = .ok (size, t)) :
    t.Holds managed (held.filter (·.payload ≠ a)) := by
  obtain ⟨p, hrepresents, hvalid, hlive, hmanaged⟩ := h
  obtain ⟨q, hq, hrepresents', hvalid', hlive'⟩ := hrepresents.exists_of_free hvalid hresult
  obtain ⟨hstart, hlimit⟩ := Partition.range_of_giveBack hq
  refine ⟨q, hrepresents', hvalid', ?_, ?_⟩
  · rw [hlive']
    exact hlive.filter _
  · rw [hstart, hlimit, hmanaged]

theorem Holds.exists_free (h : s.Holds managed held) (hb : b ∈ held) :
    ∃ t, s.free b.payload = .ok (b.size, t) := by
  obtain ⟨p, hrepresents, hvalid, hlive, _⟩ := h
  obtain ⟨q, hq⟩ := hvalid.giveBack_payload (hlive.mem_iff.mpr hb)
  obtain ⟨t, ht, _⟩ := hrepresents.free_eq_ok hvalid hq
  exact ⟨t, ht⟩

/-- A block that comes back is the first to be tried. -/
theorem Holds.freeBlocks_free (h : s.Holds managed held) (hb : b ∈ held)
    (hresult : s.free b.payload = .ok (size, t)) : t.freeBlocks = b :: s.freeBlocks := by
  obtain ⟨p, hrepresents, hvalid, hlive, _⟩ := h
  obtain ⟨q, hq, hrepresents', hvalid', _⟩ := hrepresents.exists_of_free hvalid hresult
  obtain ⟨c, hc, hpayload, _, rfl⟩ := Partition.exists_of_giveBack hq
  have heq : c = b := hvalid.eq_of_addr (Partition.mem_of_live hc)
    (Partition.mem_of_live (hlive.mem_iff.mpr hb)) (Nat.add_right_cancel hpayload)
  rw [hrepresents'.freeBlocks_eq hvalid', hrepresents.freeBlocks_eq hvalid, heq]

/-- What is handed out was a part of one free block, or all of it. -/
theorem Holds.inside_free (h : s.Holds managed held) (hresult : s.allocate n = some (a, t)) :
    ∃ c ∈ s.freeBlocks, (t.blockAt a).addr = c.addr ∧ (t.blockAt a).limit ≤ c.limit := by
  obtain ⟨p, hrepresents, hvalid, _, _⟩ := h
  obtain ⟨q, hq, _, _, hlive, _⟩ := hrepresents.exists_of_allocate hvalid hresult
  obtain ⟨_, c, _, _, hfree, _, hle, _, rfl⟩ := Partition.exists_of_allocate hq
  have hblock : t.blockAt a = (c.cut (Partition.neededFor n)).1 := (List.cons.inj hlive).1.symm
  refine ⟨c, ?_, ?_, ?_⟩
  · rw [hrepresents.freeBlocks_eq hvalid, hfree]
    simp
  · rw [hblock, Block.addr_cut]
  · rw [hblock]
    exact Block.limit_cut_le hle

theorem Holds.write (h : s.Holds managed held) (hb : b ∈ held) {bytes : List UInt8}
    (hlow : b.payload ≤ a) (hhigh : a + bytes.length ≤ b.limit) :
    ({ s with memory := s.memory.writeBytes a bytes } : Arena).Holds managed held := by
  obtain ⟨p, hrepresents, hvalid, hlive, hmanaged⟩ := h
  have hwritten := hrepresents.write hvalid (hlive.mem_iff.mpr hb) hlow hhigh
  exact ⟨p, hwritten, hvalid, hlive, hmanaged⟩

theorem Holds.setWord (h : s.Holds managed held) (hb : b ∈ held) {value : Nat}
    (hlow : b.payload ≤ a) (hhigh : a + Memory.wordSize ≤ b.limit) :
    ({ s with memory := s.memory.setWord a value } : Arena).Holds managed held := by
  refine h.write hb hlow ?_
  rw [Memory.length_littleEndian]
  exact hhigh

/-! ## Where the blocks lie -/

theorem Holds.blockAt_payload (h : s.Holds managed held) (hb : b ∈ held) :
    s.blockAt b.payload = b := by
  obtain ⟨p, hrepresents, _, hlive, _⟩ := h
  have hsize := hrepresents.sizeAt (Partition.mem_of_live (hlive.mem_iff.mpr hb))
  have haddr : b.payload - headerSize = b.addr := Nat.add_sub_cancel _ _
  rw [blockAt, haddr, hsize]

theorem Holds.apart (h : s.Holds managed held) : held.Pairwise Block.Apart := by
  obtain ⟨p, _, hvalid, hlive, _⟩ := h
  have hapart := (List.pairwise_append.mp hvalid.apart).2.1
  exact (hlive.pairwise_iff Block.Apart.symm).mp hapart

theorem Holds.apart_of_ne (h : s.Holds managed held) (hb : b ∈ held) (hc : c ∈ held)
    (hne : b ≠ c) : b.Apart c :=
  h.apart.forall hb hc hne

theorem Holds.nodup (h : s.Holds managed held) : held.Nodup := by
  obtain ⟨p, _, hvalid, hlive, _⟩ := h
  exact hlive.nodup_iff.mp (List.nodup_append.mp hvalid.nodup).2.1

theorem Holds.dvd_payload (h : s.Holds managed held) (hb : b ∈ held) :
    heapAlign ∣ b.payload := by
  obtain ⟨p, _, hvalid, hlive, _⟩ := h
  have hmem := Partition.mem_of_live (hlive.mem_iff.mpr hb)
  exact Nat.dvd_add (hvalid.dvd_addr hmem) ⟨2, rfl⟩

theorem Holds.limit_lt (h : s.Holds managed held) (hb : b ∈ held) : b.limit < wordLimit := by
  obtain ⟨p, _, hvalid, hlive, _⟩ := h
  exact hvalid.block_limit_lt (Partition.mem_of_live (hlive.mem_iff.mpr hb))

theorem Holds.payload_le_limit (h : s.Holds managed held) (hb : b ∈ held) :
    b.payload ≤ b.limit := by
  obtain ⟨p, _, hvalid, hlive, _⟩ := h
  have hroom := hvalid.live_room b (hlive.mem_iff.mpr hb)
  exact Nat.add_le_add_left (Nat.le_of_lt hroom) _

theorem Holds.inside (h : s.Holds managed held) (hb : b ∈ s.freeBlocks ∨ b ∈ held) :
    s.heap.start ≤ b.addr ∧ b.limit ≤ s.heap.limit := by
  obtain ⟨p, hrepresents, hvalid, hlive, _⟩ := h
  rw [hrepresents.freeBlocks_eq hvalid, ← hlive.mem_iff] at hb
  obtain ⟨hstart, hlimit, _⟩ := hvalid.of_mem (Partition.mem_blocks.mpr hb)
  rw [hrepresents.start_eq, hrepresents.limit_eq]
  exact ⟨hstart, hlimit⟩

theorem Holds.eq_of_payload (h : s.Holds managed held) (hb : b ∈ held) (hc : c ∈ held)
    (hpayload : b.payload = c.payload) : b = c := by
  rw [← h.blockAt_payload hb, ← h.blockAt_payload hc, hpayload]

theorem Holds.apart_free (h : s.Holds managed held) (hb : b ∈ held) (hc : c ∈ s.freeBlocks) :
    c.Apart b := by
  obtain ⟨p, hrepresents, hvalid, hlive, _⟩ := h
  rw [hrepresents.freeBlocks_eq hvalid] at hc
  exact (List.pairwise_append.mp hvalid.apart).2.2 c hc b (hlive.mem_iff.mpr hb)

theorem Holds.not_mem_free (h : s.Holds managed held) (hb : b ∈ held) : b ∉ s.freeBlocks := by
  obtain ⟨p, hrepresents, hvalid, hlive, _⟩ := h
  rw [hrepresents.freeBlocks_eq hvalid]
  exact hvalid.not_mem_free (hlive.mem_iff.mpr hb)

/-- Free bytes and blocks that are handed out make up the pool. -/
theorem Holds.usage (h : s.Holds managed held) :
    s.usage.managed = managed ∧ s.usage.free + (held.map Block.size).sum = managed := by
  obtain ⟨p, hrepresents, hvalid, hlive, hmanaged⟩ := h
  have hsum := hvalid.sum_size
  have hheld := (hlive.map Block.size).sum_nat
  rw [hrepresents.usage_eq hvalid]
  exact ⟨hmanaged, by rw [Partition.usage, ← hheld, hsum, hmanaged]⟩

end Arena

end Kernel16
