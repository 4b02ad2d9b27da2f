import Kernel16.Proofs.Heap.Refusal

/-!
# Block boundaries are permanent

Blocks are cut and never joined.  A request leaves the blocks of the pool as they are,
or cuts one that was free in two, so an address at which a block starts stays the start of
a block for the rest of the run.  The front of a cut block has room for a payload.  Hence an
address that was once handed out is forever the payload of some block: it can be given
back when that block is held, and is refused as already free at all other times.
-/

namespace Kernel16

/-! ## The blocks along the size words -/

/-- The blocks met by following size words from address `a` up to `limit`, at most `bound`
of them. -/
def Memory.sizeChain (m : Memory) (limit : Nat) : (bound a : Nat) → List Block
  | 0, _ => []
  | bound + 1, a =>
      if limit ≤ a then []
      else ⟨a, m.sizeAt a⟩ :: m.sizeChain limit bound (a + m.sizeAt a)

/-- All blocks of the pool, in the order of their addresses. -/
def Arena.blocks (s : Arena) : List Block :=
  s.memory.sizeChain s.heap.limit s.heap.size s.heap.start

theorem Memory.sizeChain_eq_of_tiles {m : Memory} {limit a bound : Nat} {blocks : List Block}
    (htiles : Tiles limit a blocks) (hsize : ∀ b ∈ blocks, m.sizeAt b.addr = b.size)
    (hbound : blocks.length ≤ bound) : m.sizeChain limit bound a = blocks := by
  induction blocks generalizing a bound with
  | nil =>
      have hend : a = limit := htiles
      cases bound with
      | zero => rfl
      | succ bound => rw [sizeChain, if_pos (Nat.le_of_eq hend.symm)]
  | cons b rest ih =>
      obtain ⟨rfl, hsized, hrest⟩ := htiles
      obtain ⟨hbsize, hrestSize⟩ := List.forall_mem_cons.mp hsize
      obtain ⟨bound, rfl⟩ := Nat.exists_eq_add_of_le' hbound
      have hlt : b.addr < limit := by
        have hle := hrest.le
        have hpos : 0 < headerSize := by decide
        unfold Block.limit at hle
        unfold Block.Sized at hsized
        omega
      have htail := ih hrest hrestSize (Nat.le_add_left _ bound)
      rw [Block.limit] at htail
      rw [List.length_cons, ← Nat.add_assoc, sizeChain, if_neg (Nat.not_le.mpr hlt), hbsize, htail]

theorem Arena.Represents.blocks_eq {s : Arena} {p : Partition} {blocks : List Block}
    (hs : s.Represents p) (htiles : Tiles p.limit p.start blocks)
    (hperm : blocks.Perm p.blocks) : s.blocks = blocks := by
  have hlength := htiles.add_length_le
  rw [Arena.blocks, Heap.size, hs.start_eq, hs.limit_eq]
  exact Memory.sizeChain_eq_of_tiles htiles (fun b hb => hs.sizeAt (hperm.mem_iff.mp hb))
    (by omega)

/-! ## Cuts -/

/-- The blocks stay, or one that was free is cut in two.  The front has room for a payload. -/
inductive Refines (free blocks : List Block) : List Block → Prop
  | same : Refines free blocks blocks
  | cut {before after : List Block} {b front back : Block}
      (blocks_eq : blocks = before ++ b :: after) (was_free : b ∈ free)
      (front_addr : front.addr = b.addr) (room : headerSize < front.size)
      (back_addr : back.addr = front.limit) (back_limit : back.limit = b.limit) :
      Refines free blocks (before ++ front :: back :: after)

/-- Each start of a block starts one still, and each payload is one still. -/
structure Persist (blocks later : List Block) : Prop where
  start : ∀ b ∈ blocks, ∃ c ∈ later, c.addr = b.addr ∧ (headerSize < b.size → headerSize < c.size)
  length_le : blocks.length ≤ later.length

theorem Persist.refl (blocks : List Block) : Persist blocks blocks :=
  ⟨fun b hb => ⟨b, hb, rfl, id⟩, Nat.le_refl _⟩

theorem Persist.trans {xs ys zs : List Block} (h : Persist xs ys) (h' : Persist ys zs) :
    Persist xs zs := by
  refine ⟨?_, Nat.le_trans h.length_le h'.length_le⟩
  intro b hb
  obtain ⟨c, hc, haddr, hroom⟩ := h.start b hb
  obtain ⟨d, hd, haddr', hroom'⟩ := h'.start c hc
  exact ⟨d, hd, haddr'.trans haddr, fun hb => hroom' (hroom hb)⟩

theorem Refines.persist {free blocks later : List Block} (h : Refines free blocks later) :
    Persist blocks later := by
  cases h with
  | same => exact .refl _
  | @cut before after b front back hblocks _ haddr hroom _ _ =>
      subst hblocks
      constructor
      · intro c hc
        rcases List.mem_append.mp hc with hbefore | hc
        · exact ⟨c, List.mem_append_left _ hbefore, rfl, id⟩
        rcases List.mem_cons.mp hc with rfl | hafter
        · exact ⟨front, by simp, haddr, fun _ => hroom⟩
        · exact ⟨c, by simp [hafter], rfl, id⟩
      · simp only [List.length_append, List.length_cons]
        omega

namespace Partition

variable {p q : Partition} {blocks : List Block}

theorem exists_refines_allocate {n a : Nat} (h : p.allocate n = some (a, q))
    (htiles : Tiles p.limit p.start blocks) (hperm : blocks.Perm p.blocks) :
    ∃ later, Tiles q.limit q.start later ∧ later.Perm q.blocks ∧ Refines p.free blocks later := by
  obtain ⟨before, b, after, hn, hfree, _, hle, _, rfl⟩ := exists_of_allocate h
  have hneeded := headerSize_lt_neededFor hn
  obtain ⟨xs, ys, hblocks, hcut, hperm'⟩ :=
    exists_tiling_take htiles hperm hfree (Nat.le_of_lt hneeded) (dvd_neededFor n) hle
  refine ⟨_, hcut, hperm', ?_⟩
  unfold Block.cut
  split
  next hrest =>
      refine .cut hblocks (by simp [hfree]) rfl hneeded rfl ?_
      simp only [Block.limit]
      omega
  next => exact hblocks ▸ .same

theorem Valid.blocks_giveBack (hp : p.Valid) {a size : Nat} (h : p.giveBack a = .ok (size, q)) :
    p.blocks.Perm q.blocks := by
  obtain ⟨b, hb, rfl, _, rfl⟩ := exists_of_giveBack h
  exact ((hp.perm_live hb).append_left p.free).trans List.perm_middle

theorem Valid.exists_refines_giveBack (hp : p.Valid) {a size : Nat}
    (h : p.giveBack a = .ok (size, q)) (htiles : Tiles p.limit p.start blocks)
    (hperm : blocks.Perm p.blocks) :
    ∃ later, Tiles q.limit q.start later ∧ later.Perm q.blocks ∧ Refines p.free blocks later := by
  obtain ⟨hstart, hlimit⟩ := range_of_giveBack h
  refine ⟨blocks, ?_, hperm.trans (hp.blocks_giveBack h), .same⟩
  rw [hstart, hlimit]
  exact htiles

theorem Valid.exists_refines_perform (hp : p.Valid) (r : HeapRequest)
    (htiles : Tiles p.limit p.start blocks) (hperm : blocks.Perm p.blocks) :
    ∃ later, Tiles (p.perform r).2.limit (p.perform r).2.start later ∧
      later.Perm (p.perform r).2.blocks ∧ Refines p.free blocks later := by
  cases r with
  | allocate n =>
      cases hresult : p.allocate n with
      | none =>
          simp only [perform, hresult]
          exact ⟨blocks, htiles, hperm, .same⟩
      | some result =>
          simp only [perform, hresult]
          exact exists_refines_allocate hresult htiles hperm
  | free a =>
      cases hresult : p.giveBack a with
      | error e =>
          simp only [perform, hresult]
          exact ⟨blocks, htiles, hperm, .same⟩
      | ok result =>
          simp only [perform, hresult]
          exact hp.exists_refines_giveBack hresult htiles hperm
  | usage => exact ⟨blocks, htiles, hperm, .same⟩
  | write a bytes => exact ⟨blocks, htiles, hperm, .same⟩

end Partition

/-! ## Runs -/

namespace Session

variable {u : Session} {p : Partition} {b : Block} {a : Nat} {requests : List HeapRequest}

theorem Follows.tiling (h : u.Follows p) :
    Tiles p.limit p.start u.arena.blocks ∧ u.arena.blocks.Perm p.blocks := by
  obtain ⟨blocks, htiles, hperm⟩ := h.valid.tiled
  rw [h.represents.blocks_eq htiles hperm]
  exact ⟨htiles, hperm⟩

theorem Follows.mem_blocks_of_held (h : u.Follows p) (hb : b ∈ u.held) : b ∈ u.arena.blocks := by
  rw [← h.live_eq] at hb
  exact h.tiling.2.mem_iff.mpr (Partition.mem_of_live hb)

theorem Follows.refines (h : u.Follows p) {r : HeapRequest} (hpermits : u.Permits r) :
    Refines u.arena.freeBlocks u.arena.blocks (u.perform r).2.arena.blocks := by
  obtain ⟨htiles, hperm⟩ := h.tiling
  obtain ⟨later, htiles', hperm', hrefines⟩ := h.valid.exists_refines_perform r htiles hperm
  rw [(h.perform hpermits).2.represents.blocks_eq htiles' hperm',
    h.represents.freeBlocks_eq h.valid]
  exact hrefines

theorem Follows.persist (h : u.Follows p) (hconfined : u.Confined requests) :
    Persist u.arena.blocks (u.run requests).2.arena.blocks := by
  induction requests generalizing u p with
  | nil => exact .refl _
  | cons r rest ih =>
      obtain ⟨hpermits, hrest⟩ := hconfined
      exact (h.refines hpermits).persist.trans (ih (h.perform hpermits).2 hrest)

theorem Follows.exists_held_of_allocated (h : u.Follows p) {r : HeapRequest}
    (ha : (u.perform r).1 = .allocated (some a)) :
    ∃ b ∈ (u.perform r).2.held, b.payload = a := by
  cases r with
  | allocate n =>
      cases hresult : u.arena.allocate n with
      | none =>
          simp only [Session.perform, hresult] at ha
          cases ha
      | some result =>
          obtain ⟨a', s⟩ := result
          simp only [Session.perform, hresult] at ha ⊢
          cases ha
          obtain ⟨_, _, _, _, _, hpayload, _⟩ := h.represents.exists_of_allocate h.valid hresult
          exact ⟨s.blockAt a, List.mem_cons_self, hpayload⟩
  | free a' =>
      cases hresult : u.arena.free a' <;> simp only [Session.perform, hresult] at ha <;> cases ha
  | usage => cases ha
  | write a' bytes => cases ha

/-- An address that was handed out is the payload of a block ever after. -/
theorem Follows.exists_block_of_allocated (h : u.Follows p) (hconfined : u.Confined requests)
    (ha : .allocated (some a) ∈ (u.run requests).1) :
    ∃ b ∈ (u.run requests).2.arena.blocks, b.payload = a ∧ headerSize < b.size := by
  induction requests generalizing u p with
  | nil => cases ha
  | cons r rest ih =>
      obtain ⟨hpermits, hrest⟩ := hconfined
      have hnext := (h.perform hpermits).2
      rcases List.mem_cons.mp ha with hnow | hlater
      · obtain ⟨b, hb, rfl⟩ := h.exists_held_of_allocated hnow.symm
        have hroom := hnext.valid.live_room b (hnext.live_eq ▸ hb)
        obtain ⟨c, hc, haddr, hkept⟩ := (hnext.persist hrest).start b (hnext.mem_blocks_of_held hb)
        exact ⟨c, hc, congrArg (· + headerSize) haddr, hkept hroom⟩
      · exact ih hnext hrest hlater

theorem Follows.free_eq_error_of_not_held (h : u.Follows p) (hb : b ∈ u.arena.blocks)
    (hroom : headerSize < b.size) (hheld : b ∉ u.held) :
    u.arena.free b.payload = .error .alreadyFree := by
  have hmem : b ∈ p.blocks := h.tiling.2.mem_iff.mp hb
  have hfree : b ∈ p.free := by
    rw [← h.live_eq] at hheld
    exact (Partition.mem_blocks.mp hmem).resolve_right hheld
  have haddr : b.payload - headerSize = b.addr := Nat.add_sub_cancel _ _
  rw [h.free_eq_error_iff, h.valid.giveBack_eq_error_iff_refuses]
  exact ⟨h.valid.admits_payload hmem hroom, b, hfree, haddr ▸ h.valid.covers_addr hmem⟩

/-- From this session on, blocks are cut and never joined. -/
structure Permanent (u : Session) : Prop where
  tiles : Tiles u.arena.heap.limit u.arena.heap.start u.arena.blocks
  step : ∀ r, u.Permits r →
    Refines u.arena.freeBlocks u.arena.blocks (u.perform r).2.arena.blocks
  start : ∀ later, u.Confined later →
    ∀ b ∈ u.arena.blocks, ∃ c ∈ (u.run later).2.arena.blocks, c.addr = b.addr
  length_le : ∀ later, u.Confined later →
    u.arena.blocks.length ≤ (u.run later).2.arena.blocks.length
  usage_of_all_free : u.held = [] →
    u.arena.usage.free = u.arena.heap.size ∧ u.arena.usage.blocks = u.arena.blocks.length

theorem Follows.permanent (h : u.Follows p) : u.Permanent where
  tiles := by
    rw [h.represents.start_eq, h.represents.limit_eq]
    exact h.tiling.1
  step := fun _ hpermits => h.refines hpermits
  start := by
    intro later hconfined b hb
    obtain ⟨c, hc, haddr, _⟩ := (h.persist hconfined).start b hb
    exact ⟨c, hc, haddr⟩
  length_le := fun _ hconfined => (h.persist hconfined).length_le
  usage_of_all_free := by
    intro hheld
    rw [← h.live_eq] at hheld
    have hsum := h.valid.sum_size
    have hlength := h.tiling.2.length_eq
    rw [hheld] at hsum
    rw [Partition.blocks, hheld, List.append_nil] at hlength
    rw [h.represents.usage_eq h.valid, Heap.size, h.represents.start_eq, h.represents.limit_eq]
    exact ⟨hsum, hlength.symm⟩

/-- Blocks are cut and never joined, so an address that was handed out stays the payload of
a block.  Given back at any later time, it is taken if that block is held, and refused as
already free if not. -/
theorem run_permanent {s t : Arena} {start size managed : Nat}
    (hfits : start + size < wordLimit) (hinit : s.init start size = .ok (managed, t))
    (hconfined : (opened t).Confined requests) :
    let u := ((opened t).run requests).2
    u.Permanent ∧ u.arena.heap.size = managed ∧
      ∀ a, .allocated (some a) ∈ ((opened t).run requests).1 →
        ∃ b ∈ u.arena.blocks, b.payload = a ∧
          (b ∈ u.held ∧ (∃ t', u.arena.free a = .ok (b.size, t')) ∨
            b ∉ u.held ∧ u.arena.free a = .error .alreadyFree) := by
  intro u
  have hopened := follows_of_init hinit hfits
  have hrun := (hopened.run hconfined).2
  have hrange := Partition.range_run (Partition.whole t.heap.start managed) requests
  refine ⟨hrun.permanent, ?_, ?_⟩
  · rw [Heap.size, hrun.represents.start_eq, hrun.represents.limit_eq, hrange.1, hrange.2]
    exact Nat.add_sub_cancel_left _ _
  · intro a ha
    obtain ⟨b, hb, rfl, hroom⟩ := hopened.exists_block_of_allocated hconfined ha
    refine ⟨b, hb, rfl, ?_⟩
    by_cases hheld : b ∈ u.held
    · exact Or.inl ⟨hheld, hrun.exists_free_eq_ok_iff.mpr ⟨b, hheld, rfl, rfl⟩⟩
    · exact Or.inr ⟨hheld, hrun.free_eq_error_of_not_held hb hroom hheld⟩

/-- The first block is cut anew after it came back, and the second one comes back too. -/
def reuseAndReturn : List HeapRequest := reuse ++ [.free 4160]

theorem run_permanent_reuse :
    4099 + 256 < wordLimit ∧ ({} : Arena).init 4099 256 = .ok (248, smallPool) ∧
      (opened smallPool).Confined reuseAndReturn ∧
      (∃ t, ((opened smallPool).run reuseAndReturn).2.arena.free 4120 = .ok (24, t)) ∧
      ((opened smallPool).run reuseAndReturn).2.arena.free 4160 = .error .alreadyFree := by
  have hfits : 4099 + 256 < wordLimit := by decide
  have hconfined : (opened smallPool).Confined reuseAndReturn := by decide +kernel
  have hanswers : ((opened smallPool).run reuseAndReturn).1 =
      [.allocated (some 4120), .written, .allocated (some 4160), .freed (.ok 40),
        .freed (.error .unaligned), .allocated (some 4120), .freed (.ok 120)] :=
    ((follows_of_init init_smallPool hfits).run hconfined).1
  have hblocks : ((opened smallPool).run reuseAndReturn).2.arena.blocks =
      [⟨4104, 24⟩, ⟨4128, 16⟩, ⟨4144, 120⟩, ⟨4264, 88⟩] := by
    decide +kernel
  have hheld : ((opened smallPool).run reuseAndReturn).2.held = [⟨4104, 24⟩] := by
    decide +kernel
  obtain ⟨_, _, hpayload⟩ := run_permanent hfits init_smallPool hconfined
  rw [hanswers, hblocks, hheld] at hpayload
  obtain ⟨b, hb, hpayload₁, hfirst⟩ := hpayload 4120 (by simp)
  obtain ⟨c, hc, hpayload₂, hsecond⟩ := hpayload 4160 (by simp)
  obtain rfl : b = ⟨4104, 24⟩ := by
    clear hfirst
    revert b
    decide
  obtain rfl : c = ⟨4144, 120⟩ := by
    clear hsecond
    revert c
    decide
  exact ⟨hfits, init_smallPool, hconfined,
    (hfirst.resolve_right fun h => absurd h.1 (by decide)).2,
    (hsecond.resolve_left fun h => absurd h.1 (by decide)).2⟩

end Session

end Kernel16
