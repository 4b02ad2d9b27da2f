import Kernel16.Heap.Allocate
import Kernel16.Heap.Free
import Mathlib.Algebra.Ring.Nat
import Mathlib.Data.List.Pairwise

/-!
# First fit on lists of blocks

The heap without its memory.  A partition divides a pool into free blocks, in
the order in which they are tried, and blocks that were handed out.  Requests
work on the two lists alone: the first free block that is large enough is cut,
its rest stays in its place, and a block that comes back goes to the front.

A partition is valid if its blocks lie end to end in the pool.  Cutting a block
refines such a tiling and giving a block back only moves it from one list to
the other, so every request keeps a partition valid.
-/

namespace Kernel16

namespace Block

def limit (b : Block) : Nat := b.addr + b.size

def Sized (b : Block) : Prop := headerSize ≤ b.size ∧ heapAlign ∣ b.size

def Covers (b : Block) (a : Nat) : Prop := b.addr ≤ a ∧ a < b.limit

instance (b : Block) (a : Nat) : Decidable (b.Covers a) :=
  inferInstanceAs (Decidable (_ ∧ _))

def Apart (b c : Block) : Prop := b.limit ≤ c.addr ∨ c.limit ≤ b.addr

theorem Apart.symm {b c : Block} (h : b.Apart c) : c.Apart b :=
  Or.symm h

instance : Std.Symm Apart := ⟨fun _ _ => Apart.symm⟩

theorem Apart.ne {b c : Block} (h : b.Apart c) (hb : b.Sized) : b ≠ c := by
  rintro rfl
  unfold Apart limit at h
  unfold Sized headerSize at hb
  omega

theorem contains_iff_covers {b : Block} (hb : b.limit < wordLimit) (a : Nat) :
    b.contains a = true ↔ b.Covers a := by
  have hwrap : wrapWord (b.addr + b.size) = b.limit := wrapWord_of_lt hb
  simp [contains, Covers, hwrap]

/-- What is handed out of a block for `needed` bytes, and what stays free.  A
rest that cannot hold a header goes with the block. -/
def cut (b : Block) (needed : Nat) : Block × List Block :=
  if headerSize ≤ b.size - needed then
    (⟨b.addr, needed⟩, [⟨b.addr + needed, b.size - needed⟩])
  else (b, [])

@[simp] theorem addr_cut (b : Block) (needed : Nat) :
    (b.cut needed).1.addr = b.addr := by
  unfold cut
  split <;> rfl

theorem le_size_cut {b : Block} {needed : Nat} (h : needed ≤ b.size) :
    needed ≤ (b.cut needed).1.size := by
  unfold cut
  split
  next => exact Nat.le_refl _
  next => exact h

theorem limit_cut_le {b : Block} {needed : Nat} (h : needed ≤ b.size) :
    (b.cut needed).1.limit ≤ b.limit := by
  unfold cut
  split
  next => exact Nat.add_le_add_left h _
  next => exact Nat.le_refl _

end Block

/-- The blocks lie end to end from an address up to `limit`. -/
def Tiles (limit : Nat) : Nat → List Block → Prop
  | a, [] => a = limit
  | a, b :: rest => b.addr = a ∧ b.Sized ∧ Tiles limit b.limit rest

section Tiles

variable {limit a : Nat} {blocks : List Block}

theorem tiles_append {xs ys : List Block} :
    Tiles limit a (xs ++ ys) ↔ ∃ c, Tiles c a xs ∧ Tiles limit c ys := by
  induction xs generalizing a with
  | nil => simp [Tiles]
  | cons b rest ih =>
      simp only [List.cons_append, Tiles, ih]
      constructor
      · rintro ⟨haddr, hsized, c, hrest, hys⟩
        exact ⟨c, ⟨haddr, hsized, hrest⟩, hys⟩
      · rintro ⟨c, ⟨haddr, hsized, hrest⟩, hys⟩
        exact ⟨haddr, hsized, c, hrest, hys⟩

theorem Tiles.le (h : Tiles limit a blocks) : a ≤ limit := by
  induction blocks generalizing a with
  | nil => exact Nat.le_of_eq h
  | cons b rest ih =>
      obtain ⟨rfl, _, hrest⟩ := h
      have hlimit := ih hrest
      unfold Block.limit at hlimit
      omega

theorem Tiles.of_mem {b : Block} (h : Tiles limit a blocks) (hb : b ∈ blocks) :
    a ≤ b.addr ∧ b.limit ≤ limit ∧ b.Sized := by
  induction blocks generalizing a with
  | nil => cases hb
  | cons c rest ih =>
      obtain ⟨rfl, hsized, hrest⟩ := h
      rcases List.mem_cons.mp hb with rfl | hmem
      · exact ⟨Nat.le_refl _, hrest.le, hsized⟩
      · have htail := ih hrest hmem
        have hle : c.addr ≤ c.limit := Nat.le_add_right _ _
        exact ⟨Nat.le_trans hle htail.1, htail.2⟩

theorem Tiles.aligned {b : Block} (h : Tiles limit a blocks)
    (ha : heapAlign ∣ a) (hb : b ∈ blocks) : heapAlign ∣ b.addr := by
  induction blocks generalizing a with
  | nil => cases hb
  | cons c rest ih =>
      obtain ⟨rfl, hsized, hrest⟩ := h
      rcases List.mem_cons.mp hb with rfl | hmem
      · exact ha
      · exact ih hrest (Nat.dvd_add ha hsized.2) hmem

theorem Tiles.apart (h : Tiles limit a blocks) : blocks.Pairwise Block.Apart := by
  induction blocks generalizing a with
  | nil => exact List.Pairwise.nil
  | cons b rest ih =>
      obtain ⟨_, _, hrest⟩ := h
      refine List.Pairwise.cons ?_ (ih hrest)
      intro c hc
      exact Or.inl (hrest.of_mem hc).1

theorem Tiles.exists_covers (h : Tiles limit a blocks) {x : Nat}
    (hax : a ≤ x) (hx : x < limit) : ∃ b ∈ blocks, b.Covers x := by
  induction blocks generalizing a with
  | nil =>
      have ha : a = limit := h
      omega
  | cons b rest ih =>
      obtain ⟨rfl, _, hrest⟩ := h
      by_cases hb : x < b.limit
      · exact ⟨b, List.mem_cons_self, hax, hb⟩
      · obtain ⟨c, hc, hcovers⟩ := ih hrest (Nat.le_of_not_lt hb)
        exact ⟨c, List.mem_cons_of_mem _ hc, hcovers⟩

theorem Tiles.add_sum_size (h : Tiles limit a blocks) :
    a + (blocks.map Block.size).sum = limit := by
  induction blocks generalizing a with
  | nil => exact h
  | cons b rest ih =>
      obtain ⟨rfl, _, hrest⟩ := h
      have hsum := ih hrest
      simp only [List.map_cons, List.sum_cons, Block.limit] at hsum ⊢
      omega

theorem Tiles.add_length_le (h : Tiles limit a blocks) : a + blocks.length ≤ limit := by
  induction blocks generalizing a with
  | nil => exact Nat.le_of_eq h
  | cons b rest ih =>
      obtain ⟨rfl, hsized, hrest⟩ := h
      have hlength := ih hrest
      have hpos : 0 < b.size := Nat.lt_of_lt_of_le (by decide) hsized.1
      unfold Block.limit at hlength
      rw [List.length_cons]
      omega

theorem Tiles.replace {b : Block} {xs ys middle : List Block}
    (h : Tiles limit a (xs ++ b :: ys)) (hmiddle : Tiles b.limit b.addr middle) :
    Tiles limit a (xs ++ (middle ++ ys)) := by
  obtain ⟨c, hxs, hb, _, hys⟩ := tiles_append.mp h
  subst hb
  exact tiles_append.mpr ⟨b.addr, hxs, tiles_append.mpr ⟨b.limit, hmiddle, hys⟩⟩

theorem Block.tiles_cut {b : Block} {needed : Nat} (hb : b.Sized)
    (hneeded : headerSize ≤ needed) (haligned : heapAlign ∣ needed) (hle : needed ≤ b.size) :
    Tiles b.limit b.addr ((b.cut needed).1 :: (b.cut needed).2) := by
  unfold Block.cut
  split
  next hrest =>
      refine ⟨rfl, ⟨hneeded, haligned⟩, rfl, ⟨hrest, ?_⟩, ?_⟩
      · exact Nat.dvd_sub hb.2 haligned
      · simp only [Tiles, Block.limit]
        omega
  next => exact ⟨rfl, hb, rfl⟩

end Tiles

/-- A pool divided into blocks.  The free blocks stand in the order in which
they are tried. -/
structure Partition where
  start : Nat
  limit : Nat
  free : List Block
  live : List Block
  deriving DecidableEq, Repr

namespace Partition

/-! ## Requests -/

def whole (start size : Nat) : Partition := ⟨start, start + size, [⟨start, size⟩], []⟩

def blocks (p : Partition) : List Block := p.free ++ p.live

def neededFor (n : Nat) : Nat := alignDown (n + (heapAlign - 1)) heapAlign + headerSize

/-- Cuts the first block of the list that has `needed` bytes.  What stays free
of it keeps its place. -/
def takeFirst (needed : Nat) : List Block → Option (Block × List Block)
  | [] => none
  | b :: rest =>
      if needed ≤ b.size then some ((b.cut needed).1, (b.cut needed).2 ++ rest)
      else (takeFirst needed rest).map fun (taken, left) => (taken, b :: left)

def allocate (p : Partition) (n : Nat) : Option (Nat × Partition) :=
  if n = 0 then none
  else (takeFirst (neededFor n) p.free).map fun (taken, free) =>
    (taken.payload, { p with free, live := taken :: p.live })

def refusal (p : Partition) (a : Nat) : FreeRefusal :=
  if a = 0 then .null
  else if a < p.start + headerSize ∨ p.limit ≤ a then .outside
  else if (a - p.start) % heapAlign ≠ 0 then .unaligned
  else if ∃ b ∈ p.free, b.Covers (a - headerSize) then .alreadyFree
  else .noPayload

def giveBack (p : Partition) (a : Nat) : Except FreeRefusal (Nat × Partition) :=
  match p.live.find? (·.payload = a) with
  | none => .error (p.refusal a)
  | some b =>
      .ok (b.size, { p with free := b :: p.free, live := p.live.filter (·.payload ≠ a) })

def usage (p : Partition) : PoolUsage where
  managed := p.limit - p.start
  free := (p.free.map Block.size).sum
  blocks := p.free.length
  largest := (p.free.map Block.size).foldl max 0

theorem takeFirst_eq_none_iff {needed : Nat} {free : List Block} :
    takeFirst needed free = none ↔ ∀ b ∈ free, b.size < needed := by
  induction free with
  | nil => simp [takeFirst]
  | cons b rest ih =>
      rw [takeFirst, List.forall_mem_cons]
      split
      next hle => simp [Nat.not_lt.mpr hle]
      next hlt => simp [Nat.lt_of_not_le hlt, ih]

theorem takeFirst_append {needed : Nat} {b : Block} {before after : List Block}
    (hbefore : ∀ c ∈ before, c.size < needed) (hb : needed ≤ b.size) :
    takeFirst needed (before ++ b :: after) =
      some ((b.cut needed).1, before ++ ((b.cut needed).2 ++ after)) := by
  induction before with
  | nil => simp [takeFirst, hb]
  | cons c rest ih =>
      rw [List.forall_mem_cons] at hbefore
      rw [List.cons_append, takeFirst, if_neg (Nat.not_le.mpr hbefore.1), ih hbefore.2]
      rfl

theorem exists_first {needed : Nat} {free : List Block}
    (h : ¬ ∀ b ∈ free, b.size < needed) :
    ∃ before b after, free = before ++ b :: after ∧
      (∀ c ∈ before, c.size < needed) ∧ needed ≤ b.size := by
  induction free with
  | nil => exact absurd (fun b hb => nomatch hb) h
  | cons b rest ih =>
      by_cases hb : needed ≤ b.size
      · exact ⟨[], b, rest, rfl, fun c hc => (nomatch hc), hb⟩
      · have hlt : b.size < needed := Nat.lt_of_not_le hb
        have hrest : ¬ ∀ c ∈ rest, c.size < needed :=
          fun hall => h (List.forall_mem_cons.mpr ⟨hlt, hall⟩)
        obtain ⟨before, c, after, rfl, hbefore, hc⟩ := ih hrest
        exact ⟨b :: before, c, after, rfl, List.forall_mem_cons.mpr ⟨hlt, hbefore⟩, hc⟩

theorem allocate_eq_none_iff {p : Partition} {n : Nat} :
    p.allocate n = none ↔ n = 0 ∨ ∀ b ∈ p.free, b.size < neededFor n := by
  unfold allocate
  split
  next hn => simp [hn]
  next hn => simp [hn, takeFirst_eq_none_iff]

theorem exists_of_allocate {p q : Partition} {n a : Nat} (h : p.allocate n = some (a, q)) :
    ∃ before b after, n ≠ 0 ∧ p.free = before ++ b :: after ∧
      (∀ c ∈ before, c.size < neededFor n) ∧ neededFor n ≤ b.size ∧ a = b.payload ∧
      q = { p with
        free := before ++ ((b.cut (neededFor n)).2 ++ after)
        live := (b.cut (neededFor n)).1 :: p.live } := by
  have hsome : ¬ (n = 0 ∨ ∀ b ∈ p.free, b.size < neededFor n) := by
    rw [← allocate_eq_none_iff, h]
    exact Option.some_ne_none _
  obtain ⟨hn, hfirst⟩ := not_or.mp hsome
  obtain ⟨before, b, after, hfree, hbefore, hb⟩ := exists_first hfirst
  rw [allocate, if_neg hn, hfree, takeFirst_append hbefore hb, Option.map_some,
    Option.some.injEq, Prod.mk.injEq] at h
  refine ⟨before, b, after, hn, hfree, hbefore, hb, ?_, h.2.symm⟩
  rw [← h.1, Block.payload, Block.addr_cut, Block.payload]

theorem range_of_allocate {p q : Partition} {n a : Nat} (h : p.allocate n = some (a, q)) :
    q.start = p.start ∧ q.limit = p.limit := by
  obtain ⟨_, _, _, _, _, _, _, _, rfl⟩ := exists_of_allocate h
  exact ⟨rfl, rfl⟩

theorem headerSize_lt_neededFor {n : Nat} (hn : n ≠ 0) : headerSize < neededFor n := by
  unfold neededFor alignDown heapAlign
  omega

theorem add_headerSize_le_neededFor (n : Nat) : n + headerSize ≤ neededFor n := by
  unfold neededFor alignDown heapAlign
  omega

theorem dvd_neededFor (n : Nat) : heapAlign ∣ neededFor n :=
  Nat.dvd_add (dvd_alignDown _ _) ⟨2, rfl⟩

/-! ## Valid partitions -/

/-- The blocks, in the order of their addresses, tile a pool that lies above
address zero and inside the address space.  Every live block has a payload. -/
structure Valid (p : Partition) : Prop where
  start_pos : 0 < p.start
  start_lt : p.start < p.limit
  limit_lt : p.limit < wordLimit
  aligned : heapAlign ∣ p.start
  tiled : ∃ blocks, Tiles p.limit p.start blocks ∧ blocks.Perm p.blocks
  live_room : ∀ b ∈ p.live, headerSize < b.size

section Valid

variable {p q : Partition} {b c : Block}

theorem mem_blocks : b ∈ p.blocks ↔ b ∈ p.free ∨ b ∈ p.live :=
  List.mem_append

theorem mem_of_free (hb : b ∈ p.free) : b ∈ p.blocks :=
  mem_blocks.mpr (Or.inl hb)

theorem mem_of_live (hb : b ∈ p.live) : b ∈ p.blocks :=
  mem_blocks.mpr (Or.inr hb)

theorem Valid.of_mem (hp : p.Valid) (hb : b ∈ p.blocks) :
    p.start ≤ b.addr ∧ b.limit ≤ p.limit ∧ b.Sized := by
  obtain ⟨blocks, htiles, hperm⟩ := hp.tiled
  exact htiles.of_mem (hperm.mem_iff.mpr hb)

theorem Valid.addr_pos (hp : p.Valid) (hb : b ∈ p.blocks) : 0 < b.addr :=
  Nat.lt_of_lt_of_le hp.start_pos (hp.of_mem hb).1

theorem Valid.block_limit_lt (hp : p.Valid) (hb : b ∈ p.blocks) : b.limit < wordLimit :=
  Nat.lt_of_le_of_lt (hp.of_mem hb).2.1 hp.limit_lt

theorem Valid.dvd_addr (hp : p.Valid) (hb : b ∈ p.blocks) : heapAlign ∣ b.addr := by
  obtain ⟨blocks, htiles, hperm⟩ := hp.tiled
  exact htiles.aligned hp.aligned (hperm.mem_iff.mpr hb)

theorem Valid.apart (hp : p.Valid) : p.blocks.Pairwise Block.Apart := by
  obtain ⟨blocks, htiles, hperm⟩ := hp.tiled
  exact (hperm.pairwise_iff Block.Apart.symm).mp htiles.apart

theorem Valid.nodup (hp : p.Valid) : p.blocks.Nodup := by
  refine hp.apart.imp_of_mem ?_
  intro b c hb _ hapart
  exact hapart.ne (hp.of_mem hb).2.2

theorem Valid.apart_of_ne (hp : p.Valid) (hb : b ∈ p.blocks) (hc : c ∈ p.blocks)
    (hne : b ≠ c) : b.Apart c :=
  hp.apart.forall hb hc hne

theorem Valid.eq_of_covers (hp : p.Valid) (hb : b ∈ p.blocks) (hc : c ∈ p.blocks) {x : Nat}
    (hbx : b.Covers x) (hcx : c.Covers x) : b = c := by
  by_contra hne
  have hapart := hp.apart_of_ne hb hc hne
  unfold Block.Covers at hbx hcx
  unfold Block.Apart at hapart
  omega

theorem Valid.covers_addr (hp : p.Valid) (hb : b ∈ p.blocks) : b.Covers b.addr := by
  have hsized := (hp.of_mem hb).2.2.1
  unfold Block.Covers Block.limit
  unfold headerSize at hsized
  omega

theorem Valid.not_covers_of_free (hp : p.Valid) {x : Nat} (hfree : ∃ c ∈ p.free, c.Covers x)
    (hb : b ∈ p.live) : ¬ b.Covers x := by
  obtain ⟨c, hc, hcx⟩ := hfree
  intro hbx
  have heq := hp.eq_of_covers (mem_of_free hc) (mem_of_live hb) hcx hbx
  exact (List.nodup_append.mp hp.nodup).2.2 c hc b hb heq

theorem Valid.not_mem_free (hp : p.Valid) (hb : b ∈ p.live) : b ∉ p.free := by
  intro hfree
  have hcovers := hp.covers_addr (mem_of_free hfree)
  exact hp.not_covers_of_free ⟨b, hfree, hcovers⟩ hb hcovers

theorem Valid.payload_aligned (hp : p.Valid) (hb : b ∈ p.blocks) :
    (b.payload - p.start) % heapAlign = 0 := by
  apply Nat.mod_eq_zero_of_dvd
  exact Nat.dvd_sub (Nat.dvd_add (hp.dvd_addr hb) ⟨2, rfl⟩) hp.aligned

theorem Valid.eq_of_addr (hp : p.Valid) (hb : b ∈ p.blocks) (hc : c ∈ p.blocks)
    (h : b.addr = c.addr) : b = c :=
  hp.eq_of_covers hb hc (hp.covers_addr hb) (h ▸ hp.covers_addr hc)

theorem Valid.eq_of_payload (hp : p.Valid) (hb : b ∈ p.blocks) (hc : c ∈ p.blocks)
    (h : b.payload = c.payload) : b = c :=
  hp.eq_of_addr hb hc (Nat.add_right_cancel h)

theorem Valid.exists_covers (hp : p.Valid) {x : Nat} (hstart : p.start ≤ x)
    (hlimit : x < p.limit) : ∃ b ∈ p.blocks, b.Covers x := by
  obtain ⟨blocks, htiles, hperm⟩ := hp.tiled
  obtain ⟨b, hb, hcovers⟩ := htiles.exists_covers hstart hlimit
  exact ⟨b, hperm.mem_iff.mp hb, hcovers⟩

theorem Valid.sum_size (hp : p.Valid) :
    (p.free.map Block.size).sum + (p.live.map Block.size).sum = p.limit - p.start := by
  obtain ⟨blocks, htiles, hperm⟩ := hp.tiled
  have hsum := htiles.add_sum_size
  have hmap := (hperm.map Block.size).sum_nat
  rw [Partition.blocks, List.map_append, List.sum_append] at hmap
  omega

/-- Every block has a size, so there are fewer of them than there are words. -/
theorem Valid.length_free_lt (hp : p.Valid) : p.free.length < wordLimit := by
  obtain ⟨blocks, htiles, hperm⟩ := hp.tiled
  have hlength := htiles.add_length_le
  rw [hperm.length_eq, Partition.blocks, List.length_append] at hlength
  have hlimit := hp.limit_lt
  omega

theorem valid_whole {start size : Nat} (hstart : 0 < start) (haligned : heapAlign ∣ start)
    (hsize : headerSize ≤ size) (hsizeAligned : heapAlign ∣ size)
    (hlimit : start + size < wordLimit) : (whole start size).Valid where
  start_pos := hstart
  start_lt := Nat.lt_add_of_pos_right (Nat.lt_of_lt_of_le (by decide) hsize)
  limit_lt := hlimit
  aligned := haligned
  tiled := ⟨[⟨start, size⟩], ⟨rfl, ⟨hsize, hsizeAligned⟩, rfl⟩, List.Perm.refl _⟩
  live_room := fun _ hb => nomatch hb

/-- Cutting a free block refines a tiling at the place of this block. -/
theorem exists_tiling_take {blocks before after : List Block} {needed : Nat}
    (htiles : Tiles p.limit p.start blocks) (hperm : blocks.Perm p.blocks)
    (hfree : p.free = before ++ b :: after) (hneeded : headerSize ≤ needed)
    (haligned : heapAlign ∣ needed) (hle : needed ≤ b.size) :
    ∃ xs ys, blocks = xs ++ b :: ys ∧
      Tiles p.limit p.start (xs ++ ((b.cut needed).1 :: (b.cut needed).2 ++ ys)) ∧
      (xs ++ ((b.cut needed).1 :: (b.cut needed).2 ++ ys)).Perm (Partition.blocks { p with
        free := before ++ ((b.cut needed).2 ++ after)
        live := (b.cut needed).1 :: p.live }) := by
  have hb : b ∈ blocks := by
    rw [hperm.mem_iff, mem_blocks, hfree]
    exact Or.inl (List.mem_append_right _ List.mem_cons_self)
  have hcut := Block.tiles_cut (htiles.of_mem hb).2.2 hneeded haligned hle
  obtain ⟨xs, ys, rfl⟩ := List.append_of_mem hb
  refine ⟨xs, ys, rfl, htiles.replace hcut, ?_⟩
  rw [List.perm_iff_count] at hperm ⊢
  intro c
  have hcount := hperm c
  simp only [Partition.blocks, hfree, List.count_append, List.count_cons] at hcount ⊢
  omega

theorem Valid.take (hp : p.Valid) {before after : List Block} {needed : Nat}
    (hfree : p.free = before ++ b :: after) (hneeded : headerSize < needed)
    (haligned : heapAlign ∣ needed) (hle : needed ≤ b.size) :
    Valid { p with
      free := before ++ ((b.cut needed).2 ++ after)
      live := (b.cut needed).1 :: p.live } := by
  obtain ⟨blocks, htiles, hperm⟩ := hp.tiled
  obtain ⟨_, _, _, hcut, hperm'⟩ :=
    exists_tiling_take htiles hperm hfree (Nat.le_of_lt hneeded) haligned hle
  refine ⟨hp.start_pos, hp.start_lt, hp.limit_lt, hp.aligned, ⟨_, hcut, hperm'⟩, ?_⟩
  exact List.forall_mem_cons.mpr ⟨Nat.lt_of_lt_of_le hneeded (Block.le_size_cut hle), hp.live_room⟩

theorem Valid.allocate (hp : p.Valid) {n a : Nat} (h : p.allocate n = some (a, q)) :
    q.Valid := by
  obtain ⟨before, b, after, hn, hfree, _, hb, _, rfl⟩ := exists_of_allocate h
  exact hp.take hfree (headerSize_lt_neededFor hn) (dvd_neededFor n) hb

theorem Valid.perm_live (hp : p.Valid) (hb : b ∈ p.live) :
    p.live.Perm (b :: p.live.filter (·.payload ≠ b.payload)) := by
  have hnodup : p.live.Nodup := (List.nodup_append.mp hp.nodup).2.1
  have hnotmem : b ∉ p.live.filter (·.payload ≠ b.payload) := by
    simp
  rw [List.perm_ext_iff_of_nodup hnodup
    (List.nodup_cons.mpr ⟨hnotmem, hnodup.filter _⟩)]
  intro c
  rw [List.mem_cons, List.mem_filter, decide_eq_true_eq]
  constructor
  · intro hc
    by_cases hpayload : c.payload = b.payload
    · exact Or.inl (hp.eq_of_payload (mem_of_live hc) (mem_of_live hb) hpayload)
    · exact Or.inr ⟨hc, hpayload⟩
  · rintro (rfl | ⟨hc, _⟩)
    · exact hb
    · exact hc

theorem giveBack_eq_error_iff {a : Nat} {e : FreeRefusal} :
    p.giveBack a = .error e ↔ (∀ b ∈ p.live, b.payload ≠ a) ∧ e = p.refusal a := by
  unfold giveBack
  split
  next hfind =>
      have hnone : ∀ b ∈ p.live, b.payload ≠ a := by
        simpa using List.find?_eq_none.mp hfind
      rw [Except.error.injEq]
      exact ⟨fun h => ⟨hnone, h.symm⟩, fun h => h.2.symm⟩
  next b hfind =>
      have hb := List.mem_of_find?_eq_some hfind
      have hpayload : b.payload = a := by simpa using List.find?_some hfind
      simp only [reduceCtorEq, false_iff, not_and]
      intro hall
      exact absurd hpayload (hall b hb)

theorem exists_of_giveBack {a size : Nat} (h : p.giveBack a = .ok (size, q)) :
    ∃ b ∈ p.live, b.payload = a ∧ b.size = size ∧
      q = { p with free := b :: p.free, live := p.live.filter (·.payload ≠ a) } := by
  unfold giveBack at h
  split at h
  next => cases h
  next b hfind =>
      cases h
      exact ⟨b, List.mem_of_find?_eq_some hfind, by simpa using List.find?_some hfind, rfl, rfl⟩

theorem range_of_giveBack {a size : Nat} (h : p.giveBack a = .ok (size, q)) :
    q.start = p.start ∧ q.limit = p.limit := by
  obtain ⟨_, _, _, _, rfl⟩ := exists_of_giveBack h
  exact ⟨rfl, rfl⟩

theorem Valid.giveBack_live (hp : p.Valid) (hb : b ∈ p.live) :
    p.giveBack b.payload = .ok (b.size, { p with
      free := b :: p.free
      live := p.live.filter (·.payload ≠ b.payload) }) := by
  cases hresult : p.giveBack b.payload with
  | error e => exact absurd rfl ((giveBack_eq_error_iff.mp hresult).1 b hb)
  | ok result =>
      obtain ⟨size, q⟩ := result
      obtain ⟨c, hc, hpayload, hsize, hq⟩ := exists_of_giveBack hresult
      have heq : c = b := hp.eq_of_payload (mem_of_live hc) (mem_of_live hb) hpayload
      rw [← hsize, hq, heq]

theorem Valid.giveBack_payload (hp : p.Valid) (hb : b ∈ p.live) :
    ∃ q, p.giveBack b.payload = .ok (b.size, q) :=
  ⟨_, hp.giveBack_live hb⟩

theorem Valid.giveBack (hp : p.Valid) {a size : Nat} (h : p.giveBack a = .ok (size, q)) :
    q.Valid := by
  obtain ⟨b, hb, rfl, _, rfl⟩ := exists_of_giveBack h
  obtain ⟨blocks, htiles, hperm⟩ := hp.tiled
  have hlive := (hp.perm_live hb).append_left p.free
  refine ⟨hp.start_pos, hp.start_lt, hp.limit_lt, hp.aligned,
    ⟨blocks, htiles, (hperm.trans hlive).trans List.perm_middle⟩, ?_⟩
  intro c hc
  exact hp.live_room c (List.mem_filter.mp hc).1

end Valid

end Partition

end Kernel16
