import Kernel16.Proofs.Heap.Separation
import Mathlib.Data.List.Nodup
import Mathlib.Data.List.Perm.Basic

/-!
# The order in which blocks come back

Each block that comes back is checked anew, by walks over a free list and along size words
that depend on what came back before.  Still the checks decide nothing but whether the block
is held, so blocks can come back in any order: every one is taken, with the same size, and
stands on the free list in the end.  Two orders lead to the same free blocks in different
places of the list.  What a request gets may differ then, but not whether it gets something.
-/

namespace Kernel16

def returns (addresses : List Nat) : List HeapRequest := addresses.map .free

namespace Partition

variable {p q : Partition}

/-- Live blocks that come back one after another stand in front of the list, the last one
first. -/
theorem Valid.run_returns (hp : p.Valid) {blocks : List Block} (hnodup : blocks.Nodup)
    (hlive : ∀ b ∈ blocks, b ∈ p.live) :
    (p.run (returns (blocks.map Block.payload))).1 = blocks.map (fun b => .freed (.ok b.size)) ∧
      (p.run (returns (blocks.map Block.payload))).2.free = blocks.reverse ++ p.free := by
  induction blocks generalizing p with
  | nil => exact ⟨rfl, rfl⟩
  | cons b rest ih =>
      obtain ⟨hb, hrest⟩ := List.forall_mem_cons.mp hlive
      obtain ⟨hnotmem, hnodup⟩ := List.nodup_cons.mp hnodup
      have hgiven := hp.giveBack_live hb
      -- The blocks that are still to come are other blocks and stay live.
      have hstay : ∀ c ∈ rest, c ∈ p.live.filter (·.payload ≠ b.payload) := by
        intro c hc
        refine List.mem_filter.mpr ⟨hrest c hc, decide_eq_true fun hpayload => hnotmem ?_⟩
        rwa [← hp.eq_of_payload (mem_of_live (hrest c hc)) (mem_of_live hb) hpayload]
      obtain ⟨hanswers, hfree⟩ := ih (hp.giveBack hgiven) hnodup hstay
      simp only [returns, List.map_cons, run, perform, hgiven] at hanswers hfree ⊢
      exact ⟨congrArg _ hanswers, by rw [hfree, List.reverse_cons, List.append_assoc]; rfl⟩

/-- The usage of a pool does not tell in which order its free blocks are tried. -/
theorem usage_eq_of_perm (hrange : p.start = q.start ∧ p.limit = q.limit)
    (hfree : p.free.Perm q.free) : p.usage = q.usage := by
  have hsizes := hfree.map Block.size
  have hlargest : (p.free.map Block.size).foldl max 0 = (q.free.map Block.size).foldl max 0 :=
    hsizes.foldl_eq 0
  rw [usage, usage, hrange.1, hrange.2, hsizes.sum_nat, hfree.length_eq, hlargest]

end Partition

namespace Session

variable {u v : Session} {p q : Partition}

theorem confined_returns (u : Session) (addresses : List Nat) : u.Confined (returns addresses) := by
  induction addresses generalizing u with
  | nil => trivial
  | cons a rest ih => exact ⟨trivial, ih _⟩

/-- The free blocks are the same, perhaps in another order, and so is all that does not
depend on their order. -/
structure Alike (u v : Session) : Prop where
  free_perm : u.arena.freeBlocks.Perm v.arena.freeBlocks
  usage_eq : u.arena.usage = v.arena.usage
  allocate : ∀ n, (u.arena.allocate n).isSome = (v.arena.allocate n).isSome

theorem Follows.alike_of_perm (hu : u.Follows p) (hv : v.Follows q)
    (hrange : p.start = q.start ∧ p.limit = q.limit) (hfree : p.free.Perm q.free) :
    u.Alike v := by
  refine ⟨?_, ?_, ?_⟩
  · rw [hu.represents.freeBlocks_eq hu.valid, hv.represents.freeBlocks_eq hv.valid]
    exact hfree
  · rw [hu.represents.usage_eq hu.valid, hv.represents.usage_eq hv.valid]
    exact Partition.usage_eq_of_perm hrange hfree
  · intro n
    have hnone : u.arena.allocate n = none ↔ v.arena.allocate n = none := by
      rw [hu.allocate_eq_none_iff, hv.allocate_eq_none_iff]
      simp only [hfree.mem_iff]
    rw [Bool.eq_iff_iff, ← not_iff_not, Option.not_isSome_iff_eq_none,
      Option.not_isSome_iff_eq_none, hnone]

section Returns

variable {addresses : List Nat}

theorem Follows.blockAt_of_held (h : u.Follows p) {a : Nat} (hheld : ∃ b ∈ u.held, b.payload = a) :
    u.arena.blockAt a ∈ p.live ∧ (u.arena.blockAt a).payload = a := by
  obtain ⟨b, hb, rfl⟩ := hheld
  rw [h.holds.blockAt_payload hb, h.live_eq]
  exact ⟨hb, rfl⟩

theorem Follows.run_returns (h : u.Follows p) (hnodup : addresses.Nodup)
    (hheld : ∀ a ∈ addresses, ∃ b ∈ u.held, b.payload = a) :
    (u.run (returns addresses)).1 =
        addresses.map (fun a => .freed (.ok (u.arena.blockAt a).size)) ∧
      ∃ q, (u.run (returns addresses)).2.Follows q ∧ q.start = p.start ∧ q.limit = p.limit ∧
        q.free = (addresses.map u.arena.blockAt).reverse ++ p.free := by
  have hblock := fun a ha => h.blockAt_of_held (hheld a ha)
  have hpayload : (addresses.map u.arena.blockAt).map Block.payload = addresses := by
    rw [List.map_map]
    exact (List.map_congr_left fun a ha => (hblock a ha).2).trans (List.map_id addresses)
  have hlive : ∀ b ∈ addresses.map u.arena.blockAt, b ∈ p.live :=
    List.forall_mem_map.mpr fun a ha => (hblock a ha).1
  have hdistinct : (addresses.map u.arena.blockAt).Nodup :=
    List.Nodup.of_map Block.payload (hpayload.symm ▸ hnodup)
  obtain ⟨hanswers, hfree⟩ := h.valid.run_returns hdistinct hlive
  rw [hpayload] at hanswers hfree
  obtain ⟨hsame, hfollows⟩ := h.run (u.confined_returns addresses)
  obtain ⟨hstart, hlimit⟩ := p.range_run (returns addresses)
  refine ⟨?_, _, hfollows, hstart, hlimit, hfree⟩
  rw [hsame, hanswers, List.map_map]
  rfl

end Returns

/-- Blocks that are held come back in two orders, after whatever clients did before.  Every
one is taken in both, and what is free in the end is the same. -/
theorem run_reordered {s t : Arena} {start size managed : Nat}
    (hfits : start + size < wordLimit) (hinit : s.init start size = .ok (managed, t))
    {requests : List HeapRequest} (hconfined : (opened t).Confined requests)
    {first second : List Nat} (hperm : first.Perm second) (hnodup : first.Nodup)
    (hheld : ∀ a ∈ first, ∃ b ∈ ((opened t).run requests).2.held, b.payload = a) :
    let u := ((opened t).run requests).2
    (u.run (returns first)).1 = first.map (fun a => .freed (.ok (u.arena.blockAt a).size)) ∧
      (u.run (returns second)).1 =
        second.map (fun a => .freed (.ok (u.arena.blockAt a).size)) ∧
      (u.run (returns first)).2.Alike (u.run (returns second)).2 := by
  intro u
  have hrun := ((follows_of_init hinit hfits).run hconfined).2
  have hheld' : ∀ a ∈ second, ∃ b ∈ u.held, b.payload = a :=
    fun a ha => hheld a (hperm.mem_iff.mpr ha)
  obtain ⟨hanswers, p, hp, hstart, hlimit, hfree⟩ := hrun.run_returns hnodup hheld
  obtain ⟨hanswers', q, hq, hstart', hlimit', hfree'⟩ :=
    hrun.run_returns (hperm.nodup_iff.mp hnodup) hheld'
  refine ⟨hanswers, hanswers', hp.alike_of_perm hq ?_ ?_⟩
  · exact ⟨hstart.trans hstart'.symm, hlimit.trans hlimit'.symm⟩
  · rw [hfree, hfree']
    have hblocks := hperm.map u.arena.blockAt
    exact (((List.reverse_perm _).trans hblocks).trans (List.reverse_perm _).symm).append_right _

/-- Three blocks of different sizes are held; the first one was used before. -/
def threeHeld : List HeapRequest := reuse ++ [.allocate 40]

theorem run_reordered_three :
    4099 + 256 < wordLimit ∧ ({} : Arena).init 4099 256 = .ok (248, smallPool) ∧
      (opened smallPool).Confined threeHeld ∧ [4120, 4160, 4280].Perm [4280, 4120, 4160] ∧
      [4120, 4160, 4280].Nodup ∧
      (∀ a ∈ [4120, 4160, 4280],
        ∃ b ∈ ((opened smallPool).run threeHeld).2.held, b.payload = a) ∧
      let u := ((opened smallPool).run threeHeld).2
      (u.run (returns [4280, 4120, 4160])).1 =
          [.freed (.ok 56), .freed (.ok 24), .freed (.ok 120)] ∧
        (u.run (returns [4120, 4160, 4280])).2.Alike (u.run (returns [4280, 4120, 4160])).2 := by
  have hfits : 4099 + 256 < wordLimit := by decide
  have hconfined : (opened smallPool).Confined threeHeld := by decide +kernel
  have hperm : [4120, 4160, 4280].Perm [4280, 4120, 4160] := by decide
  have hnodup : [4120, 4160, 4280].Nodup := by decide
  have hheld : ∀ a ∈ [4120, 4160, 4280],
      ∃ b ∈ ((opened smallPool).run threeHeld).2.held, b.payload = a := by
    decide +kernel
  have hsizes : (((opened smallPool).run threeHeld).2.arena.blockAt 4280).size = 56 ∧
      (((opened smallPool).run threeHeld).2.arena.blockAt 4120).size = 24 ∧
      (((opened smallPool).run threeHeld).2.arena.blockAt 4160).size = 120 := by
    decide +kernel
  obtain ⟨_, hanswers, halike⟩ := run_reordered hfits init_smallPool hconfined hperm hnodup hheld
  simp only [List.map_cons, List.map_nil, hsizes] at hanswers
  exact ⟨hfits, init_smallPool, hconfined, hperm, hnodup, hheld, hanswers, halike⟩

end Session

end Kernel16
