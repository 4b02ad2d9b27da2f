import Kernel16.Proofs.Heap.Representation

/-!
# Runs of the heap with its clients

A session is an arena together with the blocks that were handed out and not
taken back.  Clients allocate, free any address they like, and write to the
payloads that they hold; their writes land in the memory that holds the headers
and the links as well.

Along every run the arena represents the partition that answers the same
requests on lists.  So the heap is a first-fit allocator on lists of blocks, and
the blocks found along the size words always tile the pool, each of them either
once on the free list or held by a client.
-/

namespace Kernel16

inductive HeapRequest where
  | allocate (n : Nat)
  | free (a : Nat)
  | usage
  | write (a : Nat) (bytes : List UInt8)
  deriving DecidableEq, Repr

inductive HeapAnswer where
  | allocated (payload : Option Nat)
  | freed (result : Except FreeRefusal Nat)
  | usage (usage : PoolUsage)
  | written

/-- A block as its header described it when it was handed out, with the number
of bytes that were asked for. -/
structure Grant where
  block : Block
  requested : Nat
  deriving DecidableEq, Repr

structure Session where
  arena : Arena
  live : List Grant := []

namespace Partition

def perform (p : Partition) : HeapRequest → HeapAnswer × Partition
  | .allocate n =>
      match p.allocate n with
      | none => (.allocated none, p)
      | some (a, q) => (.allocated (some a), q)
  | .free a =>
      match p.giveBack a with
      | .error e => (.freed (.error e), p)
      | .ok (size, q) => (.freed (.ok size), q)
  | .usage => (.usage p.usage, p)
  | .write _ _ => (.written, p)

def run (p : Partition) : List HeapRequest → List HeapAnswer × Partition
  | [] => ([], p)
  | r :: rest =>
      let (answer, p) := p.perform r
      let (answers, p) := p.run rest
      (answer :: answers, p)

end Partition

namespace Session

def held (u : Session) : List Block := u.live.map Grant.block

def perform (u : Session) : HeapRequest → HeapAnswer × Session
  | .allocate n =>
      match u.arena.allocate n with
      | none => (.allocated none, u)
      | some (a, arena) =>
          (.allocated (some a), { arena, live := ⟨arena.blockAt a, n⟩ :: u.live })
  | .free a =>
      match u.arena.free a with
      | .error e => (.freed (.error e), u)
      | .ok (size, arena) =>
          (.freed (.ok size), { arena, live := u.live.filter (·.block.payload ≠ a) })
  | .usage => (.usage u.arena.usage, u)
  | .write a bytes =>
      (.written, { u with arena.memory := u.arena.memory.writeBytes a bytes })

def run (u : Session) : List HeapRequest → List HeapAnswer × Session
  | [] => ([], u)
  | r :: rest =>
      let (answer, u) := u.perform r
      let (answers, u) := u.run rest
      (answer :: answers, u)

/-- A client writes only inside the payload of a block that is held. -/
def Permits (u : Session) : HeapRequest → Prop
  | .write a bytes =>
      ∃ b ∈ u.held, b.payload ≤ a ∧ a + bytes.length ≤ b.limit
  | _ => True

def Confined (u : Session) : List HeapRequest → Prop
  | [] => True
  | r :: rest => u.Permits r ∧ (u.perform r).2.Confined rest

instance (u : Session) : (r : HeapRequest) → Decidable (u.Permits r)
  | .allocate _ => isTrue trivial
  | .free _ => isTrue trivial
  | .usage => isTrue trivial
  | .write a bytes =>
      inferInstanceAs
        (Decidable (∃ b ∈ u.held, b.payload ≤ a ∧ a + bytes.length ≤ b.limit))

instance decidableConfined (u : Session) :
    (requests : List HeapRequest) → Decidable (u.Confined requests)
  | [] => isTrue trivial
  | r :: rest =>
      have := decidableConfined (u.perform r).2 rest
      inferInstanceAs (Decidable (_ ∧ _))

/-! ## Sessions follow partitions -/

/-- The partition describes the session: its arena, the blocks held by clients,
and room in each of them for what was asked for. -/
structure Follows (u : Session) (p : Partition) : Prop where
  represents : u.arena.Represents p
  valid : p.Valid
  live_eq : p.live = u.held
  room : ∀ g ∈ u.live, g.requested + headerSize ≤ g.block.size

variable {u : Session} {p : Partition}

theorem Follows.allocate (h : u.Follows p) (n : Nat) :
    (u.perform (.allocate n)).1 = (p.perform (.allocate n)).1 ∧
      (u.perform (.allocate n)).2.Follows (p.perform (.allocate n)).2 := by
  cases hresult : p.allocate n with
  | none =>
      have hnone := h.represents.allocate_eq_none hresult
      simp only [perform, Partition.perform, hresult, hnone]
      exact ⟨trivial, h⟩
  | some result =>
      obtain ⟨a, q⟩ := result
      obtain ⟨t, hsome, hrepresents⟩ := h.represents.allocate_eq_some h.valid hresult
      obtain ⟨q', hq', _, hvalid, hlive, _, hroom⟩ :=
        h.represents.exists_of_allocate h.valid hsome
      rw [hresult] at hq'
      cases hq'
      simp only [perform, Partition.perform, hresult, hsome]
      refine ⟨trivial, hrepresents, hvalid, ?_, List.forall_mem_cons.mpr ⟨hroom, h.room⟩⟩
      rw [hlive, h.live_eq]
      rfl

theorem Follows.free (h : u.Follows p) (a : Nat) :
    (u.perform (.free a)).1 = (p.perform (.free a)).1 ∧
      (u.perform (.free a)).2.Follows (p.perform (.free a)).2 := by
  cases hresult : p.giveBack a with
  | error e =>
      have herror := h.represents.free_eq_error h.valid hresult
      simp only [perform, Partition.perform, hresult, herror]
      exact ⟨trivial, h⟩
  | ok result =>
      obtain ⟨size, q⟩ := result
      obtain ⟨t, hok, hrepresents⟩ := h.represents.free_eq_ok h.valid hresult
      obtain ⟨q', hq', _, hvalid, hlive⟩ := h.represents.exists_of_free h.valid hok
      rw [hresult] at hq'
      cases hq'
      simp only [perform, Partition.perform, hresult, hok]
      refine ⟨trivial, hrepresents, hvalid, ?_, ?_⟩
      · rw [hlive, h.live_eq, held, held, List.filter_map]
        rfl
      · intro g hg
        exact h.room g (List.mem_filter.mp hg).1

theorem Follows.write (h : u.Follows p) {a : Nat} {bytes : List UInt8}
    (hpermits : u.Permits (.write a bytes)) :
    (u.perform (.write a bytes)).2.Follows p := by
  obtain ⟨b, hb, hlow, hhigh⟩ := hpermits
  rw [← h.live_eq] at hb
  exact ⟨h.represents.write h.valid hb hlow hhigh, h.valid, h.live_eq, h.room⟩

theorem Follows.perform (h : u.Follows p) {r : HeapRequest} (hpermits : u.Permits r) :
    (u.perform r).1 = (p.perform r).1 ∧ (u.perform r).2.Follows (p.perform r).2 := by
  cases r with
  | allocate n => exact h.allocate n
  | free a => exact h.free a
  | usage => exact ⟨congrArg HeapAnswer.usage (h.represents.usage_eq h.valid), h⟩
  | write a bytes => exact ⟨rfl, h.write hpermits⟩

theorem Follows.run (h : u.Follows p) {requests : List HeapRequest}
    (hconfined : u.Confined requests) :
    (u.run requests).1 = (p.run requests).1 ∧
      (u.run requests).2.Follows (p.run requests).2 := by
  induction requests generalizing u p with
  | nil => exact ⟨rfl, h⟩
  | cons r rest ih =>
      obtain ⟨hpermits, hrest⟩ := hconfined
      obtain ⟨hanswer, hnext⟩ := h.perform hpermits
      obtain ⟨hanswers, hlast⟩ := ih hnext hrest
      exact ⟨congrArg₂ List.cons hanswer hanswers, hlast⟩

def opened (s : Arena) : Session := { arena := s }

theorem follows_of_init {s t : Arena} {start size managed : Nat}
    (hinit : s.init start size = .ok (managed, t)) (hfits : start + size < wordLimit) :
    (opened t).Follows (Partition.whole t.heap.start managed) := by
  obtain ⟨hrepresents, hvalid⟩ := Arena.represents_of_init hinit hfits
  exact ⟨hrepresents, hvalid, rfl, fun _ hg => nomatch hg⟩

end Session

/-! ## The pool stays where it is -/

namespace Partition

theorem range_perform (p : Partition) (r : HeapRequest) :
    (p.perform r).2.start = p.start ∧ (p.perform r).2.limit = p.limit := by
  cases r with
  | allocate n =>
      cases hresult : p.allocate n with
      | none => simp only [perform, hresult, and_self]
      | some result =>
          simp only [perform, hresult]
          exact range_of_allocate hresult
  | free a =>
      cases hresult : p.giveBack a with
      | error e => simp only [perform, hresult, and_self]
      | ok result =>
          simp only [perform, hresult]
          exact range_of_giveBack hresult
  | usage => exact ⟨rfl, rfl⟩
  | write a bytes => exact ⟨rfl, rfl⟩

theorem range_run (p : Partition) (requests : List HeapRequest) :
    (p.run requests).2.start = p.start ∧ (p.run requests).2.limit = p.limit := by
  induction requests generalizing p with
  | nil => exact ⟨rfl, rfl⟩
  | cons r rest ih =>
      have hstep := p.range_perform r
      have hrest := ih (p.perform r).2
      exact ⟨hrest.1.trans hstep.1, hrest.2.trans hstep.2⟩

end Partition

namespace Session

/-! ## The blocks of a session tile the pool -/

/-- What a walk along the size words and one along the next words find, and how
the blocks that clients hold fit in. -/
structure Tiled (u : Session) (blocks : List Block) : Prop where
  sizeWalk : u.arena.memory.SizeWalk u.arena.heap.limit u.arena.heap.start blocks
  sized : ∀ b ∈ blocks, heapAlign ∣ b.size ∧ headerSize ≤ b.size
  nextWalk : u.arena.memory.NextWalk u.arena.heap.head u.arena.freeBlocks
  free_nodup : (u.arena.freeBlocks.map Block.addr).Nodup
  free_subset : ∀ b ∈ u.arena.freeBlocks, b ∈ blocks
  held_subset : ∀ b ∈ u.held, b ∈ blocks
  free_or_held : ∀ b ∈ blocks,
    u.arena.freeBlocks.count b = 1 ∧ b ∉ u.held ∨ b ∉ u.arena.freeBlocks ∧ u.held.count b = 1
  byte_block : ∀ x, u.arena.heap.start ≤ x → x < u.arena.heap.limit →
    ∃ b ∈ blocks, b.Covers x ∧ ∀ c ∈ blocks, c.Covers x → c = b
  payload_aligned : ∀ g ∈ u.live, heapAlign ∣ g.block.payload
  payload_inside : ∀ g ∈ u.live,
    u.arena.heap.start ≤ g.block.payload ∧ g.block.limit ≤ u.arena.heap.limit
  payload_room : ∀ g ∈ u.live, g.block.payload + g.requested ≤ g.block.limit
  payload_disjoint : u.live.Pairwise fun g h =>
    g.block.limit ≤ h.block.payload ∨ h.block.limit ≤ g.block.payload

variable {u : Session} {p : Partition}

theorem Follows.mem_of_live (h : u.Follows p) {g : Grant} (hg : g ∈ u.live) :
    g.block ∈ p.live := by
  rw [h.live_eq]
  exact List.mem_map_of_mem hg

theorem Follows.payload_disjoint (h : u.Follows p) :
    u.live.Pairwise fun g k =>
      g.block.limit ≤ k.block.payload ∨ k.block.limit ≤ g.block.payload := by
  have hapart := (List.pairwise_append.mp h.valid.apart).2.1
  rw [h.live_eq, held, List.pairwise_map] at hapart
  refine hapart.imp ?_
  intro g k hgk
  unfold Block.Apart at hgk
  unfold Block.payload
  omega

theorem Follows.tiled (h : u.Follows p) : ∃ blocks, u.Tiled blocks := by
  obtain ⟨blocks, htiles, hperm⟩ := h.valid.tiled
  have hstart := h.represents.start_eq
  have hlimit := h.represents.limit_eq
  have hfree := h.represents.freeBlocks_eq h.valid
  have hnodup := h.valid.nodup
  obtain ⟨hfreeNodup, hliveNodup, hdisjoint⟩ := List.nodup_append.mp hnodup
  have hmem : ∀ b, b ∈ blocks ↔ b ∈ p.free ∨ b ∈ p.live := by
    intro b
    rw [hperm.mem_iff, Partition.mem_blocks]
  have hlive : ∀ g ∈ u.live, g.block ∈ p.blocks := by
    intro g hg
    exact Partition.mem_of_live (h.mem_of_live hg)
  refine ⟨blocks, ?_, ?_, ?_, ?_, ?_, ?_, ?_, ?_, ?_, ?_, ?_, h.payload_disjoint⟩
  · rw [hstart, hlimit]
    exact Arena.sizeWalk_of_tiles htiles fun b hb => h.represents.sizeAt (hperm.mem_iff.mp hb)
  · intro b hb
    exact (htiles.of_mem hb).2.2.symm
  · rw [hfree]
    exact h.represents.nextWalk
  · rw [hfree]
    refine List.pairwise_map.mpr (hfreeNodup.imp_of_mem ?_)
    intro b c hb hc hne haddr
    exact hne (h.valid.eq_of_addr (Partition.mem_of_free hb) (Partition.mem_of_free hc) haddr)
  · rw [hfree]
    exact fun b hb => (hmem b).mpr (Or.inl hb)
  · rw [← h.live_eq]
    exact fun b hb => (hmem b).mpr (Or.inr hb)
  · intro b hb
    rw [hfree, ← h.live_eq]
    rcases (hmem b).mp hb with hbfree | hblive
    · refine Or.inl ⟨?_, fun hblive => hdisjoint b hbfree b hblive rfl⟩
      rw [hfreeNodup.count, if_pos hbfree]
    · refine Or.inr ⟨fun hbfree => hdisjoint b hbfree b hblive rfl, ?_⟩
      rw [hliveNodup.count, if_pos hblive]
  · intro x hlow hhigh
    rw [hstart] at hlow
    rw [hlimit] at hhigh
    obtain ⟨b, hb, hcovers⟩ := htiles.exists_covers hlow hhigh
    refine ⟨b, hb, hcovers, ?_⟩
    intro c hc hcx
    exact h.valid.eq_of_covers (hperm.mem_iff.mp hc) (hperm.mem_iff.mp hb) hcx hcovers
  · intro g hg
    exact Nat.dvd_add (h.valid.dvd_addr (hlive g hg)) ⟨2, rfl⟩
  · intro g hg
    rw [hstart, hlimit]
    obtain ⟨hlow, hhigh, _⟩ := h.valid.of_mem (hlive g hg)
    exact ⟨Nat.le_trans hlow (Nat.le_add_right _ _), hhigh⟩
  · intro g hg
    have hroom := h.room g hg
    unfold Block.payload Block.limit
    omega

/-- Whatever clients allocate, free and write, the blocks found along the size
words tile the pool, and each is either once on the free list or held. -/
theorem run_tiled {s t : Arena} {start size managed : Nat}
    (hfits : start + size < wordLimit) (hinit : s.init start size = .ok (managed, t))
    {requests : List HeapRequest} (hconfined : (opened t).Confined requests) :
    let u := ((opened t).run requests).2
    u.arena.heap.start = t.heap.start ∧ u.arena.heap.limit = t.heap.start + managed ∧
      ∃ blocks, u.Tiled blocks := by
  have hrun := ((follows_of_init hinit hfits).run hconfined).2
  have hrange := Partition.range_run (Partition.whole t.heap.start managed) requests
  exact ⟨hrun.represents.start_eq.trans hrange.1, hrun.represents.limit_eq.trans hrange.2,
    hrun.tiled⟩

def smallPool : Arena := ⟨({} : Memory).setHeader 4104 ⟨248, 0⟩, ⟨4104, 4352, 4104⟩⟩

theorem init_smallPool : ({} : Arena).init 4099 256 = .ok (248, smallPool) := rfl

/-- A block is given back, a wrong address is refused, and a smaller block is cut
from the first one. -/
def reuse : List HeapRequest :=
  [.allocate 24, .write 4120 [1, 2, 3], .allocate 100, .free 4120, .free 4121, .allocate 7]

theorem run_tiled_reuse :
    4099 + 256 < wordLimit ∧ ({} : Arena).init 4099 256 = .ok (248, smallPool) ∧
      (opened smallPool).Confined reuse ∧
      ∃ blocks, ((opened smallPool).run reuse).2.Tiled blocks := by
  have hfits : 4099 + 256 < wordLimit := by decide
  have hconfined : (opened smallPool).Confined reuse := by decide +kernel
  exact ⟨hfits, init_smallPool, hconfined, (run_tiled hfits init_smallPool hconfined).2.2⟩

/-! ## First fit -/

theorem Follows.allocate_eq_none_iff (h : u.Follows p) (n : Nat) :
    u.arena.allocate n = none ↔ n = 0 ∨ ∀ b ∈ p.free, b.size < Partition.neededFor n := by
  rw [← Partition.allocate_eq_none_iff]
  constructor
  · intro hnone
    cases hresult : p.allocate n with
    | none => rfl
    | some result =>
        obtain ⟨t, hsome, _⟩ := h.represents.allocate_eq_some h.valid hresult
        rw [hnone] at hsome
        cases hsome
  · exact h.represents.allocate_eq_none

/-- The heap answers every request as the partition does, and the links in
memory lead through the free blocks of the partition in order. -/
theorem run_eq_partition {s t : Arena} {start size managed : Nat}
    (hfits : start + size < wordLimit) (hinit : s.init start size = .ok (managed, t))
    {requests : List HeapRequest} (hconfined : (opened t).Confined requests) :
    let u := ((opened t).run requests).2
    let p := ((Partition.whole t.heap.start managed).run requests).2
    ((opened t).run requests).1 = ((Partition.whole t.heap.start managed).run requests).1 ∧
      u.arena.memory.NextWalk u.arena.heap.head p.free ∧ u.arena.freeBlocks = p.free ∧
      u.held = p.live ∧
      u.arena.usage = ⟨managed, (p.free.map Block.size).sum, p.free.length,
        (p.free.map Block.size).foldl max 0⟩ ∧
      (∀ n, u.arena.allocate n = none ↔
        n = 0 ∨ ∀ b ∈ p.free, b.size < Partition.neededFor n) ∧
      ∀ n, wordLimit ≤ Partition.neededFor n → u.arena.allocate n = none := by
  obtain ⟨hanswers, hrun⟩ := (follows_of_init hinit hfits).run hconfined
  have hrange := Partition.range_run (Partition.whole t.heap.start managed) requests
  have hnone := hrun.allocate_eq_none_iff
  refine ⟨hanswers, hrun.represents.nextWalk, hrun.represents.freeBlocks_eq hrun.valid,
    hrun.live_eq.symm, ?_, hnone, ?_⟩
  · rw [hrun.represents.usage_eq hrun.valid, Partition.usage, hrange.1, hrange.2]
    simp only [Partition.whole, Nat.add_sub_cancel_left]
  · intro n hn
    refine (hnone n).mpr (Or.inr ?_)
    intro b hb
    have hlimit := hrun.valid.block_limit_lt (Partition.mem_of_free hb)
    unfold Block.limit at hlimit
    omega

theorem run_eq_partition_reuse :
    4099 + 256 < wordLimit ∧ ({} : Arena).init 4099 256 = .ok (248, smallPool) ∧
      (opened smallPool).Confined reuse ∧
      ((opened smallPool).run reuse).1 = ((Partition.whole 4104 248).run reuse).1 ∧
      ((opened smallPool).run reuse).2.arena.freeBlocks = [⟨4128, 16⟩, ⟨4264, 88⟩] := by
  have hfits : 4099 + 256 < wordLimit := by decide
  have hconfined : (opened smallPool).Confined reuse := by decide +kernel
  have hrun := run_eq_partition hfits init_smallPool hconfined
  have hfree : ((Partition.whole 4104 248).run reuse).2.free = [⟨4128, 16⟩, ⟨4264, 88⟩] := by
    decide
  exact ⟨hfits, init_smallPool, hconfined, hrun.1, hrun.2.2.1.trans hfree⟩

end Session

end Kernel16
