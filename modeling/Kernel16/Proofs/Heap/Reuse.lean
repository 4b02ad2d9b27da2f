import Kernel16.Proofs.Heap.Frame
import Kernel16.Proofs.Heap.Session

/-!
# A block that comes back is handed out next

A block goes in front of the free list when it comes back, and the list is searched from its
front.  So the next request that the block can serve gets it, at the same address, and the
other free blocks stay as they are.

A block that is handed out has less than a header to spare for what was asked for.  If the
same number of bytes is asked for again, the block is not cut this time either, and its next
word is zero as it was before.  The two requests then leave no trace: the heap and every
byte of the memory are as they were.
-/

namespace Kernel16

namespace Memory

theorem littleEndian_ofLittleEndian (bytes : List UInt8) :
    littleEndian bytes.length (ofLittleEndian bytes) = bytes := by
  induction bytes with
  | nil => rfl
  | cons b rest ih =>
      have hlow : UInt8.ofNat (b.toNat + 256 * ofLittleEndian rest) = b := by
        apply UInt8.toNat_inj.mp
        have hb := b.toNat_lt
        rw [UInt8.toNat_ofNat', Nat.add_mul_mod_self_left]
        exact Nat.mod_eq_of_lt hb
      have hhigh : (b.toNat + 256 * ofLittleEndian rest) / 256 = ofLittleEndian rest := by
        have hb := b.toNat_lt
        omega
      rw [List.length_cons, ofLittleEndian, littleEndian, hlow, hhigh, ih]

theorem readBytes_eq_littleEndian (m : Memory) (a : Nat) :
    m.readBytes a wordSize = littleEndian wordSize (m.word a) := by
  have h := littleEndian_ofLittleEndian (m.readBytes a wordSize)
  rw [length_readBytes] at h
  exact h.symm

/-- Memories with the same word at `a` that agree elsewhere have the same bytes. -/
theorem byte_eq_of_word {m m' : Memory} {a : Nat} (hword : m'.word a = m.word a)
    (houtside : ∀ x, x < a ∨ a + wordSize ≤ x → m'.byte x = m.byte x) (x : Nat) :
    m'.byte x = m.byte x := by
  by_cases hx : x < a ∨ a + wordSize ≤ x
  · exact houtside x hx
  · have hbytes : m'.readBytes a wordSize = m.readBytes a wordSize := by
      rw [readBytes_eq_littleEndian, readBytes_eq_littleEndian, hword]
    simp only [readBytes, List.map_inj_left, List.mem_range] at hbytes
    have hbyte := hbytes (x - a) (by omega)
    rwa [show a + (x - a) = x by omega] at hbyte

end Memory

/-! ## Blocks without room to spare -/

theorem Block.size_cut_lt {b : Block} {needed : Nat} (hle : needed ≤ b.size) :
    (b.cut needed).1.size < needed + headerSize := by
  unfold cut
  split
  next => exact Nat.lt_add_of_pos_right (by decide)
  next hrest =>
    have hspare := Nat.lt_of_not_le hrest
    dsimp only
    omega

/-- The block has what the request needs, and less than a header to spare. -/
structure Grant.Snug (g : Grant) : Prop where
  asked : g.requested ≠ 0
  room : Partition.neededFor g.requested ≤ g.block.size
  spare : g.block.size < Partition.neededFor g.requested + headerSize

namespace Arena

variable {s t : Arena} {p : Partition} {b : Block} {n a : Nat}

theorem Represents.snug_of_allocate (hs : s.Represents p) (hp : p.Valid)
    (h : s.allocate n = some (a, t)) : Grant.Snug ⟨t.blockAt a, n⟩ := by
  obtain ⟨q, hq, _, _, hlive, _⟩ := hs.exists_of_allocate hp h
  obtain ⟨_, c, _, hn, _, _, hle, _, rfl⟩ := Partition.exists_of_allocate hq
  have hblock : t.blockAt a = (c.cut (Partition.neededFor n)).1 := (List.cons.inj hlive).1.symm
  rw [hblock]
  exact ⟨hn, Block.le_size_cut hle, Block.size_cut_lt hle⟩

/-! ## Giving back and asking anew -/

/-- The arena after a block came back. -/
def pushed (s : Arena) (b : Block) : Arena where
  memory := s.memory.setNext b.addr s.heap.head
  heap := { s.heap with head := b.addr }

section Live

variable (hs : s.Represents p) (hp : p.Valid) (hb : b ∈ p.live)

include hs hp hb

theorem Represents.free_payload :
    s.free b.payload = .ok (b.size, s.pushed b) ∧
      ∃ q, (s.pushed b).Represents q ∧ q.Valid ∧ q.free = b :: p.free := by
  have hgiven := hp.giveBack_live hb
  obtain ⟨t, hfree, hrepresents⟩ := hs.free_eq_ok hp hgiven
  have haddr : b.payload - headerSize = b.addr := Nat.add_sub_cancel _ _
  have ht := Arena.exists_of_free hfree
  rw [haddr] at ht
  subst ht
  exact ⟨hfree, _, hrepresents, hp.giveBack hgiven, rfl⟩

/-- The block that came back is the first one tried. -/
theorem Represents.allocate_pushed (hn : n ≠ 0) (hle : Partition.neededFor n ≤ b.size) :
    (s.pushed b).allocate n =
        some (b.payload, (s.pushed b).take .head b.addr (Partition.neededFor n)) ∧
      ((s.pushed b).take .head b.addr (Partition.neededFor n)).freeBlocks =
        (b.cut (Partition.neededFor n)).2 ++ s.freeBlocks := by
  obtain ⟨_, q, hrepresents, hvalid, hfree⟩ := hs.free_payload hp hb
  have hneeded := Partition.headerSize_lt_neededFor hn
  have hfront : q.free = [] ++ b :: p.free := hfree
  have htaken := hrepresents.take hvalid hfront (Nat.le_of_lt hneeded) hle
  have htakenValid := hvalid.take hfront hneeded (Partition.dvd_neededFor n) hle
  have hallocate := hrepresents.allocate_eq_take hvalid hn hfront (fun _ hc => nomatch hc) hle
  refine ⟨hallocate, ?_⟩
  rw [hs.freeBlocks_eq hp]
  exact htaken.freeBlocks_eq htakenValid

/-- Taken as a whole, the block leaves the heap and all bytes as they were. -/
theorem Represents.take_pushed {needed : Nat} (hspare : b.size < needed + headerSize) :
    ((s.pushed b).take .head b.addr needed).heap = s.heap ∧
      ∀ x, ((s.pushed b).take .head b.addr needed).memory.byte x = s.memory.byte x := by
  have hsize : (s.pushed b).memory.sizeAt b.addr = b.size :=
    (Memory.sizeAt_setNext_self _ _ _).trans (hs.sizeAt (Partition.mem_of_live hb))
  have hnext : (s.pushed b).memory.nextAt b.addr = s.heap.head :=
    Memory.nextAt_setNext_self _ _ (hs.head_lt hp)
  have hzero : s.memory.nextAt b.addr = 0 := (Memory.header_eq_iff.mp (hs.live_header b hb)).2
  have hwhole : ¬ headerSize ≤ b.size - needed := by
    have hheader : 0 < headerSize := by decide
    omega
  rw [take_of_whole hsize hwhole, hnext]
  constructor
  · rw [heap_setNext, redirect, pushed]
  · refine Memory.byte_eq_of_word (a := b.addr + Memory.wordSize) ?_ ?_
    · exact (Memory.nextAt_setNext_self _ _ (by decide)).trans hzero.symm
    · intro x hx
      exact (Memory.byte_setWord_of_outside _ hx).trans (Memory.byte_setWord_of_outside _ hx)

end Live

end Arena

namespace Session

variable {u : Session} {p : Partition}

theorem Follows.snug_perform (h : u.Follows p) (hsnug : ∀ g ∈ u.live, g.Snug) (r : HeapRequest) :
    ∀ g ∈ (u.perform r).2.live, g.Snug := by
  cases r with
  | allocate n =>
      cases hresult : u.arena.allocate n with
      | none => simpa only [Session.perform, hresult] using hsnug
      | some result =>
          simp only [Session.perform, hresult]
          exact List.forall_mem_cons.mpr ⟨h.represents.snug_of_allocate h.valid hresult, hsnug⟩
  | free a =>
      cases hresult : u.arena.free a with
      | error e => simpa only [Session.perform, hresult] using hsnug
      | ok result =>
          simp only [Session.perform, hresult]
          exact fun g hg => hsnug g (List.mem_filter.mp hg).1
  | usage => exact hsnug
  | write a bytes => exact hsnug

theorem Follows.snug_run (h : u.Follows p) (hsnug : ∀ g ∈ u.live, g.Snug)
    {requests : List HeapRequest} (hconfined : u.Confined requests) :
    ∀ g ∈ (u.run requests).2.live, g.Snug := by
  induction requests generalizing u p with
  | nil => exact hsnug
  | cons r rest ih => exact ih (h.perform hconfined.1).2 (h.snug_perform hsnug r) hconfined.2

/-- Gives the payload at `a` back and asks for `n` bytes next. -/
def exchange (u : Session) (a n : Nat) : List HeapAnswer × Session :=
  u.run [.free a, .allocate n]

theorem exchange_eq {s t : Arena} {a n size : Nat} (hfree : u.arena.free a = .ok (size, s))
    (hallocate : s.allocate n = some (a, t)) :
    (u.exchange a n).1 = [.freed (.ok size), .allocated (some a)] ∧
      (u.exchange a n).2.arena = t := by
  simp only [exchange, run, perform, hfree, hallocate, and_self]

/-- The block of the grant is free again and the first one that is tried. -/
structure Reuses (u : Session) (g : Grant) : Prop where
  answers : ∀ m, 1 ≤ m → Partition.neededFor m ≤ g.block.size →
    (u.exchange g.block.payload m).1 =
      [.freed (.ok g.block.size), .allocated (some g.block.payload)]
  others : ∀ m, 1 ≤ m → Partition.neededFor m ≤ g.block.size →
    (u.exchange g.block.payload m).2.arena.freeBlocks =
      (g.block.cut (Partition.neededFor m)).2 ++ u.arena.freeBlocks
  same_answers : (u.exchange g.block.payload g.requested).1 =
    [.freed (.ok g.block.size), .allocated (some g.block.payload)]
  same_heap : (u.exchange g.block.payload g.requested).2.arena.heap = u.arena.heap
  same_bytes : ∀ x, (u.exchange g.block.payload g.requested).2.arena.memory.byte x =
    u.arena.memory.byte x

theorem Follows.exchange_payload (h : u.Follows p) {g : Grant} (hg : g ∈ u.live) {m : Nat}
    (hm : m ≠ 0) (hle : Partition.neededFor m ≤ g.block.size) :
    (u.exchange g.block.payload m).1 =
        [.freed (.ok g.block.size), .allocated (some g.block.payload)] ∧
      (u.exchange g.block.payload m).2.arena =
        (u.arena.pushed g.block).take .head g.block.addr (Partition.neededFor m) := by
  have hb := h.mem_of_live hg
  exact exchange_eq (h.represents.free_payload h.valid hb).1
    (h.represents.allocate_pushed h.valid hb hm hle).1

theorem Follows.reuses (h : u.Follows p) {g : Grant} (hg : g ∈ u.live) (hsnug : g.Snug) :
    u.Reuses g := by
  have hb := h.mem_of_live hg
  obtain ⟨hanswers, harena⟩ := h.exchange_payload hg hsnug.asked hsnug.room
  obtain ⟨hheap, hbytes⟩ := h.represents.take_pushed h.valid hb hsnug.spare
  rw [← harena] at hheap hbytes
  refine ⟨?_, ?_, hanswers, hheap, hbytes⟩
  · intro m hm hle
    exact (h.exchange_payload hg (Nat.ne_of_gt hm) hle).1
  · intro m hm hle
    rw [(h.exchange_payload hg (Nat.ne_of_gt hm) hle).2]
    exact (h.represents.allocate_pushed h.valid hb (Nat.ne_of_gt hm) hle).2

/-- Whatever clients did before, a block that is given back goes to the next request that it
can serve, and to give it back and ask for as much again changes neither heap nor memory. -/
theorem run_reuses {s t : Arena} {start size managed : Nat}
    (hfits : start + size < wordLimit) (hinit : s.init start size = .ok (managed, t))
    {requests : List HeapRequest} (hconfined : (opened t).Confined requests) {g : Grant}
    (hg : g ∈ ((opened t).run requests).2.live) : ((opened t).run requests).2.Reuses g := by
  have hopened := follows_of_init hinit hfits
  have hsnug := hopened.snug_run (fun _ hg => nomatch hg) hconfined
  exact (hopened.run hconfined).2.reuses hg (hsnug g hg)

/-- The last request takes a whole block of 88 bytes for the 80 that it needs, and its
client fills the payload. -/
def reuseWhole : List HeapRequest :=
  reuse ++ [.allocate 64, .write 4280 (List.replicate 72 0xFF)]

theorem run_reuses_whole :
    4099 + 256 < wordLimit ∧ ({} : Arena).init 4099 256 = .ok (248, smallPool) ∧
      (opened smallPool).Confined reuseWhole ∧
      ⟨⟨4264, 88⟩, 64⟩ ∈ ((opened smallPool).run reuseWhole).2.live ∧
      ((opened smallPool).run reuseWhole).2.Reuses ⟨⟨4264, 88⟩, 64⟩ := by
  have hfits : 4099 + 256 < wordLimit := by decide
  have hconfined : (opened smallPool).Confined reuseWhole := by decide +kernel
  have hg : ⟨⟨4264, 88⟩, 64⟩ ∈ ((opened smallPool).run reuseWhole).2.live := by decide +kernel
  exact ⟨hfits, init_smallPool, hconfined, hg, run_reuses hfits init_smallPool hconfined hg⟩

end Session

end Kernel16
