import Kernel16.Proofs.Heap.Partition

/-!
# The heap in memory

An arena represents a partition if the links from the head lead through its
free blocks in order, and the header of every live block holds its size and a
next word of zero.  The headers of different blocks are apart, so a write to
one of them, or to a payload, leaves the others alone.  From this each request
to the arena has the answer that the partition gives, and afterwards the arena
represents the partition after the request.
-/

namespace Kernel16

namespace Memory

/-! ## Writes to headers -/

/-- The memories differ at most in the header at address `a`. -/
def AgreeOff (m m' : Memory) (a : Nat) : Prop :=
  ∀ x, x < a ∨ a + headerSize ≤ x → m'.byte x = m.byte x

theorem header_congr {m m' : Memory} {a : Nat}
    (h : ∀ x, a ≤ x → x < a + headerSize → m'.byte x = m.byte x) :
    m'.header a = m.header a := by
  have hsize : m'.sizeAt a = m.sizeAt a := by
    apply word_congr
    intro x hlow hhigh
    exact h x hlow (Nat.lt_trans hhigh (by unfold wordSize headerSize; omega))
  have hnext : m'.nextAt a = m.nextAt a := by
    apply word_congr
    intro x hlow hhigh
    unfold wordSize at hlow hhigh
    exact h x (by omega) (by unfold headerSize; omega)
  rw [header, header, hsize, hnext]

theorem AgreeOff.header {m m' : Memory} {a b : Nat} (h : m.AgreeOff m' a)
    (hapart : a + headerSize ≤ b ∨ b + headerSize ≤ a) : m'.header b = m.header b := by
  apply header_congr
  intro x hlow hhigh
  exact h x (by omega)

theorem agreeOff_setSize (m : Memory) (a n : Nat) : m.AgreeOff (m.setSize a n) a := by
  intro x hx
  apply byte_setWord_of_outside
  unfold wordSize
  unfold headerSize at hx
  omega

theorem agreeOff_setNext (m : Memory) (a n : Nat) : m.AgreeOff (m.setNext a n) a := by
  intro x hx
  apply byte_setWord_of_outside
  unfold wordSize
  unfold headerSize at hx
  omega

theorem AgreeOff.trans {m m' m'' : Memory} {a : Nat} (h : m.AgreeOff m' a)
    (h' : m'.AgreeOff m'' a) : m.AgreeOff m'' a :=
  fun x hx => (h' x hx).trans (h x hx)

theorem agreeOff_setHeader (m : Memory) (a : Nat) (h : Header) :
    m.AgreeOff (m.setHeader a h) a :=
  (agreeOff_setSize m a h.size).trans (agreeOff_setNext _ a h.next)

theorem header_eq_iff {m : Memory} {a : Nat} {h : Header} :
    m.header a = h ↔ m.sizeAt a = h.size ∧ m.nextAt a = h.next := by
  cases h
  rw [header, Header.mk.injEq]

theorem AgreeOff.sizeAt {m m' : Memory} {a b : Nat} (h : m.AgreeOff m' a)
    (hapart : a + headerSize ≤ b ∨ b + headerSize ≤ a) : m'.sizeAt b = m.sizeAt b :=
  (header_eq_iff.mp (h.header hapart)).1

theorem AgreeOff.nextAt {m m' : Memory} {a b : Nat} (h : m.AgreeOff m' a)
    (hapart : a + headerSize ≤ b ∨ b + headerSize ≤ a) : m'.nextAt b = m.nextAt b :=
  (header_eq_iff.mp (h.header hapart)).2

theorem sizeAt_setSize_self (m : Memory) (a : Nat) {n : Nat} (hn : n < wordLimit) :
    (m.setSize a n).sizeAt a = n := by
  rw [sizeAt, setSize, word_setWord, wrapWord_of_lt hn]

@[simp] theorem sizeAt_setNext_self (m : Memory) (a n : Nat) :
    (m.setNext a n).sizeAt a = m.sizeAt a :=
  word_setWord_of_disjoint m (Or.inl (Nat.le_refl _))

theorem nextAt_setNext_self (m : Memory) (a : Nat) {n : Nat} (hn : n < wordLimit) :
    (m.setNext a n).nextAt a = n := by
  rw [nextAt, setNext, word_setWord, wrapWord_of_lt hn]

theorem header_setHeader_self (m : Memory) (a : Nat) {h : Header} (hsize : h.size < wordLimit)
    (hnext : h.next < wordLimit) : (m.setHeader a h).header a = h := by
  rw [header_eq_iff, setHeader, sizeAt_setNext_self, sizeAt_setSize_self m a hsize]
  exact ⟨rfl, nextAt_setNext_self _ a hnext⟩

/-- Following the size words from `a` visits the blocks in order and ends
exactly at `limit`. -/
def SizeWalk (m : Memory) (limit : Nat) : Nat → List Block → Prop
  | a, [] => a = limit
  | a, b :: rest => b = ⟨a, m.sizeAt a⟩ ∧ m.SizeWalk limit (a + m.sizeAt a) rest

/-- Following the next words from `a` visits the blocks in order and ends at
address zero. -/
def NextWalk (m : Memory) : Nat → List Block → Prop
  | a, [] => a = 0
  | a, b :: rest => a ≠ 0 ∧ b = ⟨a, m.sizeAt a⟩ ∧ m.NextWalk (m.nextAt a) rest

end Memory

/-! ## Links -/

def Link.Off : Link → Nat → Prop
  | .head, _ => True
  | .after block, a => block + headerSize ≤ a ∨ a + headerSize ≤ block

def Link.Outside : Link → Block → Prop
  | .head, _ => True
  | .after block, b => block + headerSize ≤ b.addr ∨ b.limit ≤ block

theorem Link.Outside.off {link : Link} {b : Block} {a : Nat} (h : link.Outside b)
    (hlow : b.addr ≤ a) (hhigh : a + headerSize ≤ b.limit) : link.Off a := by
  cases link with
  | head => trivial
  | after block =>
      unfold Outside at h
      unfold Off
      omega

/-- The last of the links that lead from `link` through the blocks. -/
def linkAfter (link : Link) : List Block → Link
  | [] => link
  | b :: rest => linkAfter (.after b.addr) rest

theorem linkAfter_mem (link : Link) (blocks : List Block) :
    linkAfter link blocks ∈ link :: blocks.map fun b => Link.after b.addr := by
  induction blocks generalizing link with
  | nil => exact List.mem_singleton_self _
  | cons b rest ih => exact List.mem_cons_of_mem _ (ih (.after b.addr))

namespace Arena

variable {s t : Arena} {link : Link} {a : Nat}

def target (s : Arena) : Link → Nat
  | .head => s.heap.head
  | .after block => s.memory.nextAt block

@[simp] theorem target_head (s : Arena) : s.target .head = s.heap.head := rfl

@[simp] theorem target_after (s : Arena) (block : Nat) :
    s.target (.after block) = s.memory.nextAt block := rfl

/-- From `link` on, the links lead through the blocks in order and end at
address zero. -/
def Chain (s : Arena) : Link → List Block → Prop
  | link, [] => s.target link = 0
  | link, b :: rest =>
      b.addr ≠ 0 ∧ s.target link = b.addr ∧ s.memory.sizeAt b.addr = b.size ∧
        s.Chain (.after b.addr) rest

theorem header_redirect (s : Arena) (hoff : link.Off a) (x : Nat) :
    (s.redirect link x).memory.header a = s.memory.header a := by
  cases link with
  | head => rfl
  | after block => exact (Memory.agreeOff_setNext _ _ _).header hoff

theorem target_redirect_self (s : Arena) (link : Link) {x : Nat} (hx : x < wordLimit) :
    (s.redirect link x).target link = x := by
  cases link with
  | head => rfl
  | after block => exact Memory.nextAt_setNext_self s.memory block hx

theorem sizeAt_redirect_after (s : Arena) (block x : Nat) :
    (s.redirect (.after block) x).memory.sizeAt block = s.memory.sizeAt block :=
  Memory.sizeAt_setNext_self s.memory block x

theorem target_of_agreeOff (hhead : t.heap.head = s.heap.head)
    (hagree : s.memory.AgreeOff t.memory a) (hoff : link.Off a) :
    t.target link = s.target link := by
  cases link with
  | head => exact hhead
  | after block => exact hagree.nextAt hoff.symm

/-! ## Chains -/

theorem Chain.sizeAt {blocks : List Block} {b : Block} (h : s.Chain link blocks)
    (hb : b ∈ blocks) : s.memory.sizeAt b.addr = b.size := by
  induction blocks generalizing link with
  | nil => cases hb
  | cons c rest ih =>
      obtain ⟨_, _, hsize, hrest⟩ := h
      rcases List.mem_cons.mp hb with rfl | hmem
      · exact hsize
      · exact ih hrest hmem

theorem Chain.move {blocks : List Block} {other : Link} (h : s.Chain link blocks)
    (htarget : t.target other = s.target link)
    (hheader : ∀ b ∈ blocks, t.memory.header b.addr = s.memory.header b.addr) :
    t.Chain other blocks := by
  induction blocks generalizing link other with
  | nil => exact htarget.trans h
  | cons b rest ih =>
      obtain ⟨hne, hb, hsize, hrest⟩ := h
      obtain ⟨hbheader, hrestHeader⟩ := List.forall_mem_cons.mp hheader
      have hsame := Memory.header_eq_iff.mp hbheader
      exact ⟨hne, htarget.trans hb, hsame.1.trans hsize, ih hrest hsame.2 hrestHeader⟩

/-- Only the last link into a part of the chain has to change to replace what
follows it. -/
theorem Chain.splice {before after after' : List Block} (h : s.Chain link (before ++ after))
    (hnodup : (link :: before.map fun b => Link.after b.addr).Nodup)
    (htarget : ∀ l ∈ link :: before.map (fun b => Link.after b.addr),
      l ≠ linkAfter link before → t.target l = s.target l)
    (hsize : ∀ b ∈ before, t.memory.sizeAt b.addr = s.memory.sizeAt b.addr)
    (hafter : t.Chain (linkAfter link before) after') : t.Chain link (before ++ after') := by
  induction before generalizing link with
  | nil => exact hafter
  | cons b rest ih =>
      obtain ⟨hne, hb, hbsize, hrest⟩ := h
      obtain ⟨hnotmem, htail⟩ := List.nodup_cons.mp hnodup
      obtain ⟨hlink, hlinks⟩ := List.forall_mem_cons.mp htarget
      obtain ⟨hsame, hsizes⟩ := List.forall_mem_cons.mp hsize
      have hkept : t.target link = s.target link := by
        apply hlink
        intro heq
        exact hnotmem (heq ▸ linkAfter_mem (.after b.addr) rest)
      exact ⟨hne, hkept.trans hb, hsame.trans hbsize, ih hrest htail hlinks hsizes hafter⟩

theorem Chain.suffix {before after : List Block} (h : s.Chain link (before ++ after)) :
    s.Chain (linkAfter link before) after := by
  induction before generalizing link with
  | nil => exact h
  | cons b rest ih => exact ih h.2.2.2

theorem freeChain_eq_of_chain {blocks : List Block} {bound : Nat} (h : s.Chain link blocks)
    (hbound : blocks.length < bound) : s.memory.freeChain bound (s.target link) = blocks := by
  induction bound generalizing link blocks with
  | zero => exact absurd hbound (Nat.not_lt_zero _)
  | succ bound ih =>
      cases blocks with
      | nil =>
          have hzero : s.target link = 0 := h
          rw [Memory.freeChain, if_pos hzero]
      | cons b rest =>
          obtain ⟨hne, hb, hsize, hrest⟩ := h
          have htail := ih hrest (Nat.lt_of_succ_lt_succ hbound)
          rw [target_after] at htail
          rw [hb, Memory.freeChain, if_neg hne, hsize, htail]

/-! ## First fit along a chain -/

theorem firstFit_eq_none {blocks : List Block} {needed : Nat} (bound : Nat)
    (h : s.Chain link blocks) (hsmall : ∀ b ∈ blocks, b.size < needed) :
    s.memory.firstFit needed bound link (s.target link) = none := by
  induction bound generalizing link blocks with
  | zero => rfl
  | succ bound ih =>
      cases blocks with
      | nil =>
          have hzero : s.target link = 0 := h
          rw [Memory.firstFit, if_pos hzero]
      | cons b rest =>
          obtain ⟨hne, hb, hsize, hrest⟩ := h
          obtain ⟨hbsmall, hrestSmall⟩ := List.forall_mem_cons.mp hsmall
          rw [hb, Memory.firstFit, if_neg hne, hsize, if_neg (Nat.not_le.mpr hbsmall)]
          exact ih hrest hrestSmall

theorem firstFit_eq_some {before after : List Block} {b : Block} {needed bound : Nat}
    (h : s.Chain link (before ++ b :: after)) (hsmall : ∀ c ∈ before, c.size < needed)
    (hb : needed ≤ b.size) (hbound : before.length < bound) :
    s.memory.firstFit needed bound link (s.target link) =
      some (linkAfter link before, b.addr) := by
  induction bound generalizing link before with
  | zero => exact absurd hbound (Nat.not_lt_zero _)
  | succ bound ih =>
      cases before with
      | nil =>
          obtain ⟨hne, hblock, hsize, _⟩ := h
          rw [hblock, Memory.firstFit, if_neg hne, hsize, if_pos hb, linkAfter]
      | cons c rest =>
          obtain ⟨hne, hc, hsize, hrest⟩ := h
          obtain ⟨hcsmall, hrestSmall⟩ := List.forall_mem_cons.mp hsmall
          rw [hc, Memory.firstFit, if_neg hne, hsize, if_neg (Nat.not_le.mpr hcsmall)]
          exact ih hrest hrestSmall (Nat.lt_of_succ_lt_succ hbound)

/-! ## Carving a block -/

def setHeader (s : Arena) (block : Nat) (h : Header) : Arena :=
  { s with memory := s.memory.setHeader block h }

@[simp] theorem heap_setSize (s : Arena) (block size : Nat) :
    (s.setSize block size).heap = s.heap := rfl

@[simp] theorem heap_setNext (s : Arena) (block next : Nat) :
    (s.setNext block next).heap = s.heap := rfl

@[simp] theorem memory_setSize (s : Arena) (block size : Nat) :
    (s.setSize block size).memory = s.memory.setSize block size := rfl

@[simp] theorem memory_setNext (s : Arena) (block next : Nat) :
    (s.setNext block next).memory = s.memory.setNext block next := rfl

theorem agreeOff_setNext_setSize (s : Arena) (block size next : Nat) :
    s.memory.AgreeOff ((s.setSize block size).setNext block next).memory block :=
  (Memory.agreeOff_setSize _ _ _).trans (Memory.agreeOff_setNext _ _ _)

theorem target_setNext (s : Arena) {block : Nat} (hoff : link.Off block) (next : Nat) :
    (s.setNext block next).target link = s.target link :=
  target_of_agreeOff (s := s) rfl (Memory.agreeOff_setNext _ _ _) hoff

theorem target_setNext_setSize (s : Arena) {block : Nat} (hoff : link.Off block)
    (size next : Nat) :
    ((s.setSize block size).setNext block next).target link = s.target link :=
  target_of_agreeOff (s := s) rfl (s.agreeOff_setNext_setSize block size next) hoff

section Take

variable {b : Block} {needed : Nat}

theorem take_of_split (hsize : s.memory.sizeAt b.addr = b.size) (hlimit : b.limit < wordLimit)
    (hle : needed ≤ b.size) (hrest : headerSize ≤ b.size - needed) :
    s.take link b.addr needed =
      (((s.setHeader (b.addr + needed) ⟨b.size - needed, s.memory.nextAt b.addr⟩).redirect link
          (b.addr + needed)).setSize b.addr needed).setNext b.addr 0 := by
  have htail : wrapWord (b.addr + needed) = b.addr + needed := by
    apply wrapWord_of_lt
    unfold Block.limit at hlimit
    omega
  simp only [take, Memory.header, hsize, if_pos hrest, htail, setHeader]

theorem take_of_whole (hsize : s.memory.sizeAt b.addr = b.size)
    (hrest : ¬ headerSize ≤ b.size - needed) :
    s.take link b.addr needed =
      (s.redirect link (s.memory.nextAt b.addr)).setNext b.addr 0 := by
  simp only [take, Memory.header, hsize, if_neg hrest]

variable (hsize : s.memory.sizeAt b.addr = b.size) (hlimit : b.limit < wordLimit)
  (hle : needed ≤ b.size)

include hsize hlimit hle

theorem header_take_self (hneeded : headerSize ≤ needed) (hoff : link.Outside b) :
    (s.take link b.addr needed).memory.header b.addr = ⟨(b.cut needed).1.size, 0⟩ := by
  rw [Memory.header_eq_iff]
  unfold Block.cut
  split
  next hrest =>
      have hword : needed < wordLimit := by
        unfold Block.limit at hlimit
        omega
      rw [take_of_split hsize hlimit hle hrest, memory_setNext, memory_setSize,
        Memory.sizeAt_setNext_self, Memory.sizeAt_setSize_self _ _ hword,
        Memory.nextAt_setNext_self _ _ (by decide)]
      exact ⟨rfl, rfl⟩
  next hrest =>
      have hself : link.Off b.addr := hoff.off (Nat.le_refl _) (by unfold Block.limit; omega)
      have hkept := Memory.header_eq_iff.mp (s.header_redirect hself (s.memory.nextAt b.addr))
      rw [take_of_whole hsize hrest, memory_setNext, Memory.sizeAt_setNext_self, hkept.1,
        Memory.nextAt_setNext_self _ _ (by decide)]
      exact ⟨hsize, rfl⟩

theorem header_take_of_apart (hneeded : headerSize ≤ needed) (hoff : link.Off a)
    (hapart : a + headerSize ≤ b.addr ∨ b.limit ≤ a) :
    (s.take link b.addr needed).memory.header a = s.memory.header a := by
  have hself : b.addr + headerSize ≤ a ∨ a + headerSize ≤ b.addr := by
    unfold Block.limit at hapart
    omega
  by_cases hrest : headerSize ≤ b.size - needed
  · have htail : b.addr + needed + headerSize ≤ a ∨ a + headerSize ≤ b.addr + needed := by
      unfold Block.limit at hapart
      omega
    rw [take_of_split hsize hlimit hle hrest]
    exact ((agreeOff_setNext_setSize _ _ _ _).header hself).trans
      ((header_redirect _ hoff _).trans ((Memory.agreeOff_setHeader _ _ _).header htail))
  · rw [take_of_whole hsize hrest]
    exact ((Memory.agreeOff_setNext _ _ _).header hself).trans (header_redirect _ hoff _)

theorem sizeAt_take_link {c : Nat} (hneeded : headerSize ≤ needed)
    (hapart : c + headerSize ≤ b.addr ∨ b.limit ≤ c) :
    (s.take (.after c) b.addr needed).memory.sizeAt c = s.memory.sizeAt c := by
  have hself : b.addr + headerSize ≤ c ∨ c + headerSize ≤ b.addr := by
    unfold Block.limit at hapart
    omega
  by_cases hrest : headerSize ≤ b.size - needed
  · have htail : b.addr + needed + headerSize ≤ c ∨ c + headerSize ≤ b.addr + needed := by
      unfold Block.limit at hapart
      omega
    rw [take_of_split hsize hlimit hle hrest]
    exact ((agreeOff_setNext_setSize _ _ _ _).sizeAt hself).trans
      ((sizeAt_redirect_after _ _ _).trans ((Memory.agreeOff_setHeader _ _ _).sizeAt htail))
  · rw [take_of_whole hsize hrest]
    exact ((Memory.agreeOff_setNext _ _ _).sizeAt hself).trans (sizeAt_redirect_after _ _ _)

/-- The link that led to the block now leads to what stays free of it, or else
to the block that followed. -/
theorem chain_take {after : List Block} (hneeded : headerSize ≤ needed)
    (hb : 0 < b.addr) (hoff : link.Outside b) (hafter : s.Chain (.after b.addr) after)
    (houtside : ∀ c ∈ after,
      link.Off c.addr ∧ (c.addr + headerSize ≤ b.addr ∨ b.limit ≤ c.addr)) :
    (s.take link b.addr needed).Chain link ((b.cut needed).2 ++ after) := by
  have hkept : ∀ c ∈ after, (s.take link b.addr needed).memory.header c.addr =
      s.memory.header c.addr := by
    intro c hc
    exact header_take_of_apart hsize hlimit hle hneeded (houtside c hc).1 (houtside c hc).2
  have hself : link.Off b.addr := hoff.off (Nat.le_refl _) (by unfold Block.limit; omega)
  unfold Block.cut
  split
  next hrest =>
      have hword : b.addr + needed < wordLimit := by
        unfold Block.limit at hlimit
        omega
      have htailOff : link.Off (b.addr + needed) :=
        hoff.off (Nat.le_add_right _ _) (by unfold Block.limit; omega)
      have htarget : (s.take link b.addr needed).target link = b.addr + needed := by
        rw [take_of_split hsize hlimit hle hrest]
        exact (target_setNext_setSize _ hself _ _).trans (target_redirect_self _ link hword)
      have hheader : (s.take link b.addr needed).memory.header (b.addr + needed) =
          ⟨b.size - needed, s.memory.nextAt b.addr⟩ := by
        have hrestWord : b.size - needed < wordLimit := by
          unfold Block.limit at hlimit
          omega
        rw [take_of_split hsize hlimit hle hrest]
        exact ((agreeOff_setNext_setSize _ _ _ _).header (Or.inl (by omega))).trans
          ((header_redirect _ htailOff _).trans
            (Memory.header_setHeader_self _ _ hrestWord (Memory.word_lt _ _)))
      rw [Memory.header_eq_iff] at hheader
      exact ⟨Nat.ne_of_gt (Nat.add_pos_left hb needed), htarget, hheader.1,
        hafter.move hheader.2 hkept⟩
  next hrest =>
      have htarget : (s.take link b.addr needed).target link = s.target (.after b.addr) := by
        rw [take_of_whole hsize hrest]
        exact (target_setNext _ hself _).trans
          (target_redirect_self _ link (Memory.word_lt _ _))
      exact hafter.move htarget hkept

end Take

/-! ## Arenas that represent a partition -/

/-- The free blocks are linked in order, and each live block has a header with
its size and a next word of zero. -/
structure Represents (s : Arena) (p : Partition) : Prop where
  start_eq : s.heap.start = p.start
  limit_eq : s.heap.limit = p.limit
  chain : s.Chain .head p.free
  live_header : ∀ b ∈ p.live, s.memory.header b.addr = ⟨b.size, 0⟩

section Represents

variable {p q : Partition}

theorem Represents.sizeAt (hs : s.Represents p) {b : Block} (hb : b ∈ p.blocks) :
    s.memory.sizeAt b.addr = b.size := by
  rcases Partition.mem_blocks.mp hb with hfree | hlive
  · exact hs.chain.sizeAt hfree
  · exact (Memory.header_eq_iff.mp (hs.live_header b hlive)).1

theorem Represents.freeBlocks_eq (hs : s.Represents p) (hp : p.Valid) :
    s.freeBlocks = p.free :=
  freeChain_eq_of_chain hs.chain hp.length_free_lt

theorem foldl_add_usage {blocks : List Block} {usage : PoolUsage}
    (h : usage.free + (blocks.map Block.size).sum < wordLimit) :
    blocks.foldl PoolUsage.add usage =
      ⟨usage.managed, usage.free + (blocks.map Block.size).sum, usage.blocks + blocks.length,
        (blocks.map Block.size).foldl max usage.largest⟩ := by
  induction blocks generalizing usage with
  | nil => rfl
  | cons b rest ih =>
      rw [List.map_cons, List.sum_cons] at h
      have hfree : (usage.add b).free = usage.free + b.size := wrapWord_of_lt (by omega)
      have hrest : (usage.add b).free + (rest.map Block.size).sum < wordLimit := by
        rw [hfree]
        omega
      rw [List.foldl_cons, ih hrest, hfree, List.map_cons, List.sum_cons, List.length_cons,
        List.foldl_cons, Nat.add_assoc, Nat.add_comm rest.length, ← Nat.add_assoc usage.blocks]
      rfl

theorem Represents.usage_eq (hs : s.Represents p) (hp : p.Valid) : s.usage = p.usage := by
  have hsum := hp.sum_size
  have hlimit := hp.limit_lt
  rw [usage, hs.freeBlocks_eq hp, foldl_add_usage (by simp only; omega), Heap.size, hs.start_eq,
    hs.limit_eq, Partition.usage]
  simp only [Nat.zero_add]

theorem Represents.of_header (hs : s.Represents p) (hheap : t.heap = s.heap)
    (hheader : ∀ b ∈ p.blocks, t.memory.header b.addr = s.memory.header b.addr) :
    t.Represents p where
  start_eq := hheap ▸ hs.start_eq
  limit_eq := hheap ▸ hs.limit_eq
  chain := hs.chain.move (congrArg Heap.head hheap)
    fun b hb => hheader b (Partition.mem_of_free hb)
  live_header := fun b hb =>
    (hheader b (Partition.mem_of_live hb)).trans (hs.live_header b hb)

theorem Represents.write (hs : s.Represents p) (hp : p.Valid) {b : Block} (hb : b ∈ p.live)
    {a : Nat} {bytes : List UInt8} (hlow : b.payload ≤ a)
    (hhigh : a + bytes.length ≤ b.limit) :
    ({ s with memory := s.memory.writeBytes a bytes } : Arena).Represents p := by
  refine hs.of_header rfl ?_
  intro c hc
  have hbmem := Partition.mem_of_live hb
  have hsized := (hp.of_mem hc).2.2.1
  have houtside : c.addr + headerSize ≤ a ∨ a + bytes.length ≤ c.addr := by
    unfold Block.payload at hlow
    by_cases heq : c = b
    · subst heq
      exact Or.inl hlow
    · have hapart := hp.apart_of_ne hc hbmem heq
      unfold Block.Apart at hapart
      unfold Block.limit at hapart hhigh
      omega
  apply Memory.header_congr
  intro x hxlow hxhigh
  apply Memory.byte_writeBytes_of_outside
  omega

/-! ## Allocation -/

theorem blockSize?_eq (n : Nat) :
    blockSize? n =
      if Partition.neededFor n < wordLimit then some (Partition.neededFor n) else none := by
  have hmono : n + (heapAlign - 1) < Partition.neededFor n := by
    unfold Partition.neededFor alignDown heapAlign headerSize
    omega
  unfold blockSize? alignUp? sum?
  by_cases hround : n + (heapAlign - 1) < wordLimit
  · rw [if_pos hround]
    rfl
  · rw [if_neg hround, if_neg (by omega)]
    rfl

theorem heap_range_take (s : Arena) (link : Link) (block needed : Nat) :
    (s.take link block needed).heap.start = s.heap.start ∧
      (s.take link block needed).heap.limit = s.heap.limit := by
  simp only [take]
  split <;> simp

theorem head_take (s : Arena) (c block needed : Nat) :
    (s.take (.after c) block needed).heap.head = s.heap.head := by
  simp only [take]
  split <;> rfl

section Taking

variable {before after : List Block} {b c : Block}

theorem linkAfter_head_cases (before : List Block) :
    linkAfter .head before = .head ∨ ∃ d ∈ before, linkAfter .head before = .after d.addr := by
  rcases List.mem_cons.mp (linkAfter_mem .head before) with hhead | hmem
  · exact Or.inl hhead
  · obtain ⟨d, hd, hlink⟩ := List.mem_map.mp hmem
    exact Or.inr ⟨d, hd, hlink.symm⟩

theorem outside_linkAfter (hp : p.Valid) (hbefore : ∀ d ∈ before, d ∈ p.blocks ∧ d ≠ b)
    (hb : b ∈ p.blocks) : (linkAfter .head before).Outside b := by
  rcases linkAfter_head_cases before with hhead | ⟨d, hd, hlink⟩
  · rw [hhead]
    trivial
  · obtain ⟨hdmem, hne⟩ := hbefore d hd
    have hapart := hp.apart_of_ne hdmem hb hne
    have hsized := (hp.of_mem hdmem).2.2.1
    rw [hlink]
    unfold Block.Apart at hapart
    unfold Link.Outside
    unfold Block.limit at hapart ⊢
    omega

theorem off_linkAfter (hp : p.Valid) (hbefore : ∀ d ∈ before, d ∈ p.blocks)
    (hc : c ∈ p.blocks) (hne : linkAfter .head before ≠ .after c.addr) :
    (linkAfter .head before).Off c.addr := by
  rcases linkAfter_head_cases before with hhead | ⟨d, hd, hlink⟩
  · rw [hhead]
    trivial
  · have hdc : d ≠ c := by
      rintro rfl
      exact hne hlink
    have hapart := hp.apart_of_ne (hbefore d hd) hc hdc
    have hdsized := (hp.of_mem (hbefore d hd)).2.2.1
    have hcsized := (hp.of_mem hc).2.2.1
    rw [hlink]
    unfold Block.Apart Block.limit at hapart
    unfold Link.Off
    omega

theorem header_outside (hp : p.Valid) (hb : b ∈ p.blocks) (hc : c ∈ p.blocks) (hne : c ≠ b) :
    c.addr + headerSize ≤ b.addr ∨ b.limit ≤ c.addr := by
  have hapart := hp.apart_of_ne hc hb hne
  have hsized := (hp.of_mem hc).2.2.1
  unfold Block.Apart Block.limit at hapart
  unfold Block.limit
  omega

theorem nodup_links (hp : p.Valid) (hbefore : ∀ d ∈ before, d ∈ p.blocks)
    (hnodup : before.Nodup) :
    (Link.head :: before.map fun d => Link.after d.addr).Nodup := by
  rw [List.nodup_cons]
  constructor
  · simp
  · apply List.pairwise_map.mpr
    refine hnodup.imp_of_mem ?_
    intro c d hc hd hne heq
    exact hne (hp.eq_of_addr (hbefore c hc) (hbefore d hd) (Link.after.inj heq))

theorem linkAfter_ne_after (hp : p.Valid) (hbefore : ∀ d ∈ before, d ∈ p.blocks)
    (hc : c ∈ p.blocks) (hnot : c ∉ before) : linkAfter .head before ≠ .after c.addr := by
  intro hlink
  rcases linkAfter_head_cases before with hhead | ⟨d, hd, hd'⟩
  · rw [hhead] at hlink
    cases hlink
  · have haddr : d.addr = c.addr := Link.after.inj (hd'.symm.trans hlink)
    have heq := hp.eq_of_addr (hbefore d hd) hc haddr
    exact hnot (heq ▸ hd)

theorem blocks_around (hp : p.Valid) (hfree : p.free = before ++ b :: after) :
    b ∈ p.blocks ∧ before.Nodup ∧ (∀ d ∈ before, d ∈ p.blocks ∧ d ≠ b) ∧
      ∀ c ∈ after ++ p.live, c ∈ p.blocks ∧ c ≠ b ∧ c ∉ before := by
  have hblocks : p.blocks = before ++ b :: (after ++ p.live) := by
    rw [Partition.blocks, hfree, List.append_assoc, List.cons_append]
  have hnodup := hp.nodup
  rw [hblocks, List.nodup_append, List.nodup_cons] at hnodup
  obtain ⟨hbefore, ⟨hb, _⟩, hdisjoint⟩ := hnodup
  rw [hblocks]
  refine ⟨by simp, hbefore, ?_, ?_⟩
  · intro d hd
    exact ⟨List.mem_append_left _ hd, hdisjoint d hd b List.mem_cons_self⟩
  · intro c hc
    have hcmem := List.mem_cons_of_mem b hc
    refine ⟨List.mem_append_right _ hcmem, ?_, ?_⟩
    · intro hcb
      exact hb (hcb ▸ hc)
    · intro hbefore
      exact hdisjoint c hbefore c hcmem rfl

/-- Away from the cut block, only the block that holds the last link changes. -/
theorem Represents.header_take (hs : s.Represents p) (hp : p.Valid) {needed : Nat}
    (hfree : p.free = before ++ b :: after) (hneeded : headerSize ≤ needed)
    (hle : needed ≤ b.size) (hc : c ∈ p.blocks) (hcb : c ≠ b)
    (hne : linkAfter .head before ≠ .after c.addr) :
    (s.take (linkAfter .head before) b.addr needed).memory.header c.addr =
      s.memory.header c.addr := by
  obtain ⟨hb, _, hbefore, _⟩ := blocks_around hp hfree
  exact header_take_of_apart (hs.sizeAt hb) (hp.block_limit_lt hb) hle hneeded
    (off_linkAfter hp (fun d hd => (hbefore d hd).1) hc hne) (header_outside hp hb hc hcb)

theorem Represents.chain_take (hs : s.Represents p) (hp : p.Valid) {needed : Nat}
    (hfree : p.free = before ++ b :: after) (hneeded : headerSize ≤ needed)
    (hle : needed ≤ b.size) :
    (s.take (linkAfter .head before) b.addr needed).Chain .head
      (before ++ ((b.cut needed).2 ++ after)) := by
  obtain ⟨hb, hnodup, hbefore, hrest⟩ := blocks_around hp hfree
  have hmem : ∀ d ∈ before, d ∈ p.blocks := fun d hd => (hbefore d hd).1
  have hsize := hs.sizeAt hb
  have hlimit := hp.block_limit_lt hb
  have hchain : s.Chain .head (before ++ b :: after) := hfree ▸ hs.chain
  refine hchain.splice (nodup_links hp hmem hnodup) ?_ ?_ ?_
  · intro l hl hne
    rcases List.mem_cons.mp hl with rfl | hlinks
    · rcases linkAfter_head_cases before with hhead | ⟨d, hd, hlink⟩
      · exact absurd hhead.symm hne
      · rw [hlink]
        exact head_take s _ _ _
    · obtain ⟨c, hc, rfl⟩ := List.mem_map.mp hlinks
      exact (Memory.header_eq_iff.mp
        (hs.header_take hp hfree hneeded hle (hmem c hc) (hbefore c hc).2 (Ne.symm hne))).2
  · intro c hc
    by_cases hlink : linkAfter .head before = .after c.addr
    · rw [hlink]
      exact sizeAt_take_link hsize hlimit hle hneeded
        (header_outside hp hb (hmem c hc) (hbefore c hc).2)
    · exact (Memory.header_eq_iff.mp
        (hs.header_take hp hfree hneeded hle (hmem c hc) (hbefore c hc).2 hlink)).1
  · refine Arena.chain_take hsize hlimit hle hneeded (hp.addr_pos hb)
      (outside_linkAfter hp hbefore hb) hchain.suffix.2.2.2 ?_
    intro c hc
    obtain ⟨hcmem, hcb, hnot⟩ := hrest c (List.mem_append_left _ hc)
    have hne := linkAfter_ne_after hp hmem hcmem hnot
    exact ⟨off_linkAfter hp hmem hcmem hne, header_outside hp hb hcmem hcb⟩

/-- Carving a free block carries out the cut in memory. -/
theorem Represents.take (hs : s.Represents p) (hp : p.Valid) {needed : Nat}
    (hfree : p.free = before ++ b :: after) (hneeded : headerSize ≤ needed)
    (hle : needed ≤ b.size) :
    (s.take (linkAfter .head before) b.addr needed).Represents { p with
      free := before ++ ((b.cut needed).2 ++ after)
      live := (b.cut needed).1 :: p.live } := by
  obtain ⟨hb, _, hbefore, hrest⟩ := blocks_around hp hfree
  have hrange := heap_range_take s (linkAfter .head before) b.addr needed
  refine ⟨hrange.1.trans hs.start_eq, hrange.2.trans hs.limit_eq,
    hs.chain_take hp hfree hneeded hle, ?_⟩
  intro c hc
  rcases List.mem_cons.mp hc with rfl | hlive
  · rw [Block.addr_cut]
    exact header_take_self (hs.sizeAt hb) (hp.block_limit_lt hb) hle hneeded
      (outside_linkAfter hp hbefore hb)
  · obtain ⟨hcmem, hcb, hnot⟩ := hrest c (List.mem_append_right _ hlive)
    have hne := linkAfter_ne_after hp (fun d hd => (hbefore d hd).1) hcmem hnot
    exact (hs.header_take hp hfree hneeded hle hcmem hcb hne).trans (hs.live_header c hlive)

end Taking

theorem Represents.allocate_eq_none (hs : s.Represents p) {n : Nat}
    (h : p.allocate n = none) : s.allocate n = none := by
  rw [allocate]
  rcases Partition.allocate_eq_none_iff.mp h with hn | hsmall
  · rw [if_pos hn]
  · split
    next => rfl
    next =>
        rw [blockSize?_eq]
        split
        next =>
            have hfit := firstFit_eq_none wordLimit hs.chain hsmall
            rw [target_head] at hfit
            simp only [Option.bind_eq_bind, Option.bind_some, hfit, Option.bind_none]
        next => rfl

/-- A request that the partition serves cuts its first block that is large enough. -/
theorem Represents.allocate_eq_take (hs : s.Represents p) (hp : p.Valid) {n : Nat}
    {before after : List Block} {b : Block} (hn : n ≠ 0) (hfree : p.free = before ++ b :: after)
    (hbefore : ∀ c ∈ before, c.size < Partition.neededFor n)
    (hb : Partition.neededFor n ≤ b.size) :
    s.allocate n =
      some (b.payload, s.take (linkAfter .head before) b.addr (Partition.neededFor n)) := by
  have hbmem : b ∈ p.blocks := Partition.mem_of_free (by simp [hfree])
  have hlimit := hp.block_limit_lt hbmem
  have hsized := (hp.of_mem hbmem).2.2.1
  have hlength : before.length < wordLimit := by
    have hlt := hp.length_free_lt
    rw [hfree, List.length_append] at hlt
    omega
  have hfit := firstFit_eq_some (hfree ▸ hs.chain) hbefore hb hlength
  rw [target_head] at hfit
  have hpayload : wrapWord (b.addr + headerSize) = b.payload := by
    apply wrapWord_of_lt
    unfold Block.limit at hlimit
    omega
  have hword : Partition.neededFor n < wordLimit := by
    unfold Block.limit at hlimit
    omega
  rw [allocate, if_neg hn, blockSize?_eq, if_pos hword]
  simp only [Option.bind_eq_bind, Option.bind_some, hfit, hpayload]
  rfl

theorem Represents.allocate_eq_some (hs : s.Represents p) (hp : p.Valid) {n a : Nat}
    (h : p.allocate n = some (a, q)) : ∃ t, s.allocate n = some (a, t) ∧ t.Represents q := by
  obtain ⟨before, b, after, hn, hfree, hbefore, hb, rfl, rfl⟩ := Partition.exists_of_allocate h
  have hneeded := Partition.headerSize_lt_neededFor hn
  exact ⟨_, hs.allocate_eq_take hp hn hfree hbefore hb,
    hs.take hp hfree (Nat.le_of_lt hneeded) hb⟩

/-- The block with payload address `a`, as its header describes it. -/
def blockAt (s : Arena) (a : Nat) : Block := ⟨a - headerSize, s.memory.sizeAt (a - headerSize)⟩

theorem Represents.exists_of_allocate (hs : s.Represents p) (hp : p.Valid) {n a : Nat}
    (h : s.allocate n = some (a, t)) :
    ∃ q, p.allocate n = some (a, q) ∧ t.Represents q ∧ q.Valid ∧
      q.live = t.blockAt a :: p.live ∧ (t.blockAt a).payload = a ∧
      n + headerSize ≤ (t.blockAt a).size := by
  cases hresult : p.allocate n with
  | none =>
      rw [hs.allocate_eq_none hresult] at h
      cases h
  | some result =>
      obtain ⟨a', q⟩ := result
      obtain ⟨t', hsome, hq⟩ := hs.allocate_eq_some hp hresult
      rw [hsome] at h
      cases h
      have hvalid := hp.allocate hresult
      obtain ⟨_, b, _, _, _, _, hle, rfl, rfl⟩ := Partition.exists_of_allocate hresult
      have hheader := hq.live_header _ List.mem_cons_self
      rw [Block.addr_cut, Memory.header_eq_iff] at hheader
      have hblock : t.blockAt b.payload = (b.cut (Partition.neededFor n)).1 := by
        have haddr : b.payload - headerSize = b.addr := Nat.add_sub_cancel _ _
        rw [blockAt, haddr, hheader.1]
        exact congrArg (Block.mk · _) (Block.addr_cut _ _).symm
      refine ⟨_, rfl, hq, hvalid, ?_, ?_, ?_⟩
      · rw [hblock]
      · rw [hblock, Block.payload, Block.addr_cut, Block.payload]
      · rw [hblock]
        exact Nat.le_trans (Partition.add_headerSize_le_neededFor n) (Block.le_size_cut hle)

/-! ## Giving back -/

/-- The walk along the size words reaches the start of every block, and no
other address below the limit. -/
theorem walkReaches_iff {m : Memory} {limit target bound current : Nat} {blocks : List Block}
    (htiles : Tiles limit current blocks)
    (hsize : ∀ b ∈ blocks, m.sizeAt b.addr = b.size) (hlimit : limit < wordLimit)
    (htarget : target < limit) (hbound : limit < current + bound) :
    m.walkReaches limit target bound current = true ↔ ∃ b ∈ blocks, b.addr = target := by
  induction bound generalizing current blocks with
  | zero =>
      have hle := htiles.le
      omega
  | succ bound ih =>
      cases blocks with
      | nil =>
          have hend : current = limit := htiles
          rw [Memory.walkReaches, if_neg (by omega), decide_eq_true_iff]
          constructor
          · intro heq
            omega
          · rintro ⟨b, hb, _⟩
            cases hb
      | cons b rest =>
          obtain ⟨rfl, hsized, hrest⟩ := htiles
          obtain ⟨hbsize, hrestSize⟩ := List.forall_mem_cons.mp hsize
          have hpos : 0 < b.size := Nat.lt_of_lt_of_le (by decide) hsized.1
          have hsum : sum? b.addr b.size = some b.limit := by
            rw [sum?_eq_some_iff]
            exact ⟨Nat.lt_of_le_of_lt hrest.le hlimit, rfl⟩
          have hstep := ih hrest hrestSize (by unfold Block.limit; omega)
          rw [Memory.walkReaches]
          split
          next hlt =>
              simp only [hbsize, if_neg (Nat.not_lt.mpr hsized.1), hsum, if_pos hrest.le, hstep,
                List.mem_cons, exists_eq_or_imp]
              exact (or_iff_right (Nat.ne_of_lt hlt)).symm
          next hge =>
              rw [decide_eq_true_iff]
              constructor
              · intro heq
                exact ⟨b, List.mem_cons_self, heq⟩
              · rintro ⟨c, hc, rfl⟩
                rcases List.mem_cons.mp hc with rfl | hmem
                · rfl
                · have hafter := (hrest.of_mem hmem).1
                  unfold Block.limit at hafter
                  omega

theorem Represents.isBlockStart_iff (hs : s.Represents p) (hp : p.Valid) {x : Nat}
    (hx : x < p.limit) : s.isBlockStart x = true ↔ ∃ b ∈ p.blocks, b.addr = x := by
  obtain ⟨blocks, htiles, hperm⟩ := hp.tiled
  have hsize : ∀ b ∈ blocks, s.memory.sizeAt b.addr = b.size :=
    fun b hb => hs.sizeAt (hperm.mem_iff.mp hb)
  have hstart := hp.start_lt
  rw [isBlockStart, Heap.size, hs.start_eq, hs.limit_eq,
    walkReaches_iff htiles hsize hp.limit_lt hx (by omega)]
  simp only [hperm.mem_iff]

theorem Represents.any_contains_iff (hs : s.Represents p) (hp : p.Valid) (x : Nat) :
    s.freeBlocks.any (·.contains x) = true ↔ ∃ b ∈ p.free, b.Covers x := by
  rw [hs.freeBlocks_eq hp, List.any_eq_true]
  constructor
  · rintro ⟨b, hb, hcontains⟩
    have hlimit := hp.block_limit_lt (Partition.mem_of_free hb)
    exact ⟨b, hb, (Block.contains_iff_covers hlimit x).mp hcontains⟩
  · rintro ⟨b, hb, hcovers⟩
    have hlimit := hp.block_limit_lt (Partition.mem_of_free hb)
    exact ⟨b, hb, (Block.contains_iff_covers hlimit x).mpr hcovers⟩

theorem Represents.hasPool (hs : s.Represents p) (hp : p.Valid) : s.heap.hasPool = true := by
  rw [Heap.hasPool, hs.start_eq, hs.limit_eq]
  exact decide_eq_true hp.start_lt

theorem Represents.free_eq_error (hs : s.Represents p) (hp : p.Valid) {a : Nat}
    {e : FreeRefusal} (h : p.giveBack a = .error e) : s.free a = .error e := by
  obtain ⟨hnone, rfl⟩ := Partition.giveBack_eq_error_iff.mp h
  rw [free, Partition.refusal, hs.hasPool hp, hs.start_eq, hs.limit_eq]
  split
  next => rfl
  next hzero =>
      by_cases hrange : a < p.start + headerSize ∨ p.limit ≤ a
      · rw [if_pos (by simpa using hrange), if_pos hrange]
      · rw [if_neg (by simpa using hrange), if_neg hrange]
        by_cases halign : (a - p.start) % heapAlign ≠ 0
        · rw [if_pos halign, if_pos halign]
        · rw [if_neg halign, if_neg halign]
          by_cases hfree : ∃ b ∈ p.free, b.Covers (a - headerSize)
          · rw [if_pos hfree]
            simp only [(hs.any_contains_iff hp _).mpr hfree, if_true]
          · have hnotStart : s.isBlockStart (a - headerSize) = false := by
              rw [Bool.eq_false_iff, Ne, hs.isBlockStart_iff hp (by omega)]
              rintro ⟨b, hb, haddr⟩
              rcases Partition.mem_blocks.mp hb with hbfree | hblive
              · exact hfree ⟨b, hbfree, haddr ▸ hp.covers_addr hb⟩
              · refine hnone b hblive ?_
                unfold Block.payload
                omega
            have hnotFree := mt (hs.any_contains_iff hp _).mp hfree
            rw [if_neg hfree]
            simp only [if_neg hnotFree, hnotStart, Bool.not_false, if_true]

theorem Represents.head_lt (hs : s.Represents p) (hp : p.Valid) : s.heap.head < wordLimit := by
  have hchain := hs.chain
  cases hfree : p.free with
  | nil =>
      rw [hfree] at hchain
      have hzero : s.heap.head = 0 := hchain
      rw [hzero]
      decide
  | cons b rest =>
      rw [hfree] at hchain
      have hb : b ∈ p.blocks := Partition.mem_of_free (by simp [hfree])
      have hhead : s.heap.head = b.addr := hchain.2.1
      have hlimit := hp.block_limit_lt hb
      unfold Block.limit at hlimit
      omega

theorem Represents.push (hs : s.Represents p) (hp : p.Valid) {b : Block} (hb : b ∈ p.live) :
    ({ memory := s.memory.setNext b.addr s.heap.head
       heap := { s.heap with head := b.addr } } : Arena).Represents { p with
      free := b :: p.free
      live := p.live.filter (·.payload ≠ b.payload) } := by
  have hbmem : b ∈ p.blocks := Partition.mem_of_live hb
  have hnotFree : b ∉ p.free := hp.not_mem_free hb
  have hkept : ∀ c ∈ p.blocks, c ≠ b →
      (s.memory.setNext b.addr s.heap.head).header c.addr = s.memory.header c.addr := by
    intro c hc hne
    have hsized := (hp.of_mem hbmem).2.2.1
    have houtside := header_outside hp hbmem hc hne
    refine (Memory.agreeOff_setNext _ _ _).header ?_
    unfold Block.limit at houtside
    omega
  refine ⟨hs.start_eq, hs.limit_eq, ⟨?_, rfl, ?_, ?_⟩, ?_⟩
  · exact Nat.ne_of_gt (hp.addr_pos hbmem)
  · exact (Memory.sizeAt_setNext_self _ _ _).trans (hs.sizeAt hbmem)
  · refine hs.chain.move (Memory.nextAt_setNext_self _ _ (hs.head_lt hp)) ?_
    intro c hc
    exact hkept c (Partition.mem_of_free hc) fun heq => hnotFree (heq ▸ hc)
  · intro c hc
    obtain ⟨hlive, hne⟩ := List.mem_filter.mp hc
    refine (hkept c (Partition.mem_of_live hlive) ?_).trans (hs.live_header c hlive)
    rintro rfl
    simp at hne

theorem Represents.free_eq_ok (hs : s.Represents p) (hp : p.Valid) {a size : Nat}
    (h : p.giveBack a = .ok (size, q)) : ∃ t, s.free a = .ok (size, t) ∧ t.Represents q := by
  obtain ⟨b, hb, rfl, rfl, rfl⟩ := Partition.exists_of_giveBack h
  have hbmem : b ∈ p.blocks := Partition.mem_of_live hb
  obtain ⟨hlow, hhigh, hsized⟩ := hp.of_mem hbmem
  have hroom := hp.live_room b hb
  have hblock : b.payload - headerSize = b.addr := Nat.add_sub_cancel _ _
  have hrange : ¬ (b.payload < p.start + headerSize ∨ p.limit ≤ b.payload) := by
    unfold Block.limit at hhigh
    unfold Block.payload
    omega
  have haligned := hp.payload_aligned hbmem
  have hnotFree : s.freeBlocks.any (·.contains b.addr) = false := by
    rw [Bool.eq_false_iff, Ne, hs.any_contains_iff hp]
    exact fun hfree => hp.not_covers_of_free hfree hb (hp.covers_addr hbmem)
  have hstart : s.isBlockStart b.addr = true :=
    (hs.isBlockStart_iff hp (by unfold Block.limit at hhigh; omega)).mpr ⟨b, hbmem, rfl⟩
  have hfits : s.blockFits b.addr b.size = true := by
    have hsum : sum? b.addr b.size = some b.limit :=
      sum?_eq_some_iff.mpr ⟨hp.block_limit_lt hbmem, rfl⟩
    rw [blockFits, hsum, hs.limit_eq]
    simp [hsized.1, hhigh]
  have hne : b.payload ≠ 0 := Nat.ne_of_gt (Nat.add_pos_left (hp.addr_pos hbmem) _)
  refine ⟨_, ?_, hs.push hp hb⟩
  rw [free, if_neg hne, hs.hasPool hp, hs.start_eq, hs.limit_eq, if_neg (by simpa using hrange),
    if_neg (not_not.mpr haligned)]
  simp only [hblock, hnotFree, hstart, hs.sizeAt hbmem, hfits, Bool.not_true, if_false,
    Bool.false_eq_true]

theorem Represents.exists_of_free (hs : s.Represents p) (hp : p.Valid) {a size : Nat}
    (h : s.free a = .ok (size, t)) :
    ∃ q, p.giveBack a = .ok (size, q) ∧ t.Represents q ∧ q.Valid ∧
      q.live = p.live.filter (·.payload ≠ a) := by
  cases hresult : p.giveBack a with
  | error e =>
      rw [hs.free_eq_error hp hresult] at h
      cases h
  | ok result =>
      obtain ⟨size', q⟩ := result
      obtain ⟨t', hok, hq⟩ := hs.free_eq_ok hp hresult
      rw [hok] at h
      cases h
      have hvalid := hp.giveBack hresult
      obtain ⟨_, _, _, _, rfl⟩ := Partition.exists_of_giveBack hresult
      exact ⟨_, rfl, hq, hvalid, rfl⟩

/-! ## Walks through the memory -/

theorem Chain.nextWalk {blocks : List Block} (h : s.Chain link blocks) :
    s.memory.NextWalk (s.target link) blocks := by
  induction blocks generalizing link with
  | nil => exact h
  | cons b rest ih =>
      obtain ⟨hne, hb, hsize, hrest⟩ := h
      have htail := ih hrest
      rw [target_after] at htail
      rw [hb, Memory.NextWalk, hsize]
      exact ⟨hne, rfl, htail⟩

theorem sizeWalk_of_tiles {m : Memory} {limit x : Nat} {blocks : List Block}
    (htiles : Tiles limit x blocks) (hsize : ∀ b ∈ blocks, m.sizeAt b.addr = b.size) :
    m.SizeWalk limit x blocks := by
  induction blocks generalizing x with
  | nil => exact htiles
  | cons b rest ih =>
      obtain ⟨rfl, _, hrest⟩ := htiles
      obtain ⟨hbsize, hrestSize⟩ := List.forall_mem_cons.mp hsize
      have htail := ih hrest hrestSize
      rw [Block.limit] at htail
      rw [Memory.SizeWalk, hbsize]
      exact ⟨rfl, htail⟩

theorem Represents.nextWalk (hs : s.Represents p) :
    s.memory.NextWalk s.heap.head p.free :=
  hs.chain.nextWalk

/-! ## Setting up a pool -/

theorem exists_of_init {start size managed : Nat} (h : s.init start size = .ok (managed, t)) :
    ∃ first, 0 < first ∧ heapAlign ∣ first ∧ headerSize ≤ managed ∧ heapAlign ∣ managed ∧
      start ≤ first ∧ first + managed ≤ start + size ∧
      t = ⟨s.memory.setHeader first ⟨managed, 0⟩, ⟨first, wrapWord (first + managed), first⟩⟩ := by
  rw [init] at h
  split at h
  next => cases h
  next hstart =>
      split at h
      next => cases h
      next =>
          split at h
          next => cases h
          next first hround =>
              obtain ⟨_, hfirst⟩ := alignUp?_eq_some_iff.mp hround
              simp only at h
              split at h
              next => cases h
              next hroom =>
                  cases h
                  have hle : start ≤ first := by
                    rw [hfirst]
                    unfold alignDown heapAlign
                    omega
                  have hdown := alignDown_le (size - (first - start)) heapAlign
                  have hroom := Nat.not_lt.mp hroom
                  have hheader : 0 < headerSize := by decide
                  exact ⟨first, by omega, hfirst ▸ dvd_alignDown _ _, hroom,
                    dvd_alignDown _ _, hle, by omega, rfl⟩

theorem represents_of_init {start size managed : Nat} (h : s.init start size = .ok (managed, t))
    (hfits : start + size < wordLimit) :
    t.Represents (Partition.whole t.heap.start managed) ∧
      (Partition.whole t.heap.start managed).Valid := by
  obtain ⟨first, hpos, hfirst, hroom, hmanaged, _, hle, rfl⟩ := exists_of_init h
  have hlimit : first + managed < wordLimit := Nat.lt_of_le_of_lt hle hfits
  have hheader : (s.memory.setHeader first ⟨managed, 0⟩).header first = ⟨managed, 0⟩ := by
    have hword : managed < wordLimit := by omega
    exact Memory.header_setHeader_self _ _ hword (show 0 < wordLimit by decide)
  rw [Memory.header_eq_iff] at hheader
  constructor
  · exact ⟨rfl, wrapWord_of_lt hlimit,
      ⟨Nat.ne_of_gt hpos, rfl, hheader.1, hheader.2⟩, fun _ hb => nomatch hb⟩
  · exact Partition.valid_whole hpos hfirst hroom hmanaged hlimit

end Represents

end Arena

end Kernel16
