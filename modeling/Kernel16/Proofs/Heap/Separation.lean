import Kernel16.Proofs.Heap.Frame
import Kernel16.Proofs.Heap.Session

/-!
# The bytes of clients

Headers and payloads share one memory, and the links that the heap rewrites may
lie anywhere in the pool.  Still the heap writes to headers only: an allocation
to headers of blocks that were free, a block that comes back to its own next
word.  So a byte of a payload holds what a client last wrote there, for as long
as the block is not given back, and no byte outside the pool ever changes.
-/

namespace Kernel16

/-- The byte that a request puts at address `x`, if it writes there. -/
def HeapRequest.written? (x : Nat) : HeapRequest → Option UInt8
  | .write a bytes => if a ≤ x then bytes[x - a]? else none
  | _ => none

/-- What clients last wrote to address `x` in the course of the requests. -/
def lastWritten? (x : Nat) (requests : List HeapRequest) : Option UInt8 :=
  requests.reverse.findSome? (·.written? x)

theorem getD_lastWritten?_cons (x : Nat) (r : HeapRequest) (rest : List HeapRequest)
    (byte : UInt8) :
    (lastWritten? x (r :: rest)).getD byte =
      (lastWritten? x rest).getD ((r.written? x).getD byte) := by
  rw [lastWritten?, List.reverse_cons, List.findSome?_append, List.findSome?_singleton,
    Option.getD_or]
  rfl

theorem written?_write_of_outside {a x : Nat} {bytes : List UInt8}
    (hx : x < a ∨ a + bytes.length ≤ x) : (HeapRequest.write a bytes).written? x = none := by
  rw [HeapRequest.written?]
  split
  · exact List.getElem?_eq_none (by omega)
  · rfl

theorem Memory.byte_writeBytes (m : Memory) (a x : Nat) (bytes : List UInt8) :
    (m.writeBytes a bytes).byte x =
      ((HeapRequest.write a bytes).written? x).getD (m.byte x) := by
  by_cases hx : x < a ∨ a + bytes.length ≤ x
  · rw [byte_writeBytes_of_outside m hx, written?_write_of_outside hx, Option.getD_none]
  · have hinside : x - a < bytes.length := by omega
    have haddr : a + (x - a) = x := by omega
    have hbyte := byte_writeBytes_of_inside m (a := a) hinside
    rw [haddr] at hbyte
    rw [hbyte, HeapRequest.written?, if_pos (by omega), List.getElem?_eq_getElem hinside,
      Option.getD_some]

namespace Session

variable {u : Session} {p : Partition} {b : Block} {x : Nat} {r : HeapRequest}

theorem Follows.holds (h : u.Follows p) : u.arena.Holds (p.limit - p.start) u.held :=
  ⟨p, h.represents, h.valid, h.live_eq ▸ .refl _, rfl⟩

/-! ## One request -/

theorem mem_held_perform (hb : b ∈ u.held) (hr : r ≠ .free b.payload) :
    b ∈ (u.perform r).2.held := by
  cases r with
  | allocate n =>
      cases hresult : u.arena.allocate n with
      | none => simpa only [perform, hresult] using hb
      | some result =>
          simp only [perform, hresult]
          exact List.mem_cons_of_mem _ hb
  | free a =>
      cases hresult : u.arena.free a with
      | error e => simpa only [perform, hresult] using hb
      | ok result =>
          have hpayload : b.payload ≠ a := fun heq => hr (congrArg _ heq.symm)
          obtain ⟨g, hg, rfl⟩ := List.mem_map.mp hb
          simp only [perform, hresult]
          exact List.mem_map_of_mem (List.mem_filter.mpr ⟨hg, decide_eq_true hpayload⟩)
  | usage => exact hb
  | write a bytes => exact hb

theorem Follows.byte_perform (h : u.Follows p) (hb : b ∈ u.held) (hlow : b.payload ≤ x)
    (hhigh : x < b.limit) (r : HeapRequest) :
    (u.perform r).2.arena.memory.byte x = (r.written? x).getD (u.arena.memory.byte x) := by
  cases r with
  | allocate n =>
      cases hresult : u.arena.allocate n with
      | none => simp only [Session.perform, hresult, HeapRequest.written?, Option.getD_none]
      | some result =>
          have hcovers : b.Covers x := ⟨Nat.le_trans (Nat.le_add_right _ _) hlow, hhigh⟩
          simp only [Session.perform, hresult, HeapRequest.written?, Option.getD_none]
          exact h.holds.byte_allocate hresult hb hcovers
  | free a =>
      cases hresult : u.arena.free a with
      | error e => simp only [Session.perform, hresult, HeapRequest.written?, Option.getD_none]
      | ok result =>
          simp only [Session.perform, hresult, HeapRequest.written?, Option.getD_none]
          exact h.holds.byte_free hresult hb hlow hhigh
  | usage => rfl
  | write a bytes => exact u.arena.memory.byte_writeBytes a x bytes

theorem Follows.byte_perform_of_outside (h : u.Follows p) (hpermits : u.Permits r)
    (hx : x < p.start ∨ p.limit ≤ x) :
    (u.perform r).2.arena.memory.byte x = u.arena.memory.byte x := by
  have hinside : ∀ {c : Block}, c ∈ u.arena.freeBlocks ∨ c ∈ u.held →
      p.start ≤ c.addr ∧ c.limit ≤ p.limit := by
    intro c hc
    rw [← h.represents.start_eq, ← h.represents.limit_eq]
    exact h.holds.inside hc
  cases r with
  | allocate n =>
      cases hresult : u.arena.allocate n with
      | none => simp only [Session.perform, hresult]
      | some result =>
          simp only [Session.perform, hresult]
          by_contra hne
          obtain ⟨c, hc, d, _, hlow, hhigh, hdx⟩ := h.holds.header_of_allocate hresult hne
          have hpool := hinside (.inl hc)
          unfold Block.InHeader at hdx
          omega
  | free a =>
      cases hresult : u.arena.free a with
      | error e => simp only [Session.perform, hresult]
      | ok result =>
          simp only [Session.perform, hresult]
          by_contra hne
          obtain ⟨c, hc, _, _, hnext⟩ := h.holds.exists_of_free hresult
          have hpool := hinside (.inr hc)
          have hroom := h.holds.payload_le_limit hc
          have hword := hnext x hne
          omega
  | usage => rfl
  | write a bytes =>
      obtain ⟨c, hc, hlow, hhigh⟩ := hpermits
      have hpool := hinside (.inr hc)
      unfold Block.payload at hlow
      exact Memory.byte_writeBytes_of_outside _ (by omega)

/-! ## Runs -/

theorem Follows.byte_run (h : u.Follows p) {requests : List HeapRequest}
    (hconfined : u.Confined requests) (hb : b ∈ u.held) (hkept : .free b.payload ∉ requests)
    (hlow : b.payload ≤ x) (hhigh : x < b.limit) :
    (u.run requests).2.arena.memory.byte x =
      (lastWritten? x requests).getD (u.arena.memory.byte x) := by
  induction requests generalizing u p with
  | nil => rfl
  | cons r rest ih =>
      obtain ⟨hpermits, hrest⟩ := hconfined
      obtain ⟨hr, hrestKept⟩ := List.ne_and_not_mem_of_not_mem_cons hkept
      have hnext := ih (h.perform hpermits).2 hrest (mem_held_perform hb hr.symm) hrestKept
      rw [getD_lastWritten?_cons, ← h.byte_perform hb hlow hhigh r]
      exact hnext

theorem Follows.byte_run_of_outside (h : u.Follows p) {requests : List HeapRequest}
    (hconfined : u.Confined requests) (hx : x < p.start ∨ p.limit ≤ x) :
    (u.run requests).2.arena.memory.byte x = u.arena.memory.byte x := by
  induction requests generalizing u p with
  | nil => rfl
  | cons r rest ih =>
      obtain ⟨hpermits, hrest⟩ := hconfined
      have hrange := p.range_perform r
      have hnext := ih (h.perform hpermits).2 hrest (hrange.1 ▸ hrange.2 ▸ hx)
      exact hnext.trans (h.byte_perform_of_outside hpermits hx)

/-! ## Who writes where -/

/-- From this session on, the heap and its clients keep to their own bytes.  Of the two
questions about the pool, its usage is a request that changes nothing, and whether it
contains an address is a function of its range. -/
structure Separated (u : Session) : Prop where
  allocate_none : ∀ n, u.arena.allocate n = none → (u.perform (.allocate n)).2 = u
  allocate_range : ∀ n a s, u.arena.allocate n = some (a, s) →
    s.heap = { u.arena.heap with head := s.heap.head }
  allocate_header : ∀ n a s, u.arena.allocate n = some (a, s) →
    ∀ x, s.memory.byte x ≠ u.arena.memory.byte x →
      ∃ b ∈ u.arena.freeBlocks, ∃ c,
        (c = b ∨ c ∈ s.freeBlocks ∧ c.addr = (s.blockAt a).limit) ∧
        b.addr ≤ c.addr ∧ c.addr + headerSize ≤ b.limit ∧ c.InHeader x
  free_error : ∀ a e, u.arena.free a = .error e → (u.perform (.free a)).2 = u
  free_next : ∀ a size s, u.arena.free a = .ok (size, s) →
    ∃ b ∈ u.held, b.payload = a ∧ s.heap = { u.arena.heap with head := b.addr } ∧
      ∀ x, s.memory.byte x ≠ u.arena.memory.byte x →
        b.addr + Memory.wordSize ≤ x ∧ x < b.payload
  usage_eq : (u.perform .usage).2 = u
  payload : ∀ b ∈ u.held, ∀ later, u.Confined later → .free b.payload ∉ later →
    ∀ x, b.payload ≤ x → x < b.limit →
      (u.run later).2.arena.memory.byte x =
        (lastWritten? x later).getD (u.arena.memory.byte x)

theorem Follows.separated (h : u.Follows p) : u.Separated where
  allocate_none := by
    intro n hnone
    simp only [Session.perform, hnone]
  allocate_range := by
    intro n a s hsome
    obtain ⟨q, hq, hrepresents, _⟩ := h.represents.exists_of_allocate h.valid hsome
    obtain ⟨hstart, hlimit⟩ := Partition.range_of_allocate hq
    rw [← hrepresents.start_eq, ← h.represents.start_eq] at hstart
    rw [← hrepresents.limit_eq, ← h.represents.limit_eq] at hlimit
    change s.heap = ⟨u.arena.heap.start, u.arena.heap.limit, s.heap.head⟩
    rw [← hstart, ← hlimit]
  allocate_header := fun _ _ _ hsome _ hx => h.holds.header_of_allocate hsome hx
  free_error := by
    intro a e herror
    simp only [Session.perform, herror]
  free_next := fun _ _ _ hok => h.holds.exists_of_free hok
  usage_eq := rfl
  payload := fun _ hb _ hconfined hkept _ hlow hhigh =>
    h.byte_run hconfined hb hkept hlow hhigh

/-- Whatever clients do, requests write to headers only, each payload keeps what was last
written to it until its block is given back, and memory outside the pool stays as the
initialization left it. -/
theorem run_separated {s t : Arena} {start size managed : Nat}
    (hfits : start + size < wordLimit) (hinit : s.init start size = .ok (managed, t))
    {requests : List HeapRequest} (hconfined : (opened t).Confined requests) :
    let u := ((opened t).run requests).2
    u.Separated ∧
      ∀ x, x < t.heap.start ∨ t.heap.start + managed ≤ x →
        u.arena.memory.byte x = t.memory.byte x := by
  intro u
  have hopened := follows_of_init hinit hfits
  exact ⟨(hopened.run hconfined).2.separated, fun x hx => hopened.byte_run_of_outside hconfined hx⟩

/-- Two blocks; the second has room for four bytes more than were asked for. -/
def neighbours : List HeapRequest := [.allocate 9, .allocate 20]

/-- The second block is written to its end, while the first one comes and goes. -/
def comeAndGo : List HeapRequest :=
  [.write 4168 [1, 2, 3, 4, 5, 6, 7, 8], .free 4120, .allocate 100, .allocate 1]

theorem run_separated_neighbours :
    4099 + 256 < wordLimit ∧ ({} : Arena).init 4099 256 = .ok (248, smallPool) ∧
      (opened smallPool).Confined neighbours ∧
      ((opened smallPool).run neighbours).2.Confined comeAndGo ∧
      (((opened smallPool).run neighbours).2.run comeAndGo).2.arena.memory.byte 4175 = 8 ∧
      ((opened smallPool).run neighbours).2.arena.memory.byte 4352 = 0 := by
  have hfits : 4099 + 256 < wordLimit := by decide
  have hconfined : (opened smallPool).Confined neighbours := by decide +kernel
  have hlater : ((opened smallPool).run neighbours).2.Confined comeAndGo := by decide +kernel
  have hheld : (⟨4136, 40⟩ : Block) ∈ ((opened smallPool).run neighbours).2.held := by
    decide +kernel
  obtain ⟨hseparated, houtside⟩ := run_separated hfits init_smallPool hconfined
  refine ⟨hfits, init_smallPool, hconfined, hlater, ?_, ?_⟩
  · exact hseparated.payload _ hheld comeAndGo hlater (by decide) 4175 (by decide) (by decide)
  · exact (houtside 4352 (Or.inr (Nat.le_refl _))).trans (by decide +kernel)

end Session

end Kernel16
