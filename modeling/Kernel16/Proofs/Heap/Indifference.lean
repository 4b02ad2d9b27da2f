import Kernel16.Proofs.Heap.Session

/-!
# Payloads do not matter

Headers, links and payloads share one memory.  The heap walks through bytes that
clients were free to write, and a block that comes back is full of what its
client left in it.  Still no answer depends on such bytes: a run follows its
partition, which has no memory, and a write leaves the partition alone.  So two
runs over one pool with the same calls have the same answers and the same free
list at every point, whatever the pool held at first and whatever clients wrote.
-/

namespace Kernel16

/-- Whether the heap is asked for something; a write is a matter of the client alone. -/
def HeapRequest.isCall : HeapRequest → Bool
  | .write _ _ => false
  | _ => true

def HeapAnswer.isReply : HeapAnswer → Bool
  | .written => false
  | _ => true

def calls (requests : List HeapRequest) : List HeapRequest :=
  requests.filter HeapRequest.isCall

/-- What the calls among some requests were answered. -/
def replies (answers : List HeapAnswer) : List HeapAnswer :=
  answers.filter HeapAnswer.isReply

namespace Partition

theorem isReply_perform (p : Partition) (r : HeapRequest) :
    (p.perform r).1.isReply = r.isCall := by
  cases r with
  | allocate n => cases hresult : p.allocate n <;> simp only [perform, hresult] <;> rfl
  | free a => cases hresult : p.giveBack a <;> simp only [perform, hresult] <;> rfl
  | usage => rfl
  | write a bytes => rfl

theorem perform_of_not_isCall (p : Partition) {r : HeapRequest} (hr : r.isCall = false) :
    (p.perform r).2 = p := by
  cases r with
  | allocate n => exact nomatch hr
  | free a => exact nomatch hr
  | usage => exact nomatch hr
  | write a bytes => rfl

theorem run_cons (p : Partition) (r : HeapRequest) (rest : List HeapRequest) :
    p.run (r :: rest) =
      ((p.perform r).1 :: ((p.perform r).2.run rest).1, ((p.perform r).2.run rest).2) := rfl

/-- Without its writes, a run on lists gives the same replies and ends alike. -/
theorem run_calls (p : Partition) (requests : List HeapRequest) :
    (p.run (calls requests)).1 = replies (p.run requests).1 ∧
      (p.run (calls requests)).2 = (p.run requests).2 := by
  induction requests generalizing p with
  | nil => exact ⟨rfl, rfl⟩
  | cons r rest ih =>
      obtain ⟨hreplies, hlast⟩ := ih (p.perform r).2
      have hreply := p.isReply_perform r
      rw [p.run_cons, calls, replies, List.filter_cons, List.filter_cons, hreply]
      cases hr : r.isCall with
      | false =>
          rw [p.perform_of_not_isCall hr] at hreplies hlast ⊢
          exact ⟨hreplies, hlast⟩
      | true => exact ⟨congrArg _ hreplies, hlast⟩

end Partition

namespace Session

theorem Confined.of_append {u : Session} {first later : List HeapRequest}
    (h : u.Confined (first ++ later)) : u.Confined first := by
  induction first generalizing u with
  | nil => trivial
  | cons r rest ih => exact ⟨h.1, ih h.2⟩

variable {u v : Session} {p : Partition} {requests others : List HeapRequest}

theorem Follows.alike (hu : u.Follows p) (hv : v.Follows p) (hconfined : u.Confined requests)
    (hothers : v.Confined others) (hcalls : calls requests = calls others) :
    replies (u.run requests).1 = replies (v.run others).1 ∧
      (u.run requests).2.arena.freeBlocks = (v.run others).2.arena.freeBlocks := by
  obtain ⟨hanswers, hlast⟩ := hu.run hconfined
  obtain ⟨hanswers', hlast'⟩ := hv.run hothers
  have hwith := p.run_calls requests
  have hwithout := p.run_calls others
  rw [hcalls] at hwith
  constructor
  · rw [hanswers, hanswers', ← hwith.1, hwithout.1]
  · rw [hlast.represents.freeBlocks_eq hlast.valid, hlast'.represents.freeBlocks_eq hlast'.valid,
      ← hwith.2, hwithout.2]

/-- Two runs over the same pool with the same calls: the calls have the same answers, and
wherever the runs have made equally many of them, their free lists agree in addresses, sizes
and order.  What the pool held before and what clients write may differ. -/
theorem run_indifferent {s s' t t' : Arena} {start size managed start' size' managed' : Nat}
    (hfits : start + size < wordLimit) (hinit : s.init start size = .ok (managed, t))
    (hfits' : start' + size' < wordLimit) (hinit' : s'.init start' size' = .ok (managed', t'))
    (hpool : t.heap = t'.heap) (hconfined : (opened t).Confined requests)
    (hothers : (opened t').Confined others) (hcalls : calls requests = calls others) :
    replies ((opened t).run requests).1 = replies ((opened t').run others).1 ∧
      ∀ done done', done <+: requests → done' <+: others → calls done = calls done' →
        ((opened t).run done).2.arena.freeBlocks =
          ((opened t').run done').2.arena.freeBlocks := by
  have hopened := follows_of_init hinit hfits
  have hopened' := follows_of_init hinit' hfits'
  have hmanaged : managed = managed' := by
    have hlimit : t.heap.limit = t.heap.start + managed := hopened.represents.limit_eq
    have hlimit' : t'.heap.limit = t'.heap.start + managed' := hopened'.represents.limit_eq
    rw [hpool] at hlimit
    omega
  rw [← hpool, ← hmanaged] at hopened'
  refine ⟨(hopened.alike hopened' hconfined hothers hcalls).1, ?_⟩
  rintro done done' ⟨later, rfl⟩ ⟨later', rfl⟩ hdone
  exact (hopened.alike hopened' hconfined.of_append hothers.of_append hdone).2

/-- The pool of `smallPool` in a memory that was used before. -/
def usedPool : Arena where
  memory := (({} : Memory).writeBytes 4104 (List.replicate 248 0xFF)).setHeader 4104 ⟨248, 0⟩
  heap := ⟨4104, 4352, 4104⟩

theorem init_usedPool :
    (⟨({} : Memory).writeBytes 4104 (List.replicate 248 0xFF), {}⟩ : Arena).init 4104 248 =
      .ok (248, usedPool) := by
  have hinit (m : Memory) : (⟨m, {}⟩ : Arena).init 4104 248 =
      .ok (248, ⟨m.setHeader 4104 ⟨248, 0⟩, ⟨4104, 4352, 4104⟩⟩) := rfl
  exact hinit _

/-- The calls of `reuse`, but the first client writes what looks like the header of a free
block, and the last one fills its payload. -/
def reuseWithForgery : List HeapRequest :=
  [.allocate 24, .write 4120 (Memory.littleEndian 8 232 ++ Memory.littleEndian 8 4104),
    .allocate 100, .free 4120, .free 4121, .allocate 7, .write 4120 (List.replicate 8 0xFF)]

theorem run_indifferent_forgery :
    4099 + 256 < wordLimit ∧ ({} : Arena).init 4099 256 = .ok (248, smallPool) ∧
      4104 + 248 < wordLimit ∧
      (⟨({} : Memory).writeBytes 4104 (List.replicate 248 0xFF), {}⟩ : Arena).init 4104 248 =
        .ok (248, usedPool) ∧
      smallPool.heap = usedPool.heap ∧ (opened smallPool).Confined reuse ∧
      (opened usedPool).Confined reuseWithForgery ∧ calls reuse = calls reuseWithForgery ∧
      replies ((opened smallPool).run reuse).1 =
        replies ((opened usedPool).run reuseWithForgery).1 ∧
      ((opened smallPool).run reuse).2.arena.freeBlocks =
        ((opened usedPool).run reuseWithForgery).2.arena.freeBlocks := by
  have hfits : 4099 + 256 < wordLimit := by decide
  have hfits' : 4104 + 248 < wordLimit := by decide
  have hconfined : (opened smallPool).Confined reuse := by decide +kernel
  have hothers : (opened usedPool).Confined reuseWithForgery := by decide +kernel
  have hcalls : calls reuse = calls reuseWithForgery := by decide
  obtain ⟨hreplies, hfree⟩ := run_indifferent hfits init_smallPool hfits' init_usedPool rfl
    hconfined hothers hcalls
  have hsame := hfree reuse reuseWithForgery (List.prefix_refl _) (List.prefix_refl _) hcalls
  exact ⟨hfits, init_smallPool, hfits', init_usedPool, rfl, hconfined, hothers, hcalls, hreplies,
    hsame⟩

end Session

end Kernel16
