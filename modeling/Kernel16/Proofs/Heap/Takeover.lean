import Kernel16.Kernel.Heap
import Kernel16.Proofs.Heap.Session

/-!
# Taking over a pool

A heap that is offered a range of memory takes all of it that is aligned, or nothing.  What it
takes lies between the first and the last boundary of the range, and only a header at the start
is written.  A range is refused for one of three reasons.  The heap and its memory are then as
they were, so the clients go on with the pool that the heap had before.
-/

namespace Kernel16

/-- A range of memory that is offered to a heap. -/
structure PoolOffer where
  start : Nat
  size : Nat
  deriving DecidableEq, Repr

namespace PoolOffer

variable {o : PoolOffer} {a : Nat}

/-- The first boundary that is not below the range. -/
def first (o : PoolOffer) : Nat := alignDown (o.start + (heapAlign - 1)) heapAlign

/-- The last boundary that is not past the range. -/
def last (o : PoolOffer) : Nat := alignDown (o.start + o.size) heapAlign

def room (o : PoolOffer) : Nat := o.last - o.first

/-- Why a heap does not take the range.  There is never more than one reason. -/
def Refuses (o : PoolOffer) : PoolError → Prop
  | .null => o.start = 0
  | .tooLarge n => n = o.size ∧ o.start ≠ 0 ∧ largestPool < o.size
  | .tooSmall n =>
      n = o.size ∧ o.start ≠ 0 ∧ o.size ≤ largestPool ∧ o.last < o.first + headerSize

def refusal? (o : PoolOffer) : Option PoolError :=
  if o.start = 0 then some .null
  else if largestPool < o.size then some (.tooLarge o.size)
  else if o.last < o.first + headerSize then some (.tooSmall o.size)
  else none

theorem refusal?_eq_some_iff {e : PoolError} : o.refusal? = some e ↔ o.Refuses e := by
  unfold refusal? Refuses
  cases e <;> grind

theorem refusal?_eq_none_iff : o.refusal? = none ↔ ∀ e, ¬ o.Refuses e := by
  rw [Option.eq_none_iff_forall_ne_some]
  exact forall_congr' fun e => not_congr refusal?_eq_some_iff

theorem first_le_iff (ha : heapAlign ∣ a) : o.first ≤ a ↔ o.start ≤ a := by
  unfold first alignDown
  unfold heapAlign at ha ⊢
  omega

theorem le_last_iff (ha : heapAlign ∣ a) : a ≤ o.last ↔ a ≤ o.start + o.size := by
  unfold last alignDown
  unfold heapAlign at ha ⊢
  omega

theorem dvd_first (o : PoolOffer) : heapAlign ∣ o.first := dvd_alignDown _ _

theorem start_le_first (o : PoolOffer) : o.start ≤ o.first :=
  (first_le_iff o.dvd_first).mp (Nat.le_refl _)

theorem last_le (o : PoolOffer) : o.last ≤ o.start + o.size := alignDown_le _ _

/-- The size is cut by what is lost at the start and then rounded; this loses no more than
rounding the end. -/
theorem alignDown_usable (h : o.first ≤ o.start + o.size) :
    alignDown (o.size - (o.first - o.start)) heapAlign = o.room := by
  have hstart := o.start_le_first
  have hfirst := o.dvd_first
  unfold room last alignDown
  unfold heapAlign at hfirst ⊢
  omega

theorem usable_lt_of_first_gt (h : o.start + o.size < o.first) :
    alignDown (o.size - (o.first - o.start)) heapAlign < headerSize := by
  have hnone : o.size - (o.first - o.start) = 0 := by omega
  rw [hnone]
  decide

theorem alignUp?_start (o : PoolOffer) :
    alignUp? o.start heapAlign =
      if o.start + (heapAlign - 1) < wordLimit then some o.first else none := by
  unfold alignUp? sum?
  split <;> rfl

/-- A start that cannot be rounded up to a word leaves no room before the end of all words. -/
theorem last_lt_of_not_word (hfits : o.start + o.size < wordLimit)
    (h : ¬ o.start + (heapAlign - 1) < wordLimit) : o.last < o.first + headerSize := by
  have hlast := o.last_le
  have hfirst : wordLimit ≤ o.first := by
    unfold first alignDown
    unfold heapAlign wordLimit UInt64.size at h ⊢
    omega
  omega

end PoolOffer

namespace Arena

variable {s : Arena} {o : PoolOffer}

/-- The arena after it took the range over. -/
def taken (s : Arena) (o : PoolOffer) : Arena where
  memory := s.memory.setHeader o.first ⟨o.room, 0⟩
  heap := ⟨o.first, o.last, o.first⟩

theorem init_eq (s : Arena) (hfits : o.start + o.size < wordLimit) :
    s.init o.start o.size =
      match o.refusal? with
      | some e => .error e
      | none => .ok (o.room, s.taken o) := by
  unfold init PoolOffer.refusal?
  by_cases hnull : o.start = 0
  · rw [if_pos hnull, if_pos hnull]
  rw [if_neg hnull, if_neg hnull]
  by_cases hlarge : largestPool < o.size
  · rw [if_pos hlarge, if_pos hlarge]
  rw [if_neg hlarge, if_neg hlarge, o.alignUp?_start]
  by_cases hword : o.start + (heapAlign - 1) < wordLimit
  · rw [if_pos hword]
    dsimp only
    by_cases hpast : o.start + o.size < o.first
    · have hlast := o.last_le
      have hsmall := PoolOffer.usable_lt_of_first_gt hpast
      rw [if_pos hsmall, if_pos (by omega)]
    · rw [PoolOffer.alignDown_usable (Nat.le_of_not_lt hpast)]
      have hlast : o.first ≤ o.last :=
        (PoolOffer.le_last_iff o.dvd_first).mpr (Nat.le_of_not_lt hpast)
      have hroom : o.first + o.room = o.last := Nat.add_sub_of_le hlast
      have hwrap : wrapWord (o.first + o.room) = o.last := by
        rw [hroom]
        exact wrapWord_of_lt (Nat.lt_of_le_of_lt o.last_le hfits)
      by_cases hsmall : o.last < o.first + headerSize
      · rw [if_pos hsmall, if_pos (by omega)]
      · rw [if_neg hsmall, if_neg (by omega), hwrap]
        rfl
  · rw [if_neg hword, if_pos (PoolOffer.last_lt_of_not_word hfits hword)]

end Arena

/-! ## Offers between requests -/

inductive HeapCommand where
  /-- A request of a client. -/
  | serve (r : HeapRequest)
  | take (o : PoolOffer)
  deriving DecidableEq, Repr

inductive HeapReply where
  | served (answer : HeapAnswer)
  | taken (result : Except PoolError Nat)

namespace Partition

/-- A range that is taken becomes one free block, whatever there was before. -/
def obey (p : Partition) : HeapCommand → HeapReply × Partition
  | .serve r => (.served (p.perform r).1, (p.perform r).2)
  | .take o =>
      match o.refusal? with
      | some e => (.taken (.error e), p)
      | none => (.taken (.ok o.room), whole o.first o.room)

def obeyAll (p : Partition) : List HeapCommand → List HeapReply × Partition
  | [] => ([], p)
  | c :: rest =>
      let (reply, p) := p.obey c
      let (replies, p) := p.obeyAll rest
      (reply :: replies, p)

end Partition

namespace Session

def obey (u : Session) : HeapCommand → HeapReply × Session
  | .serve r => (.served (u.perform r).1, (u.perform r).2)
  | .take o =>
      match Arena.attempt (·.init o.start o.size) u.arena with
      | (.ok managed, arena) => (.taken (.ok managed), opened arena)
      | (.error e, arena) => (.taken (.error e), { u with arena })

def obeyAll (u : Session) : List HeapCommand → List HeapReply × Session
  | [] => ([], u)
  | c :: rest =>
      let (reply, u) := u.obey c
      let (replies, u) := u.obeyAll rest
      (reply :: replies, u)

/-- Clients write inside of what they hold, and ranges do not wrap around. -/
def Allows (u : Session) : HeapCommand → Prop
  | .serve r => u.Permits r
  | .take o => o.start + o.size < wordLimit

def AllowsAll (u : Session) : List HeapCommand → Prop
  | [] => True
  | c :: rest => u.Allows c ∧ (u.obey c).2.AllowsAll rest

variable {u : Session} {p : Partition} {o : PoolOffer}

theorem obey_take (u : Session) (hfits : o.start + o.size < wordLimit) :
    u.obey (.take o) =
      match o.refusal? with
      | some e => (.taken (.error e), u)
      | none => (.taken (.ok o.room), opened (u.arena.taken o)) := by
  simp only [obey, Arena.attempt, u.arena.init_eq hfits]
  cases o.refusal? <;> rfl

/-- Whatever the session was, a range that is taken is one free block. -/
theorem follows_taken (u : Session) (hfits : o.start + o.size < wordLimit)
    (htaken : o.refusal? = none) :
    (opened (u.arena.taken o)).Follows (Partition.whole o.first o.room) := by
  have hinit := u.arena.init_eq hfits
  rw [htaken] at hinit
  exact follows_of_init hinit hfits

theorem Follows.obey (h : u.Follows p) {c : HeapCommand} (hallows : u.Allows c) :
    (u.obey c).1 = (p.obey c).1 ∧ (u.obey c).2.Follows (p.obey c).2 := by
  cases c with
  | serve r =>
      obtain ⟨hanswer, hnext⟩ := h.perform hallows
      exact ⟨congrArg HeapReply.served hanswer, hnext⟩
  | take o =>
      rw [obey_take u hallows, Partition.obey]
      cases hrefusal : o.refusal? with
      | some e => exact ⟨rfl, h⟩
      | none => exact ⟨rfl, follows_taken u hallows hrefusal⟩

theorem Follows.obeyAll (h : u.Follows p) {commands : List HeapCommand}
    (hallows : u.AllowsAll commands) :
    (u.obeyAll commands).1 = (p.obeyAll commands).1 ∧
      (u.obeyAll commands).2.Follows (p.obeyAll commands).2 := by
  induction commands generalizing u p with
  | nil => exact ⟨rfl, h⟩
  | cons c rest ih =>
      obtain ⟨hfirst, hrest⟩ := hallows
      obtain ⟨hreply, hnext⟩ := h.obey hfirst
      obtain ⟨hreplies, hlast⟩ := ih hnext hrest
      exact ⟨congrArg₂ List.cons hreply hreplies, hlast⟩

/-- From here on the heap answers like the partition, whatever it is asked for. -/
def Serves (u : Session) (p : Partition) : Prop :=
  ∀ commands, u.AllowsAll commands →
    (u.obeyAll commands).1 = (p.obeyAll commands).1 ∧
      ∃ blocks, (u.obeyAll commands).2.Tiled blocks

theorem Follows.serves (h : u.Follows p) : u.Serves p := by
  intro commands hallows
  obtain ⟨hreplies, hlast⟩ := h.obeyAll hallows
  exact ⟨hreplies, hlast.tiled⟩

/-! ## What comes of an offer -/

/-- The session `v` has taken the range over from `u`. -/
structure TakesOver (u : Session) (o : PoolOffer) (v : Session) : Prop where
  start_eq : v.arena.heap.start = o.first
  limit_eq : v.arena.heap.limit = o.last
  live_eq : v.live = []
  freeBlocks_eq : v.arena.freeBlocks = [⟨o.first, o.last - o.first⟩]
  usage_eq : v.arena.usage = ⟨o.last - o.first, o.last - o.first, 1, o.last - o.first⟩
  memory : ∀ x, x < o.first ∨ o.first + headerSize ≤ x →
    v.arena.memory.byte x = u.arena.memory.byte x
  /-- Every aligned part of the range lies in what was taken. -/
  largest : ∀ a b, heapAlign ∣ a → heapAlign ∣ b → o.start ≤ a → b ≤ o.start + o.size →
    o.first ≤ a ∧ b ≤ o.last
  serves : v.Serves (Partition.whole o.first (o.last - o.first))

structure Settled (u : Session) (o : PoolOffer) : Prop where
  refused_iff : ∀ e, (u.obey (.take o)).1 = .taken (.error e) ↔ o.Refuses e
  refused : ∀ e, o.Refuses e → (u.obey (.take o)).2 = u ∧
    ∀ p, u.Follows p → (u.obey (.take o)).2.Serves p
  accepted : (∀ e, ¬ o.Refuses e) →
    (u.obey (.take o)).1 = .taken (.ok (o.last - o.first)) ∧
      u.TakesOver o (u.obey (.take o)).2

theorem takesOver_taken (u : Session) (hfits : o.start + o.size < wordLimit)
    (htaken : o.refusal? = none) : u.TakesOver o (opened (u.arena.taken o)) := by
  have hfollows := follows_taken u hfits htaken
  refine ⟨rfl, rfl, rfl, hfollows.represents.freeBlocks_eq hfollows.valid, ?_, ?_, ?_,
    hfollows.serves⟩
  · rw [hfollows.represents.usage_eq hfollows.valid]
    simp [Partition.usage, Partition.whole, PoolOffer.room]
  · exact Memory.agreeOff_setHeader u.arena.memory o.first ⟨o.room, 0⟩
  · intro a b ha hb hlow hhigh
    exact ⟨(PoolOffer.first_le_iff ha).mpr hlow, (PoolOffer.le_last_iff hb).mpr hhigh⟩

/-- The heap takes the largest aligned part of the range, or nothing changes. -/
theorem offer_settled (u : Session) (hfits : o.start + o.size < wordLimit) : u.Settled o := by
  constructor
  case refused_iff =>
    intro e
    rw [obey_take u hfits, ← PoolOffer.refusal?_eq_some_iff]
    cases o.refusal? <;> simp
  case refused =>
    intro e he
    have hsame : (u.obey (.take o)).2 = u := by
      rw [obey_take u hfits, PoolOffer.refusal?_eq_some_iff.mpr he]
    rw [hsame]
    exact ⟨rfl, fun p h => h.serves⟩
  case accepted =>
    intro hnone
    have htaken := PoolOffer.refusal?_eq_none_iff.mpr hnone
    rw [obey_take u hfits, htaken]
    exact ⟨rfl, takesOver_taken u hfits htaken⟩

/-- A session with free blocks and with blocks that clients hold. -/
def inUse : Session := ((opened smallPool).run reuse).2

/-- Between the boundaries of the first range there is room for half a header, between those of
the second one for a whole one. -/
theorem offer_settled_inUse :
    4099 + 20 < wordLimit ∧ inUse.Settled ⟨4099, 20⟩ ∧
      PoolOffer.Refuses ⟨4099, 20⟩ (.tooSmall 20) ∧
      4099 + 21 < wordLimit ∧ inUse.Settled ⟨4099, 21⟩ ∧
      (∀ e, ¬ PoolOffer.Refuses ⟨4099, 21⟩ e) ∧ inUse.live.length = 2 := by
  have hshort : 4099 + 20 < wordLimit := by decide
  have hlong : 4099 + 21 < wordLimit := by decide
  have hrefuses : PoolOffer.Refuses ⟨4099, 20⟩ (.tooSmall 20) :=
    PoolOffer.refusal?_eq_some_iff.mp (by decide)
  have haccepts : ∀ e, ¬ PoolOffer.Refuses ⟨4099, 21⟩ e :=
    PoolOffer.refusal?_eq_none_iff.mp (by decide)
  exact ⟨hshort, offer_settled inUse hshort, hrefuses, hlong, offer_settled inUse hlong,
    haccepts, by decide +kernel⟩

end Session

end Kernel16
