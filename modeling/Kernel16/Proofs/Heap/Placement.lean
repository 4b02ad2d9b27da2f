import Kernel16.Heap.Layout

/-!
# What is asked of the heap and where it is placed

A client asks the heap itself for bytes, or asks for a layout.  The heap serves
both from a payload at an address `raw`.  For a layout that is stricter than
the heap's own alignment the client gets a higher address, and the word below
that address, which lies in the same payload, remembers `raw`.

All sums stay words: a layout is at most half of the address space, and the
payload with the request behind it lies below the end of the pool.
-/

namespace Kernel16

namespace Layout

variable (l : Layout) {raw : Nat}

theorem align_dvd_of_natural (h : l.isNatural = true) : l.align ∣ heapAlign := by
  have hle : l.align ≤ heapAlign := of_decide_eq_true h
  rw [l.align_eq, Nat.one_shiftLeft] at hle ⊢
  have hlog : l.align.log2 ≤ 3 := (Nat.pow_le_pow_iff_right (a := 2) (by decide)).mp hle
  exact Nat.pow_dvd_pow 2 hlog

/-- What is asked of the heap, as a sum that cannot leave the words. -/
def request : Nat :=
  if l.isNatural then max l.size 1 else max l.size 1 + (l.align - 1 + Memory.wordSize)

theorem request?_eq : l.request? = some l.request := by
  have hfits := l.size_add_align_le
  have hpos := l.align_pos
  unfold request? request
  cases l.isNatural with
  | true => rfl
  | false =>
      have hword : Memory.wordSize < wordLimit / 2 := by decide
      have hpadding :
          sum? (l.align - 1) Memory.wordSize = some (l.align - 1 + Memory.wordSize) := by
        rw [sum?_eq_some_iff]
        omega
      simp only [Bool.false_eq_true, if_false, hpadding, Option.bind_some, sum?_eq_some_iff,
        and_true]
      omega

section Strict

variable (hstrict : l.isNatural = false) (hfits : raw + l.request < wordLimit)

include hstrict hfits

theorem place_eq : l.place raw = alignDown (raw + Memory.wordSize + (l.align - 1)) l.align := by
  have hpos := l.align_pos
  simp only [request, hstrict, Bool.false_eq_true, if_false] at hfits
  have hraw : wrapWord (raw + Memory.wordSize) = raw + Memory.wordSize :=
    wrapWord_of_lt (by omega)
  rw [place, hraw, Nat.add_sub_assoc hpos, wrapWord_of_lt (by omega)]

theorem le_place : raw + Memory.wordSize ≤ l.place raw := by
  have hpos := l.align_pos
  have hlt := lt_alignDown_add (raw + Memory.wordSize + (l.align - 1)) hpos
  rw [l.place_eq hstrict hfits]
  omega

theorem place_add_le : l.place raw + max l.size 1 ≤ raw + l.request := by
  have hle := alignDown_le (raw + Memory.wordSize + (l.align - 1)) l.align
  rw [l.place_eq hstrict hfits]
  simp only [request, hstrict, Bool.false_eq_true, if_false]
  omega

end Strict

end Layout

/-- Bytes of the heap's own alignment, or a layout. -/
inductive Demand where
  | plain (size : Nat)
  | aligned (layout : Layout)

namespace Demand

def size : Demand → Nat
  | .plain size => size
  | .aligned l => l.size

def align : Demand → Nat
  | .plain _ => heapAlign
  | .aligned l => l.align

/-- The heap's own alignment does not serve it. -/
def isStrict : Demand → Bool
  | .plain _ => false
  | .aligned l => !l.isNatural

def request : Demand → Nat
  | .plain size => size
  | .aligned l => l.request

/-- The address for the client if the heap gives out the payload `raw`. -/
def place : Demand → Nat → Nat
  | .plain _, raw => raw
  | .aligned l, raw => if l.isNatural then raw else l.place raw

/-- The payload that the heap gave out for the address of a client, as the word
below that address remembers it. -/
def origin (d : Demand) (m : Memory) (address : Nat) : Nat :=
  if d.isStrict then m.word (Layout.slot address) else address

variable (d : Demand) {raw : Nat} {m : Memory}

theorem origin_of_not_strict (h : d.isStrict = false) (address : Nat) :
    d.origin m address = address := by
  simp [origin, h]

theorem dvd_place (hraw : heapAlign ∣ raw) : d.align ∣ d.place raw := by
  cases d with
  | plain size => exact hraw
  | aligned l =>
      simp only [align, place]
      split
      next hnatural => exact Nat.dvd_trans (l.align_dvd_of_natural hnatural) hraw
      next => exact dvd_alignDown _ _

theorem place_add_le (hpos : 0 < d.request) (hfits : raw + d.request < wordLimit) :
    d.place raw + max d.size 1 ≤ raw + d.request := by
  cases d with
  | plain size =>
      simp only [request] at hpos
      simp only [place, Demand.size, request]
      omega
  | aligned l =>
      simp only [place, Demand.size, request]
      split
      next hnatural => simp [Layout.request, hnatural]
      next hstrict => exact l.place_add_le (Bool.eq_false_iff.mpr hstrict) hfits

theorem le_place_of_strict (hstrict : d.isStrict = true) (hfits : raw + d.request < wordLimit) :
    raw + Memory.wordSize ≤ d.place raw := by
  cases d with
  | plain size => cases hstrict
  | aligned l =>
      have hnatural : l.isNatural = false := by simpa [isStrict] using hstrict
      simp only [place, hnatural, Bool.false_eq_true, if_false]
      exact l.le_place hnatural hfits

theorem place_of_not_strict (h : d.isStrict = false) : d.place raw = raw := by
  cases d with
  | plain size => rfl
  | aligned l =>
      have hnatural : l.isNatural = true := by simpa [isStrict] using h
      simp only [place, hnatural, if_true]

theorem le_place (hfits : raw + d.request < wordLimit) : raw ≤ d.place raw := by
  cases hstrict : d.isStrict with
  | false => exact Nat.le_of_eq (d.place_of_not_strict hstrict).symm
  | true => exact Nat.le_of_add_right_le (d.le_place_of_strict hstrict hfits)

end Demand

end Kernel16
