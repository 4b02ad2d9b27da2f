/-!
# Machine words

Addresses and sizes are words of 64 bits, written as natural numbers below
`wordLimit`.  A sum either reports that it leaves that range, or wraps around
at its end; rounding up to a boundary reports it.
-/

namespace Kernel16

def wordLimit : Nat := UInt64.size

/-- The value of a sum that wraps around at the end of the address space. -/
def wrapWord (n : Nat) : Nat := n % wordLimit

/-- The sum, unless it is no word. -/
def sum? (a b : Nat) : Option Nat :=
  if a + b < wordLimit then some (a + b) else none

/-- The largest multiple of `unit` that is at most `n`. -/
def alignDown (n unit : Nat) : Nat := n / unit * unit

/-- The least multiple of `unit` that is at least `n`, if rounding up stays a word. -/
def alignUp? (n unit : Nat) : Option Nat :=
  (sum? n (unit - 1)).map (alignDown · unit)

theorem wrapWord_of_lt {n : Nat} (h : n < wordLimit) : wrapWord n = n :=
  Nat.mod_eq_of_lt h

theorem sum?_eq_some_iff {a b c : Nat} :
    sum? a b = some c ↔ a + b < wordLimit ∧ c = a + b := by
  unfold sum?
  split
  next h => simp [h, eq_comm]
  next h => simp [h]

theorem alignDown_le (n unit : Nat) : alignDown n unit ≤ n :=
  Nat.div_mul_le_self n unit

theorem lt_alignDown_add (n : Nat) {unit : Nat} (h : 0 < unit) : n < alignDown n unit + unit :=
  Nat.lt_div_mul_add h

theorem dvd_alignDown (n unit : Nat) : unit ∣ alignDown n unit :=
  Nat.dvd_mul_left unit _

theorem alignUp?_eq_some_iff {n unit m : Nat} :
    alignUp? n unit = some m ↔
      n + (unit - 1) < wordLimit ∧ m = alignDown (n + (unit - 1)) unit := by
  simp only [alignUp?, Option.map_eq_some_iff, sum?_eq_some_iff]
  constructor
  · rintro ⟨c, ⟨h, rfl⟩, rfl⟩
    exact ⟨h, rfl⟩
  · rintro ⟨h, rfl⟩
    exact ⟨_, ⟨h, rfl⟩, rfl⟩

end Kernel16
