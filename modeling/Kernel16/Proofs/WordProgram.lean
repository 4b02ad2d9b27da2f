import Kernel16.Word

/-!
# Programs of sums and differences

The sum of two words may be too large for a word, and their difference may lie
below zero.  A processor then goes on with what is left after wrapping around,
or it stops.  A program that spells out its sums and differences can be carried
out either way, and the operations that it comes to can be listed.

Nothing stops exactly if every operation on the way has a word for its result,
and then both ways end with the same value.
-/

namespace Kernel16

inductive WordOperation where
  | sum (a b : Nat)
  | difference (a b : Nat)
  deriving DecidableEq, Repr

namespace WordOperation

/-- The true result, which need not be a word. -/
def result : WordOperation → Int
  | .sum a b => a + b
  | .difference a b => a - b

def Fits (o : WordOperation) : Prop := 0 ≤ o.result ∧ o.result < wordLimit

instance : DecidablePred Fits := fun o =>
  inferInstanceAs (Decidable (0 ≤ o.result ∧ o.result < wordLimit))

def wrapped (o : WordOperation) : Nat := (o.result % wordLimit).toNat

def checked (o : WordOperation) : Option Nat :=
  if o.Fits then some o.result.toNat else none

variable {a b : Nat}

theorem result_sum (a b : Nat) : (sum a b).result = (a + b : Nat) := rfl

theorem result_difference (h : b ≤ a) : (difference a b).result = (a - b : Nat) :=
  (Int.ofNat_sub h).symm

theorem fits_sum : (sum a b).Fits ↔ a + b < wordLimit := by
  rw [Fits, result_sum]
  omega

theorem fits_difference : (difference a b).Fits ↔ b ≤ a ∧ a - b < wordLimit := by
  change 0 ≤ (a : Int) - b ∧ (a : Int) - b < wordLimit ↔ _
  omega

theorem wrapped_sum (a b : Nat) : (sum a b).wrapped = wrapWord (a + b) := by
  rw [wrapped, result_sum, ← Int.natCast_emod, Int.toNat_natCast, wrapWord]

/-- A difference that is not negative is the one of natural numbers. -/
theorem wrapped_difference (h : b ≤ a) : (difference a b).wrapped = wrapWord (a - b) := by
  rw [wrapped, result_difference h, ← Int.natCast_emod, Int.toNat_natCast, wrapWord]

/-- Wrapping around before as well makes no difference. -/
theorem wrapped_difference_wrapWord (h : b ≤ a) :
    (difference (wrapWord a) b).wrapped = wrapWord (a - b) := by
  have hresult : (difference (wrapWord a) b).result = (a % wordLimit : Nat) - (b : Int) := rfl
  rw [wrapped, hresult, Int.natCast_emod, Int.emod_sub_emod, ← Int.ofNat_sub h,
    ← Int.natCast_emod, Int.toNat_natCast, wrapWord]

theorem wrapped_of_fits {o : WordOperation} (h : o.Fits) : o.wrapped = o.result.toNat := by
  unfold Fits at h
  rw [wrapped, Int.emod_eq_of_lt h.1 h.2]

theorem checked_eq (o : WordOperation) :
    o.checked = if o.Fits then some o.wrapped else none := by
  unfold checked
  split
  next h => rw [wrapped_of_fits h]
  next => rfl

end WordOperation

inductive WordProgram (α : Type) where
  | done (value : α)
  | step (o : WordOperation) (next : Nat → WordProgram α)

namespace WordProgram

def bind (p : WordProgram α) (f : α → WordProgram β) : WordProgram β :=
  match p with
  | .done value => f value
  | .step o next => .step o fun n => (next n).bind f

instance : Monad WordProgram where
  pure := .done
  bind := bind

def sum (a b : Nat) : WordProgram Nat := .step (.sum a b) .done

def difference (a b : Nat) : WordProgram Nat := .step (.difference a b) .done

/-- Rounding down clears the bits of a mask, which is one less than the unit. -/
def roundDown (n unit : Nat) : WordProgram Nat := do
  let mask ← difference unit 1
  return alignDown n (mask + 1)

/-! ## Two ways to carry a program out -/

/-- What the program comes to on a processor that wraps around. -/
def wrapping : WordProgram α → α
  | .done value => value
  | .step o next => (next o.wrapped).wrapping

/-- What the program comes to on a processor that stops at the first result that is no
word. -/
def checked : WordProgram α → Option α
  | .done value => some value
  | .step o next => o.checked.bind fun n => (next n).checked

/-- The operations on the way, if results wrap around. -/
def operations : WordProgram α → List WordOperation
  | .done _ => []
  | .step o next => o :: (next o.wrapped).operations

def Fits (p : WordProgram α) : Prop := ∀ o ∈ p.operations, o.Fits

/-- No operation leaves the words, and so the program runs to its end, with the value
`a`. -/
structure Exact (p : WordProgram α) (a : α) : Prop where
  fits : p.Fits
  checked_eq : p.checked = some a

section Run

variable {α β : Type} {a b n unit : Nat} {p : WordProgram α} {f : α → WordProgram β}

@[simp] theorem wrapping_pure (value : α) : (pure value : WordProgram α).wrapping = value := rfl

@[simp] theorem fits_pure (value : α) : (pure value : WordProgram α).Fits := fun _ ho => nomatch ho

theorem fits_step {o : WordOperation} {next : Nat → WordProgram α} :
    (step o next).Fits ↔ o.Fits ∧ (next o.wrapped).Fits :=
  List.forall_mem_cons

@[simp] theorem wrapping_bind (p : WordProgram α) (f : α → WordProgram β) :
    (p >>= f).wrapping = (f p.wrapping).wrapping := by
  induction p with
  | done value => rfl
  | step o next ih => exact ih o.wrapped

theorem fits_bind : (p >>= f).Fits ↔ p.Fits ∧ (f p.wrapping).Fits := by
  induction p with
  | done value => exact (and_iff_right (fits_pure value)).symm
  | step o next ih =>
      rw [fits_step, wrapping, and_assoc, ← ih]
      exact fits_step

@[simp] theorem wrapping_sum (a b : Nat) : (sum a b).wrapping = wrapWord (a + b) :=
  WordOperation.wrapped_sum a b

@[simp] theorem fits_sum : (sum a b).Fits ↔ a + b < wordLimit := by
  rw [sum, fits_step, WordOperation.fits_sum]
  exact and_iff_left (fits_pure _)

theorem wrapping_difference (h : b ≤ a) : (difference a b).wrapping = wrapWord (a - b) :=
  WordOperation.wrapped_difference h

theorem wrapping_difference_wrapWord (h : b ≤ a) :
    (difference (wrapWord a) b).wrapping = wrapWord (a - b) :=
  WordOperation.wrapped_difference_wrapWord h

theorem wrapping_difference_of_lt (h : b ≤ a) (ha : a < wordLimit) :
    (difference a b).wrapping = a - b := by
  rw [wrapping_difference h, wrapWord_of_lt (Nat.lt_of_le_of_lt (Nat.sub_le _ _) ha)]

theorem fits_difference (h : b ≤ a) (ha : a < wordLimit) : (difference a b).Fits := by
  rw [difference, fits_step, WordOperation.fits_difference]
  exact ⟨⟨h, Nat.lt_of_le_of_lt (Nat.sub_le _ _) ha⟩, fits_pure _⟩

section RoundDown

variable (hpos : 0 < unit) (hlt : unit < wordLimit)
include hpos hlt

theorem wrapping_roundDown (n : Nat) : (roundDown n unit).wrapping = alignDown n unit := by
  rw [roundDown, wrapping_bind, wrapping_difference_of_lt hpos hlt, Nat.sub_add_cancel hpos,
    wrapping_pure]

theorem fits_roundDown (n : Nat) : (roundDown n unit).Fits :=
  fits_bind.mpr ⟨fits_difference hpos hlt, fits_pure _⟩

end RoundDown

/-- Nothing stops exactly if every operation fits, and then wrapping around makes no
difference. -/
theorem checked_eq_some_iff {value : α} :
    p.checked = some value ↔ p.Fits ∧ p.wrapping = value := by
  induction p with
  | done a =>
      rw [checked, wrapping, Option.some_inj]
      exact (and_iff_right (fits_pure a)).symm
  | step o next ih =>
      rw [checked, o.checked_eq, fits_step, wrapping]
      by_cases ho : o.Fits
      · rw [if_pos ho, Option.bind_some, ih, and_iff_right ho]
      · rw [if_neg ho, Option.bind_none]
        exact iff_of_false nofun fun h => ho h.1.1

theorem Fits.exact {value : α} (h : p.Fits) (hwrapping : p.wrapping = value) : p.Exact value :=
  ⟨h, checked_eq_some_iff.mpr ⟨h, hwrapping⟩⟩

end Run

end WordProgram

end Kernel16
