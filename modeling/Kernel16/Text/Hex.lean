/-!
# Hexadecimal number text

Addresses, vectors and register values are shown in lower-case hexadecimal.  A
number is padded with zeros on the left up to a least width; a number that is
longer keeps all its digits.
-/

namespace Kernel16.Text

/-- Lower-case hexadecimal digits of `n`, at least `width` of them. -/
def hexDigits (width n : Nat) : List Char :=
  let digits := Nat.toDigits 16 n
  List.replicate (width - digits.length) '0' ++ digits

/-- The digits alone, as in the two halves of a far pointer. -/
def bareHex (width n : Nat) : String :=
  String.ofList (hexDigits width n)

/-- The digits behind `0x`. -/
def hex (width n : Nat) : String :=
  "0x" ++ bareHex width n

example : hex 2 6 = "0x06" ∧ hex 4 31 = "0x001f" ∧ bareHex 4 0x7e0 = "07e0" := by decide

end Kernel16.Text
