import Kernel16.Word
import Std.Data.TreeMap

/-!
# Byte memory

A memory holds a byte at every address; a byte that was never written is zero.
Words take eight bytes, the least significant one first.  `byte` is the view
through which every other operation is described: a write of a list of bytes
changes exactly the addresses it covers.
-/

namespace Kernel16

structure Memory where
  bytes : Std.TreeMap Nat UInt8 := ∅

namespace Memory

def wordSize : Nat := 8

def byte (m : Memory) (a : Nat) : UInt8 :=
  m.bytes.getD a 0

def setByte (m : Memory) (a : Nat) (b : UInt8) : Memory :=
  ⟨m.bytes.insert a b⟩

def readBytes (m : Memory) (a n : Nat) : List UInt8 :=
  (List.range n).map fun i => m.byte (a + i)

def writeBytes (m : Memory) (a : Nat) : List UInt8 → Memory
  | [] => m
  | b :: rest => (m.setByte a b).writeBytes (a + 1) rest

/-- The number whose digits to base 256 are `bytes`, least significant first. -/
def ofLittleEndian : List UInt8 → Nat
  | [] => 0
  | b :: rest => b.toNat + 256 * ofLittleEndian rest

/-- The `count` lowest digits of `n` to base 256, least significant first. -/
def littleEndian : Nat → Nat → List UInt8
  | 0, _ => []
  | count + 1, n => UInt8.ofNat n :: littleEndian count (n / 256)

def word (m : Memory) (a : Nat) : Nat :=
  ofLittleEndian (m.readBytes a wordSize)

def setWord (m : Memory) (a n : Nat) : Memory :=
  m.writeBytes a (littleEndian wordSize n)

theorem byte_setByte (m : Memory) (a x : Nat) (b : UInt8) :
    (m.setByte a b).byte x = if a = x then b else m.byte x := by
  simp [byte, setByte, Std.TreeMap.getD_insert]

@[simp] theorem length_readBytes (m : Memory) (a n : Nat) :
    (m.readBytes a n).length = n := by
  simp [readBytes]

@[simp] theorem length_littleEndian (count n : Nat) :
    (littleEndian count n).length = count := by
  induction count generalizing n with
  | zero => rfl
  | succ count ih => simp [littleEndian, ih]

theorem byte_writeBytes_of_outside (m : Memory) {a x : Nat} {bytes : List UInt8}
    (h : x < a ∨ a + bytes.length ≤ x) :
    (m.writeBytes a bytes).byte x = m.byte x := by
  induction bytes generalizing m a with
  | nil => rfl
  | cons b rest ih =>
      simp only [List.length_cons] at h
      rw [writeBytes, ih _ (by omega), byte_setByte, if_neg (by omega)]

theorem byte_writeBytes_of_inside (m : Memory) {a i : Nat} {bytes : List UInt8}
    (h : i < bytes.length) :
    (m.writeBytes a bytes).byte (a + i) = bytes[i] := by
  induction bytes generalizing m a i with
  | nil => simp at h
  | cons b rest ih =>
      rw [writeBytes]
      cases i with
      | zero => simp [byte_writeBytes_of_outside, byte_setByte]
      | succ i =>
          simp only [List.length_cons] at h
          rw [show a + (i + 1) = (a + 1) + i by omega, ih _ (by omega)]
          simp

theorem readBytes_writeBytes (m : Memory) (a : Nat) (bytes : List UInt8) :
    (m.writeBytes a bytes).readBytes a bytes.length = bytes := by
  apply List.ext_getElem (by simp)
  intro i _ hi
  simp only [readBytes, List.getElem_map, List.getElem_range]
  exact byte_writeBytes_of_inside m hi

theorem readBytes_congr {m m' : Memory} {a n : Nat}
    (h : ∀ x, a ≤ x → x < a + n → m'.byte x = m.byte x) :
    m'.readBytes a n = m.readBytes a n := by
  simp only [readBytes, List.map_inj_left, List.mem_range]
  intro i hi
  exact h (a + i) (by omega) (by omega)

theorem one_shiftLeft_bytes_succ (count : Nat) :
    1 <<< (8 * (count + 1)) = 256 * 1 <<< (8 * count) := by
  rw [Nat.one_shiftLeft, Nat.one_shiftLeft, Nat.mul_succ, Nat.pow_add, Nat.mul_comm]

theorem ofLittleEndian_littleEndian (count n : Nat) :
    ofLittleEndian (littleEndian count n) = n % 1 <<< (8 * count) := by
  induction count generalizing n with
  | zero => simp [ofLittleEndian, littleEndian, Nat.mod_one]
  | succ count ih =>
      rw [littleEndian, ofLittleEndian, ih, one_shiftLeft_bytes_succ, Nat.mod_mul]
      simp

theorem ofLittleEndian_lt (bytes : List UInt8) :
    ofLittleEndian bytes < 1 <<< (8 * bytes.length) := by
  induction bytes with
  | nil => simp [ofLittleEndian]
  | cons b rest ih =>
      have hb := b.toNat_lt
      rw [ofLittleEndian, List.length_cons, one_shiftLeft_bytes_succ]
      omega

theorem word_lt (m : Memory) (a : Nat) : m.word a < wordLimit := by
  have h := ofLittleEndian_lt (m.readBytes a wordSize)
  rw [length_readBytes] at h
  exact h

theorem word_congr {m m' : Memory} {a : Nat}
    (h : ∀ x, a ≤ x → x < a + wordSize → m'.byte x = m.byte x) :
    m'.word a = m.word a := by
  rw [word, word, readBytes_congr h]

@[simp] theorem word_setWord (m : Memory) (a n : Nat) :
    (m.setWord a n).word a = wrapWord n := by
  have h := readBytes_writeBytes m a (littleEndian wordSize n)
  rw [length_littleEndian] at h
  rw [word, setWord, h, ofLittleEndian_littleEndian]
  rfl

theorem byte_setWord_of_outside (m : Memory) {a n x : Nat}
    (h : x < a ∨ a + wordSize ≤ x) :
    (m.setWord a n).byte x = m.byte x :=
  byte_writeBytes_of_outside m (by simpa using h)

theorem word_setWord_of_disjoint (m : Memory) {a b n : Nat}
    (h : b + wordSize ≤ a ∨ a + wordSize ≤ b) :
    (m.setWord a n).word b = m.word b :=
  word_congr fun _ _ _ => byte_setWord_of_outside m (by omega)

end Memory

end Kernel16
