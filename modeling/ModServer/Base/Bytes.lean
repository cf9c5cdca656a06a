import Mathlib.Data.Int.Basic
import Mathlib.Data.List.Basic
import Mathlib.Tactic.NormNum

/-!
Byte strings and the integer conversions of the server's C++ types. A
`std::string` holds bytes, so the model of one is a list of them. `size_t` has
64 bits and `int` has 32 bits on the platforms the project builds for.
-/

namespace ModServer

abbrev Bytes := List UInt8

/-- The bytes of an ASCII literal of the source. -/
def ascii (s : String) : Bytes :=
  s.toList.map (fun c => c.toNat.toUInt8)

/-- `'\0'`. -/
def nul : UInt8 := 0

/-- `' '`. -/
def space : UInt8 := 32

/-- `'\r'`. -/
def cr : UInt8 := 13

/-- `'\n'`. -/
def lf : UInt8 := 10

/-- Converting a `size_t` to `int` keeps the low 32 bits in two's complement. -/
def intOfSize (n : Nat) : Int :=
  Int.bmod n (2 ^ 32)

/-- Converting an `int` to `size_t` sign-extends it to 64 bits. -/
def sizeOfInt (i : Int) : Nat :=
  (i % 2 ^ 64).toNat

theorem intOfSize_of_lt {n : Nat} (h : n < 2 ^ 31) : intOfSize n = n := by
  unfold intOfSize
  apply Int.bmod_eq_of_le
  · norm_num
  · norm_num
    omega

theorem intOfSize_le (n : Nat) : intOfSize n ≤ n := by
  unfold intOfSize
  have hbmod := @Int.bmod_le (n : Int) (2 ^ 32) (by norm_num)
  by_cases h : n < 2 ^ 31
  · exact le_of_eq (intOfSize_of_lt h)
  · norm_num at *
    omega

theorem intOfSize_lt (n : Nat) : intOfSize n < 2 ^ 31 := by
  unfold intOfSize
  have hbmod := @Int.bmod_lt (n : Int) (2 ^ 32) (by norm_num)
  norm_num at hbmod ⊢
  omega

@[simp] theorem intOfSize_zero : intOfSize 0 = 0 := rfl

theorem sizeOfInt_of_nonneg {i : Int} (h0 : 0 ≤ i) (h : i < 2 ^ 31) :
    (sizeOfInt i : Int) = i := by
  unfold sizeOfInt
  omega

/-- A size on its way through an `int`: the low 32 bits, sign-extended. -/
theorem sizeOfInt_intOfSize (n : Nat) :
    sizeOfInt (intOfSize n) =
      if n % 2 ^ 32 < 2 ^ 31 then n % 2 ^ 32 else 2 ^ 64 - 2 ^ 32 + n % 2 ^ 32 := by
  unfold sizeOfInt intOfSize
  rw [Int.bmod_def]
  split <;> split <;> norm_num at * <;> omega

end ModServer
