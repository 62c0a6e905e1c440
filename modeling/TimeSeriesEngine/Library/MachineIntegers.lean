import Mathlib.Data.BitVec
import Mathlib.Tactic.Ring

/-!
# Machine integers — signed values that may be undefined, unsigned ones that wrap

A value of a signed type of `w` bits is an integer in its range (`Signed`); an operation
on such values whose result leaves the range is undefined (`checked`).  A value of the
unsigned type is a bit vector, whose operations wrap; a conversion to it keeps the value
modulo `2 ^ w`.

* `toNat_ofInt_sub` — the wrapped difference of two values in order is their difference;
* `toInt_of_lt` — a small unsigned value converted back;
* `bind_checked` — an operation in range followed by another.
-/

namespace MachineIntegers

variable {w : Nat}

/-! ## Signed values -/

/-- The values of the signed type of `w` bits. -/
def Signed (w : Nat) (x : Int) : Prop := -2 ^ (w - 1) ≤ x ∧ x < 2 ^ (w - 1)

instance (w : Nat) (x : Int) : Decidable (Signed w x) := inferInstanceAs (Decidable (_ ∧ _))

/-- The result of a signed operation: undefined outside the range. -/
def checked (w : Nat) (x : Int) : Option Int := if Signed w x then some x else none

/-- The sum, if it can be represented. -/
def signedAdd (w : Nat) (a b : Int) : Option Int := checked w (a + b)

/-- The difference, if it can be represented. -/
def signedSub (w : Nat) (a b : Int) : Option Int := checked w (a - b)

/-- The negative, if it can be represented. -/
def signedNeg (w : Nat) (a : Int) : Option Int := checked w (-a)

theorem checked_of {x : Int} (h : Signed w x) : checked w x = some x := if_pos h

/-- An operation in range, followed by another. -/
theorem bind_checked {α : Type} {x : Int} (h : Signed w x) (f : Int → Option α) :
    (checked w x).bind f = f x := by
  rw [checked_of h, Option.bind_some]

/-- Between two values of the type. -/
theorem Signed.between {a x b : Int} (ha : Signed w a) (hb : Signed w b) (hax : a ≤ x)
    (hxb : x ≤ b) : Signed w x :=
  ⟨le_trans ha.1 hax, lt_of_le_of_lt hxb hb.2⟩

/-- Two values of the type are less than the unsigned range apart. -/
theorem Signed.sub_lt (hw : 0 < w) {a b : Int} (ha : Signed w a) (hb : Signed w b) :
    b - a < 2 ^ w := by
  have htwo : (2 : Int) ^ w = 2 * 2 ^ (w - 1) := by
    rw [← pow_succ', Nat.sub_add_cancel hw]
  have hlow := ha.1
  have hhigh := hb.2
  omega

/-! ## Unsigned values -/

theorem toNat_ofInt_of_nonneg {x : Int} (h0 : 0 ≤ x) (h : x < 2 ^ w) :
    (BitVec.ofInt w x).toNat = x.toNat := by
  rw [BitVec.toNat_ofInt]
  push_cast
  rw [Int.emod_eq_of_lt h0 h]

theorem ofInt_sub (a b : Int) :
    BitVec.ofInt w (a - b) = BitVec.ofInt w a - BitVec.ofInt w b := by
  rw [Int.sub_eq_add_neg, BitVec.ofInt_add, BitVec.ofInt_neg, BitVec.sub_eq_add_neg]

/-- The wrapped difference of two converted values in order. -/
theorem toNat_ofInt_sub {a b : Int} (hle : a ≤ b) (h : b - a < 2 ^ w) :
    (BitVec.ofInt w b - BitVec.ofInt w a).toNat = (b - a).toNat := by
  rw [← ofInt_sub, toNat_ofInt_of_nonneg (Int.sub_nonneg_of_le hle) h]

/-- An unsigned value that fits the signed type, converted to it. -/
theorem toInt_of_lt (hw : 0 < w) {x : BitVec w} (h : x.toNat < 2 ^ (w - 1)) :
    x.toInt = x.toNat := by
  refine BitVec.toInt_eq_toNat_of_lt ?_
  have htwo : 2 ^ w = 2 * 2 ^ (w - 1) := by rw [← pow_succ', Nat.sub_add_cancel hw]
  omega

/-- A signed value survives the conversion there and back. -/
theorem toInt_ofInt_of_signed (hw : 0 < w) {x : Int} (h : Signed w x) :
    (BitVec.ofInt w x).toInt = x :=
  BitVec.toInt_ofInt_eq_self hw h.1 h.2

end MachineIntegers
