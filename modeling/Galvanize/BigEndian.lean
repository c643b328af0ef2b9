import Mathlib.Data.List.Induction

/-! Numbers as big-endian bytes. -/
namespace Galvanize.BigEndian

/-- How many numbers have `width` bytes. -/
def capacity : Nat → Nat
  | 0 => 1
  | width + 1 => 256 * capacity width

/-- The low `width` bytes of a number, the highest one first. -/
def toBytes : Nat → Nat → List UInt8
  | 0, _ => []
  | width + 1, number => toBytes width (number / 256) ++ [UInt8.ofNat number]

def ofBytes (bytes : List UInt8) : Nat := bytes.foldl (fun number byte => number * 256 + byte.toNat) 0

@[simp] theorem length_toBytes (width number : Nat) : (toBytes width number).length = width := by
  induction width generalizing number with
  | zero => rfl
  | succ width ih => simp [toBytes, ih]

theorem ofBytes_concat (bytes : List UInt8) (byte : UInt8) :
    ofBytes (bytes ++ [byte]) = ofBytes bytes * 256 + byte.toNat := by
  simp [ofBytes, List.foldl_append]

theorem ofBytes_toBytes (small : number < capacity width) : ofBytes (toBytes width number) = number := by
  induction width generalizing number with
  | zero =>
    have zero := Nat.lt_one_iff.mp small
    rw [zero]
    rfl
  | succ width ih =>
    have high := Nat.div_lt_of_lt_mul small
    rw [toBytes, ofBytes_concat, ih high, UInt8.toNat_ofNat']
    omega

theorem ofBytes_lt (bytes : List UInt8) : ofBytes bytes < capacity bytes.length := by
  induction bytes using List.reverseRecOn with
  | nil => exact Nat.one_pos
  | append_singleton bytes byte ih =>
    have low := byte.toNat_lt
    rw [ofBytes_concat, List.length_append, List.length_singleton, capacity]
    omega

theorem toBytes_ofBytes (bytes : List UInt8) : toBytes bytes.length (ofBytes bytes) = bytes := by
  induction bytes using List.reverseRecOn with
  | nil => rfl
  | append_singleton bytes byte ih =>
    have low := byte.toNat_lt
    have high : (ofBytes bytes * 256 + byte.toNat) / 256 = ofBytes bytes := by omega
    have last : UInt8.ofNat (ofBytes bytes * 256 + byte.toNat) = byte := by
      apply UInt8.toNat_inj.mp
      rw [UInt8.toNat_ofNat']
      omega
    rw [ofBytes_concat, List.length_append, List.length_singleton, toBytes, high, last, ih]

end Galvanize.BigEndian
