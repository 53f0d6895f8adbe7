import AstraCore.NetAddress
import Mathlib.Logic.Function.Iterate
import Mathlib.Data.Nat.ModEq

namespace AstraCore.ByteCounter
open CheckedBytes NetAddress List

def carry : Bytes → Bytes
  | [] => []
  | byte :: rest => if byte + 1 = 0 then (byte + 1) :: carry rest else (byte + 1) :: rest

@[simp] theorem carry_length (bytes) : (carry bytes).length = bytes.length := by
  induction bytes with
  | nil => rfl
  | cons byte rest ih =>
    rw [carry]
    split
    · rw [length_cons,ih,length_cons]
    · rfl

section
variable (counter : Octets n)

def next : Octets n :=
  ⟨(carry counter.val.reverse).reverse,by rw [List.length_reverse,carry_length,List.length_reverse,counter.property]⟩

def ofLe : Bytes → Nat
  | [] => 0
  | byte :: rest => byte.toNat + 256 * ofLe rest

theorem ofLe_lt (bytes) : ofLe bytes < 256^bytes.length := by
  induction bytes with
  | nil => exact Nat.one_pos
  | cons byte rest ih =>
    have digit := UInt8.toNat_lt byte
    rw [ofLe,length_cons]
    omega

theorem ofBe_append : ofBe (front ++ back) = ofBe front * 256^back.length + ofBe back := by
  induction front with
  | nil => simp [ofBe]
  | cons byte front ih =>
    rw [cons_append,ofBe,ofBe,ih,length_append]
    ring

theorem ofBe_reverse (bytes) : ofBe bytes.reverse = ofLe bytes := by
  induction bytes with
  | nil => rfl
  | cons byte rest ih =>
    rw [reverse_cons,ofBe_append,ih,ofLe]
    simp [ofBe]
    ring

theorem carry_value (bytes) : ofLe (carry bytes) = (ofLe bytes + 1) % 256^bytes.length := by
  induction bytes with
  | nil => rfl
  | cons byte rest ih =>
    have digit := UInt8.toNat_lt byte
    have small := ofLe_lt rest
    have added : (byte + 1).toNat = (byte.toNat + 1) % 256 := UInt8.toNat_add byte 1
    rw [carry,length_cons,Nat.pow_succ]
    split
    · rename_i wrapped
      rw [wrapped] at added ⊢
      have full : byte.toNat = 255 := by simp at added; omega
      rw [ofLe,ofLe,ih,full,Nat.mul_comm (256^rest.length) 256,show 255 + 256 * ofLe rest + 1 = 256 * (ofLe rest + 1) by omega,Nat.mul_mod_mul_left]
      simp
    · rename_i kept
      have below : byte.toNat + 1 < 256 := by
        by_contra reached
        exact kept (UInt8.toNat_inj.mp (by rw [added,show byte.toNat + 1 = 256 by omega]; rfl))
      rw [ofLe,ofLe,added,Nat.mod_eq_of_lt below,Nat.mod_eq_of_lt (by omega)]
      omega

theorem next_value : ofBe (next counter).val = (ofBe counter.val + 1) % 256^n := by
  have value := ofBe_reverse counter.val.reverse
  rw [reverse_reverse] at value
  change ofBe (carry counter.val.reverse).reverse = _
  rw [ofBe_reverse,carry_value,value,length_reverse,counter.property]

theorem iterate_value (k) : ofBe (next^[k] counter).val % 256^n = (ofBe counter.val + k) % 256^n := by
  induction k with
  | zero => rfl
  | succ k ih =>
    rw [Function.iterate_succ_apply',next_value,Nat.mod_mod,Nat.add_mod,ih,← Nat.add_mod]
    rfl

-- A counter of `n` bytes comes back to no earlier value within its first `256^n` steps.
theorem iterate_distinct (below : j < 256^n) (under : k < 256^n) (same : next^[j] counter = next^[k] counter) : j = k := by
  have values := iterate_value counter j
  rw [same,iterate_value] at values
  have congruent := Nat.ModEq.add_left_cancel' _ values
  exact (congruent.symm.eq_of_lt_of_lt below under)

end

end AstraCore.ByteCounter
