import AstraCore.CheckedBytes

namespace AstraCore.Varint
open CheckedBytes List

theorem shifted (value : UInt64) : (value >>> 7).toNat = value.toNat / 128 := by
  exact Nat.shiftRight_eq_div_pow ..

def encode (value : UInt64) : Bytes :=
  if value < 0x80 then [value.toUInt8]
  else (value.toUInt8 ||| 0x80) :: encode (value >>> 7)
termination_by value.toNat
decreasing_by
  rename_i large
  have large : ¬ value.toNat < 128 := large
  rw [shifted]
  omega

def decode (shift : Nat) (result : UInt64) : Bytes → Except String (UInt64 × Bytes)
  | [] => .error "truncated varint"
  | byte :: rest =>
    let result := result ||| ((byte.toUInt64 &&& 0x7f) <<< UInt64.ofNat shift)
    if byte.toUInt64 &&& 0x80 = 0 then .ok (result,rest)
    else if 63 < shift + 7 then .error "varint too long"
    else decode (shift + 7) result rest

theorem decode_shortens (decoded : decode shift result data = .ok (value,rest)) : rest.length < data.length := by
  induction data generalizing shift result with
  | nil => cases decoded
  | cons byte tail ih =>
    rw [decode] at decoded
    split at decoded
    · cases decoded
      exact Nat.lt_succ_self _
    · split at decoded
      · cases decoded
      · exact Nat.lt_succ_of_lt (ih decoded)

theorem low_bits (byte : UInt8) : (byte.toUInt64 &&& 0x7f).toNat = byte.toNat % 128 := by
  exact Nat.and_two_pow_sub_one_eq_mod byte.toNat 7

theorem high_bit (byte : UInt8) : byte.toUInt64 &&& 0x80 = 0 ↔ byte.toNat < 128 := by
  have bit : ∀ n : Fin 256, n.val &&& 128 = 0 ↔ n.val < 128 := by decide +kernel
  rw [← UInt64.toNat_inj]
  exact bit ⟨byte.toNat,byte.toNat_lt⟩

theorem last_byte {value : UInt64} (small : value < 0x80) : value.toUInt8.toNat = value.toNat := by
  have small : value.toNat < 128 := small
  rw [UInt64.toNat_toUInt8]
  omega

theorem inner_byte (value : UInt64) : (value.toUInt8 ||| 0x80).toNat = value.toNat % 128 + 128 := by
  have bits : ∀ n : Fin 256, n.val ||| 128 = n.val % 128 + 128 := by decide +kernel
  have found := bits ⟨value.toUInt8.toNat,value.toUInt8.toNat_lt⟩
  refine found.trans ?_
  change value.toUInt8.toNat % 128 + 128 = _
  rw [UInt64.toNat_toUInt8]
  omega

theorem encode_front {value : UInt64} (positive : value ≠ 0) : ∃ byte rest, encode value = byte :: rest ∧ byte ≠ 0 := by
  rw [encode]
  split
  · rename_i small
    refine ⟨_,_,rfl,fun zero => positive ?_⟩
    have width := last_byte small
    rw [zero] at width
    exact UInt64.toNat_inj.mp width.symm
  · refine ⟨_,_,rfl,fun zero => ?_⟩
    have width := inner_byte value
    rw [zero] at width
    exact absurd width.symm (Nat.succ_ne_zero _)

theorem accumulated (bounded : shift < 64) (below : result.toNat < 2^shift) (byte : UInt8) (fits : result.toNat + byte.toNat % 128 * 2^shift < 2^64) :
    (result ||| ((byte.toUInt64 &&& 0x7f) <<< UInt64.ofNat shift)).toNat = result.toNat + byte.toNat % 128 * 2^shift := by
  have amount : (UInt64.ofNat shift).toNat % 64 = shift := by
    rw [UInt64.toNat_ofNat']
    omega
  rw [UInt64.toNat_or,UInt64.toNat_shiftLeft,low_bits,amount,Nat.shiftLeft_eq,Nat.mod_eq_of_lt (by omega),Nat.or_comm,Nat.mul_comm,
    ← Nat.two_pow_add_eq_or_of_lt below,Nat.add_comm]

theorem decode_at (below : result.toNat < 2^shift) (fits : result.toNat + value.toNat * 2^shift < 2^64) (bounded : shift < 64) (rest) :
    decode shift result (encode value ++ rest) = .ok (UInt64.ofNat (result.toNat + value.toNat * 2^shift),rest) := by
  induction value using encode.induct generalizing shift result with
  | case1 value small =>
    have byte := last_byte small
    have small : value.toNat < 128 := small
    have bits : value.toUInt8.toNat % 128 = value.toNat := by omega
    have sum := accumulated bounded below value.toUInt8 (by rw [bits]; exact fits)
    rw [bits] at sum
    rw [encode,if_pos ‹_›,singleton_append,decode]
    rw [if_pos ((high_bit _).mpr (by omega)),← sum,UInt64.ofNat_toNat]
  | case2 value large ih =>
    have byte := inner_byte value
    have large' : 128 ≤ value.toNat := Nat.le_of_not_lt large
    have room : 2^shift * 128 ≤ 2^shift * value.toNat := Nat.mul_le_mul_left _ large'
    have next := Nat.pow_add 2 shift 7
    have digits : value.toNat * 2^shift = value.toNat % 128 * 2^shift + value.toNat / 128 * 2^(shift + 7) := by
      conv_lhs => rw [← Nat.mod_add_div value.toNat 128]
      ring
    have further : shift + 7 < 64 := by
      refine (Nat.pow_lt_pow_iff_right (by decide : 1 < 2)).mp ?_
      rw [Nat.mul_comm] at fits
      omega
    have low : value.toNat % 128 * 2^shift ≤ 127 * 2^shift := Nat.mul_le_mul_right _ (by omega)
    have bits : (value.toUInt8 ||| 0x80).toNat % 128 = value.toNat % 128 := by omega
    have sum := accumulated bounded below (value.toUInt8 ||| 0x80) (by rw [bits]; omega)
    rw [bits] at sum
    rw [encode,if_neg large,cons_append,decode]
    rw [if_neg (fun zero => by have := (high_bit _).mp zero; omega),if_neg (by omega),
      ih (by rw [sum]; omega) (by rw [shifted]; omega) further,sum,shifted,digits,Nat.add_assoc]

theorem decode_encode (value rest) : decode 0 0 (encode value ++ rest) = .ok (value,rest) := by
  have read := @decode_at 0 0 value (by decide) (by simpa using value.toNat_lt) (by decide) rest
  simpa using read

theorem decode_part (part : data <+: encode value) (proper : data ≠ encode value) : ∃ e, decode shift result data = .error e := by
  induction value using encode.induct generalizing data shift result with
  | case1 value small =>
    rw [encode,if_pos small] at part proper
    rcases prefix_cons_iff.mp part with rfl | ⟨tail,rfl,tails⟩
    · exact ⟨_,rfl⟩
    · rw [prefix_nil.mp tails] at proper
      exact absurd rfl proper
  | case2 value large ih =>
    rw [encode,if_neg large] at part proper
    rcases prefix_cons_iff.mp part with rfl | ⟨tail,rfl,tails⟩
    · exact ⟨_,rfl⟩
    · have byte := inner_byte value
      rw [decode]
      rw [if_neg (fun zero => by have := (high_bit _).mp zero; omega)]
      split
      · exact ⟨_,rfl⟩
      · exact ih tails (fun same => proper (by rw [same]))

end AstraCore.Varint
