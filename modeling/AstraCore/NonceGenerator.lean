import AstraCore.ByteCounter

namespace AstraCore.NonceGenerator
open CheckedBytes NetAddress ByteCounter

structure IncreasingNonceGenerator where
  nonce : Bytes

-- The loop goes on behind a byte that has wrapped to zero.
def IncreasingNonceGenerator.generate (g : IncreasingNonceGenerator) : Bytes × IncreasingNonceGenerator :=
  (carry g.nonce,⟨carry g.nonce⟩)

def aeadNonceGenerator (nonceSize : Nat) : IncreasingNonceGenerator := ⟨List.replicate nonceSize 0xFF⟩

def IncreasingNonceGenerator.after (g : IncreasingNonceGenerator) : Nat → IncreasingNonceGenerator
  | 0 => g
  | calls + 1 => (g.after calls).generate.2

section
variable (g : IncreasingNonceGenerator)

def IncreasingNonceGenerator.output (calls : Nat) : Bytes := (g.after calls).generate.1

def toLe : Nat → Nat → Bytes
  | 0,_ => []
  | width + 1,n => UInt8.ofNat n :: toLe width (n / 256)

theorem toLe_ofLe (bytes) : toLe bytes.length (ofLe bytes) = bytes := by
  induction bytes with
  | nil => rfl
  | cons byte rest ih =>
    have digit := UInt8.toNat_lt byte
    have low : UInt8.ofNat (byte.toNat + 256 * ofLe rest) = byte := by
      apply UInt8.toNat_inj.mp
      simp
    rw [List.length_cons,toLe,ofLe,low,Nat.add_mul_div_left _ _ (by decide),Nat.div_eq_of_lt digit,Nat.zero_add,ih]

theorem ofLe_toLe : ofLe (toLe width n) = n % 256^width := by
  induction width generalizing n with
  | zero => simp [toLe,ofLe,Nat.mod_one]
  | succ width ih =>
    rw [toLe,ofLe,ih,Nat.pow_succ',Nat.mod_mul]
    simp

theorem after_value : (g.after calls).nonce.length = g.nonce.length ∧ ofLe (g.after calls).nonce = (ofLe g.nonce + calls) % 256^g.nonce.length := by
  induction calls with
  | zero => exact ⟨rfl,(Nat.mod_eq_of_lt (ofLe_lt _)).symm⟩
  | succ calls ih =>
    obtain ⟨width,value⟩ := ih
    change (carry (g.after calls).nonce).length = _ ∧ ofLe (carry (g.after calls).nonce) = _
    refine ⟨by rw [carry_length,width],?_⟩
    rw [carry_value,width,value,Nat.mod_add_mod]
    rfl

theorem output_value (calls) : g.output calls = toLe g.nonce.length ((ofLe g.nonce + (calls + 1)) % 256^g.nonce.length) := by
  obtain ⟨width,value⟩ := after_value g
  rw [← value,← width]
  exact (toLe_ofLe _).symm

end

theorem ofLe_full : ofLe (List.replicate n 0xFF) + 1 = 256^n := by
  induction n with
  | zero => rfl
  | succ n ih =>
    rw [List.replicate_succ,ofLe,Nat.pow_succ',← ih]
    change 255 + 256 * _ + 1 = _
    omega

theorem aead_value (calls) : (aeadNonceGenerator n).output calls = toLe n (calls % 256^n) := by
  have width : (aeadNonceGenerator n).nonce.length = n := List.length_replicate
  have full : ofLe (aeadNonceGenerator n).nonce + 1 = 256^n := ofLe_full
  rw [output_value,width,show ofLe (aeadNonceGenerator n).nonce + (calls + 1) = calls + 256^n by omega,Nat.add_mod_right]

theorem nonces_increase (n : Nat) (seed : Octets n) :
    (∀ calls, (IncreasingNonceGenerator.mk seed.val).output calls = toLe n ((ofLe seed.val + (calls + 1)) % 256^n)) ∧
    (∀ calls, (aeadNonceGenerator n).output calls = toLe n (calls % 256^n)) ∧
    ∀ j k, j < 256^n → k < 256^n → (aeadNonceGenerator n).output j = (aeadNonceGenerator n).output k → j = k := by
  refine ⟨fun calls => ?_,aead_value,fun j k first second same => ?_⟩
  · have whole := output_value ⟨seed.val⟩ calls
    rwa [seed.property] at whole
  · have values := congrArg ofLe same
    rwa [aead_value,aead_value,ofLe_toLe,ofLe_toLe,Nat.mod_mod,Nat.mod_mod,Nat.mod_eq_of_lt first,Nat.mod_eq_of_lt second] at values

end AstraCore.NonceGenerator
