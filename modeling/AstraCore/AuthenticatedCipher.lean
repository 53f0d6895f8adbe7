import AstraCore.NetAddress

namespace AstraCore.AuthenticatedCipher
open CheckedBytes NetAddress List

-- Authenticated encryption with keys and nonces of fixed sizes, and what the crates document: every text within the
-- size limit is sealed, a tag of sixteen bytes is added, and what was sealed is opened under the same key, nonce and
-- associated data.
structure Aead (keySize nonceSize : Nat) where
  encrypt : Octets keySize → Octets nonceSize → (aad plaintext : Bytes) → Except String Bytes
  decrypt : Octets keySize → Octets nonceSize → (aad ciphertext : Bytes) → Except String Bytes
  seals : ∀ key nonce aad plaintext, plaintext.length ≤ 2^36 → ∃ ciphertext,
    encrypt key nonce aad plaintext = .ok ciphertext ∧ ciphertext.length = plaintext.length + 16 ∧
      decrypt key nonce aad ciphertext = .ok plaintext
  opens : ∀ key nonce aad ciphertext plaintext, decrypt key nonce aad ciphertext = .ok plaintext →
    ciphertext.length = plaintext.length + 16

-- An instance that keeps the laws and hides nothing, for runs on fixed inputs: before the text stands a tag that shows
-- a mark of the key and a mark of the nonce.
def exposedTag (markKey : Octets k → UInt8) (markNonce : Octets n → UInt8) (key : Octets k) (nonce : Octets n) : Bytes :=
  markKey key :: markNonce nonce :: List.replicate 14 0

def exposed (markKey : Octets k → UInt8) (markNonce : Octets n → UInt8) : Aead k n where
  encrypt key nonce _ plaintext := .ok (exposedTag markKey markNonce key nonce ++ plaintext)
  decrypt key nonce _ ciphertext :=
    if ciphertext.take 16 = exposedTag markKey markNonce key nonce then .ok (ciphertext.drop 16) else .error "aead::Error"
  seals key nonce aad plaintext _ := ⟨_,rfl,by simp [exposedTag],by simp [exposedTag]⟩
  opens key nonce aad ciphertext plaintext opened := by
    split at opened
    · rename_i tagged
      cases opened
      have width := congrArg List.length tagged
      simp only [exposedTag,List.length_take,List.length_cons,List.length_replicate] at width
      rw [List.length_drop]
      omega
    · cases opened

theorem exposed_marked (opened : (exposed markKey markNonce).decrypt key nonce aad ciphertext = .ok plaintext) : markKey key ∈ ciphertext := by
  change (if _ then _ else _ : Except String Bytes) = _ at opened
  split at opened
  · rename_i tagged
    refine mem_of_mem_take (i := 16) ?_
    rw [tagged]
    exact mem_cons_self ..
  · cases opened

end AstraCore.AuthenticatedCipher
