import AstraCore.NetAddress

namespace AstraCore.Crypto
open CheckedBytes NetAddress List

def Octets.front (octets : Octets m) (n : Nat) (fits : n ≤ m) : Octets n :=
  ⟨octets.val.take n,by rw [List.length_take,octets.property,Nat.min_eq_left fits]⟩

-- The functions of the cryptographic crates, with what the crates document: decryption of a block
-- inverts its encryption; the AEAD seals every text within its size limit, adds a tag of sixteen
-- bytes, and opens what it sealed under the same key, nonce and associated data.
structure Primitives where
  hmacSha256 : Bytes → Bytes → Octets 32
  sha256 : Bytes → Octets 32
  md5 : Bytes → Octets 16
  encryptBlock : Octets 16 → Octets 16 → Octets 16
  decryptBlock : Octets 16 → Octets 16 → Octets 16
  gcmEncrypt : Octets 16 → Octets 12 → Bytes → Bytes → Except String Bytes
  gcmDecrypt : Octets 16 → Octets 12 → Bytes → Bytes → Except String Bytes
  block_inverse : ∀ key block, decryptBlock key (encryptBlock key block) = block
  gcm_sealed : ∀ key nonce aad plaintext, plaintext.length ≤ 2^36 → ∃ ciphertext,
    gcmEncrypt key nonce aad plaintext = .ok ciphertext ∧ ciphertext.length = plaintext.length + 16 ∧
      gcmDecrypt key nonce aad ciphertext = .ok plaintext
  gcm_opened : ∀ key nonce aad ciphertext plaintext, gcmDecrypt key nonce aad ciphertext = .ok plaintext →
    ciphertext.length = plaintext.length + 16

variable (crypto : Primitives)

section
variable (key : Octets 16)

def sealWithNonce (plaintext nonce aad : Bytes) : Except String Bytes :=
  if sized : nonce.length = 12 then
    match crypto.gcmEncrypt key ⟨nonce,sized⟩ aad plaintext with
    | .ok ciphertext => .ok ciphertext
    | .error e => .error ("GCM encrypt: " ++ e)
  else .error "GCM nonce must be 12 bytes"

def openWithNonce (ciphertext nonce aad : Bytes) : Except String Bytes :=
  if sized : nonce.length = 12 then
    match crypto.gcmDecrypt key ⟨nonce,sized⟩ aad ciphertext with
    | .ok plaintext => .ok plaintext
    | .error e => .error ("GCM decrypt: " ++ e)
  else .error "GCM nonce must be 12 bytes"

-- A text that cannot be sealed goes out as it is.
def aesGcmSeal (iv plaintext aad : Bytes) : Bytes :=
  match sealWithNonce crypto key plaintext iv aad with
  | .ok ciphertext => ciphertext
  | .error _ => plaintext

def aesGcmOpen (iv ciphertext aad : Bytes) : Except String Bytes :=
  openWithNonce crypto key ciphertext iv aad

end

theorem aesGcm_inverse (key aad) (sized : iv.length = 12) (small : plaintext.length ≤ 2^36) :
    (aesGcmSeal crypto key iv plaintext aad).length = plaintext.length + 16 ∧
      aesGcmOpen crypto key iv (aesGcmSeal crypto key iv plaintext aad) aad = .ok plaintext := by
  obtain ⟨ciphertext,encrypted,width,decrypted⟩ := crypto.gcm_sealed key ⟨iv,sized⟩ aad plaintext small
  have text : aesGcmSeal crypto key iv plaintext aad = ciphertext := by
    simp [aesGcmSeal,sealWithNonce,sized,encrypted]
  rw [text]
  exact ⟨width,by simp [aesGcmOpen,openWithNonce,sized,decrypted]⟩

def padded (n : Nat) (bytes : Bytes) : Octets n := ⟨(bytes ++ List.replicate n 0).take n,by simp⟩

theorem padded_front (sized : front.length = n) (rest) : padded n (front ++ rest) = ⟨front,sized⟩ := by
  refine Subtype.ext ?_
  change ((front ++ rest) ++ List.replicate n 0).take n = front
  rw [append_assoc,take_front sized]

-- Primitives that keep every law above and hide nothing, for runs on fixed inputs and for showing what the laws
-- leave open: a derived key is the key itself, a block is its own encryption, and a sealed text stands behind a tag
-- that shows a mark of key and nonce. The digest and the mark are any functions.
def exposedTag (mark : Octets 16 → Octets 12 → UInt8) (key : Octets 16) (nonce : Octets 12) : Bytes :=
  mark key nonce :: List.replicate 15 0

def exposed (digest : Bytes → Octets 32) (mark : Octets 16 → Octets 12 → UInt8) : Primitives where
  hmacSha256 key _ := padded 32 key
  sha256 := digest
  md5 := padded 16
  encryptBlock _ block := block
  decryptBlock _ block := block
  gcmEncrypt key nonce _ plaintext := .ok (exposedTag mark key nonce ++ plaintext)
  gcmDecrypt key nonce _ ciphertext :=
    if ciphertext.take 16 = exposedTag mark key nonce then .ok (ciphertext.drop 16) else .error "aead::Error"
  block_inverse _ _ := rfl
  gcm_sealed key nonce aad plaintext _ := ⟨_,rfl,by simp [exposedTag],by simp [exposedTag]⟩
  gcm_opened key nonce aad ciphertext plaintext opened := by
    split at opened
    · rename_i tagged
      cases opened
      have width := congrArg List.length tagged
      simp only [exposedTag,List.length_take,List.length_cons,List.length_replicate] at width
      rw [List.length_drop]
      omega
    · cases opened

section
variable {digest : Bytes → Octets 32} {mark : Octets 16 → Octets 12 → UInt8}

theorem exposed_seal (sized : iv.length = 12) (key plaintext aad) :
    aesGcmSeal (exposed digest mark) key iv plaintext aad = exposedTag mark key ⟨iv,sized⟩ ++ plaintext := by
  simp [aesGcmSeal,sealWithNonce,sized,exposed]

theorem exposed_open (sized : iv.length = 12) (opened : aesGcmOpen (exposed digest mark) key iv ciphertext aad = .ok plaintext) :
    ciphertext = exposedTag mark key ⟨iv,sized⟩ ++ plaintext := by
  rw [aesGcmOpen,openWithNonce,dif_pos sized] at opened
  change (match (if _ then _ else _ : Except String Bytes) with
    | .ok plaintext => _
    | .error e => _) = _ at opened
  split at opened
  · rename_i text found
    cases opened
    split at found
    · rename_i tagged
      cases found
      rw [← tagged,take_append_drop]
    · cases found
  · cases opened

end

end AstraCore.Crypto
