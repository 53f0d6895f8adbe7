import AstraCore.CheckedBytes

namespace AstraCore.CallOrder
variable {α β : Type}

def outputs (encode : List α → α → β) : List α → List α → List β
  | _,[] => []
  | earlier,item :: rest => encode earlier item :: outputs encode (earlier ++ [item]) rest

@[simp] theorem outputs_length (earlier) : (outputs encode earlier items).length = items.length := by
  induction items generalizing earlier with
  | nil => rfl
  | cons item rest ih => exact congrArg Nat.succ (ih _)

theorem outputs_concat (encode : List α → α → β) (earlier items item) :
    outputs encode earlier (items ++ [item]) = outputs encode earlier items ++ [encode (earlier ++ items) item] := by
  induction items generalizing earlier with
  | nil => simp [outputs]
  | cons first rest ih => simp [outputs,ih]

theorem outputs_map (encode : List γ → γ → β) (view : α → γ) (earlier items) :
    outputs (fun earlier item => encode (earlier.map view) (view item)) earlier items = outputs encode (earlier.map view) (items.map view) := by
  induction items generalizing earlier with
  | nil => rfl
  | cons item rest ih => simp [outputs,ih]

end AstraCore.CallOrder

namespace AstraCore.Authenticators
open CheckedBytes CallOrder

-- An `Authenticator` at both ends: what was sealed in order is opened in the same order. Each call depends on the earlier
-- ones, and `overhead` is what sealing adds to the length.
structure Authenticator where
  overhead : Nat
  seals : List Bytes → Bytes → Bytes
  opens : List Bytes → Bytes → Except String Bytes
  seals_length : ∀ earlier plaintext, (seals earlier plaintext).length = plaintext.length + overhead
  inverts : ∀ earlier plaintext, opens (outputs seals [] earlier) (seals earlier plaintext) = .ok plaintext

structure AeadCipher where
  nonceSize : Nat
  overhead : Nat
  sealWithNonce : (plaintext nonce aad : Bytes) → Bytes
  openWithNonce : (ciphertext nonce aad : Bytes) → Except String Bytes
  seals_length : ∀ plaintext nonce aad, (sealWithNonce plaintext nonce aad).length = plaintext.length + overhead
  inverts : ∀ plaintext nonce aad, openWithNonce (sealWithNonce plaintext nonce aad) nonce aad = .ok plaintext

-- `AeadAuthenticator`: the generators give nonces and associated data call after call, and a nonce of a wrong size is
-- refused.
def aeadOpens (cipher : AeadCipher) (nonceGen additionalDataGen : Nat → Bytes) (earlier : List Bytes) (ciphertext : Bytes) : Except String Bytes :=
  if (nonceGen earlier.length).length ≠ cipher.nonceSize then .error ("invalid AEAD nonce size: " ++ toString (nonceGen earlier.length).length ++ " (expected " ++ toString cipher.nonceSize ++ ")")
  else cipher.openWithNonce ciphertext (nonceGen earlier.length) (additionalDataGen earlier.length)

def aeadAuthenticator (cipher : AeadCipher) (nonceGen additionalDataGen : Nat → Bytes)
    (sized : ∀ call, (nonceGen call).length = cipher.nonceSize) : Authenticator where
  overhead := cipher.overhead
  seals earlier plaintext := cipher.sealWithNonce plaintext (nonceGen earlier.length) (additionalDataGen earlier.length)
  opens := aeadOpens cipher nonceGen additionalDataGen
  seals_length _ plaintext := cipher.seals_length plaintext _ _
  inverts earlier plaintext := by
    rw [aeadOpens,outputs_length,if_neg (not_not.mpr (sized _))]
    exact cipher.inverts plaintext _ _

end AstraCore.Authenticators
