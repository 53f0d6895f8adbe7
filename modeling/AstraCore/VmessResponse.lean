import AstraCore.VmessHeader

namespace AstraCore.VmessHeader
open CheckedBytes NetAddress LossyUtf8 Crypto List
variable {crypto : Primitives}

def kdfSaltAeadRespHeaderLenKey : Bytes := asBytes "AEAD Resp Header Len Key"
def kdfSaltAeadRespHeaderLenIv : Bytes := asBytes "AEAD Resp Header Len IV"
def kdfSaltAeadRespHeaderPayloadKey : Bytes := asBytes "AEAD Resp Header Key"
def kdfSaltAeadRespHeaderPayloadIv : Bytes := asBytes "AEAD Resp Header IV"

def responseKeys (crypto : Primitives) (rk riv : Octets 16) : HeaderKeys where
  lenKey := kdf16 crypto rk.val [kdfSaltAeadRespHeaderLenKey]
  lenIv := kdf12 crypto riv.val [kdfSaltAeadRespHeaderLenIv]
  payloadKey := kdf16 crypto rk.val [kdfSaltAeadRespHeaderPayloadKey]
  payloadIv := kdf12 crypto riv.val [kdfSaltAeadRespHeaderPayloadIv]

theorem responseKeys_lenIv (crypto rk riv) : (responseKeys crypto rk riv).lenIv.length = 12 := kdf12_length ..
theorem responseKeys_payloadIv (crypto rk riv) : (responseKeys crypto rk riv).payloadIv.length = 12 :=
  kdf12_length ..

def ServerSession.responseText (server : ServerSession) (optionByte : UInt8) (cmdData : Option Bytes) : Bytes :=
  server.responseHeader :: optionByte ::
    match cmdData with
    | some cmd => cmd
    | none => [0,0]

def ServerSession.encodeResponseHeader (crypto : Primitives) (server : ServerSession) (optionByte : UInt8) (cmdData : Option Bytes) :
    Bytes :=
  let plaintext := server.responseText optionByte cmdData
  let keys := responseKeys crypto server.responseBodyKey server.responseBodyIv
  aesGcmSeal crypto keys.lenKey keys.lenIv (u16ToBe (UInt16.ofNat plaintext.length)) [] ++
    aesGcmSeal crypto keys.payloadKey keys.payloadIv plaintext []

-- The response secrets are derived again here; the first byte of the payload is handed on unread.
def ClientSession.decodeResponseHeader (client : ClientSession crypto) (data : Bytes) : Except String (Bytes × Option Bytes) :=
  let keys := responseKeys crypto (responseSecret crypto client.requestBodyKey) (responseSecret crypto client.requestBodyIv)
  if data.length < 18 then .error "truncated response header"
  else do
    let lenPlain ← aesGcmOpen crypto keys.lenKey keys.lenIv (data.take 18) []
    let payloadLen := (be16 lenPlain).toNat
    if data.length < 18 + payloadLen + 16 then .error "truncated response payload"
    else
      let payload ← aesGcmOpen crypto keys.payloadKey keys.payloadIv ((data.drop 18).take (payloadLen + 16)) []
      .ok (payload,none)

structure Response (crypto : Primitives) (rk riv : Octets 16) (response payload lenPlain : Bytes) : Prop where
  lengthLayer : aesGcmOpen crypto (responseKeys crypto rk riv).lenKey (responseKeys crypto rk riv).lenIv (response.take 18) [] =
    .ok lenPlain
  width : response.length = 18 + (be16 lenPlain).toNat + 16
  payloadLayer : aesGcmOpen crypto (responseKeys crypto rk riv).payloadKey (responseKeys crypto rk riv).payloadIv
    (response.drop 18) [] = .ok payload

theorem response_encoded (server : ServerSession) (optionByte cmdData) (small : (server.responseText optionByte cmdData).length < 65536) :
    Response crypto server.responseBodyKey server.responseBodyIv (server.encodeResponseHeader crypto optionByte cmdData)
      (server.responseText optionByte cmdData) (u16ToBe (UInt16.ofNat (server.responseText optionByte cmdData).length)) := by
  have announced := UInt16.toNat_ofNat_of_lt' small
  have lenIv := responseKeys_lenIv crypto server.responseBodyKey server.responseBodyIv
  have payloadIv := responseKeys_payloadIv crypto server.responseBodyKey server.responseBodyIv
  have length := aesGcm_inverse crypto (responseKeys crypto server.responseBodyKey server.responseBodyIv).lenKey [] lenIv
    (by simp : (u16ToBe (UInt16.ofNat (server.responseText optionByte cmdData).length)).length ≤ 2^36)
  have payload := aesGcm_inverse crypto (responseKeys crypto server.responseBodyKey server.responseBodyIv).payloadKey [] payloadIv
    (by omega : (server.responseText optionByte cmdData).length ≤ 2^36)
  rw [u16ToBe_length] at length
  refine ⟨?_,?_,?_⟩
  · rw [ServerSession.encodeResponseHeader,take_front length.1]
    exact length.2
  · rw [ServerSession.encodeResponseHeader,length_append,be16_roundtrip]
    omega
  · rw [ServerSession.encodeResponseHeader,drop_front length.1]
    exact payload.2

theorem decodeResponse_opens {client : ClientSession crypto} (decoded : client.decodeResponseHeader data = .ok result) : ∃ lenPlain, aesGcmOpen crypto
      (responseKeys crypto (responseSecret crypto client.requestBodyKey) (responseSecret crypto client.requestBodyIv)).lenKey
      (responseKeys crypto (responseSecret crypto client.requestBodyKey) (responseSecret crypto client.requestBodyIv)).lenIv
      (data.take 18) [] = .ok lenPlain := by
  rw [ClientSession.decodeResponseHeader] at decoded
  split at decoded
  · cases decoded
  · obtain ⟨lenPlain,opened,-⟩ := checked_bind decoded
    exact ⟨lenPlain,opened⟩

section
variable {client : ClientSession crypto}
  (whole : Response crypto (responseSecret crypto client.requestBodyKey) (responseSecret crypto client.requestBodyIv)
    response payload lenPlain)
include whole

theorem decodeResponse_whole : client.decodeResponseHeader (response ++ rest) = .ok (payload,none) := by
  have width := whole.width
  have length : (response ++ rest).take 18 = response.take 18 := take_append_of_le_length (by omega)
  have payloadText : ((response ++ rest).drop 18).take ((be16 lenPlain).toNat + 16) = response.drop 18 := by
    rw [drop_append_of_le_length (by omega)]
    exact take_front (by rw [length_drop]; omega) rest
  rw [ClientSession.decodeResponseHeader]
  dsimp only
  rw [length_append,if_neg (by omega),length,whole.lengthLayer,ok_bind,if_neg (by omega),payloadText,whole.payloadLayer]
  rfl

theorem decodeResponse_part (shorter : n < response.length) : ∃ e, client.decodeResponseHeader (response.take n) = .error e := by
  have width := whole.width
  have held : (response.take n).length = n := length_take_of_le (by omega)
  rw [ClientSession.decodeResponseHeader]
  rw [held]
  by_cases first : n < 18
  · exact ⟨_,if_pos first⟩
  · have length : (response.take n).take 18 = response.take 18 := by rw [take_take,Nat.min_eq_left (by omega)]
    rw [if_neg first,length,whole.lengthLayer,ok_bind,if_pos (by omega)]
    exact ⟨_,rfl⟩

theorem decodeResponse_iff (read : data <+: response ++ rest) :
    client.decodeResponseHeader data = .ok (payload,none) ↔ response.length ≤ data.length := by
  by_cases enough : response.length ≤ data.length
  · obtain ⟨tail,rfl⟩ := prefix_of_prefix_length_le (prefix_append response rest) read enough
    exact iff_of_true (decodeResponse_whole whole) enough
  · have part := prefix_of_prefix_length_le read (prefix_append response rest) (by omega)
    rw [prefix_iff_eq_take.mp part]
    obtain ⟨e,refused⟩ := decodeResponse_part whole (Nat.lt_of_not_le enough)
    rw [refused]
    refine iff_of_false (nofun) ?_
    rw [length_take]
    omega

end

end AstraCore.VmessHeader
