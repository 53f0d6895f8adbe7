import AstraCore.AddressCodec
import AstraCore.ProtoHeader

namespace AstraCore.VmessHeader
open CheckedBytes NetAddress LossyUtf8 MuxFrame AddressCodec Crypto ProtoHeader
open List (append_assoc drop_drop drop_take length_append length_drop take_take)
variable (crypto : Primitives)

def kdfSaltAuthIdEncryptionKey : Bytes := asBytes "AES Auth ID Encryption"
def kdfSaltVmessAeadKdf : Bytes := asBytes "VMess AEAD KDF"
def kdfSaltVmessHeaderPayloadAeadKey : Bytes := asBytes "VMess Header AEAD Key"
def kdfSaltVmessHeaderPayloadAeadIv : Bytes := asBytes "VMess Header AEAD Nonce"
def kdfSaltVmessHeaderPayloadLengthAeadKey : Bytes := asBytes "VMess Header AEAD Key_Length"
def kdfSaltVmessHeaderPayloadLengthAeadIv : Bytes := asBytes "VMess Header AEAD Nonce_Length"

def kdf (key : Bytes) (path : List Bytes) : Octets 32 :=
  let result := path.foldl (fun result segment => crypto.hmacSha256 result.val segment)
    (crypto.hmacSha256 key kdfSaltVmessAeadKdf)
  crypto.hmacSha256 result.val key

def kdf16 (key : Bytes) (path : List Bytes) : Octets 16 := Octets.front (kdf crypto key path) 16 (by decide)

def kdf12 (key : Bytes) (path : List Bytes) : Bytes := (kdf crypto key path).val.take 12

@[simp] theorem kdf12_length (key path) : (kdf12 crypto key path).length = 12 := by
  simp [kdf12,(kdf crypto key path).property]

def crc32Shift (crc : UInt32) : UInt32 := if crc &&& 1 ≠ 0 then (crc >>> 1) ^^^ 0xedb88320 else crc >>> 1

def crc32Table (index : UInt32) : UInt32 := Nat.iterate crc32Shift 8 index

def crc32Ieee (data : Bytes) : UInt32 :=
  ~~~ data.foldl (fun crc b => crc32Table ((crc ^^^ b.toUInt32) &&& 0xff) ^^^ (crc >>> 8)) (~~~ 0)

def authIdText (time : Int64) (random : Octets 4) : Octets 16 :=
  let front := toBe 8 time.toUInt64.toNat ++ random.val
  ⟨front ++ u32ToBe (crc32Ieee front),by simp [front,random.property]⟩

def createAuthID (cmdKey : Octets 16) (time : Int64) (random : Octets 4) : Octets 16 :=
  crypto.encryptBlock (kdf16 crypto cmdKey.val [kdfSaltAuthIdEncryptionKey]) (authIdText time random)

def decodeAuthID (cmdKey authId : Octets 16) : Except String (Int64 × UInt32 × UInt32 × Octets 16) :=
  let plaintext := crypto.decryptBlock (kdf16 crypto cmdKey.val [kdfSaltAuthIdEncryptionKey]) authId
  let time := Int64.ofNat (ofBe (plaintext.val.take 8))
  let randVal := be32 ((plaintext.val.drop 8).take 4)
  let crc := be32 (plaintext.val.drop 12)
  if crc ≠ crc32Ieee (plaintext.val.take 12) then .error "AuthID CRC mismatch"
  else .ok (time,randVal,crc,plaintext)

theorem int64_roundtrip (time) : Int64.ofNat (ofBe (toBe 8 time.toUInt64.toNat)) = time := by
  have small : time.toUInt64.toNat < 256^8 := UInt64.toNat_lt _
  rw [ofBe_toBe,Nat.mod_eq_of_lt small,← UInt64.toInt64_ofNat',UInt64.ofNat_toNat,Int64.toInt64_toUInt64]

theorem decodeAuthID_create (cmdKey time random) : ∃ crc, decodeAuthID crypto cmdKey (createAuthID crypto cmdKey time random) =
      .ok (time,be32 random.val,crc,authIdText time random) := by
  have clear : (toBe 8 time.toUInt64.toNat).length = 8 := toBe_length 8 _
  have width : (toBe 8 time.toUInt64.toNat ++ random.val).length = 12 := by simp [random.property]
  have summed : (authIdText time random).val.take 12 = toBe 8 time.toUInt64.toNat ++ random.val := take_front width _
  have sum : (authIdText time random).val.drop 12 = u32ToBe (crc32Ieee (toBe 8 time.toUInt64.toNat ++ random.val)) :=
    drop_front width _
  have text : (authIdText time random).val = toBe 8 time.toUInt64.toNat ++ (random.val ++ _) := append_assoc ..
  have early : (authIdText time random).val.take 8 = toBe 8 time.toUInt64.toNat := by rw [text,take_front clear]
  have drawn : ((authIdText time random).val.drop 8).take 4 = random.val := by
    rw [text,drop_front clear,take_front random.property]
  refine ⟨crc32Ieee (toBe 8 time.toUInt64.toNat ++ random.val),?_⟩
  simp only [decodeAuthID,createAuthID,crypto.block_inverse,summed,sum,early,drawn,be32_roundtrip,int64_roundtrip,ne_eq,not_true_eq_false,if_false]

structure HeaderKeys where
  lenKey : Octets 16
  lenIv : Bytes
  payloadKey : Octets 16
  payloadIv : Bytes

def headerKeys (key : Octets 16) (authId connNonce : Bytes) : HeaderKeys where
  lenKey := kdf16 crypto key.val [kdfSaltVmessHeaderPayloadLengthAeadKey,authId,connNonce]
  lenIv := kdf12 crypto key.val [kdfSaltVmessHeaderPayloadLengthAeadIv,authId,connNonce]
  payloadKey := kdf16 crypto key.val [kdfSaltVmessHeaderPayloadAeadKey,authId,connNonce]
  payloadIv := kdf12 crypto key.val [kdfSaltVmessHeaderPayloadAeadIv,authId,connNonce]

theorem headerKeys_lenIv (key authId connNonce) : (headerKeys crypto key authId connNonce).lenIv.length = 12 :=
  kdf12_length ..
theorem headerKeys_payloadIv (key authId connNonce) : (headerKeys crypto key authId connNonce).payloadIv.length = 12 := kdf12_length ..

structure SealDraws where
  timestamp : Int64
  authRand : Octets 4
  connNonce : Octets 8

def sealedHeader (key authId : Octets 16) (connNonce : Octets 8) (data : Bytes) : Bytes :=
  let keys := headerKeys crypto key authId.val connNonce.val
  aesGcmSeal crypto keys.lenKey keys.lenIv (u16ToBe (UInt16.ofNat data.length)) authId.val ++
    (connNonce.val ++ aesGcmSeal crypto keys.payloadKey keys.payloadIv data authId.val)

def sealVMessAEADHeader (key : Octets 16) (draws : SealDraws) (data : Bytes) : Bytes :=
  let authId := createAuthID crypto key draws.timestamp draws.authRand
  authId.val ++ sealedHeader crypto key authId draws.connNonce data

-- The eighteen bytes of the length open to two, so the length is read whole.
def openVMessAEADHeader (key authId : Octets 16) (data : Bytes) : Except String (Bytes × Bool × Nat) :=
  if data.length < 18 then .error "truncated length header"
  else if data.length < 18 + 8 then .error "truncated connection nonce"
  else do
    let keys := headerKeys crypto key authId.val ((data.drop 18).take 8)
    let lenPlain ← aesGcmOpen crypto keys.lenKey keys.lenIv (data.take 18) authId.val
    let payloadLen := (be16 lenPlain).toNat
    if data.length < 26 + payloadLen + 16 then .error "truncated payload"
    else
      let payload ← aesGcmOpen crypto keys.payloadKey keys.payloadIv ((data.drop 26).take (payloadLen + 16)) authId.val
      .ok (payload,false,26 + payloadLen + 16)

-- A whole sealed header: its length layer announces exactly the payload behind the nonce.
structure Record (key authId : Octets 16) (header payload lenPlain : Bytes) : Prop where
  lengthLayer : aesGcmOpen crypto (headerKeys crypto key authId.val ((header.drop 18).take 8)).lenKey
    (headerKeys crypto key authId.val ((header.drop 18).take 8)).lenIv (header.take 18) authId.val = .ok lenPlain
  width : header.length = 26 + (be16 lenPlain).toNat + 16
  payloadLayer : aesGcmOpen crypto (headerKeys crypto key authId.val ((header.drop 18).take 8)).payloadKey
    (headerKeys crypto key authId.val ((header.drop 18).take 8)).payloadIv (header.drop 26) authId.val = .ok payload

variable {crypto}

section
variable (whole : Record crypto key authId header payload lenPlain)
include whole

theorem open_record (rest) : openVMessAEADHeader crypto key authId (header ++ rest) = .ok (payload,false,header.length) := by
  have width := whole.width
  have nonce : ((header ++ rest).drop 18).take 8 = (header.drop 18).take 8 := by
    rw [List.drop_append_of_le_length (by omega),List.take_append_of_le_length (by rw [length_drop]; omega)]
  have length : (header ++ rest).take 18 = header.take 18 := List.take_append_of_le_length (by omega)
  have payloadText : ((header ++ rest).drop 26).take ((be16 lenPlain).toNat + 16) = header.drop 26 := by
    rw [List.drop_append_of_le_length (by omega)]
    exact take_front (by rw [length_drop]; omega) rest
  rw [openVMessAEADHeader,length_append,if_neg (by omega),if_neg (by omega)]
  dsimp only
  rw [nonce,length,whole.lengthLayer]
  change (if _ then _ else _) = _
  rw [if_neg (by omega),payloadText,whole.payloadLayer,width]
  rfl

theorem open_part (shorter : n < header.length) : ∃ e, openVMessAEADHeader crypto key authId (header.take n) = .error e := by
  have width := whole.width
  have length : (header.take n).length = n := List.length_take_of_le (by omega)
  rw [openVMessAEADHeader,length]
  by_cases first : n < 18
  · exact ⟨_,if_pos first⟩
  · rw [if_neg first]
    by_cases second : n < 18 + 8
    · exact ⟨_,if_pos second⟩
    · have nonce : ((header.take n).drop 18).take 8 = (header.drop 18).take 8 := by
        rw [drop_take,take_take,Nat.min_eq_left (by omega)]
      have front : (header.take n).take 18 = header.take 18 := by rw [take_take,Nat.min_eq_left (by omega)]
      rw [if_neg second]
      dsimp only
      rw [nonce,front,whole.lengthLayer]
      exact ⟨"truncated payload",if_pos (by omega)⟩

end

theorem record_open (opened : openVMessAEADHeader crypto key authId data = .ok (payload,drain,count)) :
    count ≤ data.length ∧ (data.take count).length = count ∧ drain = false ∧ ∃ lenPlain, Record crypto key authId (data.take count) payload lenPlain := by
  rw [openVMessAEADHeader] at opened
  split at opened
  · cases opened
  split at opened
  · cases opened
  dsimp only at opened
  cases lengthLayer : aesGcmOpen crypto (headerKeys crypto key authId.val ((data.drop 18).take 8)).lenKey
      (headerKeys crypto key authId.val _).lenIv _ authId.val with
  | error e => rw [lengthLayer] at opened; cases opened
  | ok lenPlain =>
    rw [lengthLayer] at opened
    change (if _ then _ else _) = _ at opened
    split at opened
    · cases opened
    cases payloadLayer : aesGcmOpen crypto (headerKeys crypto key authId.val ((data.drop 18).take 8)).payloadKey
        (headerKeys crypto key authId.val _).payloadIv
        ((data.drop 26).take _) authId.val with
    | error e => rw [payloadLayer] at opened; cases opened
    | ok text =>
      rw [payloadLayer] at opened
      cases opened
      have width : (data.take _).length = 26 + (be16 lenPlain).toNat + 16 :=
        List.length_take_of_le (by omega)
      have nonce : ((data.take (26 + (be16 lenPlain).toNat + 16)).drop 18).take 8 = (data.drop 18).take 8 := by
        rw [drop_take,take_take,Nat.min_eq_left (by omega)]
      refine ⟨by omega,width,rfl,lenPlain,?_,width,?_⟩
      · rw [nonce,take_take,Nat.min_eq_left (by omega)]
        exact lengthLayer
      · rw [nonce,drop_take,show 26 + (be16 lenPlain).toNat + 16 - 26 = (be16 lenPlain).toNat + 16 by omega]
        exact payloadLayer

theorem record_sealed (key authId connNonce) (small : data.length < 65536) :
    Record crypto key authId (sealedHeader crypto key authId connNonce data) data (u16ToBe (UInt16.ofNat data.length)) := by
  have announced := UInt16.toNat_ofNat_of_lt' small
  have length := aesGcm_inverse crypto (headerKeys crypto key authId.val connNonce.val).lenKey authId.val
    (headerKeys_lenIv crypto key authId.val connNonce.val) (by simp : (u16ToBe (UInt16.ofNat data.length)).length ≤ 2^36)
  have payload := aesGcm_inverse crypto (headerKeys crypto key authId.val connNonce.val).payloadKey authId.val
    (headerKeys_payloadIv crypto key authId.val connNonce.val) (by omega : data.length ≤ 2^36)
  rw [u16ToBe_length] at length
  have nonce : ((sealedHeader crypto key authId connNonce data).drop 18).take 8 = connNonce.val := by
    rw [sealedHeader,drop_front length.1,take_front connNonce.property]
  refine ⟨?_,?_,?_⟩
  · rw [nonce,sealedHeader,take_front length.1]
    exact length.2
  · rw [sealedHeader,length_append,length_append,be16_roundtrip]
    omega
  · rw [nonce,sealedHeader,← append_assoc,drop_front (by rw [length_append,length.1,connNonce.property])]
    exact payload.2

theorem sealedHeader_length (crypto key authId connNonce) (small : data.length < 65536) :
    (sealedHeader crypto key authId connNonce data).length = 26 + data.length + 16 := by
  have width := (@record_sealed crypto data key authId connNonce small).width
  rwa [be16_roundtrip,UInt16.toNat_ofNat_of_lt' small] at width

def authenticate (b : Bytes) : UInt32 := b.foldl (fun hash byte => (hash ^^^ byte.toUInt32) * 0x01000193) 0x811c9dc5

section
variable (crypto : Primitives)

def responseSecret (secret : Octets 16) : Octets 16 := Octets.front (crypto.sha256 secret.val) 16 (by decide)

-- Only `ClientSession::new` makes a session, so the response secrets are derived from the request's.
structure ClientSession where
  requestBodyKey : Octets 16
  requestBodyIv : Octets 16
  responseBodyKey : Octets 16
  responseBodyIv : Octets 16
  responseHeader : UInt8
  keyDerived : responseBodyKey = responseSecret crypto requestBodyKey
  ivDerived : responseBodyIv = responseSecret crypto requestBodyIv

structure SessionDraws where
  key : Octets 16
  iv : Octets 16
  responseHeader : UInt8

def ClientSession.new (draws : SessionDraws) : ClientSession crypto where
  requestBodyKey := draws.key
  requestBodyIv := draws.iv
  responseBodyKey := responseSecret crypto draws.key
  responseBodyIv := responseSecret crypto draws.iv
  responseHeader := draws.responseHeader
  keyDerived := rfl
  ivDerived := rfl

end

-- The length of a domain is cut to a byte, its text is not.
def encodeAddress : Address → Bytes
  | .ipv4 octets => 1 :: octets.val
  | .domain name => 2 :: UInt8.ofNat (asBytes name).length :: asBytes name
  | .ipv6 octets => 3 :: octets.val

def encodeTarget (header : RequestHeader) : Bytes :=
  match header.command with
  | .tcp | .udp => u16ToBe header.port.value ++ encodeAddress header.address
  | _ => []

-- What the encoding of one header draws; the padding takes as many random bytes as its first one says.
structure HeaderDraws where
  padding : UInt8
  paddingBytes : Nat → UInt8
  sealing : SealDraws

def HeaderDraws.padLen (draws : HeaderDraws) : UInt8 := draws.padding &&& 0x0f

def HeaderDraws.padded (draws : HeaderDraws) : Bytes := (List.range draws.padLen.toNat).map draws.paddingBytes

def ClientSession.requestText (client : ClientSession crypto) (header : RequestHeader) (draws : HeaderDraws) : Bytes :=
  header.version :: (client.requestBodyIv.val ++ (client.requestBodyKey.val ++
    (client.responseHeader :: header.option :: ((draws.padLen <<< 4) ||| header.security.asByte) :: 0 ::
      header.command.asByte :: (encodeTarget header ++ draws.padded))))

def ClientSession.encodeRequestHeader (client : ClientSession crypto) (header : RequestHeader) (cmdKey : Octets 16)
    (draws : HeaderDraws) : Bytes :=
  let buf := client.requestText header draws
  sealVMessAEADHeader crypto cmdKey draws.sealing (buf ++ u32ToBe (authenticate buf))

structure SessionID where
  user : Octets 16
  key : Octets 16
  nonce : Octets 16
deriving DecidableEq

structure SessionHistory where
  cache : List (SessionID × Nat)

def SessionHistory.new : SessionHistory := ⟨[]⟩

def SessionHistory.addIfNotExists (history : SessionHistory) (now : Nat) (session : SessionID) : Bool × SessionHistory :=
  let cache := history.cache.filter (fun entry => now < entry.2)
  if session ∈ cache.map Prod.fst then (false,⟨cache⟩)
  else (true,⟨(session,now + 180) :: cache⟩)

structure ServerSession where
  requestBodyKey : Octets 16
  requestBodyIv : Octets 16
  responseBodyKey : Octets 16
  responseBodyIv : Octets 16
  responseHeader : UInt8
  sessionHistory : SessionHistory

def ServerSession.new (sessionHistory : SessionHistory) : ServerSession where
  requestBodyKey := .zero 16
  requestBodyIv := .zero 16
  responseBodyKey := .zero 16
  responseBodyIv := .zero 16
  responseHeader := 0
  sessionHistory := sessionHistory

def addressTexts : Texts where
  empty := "truncated address"
  ipv4 := "truncated IPv4"
  domainLength := "truncated domain len"
  domain := "truncated domain"
  ipv6 := "truncated IPv6"

def decodeAddress (data : Bytes) : Except String (Address × Nat) := readAddress addressTexts data

def decodeTarget (command : RequestCommand) (plaintext : Bytes) : Except String (Address × Port × Nat) :=
  match command with
  | .tcp | .udp =>
    if plaintext.length < 38 + 2 then .error "truncated port"
    else do
      let port := be16 ((plaintext.drop 38).take 2)
      let (address,consumed) ← decodeAddress (plaintext.drop 40)
      .ok (address,⟨port⟩,40 + consumed)
  | _ => .ok (.ipv4 (.zero 4),⟨0⟩,38)

def verifyChecksum (plaintext : Bytes) (offset : Nat) : Except String Unit :=
  if plaintext.length < offset + 4 then .error "truncated checksum"
  else if be32 ((plaintext.drop offset).take 4) ≠ authenticate (plaintext.take offset) then .error "FNV checksum mismatch"
  else .ok ()

def decodeText (plaintext : Bytes) : Except String RequestHeader := do
  let cmdByte := plaintext.getD 37 0
  let command ← (match RequestCommand.fromByte cmdByte with
    | some command => .ok command
    | none => .error ("unknown VMess command: " ++ toString cmdByte.toNat))
  let (address,port,offset) ← decodeTarget command plaintext
  let paddingLen := (plaintext.getD 35 0 >>> 4).toNat
  verifyChecksum plaintext (offset + paddingLen)
  .ok {
    version := plaintext.getD 0 0
    command
    option := plaintext.getD 34 0
    security := SecurityType.fromByte (plaintext.getD 35 0 &&& 0x0f)
    port
    address
    user := none }

-- The secrets are stored before the rest of the header is looked at, and stay when it is refused.
def ServerSession.adopt (crypto : Primitives) (server : ServerSession) (plaintext : Bytes) (enough : 38 ≤ plaintext.length) :
    ServerSession :=
  let iv : Octets 16 := ⟨(plaintext.drop 1).take 16,by simp; omega⟩
  let key : Octets 16 := ⟨(plaintext.drop 17).take 16,by simp; omega⟩
  { server with
    requestBodyIv := iv
    requestBodyKey := key
    responseHeader := plaintext.getD 33 0
    responseBodyKey := responseSecret crypto key
    responseBodyIv := responseSecret crypto iv }

def ServerSession.remember (server : ServerSession) (history : SessionHistory) : ServerSession :=
  { server with sessionHistory := history }

def ServerSession.decodeRequestHeader (crypto : Primitives) (server : ServerSession) (now : Nat) (authId : Octets 16)
    (data : Bytes) (cmdKey : Octets 16) : Except String RequestHeader × ServerSession :=
  match openVMessAEADHeader crypto cmdKey authId data with
  | .error e => (.error e,server)
  | .ok (plaintext,_,_) =>
    if short : plaintext.length < 38 then (.error "request header too short",server)
    else
      let server := server.adopt crypto plaintext (by omega)
      match decodeText plaintext with
      | .error e => (.error e,server)
      | .ok header =>
        let session : SessionID := ⟨cmdKey,server.requestBodyKey,server.requestBodyIv⟩
        match server.sessionHistory.addIfNotExists now session with
        | (false,history) => (.error "replay attack detected",server.remember history)
        | (true,history) => (.ok header,server.remember history)

theorem packed_nibbles (padding : UInt8) (security : SecurityType) : (((padding &&& 0x0f) <<< 4) ||| security.asByte) &&& 0x0f = security.asByte ∧
      (((padding &&& 0x0f) <<< 4) ||| security.asByte) >>> 4 = padding &&& 0x0f := by
  have every : ∀ n : Fin 256, ∀ security ∈ [SecurityType.unknown,.auto,.aes128Gcm,.chaCha20Poly1305,.none,.zero],
      (((UInt8.ofNat n.val &&& 0x0f) <<< 4) ||| security.asByte) &&& 0x0f = security.asByte ∧
        (((UInt8.ofNat n.val &&& 0x0f) <<< 4) ||| security.asByte) >>> 4 = UInt8.ofNat n.val &&& 0x0f := by
    decide +kernel
  have held := every ⟨padding.toNat,padding.toNat_lt⟩ security (by cases security <;> simp)
  rwa [UInt8.ofNat_toNat] at held

structure Layout (plaintext : Bytes) (version : UInt8) (iv key : Octets 16) (responseHeader option packed command : UInt8)
    (rest : Bytes) : Prop where
  length : plaintext.length = 38 + rest.length
  version : plaintext.getD 0 0 = version
  iv : (plaintext.drop 1).take 16 = iv.val
  key : (plaintext.drop 17).take 16 = key.val
  responseHeader : plaintext.getD 33 0 = responseHeader
  option : plaintext.getD 34 0 = option
  packed : plaintext.getD 35 0 = packed
  command : plaintext.getD 37 0 = command
  rest : plaintext.drop 38 = rest

theorem layout (version) (iv key : Octets 16) (responseHeader option packed reserved command) (rest : Bytes) :
    Layout (version :: (iv.val ++ (key.val ++ (responseHeader :: option :: packed :: reserved :: command :: rest))))
      version iv key responseHeader option packed command rest := by
  have ivWidth := iv.property
  have keyWidth := key.property
  have front : ((version :: iv.val) ++ key.val).length = 33 := by simp [ivWidth,keyWidth]
  have tail : ∀ k, (version :: (iv.val ++ (key.val ++ (responseHeader :: option :: packed :: reserved :: command :: rest)))).getD
      (33 + k) 0 = (responseHeader :: option :: packed :: reserved :: command :: rest).getD k 0 := by
    intro k
    have found := getD_front front (responseHeader :: option :: packed :: reserved :: command :: rest) k
    rwa [append_assoc] at found
  refine ⟨?_,rfl,?_,?_,tail 0,tail 1,tail 2,tail 4,?_⟩
  · simp
    omega
  · exact take_front ivWidth _
  · rw [List.drop_succ_cons,drop_front ivWidth,take_front keyWidth]
  · have cut := drop_front front (responseHeader :: option :: packed :: reserved :: command :: rest)
    rw [append_assoc,List.cons_append] at cut
    rw [show 38 = 33 + 5 by rfl,← drop_drop,cut]
    rfl

theorem decodeAddress_encode (address rest) (fits : Fits address) :
    decodeAddress (encodeAddress address ++ rest) = .ok (address,(encodeAddress address).length) := by
  cases address with
  | ipv4 octets =>
    have length : (encodeAddress (.ipv4 octets)).length = 5 := congrArg (· + 1) octets.property
    rw [length]
    exact readAddress_ipv4 addressTexts octets rest
  | ipv6 octets =>
    have length : (encodeAddress (.ipv6 octets)).length = 17 := congrArg (· + 1) octets.property
    rw [length]
    exact readAddress_ipv6 addressTexts octets rest
  | domain name =>
    have length : (encodeAddress (.domain name)).length = 2 + (asBytes name).length := by simp [encodeAddress]; omega
    rw [length]
    exact readAddress_domain addressTexts rest fits

-- A request without an own target arrives with the unspecified one.
def Targeted : RequestCommand → Prop
  | .tcp | .udp => True
  | _ => False

instance (command : RequestCommand) : Decidable (Targeted command) :=
  match command with
  | .tcp | .udp => isTrue trivial
  | .mux | .rvs => isFalse id

def received (header : RequestHeader) : RequestHeader :=
  if Targeted header.command then { header with user := none }
  else { header with address := .ipv4 (.zero 4), port := ⟨0⟩, user := none }

theorem encodeTarget_eq (header) : encodeTarget header = if Targeted header.command then u16ToBe header.port.value ++ encodeAddress header.address else [] := by
  unfold encodeTarget
  cases header.command <;> rfl

theorem decodeTarget_eq (command plaintext) : decodeTarget command plaintext = if Targeted command then
      if plaintext.length < 38 + 2 then .error "truncated port"
      else (decodeAddress (plaintext.drop 40)).bind fun (address,consumed) =>
        .ok (address,⟨be16 ((plaintext.drop 38).take 2)⟩,40 + consumed)
    else .ok (.ipv4 (.zero 4),⟨0⟩,38) := by
  cases command <;> rfl

theorem decodeTarget_encode (header) (carried : Targeted header.command → Fits header.address)
    (target : plaintext.drop 38 = encodeTarget header ++ rest) : decodeTarget header.command plaintext =
      .ok ((received header).address,(received header).port,38 + (encodeTarget header).length) := by
  rw [decodeTarget_eq,received]
  rw [encodeTarget_eq] at target ⊢
  by_cases targeted : Targeted header.command
  · rw [if_pos targeted,append_assoc] at target
    have width := u16ToBe_length header.port.value
    have long : ¬ plaintext.length < 38 + 2 := by
      have length := congrArg List.length target
      rw [length_drop,length_append] at length
      omega
    have behind : plaintext.drop 40 = encodeAddress header.address ++ rest := by
      rw [show 40 = 38 + 2 by rfl,← drop_drop,target,drop_front width]
    rw [if_pos targeted,if_pos targeted,if_pos targeted,if_neg long,behind,
      decodeAddress_encode header.address rest (carried targeted),target,take_front width,be16_roundtrip,length_append,← Nat.add_assoc]
    rfl
  · rw [if_neg targeted,if_neg targeted,if_neg targeted]
    rfl

theorem verifyChecksum_written (text) : verifyChecksum (text ++ u32ToBe (authenticate text)) text.length = .ok () := by
  have sum : ((text ++ u32ToBe (authenticate text)).drop text.length).take 4 = u32ToBe (authenticate text) := by
    rw [List.drop_left,List.take_of_length_le (by simp)]
  rw [verifyChecksum,length_append,u32ToBe_length,if_neg (by omega),sum,if_neg (by simp)]

theorem decodeText_address (decoded : decodeText plaintext = .ok request)
    (known : RequestCommand.fromByte (plaintext.getD 37 0) = some command) (targeted : Targeted command) :
    ∃ consumed, decodeAddress (plaintext.drop 40) = .ok (request.address,consumed) := by
  simp only [decodeText,known,ok_bind,decodeTarget_eq,if_pos targeted] at decoded
  split at decoded
  · cases decoded
  · cases found : decodeAddress _ with
    | error e => rw [found] at decoded; cases decoded
    | ok pair =>
      obtain ⟨address,consumed⟩ := pair
      rw [found] at decoded
      simp only [Except.bind,ok_bind] at decoded
      obtain ⟨_,-,rest⟩ := checked_bind decoded
      cases rest
      exact ⟨consumed,rfl⟩

def ClientSession.plaintext (client : ClientSession crypto) (header : RequestHeader) (draws : HeaderDraws) : Bytes :=
  client.requestText header draws ++ u32ToBe (authenticate (client.requestText header draws))

theorem plaintext_layout (client : ClientSession crypto) (header draws) :
    Layout (client.plaintext header draws) header.version client.requestBodyIv client.requestBodyKey client.responseHeader
      header.option ((draws.padLen <<< 4) ||| header.security.asByte) header.command.asByte
      (encodeTarget header ++ (draws.padded ++ u32ToBe (authenticate (client.requestText header draws)))) := by
  have whole := layout header.version client.requestBodyIv client.requestBodyKey client.responseHeader header.option
    ((draws.padLen <<< 4) ||| header.security.asByte) 0 header.command.asByte
    (encodeTarget header ++ (draws.padded ++ u32ToBe (authenticate (client.requestText header draws))))
  simpa only [ClientSession.plaintext,ClientSession.requestText,List.cons_append,append_assoc] using whole

theorem plaintext_address (client : ClientSession crypto) (header draws)
    (targeted : Targeted header.command) : ∃ rest, (client.plaintext header draws).drop 40 = encodeAddress header.address ++ rest := by
  have rest := (plaintext_layout client header draws).rest
  rw [encodeTarget_eq,if_pos targeted] at rest
  have behind := congrArg (List.drop 2) rest
  rw [drop_drop] at behind
  exact ⟨_,behind⟩

@[simp] theorem padded_length (draws : HeaderDraws) : draws.padded.length = draws.padLen.toNat := by simp [HeaderDraws.padded]

theorem requestText_length (client : ClientSession crypto) (header draws) :
    (client.requestText header draws).length = 38 + (encodeTarget header).length + draws.padLen.toNat := by
  have length := (plaintext_layout client header draws).length
  simp only [ClientSession.plaintext,length_append,padded_length] at length
  omega

theorem decodeText_encode (client : ClientSession crypto) (header draws) (carried : Targeted header.command → Fits header.address) :
    decodeText (client.plaintext header draws) = .ok (received header) := by
  have fields := plaintext_layout client header draws
  have nibbles := packed_nibbles draws.padding header.security
  have target := decodeTarget_encode header carried fields.rest
  have sum := verifyChecksum_written (client.requestText header draws)
  rw [requestText_length] at sum
  have pad : (draws.padLen <<< 4 ||| header.security.asByte) >>> 4 = draws.padLen := nibbles.2
  have security : (draws.padLen <<< 4 ||| header.security.asByte) &&& 0x0f = header.security.asByte := nibbles.1
  simp only [decodeText,fields.command,command_roundtrip,ok_bind,target,fields.packed,pad,security,security_roundtrip]
  rw [ClientSession.plaintext,sum,← ClientSession.plaintext]
  simp only [fields.option,received]
  split <;> rfl

def ServerSession.informed (crypto : Primitives) (plaintext : Bytes) (enough : 38 ≤ plaintext.length) (history : SessionHistory) :
    ServerSession :=
  ((ServerSession.new .new).adopt crypto plaintext enough).remember history

theorem decode_unseen (opened : openVMessAEADHeader crypto cmdKey authId data = .ok (plaintext,drain,count))
    (enough : 38 ≤ plaintext.length) (decoded : decodeText plaintext = .ok header) (now) :
    ∃ history, (ServerSession.new .new).decodeRequestHeader crypto now authId data cmdKey = (.ok header,.informed crypto plaintext enough history) := by
  simp only [ServerSession.decodeRequestHeader,opened,dif_neg (Nat.not_lt.mpr enough),decoded]
  exact ⟨_,rfl⟩

theorem decode_sound {server : ServerSession} (decoded : server.decodeRequestHeader crypto now authId data cmdKey = (.ok header,after)) :
    ∃ plaintext drain count, openVMessAEADHeader crypto cmdKey authId data = .ok (plaintext,drain,count) ∧
      38 ≤ plaintext.length ∧ decodeText plaintext = .ok header := by
  rw [ServerSession.decodeRequestHeader] at decoded
  cases opened : openVMessAEADHeader crypto cmdKey authId data with
  | error e => rw [opened] at decoded; cases decoded
  | ok triple =>
    obtain ⟨plaintext,drain,count⟩ := triple
    rw [opened] at decoded
    dsimp only at decoded
    split at decoded
    · cases decoded
    · rename_i long
      cases text : decodeText plaintext with
      | error e => rw [text] at decoded; cases decoded
      | ok request =>
        rw [text] at decoded
        dsimp only at decoded
        split at decoded
        · cases decoded
        · cases decoded
          exact ⟨plaintext,drain,count,rfl,Nat.le_of_not_lt long,text⟩

structure Shares (client : ClientSession crypto) (server : ServerSession) : Prop where
  requestBodyKey : server.requestBodyKey = client.requestBodyKey
  requestBodyIv : server.requestBodyIv = client.requestBodyIv
  responseHeader : server.responseHeader = client.responseHeader
  responseBodyKey : server.responseBodyKey = client.responseBodyKey
  responseBodyIv : server.responseBodyIv = client.responseBodyIv

theorem informed_shares (client : ClientSession crypto) (header draws) (enough : 38 ≤ (client.plaintext header draws).length) (history) :
    Shares client (.informed crypto (client.plaintext header draws) enough history) := by
  have fields := plaintext_layout client header draws
  have key : (ServerSession.informed crypto _ enough history).requestBodyKey = client.requestBodyKey := Subtype.ext fields.key
  have iv : (ServerSession.informed crypto _ enough history).requestBodyIv = client.requestBodyIv := Subtype.ext fields.iv
  refine ⟨key,iv,fields.responseHeader,?_,?_⟩
  · rw [client.keyDerived,← key]
    rfl
  · rw [client.ivDerived,← iv]
    rfl

theorem encodeTarget_length (header) (carried : Targeted header.command → Fits header.address) : (encodeTarget header).length ≤ 259 := by
  rw [encodeTarget_eq]
  split
  · rename_i targeted
    have fits := carried targeted
    rw [length_append,u16ToBe_length]
    cases address : header.address with
    | ipv4 octets | ipv6 octets => simp [encodeAddress,octets.property]
    | domain name =>
      rw [address] at fits
      have short : (asBytes name).length ≤ 255 := fits
      simp only [encodeAddress,List.length_cons]
      omega
  · simp

def SealDraws.authId (crypto : Primitives) (draws : SealDraws) (key : Octets 16) : Octets 16 :=
  createAuthID crypto key draws.timestamp draws.authRand

section
variable (client : ClientSession crypto)
include client

theorem encodeRequestHeader_eq (header cmdKey) : client.encodeRequestHeader header cmdKey draws = (draws.sealing.authId crypto cmdKey).val ++
      sealedHeader crypto cmdKey (draws.sealing.authId crypto cmdKey) draws.sealing.connNonce (client.plaintext header draws) := rfl

theorem plaintext_enough (header draws) : 38 ≤ (client.plaintext header draws).length := by
  rw [(plaintext_layout client header draws).length]
  omega

theorem plaintext_length (header draws) (carried : Targeted header.command → Fits header.address) : (client.plaintext header draws).length ≤ 556 := by
  have target := encodeTarget_length header carried
  have pad := draws.padLen.toNat_lt
  rw [ClientSession.plaintext,length_append,requestText_length,u32ToBe_length]
  omega

theorem record_encoded (cmdKey authId connNonce header) (draws) (carried : Targeted header.command → Fits header.address) :
    ∃ lenPlain, Record crypto cmdKey authId (sealedHeader crypto cmdKey authId connNonce (client.plaintext header draws))
      (client.plaintext header draws) lenPlain := by
  have short := plaintext_length client header draws carried
  exact ⟨_,record_sealed cmdKey authId connNonce (by omega)⟩

end

theorem request_header_roundtrip (client : ClientSession crypto) (cmdKey : Octets 16) (draws : HeaderDraws)
    (header : RequestHeader) (now : Nat) (extra : Bytes) (carried : Targeted header.command → Fits header.address) :
    ∃ (authId : Octets 16) (server : ServerSession),
      authId.val = (client.encodeRequestHeader header cmdKey draws).take 16 ∧
      (ServerSession.new .new).decodeRequestHeader crypto now authId
        ((client.encodeRequestHeader header cmdKey draws).drop 16 ++ extra) cmdKey = (.ok (received header),server) ∧
      Shares client server := by
  have authWidth := (draws.sealing.authId crypto cmdKey).property
  obtain ⟨lenPlain,whole⟩ := record_encoded client cmdKey _ draws.sealing.connNonce
    header draws carried
  obtain ⟨history,decoded⟩ := decode_unseen (open_record whole extra) (plaintext_enough client header draws)
    (decodeText_encode client header draws carried) now
  have shared := informed_shares client header draws (plaintext_enough client header draws) history
  rw [encodeRequestHeader_eq,take_front authWidth,drop_front authWidth]
  exact ⟨draws.sealing.authId crypto cmdKey,_,rfl,decoded,shared⟩

def plain : Primitives := exposed (padded 32) (fun _ _ => 0)

def sampleHeader : RequestHeader where
  version := 1
  command := .udp
  option := 5
  security := .chaCha20Poly1305
  port := ⟨53⟩
  address := .domain "dns.example"
  user := none

def sampleSession : SessionDraws := ⟨padded 16 [1,2,3],padded 16 [4,5,6],171⟩

def sampleDraws : HeaderDraws where
  padding := 0x37
  paddingBytes := fun i => UInt8.ofNat i
  sealing := ⟨1700000000,padded 4 [9,8,7,6],padded 8 [1,1,2,3]⟩

theorem request_header_roundtrip_sample : ∃ (authId : Octets 16) (server : ServerSession),
      authId.val = ((ClientSession.new plain sampleSession).encodeRequestHeader sampleHeader (padded 16 [66]) sampleDraws).take 16 ∧
      (ServerSession.new .new).decodeRequestHeader plain 1700000001 authId
        (((ClientSession.new plain sampleSession).encodeRequestHeader sampleHeader (padded 16 [66]) sampleDraws).drop 16 ++ [1,2,3])
        (padded 16 [66]) = (.ok (received sampleHeader),server) ∧
      Shares (ClientSession.new plain sampleSession) server :=
  request_header_roundtrip _ _ sampleDraws sampleHeader 1700000001 [1,2,3]
    (fun _ => (by decide : (asBytes "dns.example").length ≤ 255))

end AstraCore.VmessHeader
