import AstraCore.AuthenticatedCipher
import AstraCore.ByteCounter
import AstraCore.Crypto
import AstraCore.MuxFrame
import AstraCore.PolledStream
import Mathlib.Data.List.Nodup

namespace AstraCore.Shadowsocks2022
open CheckedBytes NetAddress AuthenticatedCipher ByteCounter LossyUtf8 PolledStream List
variable {cap : Nat}

inductive CipherType where
  | aes128Gcm
  | aes256Gcm
  | xChaCha20Poly1305
deriving DecidableEq, Repr

def CipherType.keySize : CipherType → Nat
  | .aes128Gcm => 16
  | _ => 32

def CipherType.nonceSize : CipherType → Nat
  | .xChaCha20Poly1305 => 24
  | _ => 12

theorem CipherType.keySize_le (c : CipherType) : c.keySize ≤ 32 := by cases c <;> decide
theorem CipherType.nonceSize_ge (c : CipherType) : 12 ≤ c.nonceSize := by cases c <;> decide

structure Suite where
  aead : (c : CipherType) → Aead c.keySize c.nonceSize
  blake3DeriveKey : String → Bytes → Octets 32
  encryptBlock : Octets 16 → Octets 16 → Octets 16
  decryptBlock : Octets 16 → Octets 16 → Octets 16
  block_inverse : ∀ key block, decryptBlock key (encryptBlock key block) = block
  invalidLength : String

variable (suite : Suite) {c : CipherType}

def deriveSessionKey (c : CipherType) (psk salt : Bytes) : Octets c.keySize :=
  Crypto.Octets.front (suite.blake3DeriveKey "shadowsocks 2022 session subkey" (psk ++ salt)) c.keySize c.keySize_le

def CipherType.family : CipherType → String
  | .xChaCha20Poly1305 => "xchacha"
  | _ => "aes"

def aeadEncrypt (c : CipherType) (key : Bytes) (nonce : Octets c.nonceSize) (data : Bytes) : Except String Bytes :=
  if sized : key.length = c.keySize then
    match (suite.aead c).encrypt ⟨key,sized⟩ nonce [] data with
    | .ok ciphertext => .ok ciphertext
    | .error e => .error (c.family ++ " encrypt: " ++ e)
  else .error ("key: " ++ suite.invalidLength)

def aeadDecrypt (c : CipherType) (key : Bytes) (nonce : Octets c.nonceSize) (data : Bytes) : Except String Bytes :=
  if sized : key.length = c.keySize then
    match (suite.aead c).decrypt ⟨key,sized⟩ nonce [] data with
    | .ok plaintext => .ok plaintext
    | .error e => .error (c.family ++ " decrypt: " ++ e)
  else .error ("key: " ++ suite.invalidLength)

theorem aead_inverse (key : Octets c.keySize) (nonce) (small : data.length ≤ 2^36) :
    ∃ ciphertext, aeadEncrypt suite c key.val nonce data = .ok ciphertext ∧ ciphertext.length = data.length + 16 ∧
      aeadDecrypt suite c key.val nonce ciphertext = .ok data := by
  obtain ⟨ciphertext,encrypted,width,decrypted⟩ := (suite.aead c).seals key nonce [] data small
  refine ⟨ciphertext,?_,width,?_⟩
  · rw [aeadEncrypt,dif_pos key.property,encrypted]
  · rw [aeadDecrypt,dif_pos key.property,decrypted]

theorem aeadDecrypt_length (opened : aeadDecrypt suite c key nonce data = .ok plaintext) : data.length = plaintext.length + 16 := by
  rw [aeadDecrypt] at opened
  split at opened
  · split at opened
    · rename_i found
      cases opened
      exact (suite.aead c).opens _ _ _ _ _ found
    · cases opened
  · cases opened

def unchanged (_ block : Octets 16) : Octets 16 := block

theorem unchanged_inverse (key block) : unchanged key (unchanged key block) = block := rfl

-- Functions that keep the laws and hide nothing, for runs on fixed inputs: tags show the first byte of the key and the
-- last of the nonce, and a derived key is its material backwards.
def exposedSuite : Suite where
  aead _ := exposed (fun key => key.val.headD 0) (fun nonce => nonce.val.getLastD 0)
  blake3DeriveKey _ material := Crypto.padded 32 material.reverse
  encryptBlock := unchanged
  decryptBlock := unchanged
  block_inverse := unchanged_inverse
  invalidLength := "Invalid Length"

structure Written (c : CipherType) where
  bytes : Bytes
  nonce : Octets c.nonceSize
  used : List (Octets c.nonceSize)

def writeChunk (key : Bytes) (nonce : Octets c.nonceSize) (data : Bytes) : Except String (Written c) := do
  let lenCt ← aeadEncrypt suite c key nonce (u16ToBe (UInt16.ofNat data.length))
  let payloadCt ← aeadEncrypt suite c key (next nonce) data
  .ok ⟨lenCt ++ payloadCt,next (next nonce),[nonce,next nonce]⟩

def maxPkt : Nat := 16383

def announced : Bytes → Reading Nat
  | high :: low :: _ => .ok (be16 [high,low]).toNat
  | _ => .error (.panic .sliceIndex)

-- A stream that ends before the length has been read is the end of the chunks; one that ends later is an error.
def readChunk (key : Bytes) (nonce : Octets c.nonceSize) (stream : Stream cap) :
    Reading (Option Bytes × Octets c.nonceSize × Stream cap) :=
  match readExact 18 stream with
  | .error .waits => .error .waits
  | .error _ => .ok (none,nonce,⟨[],stream.ending⟩)
  | .ok (lenEnc,stream) => do
    let lenPt ← fallible (aeadDecrypt suite c key nonce lenEnc.val)
    let payloadLen ← announced lenPt
    if payloadLen = 0 ∨ maxPkt < payloadLen then .error (.error "bad len") else
      let (payloadEnc,stream) ← readExact (payloadLen + 16) stream
      let payload ← fallible (aeadDecrypt suite c key (next nonce) payloadEnc.val)
      .ok (some payload,next (next nonce),stream)

def writeChunks (key : Bytes) : Octets c.nonceSize → List Bytes → Except String (List (Written c))
  | _,[] => .ok []
  | nonce,data :: rest => do
    let written ← writeChunk suite key nonce data
    let later ← writeChunks key written.nonce rest
    .ok (written :: later)

inductive ReadsAll (key : Bytes) : Octets c.nonceSize → Stream cap → List (Bytes × Octets c.nonceSize) → Prop where
  | ended (last : readChunk suite key nonce stream = .ok (none,left,rest)) : ReadsAll key nonce stream []
  | chunk (first : readChunk suite key nonce stream = .ok (some data,left,rest)) (later : ReadsAll key left rest chunks) :
      ReadsAll key nonce stream ((data,left) :: chunks)

theorem announced_length (data : Bytes) (size : data.length ≤ maxPkt) : announced (u16ToBe (UInt16.ofNat data.length)) = .ok data.length := by
  have small : data.length < 2^16 := Nat.lt_of_le_of_lt size (by decide)
  change Except.ok (be16 (u16ToBe _)).toNat = _
  rw [be16_roundtrip,UInt16.toNat_ofNat_of_lt' small]

theorem chunk_exchanged (key : Octets c.keySize) (nonce : Octets c.nonceSize) (present : 0 < data.length) (size : data.length ≤ maxPkt) :
    ∃ bytes, writeChunk suite key.val nonce data = .ok ⟨bytes,next (next nonce),[nonce,next nonce]⟩ ∧
      ∀ {cap} (stream : Stream cap) later, stream.text = bytes ++ later →
        ∃ rest, readChunk suite key.val nonce stream = .ok (some data,next (next nonce),rest) ∧ rest.text = later ∧ rest.ending = stream.ending := by
  have small : data.length ≤ 2^36 := Nat.le_trans size (by decide)
  obtain ⟨lenCt,lenSealed,lenWidth,lenOpened⟩ :=
    aead_inverse suite key nonce (show (u16ToBe (UInt16.ofNat data.length)).length ≤ 2^36 by rw [u16ToBe_length]; decide)
  obtain ⟨payloadCt,sealed,width,opened⟩ := aead_inverse suite key (next nonce) small
  rw [u16ToBe_length] at lenWidth
  refine ⟨lenCt ++ payloadCt,?_,?_⟩
  · rw [writeChunk,lenSealed,sealed]
    rfl
  · intro cap stream later parts
    rw [append_assoc] at parts
    obtain ⟨middle,lenRead,middleText,middleEnding⟩ := readExact_enough stream parts lenWidth
    obtain ⟨rest,read,restText,restEnding⟩ := readExact_enough middle middleText width
    refine ⟨rest,?_,restText,restEnding.trans middleEnding⟩
    have within : ¬ (data.length = 0 ∨ maxPkt < data.length) := by omega
    rw [readChunk,lenRead]
    dsimp only
    rw [lenOpened,fallible,ok_bind,announced_length data size,ok_bind,if_neg within,read,ok_bind]
    rw [opened]
    rfl

theorem readChunk_length {left : Octets c.nonceSize} (read : readChunk suite key nonce stream = .ok (some data,left,rest)) :
    stream.text.length = data.length + 34 + rest.text.length := by
  rw [readChunk] at read
  split at read
  · cases read
  · cases read
  · rename_i lenEnc middle lenRead
    obtain ⟨lenPt,-,read⟩ := checked_bind read
    obtain ⟨payloadLen,-,read⟩ := checked_bind read
    split at read
    · cases read
    · obtain ⟨⟨payloadEnc,behind⟩,payloadRead,read⟩ := checked_bind read
      obtain ⟨payload,decrypted,read⟩ := checked_bind read
      cases read
      have first := congrArg List.length (readExact_ok lenRead).1
      have second := congrArg List.length (readExact_ok payloadRead).1
      have sealed : payloadEnc.val.length = data.length + 16 := by
        cases opened : aeadDecrypt suite c key (next nonce) payloadEnc.val with
        | error e => rw [opened] at decrypted; cases decrypted
        | ok plaintext =>
          rw [opened] at decrypted
          cases decrypted
          exact aeadDecrypt_length suite opened
      rw [length_append] at first
      rw [length_append] at second
      omega

theorem ReadsAll.length {chunks} (reads : ReadsAll suite key nonce stream chunks) :
    (chunks.flatMap Prod.fst).length + 34 * chunks.length ≤ stream.text.length := by
  induction reads with
  | ended _ => exact Nat.zero_le _
  | chunk first _ ih =>
    have width := readChunk_length suite first
    rw [flatMap_cons,length_append,length_cons]
    dsimp only
    omega

def Sized (chunks : List Bytes) : Prop := ∀ chunk ∈ chunks, 0 < chunk.length ∧ chunk.length ≤ maxPkt

theorem chunks_exchanged (key : Octets c.keySize) (start : Octets c.nonceSize) (sized : Sized chunks) :
    ∃ written, writeChunks suite key.val start chunks = .ok written ∧ written.flatMap Written.used = (List.range (2 * chunks.length)).map (next^[·] start) ∧
      ∀ {cap} (stream : Stream cap), stream.text = written.flatMap Written.bytes → stream.ending = .closed →
        ∃ received, ReadsAll suite key.val start stream received ∧ received.map Prod.fst = chunks ∧ received.map Prod.snd = written.map Written.nonce := by
  induction chunks generalizing start with
  | nil =>
    refine ⟨[],rfl,rfl,?_⟩
    intro cap stream empty closed
    have last : readChunk suite key.val start stream = .ok (none,start,⟨[],stream.ending⟩) := by
      rw [readChunk,readExact_short stream (by rw [empty]; exact Nat.succ_pos 17),closed]
      rfl
    exact ⟨[],.ended last,rfl,rfl⟩
  | cons data chunks ih =>
    obtain ⟨present,size⟩ := sized data (mem_cons_self ..)
    obtain ⟨bytes,wrote,read⟩ := chunk_exchanged suite key start present size
    obtain ⟨written,later,used,received⟩ := ih (next (next start)) fun chunk among => sized chunk (mem_cons_of_mem _ among)
    refine ⟨⟨bytes,next (next start),[start,next start]⟩ :: written,?_,?_,?_⟩
    · rw [writeChunks,wrote,ok_bind,later]
      rfl
    · rw [flatMap_cons,used,length_cons,show 2 * (chunks.length + 1) = 2 + 2 * chunks.length by omega,range_add,map_append,map_map]
      refine congrArg ([start,next start] ++ ·) (map_congr_left fun k _ => ?_)
      exact (Function.iterate_add_apply next k 2 start).symm.trans (by rw [Nat.add_comm]; rfl)
    · intro cap stream parts closed
      obtain ⟨rest,first,text,ending⟩ := read stream _ parts
      obtain ⟨others,reads,same,nonces⟩ := received rest text (ending.trans closed)
      refine ⟨(data,next (next start)) :: others,.chunk first reads,?_,?_⟩
      · rw [map_cons,same]
      · rw [map_cons,map_cons,nonces]

theorem counters_distinct (start : Octets n) (few : k ≤ 256^n) : ((List.range k).map (next^[·] start)).Nodup := by
  refine Nodup.map_on ?_ nodup_range
  intro i below j under same
  rw [mem_range] at below under
  exact iterate_distinct start (by omega) (by omega) same

theorem chunk_stream_roundtrip (key : Octets c.keySize) (start : Octets c.nonceSize) (chunks : List Bytes) (few : chunks.length < 2^95)
    (sized : Sized chunks) :
    ∃ written, writeChunks suite key.val start chunks = .ok written ∧ (written.flatMap Written.used).Nodup ∧
      ∀ {cap} (stream : Stream cap), stream.text = written.flatMap Written.bytes → stream.ending = .closed →
        ∃ received, ReadsAll suite key.val start stream received ∧ received.map Prod.fst = chunks ∧
          received.map Prod.snd = written.map Written.nonce := by
  obtain ⟨written,wrote,used,read⟩ := chunks_exchanged suite key start sized
  refine ⟨written,wrote,?_,read⟩
  have enough : 256^12 ≤ 256^c.nonceSize := Nat.pow_le_pow_right (by decide) c.nonceSize_ge
  rw [used]
  exact counters_distinct start (by omega)

def sampleKey : Octets CipherType.aes128Gcm.keySize := Octets.zero _
def sampleNonce : Octets CipherType.aes128Gcm.nonceSize := Octets.zero _

theorem chunk_stream_roundtrip_exposed : ∃ written, writeChunks exposedSuite sampleKey.val sampleNonce [[1],[2,3]] = .ok written ∧
      (written.flatMap Written.used).Nodup ∧
      ∀ {cap} (stream : Stream cap), stream.text = written.flatMap Written.bytes → stream.ending = .closed →
        ∃ received, ReadsAll exposedSuite sampleKey.val sampleNonce stream received ∧
          received.map Prod.fst = [[1],[2,3]] ∧ received.map Prod.snd = written.map Written.nonce :=
  chunk_stream_roundtrip exposedSuite sampleKey sampleNonce [[1],[2,3]] (by decide) (by unfold Sized; decide)

structure Sealing where
  key : Bytes
  nonce : Bytes
  packet : Except String Bytes

def aesEcbEncrypt (key : Bytes) (block : Octets 16) : Octets 16 :=
  if sized : key.length = 16 then suite.encryptBlock ⟨key,sized⟩ block else block

-- `copy_from_slice` panics where an id is too short for its half of the header.
def udpHeader (sessionId pktId : Bytes) : Checked (Octets 16) :=
  if sized : 8 ≤ sessionId.length ∧ 8 ≤ pktId.length then
    .ok ⟨sessionId.take 8 ++ pktId.take 8,by simp; omega⟩
  else .error .sliceIndex

-- The nonce of an AES packet is twelve zero bytes; the random one is drawn for XChaCha20 alone.
def encryptUdp (c : CipherType) (key sessionId pktId : Bytes) (random : Octets c.nonceSize) (data : Bytes) : Checked Sealing :=
  if c = .xChaCha20Poly1305 then
    .ok ⟨key,random.val,(aeadEncrypt suite c key random data).map (random.val ++ ·)⟩
  else do
    let header ← udpHeader sessionId pktId
    let sk := deriveSessionKey suite c key (header.val.take 8)
    let sent := aesEcbEncrypt suite (key.take 16) header
    .ok ⟨sk.val,(Octets.zero c.nonceSize).val,(aeadEncrypt suite c sk.val (Octets.zero c.nonceSize) data).map (sent.val ++ ·)⟩

structure UdpCall (c : CipherType) where
  sessionId : Octets 8
  pktId : Octets 8
  random : Octets c.nonceSize
  data : Bytes

def UdpCall.run (key : Bytes) (call : UdpCall c) : Checked Sealing :=
  encryptUdp suite c key call.sessionId.val call.pktId.val call.random call.data

def UdpCall.header (call : UdpCall c) : Octets 16 :=
  ⟨call.sessionId.val ++ call.pktId.val,by rw [List.length_append,call.sessionId.property,call.pktId.property]⟩

theorem udpHeader_whole (call : UdpCall c) : udpHeader call.sessionId.val call.pktId.val = .ok call.header := by
  have session := call.sessionId.property
  have packet := call.pktId.property
  rw [udpHeader,dif_pos (by omega)]
  refine congrArg Except.ok (Subtype.ext ?_)
  change call.sessionId.val.take 8 ++ call.pktId.val.take 8 = call.sessionId.val ++ call.pktId.val
  rw [take_of_length_le (by omega),take_of_length_le (by omega)]

theorem udp_sealed_under (call : UdpCall c) (aes : c ≠ .xChaCha20Poly1305) (key) :
    call.run suite key = .ok ⟨(deriveSessionKey suite c key call.sessionId.val).val,(Octets.zero c.nonceSize).val,
      (aeadEncrypt suite c (deriveSessionKey suite c key call.sessionId.val).val (Octets.zero c.nonceSize) call.data).map
        ((aesEcbEncrypt suite (key.take 16) call.header).val ++ ·)⟩ := by
  have salt : call.header.val.take 8 = call.sessionId.val := take_front call.sessionId.property _
  rw [UdpCall.run,encryptUdp,if_neg aes,udpHeader_whole,ok_bind,salt]

def Apart (key : Bytes) (first second : UdpCall c) : Prop :=
  ∀ one two, first.run suite key = .ok one → second.run suite key = .ok two → (one.key,one.nonce) ≠ (two.key,two.nonce)

theorem apart_iff (first second : UdpCall c) (aes : c ≠ .xChaCha20Poly1305) (injective : ∀ salt other : Octets 8,
      deriveSessionKey suite c key salt.val = deriveSessionKey suite c key other.val → salt = other) :
    Apart suite key first second ↔ first.sessionId ≠ second.sessionId := by
  have one := udp_sealed_under suite first aes key
  have two := udp_sealed_under suite second aes key
  constructor
  · intro apart same
    refine apart _ _ one two ?_
    rw [same]
  · rintro other _ _ ran also same
    cases one.symm.trans ran
    cases two.symm.trans also
    exact other (injective _ _ (Subtype.ext (congrArg Prod.fst same)))

theorem udp_nonces_fresh_iff (aes : c ≠ .xChaCha20Poly1305) (key : Bytes) (calls : List (UdpCall c))
    (injective : ∀ salt other : Octets 8,
      deriveSessionKey suite c key salt.val = deriveSessionKey suite c key other.val → salt = other) :
    calls.Pairwise (Apart suite key) ↔ (calls.map UdpCall.sessionId).Nodup := by
  rw [Nodup,pairwise_map]
  exact List.Pairwise.iff fun first second => apart_iff suite first second aes injective

theorem exposedSuite_injective (c psk) (salt other : Octets 8)
    (same : deriveSessionKey exposedSuite c psk salt.val = deriveSessionKey exposedSuite c psk other.val) : salt = other := by
  have enough : 8 ≤ c.keySize := by cases c <;> decide
  have shown (id : Octets 8) : (deriveSessionKey exposedSuite c psk id.val).val.take 8 = id.val.reverse := by
    change ((((psk ++ id.val).reverse ++ List.replicate 32 0).take 32).take c.keySize).take 8 = _
    have width : id.val.reverse.length = 8 := by rw [length_reverse,id.property]
    rw [take_take,take_take,Nat.min_eq_left enough,Nat.min_eq_left (by decide),reverse_append,append_assoc,take_front width]
  refine Subtype.ext (reverse_injective ?_)
  rw [← shown salt,same,shown other]

def firstPacket : UdpCall .aes128Gcm := ⟨Octets.zero 8,Octets.zero 8,Octets.zero 12,[7]⟩
def secondPacket : UdpCall .aes128Gcm := ⟨Octets.zero 8,⟨[0,0,0,0,0,0,0,1],rfl⟩,Octets.zero 12,[8]⟩

theorem udp_nonces_fresh_iff_exposed : [firstPacket,secondPacket].Pairwise (Apart exposedSuite sampleKey.val) ↔
      ([firstPacket,secondPacket].map UdpCall.sessionId).Nodup :=
  udp_nonces_fresh_iff exposedSuite (by decide) _ _ (exposedSuite_injective .aes128Gcm _)

theorem udp_session_reuses_nonce : ([firstPacket,secondPacket].map fun call => (call.sessionId,call.pktId)).Nodup ∧
      (∀ salt other : Octets 8, deriveSessionKey exposedSuite .aes128Gcm sampleKey.val salt.val =
        deriveSessionKey exposedSuite .aes128Gcm sampleKey.val other.val → salt = other) ∧
      ¬ [firstPacket,secondPacket].Pairwise (Apart exposedSuite sampleKey.val) := by
  refine ⟨by decide,exposedSuite_injective .aes128Gcm _,?_⟩
  intro apart
  have one := udp_sealed_under exposedSuite firstPacket (by decide) sampleKey.val
  have two := udp_sealed_under exposedSuite secondPacket (by decide) sampleKey.val
  exact rel_of_pairwise_cons apart (mem_singleton_self _) _ _ one two rfl

def encodeTarget : Address → UInt16 → Bytes
  | .ipv4 octets,port => 1 :: (octets.val ++ u16ToBe port)
  | .domain name,port => 2 :: UInt8.ofNat (asBytes name).length :: (asBytes name ++ u16ToBe port)
  | .ipv6 octets,port => 3 :: (octets.val ++ u16ToBe port)

end AstraCore.Shadowsocks2022
