import AstraCore.AuthenticatedCipher
import AstraCore.ByteCounter
import AstraCore.Crypto
import AstraCore.MuxFrame
import AstraCore.PolledStream

namespace AstraCore.Shadowsocks
open CheckedBytes NetAddress AuthenticatedCipher ByteCounter LossyUtf8 PolledStream
open MuxFrame (Fits)
open List (append_assoc length_append length_cons)
variable {cap : Nat}

inductive CipherType where
  | aes128Gcm
  | aes256Gcm
  | chacha20Poly1305
  | xChacha20Poly1305
  | none
deriving DecidableEq, Repr

def CipherType.keySize : CipherType → Nat
  | .aes128Gcm => 16
  | .aes256Gcm => 32
  | .chacha20Poly1305 => 32
  | .xChacha20Poly1305 => 32
  | .none => 0

def CipherType.ivSize (c : CipherType) : Nat := c.keySize

def CipherType.nonceSize : CipherType → Nat
  | .aes128Gcm => 12
  | .aes256Gcm => 12
  | .chacha20Poly1305 => 12
  | .xChacha20Poly1305 => 24
  | .none => 0

def CipherType.isAead (c : CipherType) : Bool := c != .none

theorem CipherType.nonceSize_le (c : CipherType) : c.nonceSize ≤ 24 := by cases c <;> decide

-- The functions of the cryptographic crates. The AEAD of `none` is never asked for.
structure Suite where
  aead : (c : CipherType) → Aead c.keySize c.nonceSize
  hkdfSha1 : (secret salt : Bytes) → (n : Nat) → Octets n
  md5 : Bytes → Octets 16

-- Functions that keep the laws and hide nothing, for runs on fixed inputs: tags show the first byte of the key and the
-- last of the nonce, and a derived key is the key it is derived from.
def exposedSuite : Suite where
  aead _ := exposed (fun key => key.val.headD 0) (fun nonce => nonce.val.getLastD 0)
  hkdfSha1 secret _ n := Crypto.padded n secret
  md5 := Crypto.padded 16

variable (suite : Suite) {c : CipherType}

def createAuthenticator (c : CipherType) (key iv : Bytes) : Checked (Octets c.keySize × Octets c.nonceSize) :=
  if c.isAead then .ok (suite.hkdfSha1 key iv c.keySize,Octets.zero c.nonceSize) else .error .conversion

def writeAddress : Address → Checked Bytes
  | .ipv4 octets => .ok (1 :: octets.val)
  | .ipv6 octets => .ok (4 :: octets.val)
  | .domain name =>
    if (asBytes name).length ≤ 255 then .ok (3 :: UInt8.ofNat (asBytes name).length :: asBytes name) else .error .conversion

def addressAt : Bytes → Except String (Address × Nat)
  | [] => .error "empty address data"
  | atype :: rest =>
    if atype = 1 then
      if short : (atype :: rest).length < 1 + 4 then .error "short ipv4 address"
      else .ok (.ipv4 ⟨rest.take 4,List.length_take_of_le (by simp at short; omega)⟩,1 + 4)
    else if atype = 4 then
      if short : (atype :: rest).length < 1 + 16 then .error "short ipv6 address"
      else .ok (.ipv6 ⟨rest.take 16,List.length_take_of_le (by simp at short; omega)⟩,1 + 16)
    else if atype = 3 then
      if (atype :: rest).length < 1 + 1 then .error "short domain length"
      else
        let dlen := (rest.getD 0 0).toNat
        if (atype :: rest).length < 2 + dlen then .error "short domain data"
        else
          match fromUtf8 ((rest.drop 1).take dlen) with
          | some name => .ok (.domain name,2 + dlen)
          | Option.none => .error "invalid domain"
    else .error ("unknown address type: " ++ toString atype.toNat)

def readAddress (data : Bytes) : Except String (Destination × Nat) := do
  let (address,offset) ← addressAt data
  if data.length < offset + 2 then .error "short port" else
    .ok (tcpDestination address ⟨be16 ((data.drop offset).take 2)⟩,offset + 2)

structure SessionCipher (c : CipherType) where
  cipher : Octets c.keySize
  nonce : Octets c.nonceSize

def SessionCipher.new (c : CipherType) (key iv : Bytes) : Checked (SessionCipher c) := do
  let (cipher,nonce) ← createAuthenticator suite c key iv
  .ok ⟨cipher,nonce⟩

section
variable (session : SessionCipher c)

def SessionCipher.encryptChunk (plaintext : Bytes) : Except String (Bytes × SessionCipher c) := do
  let size := u16ToBe (UInt16.ofNat (c.nonceSize + plaintext.length + 16))
  let ct ← (suite.aead c).encrypt session.cipher session.nonce size plaintext
  .ok (size ++ session.nonce.val ++ ct,{session with nonce := next session.nonce})

def SessionCipher.decryptChunk (ciphertext size : Bytes) : Except String (Bytes × SessionCipher c) := do
  let pt ← (suite.aead c).decrypt session.cipher session.nonce size ciphertext
  .ok (pt,{session with nonce := next session.nonce})

def SessionCipher.encryptFirstChunk (address : Address) (port : UInt16) :
    Reading (Bytes × SessionCipher c) := do
  let written ← faulty (writeAddress address)
  fallible (session.encryptChunk suite (written ++ u16ToBe port))

end

def SessionCipher.encryptChunks : SessionCipher c → List Bytes → Except String (List Bytes)
  | _,[] => .ok []
  | session,plaintext :: rest => do
    let (chunk,session) ← session.encryptChunk suite plaintext
    let later ← encryptChunks session rest
    .ok (chunk :: later)

theorem address_roundtrip (fits : Fits address) : ∃ written, writeAddress address = .ok written ∧ written.length ≤ 257 ∧
      readAddress (written ++ u16ToBe port ++ rest) = .ok (tcpDestination address ⟨port⟩,written.length + 2) := by
  have found (front : Bytes) (read : addressAt (front ++ u16ToBe port ++ rest) = .ok (address,front.length)) :
      readAddress (front ++ u16ToBe port ++ rest) = .ok (tcpDestination address ⟨port⟩,front.length + 2) := by
    have long : ¬ (front ++ u16ToBe port ++ rest).length < front.length + 2 := by
      simp only [length_append,u16ToBe_length]
      omega
    rw [readAddress,read,ok_bind]
    dsimp only
    rw [if_neg long,append_assoc,List.drop_left,take_front (u16ToBe_length port),be16_roundtrip]
  cases address with
  | ipv4 octets =>
    have width := octets.property
    refine ⟨_,rfl,by rw [length_cons,width]; decide,found _ ?_⟩
    have front := take_front width (u16ToBe port ++ rest)
    simp [addressAt,width]
  | ipv6 octets =>
    have width := octets.property
    refine ⟨_,rfl,by rw [length_cons,width]; decide,found _ ?_⟩
    have front := take_front width (u16ToBe port ++ rest)
    simp [addressAt,front,width]
  | domain name =>
    have short : (asBytes name).length ≤ 255 := fits
    have size := UInt8.toNat_ofNat_of_lt' (Nat.lt_succ_of_le short)
    have front := take_front (rfl : (asBytes name).length = _) (u16ToBe port ++ rest)
    refine ⟨_,if_pos short,by simp only [length_cons]; omega,found _ ?_⟩
    simp [addressAt,size,front,fromUtf8_asBytes,Nat.add_comm 2]

def announced (size : Octets 2) : Nat := (be16 size.val).toNat

-- A whole chunk as it stands on the wire: the size field and as many bytes as it announces.
structure Frame where
  size : Octets 2
  body : Bytes
  whole : body.length = announced size

def Frame.bytes (frame : Frame) : Bytes := frame.size.val ++ frame.body

theorem Frame.bytes_length (frame : Frame) : frame.bytes.length = 2 + frame.body.length := by
  rw [Frame.bytes,length_append,frame.size.property]

theorem Frame.bytes_inj {two : Frame} (same : one.bytes ++ rest = two.bytes ++ later) : one = two ∧ rest = later := by
  rw [Frame.bytes,Frame.bytes,append_assoc,append_assoc] at same
  obtain ⟨sizes,same⟩ := List.append_inj same (by rw [one.size.property,two.size.property])
  have equal := Subtype.ext sizes
  obtain ⟨bodies,later⟩ := List.append_inj same (by rw [one.whole,two.whole,equal])
  obtain ⟨size,body,whole⟩ := one
  cases equal
  cases bodies
  exact ⟨rfl,later⟩

variable {frame : Frame}

theorem frames_head (starts : frames.flatMap Frame.bytes = frame.bytes ++ rest) : ∃ others, frames = frame :: others ∧
    rest = others.flatMap Frame.bytes := by
  cases frames with
  | nil =>
    have lengths := congrArg List.length starts
    rw [length_append,frame.bytes_length,List.flatMap_nil,List.length_nil] at lengths
    omega
  | cons first others =>
    obtain ⟨same,later⟩ := Frame.bytes_inj starts
    exact ⟨others,by rw [same],later.symm⟩

theorem frames_front (parts : frame.bytes ++ rest = before.flatMap Frame.bytes ++ tail) :
    before = [] ∧ tail = frame.bytes ++ rest ∨ ∃ others, before = frame :: others ∧ rest = others.flatMap Frame.bytes ++ tail := by
  cases before with
  | nil => exact .inl ⟨rfl,parts.symm⟩
  | cons first others =>
    rw [List.flatMap_cons,append_assoc] at parts
    obtain ⟨rfl,behind⟩ := Frame.bytes_inj parts
    exact .inr ⟨others,rfl,behind⟩

def Short (text : Bytes) : Prop :=
  text.length < 2 ∨ ∃ (size : Octets 2) (rest : Bytes), text = size.val ++ rest ∧ rest.length < announced size

theorem framed_or_short (text) : (∃ (frame : Frame) (rest : Bytes), text = frame.bytes ++ rest) ∨ Short text := by
  by_cases short : text.length < 2
  · exact .inr (.inl short)
  · let size : Octets 2 := ⟨text.take 2,List.length_take_of_le (by omega)⟩
    have parts := (List.take_append_drop 2 text).symm
    by_cases long : announced size ≤ (text.drop 2).length
    · refine .inl ⟨⟨size,(text.drop 2).take _,List.length_take_of_le long⟩,(text.drop 2).drop (announced size),?_⟩
      rw [Frame.bytes,append_assoc,List.take_append_drop]
      exact parts
    · exact .inr (.inr ⟨size,text.drop 2,parts,by omega⟩)

-- How both readers of the inbound open a chunk: with the nonce that stands in front of its ciphertext.
def openChunk (cipher : Octets c.keySize) (size : Octets 2) (chunk : Bytes) : Checked (Except String Bytes) :=
  if long : c.nonceSize ≤ chunk.length then
    .ok ((suite.aead c).decrypt cipher ⟨chunk.take c.nonceSize,List.length_take_of_le long⟩ size.val (chunk.drop c.nonceSize))
  else .error .sliceIndex

def Frame.Carries (cipher : Octets c.keySize) (frame : Frame) (plaintext : Bytes) : Prop :=
  openChunk suite cipher frame.size frame.body = .ok (.ok plaintext)

variable {suite} in
theorem Frame.Carries.length {cipher : Octets c.keySize} (carries : frame.Carries suite cipher plaintext) :
    frame.body.length = c.nonceSize + plaintext.length + 16 := by
  rw [Frame.Carries,openChunk] at carries
  split at carries
  · have opened := (suite.aead c).opens _ _ _ _ _ (Except.ok.inj carries)
    rw [List.length_drop] at opened
    omega
  · cases carries

def Announceable (c : CipherType) (plaintext : Bytes) : Prop := c.nonceSize + plaintext.length + 16 < 2^16

section
variable (session : SessionCipher c)

theorem encryptChunk_frame (plaintext) (within : Announceable c plaintext) :
    ∃ frame : Frame, session.encryptChunk suite plaintext = .ok (frame.bytes,{session with nonce := next session.nonce}) ∧
      frame.Carries suite session.cipher plaintext := by
  have small : plaintext.length ≤ 2^36 := by rw [Announceable] at within; omega
  obtain ⟨ct,sealed,width,opened⟩ := (suite.aead c).seals session.cipher session.nonce
    (u16ToBe (UInt16.ofNat (c.nonceSize + plaintext.length + 16))) plaintext small
  have body : (session.nonce.val ++ ct).length = c.nonceSize + plaintext.length + 16 := by
    rw [length_append,session.nonce.property,width,Nat.add_assoc]
  refine ⟨⟨⟨u16ToBe (UInt16.ofNat (c.nonceSize + plaintext.length + 16)),u16ToBe_length _⟩,session.nonce.val ++ ct,?_⟩,?_,?_⟩
  · rw [announced,be16_roundtrip,UInt16.toNat_ofNat_of_lt' within,body]
  · rw [SessionCipher.encryptChunk,sealed]
    rfl
  · have long : c.nonceSize ≤ (session.nonce.val ++ ct).length := by omega
    have nonce : (⟨(session.nonce.val ++ ct).take c.nonceSize,List.length_take_of_le long⟩ : Octets c.nonceSize) = session.nonce :=
      Subtype.ext (take_front session.nonce.property ct)
    change openChunk suite _ _ _ = _
    rw [openChunk,dif_pos long,nonce,drop_front session.nonce.property,opened]

theorem announceable (c) (small : plaintext.length ≤ 0x3FFF) : Announceable c plaintext := by
  have narrow := c.nonceSize_le
  rw [Announceable]
  omega

theorem encryptChunks_frames (chunks) (small : ∀ chunk ∈ chunks, chunk.length ≤ 0x3FFF) :
    ∃ frames, session.encryptChunks suite chunks = .ok (frames.map Frame.bytes) ∧ List.Forall₂ (Frame.Carries suite session.cipher) frames chunks := by
  induction chunks generalizing session with
  | nil => exact ⟨[],rfl,.nil⟩
  | cons plaintext chunks ih =>
    obtain ⟨frame,first,carries⟩ := encryptChunk_frame suite session plaintext
      (announceable c (small _ (List.mem_cons_self ..)))
    obtain ⟨frames,later,others⟩ := ih {session with nonce := next session.nonce}
      fun chunk among => small chunk (List.mem_cons_of_mem _ among)
    refine ⟨frame :: frames,?_,.cons carries others⟩
    rw [SessionCipher.encryptChunks,first,ok_bind]
    dsimp only
    rw [later]
    rfl

theorem encryptFirstChunk_frame (address port) (fits : Fits address) : ∃ (frame : Frame) (plaintext : Bytes),
      session.encryptFirstChunk suite address port = .ok (frame.bytes,{session with nonce := next session.nonce}) ∧
      frame.Carries suite session.cipher plaintext ∧ ∃ offset, readAddress plaintext = .ok (tcpDestination address ⟨port⟩,offset) := by
  obtain ⟨written,wrote,short,read⟩ := address_roundtrip fits
  rw [List.append_nil] at read
  obtain ⟨frame,encrypted,carries⟩ := encryptChunk_frame suite session (written ++ u16ToBe port)
    (announceable c (by rw [length_append,u16ToBe_length]; omega))
  refine ⟨frame,_,?_,carries,_,read⟩
  rw [SessionCipher.encryptFirstChunk,wrote]
  exact congrArg fallible encrypted

end

end AstraCore.Shadowsocks
