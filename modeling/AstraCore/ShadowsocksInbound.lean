import AstraCore.Dispatcher
import AstraCore.ShadowsocksSession

namespace AstraCore.Shadowsocks
open CheckedBytes NetAddress AuthenticatedCipher ByteCounter LossyUtf8 PolledStream Dispatcher List
open MuxFrame (Fits)
variable {cap : Nat} (suite : Suite) {c : CipherType}

structure Account where
  cipherType : CipherType
  password : String
  key : Bytes

structure ServerConfig where
  users : List Account

structure UserSettings where
  method : String
  password : String

structure InboundSettings where
  method : String
  password : String
  users : List UserSettings

def parseSsCipherType (method : String) : Except String CipherType :=
  if method = "aes-128-gcm" then .ok .aes128Gcm
  else if method = "aes-256-gcm" then .ok .aes256Gcm
  else if method = "chacha20-poly1305" ∨ method = "chacha20-ietf-poly1305" then .ok .chacha20Poly1305
  else if method = "xchacha20-poly1305" ∨ method = "xchacha20-ietf-poly1305" then .ok .xChacha20Poly1305
  else if method = "none" then .ok .none
  else .error ("unsupported shadowsocks cipher method: " ++ method)

-- Digests are appended until the key is long enough; each adds sixteen bytes, so as many turns as the key has bytes suffice.
def stretchKey (password : Bytes) (keySize : Nat) : Nat → Octets 16 → Bytes → Bytes
  | 0,_,key => key
  | turns + 1,sum,key =>
    if key.length < keySize then
      let sum := suite.md5 (sum.val ++ password)
      stretchKey password keySize turns sum (key ++ sum.val)
    else key

def passwordToKey (password : Bytes) (keySize : Nat) : Bytes :=
  let sum := suite.md5 password
  (stretchKey suite password keySize keySize sum sum.val).take keySize

def orElse (text fallback : String) : String := if text = "" then fallback else text

def makeAccount (method password : String) : Except String Account := do
  let cipherType ← parseSsCipherType (orElse method "aes-256-gcm")
  .ok ⟨cipherType,password,passwordToKey suite (asBytes password) cipherType.keySize⟩

def buildAccounts (settings : InboundSettings) : Except String (List Account) :=
  if settings.users.isEmpty then do
    let account ← makeAccount suite settings.method settings.password
    .ok [account]
  else settings.users.mapM fun user => makeAccount suite (orElse user.method settings.method) (orElse user.password settings.password)

-- What surrounds one call: what the dispatcher answers, the random iv of the response and whether it can be written, how
-- many reads of the upload and which reads of the link happen before the relay ends, and an error of the link or of one
-- of the writers if that is what ends it.
structure Occasion where
  dispatched : Except String Unit
  respIv : Bytes
  written : Except String Unit
  calls : Nat
  link : List Bytes
  failed : Option String

-- From the call of the dispatcher on: what it was called with, what was written to the client and to the link, and what
-- ended the relay, if anything did.
structure Served where
  dispatch : Session × Destination
  response : Bytes
  uploaded : Bytes
  ended : Option (Except Stop Unit)

def shadowsocksSession (target : Destination) : Session :=
  ⟨some ⟨target,none,none,""⟩,some ⟨target,target,none,""⟩,some ⟨some "shadowsocks",none,∅,false⟩⟩

def maxChunkSize : Nat := 0x3FFF

def upload : Nat → DecryptingReader c → Stream cap → Bytes × Option (Except Stop Unit)
  | 0,_,_ => ([],none)
  | calls + 1,reader,stream =>
    match reader.pollRead suite maxChunkSize stream with
    | none => ([],none)
    | some (.pending,reader,stream) => upload calls reader stream
    | some (.error e,_,_) => ([],some (.error (.error ("ss inbound: decrypt read: " ++ e))))
    | some (.panic fault,_,_) => ([],some (.error (.panic fault)))
    | some (.ready data,reader,stream) =>
      if data = [] then ([],some (.ok ()))
      else
        let (more,ended) := upload calls reader stream
        (data ++ more,ended)

def download : SessionCipher c → List Bytes → Bytes × Option (Except Stop Unit)
  | _,[] => ([],none)
  | session,data :: rest =>
    if data = [] then ([],some (.ok ()))
    else
      match session.encryptChunk suite data with
      | .error e => ([],some (.error (.error ("ss inbound: encrypt: " ++ e))))
      | .ok (chunk,session) =>
        let (more,ended) := download session rest
        (chunk ++ more,ended)

def relay (user : Account) (around : Occasion) (target : Destination) (reader : DecryptingReader user.cipherType)
    (stream : Stream cap) : Served :=
  let called := (shadowsocksSession target,target)
  match around.dispatched with
  | .error e => ⟨called,[],[],some (.error (.error e))⟩
  | .ok () =>
    match around.written with
    | .error e => ⟨called,[],[],some (.error (.error ("ss inbound: write resp iv: " ++ e)))⟩
    | .ok () =>
      match SessionCipher.new suite user.cipherType user.key around.respIv with
      | .error fault => ⟨called,around.respIv,[],some (.error (.panic fault))⟩
      | .ok session =>
        let (uploaded,upEnd) := upload suite around.calls reader stream
        let (downloaded,downEnd) := download suite session around.link
        ⟨called,around.respIv ++ downloaded,uploaded,(upEnd.or downEnd).or (around.failed.map fun e => .error (.error e))⟩

-- Only the first account is ever asked.
def ServerConfig.process (config : ServerConfig) (around : Occasion) (stream : Stream cap) : Reading Served :=
  match config.users with
  | [] => .error (.panic .sliceIndex)
  | user :: _ => do
    let (iv,stream) ← labelled "ss inbound: read iv: " (readExact user.cipherType.ivSize stream)
    let (target,reader,stream) ← labelled "ss inbound: read session: " (readTcpSession suite user.cipherType user.key iv.val stream)
    .ok (relay suite user around target reader stream)

structure ClientSession (account : Account) (iv : Octets account.cipherType.ivSize) (address : Address) (port : UInt16)
    (chunks : List Bytes) (wire : Bytes) : Prop where
  aead : account.cipherType.isAead = true
  fits : Fits address
  sent : ∃ session first later sealed, SessionCipher.new suite account.cipherType account.key iv.val = .ok session ∧
    session.encryptFirstChunk suite address port = .ok (first,later) ∧ later.encryptChunks suite chunks = .ok sealed ∧
    wire = iv.val ++ (first ++ sealed.flatten)

def SameKey (other account : Account) (iv : Bytes) : Prop :=
  other.cipherType = account.cipherType ∧
    suite.hkdfSha1 other.key iv account.cipherType.keySize = suite.hkdfSha1 account.key iv account.cipherType.keySize

-- The AEAD under the key of any other account opens no part of a session that was sealed for this one.
def Rejects (users : List Account) (account : Account) (iv wire : Bytes) : Prop :=
  ∀ other ∈ users, ¬ SameKey suite other account iv → ∀ nonce aad ciphertext plaintext, ciphertext <:+: wire →
    (suite.aead other.cipherType).decrypt (suite.hkdfSha1 other.key (wire.take other.cipherType.ivSize) other.cipherType.keySize)
      nonce aad ciphertext ≠ .ok plaintext

theorem build_nonempty (built : buildAccounts suite settings = .ok users) : ∃ first others, users = first :: others := by
  cases users with
  | cons first others => exact ⟨first,others,rfl⟩
  | nil =>
    rw [buildAccounts] at built
    split at built
    · obtain ⟨account,-,built⟩ := checked_bind built
      cases built
    · rename_i listed
      cases named : settings.users with
      | nil => rw [named] at listed; exact absurd rfl listed
      | cons user rest =>
        rw [named,mapM_cons] at built
        obtain ⟨account,-,built⟩ := checked_bind built
        obtain ⟨others,-,built⟩ := checked_bind built
        cases built

theorem readTcpSession_opened (accepted : readTcpSession suite c key iv stream = .ok (dest,reader,rest)) :
    ∃ nonce aad ciphertext plaintext, ciphertext <:+: stream.text ∧
      (suite.aead c).decrypt (suite.hkdfSha1 key iv c.keySize) nonce aad ciphertext = .ok plaintext := by
  by_cases aead : c.isAead = true
  · obtain ⟨frame,behind,parts⟩ | short := framed_or_short stream.text
    · obtain ⟨later,-,-,session⟩ := readTcpSession_frame suite aead key iv stream frame parts
      rw [session] at accepted
      obtain ⟨opened,found,accepted⟩ := checked_bind accepted
      obtain ⟨plaintext,decrypted,-⟩ := checked_bind accepted
      rw [openChunk] at found
      rw [labelled_eq_ok,fallible_eq_ok] at decrypted
      split at found
      · rw [decrypted] at found
        refine ⟨_,_,_,plaintext,?_,Except.ok.inj found⟩
        rw [parts,Frame.bytes]
        exact (drop_suffix _ _).isInfix.trans ⟨frame.size.val,behind,by rw [append_assoc]⟩
      · cases found
    · obtain ⟨label,stopped⟩ := readTcpSession_short suite aead key iv stream short
      rw [stopped] at accepted
      cases accepted
  · rw [readTcpSession,createAuthenticator,if_neg aead] at accepted
    cases accepted

theorem relay_dispatch (stream : Stream cap) : (relay suite user around target reader stream).dispatch = (shadowsocksSession target,target) := by
  rw [relay]
  split
  · rfl
  · split
    · rfl
    · split <;> rfl

theorem process_opened (served : ServerConfig.process suite ⟨first :: others⟩ around stream = .ok outcome) :
    ∃ nonce aad ciphertext plaintext, ciphertext <:+: stream.text ∧ (suite.aead first.cipherType).decrypt
        (suite.hkdfSha1 first.key (stream.text.take first.cipherType.ivSize) first.cipherType.keySize) nonce aad ciphertext = .ok plaintext := by
  obtain ⟨⟨iv,middle⟩,ivRead,served⟩ := checked_bind served
  obtain ⟨⟨target,reader,rest⟩,sessionRead,-⟩ := checked_bind served
  rw [labelled_eq_ok] at ivRead sessionRead
  obtain ⟨nonce,aad,ciphertext,plaintext,inside,opened⟩ := readTcpSession_opened suite sessionRead
  have parts := (readExact_ok ivRead).1
  refine ⟨nonce,aad,ciphertext,plaintext,?_,?_⟩
  · rw [parts]
    exact inside.trans (suffix_append ..).isInfix
  · rw [parts,take_front iv.property]
    exact opened

theorem process_accepts (iv : Octets first.cipherType.ivSize) (aead : first.cipherType.isAead = true) {frame : Frame}
    (parts : stream.text = iv.val ++ (frame.bytes ++ later))
    (carries : frame.Carries suite (suite.hkdfSha1 first.key iv.val first.cipherType.keySize) plaintext)
    (read : readAddress plaintext = .ok (target,offset)) : ∃ served, ServerConfig.process suite ⟨first :: others⟩ around stream = .ok served ∧
      served.dispatch = (shadowsocksSession target,target) := by
  obtain ⟨middle,ivRead,text,-⟩ := readExact_enough stream parts iv.property
  obtain ⟨rest,-,-,sessionRead⟩ := readTcpSession_carried suite aead first.key iv.val middle text carries read
  let reader := DecryptingReader.fresh (suite.hkdfSha1 first.key iv.val first.cipherType.keySize)
    (next (Octets.zero first.cipherType.nonceSize))
  refine ⟨relay suite first around target reader rest,?_,relay_dispatch suite rest⟩
  rw [ServerConfig.process]
  dsimp only
  rw [ivRead,labelled_ok,ok_bind]
  rw [sessionRead,labelled_ok,ok_bind]

theorem account_accepted_iff (built : buildAccounts suite settings = .ok users) (account : Account) (among : account ∈ users)
    (iv : Octets account.cipherType.ivSize) (address : Address) (port : UInt16) (chunks : List Bytes) (stream : Stream cap)
    (client : ClientSession suite account iv address port chunks stream.text) (rejects : Rejects suite users account iv.val stream.text)
    (around : Occasion) :
    (∃ served, ServerConfig.process suite ⟨users⟩ around stream = .ok served ∧
      served.dispatch = (shadowsocksSession (tcpDestination address ⟨port⟩),tcpDestination address ⟨port⟩)) ↔
      ∃ first, users.head? = some first ∧ SameKey suite first account iv.val := by
  obtain ⟨first,others,rfl⟩ := build_nonempty suite built
  have only : (∃ other, (first :: others).head? = some other ∧ SameKey suite other account iv.val) ↔ SameKey suite first account iv.val := by
    simp
  rw [only]
  constructor
  · rintro ⟨served,accepted,-⟩
    by_contra different
    obtain ⟨nonce,aad,ciphertext,plaintext,inside,opened⟩ := process_opened suite accepted
    exact rejects first (mem_cons_self ..) different nonce aad ciphertext plaintext inside opened
  · rintro ⟨sameCipher,sameKey⟩
    obtain ⟨session,chunk,later,sealed,made,wrote,-,wire⟩ := client.sent
    rw [SessionCipher.new,createAuthenticator,if_pos client.aead] at made
    cases made
    obtain ⟨frame,plaintext,framed,carries,offset,read⟩ := encryptFirstChunk_frame suite
      ⟨suite.hkdfSha1 account.key iv.val account.cipherType.keySize,Octets.zero account.cipherType.nonceSize⟩ address port client.fits
    cases wrote.symm.trans framed
    have aead := client.aead
    obtain ⟨cipherType,password,key⟩ := first
    obtain ⟨cipherType',password',key'⟩ := account
    cases sameCipher
    refine process_accepts suite iv aead wire ?_ read
    exact sameKey ▸ carries

def twoUsers : InboundSettings := ⟨"","",[⟨"aes-128-gcm","a"⟩,⟨"aes-128-gcm","b"⟩]⟩
def userA : Account := ⟨.aes128Gcm,"a",97 :: List.replicate 15 0⟩
def userB : Account := ⟨.aes128Gcm,"b",98 :: List.replicate 15 0⟩

def ivB : Octets userB.cipherType.ivSize := ⟨List.replicate 16 1,rfl⟩
def wireB : Bytes := ivB.val ++ ([0,35] ++ List.replicate 12 0 ++ (98 :: List.replicate 15 0) ++ [1,1,2,3,4,0,80])
def streamB : Stream 64 := ⟨[some ⟨wireB,by decide⟩],.stillOpen⟩
def calmly : Occasion := ⟨.ok (),List.replicate 16 2,.ok (),0,[],none⟩

theorem twoUsers_built : buildAccounts exposedSuite twoUsers = .ok [userA,userB] := rfl

theorem client_userB : ClientSession exposedSuite userB ivB (.ipv4 ⟨[1,2,3,4],rfl⟩) 80 [] streamB.text :=
  ⟨rfl,trivial,_,_,_,_,rfl,rfl,rfl,rfl⟩

theorem rejects_userB : Rejects exposedSuite [userA,userB] userB ivB.val streamB.text := by
  intro other among different nonce aad ciphertext plaintext inside opened
  have marked := inside.subset (exposed_marked opened)
  rcases mem_cons.mp among with rfl | among
  · exact absurd marked (by decide)
  · cases mem_singleton.mp among
    exact different ⟨rfl,rfl⟩

theorem account_accepted_iff_userB : (∃ served, ServerConfig.process exposedSuite ⟨[userA,userB]⟩ calmly streamB = .ok served ∧
      served.dispatch = (shadowsocksSession (tcpDestination (.ipv4 ⟨[1,2,3,4],rfl⟩) ⟨80⟩),tcpDestination (.ipv4 ⟨[1,2,3,4],rfl⟩) ⟨80⟩)) ↔
      ∃ first, [userA,userB].head? = some first ∧ SameKey exposedSuite first userB ivB.val :=
  account_accepted_iff exposedSuite twoUsers_built userB (by simp) ivB (.ipv4 ⟨[1,2,3,4],rfl⟩) 80 [] streamB client_userB
    rejects_userB calmly

theorem second_user_refused : buildAccounts exposedSuite twoUsers = .ok [userA,userB] ∧
    ClientSession exposedSuite userB ivB (.ipv4 ⟨[1,2,3,4],rfl⟩) 80 [] streamB.text ∧
    Rejects exposedSuite [userA,userB] userB ivB.val streamB.text ∧
    ServerConfig.process exposedSuite ⟨[userA,userB]⟩ calmly streamB =
      .error (.error "ss inbound: read session: decrypt first chunk: aead::Error") :=
  ⟨rfl,client_userB,rejects_userB,rfl⟩

end AstraCore.Shadowsocks
