import AstraCore.VmessInbound

namespace AstraCore.VmessHandshake
open CheckedBytes NetAddress MuxFrame AddressCodec Crypto ProtoHeader VmessHeader ByteStream Dispatcher InboundLink List
open VmessInbound

structure OutboundHandler where
  server : Destination
  user : MemoryUser

section
variable (crypto : Primitives) (handler : OutboundHandler)

def OutboundHandler.cmdKey : Octets 16 :=
  (userKey crypto handler.user).getD (.zero 16)

-- `process` makes one session to read the response with, `build_request` another one to write the request with.
structure OutboundDraws where
  client : SessionDraws
  request : SessionDraws
  header : HeaderDraws

def OutboundHandler.requestFor (target : Destination) : RequestHeader where
  version := 1
  command := match target.network with
    | .udp => .udp
    | _ => .tcp
  option := 0x01 ||| 0x04
  security := .aes128Gcm
  port := target.port
  address := target.address
  user := some handler.user

def OutboundHandler.buildRequest (cmdKey : Octets 16) (target : Destination)
    (draws : OutboundDraws) : Bytes :=
  (ClientSession.new crypto draws.request).encodeRequestHeader (handler.requestFor target) cmdKey draws.header

-- `process` up to the copying. The dialer and the transport answer; the payload is only handed on here, the source drops it.
def OutboundHandler.handshake (session : Session) (draws : OutboundDraws)
    (dialed : Except String Unit) (write : Bytes → Except String Unit) (read : Bytes → Except String Bytes) : Except String Bytes :=
  match session.target with
  | none => .error "no target destination"
  | some target => do
    dialed
    let cmdKey := handler.cmdKey crypto
    let client := ClientSession.new crypto draws.client
    let requestBytes := handler.buildRequest crypto cmdKey target draws
    (write requestBytes).mapError ("write vmess header: " ++ ·)
    let respBuf ← (read requestBytes).mapError ("read vmess response: " ++ ·)
    let (payload,_) ← client.decodeResponseHeader respBuf
    .ok payload

end

-- A user configured on both sides, a target, and what the two ends draw and meet. The outbound reads once.
structure Meeting where
  outbound : OutboundHandler
  inbound : Handler
  id : ID
  sends : outbound.user.account = some (.vmess id)
  listed : ∃ user ∈ inbound.users, user.account = some (.vmess id)
  target : Destination
  departure : Session
  aimed : departure.target = some target
  arrival : Session
  draws : OutboundDraws
  now : Nat
  around : Circumstances
  reliable : around.written = .ok ()
  later : Bytes
  download : Bytes
  count : Nat
  buffered : count ≤ 1024

namespace Meeting

section
variable (crypto : Primitives) (m : Meeting)

def sent : Bytes := m.outbound.buildRequest crypto (m.outbound.cmdKey crypto) m.target m.draws

section
variable (incoming : Incoming 4096)

def outcome : Outcome :=
  m.inbound.process crypto m.now m.arrival m.around incoming

def reply : Bytes :=
  ((m.outcome crypto incoming).response ++ m.download).take m.count

structure Agrees : Prop where
  dispatched : (m.outcome crypto incoming).dispatch = some (aimedAt m.arrival m.target,m.target)
  answered : ∃ payload, m.outbound.handshake crypto m.departure m.draws (.ok ()) (fun _ => .ok ())
      (fun _ => .ok (m.reply crypto incoming)) = .ok payload ∧ payload.head? = some m.draws.request.responseHeader

end

end

def Agreed (m : Meeting) : Prop :=
  ∀ (crypto : Primitives) (incoming : Incoming 4096), text incoming.segments = m.sent crypto ++ m.later → m.Agrees crypto incoming

end Meeting

-- The two sessions of the outbound drew the same secrets, its one read returns the whole response header, the target is
-- one that a request can carry, and the user is the first VMess account of the inbound.
structure InStep (m : Meeting) : Prop where
  key : m.draws.client.key = m.draws.request.key
  iv : m.draws.client.iv = m.draws.request.iv
  whole : 38 ≤ m.count
  network : m.target.network = .tcp ∨ m.target.network = .udp
  carried : Fits m.target.address
  first : m.inbound.users.findSome? accountId = some m.id

namespace Meeting

def authId (crypto : Primitives) (m : Meeting) : Octets 16 := m.draws.header.sealing.authId crypto (m.id.cmdKey crypto)

def plaintext (crypto : Primitives) (m : Meeting) : Bytes :=
  (ClientSession.new crypto m.draws.request).plaintext (m.outbound.requestFor m.target) m.draws.header

def sealedRequest (crypto : Primitives) (m : Meeting) : Bytes :=
  sealedHeader crypto (m.id.cmdKey crypto) (m.authId crypto) m.draws.header.sealing.connNonce (m.plaintext crypto)

theorem sent_eq (crypto) (m : Meeting) : m.sent crypto = (m.authId crypto).val ++ m.sealedRequest crypto := by
  have key : m.outbound.cmdKey crypto = m.id.cmdKey crypto := by
    rw [OutboundHandler.cmdKey,userKey,accountId,m.sends]
    rfl
  rw [sent,key]
  rfl

theorem targeted (m : Meeting) : Targeted (m.outbound.requestFor m.target).command := by
  unfold OutboundHandler.requestFor
  cases m.target.network <;> exact trivial

theorem handshake_eq (crypto) (m : Meeting) (reply payload) :
    m.outbound.handshake crypto m.departure m.draws (.ok ()) (fun _ => .ok ()) (fun _ => .ok reply) = .ok payload ↔
      ∃ rest, (ClientSession.new crypto m.draws.client).decodeResponseHeader reply = .ok (payload,rest) := by
  rw [OutboundHandler.handshake,m.aimed]
  change ((ClientSession.new crypto m.draws.client).decodeResponseHeader reply >>= fun (payload,_) => .ok payload) = _ ↔ _
  cases decoded : (ClientSession.new crypto m.draws.client).decodeResponseHeader reply with
  | error e => simp
  | ok pair =>
    obtain ⟨text,rest⟩ := pair
    simp

section
variable (m : Meeting)

theorem found (crypto) (first : m.inbound.users.findSome? accountId = some m.id) :
    m.inbound.findUser crypto (m.authId crypto) = some (m.id.cmdKey crypto) := by
  obtain ⟨crc,decoded⟩ := decodeAuthID_create crypto _ m.draws.header.sealing.timestamp
    m.draws.header.sealing.authRand
  refine findUser_first crypto first ?_
  rw [authId,SealDraws.authId,decoded]
  rfl

theorem valid (crypto) (found : m.inbound.findUser crypto (m.authId crypto) = some (m.id.cmdKey crypto))
    (carried : Fits m.target.address) : ∃ lenPlain, Valid crypto m.inbound (m.authId crypto) (m.id.cmdKey crypto)
      (m.sealedRequest crypto) (m.plaintext crypto) lenPlain (received (m.outbound.requestFor m.target)) :=
  valid_encoded _ _ m.draws.header found (fun _ => carried)

theorem served (crypto incoming) (stream : text incoming.segments = m.sent crypto ++ m.later)
    (found : m.inbound.findUser crypto (m.authId crypto) = some (m.id.cmdKey crypto)) (carried : Fits m.target.address) :
    (m.outcome crypto incoming).dispatch = some (aimedAt m.arrival (received (m.outbound.requestFor m.target)).destination,
        (received (m.outbound.requestFor m.target)).destination) ∧ ∃ server, Shares (ClientSession.new crypto m.draws.request) server ∧
        (m.outcome crypto incoming).response = server.encodeResponseHeader crypto 0 none := by
  obtain ⟨lenPlain,valid⟩ := m.valid crypto found carried
  have short : (m.plaintext crypto).length ≤ 556 := plaintext_length _ _ _ (fun _ => carried)
  have width : (m.sealedRequest crypto).length = 26 + (m.plaintext crypto).length + 16 :=
    sealedHeader_length crypto _ _ _ (by omega)
  rw [sent_eq,append_assoc] at stream
  have unbroken : Unbroken incoming.segments (m.sealedRequest crypto).length := by
    intro k _ inside _
    omega
  obtain ⟨accepted,accepts⟩ := (accept_passes valid m.now incoming stream).mpr unbroken
  rcases accept_valid valid m.now incoming stream with ⟨extra,history,rest,same,-⟩ | refused
  · rw [outcome,Handler.process,same]
    obtain ⟨called,response⟩ := serve_answers labels m.arrival incoming.failure _ m.reliable
    exact ⟨called,_,informed_shares _ _ _ valid.enough history,response⟩
  · rw [refused] at accepts
    cases accepts

theorem destination_iff : (received (m.outbound.requestFor m.target)).destination = m.target ↔ m.target.network = .tcp ∨ m.target.network = .udp := by
  rw [received,if_pos m.targeted]
  obtain ⟨address,port,network⟩ := m.target
  cases network <;> simp [OutboundHandler.requestFor,RequestHeader.destination,udpDestination,tcpDestination]

theorem answered_iff (crypto) (shared : Shares (ClientSession.new crypto m.draws.request) server)
    (key : responseSecret crypto m.draws.client.key = responseSecret crypto m.draws.request.key)
    (iv : responseSecret crypto m.draws.client.iv = responseSecret crypto m.draws.request.iv) :
    (∃ payload, m.outbound.handshake crypto m.departure m.draws (.ok ()) (fun _ => .ok ())
        (fun _ => .ok ((server.encodeResponseHeader crypto 0 none ++ m.download).take m.count)) = .ok payload ∧
      payload.head? = some m.draws.request.responseHeader) ↔ 38 ≤ m.count := by
  have small : (server.responseText 0 none).length < 65536 := by simp [ServerSession.responseText]
  have whole := @response_encoded crypto server 0 none small
  have width := whole.width
  rw [be16_roundtrip,UInt16.toNat_ofNat_of_lt' small] at width
  rw [shared.responseBodyKey.trans key.symm,shared.responseBodyIv.trans iv.symm] at whole
  change Response crypto (responseSecret crypto (ClientSession.new crypto m.draws.client).requestBodyKey)
    (responseSecret crypto (ClientSession.new crypto m.draws.client).requestBodyIv) _ _ _ at whole
  have read := take_prefix m.count (server.encodeResponseHeader crypto 0 none ++ m.download)
  by_cases enough : 38 ≤ m.count
  · refine iff_of_true ⟨server.responseText 0 none,?_,congrArg some shared.responseHeader⟩ enough
    refine (m.handshake_eq crypto _ _).mpr ⟨none,(decodeResponse_iff whole read).mpr ?_⟩
    rw [length_take,length_append,width]
    simp only [ServerSession.responseText,length_cons,length_nil]
    omega
  · refine iff_of_false ?_ enough
    rintro ⟨payload,accepted,-⟩
    have part : m.count < (server.encodeResponseHeader crypto 0 none).length := by
      rw [width]
      simp only [ServerSession.responseText,length_cons]
      omega
    obtain ⟨rest,decoded⟩ := (m.handshake_eq crypto _ _).mp accepted
    obtain ⟨e,refused⟩ := decodeResponse_part whole part
    rw [take_append_of_le_length (Nat.le_of_lt part),refused] at decoded
    cases decoded

end

end Meeting

theorem agreed_of_inStep (m) (step : InStep m) : m.Agreed := by
  intro crypto incoming stream
  obtain ⟨called,server,shared,response⟩ := m.served crypto incoming stream (m.found crypto step.first) step.carried
  refine ⟨?_,?_⟩
  · rw [called,m.destination_iff.mpr step.network]
  · rw [Meeting.reply,response]
    exact (m.answered_iff crypto shared (by rw [step.key]) (by rw [step.iv])).mpr step.whole

section
variable {digest : Bytes → Octets 32} {mark : Octets 16 → Octets 12 → UInt8}

theorem exposed_kdf (key) : kdf (exposed digest mark) key path = padded 32 key := by
  have again : padded 32 (padded 32 key).val = padded 32 key := by
    have fixed := padded_front (padded 32 key).property []
    rwa [append_nil] at fixed
  have chain : path.foldl (fun result segment => (exposed digest mark).hmacSha256 result.val segment) (padded 32 key) = padded 32 key := by
    induction path with
    | nil => rfl
    | cons segment path ih =>
      change path.foldl _ (padded 32 (padded 32 key).val) = _
      rw [again]
      exact ih
  change padded 32 (path.foldl (fun result segment => (exposed digest mark).hmacSha256 result.val segment) (padded 32 key)).val = _
  rw [chain,again]

theorem exposed_kdf16 : kdf16 (exposed digest mark) key.val path = key := by
  refine Subtype.ext ?_
  change (kdf _ key.val path).val.take 16 = key.val
  rw [exposed_kdf]
  change ((key.val ++ List.replicate 32 0).take 32).take 16 = key.val
  rw [take_take,Nat.min_eq_left (by decide),take_front key.property]

theorem exposed_kdf12 (key : Octets 16) : kdf12 (exposed digest mark) key.val path = key.val.take 12 := by
  rw [kdf12,exposed_kdf]
  change ((key.val ++ List.replicate 32 0).take 32).take 12 = key.val.take 12
  rw [take_take,Nat.min_eq_left (by decide),take_append_of_le_length (by rw [key.property]; decide)]

theorem exposed_cmdKey (id : ID) : id.cmdKey (exposed digest mark) = id.uuid := padded_front id.uuid.property _

theorem exposed_lenKey : (headerKeys (exposed digest mark) key authId connNonce).lenKey = key := exposed_kdf16

theorem exposed_record (whole : Record (exposed digest mark) key authId header payload lenPlain) : ∃ nonce, header.head? = some (mark key nonce) := by
  have head := congrArg head? (exposed_open (headerKeys_lenIv ..) whole.lengthLayer)
  rw [head?_take,exposed_lenKey] at head
  exact ⟨_,head⟩

theorem exposed_sealed : ∃ nonce, (sealedHeader (exposed digest mark) key authId connNonce data).head? = some (mark key nonce) := by
  refine ⟨⟨_,headerKeys_lenIv (exposed digest mark) key authId.val connNonce.val⟩,?_⟩
  rw [sealedHeader,exposed_seal (headerKeys_lenIv ..),exposed_lenKey]
  rfl

def nonceOf (secret : Octets 16) : Octets 12 := Octets.front secret 12 (by decide)

theorem exposed_responseKeys (rk riv) : exposedTag mark (responseKeys (exposed digest mark) rk riv).lenKey
      ⟨(responseKeys (exposed digest mark) rk riv).lenIv,responseKeys_lenIv ..⟩ = exposedTag mark rk (nonceOf riv) := by
  have key : (responseKeys (exposed digest mark) rk riv).lenKey = rk := exposed_kdf16
  have nonce : (⟨(responseKeys (exposed digest mark) rk riv).lenIv,responseKeys_lenIv ..⟩ : Octets 12) = nonceOf riv :=
    Subtype.ext (exposed_kdf12 riv)
  rw [key,nonce]

theorem unmarked_front (whole : Record (exposed digest fun _ _ => 0) key authId header payload lenPlain)
    (front : header <+: sealedHeader (exposed digest fun _ _ => 0) other authId connNonce data ++ later) : payload <+: data := by
  have flat : ∀ key nonce, exposedTag (fun _ _ => 0) key nonce = 0 :: List.replicate 15 0 := fun _ _ => rfl
  have width := whole.width
  have lengthText := exposed_open (headerKeys_lenIv ..) whole.lengthLayer
  have payloadText := exposed_open (headerKeys_payloadIv ..) whole.payloadLayer
  have wire : sealedHeader (exposed digest fun _ _ => 0) other authId connNonce data ++ later =
      ((0 :: List.replicate 15 0) ++ u16ToBe (UInt16.ofNat data.length)) ++ (connNonce.val ++ ((0 :: List.replicate 15 0) ++ (data ++ later))) := by
    rw [sealedHeader,exposed_seal (headerKeys_lenIv ..),exposed_seal (headerKeys_payloadIv ..),flat,flat]
    simp only [append_assoc]
  have lengthWidth : ((0 :: List.replicate 15 0) ++ u16ToBe (UInt16.ofNat data.length)).length = 18 := by simp
  rw [flat] at lengthText payloadText
  rw [wire] at front
  have announced : lenPlain = u16ToBe (UInt16.ofNat data.length) := by
    have taken := prefix_iff_eq_take.mp front
    rw [taken,take_take,Nat.min_eq_left (by omega),take_front lengthWidth] at lengthText
    exact (append_cancel_left lengthText).symm
  have behind := drop_prefix front 26
  rw [← append_assoc _ connNonce.val,drop_front (by rw [length_append,lengthWidth,connNonce.property]),payloadText,prefix_append_right_inj] at behind
  refine prefix_of_prefix_length_le behind (prefix_append ..) ?_
  have held := congrArg List.length payloadText
  rw [length_drop,length_append,length_cons,length_replicate,width,announced,be16_roundtrip,UInt16.toNat_ofNat'] at held
  omega

end

namespace Meeting

section
variable (m : Meeting)
include m

theorem accepted_of_dispatched {aim : Destination} (called : (m.outcome crypto incoming).dispatch = some (session,aim)) :
    ∃ accepted, m.inbound.accept crypto m.now incoming = .ok accepted ∧ accepted.request.destination = aim := by
  rw [outcome,Handler.process] at called
  cases accepts : m.inbound.accept crypto m.now incoming with
  | error e => rw [accepts] at called; cases called
  | ok accepted =>
    rw [accepts] at called
    have same := (serve_answers labels m.arrival incoming.failure _ m.reliable).1.symm.trans called
    exact ⟨accepted,rfl,(Prod.mk.inj (Option.some.inj same)).2⟩

theorem front_accepted {crypto : Primitives} (stream : text incoming.segments = m.sent crypto ++ m.later)
    (accepts : m.inbound.accept crypto m.now incoming = .ok accepted) :
    ∃ header plaintext lenPlain, Valid crypto m.inbound (m.authId crypto) accepted.cmdKey header plaintext lenPlain accepted.request ∧
      header <+: m.sealedRequest crypto ++ m.later := by
  obtain ⟨header,extra,plaintext,lenPlain,-,valid,parts⟩ := accept_sound accepts
  rw [stream,sent_eq,append_assoc] at parts
  obtain ⟨ids,behind⟩ := append_inj parts (by rw [(m.authId crypto).property,accepted.authId.property])
  rw [← Subtype.ext ids] at valid
  exact ⟨header,plaintext,lenPlain,valid,⟨_,behind.symm⟩⟩

theorem arrives (crypto) : ∃ incoming : Incoming 4096, text incoming.segments = m.sent crypto ++ m.later := by
  obtain ⟨segments,stream⟩ := text_exists (by decide : 0 < 4096) _
  exact ⟨⟨segments,none⟩,stream⟩

theorem auth_exposed (id : ID) : (decodeAuthID (exposed digest mark) (id.cmdKey (exposed digest mark)) (m.authId (exposed digest mark))).isOk = true := by
  obtain ⟨crc,decoded⟩ := decodeAuthID_create _ _
    m.draws.header.sealing.timestamp m.draws.header.sealing.authRand
  change (decodeAuthID (exposed digest mark) (m.id.cmdKey (exposed digest mark)) (m.authId (exposed digest mark))).isOk = true
  rw [authId,SealDraws.authId,decoded]
  rfl

section
variable (agreed : m.Agreed)
include agreed

theorem first_of_agreed : m.inbound.users.findSome? accountId = some m.id := by
  cases first : m.inbound.users.findSome? accountId with
  | none =>
    obtain ⟨user,listed,account⟩ := m.listed
    have absent := findSome?_eq_none_iff.mp first user listed
    rw [accountId,account] at absent
    cases absent
  | some other =>
    by_contra different
    have apart : other.uuid ≠ m.id.uuid := fun same => different (congrArg some (congrArg ID.mk same))
    obtain ⟨incoming,stream⟩ := m.arrives _
    obtain ⟨accepted,accepts,-⟩ := m.accepted_of_dispatched (agreed _ incoming stream).dispatched
    obtain ⟨header,plaintext,lenPlain,valid,tail,front⟩ := m.front_accepted stream accepts
    have taken := findUser_first (exposed (padded 32) fun key _ => if key = m.id.uuid then 1 else 0) first
      (m.auth_exposed other)
    have key := Option.some.inj (valid.user.symm.trans taken)
    obtain ⟨nonce,opened⟩ := exposed_record valid.sealed
    obtain ⟨nonce',written⟩ := @exposed_sealed (padded 32) _ _
      (m.authId _) m.draws.header.sealing.connNonce _
    have heads := congrArg head? front
    rw [head?_append,opened,head?_append,Meeting.sealedRequest,written,key,exposed_cmdKey,exposed_cmdKey,if_neg apart,if_pos rfl] at heads
    cases heads

theorem carried_of_agreed : Fits m.target.address := by
  cases address : m.target.address with
  | ipv4 octets | ipv6 octets => trivial
  | domain name =>
    refine Nat.le_of_not_lt fun long => ?_
    obtain ⟨incoming,stream⟩ := m.arrives plain
    obtain ⟨accepted,accepts,same⟩ := m.accepted_of_dispatched (agreed _ incoming stream).dispatched
    obtain ⟨header,plaintext,lenPlain,valid,front⟩ := m.front_accepted stream accepts
    have part := unmarked_front valid.sealed front
    have fields := plaintext_layout (ClientSession.new plain m.draws.request) (m.outbound.requestFor m.target) m.draws.header
    have enough := valid.enough
    have command : plaintext.getD 37 0 = (m.outbound.requestFor m.target).command.asByte := by
      obtain ⟨rest,whole⟩ := part
      rw [← fields.command,← Meeting.plaintext,← whole,getD_eq_getElem?_getD,getD_eq_getElem?_getD,getElem?_append_left (by omega)]
    obtain ⟨consumed,read⟩ := decodeText_address valid.decoded (by rw [command,command_roundtrip]) m.targeted
    obtain ⟨rest,target⟩ := plaintext_address _ _ m.draws.header m.targeted
    have behind := drop_prefix part 40
    rw [Meeting.plaintext,target] at behind
    change _ <+: encodeAddress m.target.address ++ rest at behind
    rw [address] at behind
    refine readAddress_cut addressTexts long behind read ?_
    rw [← destination_address,same,address]

theorem network_of_agreed : m.target.network = .tcp ∨ m.target.network = .udp := by
  obtain ⟨incoming,stream⟩ := m.arrives plain
  have called := (m.served plain incoming stream (m.found plain (m.first_of_agreed agreed)) (m.carried_of_agreed agreed)).1
  have same := called.symm.trans (agreed plain incoming stream).dispatched
  exact m.destination_iff.mp (Prod.mk.inj (Option.some.inj same)).2

theorem whole_of_agreed : 38 ≤ m.count := by
  obtain ⟨incoming,stream⟩ := m.arrives (exposed (fun _ => .zero 32) fun _ _ => 0)
  obtain ⟨-,server,shared,response⟩ := m.served _ incoming stream (m.found _ (m.first_of_agreed agreed)) (m.carried_of_agreed agreed)
  have answered := (agreed _ incoming stream).answered
  rw [reply,response] at answered
  exact (m.answered_iff _ shared rfl rfl).mp answered

theorem marks_agree (digest) (mark : Octets 16 → Octets 12 → UInt8) : mark (responseSecret (exposed digest mark) m.draws.client.key)
        (nonceOf (responseSecret (exposed digest mark) m.draws.client.iv)) = mark (responseSecret (exposed digest mark) m.draws.request.key)
        (nonceOf (responseSecret (exposed digest mark) m.draws.request.iv)) := by
  have whole := m.whole_of_agreed agreed
  obtain ⟨incoming,stream⟩ := m.arrives (exposed digest mark)
  obtain ⟨-,server,shared,response⟩ := m.served _ incoming stream (m.found _ (m.first_of_agreed agreed)) (m.carried_of_agreed agreed)
  obtain ⟨payload,accepted,-⟩ := (agreed _ incoming stream).answered
  obtain ⟨rest,decoded⟩ := (m.handshake_eq _ _ _).mp accepted
  obtain ⟨lenPlain,opened⟩ := decodeResponse_opens decoded
  have text := exposed_open (responseKeys_lenIv ..) opened
  rw [exposed_responseKeys,reply,response,ServerSession.encodeResponseHeader,exposed_seal (responseKeys_lenIv ..),exposed_responseKeys,
    shared.responseBodyKey,shared.responseBodyIv] at text
  have heads := congrArg head? text
  rw [head?_take,if_neg (by decide),head?_take,if_neg (by omega)] at heads
  exact (Option.some.inj heads).symm

end

end

theorem told_apart (secret) (different : other ≠ secret) (mark) :
    (responseSecret (exposed (fun bytes => if bytes = secret.val then padded 32 [1] else .zero 32) mark) secret).val.head? = some 1 ∧
      (responseSecret (exposed (fun bytes => if bytes = secret.val then padded 32 [1] else .zero 32) mark) other).val.head? = some 0 := by
  have apart : other.val ≠ secret.val := fun same => different (Subtype.ext same)
  simp only [responseSecret,exposed,if_neg apart]
  exact ⟨rfl,rfl⟩

theorem key_of_agreed (m : Meeting) (agreed : m.Agreed) : m.draws.client.key = m.draws.request.key := by
  by_contra different
  have marks := m.marks_agree agreed (fun bytes => if bytes = m.draws.request.key.val then padded 32 [1] else .zero 32)
    (fun key _ => key.val.head?.getD 0)
  have told := told_apart m.draws.request.key different (fun key _ => key.val.head?.getD 0)
  rw [told.1,told.2] at marks
  cases marks

theorem iv_of_agreed (m : Meeting) (agreed : m.Agreed) : m.draws.client.iv = m.draws.request.iv := by
  by_contra different
  have marks := m.marks_agree agreed (fun bytes => if bytes = m.draws.request.iv.val then padded 32 [1] else .zero 32)
    (fun _ nonce => nonce.val.head?.getD 0)
  have told := told_apart m.draws.request.iv different (fun _ nonce => nonce.val.head?.getD 0)
  simp only [nonceOf,Octets.front,head?_take,told.1,told.2] at marks
  cases marks

end Meeting

theorem handshake_agrees_iff (m : Meeting) : m.Agreed ↔ InStep m := by
  constructor
  · intro agreed
    exact ⟨m.key_of_agreed agreed,m.iv_of_agreed agreed,m.whole_of_agreed agreed,m.network_of_agreed agreed,
      m.carried_of_agreed agreed,m.first_of_agreed agreed⟩
  · exact agreed_of_inStep m

def sampleMeeting : Meeting where
  outbound := ⟨peer,⟨some (.vmess ⟨sampleKey⟩),"user@example",0⟩⟩
  inbound := sampleHandler
  id := ⟨sampleKey⟩
  sends := rfl
  listed := ⟨_,List.mem_cons_of_mem _ List.mem_cons_self,rfl⟩
  target := web
  departure := Dispatcher.aimed
  aimed := rfl
  arrival := hysteriaSession peer "vmess"
  draws := ⟨⟨padded 16 [9,9],padded 16 [8,8],17⟩,sampleSession,sampleDraws⟩
  now := 1700000001
  around := undisturbed
  reliable := rfl
  later := []
  download := []
  count := 1024
  buffered := Nat.le_refl _

def marked : Primitives := exposed (padded 32) (fun key _ => key.val.headD 0)

def sampleRequest : Incoming 4096 := ⟨[⟨sampleMeeting.sent marked,by decide +kernel⟩],none⟩

-- The target is dispatched, and the outbound cannot read the answer.
theorem separate_sessions_disagree : text sampleRequest.segments = sampleMeeting.sent marked ++ sampleMeeting.later ∧
    (sampleMeeting.outcome marked sampleRequest).dispatch.map Prod.snd = some web ∧
    sampleMeeting.outbound.handshake marked sampleMeeting.departure sampleMeeting.draws (.ok ()) (fun _ => .ok ())
      (fun _ => .ok (sampleMeeting.reply marked sampleRequest)) = .error "GCM decrypt: aead::Error" := by
  decide +kernel

end AstraCore.VmessHandshake
