import AstraCore.KeyedList
import AstraCore.InboundLink
import AstraCore.VlessHeader

namespace AstraCore.VlessInbound
open CheckedBytes NetAddress Crypto ProtoHeader ByteStream Dispatcher InboundLink VlessHeader List
variable {cap : Nat}

def processUUID (id : Octets 16) : Octets 16 := ⟨(id.val.set 6 0).set 7 0,by simp [id.property]⟩

structure MemoryValidator where
  usersByUuid : AList (fun _ : Octets 16 => MemoryUser)
  usersByEmail : AList (fun _ : String => MemoryUser)

def MemoryValidator.new : MemoryValidator := ⟨∅,∅⟩

section
variable (validator : MemoryValidator)

def MemoryValidator.get : UserGetter := fun id => validator.usersByUuid.lookup (processUUID id)

-- A user without a VLESS account is kept under the zero UUID.
def userKey (user : MemoryUser) : Octets 16 :=
  match user.account with
  | some (.vless id) => processUUID id.uuid
  | _ => processUUID (.zero 16)

def MemoryValidator.add (user : MemoryUser) : Except String MemoryValidator :=
  if userKey user ∈ validator.usersByUuid then .error "user already exists"
  else .ok ⟨validator.usersByUuid.insert (userKey user) user,validator.usersByEmail.insert user.email user⟩

-- Only the table of emails forgets.
def MemoryValidator.del (email : String) : Bool × MemoryValidator :=
  ((validator.usersByEmail.lookup email).isSome,{ validator with usersByEmail := validator.usersByEmail.erase email })

end

def register : MemoryValidator → List MemoryUser → Except String MemoryValidator
  | validator,[] => .ok validator
  | validator,user :: users =>
    match validator.add user with
    | .error e => .error ("add vless user: " ++ e)
    | .ok validator => register validator users

inductive Change where
  | add (user : MemoryUser)
  | del (email : String)

def MemoryValidator.apply (validator : MemoryValidator) : Change → MemoryValidator
  | .add user => (validator.add user).toOption.getD validator
  | .del email => (validator.del email).2

structure Handler where
  getter : UserGetter

def labels : Labels := ⟨"write vless response: ","vless inbound copy: "⟩

def Handler.process (handler : Handler) (session : Session) (around : Circumstances) (incoming : Incoming cap) : Checked Outcome :=
  match readExact 2 incoming.segments with
  | none => .ok (.refusal ("read vless length: " ++ incoming.failure.getD "early eof"))
  | some (lenBuf,rest) =>
    match readExact (be16 lenBuf.val).toNat rest with
    | none => .ok (.refusal ("read vless header: " ++ incoming.failure.getD "early eof"))
    | some (headerBuf,rest) =>
      match decodeRequestHeader headerBuf.val handler.getter with
      | .error (.error e) => .ok (.refusal e)
      | .error (.panic fault) => .error fault
      | .ok (request,addons) =>
        .ok (serve labels session around incoming.failure ⟨encodeResponseHeader addons,request.destination,rest⟩)

def announced (stream : Bytes) : Bytes := (stream.drop 2).take (be16 (stream.take 2)).toNat

theorem dispatched_parts {handler : Handler} (processed : handler.process session around incoming = .ok outcome) (called : outcome.dispatch.isSome) :
    ∃ request addons, decodeRequestHeader (announced (text incoming.segments)) handler.getter = .ok (request,addons) ∧
      outcome.response = encodeResponseHeader addons := by
  rw [Handler.process] at processed
  split at processed
  · cases processed
    cases called
  · rename_i lenBuf rest length
    obtain ⟨size,remains⟩ := readExact_some length
    split at processed
    · cases processed
      cases called
    · rename_i headerBuf tail header
      obtain ⟨front,-⟩ := readExact_some header
      have same : headerBuf.val = announced (text incoming.segments) := by rw [front,remains.text,size,announced]
      rw [same] at processed
      split at processed
      · cases processed
        cases called
      · cases processed
      · rename_i decoded
        cases processed
        have written := (serve_dispatched ..).mp called
        exact ⟨_,_,decoded,(serve_answers labels session incoming.failure _ written).2⟩

theorem dispatched_decoded {handler : Handler} (processed : handler.process session around incoming = .ok outcome)
    (called : outcome.dispatch.isSome) : ∃ result, decodeRequestHeader (announced (text incoming.segments)) handler.getter = .ok result := by
  obtain ⟨request,addons,decoded,-⟩ := dispatched_parts processed called
  exact ⟨_,decoded⟩

theorem packet_size (short : header.length ≤ 65535) : encodePacket header = u16ToBe (UInt16.ofNat header.length) ++ header ∧
      (be16 (u16ToBe (UInt16.ofNat header.length))).toNat = header.length := by
  refine ⟨?_,?_⟩
  · rw [encodePacket,Nat.min_eq_left short,take_length]
  · rw [be16_roundtrip]
    exact UInt16.toNat_ofNat_of_lt' (Nat.lt_succ_of_le short)

theorem announced_packet (short : header.length ≤ 65535) (body) : announced (encodePacket header ++ body) = header := by
  obtain ⟨packet,size⟩ := packet_size short
  rw [announced,packet,append_assoc,take_front (u16ToBe_length _),drop_front (u16ToBe_length _),size,take_left]

section
variable (handler : Handler)

theorem packet_served (incoming : Incoming cap) (stream : text incoming.segments = encodePacket header ++ body) (short : header.length ≤ 65535)
    (decoded : decodeRequestHeader header handler.getter = .ok (request,addons)) :
    ∃ rest : List (Segment UInt8 cap), text rest = body ∧ handler.process session around incoming =
      .ok (serve labels session around incoming.failure ⟨encodeResponseHeader addons,request.destination,rest⟩) := by
  obtain ⟨packet,size⟩ := packet_size short
  rw [packet,append_assoc] at stream
  obtain ⟨lenBuf,rest,length,taken,remains⟩ := readExact_enough incoming.segments 2 (by rw [stream]; simp)
  have behind := remains.text
  rw [stream,take_front (u16ToBe_length _)] at taken
  rw [stream,drop_front (u16ToBe_length _)] at behind
  rw [← taken] at size
  obtain ⟨headerBuf,tail,read,front,left⟩ := readExact_enough rest (be16 lenBuf.val).toNat (by rw [behind,size]; simp)
  have held := front.trans (by rw [behind,size,take_left])
  refine ⟨tail,by rw [left.text,behind,size,drop_left],?_⟩
  rw [Handler.process,length]
  dsimp only
  rw [read]
  dsimp only
  rw [held,decoded]

theorem packet_dispatched (session around) (incoming : Incoming cap)
    (written : around.written = .ok ()) (stream : text incoming.segments = encodePacket header ++ body)
    (short : header.length ≤ 65535) (decoded : decodeRequestHeader header handler.getter = .ok (request,addons)) :
    ∃ outcome, handler.process session around incoming = .ok outcome ∧ outcome.dispatch = some (aimedAt session request.destination,request.destination) := by
  obtain ⟨rest,-,served⟩ := packet_served handler incoming stream short decoded
  exact ⟨_,served,(serve_answers labels session incoming.failure _ written).1⟩

def bareHeader (uuid : Octets 16) : Bytes := version :: (uuid.val ++ (0 :: [RequestCommand.mux.asByte]))

theorem bareHeader_decoded (uuid getter) : decodeRequestHeader (bareHeader uuid) getter = .ok (⟨version,.mux,0,.zero,⟨0⟩,.ipv4 (.zero 4),none⟩,.default) := by
  rw [bareHeader,decode_layout]
  rfl

def Known (getter : UserGetter) (header : Bytes) : Prop := ∃ uuid, carriedUuid header = some uuid ∧ (getter uuid).isSome

theorem known_bare (known : Known getter (bareHeader uuid)) : (getter uuid).isSome := by
  obtain ⟨found,carried,registered⟩ := known
  rw [bareHeader,carriedUuid_front] at carried
  rwa [Option.some.inj carried]

theorem decoder_checks_iff (getter) : (∀ data result, decodeRequestHeader data getter = .ok result → Known getter data) ↔ ∀ uuid, (getter uuid).isSome := by
  constructor
  · intro checked uuid
    exact known_bare (checked _ _ (bareHeader_decoded uuid getter))
  · intro all data result decoded
    obtain ⟨uuid,carried⟩ := decoded_carries decoded
    exact ⟨uuid,carried,all uuid⟩

theorem inbound_checks_iff : (∀ (session : Session) (around : Circumstances) (cap : Nat) (incoming : Incoming cap) outcome,
      handler.process session around incoming = .ok outcome → outcome.dispatch.isSome →
        Known handler.getter (announced (text incoming.segments))) ↔ ∀ uuid, (handler.getter uuid).isSome := by
  constructor
  · intro checked uuid
    obtain ⟨segments,stream⟩ := @text_exists UInt8 1 (by decide) (encodePacket (bareHeader uuid))
    have short : (bareHeader uuid).length = 19 := by simp [bareHeader,uuid.property]
    obtain ⟨outcome,processed,called⟩ := packet_dispatched handler ⟨none,none,none⟩ ⟨.ok (),.ok (),none⟩ ⟨segments,none⟩ rfl
      (stream.trans (append_nil _).symm) (by omega) (bareHeader_decoded uuid handler.getter)
    have known := checked _ _ _ _ outcome processed (by rw [called]; rfl)
    have header := announced_packet (by omega : (bareHeader uuid).length ≤ 65535) []
    rw [append_nil] at header
    rw [stream,header] at known
    exact known_bare known
  · intro all session around cap incoming outcome processed called
    obtain ⟨result,decoded⟩ := dispatched_decoded processed called
    exact (decoder_checks_iff handler.getter).mpr all _ _ decoded

end

-- A configured outbound: the user's flow and seed, but nothing of its identity.
structure OutboundConfig where
  flow : String
  seed : Option Bytes
  sized : (Addons.mk flow seed).Sized

def OutboundConfig.addons (config : OutboundConfig) : Addons := ⟨config.flow,config.seed⟩

def destToRequest (dest : Destination) : RequestHeader :=
  let command := match dest.network with
    | .udp => RequestCommand.udp
    | _ => .tcp
  ⟨0,command,0,.zero,dest.port,dest.address,none⟩

def OutboundConfig.header (config : OutboundConfig) (target : Destination) : Bytes :=
  encodeRequestHeader (destToRequest target) config.addons

structure Authenticates (getter : UserGetter) (config : OutboundConfig) : Prop where
  checked : ∀ data result, decodeRequestHeader data getter = .ok result → Known getter data
  accepted : ∀ uuid, (getter uuid).isSome → ∀ target, ∃ result, decodeRequestHeader (config.header target) getter = .ok result
  dispatched : ∀ (session : Session) (around : Circumstances) (cap : Nat) (incoming : Incoming cap) (outcome : Outcome),
    (Handler.mk getter).process session around incoming = .ok outcome → outcome.dispatch.isSome →
      Known getter (announced (text incoming.segments))

theorem authenticates_iff (getter : UserGetter) (config : OutboundConfig) :
    Authenticates getter config ↔ (∀ uuid, (getter uuid).isSome) ∧ config.addons.encode.length ≤ 255 := by
  constructor
  · rintro ⟨checked,accepted,-⟩
    have all := (decoder_checks_iff getter).mp checked
    refine ⟨all,?_⟩
    exact (request_accepted_iff _ config.addons getter config.sized).mp (accepted (.zero 16) (all _) web)
  · rintro ⟨all,fits⟩
    refine ⟨(decoder_checks_iff getter).mpr all,?_,(inbound_checks_iff ⟨getter⟩).mpr all⟩
    intro uuid _ target
    exact (request_accepted_iff _ config.addons getter config.sized).mpr fits

def client : Octets 16 := padded 16 [0x66,0xad,0x45,0x40]
def stranger : Octets 16 := padded 16 [1,2,3,4]
def clients : List MemoryUser := [⟨some (.vless ⟨client⟩),"user@example",0⟩]

def strangerHeader : Bytes := version :: (stranger.val ++ (0 :: RequestCommand.tcp.asByte :: [0x13,0x88,1,10,0,0,1]))
def strangerStream : Incoming 64 := ⟨[⟨encodePacket strangerHeader,by decide⟩],none⟩

-- An inbound with one client dispatches the request of another.
theorem stranger_dispatched :
    ∃ validator outcome, register .new clients = .ok validator ∧ (validator.get client).isSome ∧ validator.get stranger = none ∧
      carriedUuid (announced (text strangerStream.segments)) = some stranger ∧
      (Handler.mk validator.get).process ⟨none,none,none⟩ ⟨.ok (),.ok (),none⟩ strangerStream = .ok outcome ∧
      outcome.dispatch.map Prod.snd = some peer :=
  ⟨_,_,rfl,rfl,rfl,rfl,rfl,rfl⟩

end AstraCore.VlessInbound
