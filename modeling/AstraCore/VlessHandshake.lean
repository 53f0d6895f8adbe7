import AstraCore.PolledStream
import AstraCore.VlessInbound

namespace AstraCore.VlessHandshake
open CheckedBytes NetAddress Dispatcher InboundLink PolledStream VlessHeader VlessInbound List
variable {cap room : Nat}

def heeded : Except Failure α → Reading α
  | .ok value => .ok value
  | .error (.error text) => .error (.error text)
  | .error (.panic fault) => .error (.panic fault)

theorem heeded_eq_ok : heeded result = .ok value ↔ result = .ok value := by
  cases result with
  | ok _ => simp [heeded]
  | error failure => cases failure <;> simp [heeded]

-- The outbound expects a packet: the length of the response in front of it.
def readResponse (stream : Stream cap) : Reading (Addons × Stream cap) := do
  let (lenBuf,stream) ← labelled "read response length: " (readExact 2 stream)
  let (respBuf,stream) ← labelled "read response: " (readExact (be16 lenBuf.val).toNat stream)
  let addons ← heeded (decodeResponseHeader respBuf.val)
  .ok (addons,stream)

def processAsync (config : OutboundConfig) (dest : Destination) (written : Except String Unit) (stream : Stream cap) :
    Bytes × Reading (Addons × Stream cap) :=
  match written with
  | .error e => ([],.error (.error ("write request header: " ++ e)))
  | .ok () => (encodePacket (config.header dest),readResponse stream)

-- What surrounds a call of the outbound: whether the server is reached and the request written, what its link produces,
-- how many bytes are copied either way until one of the two copies ends, and how that one ends.
structure Surroundings where
  dialed : Except String Unit
  written : Except String Unit
  link : Bytes
  up : Nat
  down : Nat
  ended : Except String Unit

structure Exchanged where
  request : Bytes
  uploaded : Bytes
  delivered : Bytes
  result : Reading Unit

def processOutbound (config : OutboundConfig) (session : Session) (around : Surroundings) (stream : Stream cap) : Exchanged :=
  match session.target with
  | none => ⟨[],[],[],.error (.error "no target destination")⟩
  | some target =>
    match around.dialed with
    | .error e => ⟨[],[],[],.error (.error e)⟩
    | .ok () =>
      match processAsync config target around.written stream with
      | (request,.error stop) => ⟨request,[],[],.error stop⟩
      | (request,.ok (_,rest)) =>
        ⟨request,around.link.take around.up,rest.text.take around.down,labelled "vless copy: " (fallible around.ended)⟩

structure Meeting (cap room : Nat) where
  config : OutboundConfig
  session : Session
  target : Destination
  aimed : session.target = some target
  around : Surroundings
  handler : Handler
  arriving : Session
  meanwhile : Circumstances
  incoming : Incoming cap
  outcome : Outcome
  processed : handler.process arriving meanwhile incoming = .ok outcome
  download : Bytes
  stream : Stream room
  downlink : stream.text = outcome.response ++ download
  uplink : ByteStream.text incoming.segments =
    (processOutbound config session around stream).request ++ (processOutbound config session around stream).uploaded

def Meeting.exchanged (m : Meeting cap room) : Exchanged := processOutbound m.config m.session m.around m.stream

-- An empty seed counts as none: it is not sent.
structure Meeting.Agrees (m : Meeting cap room) : Prop where
  dispatched : m.outcome.dispatch = some (aimedAt m.arriving m.target,m.target)
  heard : ∃ request, decodeRequestHeader (announced (ByteStream.text m.incoming.segments)) m.handler.getter =
    .ok (request,m.config.addons.sent)
  answered : ∃ rest, readResponse m.stream = .ok (m.config.addons.sent,rest)
  uploaded : m.outcome.copied = m.exchanged.uploaded
  downloaded : m.exchanged.delivered = m.download

theorem readResponse_parts (read : readResponse stream = .ok (addons,rest)) :
    ∃ (size : Octets 2) (header : Bytes), stream.text = size.val ++ (header ++ rest.text) ∧
      header.length = (be16 size.val).toNat ∧ decodeResponseHeader header = .ok addons := by
  obtain ⟨⟨size,middle⟩,sizeRead,read⟩ := checked_bind read
  obtain ⟨⟨header,later⟩,headerRead,read⟩ := checked_bind read
  obtain ⟨found,decoded,read⟩ := checked_bind read
  cases read
  rw [labelled_eq_ok] at sizeRead headerRead
  refine ⟨size,header.val,?_,header.property,heeded_eq_ok.mp decoded⟩
  rw [(readExact_ok sizeRead).1,(readExact_ok headerRead).1]

theorem decodeResponseHeader_version (decoded : decodeResponseHeader (found :: rest) = .ok addons) : found = version := by
  rw [decodeResponseHeader] at decoded
  by_contra other
  rw [if_pos other] at decoded
  cases decoded

theorem response_misread (addons) (sized : addons.Sized)
    (arrives : stream.text = encodeResponseHeader addons ++ download) (read : readResponse stream = .ok (found,rest)) : rest.text.length < download.length := by
  obtain ⟨size,header,parts,width,decoded⟩ := readResponse_parts read
  have whole := parts.symm.trans arrives
  by_cases sent : addons.encode = []
  · have lengths := congrArg List.length whole
    rw [encodeResponseHeader,sent] at lengths
    simp only [length_append,length_cons,length_nil] at lengths
    cases header with
    | nil => cases decoded
    | cons _ _ =>
      omega
  · obtain ⟨tag,byte,later,front,tagged,nonzero⟩ := addons_front addons sized sent
    have begins : size.val ++ (header ++ rest.text) = [version,tag] ++ (byte :: later ++ download) := by
      rw [whole,encodeResponseHeader,front]
      rfl
    obtain ⟨first,behind⟩ := append_inj begins (by rw [size.property]; rfl)
    have counted : header.length = tag.toNat := by
      rw [width,first]
      rcases tagged with rfl | rfl <;> rfl
    cases header with
    | nil => rcases tagged with rfl | rfl <;> cases counted
    | cons found header =>
      obtain ⟨rfl,-⟩ := List.cons.inj behind
      exact absurd (decodeResponseHeader_version decoded) nonzero

theorem delivered_bound (config session around) (read : readResponse stream = .ok (found,rest)) :
    (processOutbound config session around stream).delivered.length ≤ rest.text.length := by
  rw [processOutbound]
  split
  · exact Nat.zero_le _
  · split
    · exact Nat.zero_le _
    · unfold processAsync
      cases around.written with
      | error e => exact Nat.zero_le _
      | ok _ =>
        rw [read]
        exact length_take_le' ..

theorem handshake_never_agrees (m : Meeting cap room) : ¬ m.Agrees := by
  rintro ⟨dispatched,⟨request,heard⟩,⟨rest,answered⟩,-,downloaded⟩
  obtain ⟨_,addons,decoded,response⟩ := dispatched_parts m.processed (by rw [dispatched]; rfl)
  cases decoded.symm.trans heard
  have arrives : m.stream.text = encodeResponseHeader m.config.addons ++ m.download := by
    rw [m.downlink,response,encodeResponseHeader,encode_sent,encodeResponseHeader]
  have shorter := response_misread m.config.addons m.config.sized arrives answered
  have bound := delivered_bound m.config m.session m.around answered
  rw [← Meeting.exchanged,downloaded] at bound
  omega

def plainConfig : OutboundConfig := ⟨"",none,by decide,by decide⟩
def peerSession : Session := ⟨none,some ⟨peer,peer,none,""⟩,none⟩
def clear : Surroundings := ⟨.ok (),.ok (),[],0,3,.ok ()⟩
def requestArrives : Incoming 64 := ⟨[⟨encodePacket (plainConfig.header peer),by decide⟩],none⟩
def responseArrives : Stream 64 := ⟨[some ⟨[version],by decide⟩,some ⟨[1,2,3],by decide⟩],.closed⟩

theorem download_taken_for_response : ∃ m : Meeting 64 64, m.config = plainConfig ∧ m.target = peer ∧ m.download = [1,2,3] ∧
      m.outcome.dispatch.map Prod.snd = some peer ∧ m.outcome.response = encodeResponseHeader m.config.addons ∧
      m.exchanged.result = .error (.error "unsupported VLESS response version: 2") ∧ m.exchanged.delivered = [] ∧ ¬ m.Agrees := by
  refine ⟨⟨plainConfig,peerSession,peer,rfl,clear,⟨fun _ => none⟩,⟨none,none,none⟩,⟨.ok (),.ok (),none⟩,requestArrives,_,rfl,[1,2,3],
    responseArrives,rfl,rfl⟩,rfl,rfl,rfl,rfl,rfl,rfl,rfl,?_⟩
  intro agrees
  cases agrees.downloaded

end AstraCore.VlessHandshake
