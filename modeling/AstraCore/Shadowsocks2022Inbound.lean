import AstraCore.InboundLink
import AstraCore.Shadowsocks2022Protocol

namespace AstraCore.Shadowsocks2022
open CheckedBytes NetAddress AuthenticatedCipher ByteCounter LossyUtf8 PolledStream Dispatcher InboundLink List
variable {cap : Nat}

-- The address in front of some bytes, and where the parser takes the port to end. For both kinds of IP address that is
-- where the address ends.
def targetAddress : Bytes → Except String (Address × Nat)
  | [] => .error "empty target"
  | atyp :: rest =>
    if atyp = 1 then
      if short : (atyp :: rest).length < 5 then .error "short ipv4 target"
      else .ok (.ipv4 ⟨rest.take 4,List.length_take_of_le (by simp at short; omega)⟩,5)
    else if atyp = 3 then
      if (atyp :: rest).length < 2 then .error "short domain target"
      else
        let dlen := (rest.getD 0 0).toNat
        if (atyp :: rest).length < 2 + dlen + 2 then .error "short domain target"
        else
          match fromUtf8 ((rest.drop 1).take dlen) with
          | none => .error "invalid domain utf8"
          | some name => .ok (.domain name,2 + dlen + 2)
    else if atyp = 4 then
      if short : (atyp :: rest).length < 17 then .error "short ipv6 target"
      else .ok (.ipv6 ⟨rest.take 16,List.length_take_of_le (by simp at short; omega)⟩,17)
    else .error ("unknown address type: " ++ toString atyp.toNat)

def parseTargetFromBytes (data : Bytes) : Except String Destination := do
  let (address,consumed) ← targetAddress data
  if data.length < consumed then .error "missing port" else
    .ok (tcpDestination address ⟨be16 ((data.drop (consumed - 2)).take 2)⟩)

def socks5AddrLen : Bytes → Nat
  | [] => 0
  | atyp :: rest =>
    if atyp = 1 then 1 + 4 + 2
    else if atyp = 3 then if (atyp :: rest).length < 2 then 1 else 1 + 1 + (rest.getD 0 0).toNat + 2
    else if atyp = 4 then 1 + 16 + 2
    else (atyp :: rest).length

-- What surrounds one call: what the dispatcher answers, whether the link takes the rest of the first chunk, what the
-- link produces, how many chunks go up and how many bytes go down before one of the two directions ends, and the
-- result of the download if it is the one that ends.
structure Surroundings where
  dispatched : Except String Unit
  forwarded : Except String Unit
  link : Bytes
  relayed : Nat
  copied : Nat
  ended : Option (Except String Unit)

-- From the call of the dispatcher on: what it was called with, what the link got of the first chunk and of the later
-- ones, and what was written to the client.
structure Relayed where
  dispatch : Session × Destination
  forwarded : Bytes
  uploaded : Bytes
  downloaded : Bytes
  result : Except String Unit

-- The two handlers run alike and differ in the labels of their errors.
structure RelayLabels where
  read : String
  closed : String
  empty : String
  write : String
  copy : String

variable (suite : Suite) {c : CipherType}

def relayUp (key : Bytes) : Nat → Octets c.nonceSize → Stream cap → Bytes
  | 0,_,_ => []
  | n + 1,nonce,stream =>
    match readChunk suite key nonce stream with
    | .ok (some data,nonce,stream) => data ++ relayUp key n nonce stream
    | _ => []

-- The link's bytes are copied to the client as they are.
def serveTarget (labels : RelayLabels) (key : Bytes) (session : Session) (around : Surroundings) (firstChunk : Bytes)
    (target : Destination) (nonce : Octets c.nonceSize) (stream : Stream cap) : Relayed :=
  let called := (aimedAt session target,target)
  let headerSize := socks5AddrLen firstChunk
  match around.dispatched with
  | .error e => ⟨called,[],[],[],.error e⟩
  | .ok () =>
    match (if headerSize < firstChunk.length then around.forwarded else .ok ()) with
    | .error e => ⟨called,[],[],[],.error (labels.write ++ e)⟩
    | .ok () =>
      ⟨called,firstChunk.drop headerSize,relayUp suite key around.relayed nonce stream,around.link.take around.copied,
        match around.ended with
        | some (.error e) => .error (labels.copy ++ e)
        | _ => .ok ()⟩

def runInbound (labels : RelayLabels) (c : CipherType) (key : Bytes) (session : Session) (around : Surroundings)
    (stream : Stream cap) : Reading Relayed := do
  let (chunk,nonce,stream) ← labelled labels.read (readChunk suite key (Octets.zero c.nonceSize) stream)
  match chunk with
  | none => .error (.error labels.closed)
  | some firstChunk =>
    if firstChunk.isEmpty then .error (.error labels.empty) else
      let target ← fallible (parseTargetFromBytes firstChunk)
      .ok (serveTarget suite labels key session around firstChunk target nonce stream)

structure Handler where
  cipher : CipherType
  key : Bytes

def Handler.labels : RelayLabels :=
  ⟨"ss2022 read first chunk: ","ss2022: connection closed","ss2022: empty first chunk","ss2022 write payload: ","ss2022 copy: "⟩

def Handler.process (handler : Handler) (session : Session) (around : Surroundings) (stream : Stream cap) : Reading Relayed :=
  runInbound suite Handler.labels handler.cipher handler.key session around stream

theorem runInbound_downloaded (served : runInbound suite labels c key session around stream = .ok relayed) :
    ∃ n, relayed.downloaded = around.link.take n := by
  obtain ⟨⟨chunk,nonce,rest⟩,-,served⟩ := checked_bind served
  cases chunk with
  | none => cases served
  | some firstChunk =>
    dsimp only at served
    split at served
    · cases served
    · obtain ⟨target,-,served⟩ := checked_bind served
      cases served
      rw [serveTarget]
      split
      · exact ⟨0,rfl⟩
      · split
        · exact ⟨0,rfl⟩
        · exact ⟨around.copied,rfl⟩

theorem ReadsAll.silent {received} (reads : ReadsAll suite key nonce client received) (part : client.text = (received.flatMap Prod.fst).take n) :
    received.flatMap Prod.fst = [] := by
  have lengths := reads.length
  rw [part,length_take] at lengths
  have none_read : received = [] := eq_nil_of_length_eq_zero (by omega)
  rw [none_read]
  rfl

theorem downlink_decodes_iff (handler : Handler) (session : Session) (around : Surroundings) (stream : Stream cap)
    (served : handler.process suite session around stream = .ok relayed) (client : Stream room)
    (arrives : client.text = relayed.downloaded) (closed : client.ending = .closed) :
    (∃ received, ReadsAll suite handler.key (Octets.zero handler.cipher.nonceSize) client received ∧
      received.flatMap Prod.fst = around.link) ↔ around.link = [] := by
  obtain ⟨n,part⟩ := runInbound_downloaded suite served
  constructor
  · rintro ⟨received,reads,same⟩
    rw [← same]
    refine reads.silent suite (n := n) ?_
    rw [arrives,part,same]
  · intro silent
    have empty : client.text.length = 0 := by rw [arrives,part,silent,take_nil]; rfl
    have last : readChunk suite handler.key (Octets.zero handler.cipher.nonceSize) client =
        .ok (none,Octets.zero _,⟨[],client.ending⟩) := by
      rw [readChunk,readExact_short client (by omega),closed]
      rfl
    exact ⟨[],.ended last,silent.symm⟩

-- A handler that is sent the target 1.2.3.4 with the port 772 and answers with one byte of the link.
def sampleHandler : Handler := ⟨.aes128Gcm,sampleKey.val⟩
def sampleChunk : Bytes := [1,1,2,3,4,3,4]
def sampleAround (link : Bytes) : Surroundings := ⟨.ok (),.ok (),link,0,link.length,none⟩

def sampleWire : Bytes :=
  exposedTag (n := 12) (fun key => key.val.headD 0) (fun nonce => nonce.val.getLastD 0) sampleKey sampleNonce ++ [0,7] ++
    exposedTag (n := 12) (fun key => key.val.headD 0) (fun nonce => nonce.val.getLastD 0) sampleKey (next sampleNonce) ++ sampleChunk

def sampleStream : Stream 64 := ⟨[some ⟨sampleWire,by decide⟩],.stillOpen⟩

def sampleTarget : Destination := tcpDestination (.ipv4 ⟨[1,2,3,4],rfl⟩) ⟨772⟩

theorem sampleHandler_serves : sampleHandler.process exposedSuite aimed (sampleAround link) sampleStream =
      .ok ⟨(aimedAt aimed sampleTarget,sampleTarget),[],[],link,.ok ()⟩ := by
  have read : readChunk exposedSuite sampleHandler.key (Octets.zero sampleHandler.cipher.nonceSize) sampleStream =
      .ok (some sampleChunk,next (next sampleNonce),⟨[],.stillOpen⟩) := by
    rfl
  have parsed : parseTargetFromBytes sampleChunk = .ok sampleTarget := by rfl
  rw [Handler.process,runInbound,read]
  change (do let target ← fallible (parseTargetFromBytes sampleChunk); _) = _
  rw [parsed]
  simp [fallible,serveTarget,sampleAround,socks5AddrLen,sampleChunk,relayUp]

def sampleClient : Stream 64 := ⟨[some ⟨[9],by decide⟩],.closed⟩

theorem downlink_decodes_iff_exposed :
    (∃ received, ReadsAll exposedSuite sampleKey.val sampleNonce sampleClient received ∧ received.flatMap Prod.fst = [9]) ↔
      ([9] : Bytes) = [] :=
  downlink_decodes_iff exposedSuite sampleHandler aimed _ sampleStream (sampleHandler_serves) sampleClient
    rfl rfl

theorem downlink_sent_plain : (∃ relayed, sampleHandler.process exposedSuite aimed (sampleAround [9]) sampleStream = .ok relayed ∧
      relayed.downloaded = sampleClient.text) ∧
    ¬ ∃ received, ReadsAll exposedSuite sampleKey.val sampleNonce sampleClient received ∧ received.flatMap Prod.fst = [9] := by
  refine ⟨⟨_,sampleHandler_serves,rfl⟩,?_⟩
  rintro ⟨received,reads,same⟩
  have silent := reads.silent exposedSuite (n := 1) (by rw [same]; rfl)
  rw [same] at silent
  cases silent

-- What an encoded target and the parser agree on: the parser reads the last two bytes of an IPv4 address as the port.
def PortInAddress : Address → UInt16 → Prop
  | .ipv4 octets,port => be16 (octets.val.drop 2) = port
  | _,_ => False

theorem parse_ipv4 : parseTargetFromBytes (encodeTarget (.ipv4 octets) port ++ payload) = .ok (tcpDestination (.ipv4 octets) ⟨be16 (octets.val.drop 2)⟩) := by
  have width := octets.property
  have tail : (octets.val.drop 2).length = 2 := by rw [length_drop,width]
  have address : targetAddress (encodeTarget (.ipv4 octets) port ++ payload) = .ok (.ipv4 octets,5) := by
    simp [encodeTarget,targetAddress,width]
  have long : ¬ (encodeTarget (.ipv4 octets) port ++ payload).length < 5 := by simp [encodeTarget,width]
  have ending : ((encodeTarget (.ipv4 octets) port ++ payload).drop 3).take 2 = octets.val.drop 2 := by
    change (((octets.val ++ u16ToBe port) ++ payload).drop 2).take 2 = _
    rw [append_assoc,drop_append_of_le_length (by omega),take_front tail]
  rw [parseTargetFromBytes,address,ok_bind]
  dsimp only
  rw [if_neg long,ending]

theorem parse_ipv6 (parsed : parseTargetFromBytes (encodeTarget (.ipv6 octets) port ++ payload) = .ok target) : ∃ name, target.address = .domain name := by
  obtain ⟨⟨address,consumed⟩,found,parsed⟩ := checked_bind parsed
  dsimp only at parsed
  split at parsed
  · cases parsed
  · cases parsed
    rw [encodeTarget,cons_append,targetAddress,if_neg (by decide),if_pos rfl] at found
    split at found
    · cases found
    · dsimp only at found
      split at found
      · cases found
      · split at found
        · cases found
        · rename_i name _
          cases found
          exact ⟨name,rfl⟩

theorem parsed_iff (address port payload) :
    parseTargetFromBytes (encodeTarget address port ++ payload) = .ok (tcpDestination address ⟨port⟩) ↔ PortInAddress address port := by
  cases address with
  | ipv4 octets =>
    rw [parse_ipv4]
    simp [tcpDestination,PortInAddress]
  | ipv6 octets =>
    refine iff_of_false ?_ id
    intro parsed
    obtain ⟨name,other⟩ := parse_ipv6 parsed
    cases other
  | domain name =>
    exact iff_of_false (fun parsed => by cases parsed) id

theorem addrLen_encoded (payload) (agrees : PortInAddress address port) :
    socks5AddrLen (encodeTarget address port ++ payload) = (encodeTarget address port).length := by
  cases address with
  | ipv4 octets =>
    have width := octets.property
    simp [encodeTarget,socks5AddrLen,width]
  | ipv6 octets | domain name => exact agrees.elim

theorem runInbound_first (read : readChunk suite key (Octets.zero c.nonceSize) stream = .ok (some first,left,rest)) (present : first ≠ []) :
    runInbound suite labels c key session around stream = (do
      let target ← fallible (parseTargetFromBytes first)
      .ok (serveTarget suite labels key session around first target left rest)) := by
  have nonempty : ¬ first.isEmpty = true := by rwa [List.isEmpty_iff]
  rw [runInbound,read,labelled_ok,ok_bind]
  dsimp only
  rw [if_neg nonempty]

theorem encodeTarget_present (address port) (payload : Bytes) : encodeTarget address port ++ payload ≠ [] := by
  cases address <;> exact cons_ne_nil _ _

theorem target_header_iff (address : Address) (port : UInt16) (payload : Bytes) :
    (parseTargetFromBytes (encodeTarget address port ++ payload) = .ok (tcpDestination address ⟨port⟩) ∧
      socks5AddrLen (encodeTarget address port ++ payload) = (encodeTarget address port).length ↔ PortInAddress address port) ∧
    ∀ {cap} (suite : Suite) (handler : Handler) (session : Session) (around : Surroundings) (stream rest : Stream cap) left,
      readChunk suite handler.key (Octets.zero handler.cipher.nonceSize) stream =
        .ok (some (encodeTarget address port ++ payload),left,rest) →
      around.dispatched = .ok () → around.forwarded = .ok () →
      ((∃ relayed, handler.process suite session around stream = .ok relayed ∧
        relayed.dispatch = (aimedAt session (tcpDestination address ⟨port⟩),tcpDestination address ⟨port⟩) ∧
        relayed.forwarded = payload) ↔ PortInAddress address port) := by
  have parsed := parsed_iff address port payload
  refine ⟨⟨fun held => parsed.mp held.1,fun agrees => ⟨parsed.mpr agrees,addrLen_encoded payload agrees⟩⟩,?_⟩
  intro cap suite handler session around stream rest left read dispatched forwarded
  rw [Handler.process,runInbound_first suite read (encodeTarget_present address port payload)]
  constructor
  · rintro ⟨relayed,served,called,-⟩
    obtain ⟨target,found,served⟩ := checked_bind served
    refine parsed.mp ?_
    cases served
    cases decoded : parseTargetFromBytes _ with
    | error e => rw [decoded] at found; cases found
    | ok other =>
      rw [decoded] at found
      cases found
      have same : target = tcpDestination address ⟨port⟩ := by
        rw [serveTarget,dispatched] at called
        dsimp only at called
        split at called <;> exact congrArg Prod.snd called
      rw [same]
  · intro agrees
    rw [parsed.mpr agrees]
    refine ⟨_,rfl,?_⟩
    rw [serveTarget,dispatched,forwarded,ite_self,addrLen_encoded payload agrees,drop_left]
    exact ⟨rfl,rfl⟩

theorem target_header_iff_sample :
    ∃ relayed, sampleHandler.process exposedSuite aimed (sampleAround []) sampleStream = .ok relayed ∧
      relayed.dispatch = (aimedAt aimed sampleTarget,sampleTarget) ∧ relayed.forwarded = [] :=
  ((target_header_iff (.ipv4 ⟨[1,2,3,4],rfl⟩) 772 []).2 exposedSuite sampleHandler aimed _ sampleStream
    ⟨[],.stillOpen⟩ _ rfl rfl rfl).mpr rfl

-- The target 127.0.0.1 with the port 80 arrives with the port 1.
theorem target_header_misread : parseTargetFromBytes (encodeTarget (.ipv4 ⟨[127,0,0,1],rfl⟩) 80 ++ [5]) =
      .ok (tcpDestination (.ipv4 ⟨[127,0,0,1],rfl⟩) ⟨1⟩) := by rfl

end AstraCore.Shadowsocks2022
