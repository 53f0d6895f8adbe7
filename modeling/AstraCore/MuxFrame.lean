import AstraCore.NetAddress
import AstraCore.LossyUtf8

namespace AstraCore.MuxFrame
open CheckedBytes NetAddress LossyUtf8

inductive SessionStatus where
  | new
  | keep
  | end_
  | keepAlive
deriving DecidableEq, Repr

def SessionStatus.asByte : SessionStatus → UInt8
  | .new => 1
  | .keep => 2
  | .end_ => 3
  | .keepAlive => 4

def SessionStatus.fromByte (b : UInt8) : Option SessionStatus :=
  if b = 1 then some .new
  else if b = 2 then some .keep
  else if b = 3 then some .end_
  else if b = 4 then some .keepAlive
  else none

structure FrameOption where
  bits : UInt8
deriving DecidableEq, Repr

def FrameOption.data : UInt8 := 1
def FrameOption.error : UInt8 := 2
def FrameOption.new : FrameOption := ⟨0⟩
def FrameOption.set (opt : FrameOption) (bit : UInt8) : FrameOption := ⟨opt.bits ||| bit⟩
def FrameOption.has (opt : FrameOption) (bit : UInt8) : Bool := opt.bits &&& bit != 0

inductive TargetNetwork where
  | tcp
  | udp
deriving DecidableEq, Repr

def TargetNetwork.asByte : TargetNetwork → UInt8
  | .tcp => 1
  | .udp => 2

def TargetNetwork.fromByte (b : UInt8) : Option TargetNetwork :=
  if b = 1 then some .tcp else if b = 2 then some .udp else none

structure MuxInbound where
  source : Option Destination
  local_ : Option Destination
deriving DecidableEq

structure FrameMetadata where
  sessionId : UInt16
  status : SessionStatus
  option : FrameOption
  target : Option Destination
  inbound : Option MuxInbound
  globalId : Octets 8
deriving DecidableEq

def FrameMetadata.new (sessionId : UInt16) (status : SessionStatus) : FrameMetadata :=
  ⟨sessionId,status,.new,none,none,.zero 8⟩

section
variable (metadata : FrameMetadata)

def FrameMetadata.hasData : Bool := metadata.option.has FrameOption.data

def encodeAddressPort (target : Destination) : Bytes :=
  match target.address with
  | .ipv4 octets => u16ToBe target.port.value ++ [1] ++ octets.val
  | .domain name =>
    let b := asBytes name
    u16ToBe target.port.value ++ [2] ++ [UInt8.ofNat (min b.length 255)] ++ b.take (min b.length 255)
  | .ipv6 octets => u16ToBe target.port.value ++ [3] ++ octets.val

def targetByte (target : Destination) : UInt8 :=
  match target.network with
  | .tcp => TargetNetwork.tcp.asByte
  | .udp => TargetNetwork.udp.asByte
  | _ => TargetNetwork.tcp.asByte

def encodeInboundEnd : Option Destination → Bytes
  | some dest =>
    if dest.network = .tcp ∨ dest.network = .udp then
      (if dest.network = .tcp then 0 else 1) :: encodeAddressPort dest
    else []
  | none => []

def targetIsUdp : Option Destination → Bool
  | some target => target.network = .udp
  | none => false

def FrameMetadata.encode : Bytes :=
  u16ToBe metadata.sessionId ++ [metadata.status.asByte,metadata.option.bits] ++
    if metadata.status = .new then
      (match metadata.target with
        | some target => targetByte target :: encodeAddressPort target
        | none => []) ++
      match metadata.inbound with
      | some inbound => encodeInboundEnd inbound.source ++ encodeInboundEnd inbound.local_
      | none => if targetIsUdp metadata.target ∧ metadata.globalId ≠ .zero 8 then metadata.globalId.val else []
    else []

end

def TargetNetwork.destination (network : TargetNetwork) (address : Address) (port : Port) : Destination :=
  match network with
  | .tcp => tcpDestination address port
  | .udp => udpDestination address port

-- Every index below stands behind a length check of its own, so the default is never read.
def decodeAddressPort (data : Bytes) (network : TargetNetwork) : Except String (Destination × Nat) :=
  if data.length < 3 then .error "truncated: need at least port(2) + addr_type(1)"
  else
    let port : Port := ⟨be16 (data.take 2)⟩
    let addrType := data.getD 2 0
    if addrType = 1 then
      if short : data.length < 3 + 4 then .error "truncated IPv4 address"
      else .ok (network.destination (.ipv4 ⟨(data.drop 3).take 4,by simp; omega⟩) port,7)
    else if addrType = 2 then
      if data.length < 3 + 1 then .error "truncated domain length"
      else
        let domainLen := (data.getD 3 0).toNat
        if data.length < 4 + domainLen then .error "truncated domain"
        else .ok (network.destination (.domain (fromUtf8Lossy ((data.drop 4).take domainLen))) port,4 + domainLen)
    else if addrType = 3 then
      if short : data.length < 3 + 16 then .error "truncated IPv6 address"
      else .ok (network.destination (.ipv6 ⟨(data.drop 3).take 16,by simp; omega⟩) port,19)
    else .error ("unknown address type: " ++ toString addrType.toNat)

section
variable (buf : Bytes)

-- An end is only looked for behind a nonzero byte, and is then always a UDP one.
def decodeInboundEnd (offset : Nat) : Except String (Option Destination × Nat) :=
  if offset < buf.length ∧ buf.getD offset 0 ≠ 0 then do
    let (dest,consumed) ← decodeAddressPort (buf.drop (offset + 1)) (if buf.getD offset 0 = 0 then .tcp else .udp)
    .ok (some dest,offset + 1 + consumed)
  else .ok (none,offset)

def decodeInbound (offset : Nat) (readSourceAndLocal : Bool) : Except String (Option MuxInbound × Nat) :=
  if readSourceAndLocal then do
    let (source,offset) ← decodeInboundEnd buf offset
    match source with
    | none => .ok (none,offset)
    | some source =>
      let (local_,offset) ← decodeInboundEnd buf offset
      .ok (some ⟨some source,local_⟩,offset)
  else .ok (none,offset)

def decodeNew (metadata : FrameMetadata) (readSourceAndLocal : Bool) : Except String (FrameMetadata × Nat) :=
  if buf.length < 4 + 1 then .error "truncated: missing target network"
  else
    match TargetNetwork.fromByte (buf.getD 4 0) with
    | none => .error ("unknown target network: " ++ toString (buf.getD 4 0).toNat)
    | some network => do
      let (dest,consumed) ← decodeAddressPort (buf.drop 5) network
      let (inbound,offset) ← decodeInbound buf (5 + consumed) readSourceAndLocal
      let metadata := {metadata with target := some dest,inbound}
      if room : (targetIsUdp metadata.target ∧ metadata.hasData) ∧ buf.length ≥ offset + 8 then
        .ok ({metadata with globalId := ⟨(buf.drop offset).take 8,by simp; omega⟩},offset + 8)
      else .ok (metadata,offset)

def decodeKeep (metadata : FrameMetadata) : Except String (FrameMetadata × Nat) :=
  if 4 < buf.length ∧ TargetNetwork.fromByte (buf.getD 4 0) = some .udp then do
    let (dest,consumed) ← decodeAddressPort (buf.drop 5) .udp
    .ok ({metadata with target := some dest},5 + consumed)
  else .ok (metadata,4)

def FrameMetadata.decode (readSourceAndLocal : Bool) : Except String (FrameMetadata × Nat) :=
  if buf.length < 4 then .error "insufficient buffer for mux frame metadata"
  else
    match SessionStatus.fromByte (buf.getD 2 0) with
    | none => .error ("unknown session status: " ++ toString (buf.getD 2 0).toNat)
    | some status =>
      let metadata : FrameMetadata := ⟨be16 (buf.take 2),status,⟨buf.getD 3 0⟩,none,none,.zero 8⟩
      match status with
      | .new => decodeNew buf metadata readSourceAndLocal
      | .keep => decodeKeep buf metadata
      | .end_ | .keepAlive => .ok (metadata,4)

def encodeFrame (metadata : FrameMetadata) (data : Option Bytes) : Bytes :=
  let metaBuf := metadata.encode
  u16ToBe (UInt16.ofNat metaBuf.length) ++ metaBuf ++
    match data with
    | some data => u16ToBe (UInt16.ofNat data.length) ++ data
    | none => []

def readExact (purpose : String) (n : Nat) (stream : Bytes) : Except String (Bytes × Bytes) :=
  if stream.length < n then .error (purpose ++ ": early eof") else .ok (stream.take n,stream.drop n)

abbrev Frame := FrameMetadata × Option Bytes

def readFrame (stream : Bytes) : Except String (Frame × Bytes) := do
  let (lenBuf,stream) ← readExact "read meta len" 2 stream
  let (metaBuf,stream) ← readExact "read meta" (be16 lenBuf).toNat stream
  let (metadata,_) ← FrameMetadata.decode metaBuf false
  if metadata.hasData then do
    let (lenBuf,stream) ← readExact "read data len" 2 stream
    let (data,stream) ← readExact "read data" (be16 lenBuf).toNat stream
    .ok ((metadata,some data),stream)
  else .ok ((metadata,none),stream)

def readFrames : Nat → Bytes → Except String (List Frame × Bytes)
  | 0,stream => .ok ([],stream)
  | count + 1,stream => do
    let (frame,stream) ← readFrame stream
    let (frames,stream) ← readFrames count stream
    .ok (frame :: frames,stream)

theorem status_roundtrip : SessionStatus.fromByte status.asByte = some status := by
  cases status <;> rfl

theorem network_roundtrip (network) : TargetNetwork.fromByte network.asByte = some network := by
  cases network <;> rfl

-- What the wire can carry: the length of a domain is one byte.
def Fits : Address → Prop
  | .domain name => (asBytes name).length ≤ 255
  | _ => True

structure Announces (data : Bytes) (port : UInt16) (kind : UInt8) (tail : Bytes) : Prop where
  length : data.length = 3 + tail.length
  port : be16 (data.take 2) = port
  kind : data.getD 2 0 = kind
  tail : data.drop 3 = tail

theorem announces (port kind) (tail : Bytes) : Announces (u16ToBe port ++ kind :: tail) port kind tail := by
  have width := u16ToBe_length port
  refine ⟨by simp; omega,by rw [take_front width,be16_roundtrip],?_,?_⟩
  · exact getD_front width _ 0
  · rw [← List.singleton_append,← List.append_assoc]
    exact drop_front (by simp) _

theorem decode_ipv4 (announced : Announces data port 1 (octets ++ rest)) (width : octets.length = 4) (network) :
    decodeAddressPort data network = .ok (network.destination (.ipv4 ⟨octets,width⟩) ⟨port⟩,7) := by
  have length := announced.length
  rw [List.length_append] at length
  rw [decodeAddressPort,if_neg (by omega)]
  rw [if_pos announced.kind,dif_neg (by omega)]
  simp only [announced.tail,announced.port,take_front width]

theorem decode_ipv6 (announced : Announces data port 3 (octets ++ rest)) (width : octets.length = 16) (network) :
    decodeAddressPort data network = .ok (network.destination (.ipv6 ⟨octets,width⟩) ⟨port⟩,19) := by
  have length := announced.length
  rw [List.length_append] at length
  rw [decodeAddressPort,if_neg (by omega)]
  rw [announced.kind,if_neg (by decide),if_neg (by decide),if_pos rfl,dif_neg (by omega)]
  simp only [announced.tail,announced.port,take_front width]

theorem decode_domain (announced : Announces data port 2 (size :: (name ++ rest))) (width : name.length = size.toNat) (network) :
    decodeAddressPort data network = .ok (network.destination (.domain (fromUtf8Lossy name)) ⟨port⟩,4 + size.toNat) := by
  have length := announced.length
  rw [List.length_cons,List.length_append] at length
  have announcedSize : data.getD 3 0 = size := by
    have head := congrArg (List.getD · 0 0) announced.tail
    simpa using head
  have behind : data.drop 4 = name ++ rest := by
    have tail := congrArg (List.drop 1) announced.tail
    simpa using tail
  rw [decodeAddressPort,if_neg (by omega)]
  rw [announced.kind,if_neg (by decide),if_pos rfl,if_neg (by omega),announcedSize,if_neg (by omega),behind,take_front width,announced.port]

def TargetNetwork.network : TargetNetwork → Network
  | .tcp => .tcp
  | .udp => .udp

theorem destination_eq (network : TargetNetwork) (same : target.network = network.network) : network.destination target.address target.port = target := by
  obtain ⟨address,port,net⟩ := target
  cases network <;> simp_all [TargetNetwork.destination,TargetNetwork.network,tcpDestination,udpDestination]

theorem decodeAddressPort_encode (same : target.network = network.network) (fits : Fits target.address) :
    decodeAddressPort (encodeAddressPort target ++ rest) network = .ok (target,(encodeAddressPort target).length) := by
  obtain ⟨address,⟨port⟩,net⟩ := target
  have whole := destination_eq network same
  cases address with
  | ipv4 octets =>
    have decoded := decode_ipv4 (announces port 1 (octets.val ++ rest)) octets.property network
    simpa [encodeAddressPort,octets.property,whole] using decoded
  | ipv6 octets =>
    have decoded := decode_ipv6 (announces port 3 (octets.val ++ rest)) octets.property network
    simpa [encodeAddressPort,octets.property,whole] using decoded
  | domain name =>
    have short := Nat.min_eq_left fits
    have size := UInt8.toNat_ofNat_of_lt' (Nat.lt_succ_of_le fits)
    have decoded := decode_domain (announces port 2 (UInt8.ofNat (asBytes name).length :: (asBytes name ++ rest)))
      size.symm network
    have length : (encodeAddressPort ⟨.domain name,⟨port⟩,net⟩).length = 4 + (asBytes name).length := by
      simp [encodeAddressPort]
      omega
    rw [fromUtf8Lossy_asBytes,size,whole] at decoded
    rw [length]
    simpa [encodeAddressPort,short] using decoded

structure Regular (metadata : FrameMetadata) : Prop where
  inbound : metadata.inbound = none
  targeted : metadata.status = .new ↔ metadata.target.isSome
  target : ∀ target, metadata.target = some target → (target.network = .tcp ∨ target.network = .udp) ∧ Fits target.address
  globalId : ¬ (targetIsUdp metadata.target ∧ metadata.hasData) → metadata.globalId = .zero 8

theorem encodeAddressPort_length (fits : Fits target.address) : (encodeAddressPort target).length ≤ 259 := by
  obtain ⟨address,port,net⟩ := target
  cases address with
  | ipv4 octets | ipv6 octets => simp [encodeAddressPort,octets.property]
  | domain name => simp [encodeAddressPort]; omega

theorem targetByte_network (target) (known : target.network = .tcp ∨ target.network = .udp) :
    ∃ network : TargetNetwork, target.network = network.network ∧ targetByte target = network.asByte := by
  rcases known with tcp | udp
  · exact ⟨.tcp,tcp,by rw [targetByte,tcp]⟩
  · exact ⟨.udp,udp,by rw [targetByte,udp]⟩

structure Heads (metadata : FrameMetadata) (body : Bytes) : Prop where
  length : buf.length = 4 + body.length
  sessionId : be16 (buf.take 2) = metadata.sessionId
  status : SessionStatus.fromByte (buf.getD 2 0) = some metadata.status
  option : (⟨buf.getD 3 0⟩ : FrameOption) = metadata.option
  index : ∀ k, buf.getD (4 + k) 0 = body.getD k 0
  drop : ∀ k, buf.drop (4 + k) = body.drop k

end

theorem heads (metadata body) : Heads (u16ToBe metadata.sessionId ++ [metadata.status.asByte,metadata.option.bits] ++ body) metadata body := by
  have width := u16ToBe_length metadata.sessionId
  have four : (u16ToBe metadata.sessionId ++ [metadata.status.asByte,metadata.option.bits]).length = 4 := by simp
  refine ⟨by simp; omega,?_,?_,?_,getD_front four body,?_⟩
  · rw [List.append_assoc,take_front width,be16_roundtrip]
  · exact status_roundtrip
  · rfl
  · intro k
    rw [← List.drop_drop,drop_front four]

theorem decode_of_heads (head : Heads buf metadata body) : FrameMetadata.decode buf readSourceAndLocal =
      let plain : FrameMetadata := ⟨metadata.sessionId,metadata.status,metadata.option,none,none,.zero 8⟩
      match metadata.status with
      | .new => decodeNew buf plain readSourceAndLocal
      | .keep => decodeKeep buf plain
      | .end_ | .keepAlive => .ok (plain,4) := by
  have length := head.length
  rw [FrameMetadata.decode,if_neg (by omega),head.status]
  simp only [head.sessionId,head.option]

theorem Regular.plain (regular : Regular metadata) (other : metadata.status ≠ .new) :
    (⟨metadata.sessionId,metadata.status,metadata.option,none,none,.zero 8⟩ : FrameMetadata) = metadata := by
  have untargeted : metadata.target = none := by
    rw [← Option.not_isSome_iff_eq_none]
    exact fun some => other (regular.targeted.mpr some)
  have zero := regular.globalId (by simp [untargeted,targetIsUdp])
  have inbound := regular.inbound
  cases metadata
  simp_all

theorem Regular.filled {target : Destination} (regular : Regular metadata) (targeted : metadata.target = some target) :
    (⟨metadata.sessionId,metadata.status,metadata.option,some target,none,metadata.globalId⟩ : FrameMetadata) = metadata := by
  rw [← targeted,← regular.inbound]

def globalIdBytes (metadata : FrameMetadata) : Bytes :=
  if targetIsUdp metadata.target ∧ metadata.globalId ≠ .zero 8 then metadata.globalId.val else []

theorem decodeNew_encode (regular : Regular metadata) (targeted : metadata.target = some target)
    (head : Heads buf metadata (targetByte target :: encodeAddressPort target ++ globalIdBytes metadata)) :
    ∃ used, decodeNew buf ⟨metadata.sessionId,metadata.status,metadata.option,none,none,.zero 8⟩ false = .ok (metadata,used) := by
  obtain ⟨known,fits⟩ := regular.target target targeted
  obtain ⟨network,same,byte⟩ := targetByte_network target known
  have length := head.length
  simp only [List.length_cons,List.length_append] at length
  have kind := (head.index 0).trans byte
  have address : buf.drop 5 = encodeAddressPort target ++ globalIdBytes metadata := head.drop 1
  have behind : buf.drop (5 + (encodeAddressPort target).length) = globalIdBytes metadata := by
    rw [← List.drop_drop,address,List.drop_left]
  rw [decodeNew,if_neg (by omega),kind,network_roundtrip]
  dsimp only
  rw [address,decodeAddressPort_encode same fits]
  simp only [ok_bind,decodeInbound,Bool.false_eq_true,if_false,behind]
  by_cases written : targetIsUdp metadata.target ∧ metadata.globalId ≠ .zero 8
  · have bytes : globalIdBytes metadata = metadata.globalId.val := if_pos written
    have carried : metadata.hasData := by
      by_contra without
      exact written.2 (regular.globalId (fun both => without both.2))
    rw [bytes,metadata.globalId.property] at length
    rw [dif_pos ⟨⟨by rw [← targeted]; exact written.1,carried⟩,by omega⟩]
    refine ⟨_,congrArg Except.ok (Prod.ext ?_ rfl)⟩
    have exactly : (globalIdBytes metadata).take 8 = metadata.globalId.val := by
      rw [bytes,List.take_of_length_le (by rw [metadata.globalId.property])]
    refine Eq.trans ?_ (regular.filled targeted)
    simp only [exactly]
  · have bytes : globalIdBytes metadata = [] := if_neg written
    have zero : metadata.globalId = .zero 8 := by
      by_contra other
      exact other (regular.globalId (fun both => written ⟨both.1,other⟩))
    rw [bytes,List.length_nil] at length
    rw [dif_neg (fun room => by omega),← zero]
    exact ⟨_,congrArg Except.ok (Prod.ext (regular.filled targeted) rfl)⟩

theorem encode_new (targeted : metadata.target = some target) (opened : metadata.status = .new) (inbound : metadata.inbound = none) :
    metadata.encode = u16ToBe metadata.sessionId ++ [metadata.status.asByte,metadata.option.bits] ++
      (targetByte target :: encodeAddressPort target ++ globalIdBytes metadata) := by
  rw [FrameMetadata.encode,if_pos opened,inbound,globalIdBytes,targeted]

theorem decode_encode (regular : Regular metadata) : ∃ used, FrameMetadata.decode metadata.encode false = .ok (metadata,used) := by
  by_cases opened : metadata.status = .new
  · obtain ⟨target,targeted⟩ := Option.isSome_iff_exists.mp (regular.targeted.mp opened)
    have head := heads metadata (targetByte target :: encodeAddressPort target ++ globalIdBytes metadata)
    rw [encode_new targeted opened regular.inbound,decode_of_heads head]
    simpa only [opened] using decodeNew_encode regular targeted head
  · have bare : metadata.encode = u16ToBe metadata.sessionId ++ [metadata.status.asByte,metadata.option.bits] ++ [] := by
      rw [FrameMetadata.encode,if_neg opened]
    have head := heads metadata []
    rw [bare,decode_of_heads head,regular.plain opened]
    have short := head.length
    cases status : metadata.status with
    | new => exact absurd status opened
    | keep => exact ⟨4,by simp only; rw [decodeKeep,if_neg (by simp at short ⊢)]⟩
    | end_ | keepAlive => exact ⟨4,rfl⟩

theorem encode_length (regular : Regular metadata) : metadata.encode.length < 2^16 := by
  by_cases opened : metadata.status = .new
  · obtain ⟨target,targeted⟩ := Option.isSome_iff_exists.mp (regular.targeted.mp opened)
    have address := encodeAddressPort_length (regular.target target targeted).2
    have behind : (globalIdBytes metadata).length ≤ 8 := by
      rw [globalIdBytes]
      split
      · rw [metadata.globalId.property]
      · simp
    rw [encode_new targeted opened regular.inbound]
    simp
    omega
  · rw [FrameMetadata.encode,if_neg opened]
    simp

-- A frame as `encode_frame` takes it: data exactly with the option that announces it.
structure Sendable (frame : Frame) : Prop where
  regular : Regular frame.1
  carried : frame.2.isSome ↔ frame.1.hasData
  sized : ∀ data, frame.2 = some data → data.length ≤ 65535

theorem readExact_front (width : front.length = n) (purpose rest) : readExact purpose n (front ++ rest) = .ok (front,rest) := by
  rw [readExact,if_neg (by simp; omega),take_front width,drop_front width]

theorem u16_length (short : length < 2^16) : (be16 (u16ToBe (UInt16.ofNat length))).toNat = length := by
  rw [be16_roundtrip]
  exact UInt16.toNat_ofNat_of_lt' short

theorem readFrame_encode (sendable : Sendable frame) (rest) : readFrame (encodeFrame frame.1 frame.2 ++ rest) = .ok (frame,rest) := by
  obtain ⟨metadata,data⟩ := frame
  obtain ⟨used,decoded⟩ := decode_encode sendable.regular
  have size := u16_length (encode_length sendable.regular)
  rw [readFrame]
  simp only [encodeFrame,List.append_assoc]
  rw [readExact_front (u16ToBe_length _),ok_bind]
  rw [readExact_front size.symm,ok_bind]
  rw [decoded,ok_bind]
  cases data with
  | none =>
    rw [if_neg (fun has => by simpa using sendable.carried.mpr has)]
    rfl
  | some data =>
    have sized := u16_length (Nat.lt_succ_of_le (sendable.sized data rfl))
    rw [if_pos (sendable.carried.mp rfl)]
    rw [List.append_assoc,readExact_front (u16ToBe_length _),ok_bind]
    rw [readExact_front sized.symm,ok_bind]

def wireFrames (frames : List Frame) : Bytes := frames.flatMap fun frame => encodeFrame frame.1 frame.2

theorem readFrames_wire (frames) (sendable : ∀ frame ∈ frames, Sendable frame) (rest) :
    readFrames frames.length (wireFrames frames ++ rest) = .ok (frames,rest) := by
  induction frames with
  | nil => rfl
  | cons frame frames ih =>
    have later := ih (fun other member => sendable other (by simp [member]))
    rw [wireFrames,List.flatMap_cons,List.append_assoc,List.length_cons,readFrames,readFrame_encode (sendable frame (by simp)),ok_bind]
    dsimp only
    rw [wireFrames] at later
    rw [later,ok_bind]

theorem frame_stream_roundtrip (frames : List Frame) (sendable : ∀ frame ∈ frames, Sendable frame) :
    readFrames frames.length (wireFrames frames) = .ok (frames,[]) := by
  simpa using readFrames_wire frames sendable []

def sampleFrames : List Frame :=
  [(⟨7,.new,⟨1⟩,some ⟨.domain "example.com",⟨53⟩,.udp⟩,none,⟨[1,2,3,4,5,6,7,8],rfl⟩⟩,some [1,2,3]),
    ({FrameMetadata.new 7 .keep with option := ⟨1⟩},some []),(.new 7 .end_,none)]

theorem sampleFrames_sendable : ∀ frame ∈ sampleFrames, Sendable frame := by
  intro frame member
  simp only [sampleFrames,List.mem_cons,List.not_mem_nil,or_false] at member
  rcases member with rfl | rfl | rfl
  · refine ⟨⟨rfl,by decide,?_,fun not => absurd (by decide) not⟩,by decide,by simp⟩
    rintro target same
    cases same
    have short : (asBytes "example.com").length ≤ 255 := by decide +kernel
    exact ⟨.inr rfl,short⟩
  · exact ⟨⟨rfl,by decide,by simp [FrameMetadata.new],fun _ => rfl⟩,by decide,by simp⟩
  · exact ⟨⟨rfl,by decide,by simp [FrameMetadata.new],fun _ => rfl⟩,by decide,by simp⟩

theorem frame_stream_roundtrip_sample : (∀ frame ∈ sampleFrames, Sendable frame) ∧
    readFrames sampleFrames.length (wireFrames sampleFrames) = .ok (sampleFrames,[]) :=
  ⟨sampleFrames_sendable,frame_stream_roundtrip sampleFrames sampleFrames_sendable⟩

end AstraCore.MuxFrame
