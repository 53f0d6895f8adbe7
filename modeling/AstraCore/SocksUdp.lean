import AstraCore.SocksProtocol

namespace AstraCore.Socks
open CheckedBytes NetAddress LossyUtf8 List
open MuxFrame (Fits)

-- The outer result tells of a panic, the inner one is what the source returns.
def decodeIp (n : Nat) (short : String) (data : Bytes) : Checked (Except String (Octets n × Nat)) :=
  if data.length < 1 + n then .ok (.error short)
  else do
    let ip ← slice data 1 (1 + n)
    if width : ip.length = n then .ok (.ok (⟨ip,width⟩,1 + n)) else .error .conversion

section
variable (data : Bytes)

def decodeDomain : Checked (Except String (String × Nat)) :=
  if data.length < 2 then .ok (.error "short domain")
  else do
    let dlen ← byteAt data 1
    if data.length < 2 + dlen.toNat then .ok (.error "short domain name")
    else do
      let name ← slice data 2 (2 + dlen.toNat)
      match fromUtf8 name with
      | some domain => .ok (.ok (domain,2 + dlen.toNat))
      | none => .ok (.error "invalid domain")

def addressed (kind : α → Address) (read : Except String (α × Nat)) : Except String (Address × Nat) :=
  read.map fun found => (kind found.1,found.2)

def decodeAddr : Checked (Except String (Address × Nat)) := do
  let atype ← byteAt data 0
  if atype = 1 then (decodeIp 4 "short ipv4" data).map (addressed .ipv4)
  else if atype = 3 then (decodeDomain data).map (addressed .domain)
  else if atype = 4 then (decodeIp 16 "short ipv6" data).map (addressed .ipv6)
  else .ok (.error ("unknown address type: " ++ toString atype.toNat))

def decodeAddrPort : Checked (Except String (Address × UInt16)) :=
  if data.isEmpty then .ok (.error "empty address data")
  else do
    match ← decodeAddr data with
    | .error e => .ok (.error e)
    | .ok (address,consumed) =>
      if data.length < consumed + 2 then .ok (.error "short port")
      else do
        let high ← byteAt data consumed
        let low ← byteAt data (consumed + 1)
        .ok (.ok (address,be16 [high,low]))

-- Without the two bytes of the port.
def addressWireSize : Address → Nat
  | .ipv4 _ => 1 + 4
  | .ipv6 _ => 1 + 16
  | .domain name => 1 + 1 + (asBytes name).length

def encodeUdpPacket (address : Address) (port : UInt16) (payload : Bytes) : Bytes := [0,0,0] ++ (encodeAddrPort address port ++ payload)

def decodeUdpPacket : Checked (Except String (Address × UInt16 × Bytes)) :=
  if data.length < 3 then .ok (.error "packet too short")
  else do
    let frag ← byteAt data 2
    if frag ≠ 0 then .ok (.error "fragmented packets not supported")
    else do
      let rest ← sliceFrom data 3
      match ← decodeAddrPort rest with
      | .error e => .ok (.error e)
      | .ok (address,port) =>
        let headerSize := 3 + addressWireSize address
        if data.length < headerSize then .ok (.error "packet too short for header")
        else do
          let payload ← sliceFrom data headerSize
          .ok (.ok (address,port,payload))

end

def addressBytes : Address → Bytes
  | .ipv4 ip => 1 :: ip.val
  | .ipv6 ip => 4 :: ip.val
  | .domain name => 3 :: UInt8.ofNat (asBytes name).length :: asBytes name

theorem encodeAddrPort_parts : encodeAddrPort address port = addressBytes address ++ u16ToBe port := by
  cases address <;> rfl

theorem addressBytes_length (address) : (addressBytes address).length = addressWireSize address := by
  cases address with
  | ipv4 ip | ipv6 ip => simp [addressBytes,addressWireSize,ip.property]
  | domain name =>
    simp only [addressBytes,addressWireSize,length_cons]
    omega

theorem decodeIp_front (ip : Octets n) (short kind) (rest : Bytes) : decodeIp n short (kind :: (ip.val ++ rest)) = .ok (.ok (ip,1 + n)) := by
  have width := ip.property
  rw [decodeIp,if_neg (by simp; omega),slice_ok (Nat.le_add_right ..) (by simp; omega),ok_bind,Nat.add_sub_cancel_left]
  simp only [drop_succ_cons,drop_zero,take_front width]
  rw [dif_pos width]

theorem decodeAddr_front (fits : Fits address) : decodeAddr (addressBytes address ++ rest) = .ok (.ok (address,addressWireSize address)) := by
  cases address with
  | ipv4 ip =>
    have read := decodeIp_front ip "short ipv4" 1 rest
    simp [decodeAddr,addressBytes,byteAt,read,Except.map,addressed,addressWireSize]
  | ipv6 ip =>
    have read := decodeIp_front ip "short ipv6" 4 rest
    simp [decodeAddr,addressBytes,byteAt,read,Except.map,addressed,addressWireSize]
  | domain name =>
    have size := UInt8.toNat_ofNat_of_lt' (Nat.lt_succ_of_le fits)
    have read : decodeDomain (3 :: UInt8.ofNat (asBytes name).length :: (asBytes name ++ rest)) = .ok (.ok (name,2 + (asBytes name).length)) := by
      rw [decodeDomain,if_neg (by simp),byteAt_ok (by rfl : _ = some _),ok_bind,size,
        if_neg (by simp; omega),slice_ok (Nat.le_add_right ..) (by simp; omega),ok_bind,Nat.add_sub_cancel_left]
      simp [fromUtf8_asBytes]
    simp [decodeAddr,addressBytes,byteAt,read,Except.map,addressed,addressWireSize]

theorem decodeAddrPort_front (fits : Fits address) : decodeAddrPort (addressBytes address ++ (u16ToBe port ++ rest)) = .ok (.ok (address,port)) := by
  have width := addressBytes_length address
  obtain ⟨high,low,pair⟩ := length_eq_two.mp (u16ToBe_length port)
  have value := be16_roundtrip port
  rw [pair] at value
  have first : byteAt (addressBytes address ++ (u16ToBe port ++ rest)) (addressWireSize address) = .ok high :=
    byteAt_ok (by rw [getElem?_append_right (by omega),width,pair]; simp)
  have second : byteAt (addressBytes address ++ (u16ToBe port ++ rest)) (addressWireSize address + 1) = .ok low :=
    byteAt_ok (by rw [getElem?_append_right (by omega),width,pair]; simp)
  have present : ¬ (addressBytes address ++ (u16ToBe port ++ rest)).isEmpty := by simp [pair]
  rw [decodeAddrPort,if_neg present,decodeAddr_front fits,ok_bind]
  dsimp only
  rw [if_neg (by simp [width,pair]),first,ok_bind,second,ok_bind,value]

theorem udp_decoded (fits : Fits address) : decodeUdpPacket (encodeUdpPacket address port payload) = .ok (.ok (address,port,u16ToBe port ++ payload)) := by
  have width := addressBytes_length address
  have parts : encodeUdpPacket address port payload = [0,0,0] ++ (addressBytes address ++ (u16ToBe port ++ payload)) := by
    rw [encodeUdpPacket,encodeAddrPort_parts,append_assoc]
  have length : (encodeUdpPacket address port payload).length = 3 + (addressWireSize address + (2 + payload.length)) := by
    rw [parts,length_append,length_append,length_append,width,u16ToBe_length]
    rfl
  have frag : byteAt (encodeUdpPacket address port payload) 2 = .ok 0 := rfl
  have target : (encodeUdpPacket address port payload).drop 3 = addressBytes address ++ (u16ToBe port ++ payload) := by rw [parts]; rfl
  rw [decodeUdpPacket,if_neg (by omega),frag,ok_bind,if_neg (by decide),sliceFrom_ok (by omega),ok_bind,target,decodeAddrPort_front fits,ok_bind]
  dsimp only
  rw [if_neg (by omega),sliceFrom_ok (by omega),ok_bind,← drop_drop,target,drop_front width]

theorem decodeIp_returns : ∃ result, decodeIp n short data = .ok result := by
  rw [decodeIp]
  split
  · exact ⟨_,rfl⟩
  · rw [slice_ok (Nat.le_add_right ..) (by omega),ok_bind,dif_pos (by simp; omega)]
    exact ⟨_,rfl⟩

theorem decodeDomain_returns : ∃ result, decodeDomain data = .ok result := by
  rw [decodeDomain]
  split
  · exact ⟨_,rfl⟩
  · rw [byteAt_within (by omega),ok_bind]
    split
    · exact ⟨_,rfl⟩
    · rw [slice_ok (Nat.le_add_right ..) (by omega),ok_bind]
      split <;> exact ⟨_,rfl⟩

theorem decodeAddr_returns (present : 0 < data.length) : ∃ result, decodeAddr data = .ok result := by
  obtain ⟨four,ipv4⟩ := decodeIp_returns
  obtain ⟨sixteen,ipv6⟩ := decodeIp_returns
  obtain ⟨name,domain⟩ := decodeDomain_returns
  rw [decodeAddr,byteAt_within present,ok_bind,ipv4,ipv6,domain]
  split
  · exact ⟨_,rfl⟩
  · split
    · exact ⟨_,rfl⟩
    · split <;> exact ⟨_,rfl⟩

theorem decodeAddrPort_returns : ∃ result, decodeAddrPort data = .ok result := by
  rw [decodeAddrPort]
  split
  · exact ⟨_,rfl⟩
  · rename_i present
    obtain ⟨result,read⟩ := decodeAddr_returns (length_pos_iff.mpr (fun empty => present (isEmpty_iff.mpr empty)))
    rw [read,ok_bind]
    cases result with
    | error e => exact ⟨_,rfl⟩
    | ok found =>
      dsimp only
      split
      · exact ⟨_,rfl⟩
      · rw [byteAt_within (by omega),ok_bind,byteAt_within (by omega),ok_bind]
        exact ⟨_,rfl⟩

theorem decodeUdpPacket_returns (data) : ∃ result, decodeUdpPacket data = .ok result := by
  rw [decodeUdpPacket]
  split
  · exact ⟨_,rfl⟩
  · rw [byteAt_within (by omega),ok_bind]
    split
    · exact ⟨_,rfl⟩
    · rw [sliceFrom_ok (by omega),ok_bind]
      obtain ⟨result,read⟩ := decodeAddrPort_returns
      rw [read,ok_bind]
      cases result with
      | error e => exact ⟨_,rfl⟩
      | ok found =>
        dsimp only
        split
        · exact ⟨_,rfl⟩
        · rw [sliceFrom_ok (by omega),ok_bind]
          exact ⟨_,rfl⟩

theorem udp_packet_never (address : Address) (port : UInt16) (payload : Bytes) (fits : Fits address) :
    decodeUdpPacket (encodeUdpPacket address port payload) ≠ .ok (.ok (address,port,payload)) ∧
      decodeUdpPacket (encodeUdpPacket address port payload) = .ok (.ok (address,port,u16ToBe port ++ payload)) ∧
      ∀ data, ∃ result, decodeUdpPacket data = .ok result := by
  refine ⟨?_,udp_decoded fits,decodeUdpPacket_returns⟩
  rw [udp_decoded fits]
  intro same
  have width := congrArg (fun found : Address × UInt16 × Bytes => found.2.2.length) (Except.ok.inj (Except.ok.inj same))
  simp at width

theorem udp_packet_never_two : decodeUdpPacket (encodeUdpPacket (.ipv4 (.zero 4)) 53 [1,2]) ≠ .ok (.ok (.ipv4 (.zero 4),53,[1,2])) :=
  (udp_packet_never (.ipv4 (.zero 4)) 53 [1,2] trivial).1

theorem udp_packet_shifted : ¬ decodeUdpPacket (encodeUdpPacket (.ipv4 (.zero 4)) 53 [7]) = .ok (.ok (.ipv4 (.zero 4),53,[7])) := by
  decide

end AstraCore.Socks
