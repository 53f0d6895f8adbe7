import AstraCore.MuxFrame
import AstraCore.PolledStream

namespace AstraCore.Trojan
open CheckedBytes NetAddress LossyUtf8 PolledStream
open MuxFrame (Fits)
variable {cap : Nat}

def commandTcp : UInt8 := 1
def commandUdp : UInt8 := 3

def crlf : Bytes := [13,10]

def writeAddress : Address → Checked Bytes
  | .ipv4 octets => .ok (1 :: octets.val)
  | .ipv6 octets => .ok (4 :: octets.val)
  | .domain name =>
    if (asBytes name).length ≤ 255 then .ok (3 :: UInt8.ofNat (asBytes name).length :: asBytes name) else .error .conversion

-- The command does not depend on the destination's network.
def writeTcpHeader (key : Octets 56) (address : Address) (port : UInt16) : Checked Bytes := do
  let written ← writeAddress address
  .ok (key.val ++ (crlf ++ (commandTcp :: (written ++ (u16ToBe port ++ crlf)))))

structure TrojanHeader where
  key : Octets 56
  command : UInt8
  destination : Destination
deriving DecidableEq

def commandNetwork (cmd : UInt8) : Except String Network :=
  if cmd = commandTcp then .ok .tcp
  else if cmd = commandUdp then .ok .udp
  else .error ("trojan: unknown command: " ++ toString cmd.toNat)

def sliceAddress (data : Bytes) (atype : UInt8) (offset : Nat) : Reading (Address × Nat) :=
  if atype = 1 then do
    let (octets,offset) ← sliceExact data offset 4 "short ipv4"
    .ok (.ipv4 octets,offset)
  else if atype = 4 then do
    let (octets,offset) ← sliceExact data offset 16 "short ipv6"
    .ok (.ipv6 octets,offset)
  else if atype = 3 then do
    let (dlen,offset) ← sliceExact data offset 1 "short domain len"
    let (domain,offset) ← sliceExact data offset (dlen.val.getD 0 0).toNat "short domain"
    match fromUtf8 domain.val with
    | some name => .ok (.domain name,offset)
    | none => .error (.error "invalid domain utf8")
  else .error (.error ("unknown address type: " ++ toString atype.toNat))

def assemble (key : Octets 56) (cmd : UInt8) (address : Address) (portBuf trailing : Octets 2) (rest : α) :
    Reading (TrojanHeader × α) :=
  if trailing.val ≠ crlf then .error (.error "trojan: expected trailing crlf")
  else
    match commandNetwork cmd with
    | .error e => .error (.error e)
    | .ok network => .ok (⟨key,cmd,⟨address,⟨be16 portBuf.val⟩,network⟩⟩,rest)

def sliceTarget (data : Bytes) (key : Octets 56) (cmd atype : UInt8) (offset : Nat) : Reading (TrojanHeader × Nat) := do
  let (address,offset) ← sliceAddress data atype offset
  let (portBuf,offset) ← sliceExact data offset 2 "short port"
  let (trailing,offset) ← sliceExact data offset 2 "trojan: expected trailing crlf"
  assemble key cmd address portBuf trailing offset

theorem key_width {data : Bytes} (enough : ¬ data.length < 58) : (data.take 56).length = 56 :=
  List.length_take_of_le (by omega)

-- The length is checked for the key and the line behind it only; the command and the kind of address are plain indices.
def readHeaderFromSlice (data : Bytes) : Reading (TrojanHeader × Nat) :=
  if short : data.length < 58 then .error (.error "trojan: header too short")
  else if (data.drop 56).take 2 ≠ crlf then .error (.error "trojan: expected crlf after key")
  else do
    let cmd ← faulty (byteAt data 58)
    let atype ← faulty (byteAt data 59)
    sliceTarget data ⟨data.take 56,key_width short⟩ cmd atype 60

def streamAddress (atype : UInt8) (stream : Stream cap) : Reading (Address × Stream cap) :=
  if atype = 1 then do
    let (octets,stream) ← labelled "trojan: read ipv4: " (readExact 4 stream)
    .ok (.ipv4 octets,stream)
  else if atype = 4 then do
    let (octets,stream) ← labelled "trojan: read ipv6: " (readExact 16 stream)
    .ok (.ipv6 octets,stream)
  else if atype = 3 then do
    let (dlen,stream) ← labelled "trojan: read domain len: " (readExact 1 stream)
    let (domain,stream) ← labelled "trojan: read domain: " (readExact (dlen.val.getD 0 0).toNat stream)
    match fromUtf8 domain.val with
    | some name => .ok (.domain name,stream)
    | none => .error (.error "trojan: invalid domain utf8")
  else .error (.error ("trojan: unknown address type: " ++ toString atype.toNat))

def streamTarget (key : Octets 56) (cmd atype : UInt8) (stream : Stream cap) : Reading (TrojanHeader × Stream cap) := do
  let (address,stream) ← streamAddress atype stream
  let (portBuf,stream) ← labelled "trojan: read port: " (readExact 2 stream)
  let (trailing,stream) ← labelled "trojan: read trailing crlf: " (readExact 2 stream)
  assemble key cmd address portBuf trailing stream

def readHeader (stream : Stream cap) : Reading (TrojanHeader × Stream cap) := do
  let (key,stream) ← labelled "trojan: read key: " (readExact 56 stream)
  let (line,stream) ← labelled "trojan: read crlf: " (readExact 2 stream)
  if line.val ≠ crlf then .error (.error "trojan: expected crlf after key")
  else do
    let (cmd,stream) ← labelled "trojan: read command: " (readExact 1 stream)
    let (atype,stream) ← labelled "trojan: read address type: " (readExact 1 stream)
    streamTarget key (cmd.val.getD 0 0) (atype.val.getD 0 0) stream

section
variable {data : Bytes} {ending : Ending} {stream : Stream cap}

section
variable (at_ : At data ending offset stream)
include at_

theorem address_agree : Agree data ending (sliceAddress data atype offset) (streamAddress atype stream) := by
  unfold sliceAddress streamAddress
  by_cases ipv4 : atype = 1
  · rw [if_pos ipv4,if_pos ipv4]
    apply (exact_agree at_ 4 _ _).bind
    intro octets offset rest at_
    exact .ok at_ _
  rw [if_neg ipv4,if_neg ipv4]
  by_cases ipv6 : atype = 4
  · rw [if_pos ipv6,if_pos ipv6]
    apply (exact_agree at_ 16 _ _).bind
    intro octets offset rest at_
    exact .ok at_ _
  rw [if_neg ipv6,if_neg ipv6]
  by_cases domain : atype = 3
  · rw [if_pos domain,if_pos domain]
    apply (exact_agree at_ 1 _ _).bind
    intro dlen offset rest at_
    apply (exact_agree at_ _ _ _).bind
    intro bytes offset rest at_
    dsimp only
    cases fromUtf8 bytes.val with
    | some name => exact .ok at_ _
    | none => exact .error ..
  · rw [if_neg domain,if_neg domain]
    exact .error ..

theorem assemble_agree : Agree data ending (assemble key cmd address portBuf trailing offset) (assemble key cmd address portBuf trailing stream) := by
  unfold assemble
  split
  · exact .error ..
  · cases commandNetwork cmd with
    | error e => exact .error ..
    | ok network => exact .ok at_ _

theorem target_agree : Agree data ending (sliceTarget data key cmd atype offset) (streamTarget key cmd atype stream) := by
  apply (address_agree at_).bind
  intro address offset rest at_
  apply (exact_agree at_ 2 _ _).bind
  intro portBuf offset rest at_
  apply (exact_agree at_ 2 _ _).bind
  intro trailing offset rest at_
  exact assemble_agree at_

end

-- The slice parser as it would be with every length checked.
def readHeaderChecked (data : Bytes) : Reading (TrojanHeader × Nat) := do
  let (key,offset) ← sliceExact data 0 56 "trojan: header too short"
  let (line,offset) ← sliceExact data offset 2 "trojan: header too short"
  if line.val ≠ crlf then .error (.error "trojan: expected crlf after key")
  else do
    let (cmd,offset) ← sliceExact data offset 1 "trojan: header too short"
    let (atype,offset) ← sliceExact data offset 1 "trojan: header too short"
    sliceTarget data key (cmd.val.getD 0 0) (atype.val.getD 0 0) offset

theorem checked_agree (stream : Stream cap) : Agree stream.text stream.ending (readHeaderChecked stream.text) (readHeader stream) := by
  apply (exact_agree (.start stream) 56 _ _).bind
  intro key offset rest at_
  apply (exact_agree at_ 2 _ _).bind
  intro line offset rest at_
  dsimp only
  split
  · exact .error ..
  · apply (exact_agree at_ 1 _ _).bind
    intro cmd offset rest at_
    apply (exact_agree at_ 1 _ _).bind
    intro atype offset rest at_
    exact target_agree at_

end

def CutBehindKey (data : Bytes) : Prop := (data.drop 56).take 2 = crlf ∧ data.length < 60

instance (data : Bytes) : Decidable (CutBehindKey data) :=
  inferInstanceAs (Decidable (_ ∧ _))

theorem crlf_enough {data : Bytes} (line : (data.drop 56).take 2 = crlf) : 58 ≤ data.length := by
  have width := congrArg List.length line
  simp [crlf] at width
  omega

theorem cut_panics (cut : CutBehindKey data) : readHeaderFromSlice data = .error (.panic .sliceIndex) := by
  obtain ⟨line,short⟩ := cut
  have enough := crlf_enough line
  rw [readHeaderFromSlice,dif_neg (by omega),if_neg (by simpa using line)]
  have missing : data[59]? = none := List.getElem?_eq_none (by omega)
  cases command : data[58]? with
  | none => simp [byteAt,command,faulty]
  | some cmd => simp [byteAt,command,missing,faulty]

theorem byteAt_front (inside : offset < data.length) : byteAt data offset = .ok (((data.drop offset).take 1).getD 0 0) := by
  apply byteAt_ok
  simp [inside]

theorem whole_checked (whole : ¬ CutBehindKey data) : readHeaderFromSlice data = readHeaderChecked data := by
  unfold readHeaderFromSlice readHeaderChecked
  by_cases short : data.length < 58
  · rw [dif_pos short]
    by_cases key : data.length < 0 + 56
    · rw [sliceExact_short key,error_bind]
    · rw [sliceExact_enough key,ok_bind]
      dsimp only
      rw [sliceExact_short short,error_bind]
  · have key : ¬ data.length < 0 + 56 := by omega
    rw [dif_neg short,sliceExact_enough key,ok_bind]
    dsimp only
    rw [sliceExact_enough short,ok_bind]
    by_cases line : (data.drop 56).take 2 = crlf
    · have long : ¬ data.length < 60 := fun short => whole ⟨line,short⟩
      have commanded : ¬ data.length < 59 := by omega
      rw [if_neg (not_not_intro line),if_neg (not_not_intro line),sliceExact_enough commanded,ok_bind]
      dsimp only
      rw [sliceExact_enough long,byteAt_front (by omega : 58 < data.length),byteAt_front (by omega : 59 < data.length)]
      rfl
    · rw [if_pos line,if_pos line]

-- The two parsers on one byte string, which a stream carries in any pieces before it ends.
structure ParsersAgree (stream : Stream cap) : Prop where
  safe : ∀ fault, readHeaderFromSlice stream.text ≠ .error (.panic fault)
  accepts : ∀ header n, readHeaderFromSlice stream.text = .ok (header,n) ↔
    ∃ rest, readHeader stream = .ok (header,rest) ∧ n + rest.text.length = stream.text.length ∧ rest.text = stream.text.drop n
  refuses : (∃ e, readHeaderFromSlice stream.text = .error (.error e)) ↔ ∃ e, readHeader stream = .error (.error e)

theorem whole_agrees {stream : Stream cap} (closed : stream.ending = .closed) (whole : ¬ CutBehindKey stream.text) : ParsersAgree stream := by
  have agree := checked_agree stream
  rw [← whole_checked whole,closed] at agree
  cases sliced : readHeaderFromSlice stream.text with
  | ok result =>
    obtain ⟨header,offset⟩ := result
    rw [sliced] at agree
    obtain ⟨rest,read,at_⟩ := agree
    have inside := at_.inside
    have width : rest.text.length = stream.text.length - offset := by simp [at_.text]
    refine ⟨by simp [sliced],?_,by simp [sliced,read]⟩
    intro other n
    rw [sliced,read]
    constructor
    · intro same
      cases same
      exact ⟨rest,rfl,by omega,at_.text⟩
    · rintro ⟨rest,same,consumed,-⟩
      cases same
      obtain rfl : n = offset := by omega
      rfl
  | error stop =>
    rw [sliced] at agree
    cases stop with
    | waits | panic fault => cases agree
    | error e =>
      rcases agree with isOpen | ⟨text,read⟩
      · cases isOpen
      · exact ⟨by simp [sliced],by simp [sliced,read],by simp [sliced,read]⟩

theorem address_read (written : writeAddress address = .ok bytes) :
    ∃ atype body, bytes = atype :: body ∧ ∀ data offset rest, Behind data offset (body ++ rest) →
      sliceAddress data atype offset = .ok (address,offset + body.length) ∧ Behind data (offset + body.length) rest := by
  cases address with
  | ipv4 octets =>
    cases written
    refine ⟨1,octets.val,rfl,?_⟩
    intro data offset rest behind
    obtain ⟨read,behind⟩ := behind.takes octets.property "short ipv4"
    simp [sliceAddress,read,octets.property,behind]
  | ipv6 octets =>
    cases written
    refine ⟨4,octets.val,rfl,?_⟩
    intro data offset rest behind
    obtain ⟨read,behind⟩ := behind.takes octets.property "short ipv6"
    simp [sliceAddress,read,octets.property,behind]
  | domain name =>
    simp only [writeAddress] at written
    split at written
    · rename_i fits
      cases written
      refine ⟨3,_,rfl,?_⟩
      intro data offset rest behind
      have size := UInt8.toNat_ofNat_of_lt' (Nat.lt_succ_of_le fits)
      have single : Behind data offset ([UInt8.ofNat (asBytes name).length] ++ (asBytes name ++ rest)) := behind
      obtain ⟨length,behind⟩ := single.takes (n := 1) rfl "short domain len"
      have announced : (asBytes name).length = ([UInt8.ofNat (asBytes name).length].getD 0 0).toNat := size.symm
      obtain ⟨named,behind⟩ := behind.takes announced "short domain"
      have whole : offset + 1 + ([UInt8.ofNat (asBytes name).length].getD 0 0).toNat = offset + (UInt8.ofNat (asBytes name).length :: asBytes name).length := by
        rw [List.length_cons]
        omega
      rw [whole] at named behind
      refine ⟨?_,behind⟩
      simp [sliceAddress,length,named,fromUtf8_asBytes]
    · cases written

theorem written_header (written : writeTcpHeader key address port = .ok header) :
    ¬ CutBehindKey (header ++ rest) ∧ readHeaderChecked (header ++ rest) = .ok (⟨key,commandTcp,tcpDestination address ⟨port⟩⟩,header.length) := by
  obtain ⟨bytes,addressed,written⟩ := checked_bind written
  obtain ⟨atype,body,rfl,read⟩ := address_read addressed
  cases written
  have keyed := key.property
  refine ⟨?_,?_⟩
  · rintro ⟨-,short⟩
    simp at short
    omega
  generalize whole : key.val ++ (crlf ++ (commandTcp :: (atype :: body ++ (u16ToBe port ++ crlf)))) ++ rest = data
  have behind : Behind data 0 (key.val ++ (crlf ++ ([commandTcp] ++ ([atype] ++ (body ++ (u16ToBe port ++ (crlf ++ rest))))))) := by
    rw [← whole]
    simpa using Behind.start _
  obtain ⟨keyRead,behind⟩ := behind.takes keyed "trojan: header too short"
  obtain ⟨lineRead,behind⟩ := behind.takes (n := 2) rfl "trojan: header too short"
  obtain ⟨commandRead,behind⟩ := behind.takes (n := 1) rfl "trojan: header too short"
  obtain ⟨kindRead,behind⟩ := behind.takes (n := 1) rfl "trojan: header too short"
  obtain ⟨addressRead,behind⟩ := read _ _ _ behind
  obtain ⟨portRead,behind⟩ := behind.takes (u16ToBe_length port) "short port"
  obtain ⟨trailingRead,-⟩ := behind.takes (n := 2) rfl "trojan: expected trailing crlf"
  simp [readHeaderChecked,sliceTarget,keyRead,lineRead,commandRead,kindRead,addressRead,portRead,trailingRead,assemble,commandNetwork,tcpDestination]
  simp [crlf]
  omega

theorem header_parsers_agree_iff (stream : Stream cap) (closed : stream.ending = .closed) :
    (ParsersAgree stream ↔ ¬ CutBehindKey stream.text) ∧
      ∀ key address port header, writeTcpHeader key address port = .ok header → ∀ rest,
        readHeaderFromSlice (header ++ rest) = .ok (⟨key,commandTcp,tcpDestination address ⟨port⟩⟩,header.length) ∧
          ∀ {room} (carrier : Stream room), carrier.text = header ++ rest → ∃ later,
            readHeader carrier = .ok (⟨key,commandTcp,tcpDestination address ⟨port⟩⟩,later) ∧ later.text = rest := by
  refine ⟨⟨?_,whole_agrees closed⟩,?_⟩
  · intro agrees cut
    exact agrees.safe _ (cut_panics cut)
  · intro key address port header written rest
    obtain ⟨whole,read⟩ := written_header written
    refine ⟨by rw [whole_checked whole,read],?_⟩
    intro room carrier carries
    have agree := checked_agree carrier
    rw [carries,read] at agree
    obtain ⟨later,streamed,at_⟩ := agree
    exact ⟨later,streamed,by simp [at_.text]⟩

def sampleKey : Octets 56 := ⟨List.replicate 56 97,by decide⟩
def keyAlone : Stream 64 := ⟨[some ⟨sampleKey.val ++ crlf,by decide⟩],.closed⟩
def requestPieces : Stream 64 :=
  ⟨[some ⟨sampleKey.val ++ crlf ++ [1],by decide⟩,none,some ⟨[1,10,0,0,1,0,80,13,10,7],by decide⟩],.closed⟩

theorem header_parsers_agree_pieces : ¬ CutBehindKey requestPieces.text ∧ ParsersAgree requestPieces :=
  have whole : ¬ CutBehindKey requestPieces.text := by decide
  ⟨whole,(header_parsers_agree_iff requestPieces rfl).1.mpr whole⟩

-- A client that sends its key with the line and closes: the slice parser indexes behind the end, the stream parser returns an error.
theorem key_alone_panics : readHeaderFromSlice keyAlone.text = .error (.panic .sliceIndex) ∧
      readHeader keyAlone = .error (.error "trojan: read command: early eof") ∧ ¬ ParsersAgree keyAlone :=
  ⟨by rfl,by rfl,fun agrees => agrees.safe .sliceIndex (by rfl)⟩

def writeUdpPacket (address : Address) (port : UInt16) (payload : Bytes) : Checked Bytes := do
  let written ← writeAddress address
  .ok (written ++ (u16ToBe port ++ (u16ToBe (UInt16.ofNat payload.length) ++ (crlf ++ payload))))

-- The length is read and dropped: the payload is all that is left.
def readUdpPacket (data : Bytes) : Reading (Address × UInt16 × Bytes) := do
  let (atype,offset) ← sliceExact data 0 1 "empty trojan udp packet"
  let (address,offset) ← sliceAddress data (atype.val.getD 0 0) offset
  let (portBuf,offset) ← sliceExact data offset 2 "short port"
  let (_,offset) ← sliceExact data offset 2 "short length"
  let (line,offset) ← sliceExact data offset 2 "trojan udp: expected crlf after length"
  if line.val ≠ crlf then .error (.error "trojan udp: expected crlf after length")
  else .ok (address,be16 portBuf.val,data.drop offset)

theorem udp_read (written : writeUdpPacket address port payload = .ok packet) : readUdpPacket (packet ++ rest) = .ok (address,port,payload ++ rest) := by
  obtain ⟨bytes,addressed,written⟩ := checked_bind written
  obtain ⟨atype,body,rfl,read⟩ := address_read addressed
  cases written
  generalize whole : (atype :: body) ++ (u16ToBe port ++ (u16ToBe (UInt16.ofNat payload.length) ++ (crlf ++ payload))) ++ rest = data
  have behind : Behind data 0 ([atype] ++ (body ++ (u16ToBe port ++ (u16ToBe (UInt16.ofNat payload.length) ++ (crlf ++ (payload ++ rest)))))) := by
    rw [← whole]
    simpa using Behind.start _
  obtain ⟨kindRead,behind⟩ := behind.takes (n := 1) rfl "empty trojan udp packet"
  obtain ⟨addressRead,behind⟩ := read _ _ _ behind
  obtain ⟨portRead,behind⟩ := behind.takes (u16ToBe_length port) "short port"
  obtain ⟨lengthRead,behind⟩ := behind.takes (u16ToBe_length _) "short length"
  obtain ⟨lineRead,front,before,parts⟩ := behind.takes (n := 2) rfl "trojan udp: expected crlf after length"
  have left : data.drop (0 + 1 + body.length + 2 + 2 + 2) = payload ++ rest := by rw [parts,drop_front before]
  simp [readUdpPacket,kindRead,addressRead,portRead,lengthRead,lineRead]
  exact left

theorem udp_packet_iff (address : Address) (port : UInt16) (payload rest : Bytes) (fits : Fits address) :
    (∃ packet, writeUdpPacket address port payload = .ok packet ∧ readUdpPacket (packet ++ rest) = .ok (address,port,payload)) ↔
      rest = [] := by
  constructor
  · rintro ⟨packet,written,read⟩
    rw [udp_read written] at read
    simpa using read
  · rintro rfl
    obtain ⟨packet,written⟩ : ∃ packet, writeUdpPacket address port payload = .ok packet := by
      cases address with
      | ipv4 octets | ipv6 octets => exact ⟨_,rfl⟩
      | domain name => exact ⟨_,by rw [writeUdpPacket,writeAddress,if_pos (show _ ≤ 255 from fits),ok_bind]⟩
    exact ⟨packet,written,by rw [udp_read written,List.append_nil]⟩

theorem udp_packet_alone : ∃ packet, writeUdpPacket (.ipv4 (.zero 4)) 53 [7] = .ok packet ∧
    readUdpPacket (packet ++ []) = .ok (.ipv4 (.zero 4),53,[7]) := (udp_packet_iff (.ipv4 (.zero 4)) 53 [7] [] trivial).mpr rfl

-- Of two packets in one buffer the second is read into the payload of the first.
theorem udp_packets_run_together : ¬ ∃ packet, writeUdpPacket (.ipv4 (.zero 4)) 53 [7] = .ok packet ∧
    readUdpPacket (packet ++ packet) = .ok (.ipv4 (.zero 4),53,[7]) := by
  rintro ⟨packet,written,read⟩
  cases written
  exact absurd read (by decide)

end AstraCore.Trojan
