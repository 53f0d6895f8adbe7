import AstraCore.AddressText
import AstraCore.Dispatcher
import AstraCore.LineReader

namespace AstraCore.Hysteria
open CheckedBytes NetAddress TextScan AddressText LineReader Dispatcher List
open PolledStream (Stream Reading oneRead labelled labelled_eq_ok fallible fallible_eq_ok readExact)

inductive Traffic where
  | tcp (payload : Bytes)
  | udp (packets : List Bytes)

def addrLine (target : Destination) : Text := displayAddress target.address ++ ':' :: (decimal target.port.value.toNat ++ ['\n'])

def udpMark : Bytes := [117,10]

def packetText (data : Bytes) : Bytes := u16ToBe (UInt16.ofNat data.length) ++ data

def written (target : Destination) : Traffic → Bytes
  | .tcp payload => (addrLine target).bytes ++ payload
  | .udp packets => (addrLine target).bytes ++ (udpMark ++ packets.flatMap packetText)

structure UdpPacket where
  source : Destination
  target : Destination
  data : Bytes

def placeholder : Destination := udpDestination (.ipv4 (Octets.zero 4)) ⟨0⟩

inductive Outcome where
  | tcp (session : Session) (target : Destination) (copied : Bytes)
  | udp (session : Session) (packets : List UdpPacket)

-- What surrounds a call: the dispatcher's answer, and after how many bytes or packets the other direction ends the call.
structure Around where
  dispatched : Except String Unit
  stopped : Option Nat

def Around.carries (around : Around) (items : List α) : List α :=
  match around.stopped with
  | none => items
  | some n => items.take n

def hostAddress (host : Text) : Address :=
  match parseIpv4 host with
  | some ip => .ipv4 ip
  | none =>
    match parseIpv6 host with
    | some ip => .ipv6 ip
    | none => .domain (String.ofList host)

def parseTarget (addrStr : Text) : Except String (Address × Port) :=
  match splitOnce ':' addrStr with
  | none => .error ("hysteria: invalid addr: " ++ String.ofList addrStr)
  | some (host,portStr) =>
    match parseU16 portStr with
    | none => .error ("hysteria: invalid port: " ++ String.ofList portStr)
    | some port => .ok (hostAddress host,⟨port⟩)

-- The mode is guessed from what the buffer holds. In both modes the buffer is dropped afterwards, with all that is in it.
def detectMode (reader : Buffered) : Reading (Bool × Stream bufferSize) :=
  match reader.fillBuf with
  | .error .waits => .error .waits
  | .error _ => .ok (false,reader.stream)
  | .ok filled => .ok (filled.buffer.take 2 == udpMark,filled.stream)

def packetLoop : Nat → Stream bufferSize → List Bytes
  | 0,_ => []
  | turns + 1,stream =>
    match readExact 2 stream with
    | .error _ => []
    | .ok (len,stream) =>
      match readExact (be16 len.val).toNat stream with
      | .error _ => []
      | .ok (data,stream) => data.val :: packetLoop turns stream

def handleHysteriaStream (around : Around) (tag : String) (source : Destination) (stream : Stream bufferSize) : Reading Outcome := do
  let (line,reader) ← labelled "hysteria: read addr: " (readLine ⟨[],stream⟩)
  let (address,port) ← fallible (parseTarget (trim line))
  let (isUdp,stream) ← detectMode reader
  let session := hysteriaSession source tag
  let _ ← fallible around.dispatched
  if isUdp then
    let packets := packetLoop (stream.text.length + 1) stream
    .ok (.udp session ((around.carries packets).map fun data => ⟨placeholder,placeholder,data⟩))
  else .ok (.tcp session ⟨address,port,.tcp⟩ (around.carries stream.text))

def willing : Around := ⟨.ok (),none⟩

def Agrees (target : Destination) (result : Reading Outcome) : Traffic → Prop
  | .tcp payload => ∃ session, result = .ok (.tcp session {target with network := .tcp} payload)
  | .udp packets => ∃ session sent, result = .ok (.udp session sent) ∧ session.target = some {target with network := .udp} ∧
      sent.map UdpPacket.data = packets

def Carried : Address → Prop
  | .ipv4 _ => True
  | .ipv6 _ => False
  | .domain name => ':' ∉ name.toList ∧ '\n' ∉ name.toList ∧ (∀ c ∈ name.toList.head?, isWhitespace c = false) ∧
      parseIpv4 name.toList = none

theorem carried_hostAddress (fresh : ':' ∉ host) (line : '\n' ∉ host) (first : ∀ c ∈ host.head?, isWhitespace c = false) : Carried (hostAddress host) := by
  unfold hostAddress
  rw [parseIpv6_colon fresh]
  cases parsed : parseIpv4 host with
  | some ip => trivial
  | none =>
    simp only [Carried,String.toList_ofList]
    exact ⟨fresh,line,first,parsed⟩

structure Plain (address : Address) : Prop where
  fresh : ':' ∉ displayAddress address
  line : '\n' ∉ displayAddress address
  first : ∀ c ∈ (displayAddress address).head?, isWhitespace c = false
  again : hostAddress (displayAddress address) = address

theorem Carried.plain (carried : Carried address) : Plain address := by
  cases address with
  | ipv4 ip =>
    have digits := displayIpv4_plain ip
    have solid : ∀ c ∈ displayIpv4 ip, isWhitespace c = false ∧ c ≠ ':' := by
      intro c inside
      rcases digits c inside with digit | rfl
      · exact digit_solid digit
      · exact ⟨by decide,by decide⟩
    refine ⟨fun inside => (solid _ inside).2 rfl,fun inside => ?_,fun c found => (solid c (mem_of_mem_head? found)).1,?_⟩
    · exact absurd (solid _ inside).1 (by decide)
    · rw [hostAddress,displayAddress,parseIpv4_display]
  | ipv6 ip => cases carried
  | domain name =>
    obtain ⟨fresh,line,first,parsed⟩ := carried
    refine ⟨fresh,line,first,?_⟩
    rw [hostAddress,displayAddress,parsed,parseIpv6_colon fresh]
    simp

theorem Plain.isLine (plain : Plain target.address) : IsLine (addrLine target) := by
  refine ⟨displayAddress target.address ++ ':' :: decimal target.port.value.toNat,?_,by simp [addrLine]⟩
  simp only [mem_append,mem_cons,not_or]
  refine ⟨plain.line,by decide,fun inside => ?_⟩
  exact absurd (decimal_digits _ _ inside) (by decide)

theorem Plain.target {target : Destination} (plain : Plain target.address) : parseTarget (trim (addrLine target)) = .ok (target.address,target.port) := by
  have present : decimal target.port.value.toNat ≠ [] := Nat.toDigits_ne_nil
  have body : addrLine target = (displayAddress target.address ++ ':' :: decimal target.port.value.toNat) ++ ['\n'] := by
    simp [addrLine]
  have first : ∀ c ∈ (displayAddress target.address ++ ':' :: decimal target.port.value.toNat).head?, isWhitespace c = false := by
    intro c found
    cases shown : displayAddress target.address with
    | nil =>
      rw [shown] at found
      cases found
      rfl
    | cons d rest =>
      rw [shown] at found
      cases found
      exact plain.first c (by rw [shown]; rfl)
  have last : ∀ c ∈ (displayAddress target.address ++ ':' :: decimal target.port.value.toNat).getLast?, isWhitespace c = false := by
    intro c found
    rw [getLast?_append_of_ne_nil _ (by simp),getLast?_cons_of_ne_nil present] at found
    exact (digit_solid (decimal_digits _ c (mem_of_mem_getLast? found))).1
  rw [body,trim_ended first last (all_eq_true.mp rfl),parseTarget,splitOnce_front plain.fresh]
  simp only [parseU16_decimal,plain.again]

theorem parseTarget_ok (parsed : parseTarget text = .ok (address,port)) :
    ∃ host portStr, text = host ++ ':' :: portStr ∧ ':' ∉ host ∧ address = hostAddress host := by
  unfold parseTarget at parsed
  split at parsed
  · cases parsed
  · rename_i host portStr cut
    split at parsed
    · cases parsed
    · cases parsed
      obtain ⟨parts,fresh⟩ := splitOnce_parts cut
      exact ⟨host,portStr,parts,fresh,rfl⟩

theorem parseTarget_carried (read : readLine reader = .ok (line,later)) (parsed : parseTarget (trim line) = .ok (address,port)) : Carried address := by
  obtain ⟨host,portStr,parts,fresh,rfl⟩ := parseTarget_ok parsed
  have clear : '\n' ∉ trim line := by
    rcases readLine_shape read with none_ | ⟨body,inside,rfl⟩
    · exact fun member => none_ (trim_subset line member)
    · rw [trim_append body (all_eq_true.mp rfl)]
      exact fun member => inside (trim_subset body member)
  have within : ∀ c ∈ host, c ∈ trim line := fun c inside => by rw [parts]; exact mem_append_left _ inside
  refine carried_hostAddress fresh (fun inside => clear (within _ inside)) (fun c found => trim_head line c ?_)
  rw [parts,head?_append,Option.mem_def.mp found]
  rfl

theorem handle_ok (returned : handleHysteriaStream willing tag source stream = .ok outcome) :
    ∃ line reader address port isUdp inner, readLine ⟨[],stream⟩ = .ok (line,reader) ∧
      parseTarget (trim line) = .ok (address,port) ∧ detectMode reader = .ok (isUdp,inner) ∧ outcome = if isUdp then
          .udp (hysteriaSession source tag) ((packetLoop (inner.text.length + 1) inner).map fun data => ⟨placeholder,placeholder,data⟩)
        else .tcp (hysteriaSession source tag) ⟨address,port,.tcp⟩ inner.text := by
  obtain ⟨⟨line,reader⟩,read,returned⟩ := checked_bind returned
  obtain ⟨⟨address,port⟩,parsed,returned⟩ := checked_bind returned
  obtain ⟨⟨isUdp,inner⟩,detected,returned⟩ := checked_bind returned
  refine ⟨line,reader,address,port,isUdp,inner,labelled_eq_ok.mp read,fallible_eq_ok.mp parsed,detected,?_⟩
  cases isUdp <;> exact (Except.ok.inj returned).symm

theorem detectMode_loses (present : Buffered.text reader ≠ []) (detected : detectMode reader = .ok (isUdp,below)) : below.text ≠ reader.text := by
  obtain ⟨next,filled,some_,same⟩ := Buffered.fillBuf_present present
  unfold detectMode at detected
  rw [filled] at detected
  cases detected
  rw [← same]
  intro equal
  exact some_ (self_eq_append_left.mp equal)

theorem detectMode_empty (empty : Buffered.text reader = []) :
    (∃ inner, detectMode reader = .ok (false,inner) ∧ inner.text = []) ↔ reader.stream.ending ≠ .stillOpen := by
  unfold detectMode
  rw [Buffered.fillBuf_empty empty]
  cases reader.stream.ending with
  | stillOpen => simp [fillLoop]
  | closed => simp [fillLoop,udpMark,Stream.text]
  | broken e => simp [fillLoop,(append_eq_nil_iff.mp empty).2]

theorem agreement_needs (arrives : stream.text = written target traffic)
    (agrees : Agrees target (handleHysteriaStream willing tag source stream) traffic) :
    traffic = .tcp [] ∧ Carried target.address ∧ stream.ending ≠ .stillOpen := by
  cases traffic with
  | udp packets =>
    obtain ⟨session,sent,returned,aimed,-⟩ := agrees
    obtain ⟨line,reader,address,port,isUdp,inner,-,-,-,outcome⟩ := handle_ok returned
    cases isUdp with
    | true =>
      cases outcome
      cases aimed
    | false => cases outcome
  | tcp payload =>
    obtain ⟨session,returned⟩ := agrees
    obtain ⟨line,reader,address,port,isUdp,inner,read,parsed,detected,outcome⟩ := handle_ok returned
    cases isUdp with
    | true => cases outcome
    | false =>
      simp only [Bool.false_eq_true,if_false,Outcome.tcp.injEq,Destination.mk.injEq] at outcome
      obtain ⟨-,⟨same,-,-⟩,copied⟩ := outcome
      have carried := same ▸ parseTarget_carried read parsed
      obtain ⟨later,again,behind,ending⟩ := readLine_written carried.plain.isLine (show Buffered.text ⟨[],stream⟩ = _ from arrives)
      cases Except.ok.inj (again.symm.trans read)
      have empty : payload = [] := by
        by_contra present
        exact detectMode_loses (by rw [behind]; exact present) detected (copied.symm.trans behind.symm)
      refine ⟨by rw [empty],carried,?_⟩
      rw [show stream.ending = reader.stream.ending from ending.symm]
      exact (detectMode_empty (behind.trans empty)).mp ⟨inner,detected,copied.symm.trans empty⟩

theorem agreement_iff (tag : String) (source target : Destination) (traffic : Traffic) (stream : Stream bufferSize)
    (arrives : stream.text = written target traffic) :
    Agrees target (handleHysteriaStream willing tag source stream) traffic ↔
      traffic = .tcp [] ∧ Carried target.address ∧ stream.ending ≠ .stillOpen := by
  refine ⟨agreement_needs arrives,?_⟩
  rintro ⟨rfl,carried,ended⟩
  obtain ⟨later,read,behind,ending⟩ := readLine_written carried.plain.isLine (show Buffered.text ⟨[],stream⟩ = _ from arrives)
  obtain ⟨inner,detected,nothing⟩ := (detectMode_empty behind).mpr (by rw [ending]; exact ended)
  refine ⟨hysteriaSession source tag,?_⟩
  unfold handleHysteriaStream
  rw [read]
  change (fallible (parseTarget (trim (addrLine target))) >>= _) = _
  rw [carried.plain.target]
  rw [detected]
  change Except.ok (Outcome.tcp _ _ inner.text) = _
  rw [nothing]

def hostTarget : Destination := tcpDestination (.ipv4 ⟨[192,0,2,1],rfl⟩) ⟨80⟩
def client : Destination := tcpDestination (.ipv4 ⟨[198,51,100,7],rfl⟩) ⟨40000⟩
def wholeStream (traffic : Traffic) : Stream bufferSize := ⟨[oneRead (written hostTarget traffic)],.closed⟩

theorem silent_client_agrees : Agrees hostTarget (handleHysteriaStream willing "in" client (wholeStream (.tcp []))) (.tcp []) :=
  (agreement_iff "in" client hostTarget (.tcp []) _ (by decide +kernel)).mpr ⟨rfl,trivial,by decide⟩

-- Three bytes are sent with the header, and none of them comes out.
theorem first_bytes_lost : (wholeStream (.tcp [71,69,84])).text = written hostTarget (.tcp [71,69,84]) ∧
      handleHysteriaStream willing "in" client (wholeStream (.tcp [71,69,84])) = .ok (.tcp (hysteriaSession client "in") hostTarget []) ∧
      ¬ Agrees hostTarget (handleHysteriaStream willing "in" client (wholeStream (.tcp [71,69,84]))) (.tcp [71,69,84]) := by
  have arrives : (wholeStream (.tcp [71,69,84])).text = written hostTarget (.tcp [71,69,84]) := by decide +kernel
  refine ⟨arrives,rfl,fun agrees => ?_⟩
  have empty := (agreement_needs arrives agrees).1
  cases empty

end AstraCore.Hysteria
