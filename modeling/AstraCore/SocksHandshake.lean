import AstraCore.SocksProtocol

namespace AstraCore.Socks
open CheckedBytes NetAddress LossyUtf8 Dispatcher InboundLink Dialogue Dialogue.Talk List
open PolledStream (Stream Reading)
open MuxFrame (Fits)
variable {cap : Nat}

theorem readU8_hears (byte) : Hears (readU8 : Talk cap UInt8) [byte] byte :=
  (Hears.hear "read u8: " (⟨[byte],rfl⟩ : Octets 1)).bind (.pure byte)

theorem readExact_hears (octets) : Hears (readExact n : Talk cap (Octets n)) octets.val octets :=
  Hears.hear "read error: " octets

theorem readU16_hears (n) : Hears (readU16 : Talk cap UInt16) (u16ToBe n) n := by
  have heard : Hears (readU16 : Talk cap UInt16) (u16ToBe n) _ :=
    (Hears.hear "read u16: " ⟨u16ToBe n,u16ToBe_length n⟩).last (.pure _)
  rwa [be16_roundtrip] at heard

theorem fromUtf8OrFail_hears : Hears (fromUtf8OrFail e (asBytes s) : Talk cap String) [] s := by
  rw [fromUtf8OrFail,fromUtf8_asBytes]
  exact .pure s

theorem readVersion_hears : Hears (readVersion : Talk cap UInt8) [byte] byte := by
  intro stream rest parts
  obtain ⟨later,read,behind,ending⟩ := PolledStream.readExact_enough (n := 1) stream parts rfl
  refine ⟨later,?_,behind,ending⟩
  simp [readVersion,read]

section
variable {next : (len : UInt8) → Octets len.toNat → Talk cap β}

theorem counted_hears (short : bytes.length ≤ 255) (further : ∀ len octets, octets.val = bytes → Hears (next len octets) more result) :
    Hears (readU8 >>= fun len => readExact len.toNat >>= next len) (UInt8.ofNat bytes.length :: (bytes ++ more)) result := by
  have sized : bytes.length = (UInt8.ofNat bytes.length).toNat := by
    rw [UInt8.toNat_ofNat']
    omega
  exact (readU8_hears _).bind ((readExact_hears ⟨bytes,sized⟩).bind (further _ _ rfl))

theorem counted_last (short : bytes.length ≤ 255) (further : ∀ len (octets : Octets len.toNat), octets.val = bytes → Hears (next len octets) [] result) :
    Hears (readU8 >>= fun len => readExact len.toNat >>= next len) (UInt8.ofNat bytes.length :: bytes) result := by
  have heard := counted_hears short further
  rwa [append_nil] at heard

end

theorem methods_hear (method) : Hears (readMethods : Talk cap Bytes) [1,method] [method] := by
  have one : [method].length ≤ 255 := by simp
  refine counted_last one fun _ octets same => ?_
  rw [same]
  exact .pure _

theorem credentials_hear (config : ClientConfig) (named : (asBytes config.username).length ≤ 255) (worded : (asBytes config.password).length ≤ 255) :
    Hears (readCredentials : Talk cap (String × String)) config.authRequest (config.username,config.password) := by
  refine (readU8_hears 1).bind ?_
  refine counted_hears named fun _ uname same => ?_
  rw [same]
  refine (fromUtf8OrFail_hears).bind (counted_last worded fun _ passwd same => ?_)
  rw [same]
  exact (fromUtf8OrFail_hears).bind (.pure _)

def addressKind : Address → UInt8
  | .ipv4 _ => 1
  | .ipv6 _ => 4
  | .domain _ => 3

def addressBody : Address → Bytes
  | .ipv4 ip => ip.val
  | .ipv6 ip => ip.val
  | .domain name => UInt8.ofNat (asBytes name).length :: asBytes name

theorem encodeAddrPort_eq : encodeAddrPort address port = addressKind address :: (addressBody address ++ u16ToBe port) := by
  cases address <;> rfl

theorem address_hears (fits : Fits address) : Hears (readAddress (addressKind address) : Talk cap Address) (addressBody address) address := by
  cases address with
  | ipv4 ip =>
    exact (readExact_hears ip).last (.pure _)
  | ipv6 ip =>
    exact (readExact_hears ip).last (.pure _)
  | domain name =>
    refine counted_last fits fun _ domain same => ?_
    rw [same]
    exact (fromUtf8OrFail_hears).bind (.pure _)

theorem bound_hears (address) (fits : Fits address) : Hears (skipBoundAddress (addressKind address) : Talk cap Unit) (addressBody address) () := by
  cases address with
  | ipv4 ip =>
    exact (readExact_hears ip).last (.pure _)
  | ipv6 ip =>
    exact (readExact_hears ip).last (.pure _)
  | domain name => exact counted_last fits fun _ _ _ => .pure ()

theorem addrPort_hears (fits : Fits address) : Hears (readSocks5AddrPort : Talk cap (Address × UInt16)) (encodeAddrPort address port) (address,port) := by
  rw [encodeAddrPort_eq]
  exact (readU8_hears _).bind ((address_hears fits).bind ((readU16_hears port).last (.pure _)))

theorem request_hears (fits : Fits address) :
    Hears (readRequest : Talk cap (UInt8 × Address × UInt16)) (connectRequest address port) (cmdConnect,address,port) := by
  refine Hears.bind (readExact_hears (⟨[socks5Version,cmdConnect,0],rfl⟩ : Octets 3)) ?_
  exact (addrPort_hears fits).last (.pure _)

theorem reply_hears (fits : Fits address) : Hears (readReply : Talk cap Unit) (socks5Response address port) () := by
  rw [socks5Response,encodeAddrPort_eq]
  refine (readExact_hears ⟨[socks5Version,statusSuccess,0,addressKind address],rfl⟩).bind ?_
  exact (bound_hears address fits).bind ((readU16_hears port).last (.pure _))

def Admitted (config : SocksConfig) (client : ClientConfig) : Prop :=
  (client.username = "" ∧ config.authType = .noAuth) ∨
    (client.username ≠ "" ∧ config.authType = .password ∧ config.accounts.lookup client.username = some client.password)

def Joined (around : Session) (dest : Destination) (download upload : Bytes) (a : Reading (Unit × Stream cap))
    (b : Reading (Served × Stream cap)) : Prop :=
  ∃ lrest rrest, a = .ok ((),lrest) ∧ b = .ok (.relays (aimedAt around dest) dest,rrest) ∧
    lrest.text = download ∧ rrest.text = upload

section Phases
variable {config : SocksConfig} {client : ClientConfig} {around : Surroundings} {session : Session}
  {address : Address} {port : UInt16} {download upload : Bytes} {l r : Stream cap} {a : Reading (Unit × Stream cap)}
  {b : Reading (Served × Stream cap)}

theorem connected (fits : Fits address)
    (link : around.dispatch (aimedAt session (tcpDestination address ⟨port⟩)) (tcpDestination address ⟨port⟩) = .ok download)
    (facing : Facing (say (connectRequest address port) >>= fun _ => readReply >>= fun _ => say upload)
      (readRequest >>= carryOut config around session) l r a b) :
    Joined session (tcpDestination address ⟨port⟩) download upload a b := by
  obtain ⟨_,facing⟩ := facing.heard (request_hears fits)
  have answers : (carryOut config around session (cmdConnect,address,port) : Talk cap Served) =
      say (socks5Response address port) >>= fun _ => say download >>= fun _ =>
        pure (.relays (aimedAt session (tcpDestination address ⟨port⟩)) (tcpDestination address ⟨port⟩)) := by
    simp [carryOut,tcpConnect,relay,writeAll,link]
  rw [answers] at facing
  obtain ⟨_,toLeft,toRight,leftEnds,rightEnds⟩ := facing.heard_left (reply_hears fits)
  refine ⟨_,_,leftEnds.symm,rightEnds.symm,?_,toRight⟩
  rw [toLeft,say_bind,pure_eq,append_nil]

def Apart (a : Reading (Unit × Stream cap)) (b : Reading (Served × Stream cap)) : Prop :=
  (∃ text, a = .error (.error text)) ∧ ∃ text, b = .error (.error text)

theorem refused (octets) (gives : ∃ text, later octets = fail text)
    (facing : Facing (readExact 2 >>= later) (say octets.val >>= fun _ => fail e) l r a b) : Apart a b := by
  obtain ⟨_,facing⟩ := facing.heard_left (readExact_hears octets)
  obtain ⟨text,gives⟩ := gives
  rw [gives] at facing
  exact ⟨⟨text,facing.leftEnds.symm⟩,e,facing.rightEnds.symm⟩

theorem authByte_ne_noMatch : authNoMatch ≠ client.authByte := by
  unfold ClientConfig.authByte
  split <;> decide

theorem method_refused (other : config.expectedAuth ≠ client.authByte)
    (facing : Facing (readMethod client >>= onward) (chooseMethod config [client.authByte] >>= later) l r a b) : Apart a b := by
  have choice : (chooseMethod config [client.authByte] >>= later : Talk cap Served) =
      say [socks5Version,authNoMatch] >>= fun _ => fail "no matching auth method" := by
    simp [chooseMethod,other,writeAll,fail_bind]
  rw [choice,readMethod,bind_assoc] at facing
  refine refused ⟨[socks5Version,authNoMatch],rfl⟩ ⟨"auth method rejected: " ++ toString authNoMatch.toNat,?_⟩ facing
  simp [authByte_ne_noMatch,fail_bind]

theorem method_hears : Hears (readMethod client : Talk cap Unit) [socks5Version,client.authByte] () := by
  refine (readExact_hears (⟨[socks5Version,client.authByte],rfl⟩ : Octets 2)).last ?_
  rw [if_neg (by simp),if_neg (by simp)]
  exact .pure ()

theorem method_agreed (same : config.expectedAuth = client.authByte)
    (facing : Facing (readMethod client >>= onward) (chooseMethod config [client.authByte] >>= later) l r a b) :
    ∃ left, Facing (onward ()) ((if client.authByte = authPassword then readCredentials >>= checkCredentials config
      else pure none) >>= later) left r a b := by
  have choice : (chooseMethod config [client.authByte] >>= later : Talk cap Served) =
      say [socks5Version,client.authByte] >>= fun _ => (if client.authByte = authPassword then
        readCredentials >>= checkCredentials config else pure none) >>= later := by
    simp only [chooseMethod,same,mem_singleton,not_true,if_false,writeAll,bind_assoc]
  rw [choice] at facing
  exact facing.heard_left (method_hears)

section
variable (named : (asBytes client.username).length ≤ 255) (worded : (asBytes client.password).length ≤ 255) (user : client.username ≠ "")
include named worded user

theorem credentials_refused (unknown : config.accounts.lookup client.username ≠ some client.password)
    (facing : Facing (authenticate client >>= onward) (readCredentials >>= checkCredentials config >>= later) l r a b) : Apart a b := by
  rw [authenticate,if_pos user,bind_assoc,bind_assoc,bind_assoc] at facing
  obtain ⟨_,facing⟩ := facing.heard (credentials_hear client named worded)
  rw [checkCredentials,if_pos unknown] at facing
  refine refused ⟨[1,0xFF],rfl⟩ ⟨"auth rejected",?_⟩ facing
  simp [fail_bind]

theorem credentials_accepted (known : config.accounts.lookup client.username = some client.password)
    (facing : Facing (authenticate client >>= onward) (readCredentials >>= checkCredentials config >>= later) l r a b) :
    ∃ left right, Facing (onward ()) (later (some client.username)) left right a b := by
  rw [authenticate,if_pos user,bind_assoc,bind_assoc,bind_assoc] at facing
  obtain ⟨right,facing⟩ := facing.heard (credentials_hear client named worded)
  rw [checkCredentials,if_neg (not_not_intro known)] at facing
  obtain ⟨left,facing⟩ := facing.heard_left (readExact_hears (⟨[1,0],rfl⟩ : Octets 2))
  exact ⟨left,right,facing⟩

end

theorem admitted_iff : Admitted config client ↔ config.expectedAuth = client.authByte ∧
      (client.username ≠ "" → config.accounts.lookup client.username = some client.password) := by
  unfold Admitted SocksConfig.expectedAuth ClientConfig.authByte
  by_cases user : client.username = "" <;> cases config.authType <;> simp [user,authPassword,authNotRequired]

theorem authByte_password : client.authByte = authPassword ↔ client.username ≠ "" := by
  unfold ClientConfig.authByte
  by_cases user : client.username = "" <;> simp [authPassword,authNotRequired]

theorem exchanged (fits : Fits address) (named : (asBytes client.username).length ≤ 255) (worded : (asBytes client.password).length ≤ 255)
    (link : around.dispatch (aimedAt session (tcpDestination address ⟨port⟩)) (tcpDestination address ⟨port⟩) = .ok download)
    (facing : Facing (socks5ClientHandshake client address port >>= fun _ => say upload)
      (processInbound config around session) l r a b) :
    (Admitted config client ∧ Joined session (tcpDestination address ⟨port⟩) download upload a b) ∨ (¬ Admitted config client ∧ Apart a b) := by
  have opening : (socks5ClientHandshake client address port >>= fun _ => say upload : Talk cap Unit) =
      say [socks5Version] >>= fun _ => say [1,client.authByte] >>= fun _ => readMethod client >>= fun _ =>
        authenticate client >>= fun _ => say (connectRequest address port) >>= fun _ => readReply >>= fun _ => say upload := by
    simp only [socks5ClientHandshake,bind_assoc]
    rfl
  rw [opening] at facing
  obtain ⟨_,facing⟩ := facing.heard (readVersion_hears)
  rw [handleSocks5,socks5Auth,bind_assoc] at facing
  obtain ⟨_,facing⟩ := facing.heard (methods_hear _)
  rw [admitted_iff]
  by_cases same : config.expectedAuth = client.authByte
  · obtain ⟨_,facing⟩ := method_agreed same facing
    by_cases user : client.username = ""
    · rw [authenticate,if_neg (not_not_intro user),if_neg (mt (authByte_password).mp (not_not_intro user))] at facing
      exact .inl ⟨⟨same,fun other => absurd user other⟩,connected fits link facing⟩
    · rw [if_pos ((authByte_password).mpr user)] at facing
      by_cases known : config.accounts.lookup client.username = some client.password
      · obtain ⟨_,_,facing⟩ := credentials_accepted named worded user known facing
        exact .inl ⟨⟨same,fun _ => known⟩,connected fits link facing⟩
      · exact .inr ⟨fun both => known (both.2 user),credentials_refused named worded user known facing⟩
  · exact .inr ⟨fun both => same both.1,method_refused same facing⟩

end Phases

def ClientConfig.passwordRequest (client : ClientConfig) : Bytes := if client.username ≠ "" then client.authRequest else []
def ClientConfig.passwordReply (client : ClientConfig) : Bytes := if client.username ≠ "" then [1,0] else []

theorem authenticate_answers : Answers (authenticate client : Talk cap Unit) client.passwordReply client.passwordRequest () := by
  unfold authenticate ClientConfig.passwordReply ClientConfig.passwordRequest
  split
  · have reply : Hears (readExact 2 >>= fun authResp : Octets 2 =>
        if authResp.val.getD 1 0 ≠ 0 then fail "auth rejected" else pure () : Talk cap Unit) [1,0] () := by
      refine (readExact_hears (⟨[1,0],rfl⟩ : Octets 2)).last ?_
      exact .pure ()
    have answers := Answers.saying client.authRequest reply
    rwa [append_nil] at answers
  · exact Hears.pure ()

theorem chooseMethod_answers (named : (asBytes client.username).length ≤ 255)
    (worded : (asBytes client.password).length ≤ 255) (admitted : Admitted config client) :
    ∃ username, Answers (chooseMethod config [client.authByte] : Talk cap (Option String)) client.passwordRequest
      ([socks5Version,client.authByte] ++ client.passwordReply) username := by
  obtain ⟨same,known⟩ := (admitted_iff).mp admitted
  rw [chooseMethod,same,if_neg (by simp)]
  unfold ClientConfig.passwordReply ClientConfig.passwordRequest
  by_cases user : client.username = ""
  · rw [if_neg (mt (authByte_password).mp (not_not_intro user)),if_neg (not_not_intro user),if_neg (not_not_intro user)]
    exact ⟨none,.saying _ (Hears.pure none)⟩
  · rw [if_pos ((authByte_password).mpr user),if_pos user,if_pos user,← append_nil client.authRequest]
    refine ⟨some client.username,.saying _ (.hearing (credentials_hear client named worded) ?_)⟩
    rw [checkCredentials,if_neg (not_not_intro (known user))]
    exact .saying _ (Hears.pure _)

def clientPart (client : ClientConfig) (address : Address) (port : UInt16) : Bytes :=
  [socks5Version,1,client.authByte] ++ client.passwordRequest ++ connectRequest address port

def serverPart (client : ClientConfig) (address : Address) (port : UInt16) : Bytes :=
  [socks5Version,client.authByte] ++ client.passwordReply ++ socks5Response address port

theorem client_answers (fits : Fits address) :
    Answers (socks5ClientHandshake client address port >>= fun _ => say upload : Talk cap Unit) (serverPart client address port)
      (clientPart client address port ++ upload) () := by
  have heard : serverPart client address port = [socks5Version,client.authByte] ++ (client.passwordReply ++ (socks5Response address port ++ [])) := by
    simp [serverPart]
  have said : clientPart client address port ++ upload = [socks5Version,1,client.authByte] ++ (client.passwordRequest ++
      (connectRequest address port ++ upload)) := by
    simp [clientPart]
  simp only [heard,said,socks5ClientHandshake,bind_assoc]
  exact .saying _ (.hearing (method_hears) ((authenticate_answers).bind
    (.saying _ (.hearing (reply_hears fits) (.say upload)))))

theorem server_answers (fits : Fits address)
    (named : (asBytes client.username).length ≤ 255) (worded : (asBytes client.password).length ≤ 255) (admitted : Admitted config client)
    (link : around.dispatch (aimedAt session (tcpDestination address ⟨port⟩)) (tcpDestination address ⟨port⟩) = .ok download) :
    Answers (processInbound config around session : Talk cap Served) (clientPart client address port)
      (serverPart client address port ++ download)
      (.relays (aimedAt session (tcpDestination address ⟨port⟩)) (tcpDestination address ⟨port⟩)) := by
  obtain ⟨username,chosen⟩ := chooseMethod_answers named worded admitted
  have heard : clientPart client address port = [socks5Version] ++ ([1,client.authByte] ++ (client.passwordRequest ++
      (connectRequest address port ++ []))) := by
    simp [clientPart]
  have said : serverPart client address port ++ download = ([socks5Version,client.authByte] ++ client.passwordReply) ++
      (socks5Response address port ++ (download ++ [])) := by
    simp [serverPart]
  rw [heard,said]
  refine .hearing (readVersion_hears) ?_
  rw [handleSocks5,socks5Auth,bind_assoc]
  refine .hearing (methods_hear _) (chosen.bind (.hearing (request_hears fits) (.saying _ ?_)))
  rw [relay,link]
  exact .saying _ (Hears.pure _)

def ClientRelays (a : Reading (Unit × Stream cap)) : Prop := ∃ rest, a = .ok ((),rest)
def ServerRelays (b : Reading (Served × Stream cap)) : Prop := ∃ session dest rest, b = .ok (.relays session dest,rest)

theorem Joined.relays (joined : Joined session dest download upload a b) : ClientRelays a ∧ ServerRelays b := by
  obtain ⟨lrest,rrest,client,server,-,-⟩ := joined
  exact ⟨⟨lrest,client⟩,_,_,rrest,server⟩

theorem Apart.silent (apart : Apart a b) : ¬ ClientRelays a ∧ ¬ ServerRelays b := by
  obtain ⟨⟨_,client⟩,_,server⟩ := apart
  constructor
  · rintro ⟨rest,other⟩
    cases client.symm.trans other
  · rintro ⟨_,_,rest,other⟩
    cases server.symm.trans other

theorem socks_handshakes_agree (config : SocksConfig) (client : ClientConfig) (around : Surroundings)
    (session caller : Session) (target : Destination) (download upload : Bytes) (aimed : caller.target = some target)
    (network : target.network ≠ .udp) (fits : Fits target.address) (named : (asBytes client.username).length ≤ 255)
    (worded : (asBytes client.password).length ≤ 255)
    (link : around.dispatch (aimedAt session (tcpDestination target.address target.port))
      (tcpDestination target.address target.port) = .ok download) :
    (∀ l r : Stream cap, Settled (processOutbound client caller (.ok ()) upload) (processInbound config around session) l r →
      (ClientRelays (processOutbound client caller (.ok ()) upload l).2 ∧ ServerRelays (processInbound config around session r).2 ↔
        Admitted config client) ∧
      (Admitted config client → Joined session (tcpDestination target.address target.port) download upload
        (processOutbound client caller (.ok ()) upload l).2 (processInbound config around session r).2)) ∧
    (Admitted config client → ∀ l r : Stream cap, l.text = serverPart client target.address target.port.value ++ download →
      r.text = clientPart client target.address target.port.value ++ upload →
        Settled (processOutbound client caller (.ok ()) upload) (processInbound config around session) l r) := by
  obtain ⟨address,⟨port⟩,net⟩ := target
  have called : (processOutbound client caller (.ok ()) upload : Talk cap Unit) =
      socks5ClientHandshake client address port >>= fun _ => say upload := by
    rw [processOutbound,aimed]
    exact if_neg network
  rw [called]
  constructor
  · intro l r settled
    rcases exchanged fits named worded link (Facing.start settled) with ⟨admitted,joined⟩ | ⟨outside,apart⟩
    · exact ⟨iff_of_true joined.relays admitted,fun _ => joined⟩
    · exact ⟨iff_of_false (fun both => apart.silent.1 both.1) outside,fun admitted => absurd admitted outside⟩
  · intro admitted l r replies requests
    obtain ⟨_,left,-,-⟩ := client_answers fits l _ replies
    obtain ⟨_,right,-,-⟩ := server_answers fits named worded admitted link r _ requests
    exact ⟨by rw [replies,right],by rw [requests,left]⟩

def guardedConfig : SocksConfig := ⟨.password,AList.singleton "user" "secret",false⟩
def userClient : ClientConfig := ⟨"user","secret"⟩
def tunnelTarget : Destination := tcpDestination (.domain "example.org") ⟨443⟩
def idleSession : Session := ⟨none,none,none⟩
def echoing : Surroundings := ⟨fun _ _ => .ok [7,8,9],fun _ => .error "unreachable"⟩

theorem socks_handshakes_agree_password : Admitted guardedConfig userClient ∧ ∃ l r : Stream 1,
      Joined idleSession tunnelTarget [7,8,9] [1,2,3]
        (processOutbound userClient (aimedAt idleSession tunnelTarget) (.ok ()) [1,2,3] l).2
        (processInbound guardedConfig echoing idleSession r).2 := by
  have admitted : Admitted guardedConfig userClient := .inr ⟨by decide,rfl,rfl⟩
  have fits := show (asBytes "example.org").length ≤ 255 by decide
  obtain ⟨settles,reached⟩ := @socks_handshakes_agree 1 guardedConfig userClient echoing idleSession
    (aimedAt idleSession tunnelTarget) tunnelTarget [7,8,9] [1,2,3] rfl (by decide) fits (by decide) (by decide) rfl
  obtain ⟨l,replies,-⟩ := PolledStream.stream_exists (serverPart userClient tunnelTarget.address 443 ++ [7,8,9]) .stillOpen
  obtain ⟨r,requests,-⟩ := PolledStream.stream_exists (clientPart userClient tunnelTarget.address 443 ++ [1,2,3]) .stillOpen
  exact ⟨admitted,l,r,(settles l r (reached admitted l r replies requests)).2 admitted⟩

end AstraCore.Socks
