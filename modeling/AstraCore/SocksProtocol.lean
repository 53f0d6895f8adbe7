import AstraCore.Dialogue
import AstraCore.InboundLink
import AstraCore.MuxFrame

namespace AstraCore.Socks
open CheckedBytes NetAddress LossyUtf8 Dispatcher InboundLink Dialogue Dialogue.Talk
variable {cap : Nat}

def socks4Version : UInt8 := 4
def socks5Version : UInt8 := 5

def cmdConnect : UInt8 := 1
def cmdBind : UInt8 := 2
def cmdUdpAssociate : UInt8 := 3

def socks4Granted : UInt8 := 90
def socks4Rejected : UInt8 := 91

def authNotRequired : UInt8 := 0
def authPassword : UInt8 := 2
def authNoMatch : UInt8 := 0xFF

def statusSuccess : UInt8 := 0
def statusCmdNotSupported : UInt8 := 7

inductive AuthType where
  | noAuth
  | password
deriving DecidableEq, Repr

structure SocksConfig where
  authType : AuthType
  accounts : AList (fun _ : String => String)
  udpEnabled : Bool

def anyIp : Address := .ipv4 (Octets.zero 4)

def readExact (n : Nat) : Talk cap (Octets n) := hear "read error: " n

def readU8 : Talk cap UInt8 := do
  let byte ← hear "read u8: " 1
  pure (byte.val.getD 0 0)

def readU16 : Talk cap UInt16 := do
  let bytes ← hear "read u16: " 2
  pure (be16 bytes.val)

def writeAll (bytes : Bytes) : Talk cap Unit := say bytes

def fromUtf8OrFail (e : String) (bytes : Bytes) : Talk cap String :=
  match fromUtf8 bytes with
  | some s => pure s
  | none => fail e

def readUntilNullLoop : Nat → Bytes → Talk cap String
  | 0,_ => fun _ => ([],.error .waits)
  | turns + 1,buf => do
    let byte ← readU8
    if byte = 0 then fromUtf8OrFail "invalid utf-8" buf else readUntilNullLoop turns (buf ++ [byte])

def readUntilNull : Talk cap String := fun stream => readUntilNullLoop (stream.text.length + 1) [] stream

def encodeAddrPort (address : Address) (port : UInt16) : Bytes :=
  match address with
  | .ipv4 ip => 1 :: (ip.val ++ u16ToBe port)
  | .ipv6 ip => 4 :: (ip.val ++ u16ToBe port)
  | .domain domain => 3 :: UInt8.ofNat (asBytes domain).length :: (asBytes domain ++ u16ToBe port)

def socks5Response (address : Address) (port : UInt16) : Bytes :=
  socks5Version :: statusSuccess :: 0 :: encodeAddrPort address port

def socks5Error (code : UInt8) : Bytes := [socks5Version,code,0,1,0,0,0,0,0,0]

def socks4Response (status : UInt8) (address : Address) (port : UInt16) : Bytes :=
  0 :: status :: (u16ToBe port ++ match address with
    | .ipv4 ip => ip.val
    | _ => [0,0,0,0])

def readMethods : Talk cap Bytes := do
  let nmethods ← readU8
  let methods ← readExact nmethods.toNat
  pure methods.val

def readCredentials : Talk cap (String × String) := do
  let ver ← readU8
  if ver ≠ 1 then do
    writeAll [1,0xFF]
    fail "invalid auth version"
  else do
    let ulen ← readU8
    let uname ← readExact ulen.toNat
    let username ← fromUtf8OrFail "invalid username" uname.val
    let plen ← readU8
    let passwd ← readExact plen.toNat
    let password ← fromUtf8OrFail "invalid password" passwd.val
    pure (username,password)

section
variable (config : SocksConfig)

def SocksConfig.expectedAuth : UInt8 :=
  if config.authType = .password then authPassword else authNotRequired

def checkCredentials : String × String → Talk cap (Option String)
  | (username,password) =>
    if config.accounts.lookup username ≠ some password then do
      writeAll [1,0xFF]
      fail "invalid credentials"
    else do
      writeAll [1,0]
      pure (some username)

def chooseMethod (methods : Bytes) : Talk cap (Option String) :=
  if config.expectedAuth ∉ methods then do
    writeAll [socks5Version,authNoMatch]
    fail "no matching auth method"
  else do
    writeAll [socks5Version,config.expectedAuth]
    if config.expectedAuth = authPassword then do
      let credentials ← readCredentials
      checkCredentials config credentials
    else pure none

def socks5Auth : Talk cap (Option String) := do
  let methods ← readMethods
  chooseMethod config methods

def readAddress (atyp : UInt8) : Talk cap Address :=
  if atyp = 1 then do
    let ip ← readExact 4
    pure (.ipv4 ip)
  else if atyp = 3 then do
    let len ← readU8
    let domain ← readExact len.toNat
    let name ← fromUtf8OrFail "invalid domain" domain.val
    pure (.domain name)
  else if atyp = 4 then do
    let ip ← readExact 16
    pure (.ipv6 ip)
  else fail ("unsupported addr type: " ++ toString atyp.toNat)

def readSocks5AddrPort : Talk cap (Address × UInt16) := do
  let atyp ← readU8
  let addr ← readAddress atyp
  let port ← readU16
  pure (addr,port)

inductive Served where
  | relays (session : Session) (dest : Destination)
  | associates (session : Session)

-- What surrounds a call: what the dispatcher answers, with all that its link then produces, and on which port packets are
-- taken if it comes to that.
structure Surroundings where
  dispatch : Session → Destination → Except String Bytes
  dispatchUdp : Session → Except String UInt16

section
variable (around : Surroundings)

def relay (session : Session) (dest : Destination) : Talk cap Served :=
  match around.dispatch (aimedAt session dest) dest with
  | .error e => fail e
  | .ok download => do
    say download
    pure (.relays (aimedAt session dest) dest)

def tcpConnect (session : Session) (address : Address) (port : UInt16) : Talk cap Served := do
  writeAll (socks5Response address port)
  relay around session (tcpDestination address ⟨port⟩)

def udpAssociate (session : Session) (address : Address) (port : UInt16) :
    Talk cap Served :=
  if config.udpEnabled then
    let session := aimedAt session (udpDestination address ⟨port⟩)
    match around.dispatchUdp session with
    | .error e => fail e
    | .ok bindPort => do
      writeAll (socks5Response anyIp bindPort)
      pure (.associates session)
  else do
    writeAll (socks5Error statusCmdNotSupported)
    fail "UDP not enabled"

def readRequest : Talk cap (UInt8 × Address × UInt16) := do
  let req ← readExact 3
  let (address,port) ← readSocks5AddrPort
  pure (req.val.getD 1 0,address,port)

def carryOut (session : Session) : UInt8 × Address × UInt16 → Talk cap Served
  | (cmd,address,port) =>
    if cmd = cmdConnect then tcpConnect around session address port
    else if cmd = cmdUdpAssociate then udpAssociate config around session address port
    else do
      writeAll (socks5Error statusCmdNotSupported)
      fail (if cmd = cmdBind then "TCP BIND not supported" else "unknown cmd: " ++ toString cmd.toNat)

def handleSocks5 (session : Session) : Talk cap Served := do
  let _username ← socks5Auth config
  let request ← readRequest
  carryOut config around session request

def handleSocks4 (session : Session) : Talk cap Served :=
  if config.authType = .password then do
    writeAll (socks4Response socks4Rejected anyIp 0)
    fail "socks4 not allowed with auth"
  else do
    let cmd ← readU8
    let port ← readU16
    let ip ← readExact 4
    let _userId ← readUntilNull
    let address ←
      (if ip.val.take 3 = [0,0,0] ∧ ip.val.getD 3 0 ≠ 0 then do
        let domain ← readUntilNull
        pure (.domain domain)
      else pure (.ipv4 ip))
    if cmd ≠ cmdConnect then do
      writeAll (socks4Response socks4Rejected anyIp 0)
      fail ("socks4 unsupported cmd: " ++ toString cmd.toNat)
    else do
      writeAll (socks4Response socks4Granted address port)
      relay around session (tcpDestination address ⟨port⟩)

def readVersion : Talk cap UInt8 := fun stream =>
  ([],match PolledStream.readExact 1 stream with
    | .ok (byte,rest) => .ok (byte.val.getD 0 0,rest)
    | .error _ =>
      match stream.ending with
      | .stillOpen => .error .waits
      | .closed => .error (.error "connection closed")
      | .broken e => .error (.error ("socks read: " ++ e)))

def hexDigit (n : Nat) : Char := if n < 10 then Char.ofNat (48 + n) else Char.ofNat (87 + n)
def hexByte (b : UInt8) : String := String.ofList [hexDigit (b.toNat / 16),hexDigit (b.toNat % 16)]

def processInbound (session : Session) : Talk cap Served := do
  let version ← readVersion
  if version = socks4Version then handleSocks4 config around session
  else if version = socks5Version then handleSocks5 config around session
  else fail ("not a SOCKS request: byte=0x" ++ hexByte version ++ " (HTTP fallback not available)")

end

end

structure ClientConfig where
  username : String
  password : String

section
variable (config : ClientConfig)

def ClientConfig.authByte : UInt8 := if config.username ≠ "" then authPassword else authNotRequired

def ClientConfig.authRequest : Bytes :=
  1 :: UInt8.ofNat (asBytes config.username).length :: (asBytes config.username ++
    UInt8.ofNat (asBytes config.password).length :: asBytes config.password)

def authenticate : Talk cap Unit :=
  if config.username ≠ "" then do
    writeAll config.authRequest
    let authResp ← readExact 2
    if authResp.val.getD 1 0 ≠ 0 then fail "auth rejected" else pure ()
  else pure ()

def skipBoundAddress (atyp : UInt8) : Talk cap Unit :=
  if atyp = 1 then do
    let _ip ← readExact 4
    pure ()
  else if atyp = 3 then do
    let len ← readU8
    let _d ← readExact len.toNat
    pure ()
  else if atyp = 4 then do
    let _ip ← readExact 16
    pure ()
  else fail ("unknown bind addr type: " ++ toString atyp.toNat)

def readReply : Talk cap Unit := do
  let respHdr ← readExact 4
  if respHdr.val.getD 1 0 ≠ statusSuccess then fail ("server rejected: " ++ toString (respHdr.val.getD 1 0).toNat)
  else do
    skipBoundAddress (respHdr.val.getD 3 0)
    let _port ← readU16
    pure ()

def connectRequest (address : Address) (port : UInt16) : Bytes :=
  socks5Version :: cmdConnect :: 0 :: encodeAddrPort address port

def readMethod : Talk cap Unit := do
  let resp ← readExact 2
  if resp.val.getD 0 0 ≠ socks5Version then fail ("unexpected socks version: " ++ toString (resp.val.getD 0 0).toNat)
  else if resp.val.getD 1 0 ≠ config.authByte then fail ("auth method rejected: " ++ toString (resp.val.getD 1 0).toNat)
  else pure ()

def socks5ClientHandshake (address : Address) (port : UInt16) : Talk cap Unit := do
  writeAll [socks5Version,1,config.authByte]
  readMethod config
  authenticate config
  writeAll (connectRequest address port)
  readReply

def processOutbound (session : Session) (dialed : Except String Unit) (upload : Bytes) : Talk cap Unit :=
  match session.target with
  | none => fail "no outbound target"
  | some target =>
    if target.network = .udp then fail "UDP over SOCKS outbound requires process_udp"
    else
      match dialed with
      | .error e => fail e
      | .ok () => do
        socks5ClientHandshake config target.address target.port.value
        say upload

end

end AstraCore.Socks
