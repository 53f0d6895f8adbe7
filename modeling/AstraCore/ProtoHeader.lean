import AstraCore.Crypto
import AstraCore.LossyUtf8

namespace AstraCore.ProtoHeader
open CheckedBytes NetAddress LossyUtf8 Crypto

inductive SecurityType where
  | unknown
  | auto
  | aes128Gcm
  | chaCha20Poly1305
  | none
  | zero
deriving DecidableEq, Repr

def SecurityType.asByte : SecurityType → UInt8
  | .unknown => 0
  | .auto => 2
  | .aes128Gcm => 3
  | .chaCha20Poly1305 => 4
  | .none => 5
  | .zero => 6

def SecurityType.fromByte (b : UInt8) : SecurityType :=
  if b = 0 then .unknown
  else if b = 2 then .auto
  else if b = 3 then .aes128Gcm
  else if b = 4 then .chaCha20Poly1305
  else if b = 5 then .none
  else if b = 6 then .zero
  else .unknown

inductive RequestCommand where
  | tcp
  | udp
  | mux
  | rvs
deriving DecidableEq, Repr

def RequestCommand.asByte : RequestCommand → UInt8
  | .tcp => 1
  | .udp => 2
  | .mux => 3
  | .rvs => 4

def RequestCommand.fromByte (b : UInt8) : Option RequestCommand :=
  if b = 1 then some .tcp
  else if b = 2 then some .udp
  else if b = 3 then some .mux
  else if b = 4 then some .rvs
  else none

theorem security_roundtrip (security) : SecurityType.fromByte security.asByte = security := by
  cases security <;> rfl

theorem command_roundtrip (command) : RequestCommand.fromByte command.asByte = some command := by
  cases command <;> rfl

-- Only `ID::new` makes an identifier, so its command key is a function of the UUID.
structure ID where
  uuid : Octets 16
deriving DecidableEq

def uuidCmdKeySalt : Bytes := asBytes "c48619fe-8f02-49e0-b9e9-edf763e17e21"

def ID.cmdKey (crypto : Primitives) (id : ID) : Octets 16 := crypto.md5 (id.uuid.val ++ uuidCmdKeySalt)

inductive Account where
  | vmess (id : ID)
  | vless (id : ID)
  | other
deriving DecidableEq

structure MemoryUser where
  account : Option Account
  email : String
  level : UInt32
deriving DecidableEq

structure RequestHeader where
  version : UInt8
  command : RequestCommand
  option : UInt8
  security : SecurityType
  port : Port
  address : Address
  user : Option MemoryUser
deriving DecidableEq

-- Both inbound handlers send a packet request to a UDP target and everything else to a TCP one.
def RequestHeader.destination (request : RequestHeader) : Destination :=
  match request.command with
  | .udp => udpDestination request.address request.port
  | _ => tcpDestination request.address request.port

theorem destination_address (request : RequestHeader) : request.destination.address = request.address := by
  unfold RequestHeader.destination
  cases request.command <;> rfl

end AstraCore.ProtoHeader
