import AstraCore.CheckedBytes

namespace AstraCore.NetAddress
open CheckedBytes

abbrev Octets (n : Nat) := {bytes : Bytes // bytes.length = n}

def Octets.zero (n : Nat) : Octets n := ⟨List.replicate n 0,by simp⟩

inductive Address where
  | ipv4 (octets : Octets 4)
  | ipv6 (octets : Octets 16)
  | domain (name : String)
deriving DecidableEq

inductive IpAddr where
  | v4 (octets : Octets 4)
  | v6 (octets : Octets 16)
deriving DecidableEq

def Address.asIp : Address → Option IpAddr
  | .ipv4 octets => some (.v4 octets)
  | .ipv6 octets => some (.v6 octets)
  | .domain _ => none

def Address.asDomain : Address → Option String
  | .domain name => some name
  | _ => none

structure Port where
  value : UInt16
deriving DecidableEq, Repr

inductive Network where
  | unknown
  | tcp
  | udp
  | unix
deriving DecidableEq, Repr

def Network.systemString : Network → String
  | .tcp => "tcp"
  | .udp => "udp"
  | .unix => "unix"
  | .unknown => "unknown"

structure Destination where
  address : Address
  port : Port
  network : Network
deriving DecidableEq

def tcpDestination (address : Address) (port : Port) : Destination := ⟨address,port,.tcp⟩
def udpDestination (address : Address) (port : Port) : Destination := ⟨address,port,.udp⟩

end AstraCore.NetAddress
