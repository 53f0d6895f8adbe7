import AstraCore.CheckedBytes

namespace AstraCore.StreamSecurity
open CheckedBytes

-- The fields of a JSON object with their texts where they are texts; `none` where there is no object.
abbrev JsonFields := Option (List (String × Option String))

def headerTexts (headers : JsonFields) : List (String × String) := (headers.getD []).map (fun (key,text) => (key,text.getD ""))

structure HttpConfig where
  host : List String
  path : String

structure WebSocketConfig where
  host : String
  path : String
  headers : JsonFields

structure HttpUpgradeConfig where
  host : String
  path : String
  headers : JsonFields
  acceptProxyProtocol : Bool

structure KcpSettings where
  mtu : Option UInt32
  tti : Option UInt32
  uplinkCapacity : Option UInt32
  downlinkCapacity : Option UInt32

structure SplitHttpSettings where
  host : String
  path : String
  mode : String
  headers : JsonFields
  maxUploadSize : Int64
  minUploadIntervalMs : Int32

structure QuicSettings where
  security : String
  key : String

structure StreamConfig where
  network : String := ""
  wsSettings : Option WebSocketConfig := none
  kcpSettings : Option KcpSettings := none
  grpcServiceName : Option String := none
  httpupgradeSettings : Option HttpUpgradeConfig := none
  splithttpSettings : Option SplitHttpSettings := none
  quicSettings : Option QuicSettings := none
  httpSettings : Option HttpConfig := none

inductive SplitMode where
  | packetUp
  | streamUp
  | streamOne

inductive Transport where
  | rawTcp
  | webSocket (host path : String) (headers : List (String × String))
  | httpUpgrade (host path : String) (headers : List (String × String)) (acceptProxyProtocol : Bool)
  | kcp (mtu tti uplinkCapacity downlinkCapacity cwndMultiplier maxSendingWindow : UInt32)
  | grpc (serviceName : String)
  | splitHttp (host path : String) (mode : SplitMode) (headers : List (String × String)) (maxUploadSize : Nat)
      (minUploadIntervalMs : Nat)
  | quic (security key : String)
  | h2 (host path : String)

def orSlash (path : String) : String := if path = "" then "/" else path

def splitMode (text : String) : SplitMode :=
  if text = "stream-up" then .streamUp else if text = "stream-one" then .streamOne else .packetUp

def isH2 (network : String) : Bool := network == "h2" || network == "http/2"

-- The settings present decide, in this order; the network's name counts for HTTP/2 alone.
def Transport.fromStreamConfig (stream : StreamConfig) : Transport :=
  if isH2 stream.network then
    .h2 ((stream.httpSettings.bind (fun http => http.host.head?)).getD "")
      (orSlash ((stream.httpSettings.map HttpConfig.path).getD ""))
  else
    match stream.kcpSettings with
    | some settings =>
      .kcp (settings.mtu.getD 1350) (settings.tti.getD 50) (settings.uplinkCapacity.getD 5)
        (settings.downlinkCapacity.getD 20) 1 (2 * 1024 * 1024)
    | none =>
      match stream.wsSettings with
      | some settings => .webSocket settings.host (orSlash settings.path) (headerTexts settings.headers)
      | none =>
        match stream.httpupgradeSettings with
        | some settings =>
          .httpUpgrade settings.host settings.path (headerTexts settings.headers) settings.acceptProxyProtocol
        | none =>
          match stream.grpcServiceName with
          | some serviceName => .grpc serviceName
          | none =>
            match stream.splithttpSettings with
            | some settings =>
              .splitHttp settings.host (orSlash settings.path) (splitMode settings.mode) (headerTexts settings.headers)
                (if settings.maxUploadSize > 0 then settings.maxUploadSize.toNatClampNeg else 1000000)
                (if settings.minUploadIntervalMs > 0 then settings.minUploadIntervalMs.toNatClampNeg else 30)
            | none =>
              match stream.quicSettings with
              | some settings => .quic settings.security settings.key
              | none => .rawTcp

end AstraCore.StreamSecurity
