import AstraCore.DnsCache
import AstraCore.NumberText

namespace AstraCore.Dns
open CheckedBytes NetAddress TextScan AddressText List

def parseIp (text : Text) : Option IpAddr := ((parseIpv4 text).map IpAddr.v4).or ((parseIpv6 text).map IpAddr.v6)

inductive HostValue where
  | text (value : Text)
  | list (items : List (Option Text))
  | other

inductive HostsJson where
  | object (members : List (Text × HostValue))
  | other

section
variable (toLowercase : Text → Text)

def addHost (hosts : StaticHosts) (member : Text × HostValue) : Except String StaticHosts :=
  let key := normalized toLowercase member.1
  match member.2 with
  | .text value =>
    if value.head? = some '#' then .ok hosts
    else
      match parseIp value with
      | some ip => .ok ⟨hosts.entries.insert key (.ips [ip])⟩
      | none => .ok ⟨hosts.entries.insert key (.domain (toLowercase value))⟩
  | .list items =>
    let ips := items.filterMap (fun item => item.bind parseIp)
    if ips = [] then .ok hosts else .ok ⟨hosts.entries.insert key (.ips ips)⟩
  | .other => .error ("invalid hosts value for '" ++ String.ofList member.1 ++ "'")

def parseHosts : Option HostsJson → Except String StaticHosts
  | none => .ok ⟨∅⟩
  | some .other => .error "hosts must be a JSON object"
  | some (.object members) => members.foldlM (addHost toLowercase) ⟨∅⟩

structure NameServerConfig where
  address : Text
  clientIp : Option Text := none
  port : UInt16 := 0
  skipFallback : Bool := false
  domains : List Text := []
  expectedIps : List Text := []
  tag : Text := []

structure DnsConfig where
  servers : List NameServerConfig
  hosts : Option HostsJson := none
  queryStrategy : Text := []
  disableCache : Bool := false
  disableFallback : Bool := false
  disableFallbackIfMatch : Bool := false
  enableParallelQuery : Bool := false

def schemes : List (Text × Text) :=
  [("https://".toList,"doh".toList),("h2c://".toList,"doh".toList),("https+local://".toList,"doh".toList),
    ("quic+local://".toList,"doq".toList),("quic+local://".toList,"doq".toList),("tcp://".toList,"tcp".toList),
    ("tcp+local://".toList,"tcp+local".toList)]

def protocolOf (raw : Text) : Text × Text :=
  (schemes.findSome? fun scheme => (strip scheme.1 raw).map fun rest => (scheme.2,rest)).getD ("udp".toList,raw)

def parseClientIp : Option Text → Except String (Option IpAddr)
  | none => .ok none
  | some text =>
    match parseIp text with
    | some ip => .ok (some ip)
    | none => .error "invalid client_ip: invalid IP address syntax"

def NameServerConfig.effectivePort (sv : NameServerConfig) : UInt16 := if sv.port ≠ 0 then sv.port else 53

def buildNameServer (sv : NameServerConfig) : Except String NameServer :=
  (parseClientIp sv.clientIp).map fun clientIp =>
    let (protocol,addr) := protocolOf sv.address
    { address :=
        if protocol = "doh".toList ∨ protocol = "doq".toList then addr else addr ++ ':' :: decimal sv.effectivePort.toNat
      port := sv.effectivePort
      protocol := protocol
      domains := sv.domains
      expectedIps := sv.expectedIps.filterMap parseIp
      clientIp := clientIp
      skipFallback := sv.skipFallback
      tag := sv.tag }

inductive DnsResolver where
  | caching (resolver : CachingResolver)
  | simple (hosts : StaticHosts)

-- The last entry of a protocol decides on its endpoint. One entry over QUIC or HTTPS is enough to leave all others aside.
def sourceOf (dns : DnsConfig) (nameservers : List NameServer) : Source :=
  let protocols := dns.servers.map (fun sv => protocolOf sv.address)
  let queryStrategy := QueryStrategy.fromStr dns.queryStrategy
  match (protocols.filter (fun pair => pair.1 = "doq".toList)).getLast? with
  | some (_,endpoint) => .doq endpoint queryStrategy
  | none =>
    match (protocols.filter (fun pair => pair.1 = "doh".toList)).getLast? with
    | some (_,rest) => .doh ("https://".toList ++ rest) queryStrategy
    | none =>
      let useTcp := protocols.any (fun pair => pair.1 = "tcp".toList ∨ pair.1 = "tcp+local".toList)
      .servers ⟨if useTcp then .tcp else .udp,nameservers,queryStrategy,dns.enableParallelQuery,dns.disableFallback,
        dns.disableFallbackIfMatch⟩

def buildDnsResolver : Option DnsConfig → Except String (Option DnsResolver)
  | none => .ok none
  | some dns => do
    let hosts ← parseHosts toLowercase dns.hosts
    if dns.servers = [] then .ok (some (.simple hosts))
    else do
      let nameservers ← dns.servers.mapM buildNameServer
      .ok (some (.caching ⟨sourceOf dns nameservers,hosts,dns.disableCache⟩))

def readPort (text : Text) : Option (Nat × Text) :=
  readSeparator ':' 1 (fun digits => readNumber 10 digits.length 65535 true digits) text

def parseSocketAddrV4 (text : Text) : Option (Octets 4 × UInt16) := do
  let (ip,text) ← readIpv4 text
  let (port,text) ← readPort text
  if text = [] then some (ip,UInt16.ofNat port) else none

def socketAddress (a : Octets 4) (p : UInt16) : Text := displayIpv4 a ++ ':' :: decimal p.toNat

def Names (sv : NameServerConfig) (a : Octets 4) (p : UInt16) : Prop :=
  (sv.address = displayIpv4 a ∨ sv.address = "tcp://".toList ++ displayIpv4 a ∨ sv.address = "tcp+local://".toList ++ displayIpv4 a) ∧
    p = if sv.port = 0 then 53 else sv.port

def Addressed (dns : DnsConfig) (index : Nat) (a : Octets 4) (p : UInt16) : Prop :=
  ∀ resolver, buildDnsResolver toLowercase (some dns) = .ok (some (.caching resolver)) → ∀ domain world,
    ∀ query ∈ (resolver.source.lookup domain world).1.queries, query.server = some index →
      query.address = socketAddress a p ∧ parseSocketAddrV4 query.address = some (a,p)

def NeverAsked (dns : DnsConfig) (index : Nat) : Prop :=
  ∀ resolver hosts disableCache,
    buildDnsResolver toLowercase (some dns) = .ok (some (.caching ⟨.servers resolver,hosts,disableCache⟩)) →
      ∀ domain, ∀ server ∈ resolver.candidates domain, server.2 ≠ index

end

theorem displayIpv4_head (a) : ∃ c rest, displayIpv4 a = c :: rest ∧ c.isDigit = true := by
  have present : decimal (a.val.getD 0 0).toNat ≠ [] := Nat.toDigits_ne_nil
  obtain ⟨c,rest,shown⟩ := exists_cons_of_ne_nil present
  have digit := decimal_digits _ c (shown ▸ mem_cons_self)
  exact ⟨c,_,by rw [displayIpv4,shown]; rfl,digit⟩

theorem no_scheme {list : List (Text × Text)} (differ : ∀ scheme ∈ list, scheme.1.head?.any (· ≠ c) = true) :
    (list.findSome? fun scheme => (strip scheme.1 (c :: text)).map fun rest => (scheme.2,rest)) = none := by
  rw [findSome?_eq_none_iff]
  intro scheme inside
  have first := differ scheme inside
  cases shown : scheme.1 with
  | nil => rw [shown] at first; cases first
  | cons d lead =>
    rw [shown] at first
    have apart := of_decide_eq_true first
    rw [strip,if_neg (fun begins => apart (cons_prefix_cons.mp begins).1)]
    rfl

theorem protocolOf_tcp (text : Text) : protocolOf ('t' :: text) = ((schemes.drop 5).findSome? fun scheme =>
      (strip scheme.1 ('t' :: text)).map fun rest => (scheme.2,rest)).getD ("udp".toList,'t' :: text) := by
  have parts : schemes = schemes.take 5 ++ schemes.drop 5 := rfl
  have early : ((schemes.take 5).findSome? fun scheme => (strip scheme.1 ('t' :: text)).map fun rest => (scheme.2,rest)) = none :=
    no_scheme (by decide)
  rw [protocolOf,parts,findSome?_append,early,Option.none_or]
  rfl

theorem protocolOf_plain (a) : protocolOf (displayIpv4 a) = ("udp".toList,displayIpv4 a) := by
  obtain ⟨c,rest,shown,digit⟩ := displayIpv4_head a
  have letters : ∀ scheme ∈ schemes, scheme.1.head?.any (fun d => !d.isDigit) = true := by decide
  have differ : ∀ scheme ∈ schemes, scheme.1.head?.any (· ≠ c) = true := by
    intro scheme inside
    have letter := letters scheme inside
    cases first : scheme.1.head? with
    | none => rw [first] at letter; cases letter
    | some d =>
      grind
  rw [shown,protocolOf,no_scheme differ]
  rfl

theorem protocolOf_overTcp (rest) : protocolOf ("tcp://".toList ++ rest) = ("tcp".toList,rest) := by
  change protocolOf ('t' :: ("cp://".toList ++ rest)) = _
  rw [protocolOf_tcp]
  rfl

theorem protocolOf_onLocal (rest) : protocolOf ("tcp+local://".toList ++ rest) = ("tcp+local".toList,rest) := by
  rfl

theorem protocolOf_names (names : Names sv a p) :
    ∃ protocol, protocolOf sv.address = (protocol,displayIpv4 a) ∧ protocol ≠ "doh".toList ∧ protocol ≠ "doq".toList := by
  rcases names.1 with plain | tcp | onLocal
  · exact ⟨_,by rw [plain,protocolOf_plain],by decide,by decide⟩
  · exact ⟨_,by rw [tcp,protocolOf_overTcp],by decide,by decide⟩
  · exact ⟨_,by rw [onLocal,protocolOf_onLocal],by decide,by decide⟩

theorem buildNameServer_names (names : Names sv a p) (built : buildNameServer sv = .ok ns) : ns.address = socketAddress a p ∧ ns.port = p := by
  obtain ⟨protocol,split,notDoh,notDoq⟩ := protocolOf_names names
  have port : sv.effectivePort = p := by
    rw [names.2,NameServerConfig.effectivePort]
    split <;> simp_all
  unfold buildNameServer at built
  cases client : parseClientIp sv.clientIp with
  | error e => rw [client] at built; cases built
  | ok clientIp =>
    rw [client,split] at built
    cases built
    refine ⟨?_,port⟩
    change (if protocol = "doh".toList ∨ protocol = "doq".toList then displayIpv4 a
      else displayIpv4 a ++ ':' :: decimal sv.effectivePort.toNat) = _
    rw [if_neg (not_or.mpr ⟨notDoh,notDoq⟩),port,socketAddress]

theorem mapM_at {f : α → Except ε β} {items : List α} {index : Nat} (all : items.mapM f = .ok results) (found : items[index]? = some item) :
    ∃ result, results[index]? = some result ∧ f item = .ok result := by
  induction items generalizing index results with
  | nil => cases found
  | cons first rest ih =>
    rw [mapM_cons] at all
    obtain ⟨here,one,all⟩ := checked_bind all
    obtain ⟨others,later,all⟩ := checked_bind all
    cases all
    cases index with
    | zero =>
      cases found
      exact ⟨here,rfl,one⟩
    | succ index =>
      obtain ⟨result,listed,made⟩ := ih later (getElem?_cons_succ.symm.trans found)
      exact ⟨result,listed,made⟩

theorem built_servers {toLowercase : Text → Text} (built : buildDnsResolver toLowercase (some dns) = .ok (some (.caching resolver))) :
    ∃ nameservers, dns.servers.mapM buildNameServer = .ok nameservers ∧ resolver.source = sourceOf dns nameservers := by
  obtain ⟨hosts,-,built⟩ := checked_bind built
  split at built
  · cases built
  · obtain ⟨nameservers,each,built⟩ := checked_bind built
    cases built
    exact ⟨nameservers,each,rfl⟩

theorem sourceOf_servers (source : sourceOf dns nameservers = .servers resolver) : resolver.nameservers = nameservers := by
  unfold sourceOf at source
  simp only at source
  split at source
  · cases source
  · split at source
    · cases source
    · cases source
      rfl

theorem dohLoop_queries (inside : query ∈ (dohLoop url domain world qtypes).queries) : query.server = none := by
  induction qtypes with
  | nil => cases inside
  | cons qtype rest ih =>
    rw [dohLoop] at inside
    split at inside
    · rw [mem_singleton.mp inside]
    · split at inside
      · rw [mem_singleton.mp inside]
      · split at inside
        · rw [mem_singleton.mp inside]
        · rw [mem_singleton.mp inside]
        · rcases mem_cons.mp inside with here | later
          · rw [here]
          · exact ih later

theorem doqLoop_queries (inside : query ∈ (doqLoop endpoint domain world qtypes).queries) : query.server = none := by
  induction qtypes with
  | nil => cases inside
  | cons qtype rest ih =>
    rw [doqLoop] at inside
    split at inside
    · rw [mem_singleton.mp inside]
    · rw [mem_singleton.mp inside]
    · rcases mem_cons.mp inside with here | later
      · rw [here]
      · exact ih later

theorem candidate_address {toLowercase : Text → Text} (found : dns.servers[index]? = some sv) (names : Names sv a p)
    (built : buildDnsResolver toLowercase (some dns) = .ok (some (.caching ⟨.servers resolver,hosts,disableCache⟩)))
    (among : server ∈ resolver.candidates domain) (same : server.2 = index) :
    server.1.address ++ ':' :: decimal server.1.port.toNat = socketAddress a p ++ ':' :: decimal p.toNat := by
  obtain ⟨nameservers,each,source⟩ := built_servers built
  obtain ⟨ns,listed,made⟩ := mapM_at each found
  have entry := candidates_member among
  rw [sourceOf_servers source.symm,same,listed] at entry
  obtain ⟨address,port⟩ := buildNameServer_names names made
  rw [← Option.some.inj entry,address,port]

theorem address_iff (toLowercase : Text → Text) (dns : DnsConfig) (index : Nat) (sv : NameServerConfig) (a : Octets 4) (p : UInt16)
    (found : dns.servers[index]? = some sv) (names : Names sv a p) :
    Addressed toLowercase dns index a p ↔ NeverAsked toLowercase dns index := by
  constructor
  · intro addressed resolver hosts disableCache built domain server among same
    obtain ⟨query,asked⟩ := ask_present resolver domain silent server
    obtain ⟨aimed,address⟩ := ask_queries resolver domain silent server asked
    have sent : query ∈ (resolver.lookup domain silent).1.queries := by
      rw [lookup_asks]
      exact silent_asks resolver domain _ among asked
    have right := (addressed _ built domain silent query sent (by rw [aimed,same])).1
    rw [address,candidate_address found names built among same] at right
    simp at right
  · intro never resolver built domain world query inside aimed
    obtain ⟨source,hosts,disableCache⟩ := resolver
    cases source with
    | servers resolver =>
      change query ∈ (resolver.lookup domain world).1.queries at inside
      rw [lookup_asks] at inside
      obtain ⟨server,among,asked⟩ := queryServers_queries resolver domain world _ inside
      have told := (ask_queries resolver domain world server asked).1
      exact absurd (Option.some.inj (told.symm.trans aimed)) (never resolver hosts disableCache built domain server among)
    | doh url queryStrategy =>
      rw [dohLoop_queries inside] at aimed
      cases aimed
    | doq endpoint queryStrategy =>
      rw [doqLoop_queries inside] at aimed
      cases aimed

def publicIp : Octets 4 := ⟨[8,8,8,8],rfl⟩
def publicEntry : NameServerConfig := {address := "8.8.8.8".toList}
def mixedDns : DnsConfig := {servers := [{address := "https://dns.example/dns-query".toList},publicEntry]}
def plainDns : DnsConfig := {servers := [publicEntry]}

theorem publicEntry_names : Names publicEntry publicIp 53 := ⟨.inl (by decide +kernel),rfl⟩

theorem unasked_beside_https : Addressed (fun text => text) mixedDns 1 publicIp 53 := by
  refine (address_iff _ mixedDns 1 publicEntry publicIp 53 rfl publicEntry_names).mpr ?_
  intro resolver hosts disableCache built
  obtain ⟨nameservers,-,source⟩ := built_servers built
  have https : sourceOf mixedDns nameservers = .doh "https://dns.example/dns-query".toList .useIp := rfl
  rw [https] at source
  cases source

def plainResolver : CachingResolver :=
  ⟨.servers ⟨.udp,[⟨"8.8.8.8:53".toList,53,"udp".toList,[],[],none,false,[]⟩],.useIp,false,false,false⟩,⟨∅⟩,false⟩

theorem port_sent_twice : buildDnsResolver (fun text => text) (some plainDns) = .ok (some (.caching plainResolver)) ∧
      (plainResolver.source.lookup "a".toList silent).1.queries.map Query.address = ["8.8.8.8:53:53".toList,"8.8.8.8:53:53".toList] ∧
      parseSocketAddrV4 "8.8.8.8:53:53".toList = none ∧ ¬ Addressed (fun text => text) plainDns 0 publicIp 53 := by
  have built : buildDnsResolver (fun text => text) (some plainDns) = .ok (some (.caching plainResolver)) := rfl
  have sent : (plainResolver.source.lookup "a".toList silent).1.queries.map Query.address =
      ["8.8.8.8:53:53".toList,"8.8.8.8:53:53".toList] := by decide +kernel
  refine ⟨built,sent,by decide +kernel,fun addressed => ?_⟩
  have aimed : ∀ server ∈ (plainResolver.source.lookup "a".toList silent).1.queries.map Query.server, server = some 0 := by
    decide +kernel
  have first : "8.8.8.8:53:53".toList ∈ (plainResolver.source.lookup "a".toList silent).1.queries.map Query.address := by
    exact mem_cons_self
  obtain ⟨query,member,shown⟩ := mem_map.mp first
  have right := (addressed plainResolver built _ silent query member (aimed _ (mem_map_of_mem member))).1
  rw [shown] at right
  exact absurd right (by decide +kernel)

end AstraCore.Dns
