import AstraCore.AddressText
import AstraCore.DnsMessage

namespace AstraCore.Dns
open CheckedBytes NetAddress TextScan AddressText List
open Dispatcher (DnsError)

inductive QueryStrategy where
  | useIp
  | useIp4
  | useIp6
deriving DecidableEq, Repr

def QueryStrategy.fromStr (text : Text) : QueryStrategy :=
  if text = "UseIPv4".toList then .useIp4 else if text = "UseIPv6".toList then .useIp6 else .useIp

def dnsQueryTypes : QueryStrategy → List UInt16
  | .useIp4 => [qtypeA]
  | .useIp6 => [qtypeAaaa]
  | .useIp => [qtypeA,qtypeAaaa]

structure NameServer where
  address : Text
  port : UInt16
  protocol : Text
  domains : List Text
  expectedIps : List IpAddr
  clientIp : Option IpAddr
  skipFallback : Bool
  tag : Text

def strip (lead text : Text) : Option Text := if lead <+: text then some (text.drop lead.length) else none

def within (domain suffix : Text) : Bool := domain = suffix || ('.' :: suffix) <:+ domain

-- A regular expression matches nothing, and a site list is taken for a domain.
def patternMatches (domain pattern : Text) : Bool :=
  match strip "domain:".toList pattern with
  | some suffix => within domain suffix
  | none =>
    match strip "keyword:".toList pattern with
    | some keyword => keyword <:+: domain
    | none =>
      match strip "regexp:".toList pattern with
      | some _ => false
      | none => within domain ((strip "geosite:".toList pattern).getD pattern)

def NameServer.matchesDomain (ns : NameServer) (domain : Text) : Bool :=
  ns.domains.isEmpty || ns.domains.any (patternMatches domain)

-- Addresses with the time at which the message that holds them was received. The code passes on the addresses alone: the
-- times to live and the time of arrival are read by statements only.
structure Answer where
  records : List Record
  received : Nat
deriving DecidableEq

def Answer.ips (answer : Answer) : List IpAddr := answer.records.map Record.ip

def filterExpected (answer : Answer) (expected : List IpAddr) : Answer :=
  if expected = [] then answer else {answer with records := answer.records.filter (fun record => record.ip ∈ expected)}

inductive Transport where
  | udp
  | tcp
deriving DecidableEq, Repr

-- What the world does to one query: it fails, or something comes back. For a stream, `next` is what reading ends with where
-- more bytes are wanted than there are.
inductive Reply where
  | failed (error : DnsError)
  | received (data : Bytes) (time : Nat) (next : DnsError)

structure Exchange where
  number : UInt16
  reply : Reply
  status : Nat := 200
  statusText : String := "200 OK"

-- A server is known by its place in the configuration, as two entries are told apart by their addresses in memory.
abbrev Server := NameServer × Nat

abbrev World := Nat → UInt16 → Exchange

structure Query where
  server : Option Nat
  transport : Transport
  address : Text
  wire : Bytes

abbrev Outcome := Option (Except DnsError Answer)

def parsedAt (time : Nat) (data : Bytes) : Outcome :=
  (parseDnsResponse data).run.map fun outcome => outcome.map fun parsed => ⟨parsed.1,time⟩

def resolveUdp (exchange : Exchange) : Outcome :=
  match exchange.reply with
  | .failed e => some (.error e)
  | .received data time _ =>
    let buf := data.take 4096
    if be16 ((buf ++ [0,0]).take 2) ≠ exchange.number then some (.error (.network "response ID mismatch"))
    else parsedAt time buf

def resolveTcp (exchange : Exchange) : Outcome :=
  match exchange.reply with
  | .failed e => some (.error e)
  | .received data time next =>
    let respLen := (word16 data 0).toNat
    if data.length < 2 ∨ data.length < 2 + respLen then some (.error next) else parsedAt time ((data.drop 2).take respLen)

def framed (query : Bytes) : Bytes := u16ToBe (UInt16.ofNat query.length) ++ query

def Transport.send (transport : Transport) (server : Server) (domain : Text) (qtype : UInt16) (exchange : Exchange) : Query × Outcome :=
  let query := buildDnsQueryWithEdns domain qtype exchange.number server.1.clientIp 0
  let address := server.1.address ++ ':' :: decimal server.1.port.toNat
  match transport with
  | .udp => (⟨some server.2,.udp,address,query⟩,resolveUdp exchange)
  | .tcp => (⟨some server.2,.tcp,address,framed query⟩,resolveTcp exchange)

structure Asked where
  queries : List Query
  result : Option (Except (Option DnsError) Answer)

def askTypes (expected : List IpAddr) (send : UInt16 → Query × Outcome) : List UInt16 → Asked
  | [] => ⟨[],some (.error none)⟩
  | qtype :: rest =>
    match (send qtype).2 with
    | none => ⟨[(send qtype).1],none⟩
    | some (.ok answer) =>
      if (filterExpected answer expected).records ≠ [] then ⟨[(send qtype).1],some (.ok (filterExpected answer expected))⟩
      else ⟨(send qtype).1 :: (askTypes expected send rest).queries,(askTypes expected send rest).result⟩
    | some (.error e) =>
      ⟨(send qtype).1 :: (askTypes expected send rest).queries,
        (askTypes expected send rest).result.map (fun result => result.mapError (fun later => later.or (some e)))⟩

structure Lookup where
  asked : List Nat
  queries : List Query
  result : Outcome

def Transport.report (transport : Transport) (last : DnsError) (found : Option DnsError) : DnsError :=
  match transport with
  | .udp => .emptyResponse
  | .tcp => found.getD last

def serialQuery (transport : Transport) (ask : Server → Asked) : List Server → DnsError → Lookup
  | [],last => ⟨[],[],some (.error last)⟩
  | server :: rest,last =>
    match (ask server).result with
    | none => ⟨[server.2],(ask server).queries,none⟩
    | some (.ok answer) => ⟨[server.2],(ask server).queries,some (.ok answer)⟩
    | some (.error found) =>
      let later := serialQuery transport ask rest (transport.report last found)
      ⟨server.2 :: later.asked,(ask server).queries ++ later.queries,later.result⟩

def firstOk (results : List (Except (Option DnsError) Answer)) : Except DnsError Answer :=
  match results.findSome? Except.toOption with
  | some answer => .ok answer
  | none => .error .emptyResponse

-- All servers are asked at once, and the first answer in their order is taken when all are through.
def parallelQuery (ask : Server → Asked) (servers : List Server) : Lookup :=
  ⟨servers.map Prod.snd,servers.flatMap (fun server => (ask server).queries),
    (servers.mapM (fun server => (ask server).result)).map firstOk⟩

structure Resolver where
  transport : Transport
  nameservers : List NameServer
  queryStrategy : QueryStrategy
  enableParallel : Bool
  disableFallback : Bool
  disableFallbackIfMatch : Bool

section
variable (resolver : Resolver) (domain : Text)

def Resolver.ask (world : World) (server : Server) : Asked :=
  let protocol := server.1.protocol
  let transport : Transport := match resolver.transport with
    | .udp => if protocol = "tcp".toList ∨ protocol = "tcp+local".toList then .tcp else .udp
    | .tcp => .tcp
  askTypes server.1.expectedIps (fun qtype => transport.send server domain qtype (world server.2 qtype))
    (dnsQueryTypes resolver.queryStrategy)

def Resolver.queryServers (world : World) (servers : List Server) : Lookup :=
  if resolver.enableParallel then parallelQuery (resolver.ask domain world) servers
  else serialQuery resolver.transport (resolver.ask domain world) servers .emptyResponse

-- The matching servers, then the rest; a mark in the tag of a matching one drops the rest.
def sortClientsByDomain (nameservers : List NameServer) : List Server × Bool :=
  let servers := nameservers.zipIdx
  let matched := servers.filter (fun server => server.1.matchesDomain domain)
  if matched.any (fun server => '+' ∈ server.1.tag) then (matched,true)
  else
    let remaining := (servers.filter (fun server => !matched.any (fun other => other.2 == server.2))).filter
      (fun server => !server.1.skipFallback)
    (matched ++ remaining,false)

def Resolver.lookup (world : World) : Lookup × Bool :=
  let (sorted,hasFinal) := sortClientsByDomain domain resolver.nameservers
  match resolver.transport with
  | .udp =>
    let hasMatch := sorted.head?.any (fun server => server.1.matchesDomain domain)
    if (resolver.disableFallback || (resolver.disableFallbackIfMatch && hasMatch)) && !hasFinal then
      let matchedOnly := sorted.filter (fun server => server.1.matchesDomain domain)
      if matchedOnly = [] then (⟨[],[],some (.error .emptyResponse)⟩,false)
      else (resolver.queryServers domain world matchedOnly,false)
    else (resolver.queryServers domain world sorted,true)
  | .tcp => (resolver.queryServers domain world sorted,true)

-- The servers that the configuration means for a domain: those that match, and behind them the others that may stand in,
-- unless the configuration keeps the others out.
def Resolver.matching : List Server :=
  resolver.nameservers.zipIdx.filter (fun server => server.1.matchesDomain domain)

def Resolver.others : List Server :=
  resolver.nameservers.zipIdx.filter (fun server => !server.1.matchesDomain domain && !server.1.skipFallback)

def Resolver.NoFallback : Prop :=
  resolver.disableFallback = true ∨ (resolver.disableFallbackIfMatch = true ∧ resolver.matching domain ≠ [])

def Resolver.Final : Prop := ∃ server ∈ resolver.matching domain, '+' ∈ server.1.tag

end

instance (resolver : Resolver) (domain : Text) : Decidable (resolver.NoFallback domain) := inferInstanceAs (Decidable (_ ∨ _))
instance (resolver : Resolver) (domain : Text) : Decidable (resolver.Final domain) := inferInstanceAs (Decidable (∃ _ ∈ _,_))

section
variable (resolver : Resolver)

def Resolver.policy (domain : Text) : List Server :=
  if resolver.NoFallback domain ∨ resolver.Final domain then resolver.matching domain
  else resolver.matching domain ++ resolver.others domain

def untilFirst (settles : α → Bool) : List α → List α
  | [] => []
  | first :: rest => if settles first then [first] else first :: untilFirst settles rest

def Asked.settles (asked : Asked) : Bool :=
  match asked.result with
  | some (.error _) => false
  | _ => true

def Resolver.inTurn (domain : Text) (world : World) (servers : List Server) : List Server :=
  if resolver.enableParallel then servers else untilFirst (fun server => (resolver.ask domain world server).settles) servers

def Selects (domain : Text) (world : World) : Prop :=
  (resolver.lookup domain world).1.asked = (resolver.inTurn domain world (resolver.policy domain)).map Prod.snd

theorem zipIdx_same {nameservers : List NameServer} (one : first ∈ nameservers.zipIdx)
    (two : second ∈ nameservers.zipIdx) (same : first.2 = second.2) : first = second := by
  have left := mem_zipIdx_iff_getElem?.mp one
  have right := mem_zipIdx_iff_getElem?.mp two
  rw [same,right] at left
  exact Prod.ext (Option.some.inj left).symm same

theorem remaining_others (domain) :
    ((resolver.nameservers.zipIdx.filter (fun server => !(resolver.matching domain).any (fun other => other.2 == server.2))).filter
      (fun server => !server.1.skipFallback)) = resolver.others domain := by
  rw [filter_filter]
  apply filter_congr
  intro server inside
  have told : ((resolver.matching domain).any fun other => other.2 == server.2) = server.1.matchesDomain domain := by
    rw [Bool.eq_iff_iff,any_eq_true]
    constructor
    · rintro ⟨other,found,same⟩
      obtain ⟨among,matched⟩ := mem_filter.mp found
      rw [← zipIdx_same among inside (by simpa using same)]
      exact matched
    · intro matched
      exact ⟨server,mem_filter.mpr ⟨inside,matched⟩,by simp⟩
  rw [told,Bool.and_comm]

theorem sorted_eq (domain) : sortClientsByDomain domain resolver.nameservers = if resolver.Final domain then (resolver.matching domain,true)
      else (resolver.matching domain ++ resolver.others domain,false) := by
  have final : (resolver.matching domain).any (fun server => decide ('+' ∈ server.1.tag)) = decide (resolver.Final domain) := by
    rw [Bool.eq_iff_iff,any_eq_true,decide_eq_true_iff]
    exact exists_congr fun server => and_congr_right fun _ => decide_eq_true_iff
  have rest := remaining_others resolver domain
  simp only [Resolver.matching] at final rest
  rw [sortClientsByDomain,final]
  simp only [rest]
  by_cases found : resolver.Final domain <;> simp [Resolver.matching]

theorem serialQuery_asked (last) : (serialQuery transport ask servers last).asked = (untilFirst (fun server => (ask server).settles) servers).map Prod.snd := by
  induction servers generalizing last with
  | nil => rfl
  | cons server rest ih =>
    rw [serialQuery,untilFirst,Asked.settles]
    cases (ask server).result with
    | none => rfl
    | some result =>
      cases result with
      | ok answer => rfl
      | error found =>
        exact congrArg _ (ih _)

theorem queryServers_asked : (resolver.queryServers domain world servers).asked = (resolver.inTurn domain world servers).map Prod.snd := by
  unfold Resolver.queryServers Resolver.inTurn
  split
  · rfl
  · exact serialQuery_asked ..

end

theorem matching_matches (inside : server ∈ Resolver.matching resolver domain) : server.1.matchesDomain domain = true :=
  (mem_filter.mp inside).2

theorem others_differ (inside : server ∈ Resolver.others resolver domain) : server.1.matchesDomain domain = false := by
  have apart := (mem_filter.mp inside).2
  rw [Bool.and_eq_true,Bool.not_eq_true'] at apart
  exact apart.1

section
variable (resolver : Resolver)

theorem matching_others : (resolver.matching domain ++ resolver.others domain).filter (fun server => server.1.matchesDomain domain) =
      resolver.matching domain := by
  have kept : (resolver.matching domain).filter (fun server => server.1.matchesDomain domain) = resolver.matching domain :=
    filter_eq_self.mpr fun _ inside => matching_matches inside
  have dropped : (resolver.others domain).filter (fun server => server.1.matchesDomain domain) = [] :=
    filter_eq_nil_iff.mpr fun _ inside => by simp [others_differ inside]
  rw [filter_append,kept,dropped,append_nil]

theorem head_matches : ((resolver.matching domain ++ resolver.others domain).head?.any fun server => server.1.matchesDomain domain) =
      decide (resolver.matching domain ≠ []) := by
  cases found : resolver.matching domain with
  | cons server rest =>
    have matched := matching_matches (found ▸ mem_cons_self)
    simp [matched]
  | nil =>
    cases left : resolver.others domain with
    | nil => rfl
    | cons server rest =>
      have apart := others_differ (left ▸ mem_cons_self)
      simp [apart]

theorem queryServers_nil : resolver.queryServers domain world [] = ⟨[],[],some (.error .emptyResponse)⟩ := by
  unfold Resolver.queryServers
  split <;> rfl

end

theorem udp_asks {resolver : Resolver} (udp : resolver.transport = .udp) :
    (resolver.lookup domain world).1 = resolver.queryServers domain world (resolver.policy domain) := by
  simp only [Resolver.lookup,udp,sorted_eq]
  by_cases final : resolver.Final domain
  · simp [final,Resolver.policy]
  · have refused : (resolver.disableFallback || (resolver.disableFallbackIfMatch && decide (resolver.matching domain ≠ []))) =
        decide (resolver.NoFallback domain) := by
      rw [Bool.eq_iff_iff,decide_eq_true_iff,Bool.or_eq_true,Bool.and_eq_true,decide_eq_true_iff]
      exact Iff.rfl
    simp only [if_neg final,head_matches,refused,matching_others,Bool.not_false,Bool.and_true,decide_eq_true_eq]
    simp only [Resolver.policy,final,or_false]
    by_cases no : resolver.NoFallback domain
    · rw [if_pos no]
      split
      · rename_i empty
        rw [empty,queryServers_nil]
      · rfl
    · rw [if_neg no,if_neg no]

theorem tcp_asks {resolver : Resolver} (tcp : resolver.transport = .tcp) : (resolver.lookup domain world).1 = resolver.queryServers domain world
      (resolver.matching domain ++ if resolver.Final domain then [] else resolver.others domain) := by
  simp only [Resolver.lookup,tcp,sorted_eq]
  split <;> simp

section
variable (resolver : Resolver)

def Resolver.candidates (domain : Text) : List Server :=
  match resolver.transport with
  | .udp => resolver.policy domain
  | .tcp => resolver.matching domain ++ if resolver.Final domain then [] else resolver.others domain

theorem lookup_asks (domain world) : (resolver.lookup domain world).1 = resolver.queryServers domain world (resolver.candidates domain) := by
  unfold Resolver.candidates
  cases kind : resolver.transport with
  | udp => exact udp_asks kind
  | tcp => exact tcp_asks kind

theorem send_query (transport : Transport) : (transport.send server domain qtype exchange).1.server = some server.2 ∧
      (transport.send server domain qtype exchange).1.address = server.1.address ++ ':' :: decimal server.1.port.toNat := by
  cases transport <;> exact ⟨rfl,rfl⟩

theorem askTypes_queries (inside : query ∈ (askTypes expected send qtypes).queries) : ∃ qtype, query = (send qtype).1 := by
  induction qtypes with
  | nil => cases inside
  | cons qtype rest ih =>
    rw [askTypes] at inside
    split at inside
    · exact ⟨qtype,mem_singleton.mp inside⟩
    · split at inside
      · exact ⟨qtype,mem_singleton.mp inside⟩
      · rcases mem_cons.mp inside with here | later
        · exact ⟨qtype,here⟩
        · exact ih later
    · rcases mem_cons.mp inside with here | later
      · exact ⟨qtype,here⟩
      · exact ih later

theorem askTypes_first : (send qtype).1 ∈ (askTypes expected send (qtype :: rest)).queries := by
  rw [askTypes]
  grind

theorem ask_queries (domain world server) (inside : query ∈ (resolver.ask domain world server).queries) :
    query.server = some server.2 ∧ query.address = server.1.address ++ ':' :: decimal server.1.port.toNat := by
  obtain ⟨qtype,rfl⟩ := askTypes_queries inside
  exact send_query ..

theorem ask_present (domain world server) : ∃ query, query ∈ (resolver.ask domain world server).queries := by
  have types : ∃ qtype rest, dnsQueryTypes resolver.queryStrategy = qtype :: rest := by
    cases resolver.queryStrategy <;> exact ⟨_,_,rfl⟩
  obtain ⟨qtype,rest,types⟩ := types
  unfold Resolver.ask
  rw [types]
  exact ⟨_,askTypes_first ..⟩

theorem serialQuery_queries (last) (inside : query ∈ (serialQuery transport ask servers last).queries) :
    ∃ server ∈ servers, query ∈ (ask server).queries := by
  induction servers generalizing last with
  | nil => cases inside
  | cons server rest ih =>
    rw [serialQuery] at inside
    split at inside
    · exact ⟨server,mem_cons_self,inside⟩
    · exact ⟨server,mem_cons_self,inside⟩
    · rcases mem_append.mp inside with here | later
      · exact ⟨server,mem_cons_self,here⟩
      · obtain ⟨other,among,asked⟩ := ih _ later
        exact ⟨other,mem_cons_of_mem _ among,asked⟩

theorem queryServers_queries (domain world servers) (inside : query ∈ (resolver.queryServers domain world servers).queries) :
    ∃ server ∈ servers, query ∈ (resolver.ask domain world server).queries := by
  unfold Resolver.queryServers at inside
  split at inside
  · exact mem_flatMap.mp inside
  · exact serialQuery_queries _ inside

theorem serialQuery_unsettled (last)
    (unsettled : ∀ server ∈ servers, (ask server).settles = false) (among : server ∈ servers) (asked : query ∈ (ask server).queries) :
    query ∈ (serialQuery transport ask servers last).queries := by
  induction servers generalizing last with
  | nil => cases among
  | cons first rest ih =>
    have failed := unsettled first mem_cons_self
    rw [serialQuery]
    rw [Asked.settles] at failed
    split
    · rename_i result
      rw [result] at failed
      cases failed
    · rename_i result
      rw [result] at failed
      cases failed
    · rcases mem_cons.mp among with rfl | later
      · exact mem_append_left _ asked
      · exact mem_append_right _ (ih _ (fun other inside => unsettled other (mem_cons_of_mem _ inside)) later)

def silent : World := fun _ _ => {number := 0,reply := .failed .timeout}

theorem askTypes_failed (expected) (fails : ∀ qtype, ∃ e, (send qtype).2 = some (.error e)) :
    ∃ e, (askTypes expected send qtypes).result = some (.error e) := by
  induction qtypes with
  | nil => exact ⟨none,rfl⟩
  | cons qtype rest ih =>
    obtain ⟨e,failed⟩ := fails qtype
    obtain ⟨later,result⟩ := ih
    rw [askTypes]
    split
    · simp_all
    · simp_all
    · rw [result]
      exact ⟨_,rfl⟩

theorem silent_unsettled : (resolver.ask domain silent server).settles = false := by
  have fails : ∀ (transport : Transport) qtype, ∃ e, (transport.send server domain qtype (silent server.2 qtype)).2 = some (.error e) := by
    intro transport qtype
    cases transport <;> exact ⟨.timeout,rfl⟩
  obtain ⟨e,result⟩ := askTypes_failed server.1.expectedIps (fails _)
  unfold Resolver.ask Asked.settles
  rw [result]

theorem silent_asks (domain servers) (among : server ∈ servers)
    (asked : query ∈ (resolver.ask domain silent server).queries) : query ∈ (resolver.queryServers domain silent servers).queries := by
  unfold Resolver.queryServers
  split
  · exact mem_flatMap.mpr ⟨server,among,asked⟩
  · exact serialQuery_unsettled _ (fun other _ => silent_unsettled resolver) among asked

end

theorem candidates_member (inside : server ∈ Resolver.candidates resolver domain) : resolver.nameservers[server.2]? = some server.1 := by
  have listed : server ∈ resolver.matching domain ∨ server ∈ resolver.others domain := by
    unfold Resolver.candidates at inside
    split at inside
    · grind [Resolver.policy]
    · rcases mem_append.mp inside with first | second
      · exact .inl first
      · split at second
        · cases second
        · exact .inr second
  apply mem_zipIdx_iff_getElem?.mp
  rcases listed with matching | other
  · exact mem_of_mem_filter matching
  · exact mem_of_mem_filter other

theorem untilFirst_settled {settles : α → Bool} (found : ∃ item ∈ front, settles item = true) (back) :
    untilFirst settles (front ++ back) = untilFirst settles front := by
  induction front with
  | nil => simp at found
  | cons first rest ih =>
    rw [cons_append,untilFirst,untilFirst]
    by_cases here : settles first = true
    · rw [if_pos here,if_pos here]
    · obtain ⟨item,inside,settled⟩ := found
      have later := (mem_cons.mp inside).resolve_left fun same => here (same ▸ settled)
      rw [if_neg here,if_neg here,ih ⟨item,later,settled⟩]

theorem untilFirst_unsettled {settles : α → Bool} (none_ : ¬ ∃ item ∈ front, settles item = true) (back) :
    untilFirst settles (front ++ back) = front ++ untilFirst settles back := by
  induction front with
  | nil => rfl
  | cons first rest ih =>
    have here : ¬ settles first = true := fun settled => none_ ⟨first,mem_cons_self,settled⟩
    have later : ¬ ∃ item ∈ rest, settles item = true := by
      grind
    rw [cons_append,untilFirst,if_neg here,ih later,cons_append]

theorem untilFirst_nil : untilFirst settles items = [] ↔ items = [] := by
  cases items with
  | nil => simp [untilFirst]
  | cons first rest =>
    rw [untilFirst]
    split <;> simp

theorem inTurn_append_iff (resolver : Resolver) :
    (resolver.inTurn domain world (front ++ back)).map Prod.snd = (resolver.inTurn domain world front).map Prod.snd ↔
      back = [] ∨ (resolver.enableParallel = false ∧ ∃ server ∈ front, (resolver.ask domain world server).settles = true) := by
  unfold Resolver.inTurn
  cases resolver.enableParallel with
  | true => simp
  | false =>
    simp only [Bool.false_eq_true]
    by_cases found : ∃ server ∈ front, (resolver.ask domain world server).settles = true
    · simp [untilFirst_settled found,found]
    · have alone := untilFirst_unsettled found []
      rw [append_nil,untilFirst] at alone
      rw [untilFirst_unsettled found,alone]
      simp [untilFirst_nil,found]

theorem selection_iff (resolver : Resolver) (domain : Text) (world : World) : Selects resolver domain world ↔
      resolver.transport = .udp ∨ ¬ resolver.NoFallback domain ∨ resolver.Final domain ∨ resolver.others domain = [] ∨
        (resolver.enableParallel = false ∧
          ∃ server ∈ resolver.matching domain, (resolver.ask domain world server).settles = true) := by
  unfold Selects
  cases kind : resolver.transport with
  | udp => simp [udp_asks kind,queryServers_asked]
  | tcp =>
    rw [tcp_asks kind,queryServers_asked,Resolver.policy]
    by_cases final : resolver.Final domain
    · simp [final]
    · by_cases no : resolver.NoFallback domain
      · simp only [if_pos (Or.inl no : resolver.NoFallback domain ∨ resolver.Final domain),inTurn_append_iff]
        simp [no,final]
      · simp [no,final]

-- A server for the names of a company and one for names outside, and names of the company that stay inside.
def innerServer : NameServer := ⟨"10.0.0.1".toList,53,"tcp".toList,["domain:corp".toList],[],none,false,[]⟩
def outerServer : NameServer := ⟨"8.8.8.8".toList,53,"tcp".toList,["domain:com".toList],[],none,false,[]⟩
def zoned : Resolver := ⟨.tcp,[innerServer,outerServer],.useIp4,false,true,false⟩

-- The name goes to the server outside as soon as the one inside does not answer.
theorem company_name_leaks : zoned.NoFallback "host.corp".toList ∧ (zoned.lookup "host.corp".toList silent).1.asked = [0,1] ∧
      (zoned.policy "host.corp".toList).map Prod.snd = [0] ∧ ¬ Selects zoned "host.corp".toList silent := by
  unfold Selects
  decide +kernel

end AstraCore.Dns
