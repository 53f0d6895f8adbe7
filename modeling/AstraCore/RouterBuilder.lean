import Mathlib.Data.List.DropRight
import Mathlib.Data.List.Infix
import AstraCore.Dispatcher

namespace AstraCore.RouterBuilder
open CheckedBytes NetAddress Routing Dispatcher

-- Unicode case mapping, regular expressions and the texts of addresses belong to libraries.
structure Libraries where
  toLowercase : String → String
  toUppercase : String → String
  regex : String → Option (String → Bool)
  parseNetwork : String → Except String (IpAddr → Bool)
  parseIp : String → Except String IpAddr
  displayIpv6 : Bytes → String

def stripPrefix (text lead : String) : Option String :=
  if lead.toList <+: text.toList then some (String.ofList (text.toList.drop lead.length)) else none

def trimStartMatches (text : String) (mark : Char) : String := String.ofList (text.toList.dropWhile (· == mark))
def trimEndMatches (text : String) (mark : Char) : String := String.ofList (text.toList.rdropWhile (· == mark))

inductive DomainPattern where
  | exact (domain : String)
  | subdomain (domain : String)
  | keyword (word : String)
  | regex (isMatch : String → Bool)

section
variable (lib : Libraries)

-- A pattern that does not compile is replaced by the empty one, which matches every text.
def Libraries.regexOrEmpty (pattern : String) : String → Bool := (lib.regex pattern).getD (fun _ => true)

def Libraries.domainPattern (text : String) : DomainPattern :=
  match stripPrefix text "keyword:" with
  | some keyword => .keyword (lib.toLowercase keyword)
  | none =>
    match stripPrefix text "regexp:" with
    | some pattern => .regex (lib.regexOrEmpty pattern)
    | none =>
      let plain := (stripPrefix text "domain:").getD text
      if ".".toList <+: plain.toList then .subdomain (lib.toLowercase plain) else .exact (lib.toLowercase plain)

def DomainPattern.matches (domain : String) : DomainPattern → Bool
  | .exact name => domain == name || domain ++ "." == name || domain == trimEndMatches name '.'
  | .subdomain name =>
    let name := trimStartMatches name '.'
    domain == name || ("." ++ name).toList <:+ domain.toList
  | .keyword word => word.toList <:+: domain.toList
  | .regex isMatch => isMatch domain

def Libraries.domainMatcher (domains : List String) : Matcher := fun context =>
  match context.targetDomain with
  | none => false
  | some domain => (domains.map lib.domainPattern).any (DomainPattern.matches (lib.toLowercase domain))

section
variable (ips : List String)

def Libraries.networks : Except String (List (IpAddr → Bool)) :=
  ips.mapM (fun text =>
    if '/' ∈ text.toList then
      match lib.parseNetwork text with
      | .ok network => .ok network
      | .error fault => .error ("invalid CIDR " ++ text ++ ": " ++ fault)
    else
      match lib.parseIp text with
      | .ok ip => .ok (· == ip)
      | .error fault => .error ("invalid IP " ++ text ++ ": " ++ fault))

def addressMatcher (field : RoutingContext → Option IpAddr) (networks : List (IpAddr → Bool)) : Matcher := fun context =>
  match field context with
  | none => false
  | some ip => networks.any (fun network => network ip)

def Libraries.ipMatcher : Except String Matcher :=
  (lib.networks ips).map (addressMatcher RoutingContext.targetIp)

def Libraries.sourceIpMatcher : Except String Matcher :=
  (lib.networks ips).map (addressMatcher RoutingContext.sourceIp)

end

structure PortRange where
  first : UInt16
  last : UInt16

def rangesMatcher (field : RoutingContext → UInt16) (ranges : List PortRange) : Matcher := fun context =>
  ranges.any (fun range => range.first ≤ field context && field context ≤ range.last)

def portMatcher : List PortRange → Matcher := rangesMatcher RoutingContext.targetPort
def sourcePortMatcher : List PortRange → Matcher := rangesMatcher RoutingContext.sourcePort

def networkMatcher (networks : List String) : Matcher := fun context => networks.any (· == context.network)
def inboundTagMatcher (tags : List String) : Matcher := fun context => tags.any (· == context.inboundTag)

def protocolMatcher (protocols : List String) : Matcher := fun context =>
  match context.protocol with
  | some protocol => protocols.any (fun wanted => wanted.toList <:+: protocol.toList)
  | none => false

def userMatcher (emails : List String) : Matcher := fun context =>
  match context.user with
  | some user => emails.any (· == user)
  | none => false

inductive ProcessPattern where
  | self
  | folder (name : String)
  | absPath (name : String)
  | processName (name : String)

def trimExe : List Char → List Char
  | 'e' :: 'x' :: 'e' :: '.' :: rest => trimExe rest
  | name => name

def processPattern (name : String) : ProcessPattern :=
  if name = "self/" then .self
  else
    let name := String.ofList (name.toList.map (fun mark => if mark = '\\' then '/' else mark))
    if "/".toList <:+ name.toList then .folder name
    else if '/' ∈ name.toList then .absPath name
    else .processName (String.ofList (trimExe name.toList.reverse).reverse)

-- The process's own name never matches.
def ProcessPattern.matches (process : String) : ProcessPattern → Bool
  | .self => false
  | .folder name => name.toList <+: process.toList
  | .absPath name => name == process
  | .processName name => name == process

def processNameMatcher (names : List String) : Matcher := fun context =>
  match context.attributes.lookup "process_name" with
  | none => false
  | some process => (names.map processPattern).any (ProcessPattern.matches process)

def Libraries.attributeMatcher (attributes : List (String × String)) : Matcher := fun context =>
  attributes.all (fun (key,pattern) =>
    match context.attributes.lookup (lib.toLowercase key) with
    | some value => lib.regexOrEmpty pattern value
    | none => false)

-- A JSON value as far as the builder looks at it: an object's fields with their texts, where they are texts.
inductive Attributes where
  | object (fields : List (String × Option String))
  | other

structure RoutingRule where
  domain : Option (List String) := none
  domains : Option (List String) := none
  ip : Option (List String) := none
  port : Option (List PortRange) := none
  network : Option (List String) := none
  sourceIp : Option (List String) := none
  sourcePort : Option (List PortRange) := none
  user : Option (List String) := none
  inboundTag : Option (List String) := none
  protocol : Option (List String) := none
  attrs : Option Attributes := none
  process : Option (List String) := none
  outboundTag : String := ""
  balancerTag : String := ""

structure RouterConfig where
  rules : List RoutingRule
  domainStrategy : String

structure Cidr where
  ip : Bytes
  bits : UInt32

structure GeoDomain where
  type : Int32
  value : String

structure GeoDataManager where
  geoip : AList (fun _ : String => List Cidr) := ∅
  geosite : AList (fun _ : String => List GeoDomain) := ∅

def Libraries.displayCidr (cidr : Cidr) : Option String :=
  match cidr.ip with
  | [a,b,c,d] =>
    some (toString a ++ "." ++ toString b ++ "." ++ toString c ++ "." ++ toString d ++ "/" ++ toString cidr.bits)
  | ip => if ip.length = 16 then some (lib.displayIpv6 ip ++ "/" ++ toString cidr.bits) else none

section
variable (geo : GeoDataManager)

def Libraries.expandGeoipEntry (code : String) : Except String (List String) :=
  if lib.toUppercase code = "PRIVATE" then
    .ok ["10.0.0.0/8","172.16.0.0/12","192.168.0.0/16","100.64.0.0/10","fd00::/8"]
  else
    match geo.geoip.lookup (lib.toUppercase code) with
    | none => .error ("geoip code not found: " ++ code)
    | some entry => .ok (entry.filterMap lib.displayCidr)

def GeoDomain.pattern (domain : GeoDomain) : String :=
  if domain.type = 3 then domain.value
  else if domain.type = 1 then "regexp:" ++ domain.value
  else "." ++ trimStartMatches domain.value '.'

def Libraries.expandGeositeEntry (code : String) : Except String (List String) :=
  match geo.geosite.lookup (lib.toUppercase code) with
  | none => .error ("geosite code not found: " ++ code)
  | some site => .ok (site.map GeoDomain.pattern)

def expand (mark : String) (entry : String → Except String (List String)) (texts : List String) :
    Except String (List String) := do
  let expanded ← texts.mapM (fun text =>
    match stripPrefix text mark with
    | some code => entry code
    | none => .ok [text])
  .ok expanded.flatten

def condition (field : Option α) (build : α → Except String Matcher) : Except String (List Matcher) :=
  match field with
  | none => .ok []
  | some value => (build value).map (fun matcher => [matcher])

@[simp] theorem condition_none : condition none build = .ok [] := rfl

def Attributes.condition : Option Attributes → List Matcher
  | some (.object fields) => [lib.attributeMatcher (fields.filterMap (fun (key,text) => text.map (key,·)))]
  | _ => []

def Libraries.buildRule (i : Nat) (rule : RoutingRule) : Except String RouteRule := do
  let domain ← condition (rule.domain.or rule.domains) (fun domains => do
    .ok (lib.domainMatcher (← expand "geosite:" (lib.expandGeositeEntry geo) domains)))
  let ip ← condition rule.ip (fun ips => do lib.ipMatcher (← expand "geoip:" (lib.expandGeoipEntry geo) ips))
  let port ← condition rule.port (fun ports => .ok (portMatcher ports))
  let network ← condition rule.network (fun networks => .ok (networkMatcher networks))
  let sourceIp ← condition rule.sourceIp lib.sourceIpMatcher
  let sourcePort ← condition rule.sourcePort (fun ports => .ok (sourcePortMatcher ports))
  let inboundTag ← condition rule.inboundTag (fun tags => .ok (inboundTagMatcher tags))
  let protocol ← condition rule.protocol (fun protocols => .ok (protocolMatcher protocols))
  let user ← condition rule.user (fun users => .ok (userMatcher users))
  let process ← condition rule.process (fun names => .ok (processNameMatcher names))
  .ok ⟨"rule-" ++ toString i,
    domain ++ ip ++ port ++ network ++ sourceIp ++ sourcePort ++ inboundTag ++ protocol ++ user ++ process ++
      Attributes.condition lib rule.attrs,rule.outboundTag,rule.balancerTag⟩

end

end

def Libraries.buildRules (lib : Libraries) (geo : GeoDataManager) : Nat → List RoutingRule → Except String (List RouteRule)
  | _,[] => .ok []
  | i,config :: rest => do
    let rule ← lib.buildRule geo i config
    let rules ← lib.buildRules geo (i + 1) rest
    .ok (if rule.conditions.isEmpty then rules else rule :: rules)

def domainStrategyOf (text : String) : DomainStrategy :=
  if text = "IpIfNonMatch" then .ipIfNonMatch else if text = "IpOnDemand" then .ipOnDemand else .asIs

def rulesOf (routing : Option RouterConfig) : List RoutingRule := (routing.map RouterConfig.rules).getD []

def Libraries.buildRouter (lib : Libraries) (geo : GeoDataManager) (routing : Option RouterConfig) : Except String Router := do
  let rules ← lib.buildRules geo 0 (rulesOf routing)
  .ok ⟨rules,(routing.map (fun config => domainStrategyOf config.domainStrategy)).getD .asIs⟩

variable {lib : Libraries}

theorem buildRules_source (built : lib.buildRules geo start configs = .ok rules) (present : rule ∈ rules) :
    ∃ i config, configs[i]? = some config ∧ lib.buildRule geo (start + i) config = .ok rule := by
  induction configs generalizing start rules with
  | nil =>
    cases built
    cases present
  | cons config rest ih =>
    obtain ⟨first,made,built⟩ := checked_bind built
    obtain ⟨others,later,built⟩ := checked_bind built
    cases built
    have fromRest : rule ∈ others → ∃ i config', (config :: rest)[i]? = some config' ∧ lib.buildRule geo (start + i) config' = .ok rule := by
      intro member
      obtain ⟨i,other,found,same⟩ := ih later member
      refine ⟨i + 1,other,found,?_⟩
      rw [show start + (i + 1) = start + 1 + i by omega]
      exact same
    split at present
    · exact fromRest present
    · rcases List.mem_cons.mp present with rfl | member
      · exact ⟨0,config,rfl,made⟩
      · exact fromRest member

theorem buildRule_network (built : lib.buildRule geo i config = .ok rule) (limited : config.network = some networks) :
    ∃ before after, rule.conditions = before ++ networkMatcher networks :: after ∧
      lib.buildRule geo i {config with network := none} = .ok {rule with conditions := before ++ after} := by
  unfold Libraries.buildRule at built ⊢
  rw [limited] at built
  obtain ⟨domain,hasDomain,built⟩ := checked_bind built
  obtain ⟨ip,hasIp,built⟩ := checked_bind built
  obtain ⟨port,hasPort,built⟩ := checked_bind built
  obtain ⟨network,hasNetwork,built⟩ := checked_bind built
  obtain ⟨sourceIp,hasSourceIp,built⟩ := checked_bind built
  obtain ⟨sourcePort,hasSourcePort,built⟩ := checked_bind built
  obtain ⟨inboundTag,hasInboundTag,built⟩ := checked_bind built
  obtain ⟨protocol,hasProtocol,built⟩ := checked_bind built
  obtain ⟨user,hasUser,built⟩ := checked_bind built
  obtain ⟨process,hasProcess,built⟩ := checked_bind built
  cases hasNetwork
  cases built
  refine ⟨domain ++ ip ++ port,sourceIp ++ sourcePort ++ inboundTag ++ protocol ++ user ++ process ++ Attributes.condition lib config.attrs,by simp,?_⟩
  simp only [hasDomain,hasIp,hasPort,hasSourceIp,hasSourcePort,hasInboundTag,hasProtocol,hasUser,hasProcess,ok_bind]
  simp

section
variable {Handler : Type}

theorem build_network (session) : (buildRoutingContext session).network = "" := by
  unfold buildRoutingContext
  cases session.outbound <;> cases session.inbound <;> cases session.content <;> rfl

theorem enrich_network (dispatcher : DefaultDispatcher Handler) (busy) : (dispatcher.enrichWithFakeDns busy context).network = context.network := by
  unfold DefaultDispatcher.enrichWithFakeDns
  split
  · split
    · split <;> rfl
    · rfl
  · rfl

variable {dispatcher : DefaultDispatcher Handler}

theorem resolve_network (resolved : dispatcher.resolveContext context = .ok after) : after.network = context.network := by
  unfold DefaultDispatcher.resolveContext at resolved
  split at resolved
  · split at resolved
    · split at resolved <;> cases resolved
      rfl
    · cases resolved
      rfl
  · cases resolved
    rfl

theorem route_network (routed : dispatcher.route surroundings session = .ok result) : result.context.network = "" := by
  have start := (enrich_network dispatcher surroundings.busy).trans (build_network session)
  obtain ⟨context,first,routed⟩ := checked_bind routed
  have once : context.network = "" := by
    split at first
    · exact (resolve_network first).trans start
    · cases first
      exact start
  dsimp only at routed
  split at routed
  · obtain ⟨again,second,routed⟩ := checked_bind routed
    cases routed
    exact (resolve_network second).trans once
  · cases routed
    exact once

theorem networkMatcher_blank (networks) (blank : context.network = "") : networkMatcher networks context = true ↔ "" ∈ networks := by
  simp [networkMatcher,blank]

theorem matches_limited (built : lib.buildRule geo i config = .ok rule)
    (limited : config.network = some networks) (blank : context.network = "") : rule.matches context = true ↔ "" ∈ networks ∧
      ∀ others, lib.buildRule geo i {config with network := none} = .ok others → ∀ condition ∈ others.conditions, condition context = true := by
  obtain ⟨before,after,conditions,unlimited⟩ := buildRule_network built limited
  have network := networkMatcher_blank networks blank
  rw [matches_iff,conditions,unlimited]
  constructor
  · rintro ⟨-,holds⟩
    refine ⟨network.mp (holds _ (by simp)),?_⟩
    rintro _ ⟨⟩ condition present
    apply holds
    rcases List.mem_append.mp present with earlier | later
    · exact List.mem_append_left _ earlier
    · exact List.mem_append_right _ (List.mem_cons_of_mem _ later)
  · rintro ⟨listed,rest⟩
    refine ⟨by simp,?_⟩
    intro condition present
    rcases List.mem_append.mp present with earlier | later
    · exact rest _ rfl condition (List.mem_append_left _ earlier)
    · rcases List.mem_cons.mp later with rfl | later
      · exact network.mpr listed
      · exact rest _ rfl condition (List.mem_append_right _ later)

theorem network_condition_iff (lib : Libraries) (geo : GeoDataManager) (routing : Option RouterConfig) (router : Router)
    (built : lib.buildRouter geo routing = .ok router) :
    (∀ session target n, session.target = some target → (target.network = .tcp ∨ target.network = .udp) →
      ((networkMatcher [n] (buildRoutingContext session) = true ↔ n = target.network.systemString) ↔
        n ≠ "" ∧ n ≠ target.network.systemString)) ∧
    (∀ rule ∈ router.rules, ∃ i config, (rulesOf routing)[i]? = some config ∧ lib.buildRule geo i config = .ok rule ∧
      ∀ networks, config.network = some networks → ∀ dispatcher : DefaultDispatcher Handler, dispatcher.router = router →
        ∀ surroundings session routed, dispatcher.route surroundings session = .ok routed →
          (rule.matches routed.context = true ↔ "" ∈ networks ∧
            ∀ others, lib.buildRule geo i {config with network := none} = .ok others →
              ∀ condition ∈ others.conditions, condition routed.context = true)) := by
  constructor
  · intro session target n _ used
    rw [networkMatcher_blank [n] (build_network session),List.mem_singleton]
    have named : target.network.systemString ≠ "" := by rcases used with used | used <;> rw [used] <;> decide
    grind
  · intro rule present
    obtain ⟨rules,made,built⟩ := checked_bind built
    cases built
    obtain ⟨i,config,found,same⟩ := buildRules_source made present
    rw [Nat.zero_add] at same
    refine ⟨i,config,found,same,?_⟩
    intro networks limited dispatcher _ surroundings session routed arrived
    exact matches_limited same limited (route_network arrived)

end

def limitedRule : RoutingRule := {network := some ["tcp","udp"],outboundTag := "proxy"}
def limitedRoute : RouteRule := ⟨"rule-0",[networkMatcher ["tcp","udp"]],"proxy",""⟩
def limited : DefaultDispatcher String := .new ⟨[limitedRoute],.asIs⟩ ⟨some,some "direct"⟩

def bare : Libraries := ⟨id,id,fun _ => none,fun _ => .error "",fun _ => .error "",fun _ => ""⟩

def dns : Destination := udpDestination (.domain "dns.example") ⟨53⟩
def asking : Session := {aimed with outbound := some ⟨dns,dns,none,""⟩}

theorem network_condition_limited :
    (networkMatcher ["udp"] (buildRoutingContext aimed) = true ↔ "udp" = web.network.systemString) ∧
    ¬ (networkMatcher ["tcp"] (buildRoutingContext aimed) = true ↔ "tcp" = web.network.systemString) ∧
    ∀ routed, limited.route calm aimed = .ok routed → limitedRoute.matches routed.context = false := by
  obtain ⟨tells,reaches⟩ := @network_condition_iff String bare {} (some ⟨[limitedRule],"AsIs"⟩) limited.router rfl
  refine ⟨(tells aimed web "udp" rfl (.inl rfl)).mpr (by decide),?_,?_⟩
  · intro told
    exact absurd ((tells aimed web "tcp" rfl (.inl rfl)).mp told).2 (by decide)
  · intro routed arrived
    obtain ⟨i,config,found,-,reached⟩ := reaches limitedRoute (List.mem_singleton.mpr rfl)
    cases i with
    | zero =>
      cases found
      have unlisted : "" ∉ ["tcp","udp"] := by decide
      exact Bool.eq_false_iff.mpr
        (fun matched => unlisted ((reached _ rfl limited rfl calm aimed routed arrived).mp matched).1)
    | succ i => cases found

-- The rule names both networks and is selected for neither: both sessions end up at the default outbound.
theorem network_rule_unreachable : bare.buildRouter {} (some ⟨[limitedRule],"AsIs"⟩) = .ok limited.router ∧
    networkMatcher ["tcp"] (buildRoutingContext aimed) = false ∧
    networkMatcher ["udp"] (buildRoutingContext asking) = false ∧
    (limited.dispatch calm ("in","out") aimed web).2 = .ok (limited,.ok ⟨"direct",aimed,"out"⟩) ∧
    (limited.dispatchUdp calm ("in","out") asking).2 = .ok (limited,.ok ⟨"direct",asking,"out"⟩) := by
  refine ⟨rfl,rfl,rfl,rfl,rfl⟩

end AstraCore.RouterBuilder
