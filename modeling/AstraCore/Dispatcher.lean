import AstraCore.Routing

namespace AstraCore.Dispatcher
open CheckedBytes NetAddress Routing

structure Inbound where
  source : Destination
  local_ : Option Destination
  gateway : Option Destination
  tag : String

structure Outbound where
  target : Destination
  originalTarget : Destination
  routeTarget : Option Destination
  tag : String

structure SniffingRequest where
  enabled : Bool
  metadataOnly : Bool
  routeOnly : Bool

structure Content where
  protocol : Option String
  sniffingRequest : Option SniffingRequest
  attributes : AList (fun _ : String => String)
  skipDnsResolve : Bool

structure Session where
  inbound : Option Inbound
  outbound : Option Outbound
  content : Option Content

def Session.target (session : Session) : Option Destination := session.outbound.map Outbound.target

section
variable (session : Session)

def Session.retag (tag : String) : Session :=
  {session with outbound := session.outbound.map (fun outbound => {outbound with tag})}

@[simp] theorem retag_retag : (session.retag first).retag second = session.retag second := by
  simp [Session.retag,Function.comp_def]

@[simp] theorem retag_target : (session.retag tag).target = session.target := by
  simp [Session.target,Session.retag,Function.comp_def]

end

def SameButTag (before after : Session) : Prop := after.retag "" = before.retag ""

theorem SameButTag.refl (session) : SameButTag session session := rfl

theorem SameButTag.trans (first : SameButTag before middle) (second : SameButTag middle after) : SameButTag before after :=
  Eq.trans second first

theorem retag_same (session tag) : SameButTag session (session.retag tag) :=
  retag_retag session

theorem SameButTag.target (same : SameButTag before after) : after.target = before.target := by
  have untagged := congrArg Session.target same
  simpa using untagged

inductive DnsError where
  | emptyResponse
  | recordNotFound
  | rCode (code : UInt8) (text : String)
  | timeout
  | network (text : String)
deriving DecidableEq, Repr

abbrev DnsResolver := String → Except DnsError (List IpAddr)

structure FakeIpPool where
  base : Octets 4
  count : UInt32
  next : UInt32

structure FakeDnsResolver where
  pool : FakeIpPool
  domainToIp : AList (fun _ : String => IpAddr)
  ipToDomain : AList (fun _ : IpAddr => String)

-- `busy` tells whether another task holds the table's lock, in which case the lookup gives up.
def FakeDnsResolver.getDomain (resolver : FakeDnsResolver) (busy : Bool) (ip : IpAddr) : Option String :=
  if busy then none else resolver.ipToDomain.lookup ip

-- Compares the first two octets whatever the size of the pool.
def FakeDnsResolver.isFakeIp (resolver : FakeDnsResolver) : IpAddr → Bool
  | .v4 octets => octets.val.take 2 == resolver.pool.base.val.take 2
  | .v6 _ => false

structure HandlerProvider (Handler : Type) where
  getHandler : String → Option Handler
  getDefaultHandler : Option Handler

structure DefaultDispatcher (Handler : Type) where
  router : Router
  handlerProvider : HandlerProvider Handler
  dnsResolver : Option DnsResolver
  fakeDns : Option FakeDnsResolver
  balancers : AList (fun _ : String => Balancer)

def DefaultDispatcher.new {Handler : Type} (router : Router) (handlerProvider : HandlerProvider Handler) :
    DefaultDispatcher Handler := ⟨router,handlerProvider,none,none,∅⟩

structure Surroundings where
  busy : Bool
  nanos : Nat → UInt32

section
variable {Handler Link : Type}

def buildRoutingContext (session : Session) : RoutingContext :=
  let context : RoutingContext := {}
  let context :=
    match session.outbound with
    | some outbound =>
      {context with
        targetDomain := outbound.target.address.asDomain
        targetIp := outbound.target.address.asIp
        targetPort := outbound.target.port.value}
    | none => context
  let context :=
    match session.inbound with
    | some inbound =>
      {context with
        sourceIp := inbound.source.address.asIp
        sourcePort := inbound.source.port.value
        inboundTag := inbound.tag}
    | none => context
  match session.content with
  | some content => {context with protocol := content.protocol,attributes := content.attributes}
  | none => context

section
variable (dispatcher : DefaultDispatcher Handler)

def DefaultDispatcher.enrichWithFakeDns (busy : Bool) (context : RoutingContext) :
    RoutingContext :=
  match dispatcher.fakeDns,context.targetIp with
  | some fake,some ip =>
    if fake.isFakeIp ip then
      match fake.getDomain busy ip with
      | some domain => {context with targetDomain := some domain}
      | none => context
    else context
  | _,_ => context

def IpAddr.isIpv4 : IpAddr → Bool
  | .v4 _ => true
  | .v6 _ => false

-- The default `&ips[0]` is evaluated even when an IPv4 address was found, so an empty answer panics.
def DefaultDispatcher.resolveContext (context : RoutingContext) :
    Checked RoutingContext :=
  match context.targetDomain,context.targetIp,dispatcher.dnsResolver with
  | some domain,none,some resolver =>
    match resolver domain with
    | .ok ips =>
      match ips with
      | [] => .error .sliceIndex
      | first :: _ => .ok {context with targetIp := some ((ips.find? IpAddr.isIpv4).getD first)}
    | .error _ => .ok context
  | _,_,_ => .ok context

def DefaultDispatcher.pickOutboundTag (session : Session) (context : RoutingContext)
    (nanos : UInt32) : DefaultDispatcher Handler × Session × String :=
  match dispatcher.router.pickRoute context with
  | none => (dispatcher,session,"")
  | some route =>
    let tag := route.outboundTag
    let session := session.retag tag
    if tag = "" then (dispatcher,session,tag)
    else
      match dispatcher.balancers.lookup tag with
      | none => (dispatcher,session,tag)
      | some balancer =>
        let (balancer,selected) := balancer.pick nanos
        let dispatcher := {dispatcher with balancers := dispatcher.balancers.insert tag balancer}
        match selected with
        | some selected => (dispatcher,session.retag selected,selected)
        | none => (dispatcher,session,tag)

end

structure Routed (Handler : Type) where
  dispatcher : DefaultDispatcher Handler
  context : RoutingContext
  session : Session
  outboundTag : String

section
variable (dispatcher : DefaultDispatcher Handler) (surroundings : Surroundings)

def DefaultDispatcher.route (session : Session) :
    Checked (Routed Handler) := do
  let context := dispatcher.enrichWithFakeDns surroundings.busy (buildRoutingContext session)
  let strategy := dispatcher.router.domainStrategy
  let context ← (if strategy = .ipOnDemand then dispatcher.resolveContext context else .ok context)
  let (dispatcher,session,tag) := dispatcher.pickOutboundTag session context (surroundings.nanos 0)
  if tag = "" ∧ strategy = .ipIfNonMatch then
    let context ← dispatcher.resolveContext context
    let (dispatcher,session,tag) := dispatcher.pickOutboundTag session context (surroundings.nanos 1)
    .ok ⟨dispatcher,context,session,tag⟩
  else .ok ⟨dispatcher,context,session,tag⟩

def HandlerProvider.choose (provider : HandlerProvider Handler) (tag : String) : Option Handler :=
  if tag ≠ "" then provider.getHandler tag else provider.getDefaultHandler

structure Call (Handler Link : Type) where
  handler : Handler
  session : Session
  link : Link

def DefaultDispatcher.call (session : Session)
    (link : Link) (noHandler : String) : Checked (DefaultDispatcher Handler × Except String (Call Handler Link)) := do
  let routed ← dispatcher.route surroundings session
  match dispatcher.handlerProvider.choose routed.outboundTag with
  | none => .ok (routed.dispatcher,.error noHandler)
  | some handler => .ok (routed.dispatcher,.ok ⟨handler,routed.session,link⟩)

-- The source writes the decision out three times; none of the copies looks at the destination it is given.
def DefaultDispatcher.routedDispatch
    (session : Session) (outboundLink : Link) (_dest : Destination) :
    Checked (DefaultDispatcher Handler × Except String (Call Handler Link)) := do
  let context := buildRoutingContext session
  let context := dispatcher.enrichWithFakeDns surroundings.busy context
  let strategy := dispatcher.router.domainStrategy
  let context ← (if strategy = .ipOnDemand then dispatcher.resolveContext context else .ok context)
  let (dispatcher,session,outboundTag) := dispatcher.pickOutboundTag session context (surroundings.nanos 0)
  let (dispatcher,session,outboundTag) ←
    (if outboundTag = "" ∧ strategy = .ipIfNonMatch then
      (dispatcher.resolveContext context).map (dispatcher.pickOutboundTag session · (surroundings.nanos 1))
    else .ok (dispatcher,session,outboundTag))
  let handler :=
    if outboundTag ≠ "" then dispatcher.handlerProvider.getHandler outboundTag
    else dispatcher.handlerProvider.getDefaultHandler
  match handler with
  | none => .ok (dispatcher,.error "no outbound handler available")
  | some handler => .ok (dispatcher,.ok ⟨handler,session,outboundLink⟩)

def DefaultDispatcher.dispatch
    (newLinkPair : Link × Link) (session : Session) (dest : Destination) :=
  (newLinkPair.1,dispatcher.routedDispatch surroundings session newLinkPair.2 dest)

def DefaultDispatcher.dispatchUdp
    (newUdpLinkPair : Link × Link) (session : Session) :
    Link × Checked (DefaultDispatcher Handler × Except String (Call Handler Link)) :=
  (newUdpLinkPair.1,do
    let context := buildRoutingContext session
    let context := dispatcher.enrichWithFakeDns surroundings.busy context
    let strategy := dispatcher.router.domainStrategy
    let context ← (if strategy = .ipOnDemand then dispatcher.resolveContext context else .ok context)
    let (dispatcher,session,outboundTag) := dispatcher.pickOutboundTag session context (surroundings.nanos 0)
    let (dispatcher,session,outboundTag) ←
      (if outboundTag = "" ∧ strategy = .ipIfNonMatch then
        (dispatcher.resolveContext context).map (dispatcher.pickOutboundTag session · (surroundings.nanos 1))
      else .ok (dispatcher,session,outboundTag))
    let handler :=
      if outboundTag ≠ "" then dispatcher.handlerProvider.getHandler outboundTag
      else dispatcher.handlerProvider.getDefaultHandler
    match handler with
    | none => .ok (dispatcher,.error "no outbound handler available for UDP")
    | some handler => .ok (dispatcher,.ok ⟨handler,session,newUdpLinkPair.2⟩))

def DefaultDispatcher.dispatchLink
    (session : Session) (_dest : Destination) (link : Link) :
    Checked (DefaultDispatcher Handler × Except String (Call Handler Link)) := do
  let context := buildRoutingContext session
  let context := dispatcher.enrichWithFakeDns surroundings.busy context
  let strategy := dispatcher.router.domainStrategy
  let context ← (if strategy = .ipOnDemand then dispatcher.resolveContext context else .ok context)
  let (dispatcher,session,outboundTag) := dispatcher.pickOutboundTag session context (surroundings.nanos 0)
  let (dispatcher,session,outboundTag) ←
    (if outboundTag = "" ∧ strategy = .ipIfNonMatch then
      (dispatcher.resolveContext context).map (dispatcher.pickOutboundTag session · (surroundings.nanos 1))
    else .ok (dispatcher,session,outboundTag))
  let handler :=
    if outboundTag ≠ "" then dispatcher.handlerProvider.getHandler outboundTag
    else dispatcher.handlerProvider.getDefaultHandler
  match handler with
  | none => .ok (dispatcher,.error "no outbound handler available")
  | some handler => .ok (dispatcher,.ok ⟨handler,session,link⟩)

end

variable (dispatcher : DefaultDispatcher Handler)

theorem pickOutboundTag_kept (session context nanos) : ∃ balancers, (dispatcher.pickOutboundTag session context nanos).1 = {dispatcher with balancers} := by
  unfold DefaultDispatcher.pickOutboundTag
  split
  · exact ⟨_,rfl⟩
  · dsimp only
    split
    · exact ⟨_,rfl⟩
    · split
      · exact ⟨_,rfl⟩
      · split <;> exact ⟨_,rfl⟩

theorem copies_call (surroundings session) (link : Link) (pair : Link × Link) (dest) :
    dispatcher.routedDispatch surroundings session link dest = dispatcher.call surroundings session link "no outbound handler available" ∧
    (dispatcher.dispatchUdp surroundings pair session).2 = dispatcher.call surroundings session pair.2 "no outbound handler available for UDP" ∧
    dispatcher.dispatchLink surroundings session dest link = dispatcher.call surroundings session link "no outbound handler available" := by
  unfold DefaultDispatcher.routedDispatch DefaultDispatcher.dispatchUdp DefaultDispatcher.dispatchLink
    DefaultDispatcher.call DefaultDispatcher.route HandlerProvider.choose
  dsimp only
  cases (if dispatcher.router.domainStrategy = .ipOnDemand then
    dispatcher.resolveContext _
    else .ok _) with
  | error panic => exact ⟨rfl,rfl,rfl⟩
  | ok context =>
    simp only [ok_bind]
    obtain ⟨balancers,kept⟩ := pickOutboundTag_kept dispatcher session context _
    generalize dispatcher.pickOutboundTag session context _ = picked at kept ⊢
    obtain ⟨moved,session,tag⟩ := picked
    dsimp only at kept ⊢
    split
    · cases moved.resolveContext context with
      | error panic => exact ⟨rfl,rfl,rfl⟩
      | ok context =>
        obtain ⟨balancers,again⟩ := pickOutboundTag_kept moved session context _
        simp only [ok_bind,Except.map]
        rw [again,kept]
        exact ⟨rfl,rfl,rfl⟩
    · rw [kept]
      exact ⟨rfl,rfl,rfl⟩

theorem pickOutboundTag_same (session context) (nanos) : SameButTag session (dispatcher.pickOutboundTag session context nanos).2.1 := by
  unfold DefaultDispatcher.pickOutboundTag
  split
  · exact .refl session
  · rename_i route _
    have once := retag_same session route.outboundTag
    dsimp only
    split
    · exact once
    · split
      · exact once
      · split
        · exact once.trans (retag_same _ _)
        · exact once

variable {dispatcher : DefaultDispatcher Handler}

theorem route_same (routed : dispatcher.route surroundings session = .ok result) : SameButTag session result.session := by
  simp only [DefaultDispatcher.route] at routed
  obtain ⟨context,-,routed⟩ := checked_bind routed
  have once := pickOutboundTag_same dispatcher session context (surroundings.nanos 0)
  split at routed
  · obtain ⟨resolved,-,routed⟩ := checked_bind routed
    cases routed
    exact once.trans (pickOutboundTag_same _ _ _ _)
  · cases routed
    exact once

theorem call_same (called : dispatcher.call surroundings session link noHandler = .ok (after,.ok call)) :
    SameButTag session call.session ∧ call.link = link := by
  obtain ⟨routed,found,called⟩ := checked_bind called
  split at called <;> cases called
  exact ⟨route_same found,rfl⟩

def Describes (context : RoutingContext) (dest : Destination) : Prop :=
  context.targetDomain = dest.address.asDomain ∧ context.targetIp = dest.address.asIp ∧ context.targetPort = dest.port.value

theorem address_eq {a : Address} (domain : a.asDomain = b.asDomain) (ip : a.asIp = b.asIp) : a = b := by
  cases a <;> cases b <;> simp_all [Address.asDomain,Address.asIp]

theorem address_some (address : Address) (domain : address.asDomain = none) : address.asIp ≠ none := by
  cases address <;> simp_all [Address.asDomain,Address.asIp]

theorem build_untargeted (untargeted : session.outbound = none) :
    (buildRoutingContext session).targetDomain = none ∧ (buildRoutingContext session).targetIp = none := by
  unfold buildRoutingContext
  rw [untargeted]
  cases session.inbound <;> cases session.content <;> exact ⟨rfl,rfl⟩

theorem build_targeted (targeted : session.outbound = some outbound) : Describes (buildRoutingContext session) outbound.target := by
  unfold buildRoutingContext Describes
  rw [targeted]
  cases session.inbound <;> cases session.content <;> exact ⟨rfl,rfl,rfl⟩

def Names (session : Session) (dest : Destination) : Prop :=
  ∃ outbound, session.outbound = some outbound ∧ outbound.target.address = dest.address ∧ outbound.target.port = dest.port

theorem build_describes_iff (session) : Describes (buildRoutingContext session) dest ↔ Names session dest := by
  constructor
  · rintro ⟨domain,ip,port⟩
    cases present : session.outbound with
    | none =>
      obtain ⟨noDomain,noIp⟩ := build_untargeted present
      exact absurd (ip.symm.trans noIp) (address_some _ (domain.symm.trans noDomain))
    | some outbound =>
      obtain ⟨ownDomain,ownIp,ownPort⟩ := build_targeted present
      refine ⟨outbound,present,address_eq (ownDomain.symm.trans domain) (ownIp.symm.trans ip),?_⟩
      exact congrArg Port.mk (ownPort.symm.trans port)
  · rintro ⟨outbound,present,address,port⟩
    obtain ⟨ownDomain,ownIp,ownPort⟩ := build_targeted present
    rw [address] at ownDomain ownIp
    rw [port] at ownPort
    exact ⟨ownDomain,ownIp,ownPort⟩

theorem names_of_target (targeted : session.target = some dest) : Names session dest := by
  obtain ⟨outbound,present,rfl⟩ := Option.map_eq_some_iff.mp targeted
  exact ⟨outbound,present,rfl,rfl⟩

def Honours (session : Session) (dest : Destination) (call : Call Handler Link) : Prop :=
  Describes (buildRoutingContext session) dest ∧ call.session.target = some dest

theorem call_honours_iff (called : dispatcher.call surroundings session link noHandler = .ok (after,.ok call)) :
    Honours session dest call ↔ session.target = some dest := by
  have same := (call_same called).1.target
  constructor
  · rintro ⟨-,aimed⟩
    exact same.symm.trans aimed
  · intro targeted
    exact ⟨(build_describes_iff session).mpr (names_of_target targeted),same.trans targeted⟩

theorem dispatch_honours_iff (dispatcher : DefaultDispatcher Handler) (surroundings : Surroundings) (session : Session)
    (dest : Destination) (pair : Link × Link) (link : Link) :
    (Describes (buildRoutingContext session) dest ↔ Names session dest) ∧
    (∀ after call, (dispatcher.dispatch surroundings pair session dest).2 = .ok (after,.ok call) →
      (Honours session dest call ↔ session.target = some dest)) ∧
    (∀ after call, dispatcher.dispatchLink surroundings session dest link = .ok (after,.ok call) →
      (Honours session dest call ↔ session.target = some dest)) := by
  refine ⟨build_describes_iff session,?_,?_⟩
  · intro after call called
    exact call_honours_iff ((copies_call dispatcher surroundings session pair.2 pair dest).1.symm.trans called)
  · intro after call called
    exact call_honours_iff ((copies_call dispatcher surroundings session link pair dest).2.2.symm.trans called)

end

def hysteriaSession (source : Destination) (tag : String) : Session := ⟨some ⟨source,none,none,tag⟩,none,none⟩

def direct : DefaultDispatcher String := .new .default ⟨fun _ => none,some "direct"⟩

def calm : Surroundings := ⟨false,fun _ => 0⟩
def web : Destination := tcpDestination (.domain "web.example") ⟨443⟩
def peer : Destination := tcpDestination (.ipv4 ⟨[10,0,0,1],rfl⟩) ⟨5000⟩
def aimed : Session := {hysteriaSession peer "in" with outbound := some ⟨web,web,none,""⟩}

theorem dispatch_honours_aimed : (direct.dispatch calm ("in","out") aimed web).2 = .ok (direct,.ok ⟨"direct",aimed,"out"⟩) ∧
    direct.dispatchLink calm aimed web "link" = .ok (direct,.ok ⟨"direct",aimed,"link"⟩) ∧
    Honours aimed web (⟨"direct",aimed,"out"⟩ : Call String String) ∧
    Honours aimed web (⟨"direct",aimed,"link"⟩ : Call String String) := by
  have honoured := dispatch_honours_iff direct calm aimed web ("in","out") "link"
  exact ⟨rfl,rfl,(honoured.2.1 direct _ rfl).mpr rfl,(honoured.2.2 direct _ rfl).mpr rfl⟩

-- The Hysteria inbound's session names no target: routing sees no destination and neither does the handler.
theorem hysteria_target_lost :
    ∃ call, (direct.dispatch calm ("in","out") (hysteriaSession peer "in") web).2 = .ok (direct,.ok call) ∧
      (buildRoutingContext (hysteriaSession peer "in")).targetDomain = none ∧ call.session.target = none ∧
      ¬ Honours (hysteriaSession peer "in") web call := by
  refine ⟨⟨"direct",hysteriaSession peer "in","out"⟩,rfl,rfl,rfl,?_⟩
  rintro ⟨-,targeted⟩
  cases targeted

end AstraCore.Dispatcher
