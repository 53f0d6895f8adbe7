import AstraCore.KeyedList
import AstraCore.Machine
import AstraCore.RoutingDecision

namespace AstraCore.FakeDns
open CheckedBytes FiniteMap NetAddress Routing Dispatcher RoutingDecision Machine

def FakeIpPool.new (base : Octets 4) (bits : UInt8) : FakeIpPool :=
  ⟨base,1 <<< (32 - max (min bits 32) 8).toUInt32,1⟩

def offsetFrom (base : Octets 4) (offset : UInt32) : IpAddr := .v4 ⟨u32ToBe (be32 base.val + offset),u32ToBe_length _⟩

-- The counter moves on even when the pool is exhausted, and wraps around as the machine word does.
def FakeIpPool.allocate (pool : FakeIpPool) : FakeIpPool × Option IpAddr :=
  let offset := pool.next
  ({pool with next := pool.next + 1},if offset ≥ pool.count then none else some (offsetFrom pool.base offset))

@[simp] theorem allocate_base (pool) : (FakeIpPool.allocate pool).1.base = pool.base := rfl

def FakeDnsResolver.new (base : Octets 4) (bits : UInt8) : FakeDnsResolver := ⟨FakeIpPool.new base bits,∅,∅⟩
def FakeDnsResolver.newDefault : FakeDnsResolver := FakeDnsResolver.new ⟨[198,18,0,0],rfl⟩ 15

def FakeDnsResolver.record (resolver : FakeDnsResolver) (lower : String) (ip : IpAddr) : FakeDnsResolver :=
  {resolver with domainToIp := resolver.domainToIp.insert lower ip,ipToDomain := resolver.ipToDomain.insert ip lower}

-- One call with nothing in between. `toLowercase` is the library's Unicode mapping.
def FakeDnsResolver.resolve (toLowercase : String → String) (resolver : FakeDnsResolver) (domain : String) :
    FakeDnsResolver × Except DnsError (List IpAddr) :=
  let lower := toLowercase domain
  match resolver.domainToIp.lookup lower with
  | some ip => (resolver,.ok [ip])
  | none =>
    let (pool,ip) := FakeIpPool.allocate resolver.pool
    let resolver := {resolver with pool}
    match ip with
    | none => (resolver,.error (.network "fake DNS pool exhausted"))
    | some ip => (FakeDnsResolver.record resolver lower ip,.ok [ip])

-- The locks are given up between the lookup, the allocation and the insertion, so calls interleave there.
inductive Phase where
  | missed (domain : String)
  | allocated (domain : String) (ip : IpAddr)

structure Resolving where
  resolver : FakeDnsResolver
  pending : AList (fun _ : Nat => Phase)
  answers : List (String × Except DnsError (List IpAddr))
  allocations : Nat

def start (resolver : FakeDnsResolver) : Resolving := ⟨resolver,∅,[],0⟩

inductive Event where
  | look (task : Nat) (domain : String)
  | allocate (task : Nat)
  | insert (task : Nat)

section
variable (toLowercase : String → String)

def advance (s : Resolving) : Event → Option Resolving
  | .look task domain =>
    match s.pending.lookup task with
    | some _ => none
    | none =>
      match s.resolver.domainToIp.lookup (toLowercase domain) with
      | some ip => some {s with answers := s.answers ++ [(domain,.ok [ip])]}
      | none => some {s with pending := s.pending.insert task (.missed domain)}
  | .allocate task =>
    match s.pending.lookup task with
    | some (.missed domain) =>
      let (pool,ip) := FakeIpPool.allocate s.resolver.pool
      let s := {s with resolver := {s.resolver with pool},allocations := s.allocations + 1}
      match ip with
      | none =>
        some {s with
          pending := s.pending.erase task
          answers := s.answers ++ [(domain,.error (.network "fake DNS pool exhausted"))]}
      | some ip => some {s with pending := s.pending.insert task (.allocated domain ip)}
    | _ => none
  | .insert task =>
    match s.pending.lookup task with
    | some (.allocated domain ip) =>
      some {s with
        resolver := FakeDnsResolver.record s.resolver (toLowercase domain) ip
        pending := s.pending.erase task
        answers := s.answers ++ [(domain,.ok [ip])]}
    | _ => none

theorem advance_cases (step : advance toLowercase s event = some next) :
    (∃ domain ip, s.resolver.domainToIp.lookup (toLowercase domain) = some ip ∧ next = {s with answers := s.answers ++ [(domain,.ok [ip])]}) ∨
    (∃ task domain, s.pending.lookup task = none ∧ next = {s with pending := s.pending.insert task (.missed domain)}) ∨
    (∃ task domain, s.pending.lookup task = some (.missed domain) ∧ next = {s with
      resolver := {s.resolver with pool := (FakeIpPool.allocate s.resolver.pool).1}
      allocations := s.allocations + 1
      pending := s.pending.erase task
      answers := s.answers ++ [(domain,.error (.network "fake DNS pool exhausted"))]}) ∨
    (∃ task domain, s.pending.lookup task = some (.missed domain) ∧ next = {s with
      resolver := {s.resolver with pool := (FakeIpPool.allocate s.resolver.pool).1}
      allocations := s.allocations + 1
      pending := s.pending.insert task (.allocated domain (offsetFrom s.resolver.pool.base s.resolver.pool.next))}) ∨
    (∃ task domain ip, s.pending.lookup task = some (.allocated domain ip) ∧ next = {s with
      resolver := FakeDnsResolver.record s.resolver (toLowercase domain) ip
      pending := s.pending.erase task
      answers := s.answers ++ [(domain,.ok [ip])]}) := by
  cases event with
  | look task domain =>
    simp only [advance] at step
    split at step
    · cases step
    · rename_i idle
      split at step
      · rename_i ip known
        cases step
        exact .inl ⟨domain,ip,known,rfl⟩
      · cases step
        exact .inr (.inl ⟨task,domain,idle,rfl⟩)
  | allocate task =>
    simp only [advance] at step
    split at step
    · rename_i domain missed
      split at step
      · cases step
        exact .inr (.inr (.inl ⟨task,domain,missed,rfl⟩))
      · rename_i ip granted
        cases step
        have same : offsetFrom s.resolver.pool.base s.resolver.pool.next = ip := by
          simp only [FakeIpPool.allocate] at granted
          split at granted
          · cases granted
          · exact Option.some.inj granted
        rw [← same]
        exact .inr (.inr (.inr (.inl ⟨task,domain,missed,rfl⟩)))
    · cases step
  | insert task =>
    simp only [advance] at step
    split at step
    · rename_i domain ip allocated
      cases step
      exact .inr (.inr (.inr (.inr ⟨task,domain,ip,allocated,rfl⟩)))
    · cases step

def Handed (base : Octets 4) (allocations : Nat) (ip : IpAddr) : Prop :=
  ∃ k < allocations, ip = offsetFrom base (UInt32.ofNat (1 + k))

structure Consistent (s : Resolving) : Prop where
  counted : s.resolver.pool.next = UInt32.ofNat (1 + s.allocations)
  recorded : ∀ ip lower, s.resolver.ipToDomain.lookup ip = some lower → Handed s.resolver.pool.base s.allocations ip
  held : ∀ task domain ip, s.pending.lookup task = some (.allocated domain ip) →
    Handed s.resolver.pool.base s.allocations ip ∧ s.resolver.ipToDomain.lookup ip = none
  apart : ∀ task other domain second ip, s.pending.lookup task = some (.allocated domain ip) →
    s.pending.lookup other = some (.allocated second ip) → task = other
  mapped : ∀ lower ip, s.resolver.domainToIp.lookup lower = some ip → s.resolver.ipToDomain.lookup ip = some lower
  answered : ∀ domain ip, (domain,.ok [ip]) ∈ s.answers → s.resolver.ipToDomain.lookup ip = some (toLowercase domain)

theorem start_consistent (base bits) : Consistent toLowercase (start (FakeDnsResolver.new base bits)) := by
  constructor <;> simp [start,FakeDnsResolver.new,FakeIpPool.new]

theorem offset_inj (same : offsetFrom base a = offsetFrom base b) : a = b := by
  have bytes := congrArg be32 (congrArg Subtype.val (IpAddr.v4.inj same))
  simpa using bytes

theorem handed_more (handed : Handed base allocations ip) : Handed base (allocations + 1) ip := by
  obtain ⟨k,earlier,rfl⟩ := handed
  exact ⟨k,Nat.lt_succ_of_lt earlier,rfl⟩

theorem handed_fresh (room : allocations < 2^32) (handed : Handed base allocations ip) : ip ≠ offsetFrom base (UInt32.ofNat (1 + allocations)) := by
  obtain ⟨k,earlier,rfl⟩ := handed
  intro same
  have words := congrArg UInt32.toNat (offset_inj same)
  simp only [UInt32.toNat_ofNat'] at words
  omega

theorem counted_next (allocations : Nat) : UInt32.ofNat (1 + allocations) + 1 = UInt32.ofNat (1 + (allocations + 1)) := by
  rw [← Nat.add_assoc,UInt32.ofNat_add _ 1]
  rfl

theorem answers_append {property : String → IpAddr → Prop} (before : ∀ domain ip, (domain,.ok [ip]) ∈ answers → property domain ip)
    {reply : Except DnsError (List IpAddr)} (new : ∀ ip, reply = .ok [ip] → property asked ip) :
    ∀ domain ip, (domain,.ok [ip]) ∈ answers ++ [(asked,reply)] → property domain ip := by
  intro domain ip present
  rcases List.mem_append.mp present with earlier | last
  · exact before domain ip earlier
  · cases List.mem_singleton.mp last
    exact new ip rfl

theorem step_consistent {s : Resolving} (consistent : Consistent toLowercase s)
    (step : advance toLowercase s event = some next) (room : next.allocations ≤ 2^32) : Consistent toLowercase next := by
  obtain ⟨counted,recorded,held,apart,mapped,answered⟩ := consistent
  obtain ⟨domain,ip,known,rfl⟩ | ⟨task,domain,idle,rfl⟩ | ⟨task,domain,missed,rfl⟩ | ⟨task,domain,missed,rfl⟩ |
    ⟨task,domain,ip,allocated,rfl⟩ := advance_cases toLowercase step
  · refine ⟨counted,recorded,held,apart,mapped,answers_append answered ?_⟩
    rintro _ ⟨⟩
    exact mapped _ ip known
  · refine ⟨counted,recorded,?_,?_,mapped,answered⟩ <;> simp only [lookup_inserted]
    · grind
    · grind
  · refine ⟨?_,fun ip lower found => handed_more (recorded ip lower found),?_,?_,mapped,answers_append answered nofun⟩
    · exact (congrArg (· + 1) counted).trans (counted_next _)
    · simp only [lookup_erased,allocate_base]
      grind [handed_more]
    · simp only [lookup_erased]
      grind
  · have fresh : ∀ ip, Handed s.resolver.pool.base s.allocations ip → ip ≠ offsetFrom s.resolver.pool.base s.resolver.pool.next := by
      intro ip handed
      rw [counted]
      exact handed_fresh room handed
    refine ⟨?_,fun ip lower found => handed_more (recorded ip lower found),?_,?_,mapped,answered⟩
    · exact (congrArg (· + 1) counted).trans (counted_next _)
    · have new : Handed s.resolver.pool.base _ (offsetFrom s.resolver.pool.base s.resolver.pool.next) :=
        ⟨s.allocations,Nat.lt_succ_self _,by rw [counted]⟩
      have unused : s.resolver.ipToDomain.lookup (offsetFrom s.resolver.pool.base s.resolver.pool.next) = none := by
        by_contra used
        obtain ⟨lower,found⟩ := Option.ne_none_iff_exists'.mp used
        exact fresh _ (recorded _ lower found) rfl
      simp only [lookup_inserted,allocate_base]
      grind [handed_more]
    · simp only [lookup_inserted]
      grind
  · refine ⟨counted,?_,?_,?_,?_,?_⟩ <;> simp only [FakeDnsResolver.record,lookup_inserted,lookup_erased]
    · grind
    · grind
    · grind
    · grind
    · grind

theorem run_consistent (path : run (advance toLowercase) (start (FakeDnsResolver.new base bits)) events = some s)
    (room : s.allocations ≤ 2^32) : Consistent toLowercase s := by
  have kept : s.allocations ≤ 2^32 → Consistent toLowercase s := by
    apply run_invariant _ ?_ ?_ path
    · intro s event next consistent step room
      have before : s.allocations ≤ next.allocations := by
        obtain ⟨_,_,_,rfl⟩ | ⟨_,_,_,rfl⟩ | ⟨_,_,_,rfl⟩ | ⟨_,_,_,rfl⟩ | ⟨_,_,_,_,rfl⟩ := advance_cases toLowercase step <;> simp
      exact step_consistent toLowercase (consistent (before.trans room)) step room
    · intro _
      exact start_consistent toLowercase base bits
  exact kept room

section
variable {Handler Link UdpLink : Type}

theorem enriched_iff (uses : dispatcher.fakeDns = some resolver)
    (targeted : session.target = some target) (fake : target.address.asIp = some ip) (busy : Bool) (lower : String) :
    (sessionContext dispatcher busy session).targetDomain = some lower ↔
      busy = false ∧ resolver.isFakeIp ip = true ∧ resolver.ipToDomain.lookup ip = some lower := by
  obtain ⟨outbound,present,rfl⟩ := Option.map_eq_some_iff.mp targeted
  obtain ⟨domain,address,-⟩ := build_targeted present
  have unnamed : outbound.target.address.asDomain = none := by
    cases named : outbound.target.address with
    | domain name =>
      rw [named] at fake
      cases fake
    | ipv4 octets | ipv6 octets => rfl
  rw [unnamed] at domain
  rw [fake] at address
  unfold sessionContext DefaultDispatcher.enrichWithFakeDns
  simp only [uses,address]
  cases resolver.isFakeIp ip with
  | false => simp [domain]
  | true =>
    cases busy with
    | true => simp [FakeDnsResolver.getDomain,domain]
    | false =>
      simp only [FakeDnsResolver.getDomain,if_true,Bool.false_eq_true,if_false,true_and]
      cases resolver.ipToDomain.lookup ip <;> simp [domain]

theorem resolve_known (dispatcher : DefaultDispatcher Handler) (known : context.targetIp = some ip) : dispatcher.resolveContext context = .ok context := by
  unfold DefaultDispatcher.resolveContext
  rw [known]
  cases context.targetDomain <;> cases dispatcher.dnsResolver <;> rfl

theorem route_enriched (known : (sessionContext dispatcher surroundings.busy session).targetIp = some ip) :
    ∃ routed, dispatcher.route surroundings session = .ok routed ∧ routed.context = sessionContext dispatcher surroundings.busy session := by
  have first : (if dispatcher.router.domainStrategy = .ipOnDemand then
      dispatcher.resolveContext (dispatcher.enrichWithFakeDns surroundings.busy (buildRoutingContext session))
      else .ok (dispatcher.enrichWithFakeDns surroundings.busy (buildRoutingContext session))) = .ok (sessionContext dispatcher surroundings.busy session) := by
    split
    · exact resolve_known dispatcher known
    · rfl
  simp only [DefaultDispatcher.route,first,ok_bind]
  split
  · rw [resolve_known _ known,ok_bind]
    exact ⟨_,rfl,rfl⟩
  · exact ⟨_,rfl,rfl⟩

section
variable (dispatcher : DefaultDispatcher Handler)

theorem enrich_ip (busy : Bool) (context : RoutingContext) : (dispatcher.enrichWithFakeDns busy context).targetIp = context.targetIp := by
  unfold DefaultDispatcher.enrichWithFakeDns
  split
  · split
    · split <;> rfl
    · rfl
  · rfl

-- The rules are evaluated with the name, and the handler is given a session aimed at the name.
def EndToEnd (surroundings : Surroundings) (session : Session) (lower : String)
    (result : Checked (DefaultDispatcher Handler × Except String (Call Handler Link))) : Prop :=
  (∃ routed, dispatcher.route surroundings session = .ok routed ∧ routed.context.targetDomain = some lower) ∧
  ∃ after call target, result = .ok (after,.ok call) ∧ call.session.target = some target ∧ target.address = .domain lower

end

theorem call_keeps_ip (targeted : session.target = some target) (fake : target.address.asIp = some ip) :
    ¬ EndToEnd dispatcher surroundings session lower (dispatcher.call surroundings session link noHandler) := by
  rintro ⟨-,after,call,aim,called,aimed,named⟩
  have same := (call_same called).1.target
  rw [aimed,targeted] at same
  cases same
  rw [named] at fake
  cases fake

theorem fake_dns_never (path : run (advance toLowercase) (start FakeDnsResolver.newDefault) events = some s)
    (asked : (domain,.ok [ip]) ∈ s.answers) (dispatcher : DefaultDispatcher Handler)
    (uses : dispatcher.fakeDns = some s.resolver) (surroundings : Surroundings) (session : Session)
    (targeted : session.target = some target) (fake : target.address.asIp = some ip) (dest : Destination)
    (pair : Link × Link) (udpPair : UdpLink × UdpLink) (link : Link) :
    (s.allocations ≤ 2^32 →
      ((∃ routed, dispatcher.route surroundings session = .ok routed ∧
          routed.context.targetDomain = some (toLowercase domain)) ↔
        surroundings.busy = false ∧ s.resolver.isFakeIp ip = true)) ∧
    ¬ EndToEnd dispatcher surroundings session (toLowercase domain) (dispatcher.dispatch surroundings pair session dest).2 ∧
    ¬ EndToEnd dispatcher surroundings session (toLowercase domain) (dispatcher.dispatchUdp surroundings udpPair session).2 ∧
    ¬ EndToEnd dispatcher surroundings session (toLowercase domain) (dispatcher.dispatchLink surroundings session dest link) := by
  refine ⟨?_,?_,?_,?_⟩
  · intro room
    have mapped := (run_consistent toLowercase path room).answered domain ip asked
    have known : (sessionContext dispatcher surroundings.busy session).targetIp = some ip := by
      obtain ⟨outbound,present,rfl⟩ := Option.map_eq_some_iff.mp targeted
      exact (enrich_ip dispatcher surroundings.busy _).trans ((build_targeted present).2.1.trans fake)
    obtain ⟨routed,arrived,seen⟩ := route_enriched known
    have named := enriched_iff uses targeted fake surroundings.busy (toLowercase domain)
    rw [← seen] at named
    constructor
    · rintro ⟨other,same,found⟩
      cases Except.ok.inj (same.symm.trans arrived)
      obtain ⟨free,recognised,-⟩ := named.mp found
      exact ⟨free,recognised⟩
    · rintro ⟨free,recognised⟩
      exact ⟨routed,arrived,named.mpr ⟨free,recognised,mapped⟩⟩
  · unfold DefaultDispatcher.dispatch
    rw [(copies_call dispatcher surroundings session pair.2 pair dest).1]
    exact call_keeps_ip targeted fake
  · rw [(copies_call dispatcher surroundings session udpPair.2 udpPair dest).2.1]
    exact call_keeps_ip targeted fake
  · rw [(copies_call dispatcher surroundings session link pair dest).2.2]
    exact call_keeps_ip targeted fake

end

end

def oneName : List Event := [.look 0 "web.example",.allocate 0,.insert 0]
def firstIp : Octets 4 := ⟨[198,18,0,1],rfl⟩
def named : FakeDnsResolver :=
  ⟨⟨⟨[198,18,0,0],rfl⟩,131072,2⟩,(∅ : AList _).insert "web.example" (.v4 firstIp),(∅ : AList _).insert (.v4 firstIp) "web.example"⟩
def faked : DefaultDispatcher String := {direct with fakeDns := some named}
def fakeTarget : Destination := tcpDestination (.ipv4 firstIp) ⟨443⟩
def fakeSession : Session := {aimed with outbound := some ⟨fakeTarget,fakeTarget,none,""⟩}

theorem oneName_runs : run (advance id) (start FakeDnsResolver.newDefault) oneName = some ⟨named,∅,[("web.example",.ok [.v4 firstIp])],1⟩ := rfl

theorem fake_dns_one_name :
    (∃ routed, faked.route calm fakeSession = .ok routed ∧ routed.context.targetDomain = some "web.example") ∧
    ¬ EndToEnd faked calm fakeSession "web.example" (faked.dispatch calm ("in","out") fakeSession web).2 := by
  obtain ⟨seen,dispatched,-,-⟩ := fake_dns_never id oneName_runs (List.mem_singleton.mpr rfl) faked rfl calm fakeSession rfl rfl
    web ("in","out") ("in","out") "link"
  exact ⟨(seen (by decide)).mpr ⟨rfl,by decide⟩,dispatched⟩

-- The rules see the name, and the handler still gets the fake address.
theorem fake_address_handed_on :
    run (advance id) (start FakeDnsResolver.newDefault) oneName = some ⟨named,∅,[("web.example",.ok [.v4 firstIp])],1⟩ ∧
    ∃ call, (faked.dispatch calm ("in","out") fakeSession web).2 = .ok (faked,.ok call) ∧
      call.session.target = some fakeTarget ∧ fakeTarget.address ≠ .domain "web.example" :=
  ⟨rfl,⟨"direct",fakeSession,"out"⟩,rfl,rfl,nofun⟩

end AstraCore.FakeDns
