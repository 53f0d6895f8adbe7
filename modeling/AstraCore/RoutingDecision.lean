import AstraCore.Dispatcher

namespace AstraCore.RoutingDecision
open CheckedBytes NetAddress Routing Dispatcher

-- What routing is meant to decide, in terms of its own: a rule is eligible when it has conditions, all of them hold
-- and it names an outbound or a balancer.
structure Eligible (context : RoutingContext) (rule : RouteRule) : Prop where
  conditional : rule.conditions ≠ []
  holds : ∀ condition ∈ rule.conditions, condition context = true
  named : rule.outboundTag ≠ "" ∨ rule.balancerTag ≠ ""

def namedTag (rule : RouteRule) : String := if rule.outboundTag ≠ "" then rule.outboundTag else rule.balancerTag

inductive FirstMatch (rules : List RouteRule) (context : RoutingContext) : Option String → Prop where
  | missed : (∀ rule ∈ rules, ¬ Eligible context rule) → FirstMatch rules context none
  | found : rules = before ++ rule :: after → (∀ earlier ∈ before, ¬ Eligible context earlier) →
      Eligible context rule → FirstMatch rules context (some (namedTag rule))

theorem pick_iff : (∃ result, rule.pick context = some result ∧ result.outboundTag = tag) ↔ Eligible context rule ∧ tag = namedTag rule := by
  unfold RouteRule.pick namedTag
  by_cases taken : rule.matches context = true
  · obtain ⟨conditional,holds⟩ := (matches_iff rule context).mp taken
    by_cases outbound : rule.outboundTag = ""
    · by_cases balancer : rule.balancerTag = ""
      · have unnamed : ¬ Eligible context rule := fun eligible => eligible.named.elim (· outbound) (· balancer)
        simp [outbound,balancer,unnamed]
      · have eligible : Eligible context rule := ⟨conditional,holds,.inr balancer⟩
        simp [taken,outbound,balancer,eligible,eq_comm]
    · have eligible : Eligible context rule := ⟨conditional,holds,.inl outbound⟩
      simp [taken,outbound,eligible,eq_comm]
  · have passed : ¬ Eligible context rule := by
      intro eligible
      exact taken ((matches_iff rule context).mpr ⟨eligible.conditional,eligible.holds⟩)
    simp [taken,passed]

theorem pick_none_iff : rule.pick context = none ↔ ¬ Eligible context rule := by
  constructor
  · intro passed eligible
    obtain ⟨result,picked,-⟩ := (pick_iff).mpr ⟨eligible,rfl⟩
    rw [passed] at picked
    cases picked
  · intro passed
    cases picked : rule.pick context with
    | none => rfl
    | some result => exact absurd ((pick_iff).mp ⟨result,picked,rfl⟩).1 passed

theorem firstMatch_iff (router : Router) (context found) :
    FirstMatch router.rules context found ↔ (router.pickRoute context).map RouteResult.outboundTag = found := by
  unfold Router.pickRoute
  constructor
  · rintro (⟨missed⟩ | ⟨order,passed,eligible⟩)
    · have unpicked := List.findSome?_eq_none_iff.mpr (fun rule present => (pick_none_iff).mpr (missed rule present))
      rw [unpicked]
      rfl
    · obtain ⟨result,picked,tagged⟩ := (pick_iff).mpr ⟨eligible,rfl⟩
      have first := List.findSome?_eq_some_iff.mpr
        ⟨_,_,_,order,picked,fun earlier present => (pick_none_iff).mpr (passed earlier present)⟩
      rw [first,Option.map_some,tagged]
  · intro picked
    cases route : router.rules.findSome? (fun rule => rule.pick context) with
    | none =>
      rw [route] at picked
      cases picked
      exact .missed (fun rule present => (pick_none_iff).mp (List.findSome?_eq_none_iff.mp route rule present))
    | some result =>
      rw [route] at picked
      cases picked
      obtain ⟨before,rule,after,order,hit,passed⟩ := List.findSome?_eq_some_iff.mp route
      obtain ⟨eligible,tagged⟩ := (pick_iff).mp ⟨result,hit,rfl⟩
      rw [Option.map_some,tagged]
      exact .found order (fun earlier present => (pick_none_iff).mp (passed earlier present)) eligible

theorem firstMatch_tagged (found : FirstMatch rules context (some tag)) : tag ≠ "" := by
  cases found with
  | found order passed eligible =>
    unfold namedTag
    split
    · assumption
    · rename_i unnamed
      exact eligible.named.resolve_left unnamed

abbrev Balancers := AList (fun _ : String => Balancer)

inductive Evaluates (rules : List RouteRule) (balancers : Balancers) (nanos : UInt32) (context : RoutingContext) :
    String → Prop where
  | unmatched : FirstMatch rules context none → Evaluates rules balancers nanos context ""
  | outbound : FirstMatch rules context (some tag) → balancers.lookup tag = none → Evaluates rules balancers nanos context tag
  | unpicked : FirstMatch rules context (some tag) → balancers.lookup tag = some balancer →
      (balancer.pick nanos).2 = none → Evaluates rules balancers nanos context tag
  | balanced : FirstMatch rules context (some tag) → balancers.lookup tag = some balancer →
      (balancer.pick nanos).2 = some selected → Evaluates rules balancers nanos context selected

section
variable {Handler Link UdpLink : Type}

section
variable (resolver : Option DnsResolver) (context : RoutingContext)

def answer : Option (Except DnsError (List IpAddr)) :=
  match context.targetDomain,context.targetIp,resolver with
  | some domain,none,some resolver => some (resolver domain)
  | _,_,_ => none

def resolved : RoutingContext :=
  match answer resolver context with
  | some (.ok (first :: rest)) => {context with targetIp := some (((first :: rest).find? IpAddr.isIpv4).getD first)}
  | _ => context

def Vacant : Prop := answer resolver context = some (.ok [])

end

def sessionContext (dispatcher : DefaultDispatcher Handler) (busy : Bool) (session : Session) : RoutingContext :=
  dispatcher.enrichWithFakeDns busy (buildRoutingContext session)

inductive Decides (dispatcher : DefaultDispatcher Handler) (surroundings : Surroundings) (session : Session) :
    String → Prop where
  | asIs : dispatcher.router.domainStrategy = .asIs →
      Evaluates dispatcher.router.rules dispatcher.balancers (surroundings.nanos 0)
        (sessionContext dispatcher surroundings.busy session) tag → Decides dispatcher surroundings session tag
  | onDemand : dispatcher.router.domainStrategy = .ipOnDemand →
      Evaluates dispatcher.router.rules dispatcher.balancers (surroundings.nanos 0)
        (resolved dispatcher.dnsResolver (sessionContext dispatcher surroundings.busy session)) tag →
      Decides dispatcher surroundings session tag
  | matched : dispatcher.router.domainStrategy = .ipIfNonMatch →
      ¬ FirstMatch dispatcher.router.rules (sessionContext dispatcher surroundings.busy session) none →
      Evaluates dispatcher.router.rules dispatcher.balancers (surroundings.nanos 0)
        (sessionContext dispatcher surroundings.busy session) tag → Decides dispatcher surroundings session tag
  | unmatched : dispatcher.router.domainStrategy = .ipIfNonMatch →
      FirstMatch dispatcher.router.rules (sessionContext dispatcher surroundings.busy session) none →
      Evaluates dispatcher.router.rules dispatcher.balancers (surroundings.nanos 1)
        (resolved dispatcher.dnsResolver (sessionContext dispatcher surroundings.busy session)) tag →
      Decides dispatcher surroundings session tag

-- The empty tag stands for the default handler; any other tag for the handler of that name or an error.
def handlerOf (provider : HandlerProvider Handler) (tag : String) : Option Handler :=
  if tag = "" then provider.getDefaultHandler else provider.getHandler tag

def selectedBy : Checked (DefaultDispatcher Handler × Except String (Call Handler Link)) → Option (Option Handler)
  | .error _ => none
  | .ok (_,.error _) => some none
  | .ok (_,.ok call) => some (some call.handler)

theorem resolveContext_eq (dispatcher : DefaultDispatcher Handler) (context) :
    (Vacant dispatcher.dnsResolver context → dispatcher.resolveContext context = .error .sliceIndex) ∧
    (¬ Vacant dispatcher.dnsResolver context → dispatcher.resolveContext context = .ok (resolved dispatcher.dnsResolver context)) := by
  unfold DefaultDispatcher.resolveContext Vacant resolved answer
  cases context.targetDomain <;> cases context.targetIp <;> cases dispatcher.dnsResolver <;> simp
  rename_i domain resolver
  rcases resolver domain with fault | (_ | ⟨first,rest⟩) <;> simp

variable {dispatcher : DefaultDispatcher Handler}

theorem pick_unmatched (missed : FirstMatch dispatcher.router.rules context none) :
    dispatcher.pickOutboundTag session context nanos = (dispatcher,session,"") := by
  have unpicked := Option.map_eq_none_iff.mp ((firstMatch_iff dispatcher.router context none).mp missed)
  simp only [DefaultDispatcher.pickOutboundTag,unpicked]

section
variable (found : FirstMatch dispatcher.router.rules context (some tag))
include found

theorem pick_outbound (plain : dispatcher.balancers.lookup tag = none) :
    dispatcher.pickOutboundTag session context nanos = (dispatcher,session.retag tag,tag) := by
  obtain ⟨route,picked,rfl⟩ := Option.map_eq_some_iff.mp ((firstMatch_iff dispatcher.router context _).mp found)
  simp only [DefaultDispatcher.pickOutboundTag,picked,plain,firstMatch_tagged found,if_false]

theorem pick_balancer (named : dispatcher.balancers.lookup tag = some balancer) (session nanos) : dispatcher.pickOutboundTag session context nanos =
      ({dispatcher with balancers := dispatcher.balancers.insert tag (balancer.pick nanos).1},
        session.retag ((balancer.pick nanos).2.getD tag),(balancer.pick nanos).2.getD tag) := by
  obtain ⟨route,picked,rfl⟩ := Option.map_eq_some_iff.mp ((firstMatch_iff dispatcher.router context _).mp found)
  simp only [DefaultDispatcher.pickOutboundTag,picked,named,firstMatch_tagged found]
  cases (balancer.pick nanos).2 with
  | none => rfl
  | some selected => simp

end

section
variable (dispatcher : DefaultDispatcher Handler)

theorem evaluates_iff (session context) (nanos tag) : Evaluates dispatcher.router.rules dispatcher.balancers nanos context tag ↔
      (dispatcher.pickOutboundTag session context nanos).2.2 = tag := by
  constructor
  · intro evaluated
    cases evaluated with
    | unmatched missed => rw [pick_unmatched missed]
    | outbound found plain => rw [pick_outbound found plain]
    | unpicked found named none => rw [pick_balancer found named,none,Option.getD_none]
    | balanced found named selected => rw [pick_balancer found named,selected,Option.getD_some]
  · rintro rfl
    have first := (firstMatch_iff dispatcher.router context _).mpr rfl
    generalize (dispatcher.router.pickRoute context).map RouteResult.outboundTag = found at first
    cases found with
    | none =>
      rw [pick_unmatched first]
      exact .unmatched first
    | some named =>
      cases present : dispatcher.balancers.lookup named with
      | none =>
        rw [pick_outbound first present]
        exact .outbound first present
      | some balancer =>
        rw [pick_balancer first present]
        cases selected : (balancer.pick nanos).2 with
        | none => exact .unpicked first present selected
        | some tag => exact .balanced first present selected

theorem firstMatch_unique (one : FirstMatch rules context found) (other : FirstMatch rules context second) : found = second := by
  have first := (firstMatch_iff ⟨rules,.asIs⟩ context found).mp one
  exact first.symm.trans ((firstMatch_iff ⟨rules,.asIs⟩ context second).mp other)

def arrivedAt (surroundings : Surroundings) (session : Session) : Option String :=
  (dispatcher.route surroundings session).toOption.map Routed.outboundTag

theorem call_selectedBy (surroundings session) (link : Link) (noHandler) : selectedBy (dispatcher.call surroundings session link noHandler) =
      (arrivedAt dispatcher surroundings session).map (handlerOf dispatcher.handlerProvider) := by
  unfold DefaultDispatcher.call arrivedAt
  cases dispatcher.route surroundings session with
  | error panic => rfl
  | ok routed =>
    have chosen : dispatcher.handlerProvider.choose routed.outboundTag = handlerOf dispatcher.handlerProvider routed.outboundTag := by
      unfold HandlerProvider.choose handlerOf
      by_cases empty : routed.outboundTag = "" <;> simp
    simp only [ok_bind,Except.toOption,Option.map_some]
    rw [← chosen]
    split <;> rename_i choice <;> rw [choice] <;> rfl

end

theorem arrived_onDemand (strategy : dispatcher.router.domainStrategy = .ipOnDemand) : arrivedAt dispatcher surroundings session =
      (dispatcher.resolveContext (sessionContext dispatcher surroundings.busy session)).toOption.map
        (fun context => (dispatcher.pickOutboundTag session context (surroundings.nanos 0)).2.2) := by
  simp only [arrivedAt,DefaultDispatcher.route,strategy,sessionContext]
  cases dispatcher.resolveContext _ with
  | error panic => rfl
  | ok context => simp [Except.toOption]

section
variable (strategy : dispatcher.router.domainStrategy = .ipIfNonMatch)
include strategy

theorem arrived_again (empty : dispatcher.pickOutboundTag session (sessionContext dispatcher surroundings.busy session)
      (surroundings.nanos 0) = (moved,tagged,"")) :
    arrivedAt dispatcher surroundings session = (moved.resolveContext (sessionContext dispatcher surroundings.busy session)).toOption.map
        (fun context => (moved.pickOutboundTag tagged context (surroundings.nanos 1)).2.2) := by
  unfold sessionContext at empty
  simp only [arrivedAt,DefaultDispatcher.route,strategy,sessionContext,reduceCtorEq,if_false,ok_bind,empty]
  cases moved.resolveContext _ <;> rfl

theorem arrived_once (picked : dispatcher.pickOutboundTag session (sessionContext dispatcher surroundings.busy session)
      (surroundings.nanos 0) = (moved,tagged,tag)) (named : tag ≠ "") :
    arrivedAt dispatcher surroundings session = some tag := by
  unfold sessionContext at picked
  simp only [arrivedAt,DefaultDispatcher.route,strategy,reduceCtorEq,if_false,ok_bind,picked,named]
  rfl

end

section
variable (dispatcher : DefaultDispatcher Handler) (surroundings : Surroundings)

-- With the balancer of the tag moved on by its pick, evaluating again on the resolved context leads to the default handler.
def StaysDefault (session : Session) (tag : String)
    (balancer : Balancer) : Prop :=
  ¬ Vacant dispatcher.dnsResolver (sessionContext dispatcher surroundings.busy session) ∧
    ∃ again, Evaluates dispatcher.router.rules
        (dispatcher.balancers.insert tag (balancer.pick (surroundings.nanos 0)).1) (surroundings.nanos 1)
        (resolved dispatcher.dnsResolver (sessionContext dispatcher surroundings.busy session)) again ∧
      handlerOf dispatcher.handlerProvider again = dispatcher.handlerProvider.getDefaultHandler

-- When the decision is taken as meant: no resolution asked for has an empty answer; and where the rule matched first
-- names a balancer that picks the empty tag, evaluating again does not lead away from the default handler.
structure Settled (session : Session) : Prop where
  onDemand : dispatcher.router.domainStrategy = .ipOnDemand →
    ¬ Vacant dispatcher.dnsResolver (sessionContext dispatcher surroundings.busy session)
  unmatched : dispatcher.router.domainStrategy = .ipIfNonMatch →
    FirstMatch dispatcher.router.rules (sessionContext dispatcher surroundings.busy session) none →
    ¬ Vacant dispatcher.dnsResolver (sessionContext dispatcher surroundings.busy session)
  emptied : dispatcher.router.domainStrategy = .ipIfNonMatch → ∀ tag balancer,
    FirstMatch dispatcher.router.rules (sessionContext dispatcher surroundings.busy session) (some tag) →
    dispatcher.balancers.lookup tag = some balancer → (balancer.pick (surroundings.nanos 0)).2 = some "" →
    StaysDefault dispatcher surroundings session tag balancer

def Arrives (session : Session) : Prop :=
  ∃ tag, Decides dispatcher surroundings session tag ∧
    (arrivedAt dispatcher surroundings session).map (handlerOf dispatcher.handlerProvider) =
      some (handlerOf dispatcher.handlerProvider tag)

end

theorem asIs_iff (strategy : dispatcher.router.domainStrategy = .asIs) : Arrives dispatcher surroundings session ↔
    Settled dispatcher surroundings session := by
  refine iff_of_true ⟨_,.asIs strategy ((evaluates_iff dispatcher session _ _ _).mpr rfl),?_⟩
    ⟨fun other => (nomatch strategy.symm.trans other),fun other => (nomatch strategy.symm.trans other),fun other => (nomatch strategy.symm.trans other)⟩
  simp [arrivedAt,DefaultDispatcher.route,strategy,sessionContext,Except.toOption]

theorem onDemand_iff (strategy : dispatcher.router.domainStrategy = .ipOnDemand) :
    Arrives dispatcher surroundings session ↔ Settled dispatcher surroundings session := by
  obtain ⟨panics,resolves⟩ := resolveContext_eq dispatcher (sessionContext dispatcher surroundings.busy session)
  constructor
  · rintro ⟨tag,-,arrived⟩
    refine ⟨fun _ vacant => ?_,fun other => (nomatch strategy.symm.trans other),fun other => (nomatch strategy.symm.trans other)⟩
    rw [arrived_onDemand strategy,panics vacant] at arrived
    cases arrived
  · intro settled
    refine ⟨_,.onDemand strategy ((evaluates_iff dispatcher session _ _ _).mpr rfl),?_⟩
    rw [arrived_onDemand strategy,resolves (settled.onDemand strategy)]
    rfl

section
variable (strategy : dispatcher.router.domainStrategy = .ipIfNonMatch)
include strategy

theorem unmatched_iff (missed : FirstMatch dispatcher.router.rules (sessionContext dispatcher surroundings.busy session) none) :
    Arrives dispatcher surroundings session ↔ Settled dispatcher surroundings session := by
  obtain ⟨panics,resolves⟩ := resolveContext_eq dispatcher (sessionContext dispatcher surroundings.busy session)
  have again := arrived_again strategy (pick_unmatched missed)
  constructor
  · rintro ⟨tag,-,arrived⟩
    refine ⟨fun other => (nomatch strategy.symm.trans other),fun _ _ vacant => ?_,fun _ _ _ matched => (nomatch firstMatch_unique missed matched)⟩
    rw [again,panics vacant] at arrived
    cases arrived
  · intro settled
    refine ⟨_,.unmatched strategy missed ((evaluates_iff dispatcher session _ _ _).mpr rfl),?_⟩
    rw [again,resolves (settled.unmatched strategy missed)]
    rfl

theorem arrives_once (found : FirstMatch dispatcher.router.rules (sessionContext dispatcher surroundings.busy session) (some first))
    (picked : dispatcher.pickOutboundTag session (sessionContext dispatcher surroundings.busy session)
      (surroundings.nanos 0) = (moved,tagged,tag)) (named : tag ≠ "") : Arrives dispatcher surroundings session := by
  have matched : ¬ FirstMatch dispatcher.router.rules _ none :=
    fun missed => nomatch firstMatch_unique missed found
  have evaluated := (evaluates_iff dispatcher session _
    (surroundings.nanos 0) tag).mpr (by rw [picked])
  refine ⟨tag,.matched strategy matched evaluated,?_⟩
  rw [arrived_once strategy picked named,Option.map_some]

theorem arrives_emptied (found : FirstMatch dispatcher.router.rules (sessionContext dispatcher surroundings.busy session) (some tag))
    (named : dispatcher.balancers.lookup tag = some balancer) (empty : (balancer.pick (surroundings.nanos 0)).2 = some "") :
    Arrives dispatcher surroundings session ↔ StaysDefault dispatcher surroundings session tag balancer := by
  have picked := pick_balancer found named session (surroundings.nanos 0)
  rw [empty,Option.getD_some] at picked
  have again := arrived_again strategy picked
  obtain ⟨panics,resolves⟩ := resolveContext_eq
    {dispatcher with balancers := dispatcher.balancers.insert tag (balancer.pick (surroundings.nanos 0)).1}
    (sessionContext dispatcher surroundings.busy session)
  have second := evaluates_iff
    {dispatcher with balancers := dispatcher.balancers.insert tag (balancer.pick (surroundings.nanos 0)).1}
    (session.retag "") (resolved dispatcher.dnsResolver (sessionContext dispatcher surroundings.busy session))
    (surroundings.nanos 1)
  have matched : ¬ FirstMatch dispatcher.router.rules (sessionContext dispatcher surroundings.busy session) none :=
    fun missed => nomatch firstMatch_unique missed found
  constructor
  · rintro ⟨decided,decides,arrived⟩
    have answered : ¬ Vacant dispatcher.dnsResolver (sessionContext dispatcher surroundings.busy session) := by
      intro vacant
      rw [again,panics vacant] at arrived
      cases arrived
    refine ⟨answered,_,(second _).mpr rfl,?_⟩
    have default : decided = "" := by
      cases decides with
      | asIs other | onDemand other => exact nomatch other.symm.trans strategy
      | matched _ _ evaluated =>
        have first := (evaluates_iff dispatcher session _ _ _).mp evaluated
        rw [picked] at first
        exact first.symm
      | unmatched _ missed => exact absurd missed matched
    rw [again,resolves answered,default] at arrived
    exact Option.some.inj arrived
  · rintro ⟨answered,tag,evaluated,default⟩
    have first := (evaluates_iff dispatcher session (sessionContext dispatcher surroundings.busy session)
      (surroundings.nanos 0) "").mpr (by rw [picked])
    refine ⟨"",.matched strategy matched first,?_⟩
    rw [again,resolves answered]
    have arrived := (second tag).mp evaluated
    exact congrArg some ((congrArg (handlerOf dispatcher.handlerProvider) arrived).trans default)

theorem settled_matched (found : FirstMatch dispatcher.router.rules (sessionContext dispatcher surroundings.busy session) (some tag)) :
    Settled dispatcher surroundings session ↔ ∀ balancer,dispatcher.balancers.lookup tag = some balancer → (balancer.pick (surroundings.nanos 0)).2 = some "" →
      StaysDefault dispatcher surroundings session tag balancer := by
  constructor
  · intro settled balancer
    exact settled.emptied strategy tag balancer found
  · intro emptied
    refine ⟨fun other => (nomatch strategy.symm.trans other),fun _ missed => (nomatch firstMatch_unique missed found),?_⟩
    intro _ other balancer matched
    cases firstMatch_unique found matched
    exact emptied balancer

theorem matched_iff (found : FirstMatch dispatcher.router.rules (sessionContext dispatcher surroundings.busy session) (some tag)) :
    Arrives dispatcher surroundings session ↔ Settled dispatcher surroundings session := by
  rw [settled_matched strategy found]
  cases present : dispatcher.balancers.lookup tag with
  | none =>
    have once := arrives_once strategy found (pick_outbound found present)
      (firstMatch_tagged found)
    exact iff_of_true once (fun balancer named => nomatch named)
  | some balancer =>
    by_cases empty : (balancer.pick (surroundings.nanos 0)).2 = some ""
    · rw [arrives_emptied strategy found present empty]
      constructor
      · rintro emptied _ ⟨⟩ -
        exact emptied
      · intro emptied
        exact emptied balancer rfl empty
    · have named : (balancer.pick (surroundings.nanos 0)).2.getD tag ≠ "" := by
        cases selected : (balancer.pick _).2 with
        | none => exact firstMatch_tagged found
        | some other => exact fun blank => empty (selected.trans (congrArg some blank))
      have once := arrives_once strategy found (pick_balancer found present session _) named
      refine iff_of_true once ?_
      rintro _ ⟨⟩ blank
      exact absurd blank empty

end

theorem arrives_iff : Arrives dispatcher surroundings session ↔ Settled dispatcher surroundings session := by
  cases strategy : dispatcher.router.domainStrategy with
  | asIs => exact asIs_iff strategy
  | ipOnDemand => exact onDemand_iff strategy
  | ipIfNonMatch =>
    have first := (firstMatch_iff dispatcher.router (sessionContext dispatcher surroundings.busy session) _).mpr rfl
    generalize (dispatcher.router.pickRoute _).map
      RouteResult.outboundTag = found at first
    cases found with
    | none => exact unmatched_iff strategy first
    | some tag => exact matched_iff strategy first

theorem dispatch_decides_iff (dispatcher : DefaultDispatcher Handler) (surroundings : Surroundings) (session : Session)
    (dest : Destination) (pair : Link × Link) (udpPair : UdpLink × UdpLink) (link : Link) :
    (∃ tag, Decides dispatcher surroundings session tag ∧
      selectedBy (dispatcher.dispatch surroundings pair session dest).2 =
        some (handlerOf dispatcher.handlerProvider tag) ∧
      selectedBy (dispatcher.dispatchUdp surroundings udpPair session).2 =
        some (handlerOf dispatcher.handlerProvider tag) ∧
      selectedBy (dispatcher.dispatchLink surroundings session dest link) =
        some (handlerOf dispatcher.handlerProvider tag)) ↔
      Settled dispatcher surroundings session := by
  obtain ⟨tcp,-,-⟩ := copies_call dispatcher surroundings session pair.2 pair dest
  obtain ⟨-,udp,-⟩ := copies_call dispatcher surroundings session udpPair.2 udpPair dest
  obtain ⟨-,-,linked⟩ := copies_call dispatcher surroundings session link pair dest
  unfold DefaultDispatcher.dispatch
  rw [tcp,udp,linked,call_selectedBy,call_selectedBy,call_selectedBy,← arrives_iff]
  simp only [and_self]
  rfl

end

def unanswered : DefaultDispatcher String :=
  {direct with router := ⟨[],.ipOnDemand⟩,dnsResolver := some (fun _ => .ok [])}

-- No rule matches, so the default handler is decided on; all three entries index the empty answer and panic.
theorem empty_answer_panics : Decides unanswered calm aimed "" ∧ handlerOf unanswered.handlerProvider "" = some "direct" ∧
    (unanswered.dispatch calm ("in","out") aimed web).2 = .error .sliceIndex ∧
    (unanswered.dispatchUdp calm ("in","out") aimed).2 = .error .sliceIndex ∧
    unanswered.dispatchLink calm aimed web "link" = .error .sliceIndex := by
  have missed : FirstMatch unanswered.router.rules
      (resolved unanswered.dnsResolver (sessionContext unanswered calm.busy aimed)) none := .missed (by simp [unanswered])
  exact ⟨.onDemand rfl (.unmatched missed),rfl,rfl,rfl,rfl⟩

end AstraCore.RoutingDecision
