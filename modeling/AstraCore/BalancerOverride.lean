import AstraCore.RoutingDecision

namespace AstraCore.BalancerOverride
open CheckedBytes NetAddress Routing Dispatcher RoutingDecision
variable {Handler : Type}

structure Deciding (Handler : Type) where
  dispatcher : DefaultDispatcher Handler
  session : Session
  context : RoutingContext
  nanos : UInt32

def Deciding.picked (d : Deciding Handler) : DefaultDispatcher Handler × Session × String :=
  d.dispatcher.pickOutboundTag d.session d.context d.nanos

def Deciding.routedTo (d : Deciding Handler) : Option (String × Balancer) := do
  let route ← d.dispatcher.router.pickRoute d.context
  let balancer ← d.dispatcher.balancers.lookup route.outboundTag
  some (route.outboundTag,balancer)

def deciding (dispatcher : DefaultDispatcher Handler) (surroundings : Surroundings) (session : Session) : Checked (Deciding Handler) := do
  let context := sessionContext dispatcher surroundings.busy session
  let context ← (if dispatcher.router.domainStrategy = .ipOnDemand then dispatcher.resolveContext context else .ok context)
  let picked := dispatcher.pickOutboundTag session context (surroundings.nanos 0)
  if picked.2.2 = "" ∧ dispatcher.router.domainStrategy = .ipIfNonMatch then do
    let context ← picked.1.resolveContext context
    .ok ⟨picked.1,picked.2.1,context,surroundings.nanos 1⟩
  else .ok ⟨dispatcher,session,context,surroundings.nanos 0⟩

variable (dispatcher : DefaultDispatcher Handler)

theorem route_deciding : dispatcher.route surroundings session =
      (deciding dispatcher surroundings session).map fun d => ⟨d.picked.1,d.context,d.picked.2.1,d.picked.2.2⟩ := by
  unfold DefaultDispatcher.route deciding sessionContext
  dsimp only
  cases (if dispatcher.router.domainStrategy = .ipOnDemand then
    dispatcher.resolveContext _
    else .ok _) with
  | error panic => rfl
  | ok context =>
    simp only [ok_bind]
    split
    · cases (dispatcher.pickOutboundTag session context _).1.resolveContext context with
      | error panic | ok context => rfl
    · rfl

section
variable (dispatcher : DefaultDispatcher Handler)

def leaves (surroundings : Surroundings) (session : Session) : DefaultDispatcher Handler :=
  match deciding dispatcher surroundings session with
  | .ok d => d.picked.1
  | .error _ =>
    if dispatcher.router.domainStrategy = .ipIfNonMatch then
      (dispatcher.pickOutboundTag session (sessionContext dispatcher surroundings.busy session) (surroundings.nanos 0)).1
    else dispatcher

inductive Entry where
  | dispatch (dest : Destination)
  | dispatchUdp
  | dispatchLink (dest : Destination)

def Entry.run (surroundings : Surroundings) (session : Session) :
    Entry → Checked (DefaultDispatcher Handler × Except String (Call Handler Unit))
  | .dispatch dest => (dispatcher.dispatch surroundings ((),()) session dest).2
  | .dispatchUdp => (dispatcher.dispatchUdp surroundings ((),()) session).2
  | .dispatchLink dest => dispatcher.dispatchLink surroundings session dest ()

end

-- A dispatch that was routed to a balancer: the override that was in force there, what the strategy chose, the tag that the
-- dispatch arrived at and the handler it called.
structure Dispatched (Handler : Type) where
  balancer : String
  inForce : Option String
  chosen : String
  tag : String
  handler : Option Handler

-- `overrideTarget` belongs to the balancer of a tag. `pick` does not read it, and nothing outside calls `pick_override`.
structure System (Handler : Type) where
  dispatcher : DefaultDispatcher Handler
  overrideTarget : String → Option String
  dispatched : List (Dispatched Handler)

def System.new (dispatcher : DefaultDispatcher Handler) : System Handler := ⟨dispatcher,fun _ => none,[]⟩

section
variable (s : System Handler)

def System.getOverride (tag : String) : Option String := s.overrideTarget tag

def System.setOverride (tag target : String) : System Handler :=
  {s with overrideTarget := fun other => if other = tag then (if target = "" then none else some target) else s.overrideTarget other}

def System.clearOverride (tag : String) : System Handler :=
  {s with overrideTarget := fun other => if other = tag then none else s.overrideTarget other}

def System.observe (tag : String) (alive : Option (List String)) (metrics : AList (fun _ : String => OutboundMetrics)) :
    System Handler :=
  match s.dispatcher.balancers.lookup tag with
  | none => s
  | some balancer => {s with dispatcher := {s.dispatcher with balancers := s.dispatcher.balancers.insert tag {balancer with alive,metrics}}}

def System.report (surroundings : Surroundings) (session : Session) (entry : Entry) : Option (Dispatched Handler) := do
  let d ← (deciding s.dispatcher surroundings session).toOption
  let (tag,balancer) ← d.routedTo
  let arrived ← arrivedAt s.dispatcher surroundings session
  let handler ← selectedBy (entry.run s.dispatcher surroundings session)
  some ⟨tag,s.getOverride tag,(balancer.pick d.nanos).2.getD tag,arrived,handler⟩

inductive Event where
  | setOverride (tag target : String)
  | clearOverride (tag : String)
  | observe (tag : String) (alive : Option (List String)) (metrics : AList (fun _ : String => OutboundMetrics))
  | dispatch (surroundings : Surroundings) (session : Session) (entry : Entry)

def step : Event → System Handler
  | .setOverride tag target => s.setOverride tag target
  | .clearOverride tag => s.clearOverride tag
  | .observe tag alive metrics => s.observe tag alive metrics
  | .dispatch surroundings session entry =>
    {s with
      dispatcher := leaves s.dispatcher surroundings session
      dispatched := s.dispatched ++ (s.report surroundings session entry).toList}

end

def run (dispatcher : DefaultDispatcher Handler) (events : List Event) : System Handler := events.foldl step (.new dispatcher)

section
variable (provider : HandlerProvider Handler)

def GoesTo (d : Dispatched Handler) (tag : String) : Prop :=
  d.tag = tag ∧ d.handler = handlerOf provider tag

def Obeys (d : Dispatched Handler) : Prop :=
  GoesTo provider d (d.inForce.getD d.chosen)

theorem picked_routed {d : Deciding Handler} (routed : d.routedTo = some (tag,balancer)) : d.picked.2.2 = (balancer.pick d.nanos).2.getD tag := by
  obtain ⟨route,picked,routed⟩ := Option.bind_eq_some_iff.mp routed
  obtain ⟨named,found,routed⟩ := Option.bind_eq_some_iff.mp routed
  cases routed
  have first := (firstMatch_iff d.dispatcher.router d.context (some route.outboundTag)).mpr (by rw [picked]; rfl)
  rw [Deciding.picked,pick_balancer first found]

theorem entry_selects (entry : Entry) : selectedBy (entry.run dispatcher surroundings session) =
      (arrivedAt dispatcher surroundings session).map (handlerOf dispatcher.handlerProvider) := by
  cases entry with
  | dispatch dest =>
    obtain ⟨tcp,-,-⟩ := copies_call dispatcher surroundings session () ((),()) dest
    rw [Entry.run,DefaultDispatcher.dispatch,tcp,call_selectedBy]
  | dispatchUdp =>
    obtain ⟨-,udp,-⟩ := copies_call dispatcher surroundings session () ((),()) web
    rw [Entry.run,udp,call_selectedBy]
  | dispatchLink dest =>
    obtain ⟨-,-,linked⟩ := copies_call dispatcher surroundings session () ((),()) dest
    rw [Entry.run,linked,call_selectedBy]

theorem report_chosen {s : System Handler} (reported : s.report surroundings session entry = some d) : GoesTo s.dispatcher.handlerProvider d d.chosen := by
  obtain ⟨decided,found,reported⟩ := Option.bind_eq_some_iff.mp reported
  obtain ⟨⟨tag,balancer⟩,routed,reported⟩ := Option.bind_eq_some_iff.mp reported
  obtain ⟨arrived,arrives,reported⟩ := Option.bind_eq_some_iff.mp reported
  obtain ⟨handler,selected,reported⟩ := Option.bind_eq_some_iff.mp reported
  cases reported
  have outcome : arrivedAt s.dispatcher surroundings session = some decided.picked.2.2 := by
    rw [arrivedAt,route_deciding]
    cases run : deciding s.dispatcher surroundings session with
    | error panic =>
      rw [run] at found
      cases found
    | ok other =>
      rw [run] at found
      cases found
      rfl
  rw [entry_selects,outcome] at selected
  cases selected
  rw [outcome] at arrives
  cases arrives
  have same := picked_routed routed
  exact ⟨same,congrArg (handlerOf s.dispatcher.handlerProvider) same⟩

theorem picked_provider (d : Deciding Handler) : d.picked.1.handlerProvider = d.dispatcher.handlerProvider := by
  obtain ⟨balancers,kept⟩ := pickOutboundTag_kept d.dispatcher d.session d.context d.nanos
  rw [Deciding.picked,kept]

theorem deciding_provider {dispatcher : DefaultDispatcher Handler} (decided : deciding dispatcher surroundings session = .ok d) :
    d.dispatcher.handlerProvider = dispatcher.handlerProvider := by
  obtain ⟨context,-,decided⟩ := checked_bind decided
  dsimp only at decided
  split at decided
  · obtain ⟨again,-,decided⟩ := checked_bind decided
    cases decided
    exact picked_provider ⟨dispatcher,session,context,surroundings.nanos 0⟩
  · cases decided
    rfl

theorem leaves_provider : (leaves dispatcher surroundings session).handlerProvider = dispatcher.handlerProvider := by
  rw [leaves]
  split
  · rename_i d decided
    rw [picked_provider,deciding_provider decided]
  · split
    · exact picked_provider ⟨dispatcher,session,_,surroundings.nanos 0⟩
    · rfl

structure Strategic (s : System Handler) : Prop where
  kept : s.dispatcher.handlerProvider = provider
  dispatched : ∀ d ∈ s.dispatched, GoesTo provider d d.chosen

end

theorem step_strategic (strategic : Strategic provider s) : Strategic provider (step s event) := by
  cases event with
  | setOverride tag target | clearOverride tag => exact ⟨strategic.kept,strategic.dispatched⟩
  | observe tag alive metrics =>
    rw [step,System.observe]
    split
    · exact strategic
    · exact ⟨strategic.kept,strategic.dispatched⟩
  | dispatch surroundings session entry =>
    refine ⟨(leaves_provider ..).trans strategic.kept,?_⟩
    intro d found
    rcases List.mem_append.mp found with before | last
    · exact strategic.dispatched d before
    · have goes := report_chosen (Option.mem_toList.mp last)
      rwa [strategic.kept] at goes

theorem run_strategic (events) : Strategic dispatcher.handlerProvider (run dispatcher events) := by
  have longer : ∀ s, Strategic dispatcher.handlerProvider s → Strategic dispatcher.handlerProvider (events.foldl step s) := by
    induction events with
    | nil => exact fun s strategic => strategic
    | cons event rest ih => exact fun s strategic => ih _ (step_strategic strategic)
  exact longer (.new dispatcher) ⟨rfl,fun _ found => absurd found List.not_mem_nil⟩

theorem balancer_override_iff (dispatcher : DefaultDispatcher Handler) (events : List Event) :
    (∀ d ∈ (run dispatcher events).dispatched, Obeys dispatcher.handlerProvider d) ↔
      ∀ d ∈ (run dispatcher events).dispatched, ∀ target, d.inForce = some target → d.chosen = target := by
  have strategic := run_strategic dispatcher events
  constructor
  · intro obeys d found target inForce
    have wanted := obeys d found
    rw [Obeys,inForce] at wanted
    exact (strategic.dispatched d found).1.symm.trans wanted.1
  · intro agree d found
    have goes := strategic.dispatched d found
    rw [Obeys]
    cases inForce : d.inForce with
    | none => exact goes
    | some target =>
      rw [agree d found target inForce] at goes
      exact goes

def turns : DefaultDispatcher String :=
  {direct with
    router := ⟨[⟨"",[fun _ => true],"","turns"⟩],.asIs⟩
    handlerProvider := ⟨some,none⟩
    balancers := (∅ : Balancers).insert "turns" (.new "turns" ["first","second"] .roundRobin none)}

theorem override_ignored : ∃ d ∈ (run turns [.setOverride "turns" "third",.dispatch calm aimed .dispatchUdp]).dispatched,
    d.inForce = some "third" ∧ d.handler = some "first" ∧ ¬ Obeys turns.handlerProvider d := by
  refine ⟨⟨"turns",some "third","first","first",some "first"⟩,?_,rfl,rfl,?_⟩
  · exact List.mem_singleton_self _
  · rintro ⟨wrong,-⟩
    exact absurd wrong (by decide)

end AstraCore.BalancerOverride
