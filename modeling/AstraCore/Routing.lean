import Mathlib.Data.List.AList
import AstraCore.NetAddress

namespace AstraCore.Routing
open NetAddress

inductive DomainStrategy where
  | asIs
  | ipIfNonMatch
  | ipOnDemand
deriving DecidableEq, Repr

structure RoutingContext where
  targetDomain : Option String := none
  targetIp : Option IpAddr := none
  targetPort : UInt16 := 0
  sourceIp : Option IpAddr := none
  sourcePort : UInt16 := 0
  inboundTag : String := ""
  network : String := ""
  protocol : Option String := none
  user : Option String := none
  attributes : AList (fun _ : String => String) := ∅

abbrev Matcher := RoutingContext → Bool

structure RouteRule where
  tag : String
  conditions : List Matcher
  outboundTag : String
  balancerTag : String

def RouteRule.matches (rule : RouteRule) (context : RoutingContext) : Bool :=
  if rule.conditions.isEmpty then false else rule.conditions.all (fun condition => condition context)

theorem matches_iff (rule : RouteRule) (context) : rule.matches context = true ↔
      rule.conditions ≠ [] ∧ ∀ condition ∈ rule.conditions, condition context = true := by
  unfold RouteRule.matches
  cases rule.conditions <;> simp

structure RouteResult where
  outboundTag : String
  ruleTag : String
deriving DecidableEq, Repr

-- A matching rule that names neither an outbound nor a balancer is passed over.
def RouteRule.pick (rule : RouteRule) (context : RoutingContext) : Option RouteResult :=
  if rule.matches context then
    if rule.outboundTag ≠ "" then some ⟨rule.outboundTag,rule.tag⟩
    else if rule.balancerTag ≠ "" then some ⟨rule.balancerTag,rule.tag⟩
    else none
  else none

structure Router where
  rules : List RouteRule
  domainStrategy : DomainStrategy

def Router.default : Router := ⟨[],.asIs⟩

def Router.pickRoute (router : Router) (context : RoutingContext) : Option RouteResult :=
  router.rules.findSome? (fun rule => rule.pick context)

inductive BalancerStrategy where
  | random
  | roundRobin
  | leastPing
  | leastLoad
deriving DecidableEq, Repr

structure LeastLoadConfig where
  costs : AList (fun _ : String => Float) := ∅
  baselines : List Float := []
  expected : Int32 := 0
  maxRtt : Int64 := 0
  tolerance : Float := 0

structure OutboundMetrics where
  rttMs : Float
  activeConns : Int32

-- The counter is shared by every clone of a balancer and wraps around as the machine word does.
structure Balancer where
  tag : String
  selector : List String
  strategy : BalancerStrategy
  fallbackTag : Option String
  counter : UInt64
  alive : Option (List String)
  metrics : AList (fun _ : String => OutboundMetrics)
  leastLoadConfig : LeastLoadConfig

def Balancer.new (tag : String) (selector : List String) (strategy : BalancerStrategy) (fallbackTag : Option String) :
    Balancer := ⟨tag,selector,strategy,fallbackTag,0,none,∅,{}⟩

section
variable (balancer : Balancer)

def Balancer.candidates : List String :=
  match balancer.alive with
  | some alive => balancer.selector.filter (fun tag => alive.contains tag)
  | none => balancer.selector

-- `f64::MAX`, `f64::min` and `f64::max`; the latter two prefer a number to a NaN.
def largest : Float := Float.ofBits 0x7FEFFFFFFFFFFFFF
def smaller (a b : Float) : Float := if a.isNaN then b else if b.isNaN then a else if a < b then a else b
def larger (a b : Float) : Float := if a.isNaN then b else if b.isNaN then a else if a < b then b else a

def Balancer.score (tag : String) : Float :=
  let config := balancer.leastLoadConfig
  let measured :=
    match balancer.metrics.lookup tag with
    | none => 0
    | some metrics =>
      let baseline := config.baselines.foldl smaller largest
      let ratio := metrics.rttMs / baseline
      let slow :=
        if metrics.rttMs > 0 ∧ config.baselines ≠ [] ∧ baseline > 0 ∧ ratio > 1 then (ratio - 1) * larger config.tolerance 0.1
        else 0
      let limited := if config.maxRtt > 0 ∧ metrics.rttMs > config.maxRtt.toFloat then slow + 100 else slow
      let load := metrics.activeConns.toFloat / config.expected.toFloat
      if config.expected > 0 ∧ load > 1 then limited + (load - 1) * 0.5 else limited
  match config.costs.lookup tag with
  | some cost => measured + cost
  | none => measured

def Balancer.leastLoaded (first : String) (candidates : List String) : String :=
  (candidates.foldl (fun best tag => if balancer.score tag < best.2 then (tag,balancer.score tag) else best)
    (first,largest)).1

-- `nanos` is the clock reading of the random strategy. The least-ping strategy takes turns as well.
def Balancer.pick (nanos : UInt32) : Balancer × Option String :=
  match balancer.candidates with
  | [] => (balancer,balancer.fallbackTag)
  | first :: rest =>
    let candidates := first :: rest
    match balancer.strategy with
    | .random => (balancer,candidates[nanos.toNat % candidates.length]?)
    | .roundRobin | .leastPing =>
      ({balancer with counter := balancer.counter + 1},candidates[balancer.counter.toNat % candidates.length]?)
    | .leastLoad => (balancer,some (balancer.leastLoaded first candidates))

end

end AstraCore.Routing
