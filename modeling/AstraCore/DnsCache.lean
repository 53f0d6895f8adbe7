import AstraCore.CacheLog
import AstraCore.DnsServers
import AstraCore.KeyedList
import AstraCore.Machine

namespace AstraCore.Dns
open CheckedBytes NetAddress TextScan AddressText CacheLog List

-- Times are in nanoseconds.
def second : Nat := 1000000000

structure CacheRecord where
  answer : Answer
  expiry : Nat

structure CacheController where
  disableCache : Bool
  serveStale : Bool
  serveExpiredTtl : Nat
  records : AList (fun _ : Text => CacheRecord)

def CacheController.new (disableCache serveStale : Bool) (serveExpiredTtlSecs : Int) : CacheController :=
  ⟨disableCache,serveStale,serveExpiredTtlSecs.toNat * second,∅⟩

def secondsLeft (expiry now : Nat) : UInt32 :=
  let ttl := UInt32.ofNat ((expiry - now) / second)
  if ttl = 0 then 1 else ttl

def CacheController.find (cache : CacheController) (now : Nat) (key : Text) : Option (Answer × UInt32) :=
  if cache.disableCache then none
  else
    (cache.records.lookup key).bind fun record =>
      if now < record.expiry then some (record.answer,secondsLeft record.expiry now)
      else if cache.serveStale && (cache.serveExpiredTtl == 0 || decide (now - record.expiry ≤ cache.serveExpiredTtl)) then
        some (record.answer,1)
      else none

def CacheController.update (cache : CacheController) (now : Nat) (key : Text) (answer : Answer) (ttl : UInt32) : CacheController :=
  if cache.disableCache || answer.ips.isEmpty then cache
  else
    let ttl := if ttl = 0 then defaultTtl else ttl
    {cache with records := cache.records.insert key ⟨answer,now + ttl.toNat * second⟩}

inductive HostEntry where
  | ips (ips : List IpAddr)
  | domain (name : Text)

structure StaticHosts where
  entries : AList (fun _ : Text => HostEntry)

section
variable (toLowercase : Text → Text)

def normalized (domain : Text) : Text := toLowercase (domain.rdropWhile (· == '.'))

def StaticHosts.lookup (hosts : StaticHosts) (domain : Text) : Option HostEntry := hosts.entries.lookup (normalized toLowercase domain)

-- Replacements are followed for six names; `left` of them are still to be looked at.
def StaticHosts.lookupRecursive (hosts : StaticHosts) : Nat → Text → Option (Except Text (List IpAddr))
  | 0,_ => none
  | left + 1,domain =>
    match hosts.lookup toLowercase domain with
    | some (.ips ips) => some (.ok ips)
    | some (.domain replacement) => (hosts.lookupRecursive left replacement).or (some (.error replacement))
    | none => none

end

inductive Source where
  | servers (resolver : Resolver)
  | doh (url : Text) (queryStrategy : QueryStrategy)
  | doq (endpoint : Text) (queryStrategy : QueryStrategy)

def Source.queryStrategy : Source → QueryStrategy
  | .servers resolver => resolver.queryStrategy
  | .doh _ queryStrategy => queryStrategy
  | .doq _ queryStrategy => queryStrategy

def dohLoop (url domain : Text) (world : World) : List UInt16 → Lookup
  | [] => ⟨[],[],some (.error .emptyResponse)⟩
  | qtype :: rest =>
    let exchange := world 0 qtype
    let query : Query := ⟨none,.tcp,url,buildDnsQueryWithEdns domain qtype exchange.number none 100⟩
    match exchange.reply with
    | .failed e => ⟨[],[query],some (.error e)⟩
    | .received body time _ =>
      if exchange.status ≠ 200 then ⟨[],[query],some (.error (.network ("DoH status " ++ exchange.statusText)))⟩
      else
        match parsedAt time body with
        | none => ⟨[],[query],none⟩
        | some (.ok answer) => ⟨[],[query],some (.ok answer)⟩
        | some (.error _) =>
          let later := dohLoop url domain world rest
          ⟨[],query :: later.queries,later.result⟩

def replaceLoop (old new : Text) : Nat → Text → Text
  | 0,text => text
  | _ + 1,[] => []
  | fuel + 1,c :: rest =>
    if old <+: c :: rest then new ++ replaceLoop old new fuel ((c :: rest).drop old.length)
    else c :: replaceLoop old new fuel rest

def replace (old new text : Text) : Text := replaceLoop old new text.length text

def doqAddress (endpoint : Text) : Text :=
  replace ":853".toList ":53".toList (if ':' ∈ endpoint then endpoint else endpoint ++ ":853".toList)

def doqLoop (endpoint domain : Text) (world : World) : List UInt16 → Lookup
  | [] => ⟨[],[],some (.error .emptyResponse)⟩
  | qtype :: rest =>
    let exchange := world 0 qtype
    let query : Query := ⟨none,.tcp,doqAddress endpoint,framed (buildDnsQueryWithEdns domain qtype exchange.number none 0)⟩
    match resolveTcp exchange with
    | none => ⟨[],[query],none⟩
    | some (.ok answer) => ⟨[],[query],some (.ok answer)⟩
    | some (.error _) =>
      let later := doqLoop endpoint domain world rest
      ⟨[],query :: later.queries,later.result⟩

def Source.lookup (source : Source) (domain : Text) (world : World) : Lookup × Bool :=
  match source with
  | .servers resolver => resolver.lookup domain world
  | .doh url queryStrategy => (dohLoop url domain world (dnsQueryTypes queryStrategy),true)
  | .doq endpoint queryStrategy => (doqLoop endpoint domain world (dnsQueryTypes queryStrategy),true)

structure CachingResolver where
  source : Source
  hosts : StaticHosts
  disableCache : Bool

def cacheKey (domain : Text) (qtypes : List UInt16) : Text :=
  domain ++ '|' :: '[' :: ([',',' '].intercalate (qtypes.map fun qtype => decimal qtype.toNat) ++ [']'])

def CachingResolver.key (resolver : CachingResolver) (name : Text) : Text :=
  cacheKey name (dnsQueryTypes resolver.source.queryStrategy)

structure Running where
  cache : CacheController
  clock : Nat
  waiting : AList (fun _ : Nat => Text)
  log : List (Entry Text Answer)

def CachingResolver.start (resolver : CachingResolver) : Running := ⟨.new resolver.disableCache false 0,0,∅,[]⟩

-- A call begins and looks into the cache; or the servers are through with a waiting one. In the second case the clock is
-- read, at `stamp`, before the table is locked.
inductive Event where
  | resolve (task : Nat) (domain : Text) (now : Nat)
  | finish (task : Nat) (world : World) (stamp now : Nat)

def CachingResolver.find (resolver : CachingResolver) (s : Running) (task : Nat) (name : Text) (now : Nat) : Running :=
  match s.cache.find now (resolver.key name) with
  | some (answer,_) => {s with clock := now,log := s.log ++ [.looked now (resolver.key name) (some answer)]}
  | none => {s with
      clock := now
      waiting := s.waiting.insert task name
      log := s.log ++ [.looked now (resolver.key name) none]}

def CachingResolver.keep (resolver : CachingResolver) (s : Running) (name : Text) (answer : Answer) (stamp : Nat) : Running :=
  {s with
    cache := s.cache.update stamp (resolver.key name) answer defaultTtl
    log := s.log ++ [.kept stamp (resolver.key name) answer]}

def CachingResolver.advance (toLowercase : Text → Text) (resolver : CachingResolver) (s : Running) : Event → Option Running
  | .resolve task domain now =>
    if s.clock ≤ now ∧ s.waiting.lookup task = none then
      let lower := normalized toLowercase domain
      match resolver.hosts.lookupRecursive toLowercase 6 lower with
      | some (.ok _) => some {s with clock := now}
      | some (.error replacement) => some (resolver.find s task replacement now)
      | none => some (resolver.find s task lower now)
    else none
  | .finish task world stamp now =>
    if s.clock ≤ now ∧ stamp ≤ now then
      (s.waiting.lookup task).bind fun name =>
        let s := {s with clock := now,waiting := s.waiting.erase task}
        let found := resolver.source.lookup name world
        match found.1.result with
        | none => none
        | some (.error _) => some s
        | some (.ok answer) =>
          if answer.received ≤ stamp then some (if found.2 then resolver.keep s name answer stamp else s) else none
    else none

def Fresh (time : Nat) (answer : Answer) : Prop := ∀ record ∈ answer.records, time ≤ answer.received + record.ttl.toNat * second

instance (time : Nat) (answer : Answer) : Decidable (Fresh time answer) := List.decidableBAll _ _

def Present (outcome : Outcome) : Prop := ∀ answer, outcome = some (.ok answer) → answer.records ≠ []

theorem parsedAt_present : Present (parsedAt time data) := by
  intro answer found
  unfold parsedAt at found
  cases parsed : (parseDnsResponse data).run with
  | none => rw [parsed] at found; cases found
  | some outcome =>
    rw [parsed] at found
    cases outcome with
    | error e => cases found
    | ok pair =>
      cases found
      exact (parse_records parsed).1

theorem resolveTcp_present (exchange) : Present (resolveTcp exchange) := by
  intro answer found
  unfold resolveTcp at found
  split at found
  · cases found
  · simp only at found
    split at found
    · cases found
    · exact parsedAt_present answer found

theorem askTypes_present (expected) (found : (askTypes expected send qtypes).result = some (.ok answer)) : answer.records ≠ [] := by
  induction qtypes with
  | nil => cases found
  | cons qtype rest ih =>
    rw [askTypes] at found
    split at found
    · cases found
    · split at found
      · cases found
        assumption
      · exact ih found
    · cases later : (askTypes expected send rest).result with
      | none => rw [later] at found; cases found
      | some result =>
        rw [later] at found
        cases result with
        | error e => cases found
        | ok other =>
          cases found
          exact ih later

theorem serialQuery_answer (transport last) (found : (serialQuery transport ask servers last).result = some (.ok answer)) :
    ∃ server ∈ servers, (ask server).result = some (.ok answer) := by
  induction servers generalizing last with
  | nil => cases found
  | cons server rest ih =>
    rw [serialQuery] at found
    split at found
    · cases found
    · grind
    · obtain ⟨other,inside,result⟩ := ih _ found
      exact ⟨other,mem_cons_of_mem _ inside,result⟩

theorem mapM_result {items : List α} (all : items.mapM f = some results) (inside : result ∈ results) : ∃ item ∈ items, f item = some result := by
  induction items generalizing results with
  | nil =>
    cases all
    cases inside
  | cons first rest ih =>
    rw [mapM_cons] at all
    obtain ⟨here,found,all⟩ := Option.bind_eq_some_iff.mp all
    obtain ⟨others,later,all⟩ := Option.bind_eq_some_iff.mp all
    cases all
    rcases mem_cons.mp inside with rfl | inside
    · exact ⟨first,mem_cons_self,found⟩
    · obtain ⟨item,among,same⟩ := ih later inside
      exact ⟨item,mem_cons_of_mem _ among,same⟩

theorem parallelQuery_answer (ask servers) (found : (parallelQuery ask servers).result = some (.ok answer)) :
    ∃ server ∈ servers, (ask server).result = some (.ok answer) := by
  obtain ⟨results,all,first⟩ := Option.map_eq_some_iff.mp found
  unfold firstOk at first
  split at first
  · rename_i other some_
    cases first
    obtain ⟨result,inside,ok⟩ := exists_of_findSome?_eq_some some_
    obtain ⟨server,among,same⟩ := mapM_result all inside
    cases result with
    | error e => cases ok
    | ok value =>
      cases ok
      exact ⟨server,among,same⟩
  · cases first

theorem queryServers_present (resolver : Resolver) : Present (resolver.queryServers domain world servers).result := by
  intro answer found
  have asked : ∃ server ∈ servers, (resolver.ask domain world server).result = some (.ok answer) := by
    unfold Resolver.queryServers at found
    split at found
    · exact parallelQuery_answer _ _ found
    · exact serialQuery_answer _ _ found
  obtain ⟨server,-,result⟩ := asked
  exact askTypes_present _ result

theorem dohLoop_present (url) : Present (dohLoop url domain world qtypes).result := by
  intro answer found
  induction qtypes with
  | nil => cases found
  | cons qtype rest ih =>
    rw [dohLoop] at found
    split at found
    · cases found
    · split at found
      · cases found
      · split at found
        · cases found
        · rename_i parsed
          cases found
          exact parsedAt_present answer parsed
        · exact ih found

theorem doqLoop_present (endpoint) : Present (doqLoop endpoint domain world qtypes).result := by
  intro answer found
  induction qtypes with
  | nil => cases found
  | cons qtype rest ih =>
    rw [doqLoop] at found
    split at found
    · cases found
    · rename_i resolved
      cases found
      exact resolveTcp_present _ answer resolved
    · exact ih found

theorem lookup_present (source : Source) : Present (source.lookup domain world).1.result := by
  cases source with
  | servers resolver =>
    change Present (resolver.lookup domain world).1.result
    rw [lookup_asks]
    exact queryServers_present resolver
  | doh url queryStrategy => exact dohLoop_present url
  | doq endpoint queryStrategy => exact doqLoop_present endpoint

def life : Nat := defaultTtl.toNat * second

structure Follows (resolver : CachingResolver) (s : Running) : Prop where
  switched : s.cache.disableCache = resolver.disableCache
  strict : s.cache.serveStale = false
  stored : resolver.disableCache = false →
    ∀ key, s.cache.records.lookup key = (latest key s.log).map fun last => ⟨last.2,last.1 + life⟩
  explained : resolver.disableCache = false → Explained life s.log
  unserved : resolver.disableCache = true → ∀ time key answer, .looked time key (some answer) ∉ s.log

theorem start_follows (resolver) : Follows resolver resolver.start where
  switched := rfl
  strict := rfl
  stored _ _ := rfl
  explained _ := fun front _ _ _ _ same => by cases front <;> cases same
  unserved _ := fun _ _ _ inside => by cases inside

section
variable (follows : Follows resolver s)
include follows

theorem find_serves (now key) : (s.cache.find now key).map Prod.fst = if resolver.disableCache then none else serves life s.log now key := by
  unfold CacheController.find
  rw [follows.switched]
  cases off : resolver.disableCache with
  | true => rfl
  | false =>
    rw [if_neg Bool.false_ne_true,if_neg Bool.false_ne_true,follows.stored off key,follows.strict,serves]
    generalize life = span
    cases latest key s.log with
    | none => rfl
    | some last =>
      rw [Option.map_some,Option.bind_some,Option.bind_some]
      by_cases early : now < last.1 + span
      · rw [if_pos early,if_pos early,Option.map_some]
      · rw [if_neg early,if_neg early,Bool.false_and,if_neg Bool.false_ne_true,Option.map_none]

theorem find_follows (task name) : Follows resolver (resolver.find s task name now) := by
  have served := find_serves follows now (resolver.key name)
  have changes : ∃ waiting, resolver.find s task name now =
      ⟨s.cache,now,waiting,s.log ++ [.looked now (resolver.key name) ((s.cache.find now (resolver.key name)).map Prod.fst)]⟩ := by
    unfold CachingResolver.find
    cases s.cache.find now (resolver.key name) with
    | none | some hit => exact ⟨_,rfl⟩
  obtain ⟨waiting,changes⟩ := changes
  rw [changes,served]
  refine ⟨follows.switched,follows.strict,fun off key => ?_,fun off => ?_,fun off time key answer inside => ?_⟩
  · rw [latest_looked]
    exact follows.stored off key
  · exact explained_looked (follows.explained off) (by rw [off]; rfl)
  · rcases mem_append.mp inside with earlier | last
    · exact follows.unserved off time key answer earlier
    · rw [off] at last
      simp at last

theorem keep_follows (present : answer.records ≠ []) : Follows resolver (resolver.keep s name answer stamp) := by
  have some_ : answer.ips.isEmpty = false := by
    rw [Answer.ips,isEmpty_map,isEmpty_eq_false_iff]
    exact present
  refine ⟨?_,?_,fun off key => ?_,fun off => explained_kept (follows.explained off) stamp _ answer,fun off time key other inside => ?_⟩
  · simp only [CachingResolver.keep,CacheController.update]
    split <;> exact follows.switched
  · simp only [CachingResolver.keep,CacheController.update]
    split <;> exact follows.strict
  · have on := follows.switched.trans off
    simp only [CachingResolver.keep,CacheController.update,on,some_,Bool.or_false,Bool.false_eq_true,if_false,latest_kept,FiniteMap.lookup_inserted]
    by_cases same : key = resolver.key name
    · rw [if_pos same,if_pos same]
      rfl
    · rw [if_neg same,if_neg same]
      exact follows.stored off key
  · rcases mem_append.mp inside with earlier | last
    · exact follows.unserved off time key other earlier
    · simp at last

theorem Follows.elsewhere (clock) (waiting : AList (fun _ : Nat => Text)) : Follows resolver {s with clock := clock,waiting := waiting} :=
  ⟨follows.switched,follows.strict,follows.stored,follows.explained,follows.unserved⟩

end

theorem advance_follows {toLowercase : Text → Text} (follows : Follows resolver s)
    (step : resolver.advance toLowercase s event = some later) : Follows resolver later := by
  cases event with
  | resolve task domain now =>
    rw [CachingResolver.advance] at step
    split at step
    · simp only at step
      split at step
      · cases step
        exact follows.elsewhere now s.waiting
      · cases step
        exact find_follows follows task _
      · cases step
        exact find_follows follows task _
    · cases step
  | finish task world stamp now =>
    rw [CachingResolver.advance] at step
    split at step
    · obtain ⟨name,-,step⟩ := Option.bind_eq_some_iff.mp step
      have through := follows.elsewhere now (s.waiting.erase task)
      simp only at step
      split at step
      · cases step
      · cases step
        exact through
      · rename_i answer found
        split at step
        · have present := lookup_present _ answer found
          cases step
          split
          · exact keep_follows through present
          · exact through
        · cases step
    · cases step

theorem freshness_iff (toLowercase : Text → Text) (resolver : CachingResolver) (events : List Event) (s : Running)
    (path : Machine.run (resolver.advance toLowercase) resolver.start events = some s) :
    Good Fresh s.log ↔ resolver.disableCache = true ∨ Timely life Fresh s.log := by
  have follows := Machine.run_invariant (Follows resolver) (fun _ _ _ held step => advance_follows held step) (start_follows resolver) path
  cases off : resolver.disableCache with
  | true =>
    simp only [true_or,iff_true]
    intro time key answer inside
    exact absurd inside (follows.unserved off time key answer)
  | false =>
    simp only [Bool.false_eq_true,false_or]
    exact good_iff_timely (follows.explained off) Fresh

def anyDomain : NameServer := ⟨"192.0.2.1".toList,53,"udp".toList,[],[],none,false,[]⟩
def caching : CachingResolver := ⟨.servers ⟨.udp,[anyDomain],.useIp4,false,false,false⟩,⟨∅⟩,false⟩
def minute : Bytes := [0,0,0x81,0x80,0,0,0,1,0,0,0,0,0,0,1,0,1,0,0,0,60,0,4,192,0,2,7]
def minuteAnswer : Answer := ⟨[⟨.v4 ⟨[192,0,2,7],rfl⟩,60⟩],second⟩
def minuteWorld : World := fun _ _ => {number := 0,reply := .received minute second .timeout}

def askedAgain (time : Nat) : List Event :=
  [.resolve 0 "a".toList 0,.finish 0 minuteWorld second second,.resolve 1 "a".toList time]

def servedLog (time : Nat) : List (Entry Text Answer) :=
  [.looked 0 "a|[1]".toList none,.kept second "a|[1]".toList minuteAnswer,.looked time "a|[1]".toList (some minuteAnswer)]

theorem prompt_lookup_timely :
    ∃ s, Machine.run (caching.advance (fun text => text)) caching.start (askedAgain (30 * second)) = some s ∧
      s.log = servedLog (30 * second) ∧ (caching.disableCache = true ∨ Timely life Fresh s.log) := by
  have ran : (Machine.run (caching.advance (fun text => text)) caching.start (askedAgain (30 * second))).map Running.log =
      some (servedLog (30 * second)) := by decide +kernel
  obtain ⟨s,path,log⟩ := Option.map_eq_some_iff.mp ran
  refine ⟨s,path,log,(freshness_iff _ caching _ s path).mp ?_⟩
  intro time key answer inside
  rw [log] at inside
  simp only [servedLog,mem_cons,not_mem_nil,or_false,Entry.looked.injEq,reduceCtorEq,false_or,Option.some.injEq,
    and_false] at inside
  obtain ⟨rfl,-,rfl⟩ := inside
  decide +kernel

-- The record has been dead for thirty-nine seconds when it is served.
theorem dead_record_served :
    ∃ s, Machine.run (caching.advance (fun text => text)) caching.start (askedAgain (100 * second)) = some s ∧
      s.log = servedLog (100 * second) ∧ ¬ Good Fresh s.log := by
  have ran : (Machine.run (caching.advance (fun text => text)) caching.start (askedAgain (100 * second))).map Running.log =
      some (servedLog (100 * second)) := by decide +kernel
  obtain ⟨s,path,log⟩ := Option.map_eq_some_iff.mp ran
  refine ⟨s,path,log,fun good => ?_⟩
  have inside : .looked (100 * second) "a|[1]".toList (some minuteAnswer) ∈ s.log := by
    rw [log]
    simp [servedLog]
  have fresh := good _ _ _ inside
  revert fresh
  decide +kernel

end AstraCore.Dns
