import Mathlib.Data.List.Chain
import AstraCore.MuxServer
import AstraCore.MuxSessionIo

namespace AstraCore.MuxDial
open NetAddress MuxServer MuxSessionIo Machine List

structure Client where
  dest : Destination
  manager : SessionManager

-- A session is allocated and wrapped. Nothing goes over the connection.
def openMuxStream (client : Client) (reference : Nat) : Option (Client × UInt16) :=
  (client.manager.allocate .default reference).map fun done => ({client with manager := done.1},done.2)

structure Stream where
  dest : Destination
  client : Nat
  sessionId : UInt16

-- `clients` are all that were ever dialled and `muxClient` the one that is kept. A call that found no session there is
-- `dialling`, and `opened` once it has a session of a client of its own that is not stored yet.
structure Handler where
  clients : List Client
  muxClient : Option Nat
  dialling : List Destination
  opened : List Stream
  returned : List Stream

def Handler.new : Handler := ⟨[],none,[],[],[]⟩

-- Calls run side by side: the lock is held for the first look only, and for the store at the end. The peer ends sessions,
-- and the monitor closes what is idle.
inductive Event where
  | dial (dest : Destination)
  | dialTransport (call : Nat) (up : Bool)
  | store (call : Nat)
  | remove (client : Nat) (id : UInt16)
  | monitor (client : Nat) (checkSize : Nat) (checkCount : UInt16)

section
variable (h : Handler)

def Handler.onClient (i : Nat) (change : SessionManager → SessionManager) : Option Handler :=
  (h.clients[i]?).map fun client => {h with clients := h.clients.set i {client with manager := change client.manager}}

def Handler.reuse (dest : Destination) : Option Handler := do
  let i ← h.muxClient
  let client ← h.clients[i]?
  let (client,id) ← openMuxStream client h.returned.length
  some {h with clients := h.clients.set i client,returned := h.returned ++ [⟨dest,i,id⟩]}

def Handler.connect (dest : Destination) : Handler :=
  match openMuxStream ⟨dest,.new⟩ h.returned.length with
  | none => h
  | some (client,id) => {h with clients := h.clients ++ [client],opened := h.opened ++ [⟨dest,h.clients.length,id⟩]}

def advance : Event → Option Handler
  | .dial dest => some ((h.reuse dest).getD {h with dialling := h.dialling ++ [dest]})
  | .dialTransport call up => (h.dialling[call]?).map fun dest =>
    let h := {h with dialling := h.dialling.eraseIdx call}
    if up then h.connect dest else h
  | .store call => (h.opened[call]?).map fun stream =>
    {h with opened := h.opened.eraseIdx call,muxClient := some stream.client,returned := h.returned ++ [stream]}
  | .remove i id => h.onClient i fun manager => manager.remove id
  | .monitor i size count => h.onClient i fun manager => (manager.closeIfNoSessionAndIdle size count).1

def destinations (events : List Event) : List Destination :=
  events.filterMap fun
    | .dial dest => some dest
    | _ => none

def Handler.leads : List Destination := h.clients.map Client.dest

-- The client was dialled to the destination of the call, or whatever the stream writes first says where it goes.
def Apart (stream : Stream) : Prop :=
  h.leads[stream.client]? = some stream.dest ∨ ∀ task : Task, (task.frame stream.sessionId).1.target = some stream.dest

end

theorem apart_iff (h stream) : Apart h stream ↔ h.leads[stream.client]? = some stream.dest := by
  refine ⟨?_,.inl⟩
  rintro (dialled | said)
  · exact dialled
  · have silent := said .close
    cases silent

theorem map_set_same {clients : List Client} (found : clients[i]? = some client) (same : later.dest = client.dest) :
    (clients.set i later).map Client.dest = clients.map Client.dest := by
  obtain ⟨inside,rfl⟩ := List.getElem?_eq_some_iff.mp found
  rw [map_set,same,← getElem_map Client.dest (h := by rwa [length_map])]
  exact set_getElem_self _

inductive Step (h next : Handler) : Event → Prop where
  | reuses (kept : h.muxClient = some i) (leads : next.leads = h.leads) (client : next.muxClient = h.muxClient)
      (dialling : next.dialling = h.dialling) (opened : next.opened = h.opened)
      (returned : next.returned = h.returned ++ [⟨dest,i,sessionId⟩]) : Step h next (.dial dest)
  | waits (same : next = {h with dialling := h.dialling ++ [dest]}) : Step h next (.dial dest)
  | fails (same : next = {h with dialling := h.dialling.eraseIdx call}) : Step h next (.dialTransport call up)
  | connects (waiting : stream.dest ∈ h.dialling) (fresh : stream.client = h.leads.length) (leads : next.leads = h.leads ++ [stream.dest])
      (client : next.muxClient = h.muxClient) (dialling : next.dialling = h.dialling.eraseIdx call)
      (opened : next.opened = h.opened ++ [stream]) (returned : next.returned = h.returned) : Step h next (.dialTransport call up)
  | stores (waiting : stream ∈ h.opened) (leads : next.leads = h.leads) (client : next.muxClient = some stream.client)
      (dialling : next.dialling = h.dialling) (opened : next.opened = h.opened.eraseIdx call)
      (returned : next.returned = h.returned ++ [stream]) : Step h next (.store call)
  | changes (leads : next.leads = h.leads) (client : next.muxClient = h.muxClient) (dialling : next.dialling = h.dialling)
      (opened : next.opened = h.opened) (returned : next.returned = h.returned) : Step h next event

theorem openMuxStream_dest (opened : openMuxStream client reference = some (later,sessionId)) : later.dest = client.dest := by
  obtain ⟨done,-,same⟩ := Option.map_eq_some_iff.mp opened
  cases same
  rfl

theorem reuse_step {h : Handler} (reused : h.reuse dest = some onward) : Step h onward (.dial dest) := by
  obtain ⟨i,kept,reused⟩ := Option.bind_eq_some_iff.mp reused
  obtain ⟨client,found,reused⟩ := Option.bind_eq_some_iff.mp reused
  obtain ⟨⟨later,id⟩,opened,reused⟩ := Option.bind_eq_some_iff.mp reused
  cases reused
  exact .reuses kept (map_set_same found (openMuxStream_dest opened)) rfl rfl rfl rfl

theorem onClient_step {h : Handler} (changed : h.onClient i change = some later) : Step h later event := by
  obtain ⟨client,found,same⟩ := Option.map_eq_some_iff.mp changed
  cases same
  exact .changes (map_set_same found rfl) rfl rfl rfl rfl

theorem advance_step (taken : advance h event = some onward) : Step h onward event := by
  cases event with
  | dial dest =>
    cases taken
    cases reused : h.reuse dest with
    | none => exact .waits rfl
    | some later => exact reuse_step reused
  | dialTransport call up =>
    obtain ⟨dest,waiting,same⟩ := Option.map_eq_some_iff.mp taken
    subst same
    cases up with
    | false => exact .fails rfl
    | true =>
      change Step h (Handler.connect {h with dialling := h.dialling.eraseIdx call} dest) _
      rw [Handler.connect]
      split
      · exact .fails rfl
      · rename_i client id opened
        have same : [client].map Client.dest = [dest] := congrArg (fun d => [d]) (openMuxStream_dest opened)
        refine .connects ?_ ?_ ?_ rfl rfl rfl rfl
        · exact mem_of_getElem? waiting
        · rw [Handler.leads,length_map]
        · change (h.clients ++ [client]).map Client.dest = _
          rw [map_append,same]
          rfl
  | store call =>
    obtain ⟨stream,waiting,same⟩ := Option.map_eq_some_iff.mp taken
    cases same
    exact .stores (mem_of_getElem? waiting) rfl rfl rfl rfl rfl
  | remove i id =>
    have changed : h.onClient i (fun manager => manager.remove id) = some onward := taken
    exact onClient_step changed
  | monitor i size count =>
    have changed : h.onClient i (fun manager => (manager.closeIfNoSessionAndIdle size count).1) = some onward := taken
    exact onClient_step changed

theorem step_extends (step : Step h later event) : h.leads <+: later.leads ∧ h.returned <+: later.returned := by
  cases step with
  | reuses kept leads client dialling opened returned =>
    rw [leads,returned]
    exact ⟨prefix_rfl,prefix_append ..⟩
  | waits same =>
    subst same
    exact ⟨prefix_rfl,prefix_rfl⟩
  | fails same =>
    subst same
    exact ⟨prefix_rfl,prefix_rfl⟩
  | connects waiting fresh leads client dialling opened returned =>
    rw [leads,returned]
    exact ⟨prefix_append ..,prefix_rfl⟩
  | stores stream leads client dialling opened returned =>
    rw [leads,returned]
    exact ⟨prefix_rfl,prefix_append ..⟩
  | changes leads client dialling opened returned =>
    rw [leads,returned]
    exact ⟨prefix_rfl,prefix_rfl⟩

theorem run_extends (path : run advance h events = some last) : h.leads <+: last.leads ∧ h.returned <+: last.returned := by
  refine run_invariant (fun next => h.leads <+: next.leads ∧ h.returned <+: next.returned) ?_ ⟨prefix_rfl,prefix_rfl⟩ path
  intro middle event next earlier taken
  have later := step_extends (advance_step taken)
  exact ⟨earlier.1.trans later.1,earlier.2.trans later.2⟩

structure Known (asked : List Destination) (h : Handler) : Prop where
  leads : ∀ dest ∈ h.leads, dest ∈ asked
  dialling : ∀ dest ∈ h.dialling, dest ∈ asked
  client : ∀ i, h.muxClient = some i → i < h.leads.length
  opened : ∀ stream ∈ h.opened, stream.dest ∈ asked ∧ stream.client < h.leads.length
  returned : ∀ stream ∈ h.returned, stream.dest ∈ asked ∧ stream.client < h.leads.length

theorem known_more (known : Known asked h) (more) : Known (asked ++ more) h := by
  have mono : ∀ {dest}, dest ∈ asked → dest ∈ asked ++ more := mem_append_left more
  exact ⟨fun dest found => mono (known.leads dest found),fun dest found => mono (known.dialling dest found),known.client,
    fun stream found => ⟨mono (known.opened stream found).1,(known.opened stream found).2⟩,
    fun stream found => ⟨mono (known.returned stream found).1,(known.returned stream found).2⟩⟩

theorem forall_mem_concat {property : α → Prop} (before : ∀ x ∈ l, property x) (last : property y) : ∀ x ∈ l ++ [y], property x := by
  intro x found
  rcases mem_append.mp found with earlier | here
  · exact before x earlier
  · cases mem_singleton.mp here
    exact last

section
variable (known : Known asked h)
include known

theorem known_same (leads : later.leads = h.leads) (client : later.muxClient = h.muxClient)
    (dialling : later.dialling = h.dialling) (opened : later.opened = h.opened) (returned : later.returned = h.returned) : Known asked later where
  leads := by simpa only [leads] using known.leads
  dialling := by simpa only [dialling] using known.dialling
  client := by simpa only [client,leads] using known.client
  opened := by simpa only [opened,leads] using known.opened
  returned := by simpa only [returned,leads] using known.returned

theorem known_connects (waiting : stream.dest ∈ h.dialling) (fresh : stream.client = h.leads.length)
    (leads : later.leads = h.leads ++ [stream.dest]) (client : later.muxClient = h.muxClient) (dialling : later.dialling = h.dialling.eraseIdx call)
    (opened : later.opened = h.opened ++ [stream]) (returned : later.returned = h.returned) : Known asked later := by
  have asked := known.dialling _ waiting
  have longer : h.leads.length < later.leads.length := by
    rw [leads,length_append]
    exact Nat.lt_succ_self _
  refine ⟨?_,?_,?_,?_,?_⟩
  · rw [leads]
    exact forall_mem_concat known.leads asked
  · rw [dialling]
    exact fun dest found => known.dialling dest (mem_of_mem_eraseIdx found)
  · rw [client]
    exact fun i kept => Nat.lt_trans (known.client i kept) longer
  · rw [opened]
    refine forall_mem_concat (fun stream found => ⟨(known.opened stream found).1,Nat.lt_trans (known.opened stream found).2 longer⟩) ⟨asked,?_⟩
    rwa [fresh]
  · rw [returned]
    exact fun stream found => ⟨(known.returned stream found).1,Nat.lt_trans (known.returned stream found).2 longer⟩

theorem known_returns (here : stream.dest ∈ asked ∧ stream.client < h.leads.length) : Known asked {h with returned := h.returned ++ [stream]} :=
  {known with returned := forall_mem_concat known.returned here}

theorem known_stores (waiting : stream ∈ h.opened) (call) : Known asked {h with opened := h.opened.eraseIdx call,muxClient := some stream.client} where
  leads := known.leads
  dialling := known.dialling
  client i same := by
    cases same
    exact (known.opened stream waiting).2
  opened other found := known.opened other (mem_of_mem_eraseIdx found)
  returned := known.returned

theorem step_known (step : Step h later event) : Known (asked ++ destinations [event]) later := by
  have more := known_more known (destinations [event])
  cases step with
  | reuses kept leads client dialling opened returned =>
    exact known_same (known_returns more ⟨mem_append_right _ (mem_singleton_self _),known.client _ kept⟩) leads client dialling opened returned
  | waits same =>
    subst same
    exact {more with dialling := forall_mem_concat more.dialling (mem_append_right _ (mem_singleton_self _))}
  | fails same =>
    subst same
    exact {more with dialling := fun dest found => more.dialling dest (mem_of_mem_eraseIdx found)}
  | connects waiting fresh leads client dialling opened returned => exact known_connects more waiting fresh leads client dialling opened returned
  | stores waiting leads client dialling opened returned =>
    exact known_same (known_returns (known_stores more waiting _) (more.opened _ waiting)) leads client dialling opened returned
  | changes leads client dialling opened returned => exact known_same more leads client dialling opened returned

end

theorem run_known (path : run advance .new events = some last) : Known (destinations events) last := by
  refine run_history (fun history h => Known (destinations history) h) ?_ ?_ path
  · intro history h event next known taken
    have later := step_known known (advance_step taken)
    rwa [destinations,filterMap_append]
  · refine ⟨fun _ found => absurd found not_mem_nil,fun _ found => absurd found not_mem_nil,?_,
      fun _ found => absurd found not_mem_nil,fun _ found => absurd found not_mem_nil⟩
    intro i none
    cases none

def failing (dests : List Destination) : List Event := dests.flatMap fun dest => [.dial dest,.dialTransport 0 false]

theorem failing_run (dests) : run advance .new (failing dests) = some .new := by
  induction dests with
  | nil => rfl
  | cons dest rest ih => exact ih

theorem failing_destinations : destinations (failing dests) = dests := by
  induction dests with
  | nil => rfl
  | cons dest rest ih => exact congrArg (dest :: ·) ih

theorem dials_run (h) (dests : List Destination) : ∃ last, run advance h (dests.map .dial) = some last := by
  induction dests generalizing h with
  | nil => exact ⟨h,rfl⟩
  | cons dest rest ih => exact ih _

theorem second_reuses : ∃ last, run advance .new [.dial first,.dialTransport 0 true,.store 0,.dial second] = some last ∧ last.leads = [first] ∧
      (⟨second,0,2⟩ : Stream) ∈ last.returned := ⟨_,rfl,rfl,mem_append_right _ (mem_singleton_self _)⟩

theorem destinations_append : destinations (first ++ second) = destinations first ++ destinations second :=
  filterMap_append

theorem dials_destinations : destinations (dests.map .dial) = dests := by
  rw [destinations,filterMap_map]
  exact filterMap_some

theorem neighbours_equal (apart : ∀ events last, run advance .new events = some last → destinations events = front ++ first :: second :: back →
      ∀ stream ∈ last.returned, Apart last stream) : first = second := by
  obtain ⟨middle,pair,leads,returned⟩ := second_reuses
  obtain ⟨last,later⟩ := dials_run middle back
  have path := run_join (failing_run front) (run_join pair later)
  have asked : destinations (failing front ++ ([.dial first,.dialTransport 0 true,.store 0,.dial second] ++ back.map .dial)) =
      front ++ first :: second :: back := by
    rw [destinations_append,destinations_append,failing_destinations,dials_destinations]
    rfl
  obtain ⟨leadsKept,returnedKept⟩ := run_extends later
  have kept := (apart_iff ..).mp (apart _ last path asked _ (returnedKept.subset returned))
  rw [leads] at leadsKept
  obtain ⟨more,whole⟩ := leadsKept
  rw [← whole] at kept
  exact Option.some.inj kept

theorem mux_dial_apart_iff (dests : List Destination) :
    (∀ events last, run advance .new events = some last → destinations events = dests → ∀ stream ∈ last.returned, Apart last stream) ↔
      ∀ a ∈ dests, ∀ b ∈ dests, a = b := by
  constructor
  · intro apart
    have chain : dests.IsChain (· = ·) := by
      rw [isChain_iff_forall_rel_of_append_cons_cons]
      rintro first second front back rfl
      exact neighbours_equal apart
    intro a here b there
    exact (isChain_iff_pairwise.mp chain).forall_of_forall (fun _ _ => rfl) here there
  · rintro same events last path rfl stream returned
    have known := run_known path
    obtain ⟨asked,inside⟩ := known.returned stream returned
    rw [apart_iff,getElem?_eq_getElem inside,Option.some.injEq]
    exact same _ (known.leads _ (getElem_mem inside)) _ asked

def localhost (port : UInt16) : Destination := tcpDestination (.ipv4 ⟨[127,0,0,1],rfl⟩) ⟨port⟩

theorem second_goes_to_first : ∃ last,
    run advance .new [.dial (localhost 80),.dialTransport 0 true,.store 0,.dial (localhost 443)] = some last ∧
      last.leads = [localhost 80] ∧ last.returned.map (fun stream => (stream.dest,stream.client)) = [(localhost 80,0),(localhost 443,0)] ∧
      ¬ ∀ stream ∈ last.returned, Apart last stream := by
  obtain ⟨last,path,leads,second⟩ := second_reuses
  refine ⟨last,path,leads,?_,?_⟩
  · cases path
    rfl
  · intro apart
    have wrong := (apart_iff ..).mp (apart _ second)
    rw [leads] at wrong
    exact absurd (Option.some.inj wrong) (by decide)

end AstraCore.MuxDial
