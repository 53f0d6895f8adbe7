import Mathlib.Logic.Function.Basic
import AstraCore.MuxSessionRead
import AstraCore.MuxSessions

namespace AstraCore.MuxTeardown
open MuxFrame MuxServer MuxSessionRead Machine

-- How far the task around `read_loop` is. The sessions that were live when the loop ended are on record.
inductive Phase where
  | reading
  | ended (left : List Nat)
  | finished (left : List Nat)

def Phase.left : Phase → List Nat
  | .reading => []
  | .ended left => left
  | .finished left => left

-- Both ends keep the same tables, and only a client has a strategy. `readers` are the streams that read the channels.
structure Endpoint where
  strategy : Option MuxClientStrategy
  mux : Server
  readers : Nat → Reader
  phase : Phase

def Endpoint.new (strategy : Option MuxClientStrategy) : Endpoint := ⟨strategy,.new,fun _ => .new,.reading⟩

def live (server : Server) : List Nat := server.manager.sessions.entries.map Sigma.snd

-- A channel's sender is inside its session, which lives as long as the manager or a consumer holds it.
def connected (server : Server) (channel : Nat) : Bool :=
  (live server ++ server.held).any fun reference => (server.entries[reference]?.bind fun entry => entry.session.channels) = some channel

-- One round of `read_loop`. A client takes a New frame for the end of the session.
def Endpoint.receive (e : Endpoint) (frame : Frame) : Server :=
  if e.strategy.isSome ∧ frame.1.status = .new then {e.mux with manager := e.mux.manager.remove frame.1.sessionId}
  else e.mux.read frame

def Endpoint.openSession (e : Endpoint) (strategy : MuxClientStrategy) : Server :=
  match e.mux.manager.allocate strategy e.mux.entries.length with
  | some (manager,id) => {e.mux with
      manager
      entries := e.mux.entries ++ [⟨.new id,[]⟩]
      held := e.mux.held ++ [e.mux.entries.length]}
  | none => e.mux

def Endpoint.poll (e : Endpoint) (position room : Nat) : Endpoint :=
  match e.mux.channels[position]? with
  | none => e
  | some channel =>
    let (reader,queue,_) := pollRead (e.readers position) ⟨channel.data,connected e.mux position⟩ room
    {e with
      mux := {e.mux with channels := e.mux.channels.set position {channel with data := queue.chunks}}
      readers := Function.update e.readers position reader}

-- `breaks` is a frame that cannot be read. `release` is a consumer that drops its session, and `poll` one that reads.
inductive Event where
  | frame (frame : Frame)
  | breaks
  | finishes
  | openSession
  | get (id : UInt16)
  | attach (position : Nat)
  | release (position : Nat)
  | poll (channel room : Nat)
  | monitor

section
variable (e : Endpoint)

def Endpoint.on (event : MuxServer.Event) : Endpoint := {e with mux := (MuxServer.advance e.mux event).getD e.mux}

-- What cannot happen changes nothing: nobody reads frames behind the loop, a server opens no sessions, and a client gives
-- out none by their id.
def advance : Event → Option Endpoint
  | .frame frame =>
    match e.phase with
    | .reading => some {e with mux := e.receive frame}
    | _ => some e
  | .breaks =>
    match e.phase with
    | .reading => some {e with phase := .ended (live e.mux)}
    | _ => some e
  | .finishes =>
    match e.phase with
    | .ended left => some {e with phase := .finished left}
    | _ => some e
  | .openSession =>
    match e.strategy with
    | some strategy => some {e with mux := e.openSession strategy}
    | none => some e
  | .get id => if e.strategy.isSome then some e else some (e.on (.get id))
  | .attach position => some (e.on (.attach position))
  | .release position => some {e with mux := {e.mux with held := e.mux.held.eraseIdx position}}
  | .poll channel room => some (e.poll channel room)
  | .monitor =>
    match e.phase with
    | .finished _ => some e
    | _ => some (e.on .monitor)

structure TornDown (reference : Nat) : Prop where
  closed : ∃ entry, e.mux.entries[reference]? = some entry ∧ entry.session.closed = true
  dropped : ∀ (c : Nat) channel, e.mux.channels[c]? = some channel → channel.owner = reference → connected e.mux c = false
  reads : ∀ (c : Nat) channel, e.mux.channels[c]? = some channel → channel.owner = reference →
    ReadsOut (e.readers c) ⟨channel.data,connected e.mux c⟩

def Refuses : Prop :=
  ∀ strategy, e.strategy = some strategy → e.mux.manager.allocate strategy e.mux.entries.length = none

def Torn : Prop :=
  ∀ left, e.phase = .finished left → (∀ reference ∈ left, TornDown e reference) ∧ Refuses e

def Spent (manager : SessionManager) (strategy : MuxClientStrategy) : Prop :=
  manager.closed = true ∨ (0 < strategy.maxConcurrency ∧ strategy.maxConcurrency.toNat ≤ manager.size) ∨
    (0 < strategy.maxConnection ∧ strategy.maxConnection ≤ manager.nextId.toUInt32)

def Quiet : Event → Prop
  | .finishes => ∀ left, e.phase = .ended left → left = [] ∧ ∀ strategy, e.strategy = some strategy → Spent e.mux.manager strategy
  | _ => True

end

def Open (server : Server) (reference : Nat) (id : UInt16) : Prop :=
  ∃ entry, server.entries[reference]? = some entry ∧ entry.session.id = id ∧ entry.session.closed = false

structure Living (server : Server) (left : List Nat) : Prop where
  known : ∀ id reference, server.manager.sessions.lookup id = some reference → Open server reference id
  behind : ∀ reference ∈ left, ∃ id, Open server reference id

variable {server next : Server} {left : List Nat} {reference made : Nat} {id fresh gone : UInt16}

theorem Living.grows (living : Living server left) (kept : ∀ reference id, Open server reference id → Open next reference id)
    (known : ∀ id reference, next.manager.sessions.lookup id = some reference →
      server.manager.sessions.lookup id = some reference ∨ Open next reference id) : Living next left := by
  refine ⟨fun id reference found => ?_,fun reference member => ?_⟩
  · obtain older | opened := known id reference found
    · exact kept reference id (living.known id reference older)
    · exact opened
  · obtain ⟨id,open_⟩ := living.behind reference member
    exact ⟨id,kept reference id open_⟩

theorem open_append (open_ : Open server reference id) (entries) (same : next.entries = server.entries ++ entries) : Open next reference id := by
  obtain ⟨entry,found,rest⟩ := open_
  refine ⟨entry,?_,rest⟩
  rw [same,List.getElem?_append_left (List.getElem?_eq_some_iff.mp found).1]
  exact found

theorem open_last (same : next.entries = server.entries ++ [⟨.new id,since⟩]) : Open next server.entries.length id := by
  refine ⟨⟨.new id,since⟩,?_,rfl,rfl⟩
  rw [same]
  exact List.getElem?_concat_length

variable {sessions : AList fun _ : UInt16 => Nat}

theorem insert_lookup (found : (sessions.insert fresh made).lookup id = some reference) :
    sessions.lookup id = some reference ∨ (id = fresh ∧ reference = made) := by
  by_cases same : id = fresh
  · subst same
    rw [AList.lookup_insert] at found
    exact .inr ⟨rfl,(Option.some.inj found).symm⟩
  · rw [AList.lookup_insert_ne same] at found
    exact .inl found

theorem erase_lookup (found : (sessions.erase gone).lookup id = some reference) : id ≠ gone ∧ sessions.lookup id = some reference := by
  by_cases same : id = gone
  · subst same
    rw [AList.lookup_erase] at found
    cases found
  · rw [AList.lookup_erase_ne same] at found
    exact ⟨same,found⟩

theorem Living.removes (living : Living server left) (id) : Living {server with manager := server.manager.remove id} left :=
  living.grows (fun _ _ open_ => open_) (fun _ _ found => .inl (erase_lookup found).2)

theorem Living.saw (living : Living server left) (frame) : Living (server.saw frame) left := by
  refine living.grows (fun reference id open_ => ?_) (fun _ _ found => .inl found)
  obtain ⟨entry,found,rest⟩ := open_
  refine ⟨entry.saw frame,?_,rest⟩
  rw [Server.saw,List.getElem?_map,found]
  rfl

theorem Living.ends (living : Living server []) (id) : Living (server.endSession id) [] := by
  refine ⟨fun other reference found => ?_,fun _ member => by cases member⟩
  obtain ⟨apart,older⟩ := erase_lookup found
  obtain ⟨entry,there,same,closed⟩ := living.known other reference older
  refine ⟨entry,?_,same,closed⟩
  rw [Server.endSession]
  cases known : server.manager.get id with
  | none => exact there
  | some gone =>
    obtain ⟨ended,here,its,-⟩ := living.known id gone known
    have elsewhere : gone ≠ reference := by
      rintro rfl
      cases Option.some.inj (there.symm.trans here)
      exact apart (same.symm.trans its)
    rw [List.getElem?_modify,there]
    simp [elsewhere]

theorem Living.announces (living : Living server left) (id frame announced) : Living {server with
      entries := server.entries ++ [⟨.new id,[frame]⟩]
      manager := (server.manager.add id server.entries.length).1
      announced} left := by
  refine living.grows (fun _ _ open_ => open_append open_ _ rfl) (fun other reference found => ?_)
  rw [SessionManager.add] at found
  split at found
  · exact .inl found
  · obtain older | ⟨rfl,rfl⟩ := insert_lookup found
    · exact .inl older
    · exact .inr (open_last rfl)

theorem Living.sends (living : Living server left) (channel data) : Living (server.send channel data) left :=
  living.grows (fun _ _ open_ => open_) (fun _ _ found => .inl found)

theorem Living.reads (living : Living server []) (frame) : Living (server.read frame) [] := by
  have seen := living.saw frame
  change Living ((server.saw frame).dispatch frame) []
  rw [Server.dispatch]
  cases frame.1.status with
  | new => exact seen.announces _ frame _
  | keep =>
    dsimp only
    split
    · exact seen.sends _ _
    · exact seen
  | end_ => exact seen.ends _
  | keepAlive => exact seen

variable {e : Endpoint}

theorem Living.receives (living : Living e.mux []) (frame) : Living (e.receive frame) [] := by
  rw [Endpoint.receive]
  split
  · exact living.removes _
  · exact living.reads frame

theorem Living.opens (living : Living e.mux left) (strategy) : Living (e.openSession strategy) left := by
  rw [Endpoint.openSession]
  cases allocated : e.mux.manager.allocate strategy e.mux.entries.length with
  | none => exact living
  | some done =>
    obtain ⟨manager,fresh⟩ := done
    obtain ⟨rfl,rfl,-⟩ := MuxSessions.allocate_cases allocated
    refine living.grows (fun _ _ open_ => open_append open_ _ rfl) (fun id reference found => ?_)
    obtain older | ⟨rfl,rfl⟩ := insert_lookup found
    · exact .inl older
    · exact .inr (open_last rfl)

theorem attach_cases (step : MuxServer.advance server (.attach position) = some next) :
    next = server ∨ ∃ reference entry, server.entries[reference]? = some entry ∧ next = {server with
      entries := server.entries.set reference {entry with session := {entry.session with channels := some server.channels.length}}
      channels := server.channels ++ [⟨reference,[]⟩]} := by
  obtain ⟨reference,-,step⟩ := Option.bind_eq_some_iff.mp step
  obtain ⟨entry,there,step⟩ := Option.bind_eq_some_iff.mp step
  rw [Session.attachChannels] at step
  cases attached : entry.session.channels with
  | none =>
    rw [attached] at step
    cases step
    exact .inr ⟨reference,entry,there,rfl⟩
  | some channel =>
    rw [attached] at step
    cases step
    exact .inl rfl

theorem Living.attaches (living : Living server left) (step : MuxServer.advance server (.attach position) = some next) : Living next left := by
  obtain rfl | ⟨reference,entry,there,rfl⟩ := attach_cases step
  · exact living
  · refine living.grows (fun other id open_ => ?_) (fun _ _ found => .inl found)
    obtain ⟨before,found,rest⟩ := open_
    by_cases same : reference = other
    · subst same
      cases Option.some.inj (there.symm.trans found)
      exact ⟨_,List.getElem?_set_self (List.getElem?_eq_some_iff.mp there).1,rest⟩
    · exact ⟨before,(List.getElem?_set_ne same).trans found,rest⟩

theorem get_cases (step : MuxServer.advance server (.get id) = some next) : ∃ held, next = {server with held} := by
  rw [MuxServer.advance] at step
  split at step
  · split at step
    · cases step
      exact ⟨_,rfl⟩
    · cases step
      exact ⟨_,rfl⟩
  · cases step

theorem Living.gets (living : Living server left) (step : MuxServer.advance server (.get id) = some next) : Living next left := by
  obtain ⟨held,rfl⟩ := get_cases step
  exact living.grows (fun _ _ open_ => open_) (fun _ _ found => .inl found)

theorem idle_sessions (manager : SessionManager) : (manager.closeIfNoSessionAndIdle size count).1.sessions = manager.sessions := by
  rw [SessionManager.closeIfNoSessionAndIdle]
  split
  · rfl
  · split
    · rfl
    · split
      · rfl
      · rfl

theorem Living.monitors (living : Living server left) (step : MuxServer.advance server .monitor = some next) : Living next left := by
  cases step
  refine living.grows (fun _ _ open_ => open_) (fun id reference found => .inl ?_)
  rw [← found]
  exact congrArg (AList.lookup id) (idle_sessions server.manager).symm

theorem on_keeps (property : Server → Prop) (before : property e.mux) (event)
    (kept : ∀ next, MuxServer.advance e.mux event = some next → property next) : property (e.on event).mux := by
  change property ((MuxServer.advance e.mux event).getD e.mux)
  cases step : MuxServer.advance e.mux event with
  | none => exact before
  | some next => exact kept next step

theorem poll_cases (e : Endpoint) (position room) : ∃ channels readers, e.poll position room = {e with mux := {e.mux with channels},readers} := by
  rw [Endpoint.poll]
  split
  · exact ⟨_,_,rfl⟩
  · exact ⟨_,_,rfl⟩

theorem live_open (living : Living server left) (member : reference ∈ live server) : ∃ id, Open server reference id := by
  obtain ⟨⟨id,same⟩,listed,rfl⟩ := List.mem_map.mp member
  exact ⟨id,living.known id same (AList.mem_lookup_iff.mpr listed)⟩

def Endpoint.Living (e : Endpoint) : Prop := MuxTeardown.Living e.mux e.phase.left

theorem advance_living (e event next) (living : e.Living) (step : advance e event = some next) : next.Living := by
  obtain ⟨strategy,mux,readers,phase⟩ := e
  cases event with
  | frame frame =>
    cases phase with
    | reading =>
      cases step
      exact Living.receives living frame
    | ended left | finished left =>
      cases step
      exact living
  | breaks =>
    cases phase with
    | reading =>
      cases step
      exact ⟨living.known,fun _ member => live_open living member⟩
    | ended left | finished left =>
      cases step
      exact living
  | finishes =>
    cases phase with
    | reading | ended left | finished left =>
      cases step
      exact living
  | openSession =>
    cases strategy with
    | none =>
      cases step
      exact living
    | some strategy =>
      cases step
      exact Living.opens living strategy
  | get id =>
    cases strategy with
    | none =>
      cases step
      exact on_keeps (MuxTeardown.Living · _) living (.get id) (fun _ => living.gets)
    | some strategy =>
      cases step
      exact living
  | attach position =>
    cases step
    exact on_keeps (MuxTeardown.Living · _) living (.attach position) (fun _ => living.attaches)
  | release position =>
    cases step
    exact living.grows (fun _ _ open_ => open_) (fun _ _ found => .inl found)
  | poll channel room =>
    obtain ⟨channels,readers,same⟩ := poll_cases ⟨strategy,mux,readers,phase⟩ channel room
    rw [advance,same] at step
    cases step
    exact living.grows (fun _ _ open_ => open_) (fun _ _ found => .inl found)
  | monitor =>
    cases phase with
    | reading | ended left =>
      cases step
      exact on_keeps (MuxTeardown.Living · _) living .monitor (fun _ => living.monitors)
    | finished left =>
      cases step
      exact living

theorem new_living (strategy) : (Endpoint.new strategy).Living :=
  ⟨fun _ _ found => (by cases found),fun _ member => (by cases member)⟩

theorem allocate_none_iff : manager.allocate strategy reference = none ↔ Spent manager strategy := by
  rw [SessionManager.allocate]
  split
  · rename_i closed
    exact iff_of_true rfl (.inl closed)
  · rename_i working
    split
    · rename_i reached
      exact iff_of_true rfl (.inr reached)
    · rename_i below
      refine iff_of_false (fun absent => by cases absent) ?_
      rintro (closed | reached)
      · exact working closed
      · exact below reached

theorem refuses_iff : Refuses e ↔ ∀ strategy, e.strategy = some strategy → Spent e.mux.manager strategy :=
  forall_congr' fun _ => forall_congr' fun _ => allocate_none_iff

variable {next : Endpoint}

theorem finished_stays (finished : e.phase = .finished left) (refuses : Refuses e) (step : advance e event = some next) :
    next.phase = .finished left ∧ next.strategy = e.strategy ∧ next.mux.manager = e.mux.manager := by
  obtain ⟨strategy,mux,readers,phase⟩ := e
  cases finished
  cases event with
  | frame frame | breaks | finishes | monitor | release position =>
    cases step
    exact ⟨rfl,rfl,rfl⟩
  | openSession =>
    cases strategy with
    | none =>
      cases step
      exact ⟨rfl,rfl,rfl⟩
    | some strategy =>
      cases step
      refine ⟨rfl,rfl,?_⟩
      rw [Endpoint.openSession,refuses strategy rfl]
  | get id =>
    cases strategy with
    | none =>
      cases step
      refine ⟨rfl,rfl,on_keeps (·.manager = mux.manager) rfl _ ?_⟩
      intro next step
      obtain ⟨held,rfl⟩ := get_cases step
      rfl
    | some strategy =>
      cases step
      exact ⟨rfl,rfl,rfl⟩
  | attach position =>
    cases step
    refine ⟨rfl,rfl,on_keeps (·.manager = mux.manager) rfl _ ?_⟩
    intro next step
    obtain rfl | ⟨reference,entry,-,rfl⟩ := attach_cases step
    · rfl
    · rfl
  | poll channel room =>
    obtain ⟨channels,readers,same⟩ := poll_cases ⟨strategy,mux,readers,.finished left⟩ channel room
    rw [advance,same] at step
    cases step
    exact ⟨rfl,rfl,rfl⟩

theorem finished_before (other : event ≠ .finishes) (step : advance e event = some next)
    (finished : next.phase = .finished left) : e.phase = .finished left := by
  obtain ⟨strategy,mux,readers,phase⟩ := e
  cases event with
  | frame frame | breaks | monitor =>
    cases phase with
    | reading | ended left | finished left =>
      cases step
      cases finished <;> rfl
  | finishes => exact absurd rfl other
  | openSession | get id =>
    cases strategy with
    | none | some strategy =>
      cases step
      exact finished
  | attach position | release position =>
    cases step
    exact finished
  | poll channel room =>
    obtain ⟨channels,readers,same⟩ := poll_cases ⟨strategy,mux,readers,phase⟩ channel room
    rw [advance,same] at step
    cases step
    exact finished

theorem torn_none (living : Living e.mux left) (torn : ∀ reference ∈ left, TornDown e reference) : left = [] := by
  apply List.eq_nil_iff_forall_not_mem.mpr
  intro reference member
  obtain ⟨entry,there,closed⟩ := (torn reference member).closed
  obtain ⟨id,other,found,-,still⟩ := living.behind reference member
  cases Option.some.inj (there.symm.trans found)
  rw [closed] at still
  cases still

def Settled (e : Endpoint) : Prop := e.Living ∧ Torn e

theorem settled_stays (settled : Settled e) (other : event ≠ .finishes) (step : advance e event = some next) : Settled next := by
  obtain ⟨living,torn⟩ := settled
  refine ⟨advance_living e event next living step,?_⟩
  intro left finished
  have before := finished_before other step finished
  obtain ⟨down,refuses⟩ := torn left before
  obtain ⟨-,strategy,manager⟩ := finished_stays before refuses step
  have none_ : left = [] := by
    rw [Endpoint.Living,before] at living
    exact torn_none living down
  refine ⟨fun _ member => absurd member (by simp [none_]),?_⟩
  rw [refuses_iff] at refuses ⊢
  rwa [strategy,manager]

theorem finishes_iff (settled : Settled e) (step : advance e .finishes = some next) : Settled next ↔ Quiet e .finishes := by
  obtain ⟨strategy,mux,readers,phase⟩ := e
  have living := advance_living _ .finishes next settled.1 step
  cases phase with
  | reading | finished left =>
    cases step
    exact iff_of_true settled (fun _ ended => by cases ended)
  | ended left =>
    cases step
    constructor
    · rintro ⟨-,torn⟩ other same
      cases same
      obtain ⟨down,refuses⟩ := torn left rfl
      exact ⟨torn_none living down,(refuses_iff).mp refuses⟩
    · intro quiet
      obtain ⟨none_,spent⟩ := quiet left rfl
      refine ⟨living,?_⟩
      intro other same
      cases same
      exact ⟨fun _ member => absurd member (by simp [none_]),(refuses_iff).mpr spent⟩

theorem settled_iff (e event next) (settled : Settled e) (step : advance e event = some next) : Settled next ↔ Quiet e event := by
  cases event with
  | finishes => exact finishes_iff settled step
  | frame | breaks | openSession | get | attach | release | poll | monitor =>
    exact iff_of_true (settled_stays settled (fun same => by cases same) step) trivial

theorem advance_total (e event) : ∃ next, advance e event = some next := by
  cases event with
  | frame | breaks | finishes | monitor => cases phase : e.phase <;> exact ⟨_,by rw [advance,phase]⟩
  | openSession | get => cases strategy : e.strategy <;> simp [advance,strategy]
  | attach | release | poll => exact ⟨_,rfl⟩

theorem teardown_iff (strategy : Option MuxClientStrategy) (events : List Event) :
    Always advance Torn (.new strategy) events ↔ Meets advance Quiet (.new strategy) events := by
  have start := new_living strategy
  have unfinished : Torn (.new strategy) := fun _ finished => by cases finished
  rw [always_congr Endpoint.Living advance_living (fun e living => (and_iff_right living).symm) start]
  exact always_iff_meets (fun e event _ => advance_total e event) settled_iff ⟨start,unfinished⟩

theorem client_abandoned :
    ¬ Always advance Torn (.new (some .default)) [.openSession,.attach 0,.release 0,.breaks,.finishes] := by
  intro always
  have torn := always_last always rfl
  obtain ⟨entry,there,closed⟩ := ((torn [0] rfl).1 0 (by decide)).closed
  cases there
  cases closed

end AstraCore.MuxTeardown
