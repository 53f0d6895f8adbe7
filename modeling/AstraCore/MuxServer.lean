import Mathlib.Data.List.AList
import AstraCore.Machine
import AstraCore.MuxFrame

namespace AstraCore.MuxServer
open CheckedBytes MuxFrame Machine

structure MuxClientStrategy where
  maxConcurrency : UInt32
  maxConnection : UInt32
deriving DecidableEq, Repr

def MuxClientStrategy.default : MuxClientStrategy := ⟨8,0⟩

-- A session is shared by reference. A reference is a position in a table that only grows, and
-- `channels` holds the number of the data channel attached to it.
structure Session where
  id : UInt16
  closed : Bool
  channels : Option Nat
deriving DecidableEq, Repr

def Session.new (id : UInt16) : Session := ⟨id,false,none⟩
section
variable (session : Session)

def Session.close : Session := {session with closed := true}

def Session.attachChannels (channel : Nat) : Session × Bool :=
  match session.channels with
  | some _ => (session,false)
  | none => ({session with channels := some channel},true)

def Session.takeChannels : Session := {session with channels := none}

end

structure SessionManager where
  sessions : AList (fun _ : UInt16 => Nat)
  nextId : UInt16
  closed : Bool

def SessionManager.new : SessionManager := ⟨∅,0,false⟩
section
variable (manager : SessionManager)

def SessionManager.size : Nat := manager.sessions.keys.length
def SessionManager.totalAllocated : UInt16 := manager.nextId

def SessionManager.allocate (strategy : MuxClientStrategy) (reference : Nat) :
    Option (SessionManager × UInt16) :=
  if manager.closed then none
  else if (strategy.maxConcurrency > 0 ∧ manager.size ≥ strategy.maxConcurrency.toNat) ∨
      (strategy.maxConnection > 0 ∧ manager.nextId.toUInt32 ≥ strategy.maxConnection) then none
  else
    let id := manager.nextId + 1
    some ({manager with nextId := id,sessions := manager.sessions.insert id reference},id)

def SessionManager.add (id : UInt16) (reference : Nat) : SessionManager × Bool :=
  if manager.closed then (manager,false) else ({manager with sessions := manager.sessions.insert id reference},true)

def SessionManager.remove (id : UInt16) : SessionManager :=
  {manager with sessions := manager.sessions.erase id}

def SessionManager.get (id : UInt16) : Option Nat := manager.sessions.lookup id

def SessionManager.closeIfNoSessionAndIdle (checkSize : Nat) (checkCount : UInt16) :
    SessionManager × Bool :=
  if manager.closed then (manager,true)
  else if manager.size ≠ 0 then (manager,false)
  else if checkSize ≠ 0 ∨ checkCount ≠ manager.nextId then (manager,false)
  else ({manager with closed := true},true)

end

-- A session together with every frame read from its New frame on, and a data channel with the
-- session it was attached to. Frames and owner are records that no operation reads.
structure Entry where
  session : Session
  since : List Frame

structure Channel where
  owner : Nat
  data : List Bytes

structure Server where
  manager : SessionManager
  entries : List Entry
  channels : List Channel
  announced : List UInt16
  held : List Nat

def Server.new : Server := ⟨.new,[],[],[],[]⟩

def Entry.saw (frame : Frame) (entry : Entry) : Entry := {entry with since := entry.since ++ [frame]}

section
variable (server : Server)

def Server.send (channel : Nat) (data : Bytes) : Server :=
  {server with channels := server.channels.modify channel fun c => {c with data := c.data ++ [data]}}

def Server.channelOf (id : UInt16) : Option Nat := do
  let reference ← server.manager.get id
  let entry ← server.entries[reference]?
  entry.session.channels

def Server.endSession (id : UInt16) : Server :=
  let entries := match server.manager.get id with
    | some reference =>
      server.entries.modify reference fun entry => {entry with session := entry.session.takeChannels.close}
    | none => server.entries
  {server with entries,manager := server.manager.remove id}

-- One round of `read_loop`. The data of a New frame is not looked at.
def Server.dispatch (frame : Frame) : Server :=
  let id := frame.1.sessionId
  match frame.1.status with
  | .new =>
    {server with
      entries := server.entries ++ [⟨.new id,[frame]⟩]
      manager := (server.manager.add id server.entries.length).1
      announced := server.announced ++ [id]}
  | .keep =>
    match server.channelOf id,frame.2 with
    | some channel,some data => server.send channel data
    | _,_ => server
  | .end_ => server.endSession id
  | .keepAlive => server

def Server.read (frame : Frame) : Server :=
  {server with entries := server.entries.map (Entry.saw frame)}.dispatch frame

inductive Event where
  | frame (frame : Frame)
  | get (id : UInt16)
  | attach (position : Nat)
  | monitor

-- A consumer that was told an id asks the manager for the session and later attaches a channel
-- to what it got; frames may be read in between. `monitor` is one tick of `monitor_loop`.
def advance : Event → Option Server
  | .frame frame => some (server.read frame)
  | .get id =>
    if id ∈ server.announced then
      match server.manager.get id with
      | some reference => some {server with held := server.held ++ [reference]}
      | none => some server
    else none
  | .attach position => do
    let reference ← server.held[position]?
    let entry ← server.entries[reference]?
    match entry.session.attachChannels server.channels.length with
    | (session,true) => some {server with
        entries := server.entries.set reference {entry with session}
        channels := server.channels ++ [⟨reference,[]⟩]}
    | (_,false) => some server
  | .monitor =>
    some {server with
      manager := (server.manager.closeIfNoSessionAndIdle server.manager.size server.manager.totalAllocated).1}

-- What the consumer of a session is owed: the data of the frames with its id, from its New frame
-- up to its End frame.
def ends (id : UInt16) (frame : Frame) : Bool := frame.1.sessionId = id ∧ frame.1.status = .end_
def ownData (id : UInt16) (frame : Frame) : Bytes := if frame.1.sessionId = id then frame.2.getD [] else []

def owed (id : UInt16) (since : List Frame) : Bytes :=
  (since.takeWhile fun frame => !ends id frame).flatMap (ownData id)

def Entry.owed (entry : Entry) : Bytes := MuxServer.owed entry.session.id entry.since
def Entry.ended (entry : Entry) : Bool := entry.since.any (ends entry.session.id)

-- The runs in which nothing is dropped: no id is announced again while it is live, a consumer
-- attaches before any byte of its session was read, and a KeepAlive frame carries no bytes.
def Carried : Event → Prop
  | .frame frame =>
    (frame.1.status = .new → frame.1.sessionId ∉ server.manager.sessions) ∧
      (frame.1.status = .keepAlive → frame.2.getD [] = [])
  | .attach position =>
    ∀ reference entry, server.held[position]? = some reference → server.entries[reference]? = some entry → entry.owed = []
  | _ => True

end

theorem owed_snoc (id) : owed id (since ++ [frame]) = if since.any (ends id) ∨ ends id frame then owed id since else owed id since ++ ownData id frame := by
  induction since with
  | nil =>
    by_cases last : ends id frame
    · simp [owed,last]
    · simp [owed,last]
  | cons first rest ih =>
    by_cases stop : ends id first
    · simp [owed,stop]
    · simp only [owed] at ih
      simp only [owed,List.cons_append,List.takeWhile_cons,stop,List.any_cons,Bool.not_false,if_true,List.flatMap_cons,ih,Bool.false_or]
      split
      · rfl
      · rw [List.append_assoc]

variable {id : UInt16}

theorem other_quiet (other : frame.1.sessionId ≠ id) : ends id frame = false ∧ ownData id frame = [] := by
  simp [ends,ownData,other]

structure Later (frame : Frame) (before after : Entry) : Prop where
  id : after.session.id = before.session.id
  since : after.since = before.since ++ [frame]

theorem saw_later (frame entry) : Later frame entry (entry.saw frame) := ⟨rfl,rfl⟩

section
variable (later : Later frame before after)
include later

theorem Later.ended : after.ended = (before.ended || ends before.session.id frame) := by
  simp [Entry.ended,later.id,later.since]

theorem Later.owed_still (quiet : before.ended ∨ ends before.session.id frame ∨ ownData before.session.id frame = []) : after.owed = before.owed := by
  rw [Entry.owed,later.id,later.since,owed_snoc]
  split
  · rfl
  · rename_i running
    rcases quiet with ended | last | nothing
    · exact absurd (.inl ended) running
    · exact absurd (.inr last) running
    · rw [nothing,List.append_nil]
      rfl

theorem Later.owed_more (running : before.ended = false)
    (more : ends before.session.id frame = false) : after.owed = before.owed ++ ownData before.session.id frame := by
  rw [Entry.owed,later.id,later.since,owed_snoc,if_neg]
  · rfl
  · rintro (ended | last)
    · exact Bool.noConfusion (running.symm.trans ended)
    · exact Bool.noConfusion (more.symm.trans last)

end

-- A session somebody may still count on: it is over, or the manager knows it under its id.
def Current (server : Server) (reference : Nat) (entry : Entry) : Prop :=
  server.entries[reference]? = some entry ∧
    (entry.ended ∨ server.manager.sessions.lookup entry.session.id = some reference)

structure Serves (server : Server) : Prop where
  live : ∀ (id : UInt16) (reference : Nat), server.manager.sessions.lookup id = some reference →
    ∃ entry : Entry, server.entries[reference]? = some entry ∧ entry.session.id = id ∧ entry.ended = false
  known : ∀ reference ∈ server.held, ∃ entry, Current server reference entry
  served : ∀ (c : Nat) (channel : Channel), server.channels[c]? = some channel →
    ∃ entry : Entry, Current server channel.owner entry ∧ channel.data.flatten = entry.owed ∧
      (entry.ended ∨ entry.session.channels = some c)
  owned : ∀ (reference : Nat) (entry : Entry) (c : Nat), server.entries[reference]? = some entry →
    entry.session.channels = some c → ∃ channel : Channel, server.channels[c]? = some channel ∧ channel.owner = reference

theorem new_serves : Serves .new := by
  refine ⟨?_,by simp [Server.new],by simp [Server.new],by simp [Server.new]⟩
  intro id reference found
  cases found

theorem Current.running (current : Current server reference entry) (running : entry.ended = false) :
    server.manager.sessions.lookup entry.session.id = some reference :=
  current.2.resolve_left (by simp [running])

variable {reference : Nat}

theorem get_saw {entries : List Entry} (found : entries[reference]? = some entry) (frame) :
    (entries.map (Entry.saw frame))[reference]? = some (entry.saw frame) := by
  rw [List.getElem?_map,found]
  rfl

theorem get_of_saw {entries : List Entry} (found : (entries.map (Entry.saw frame))[reference]? = some entry) :
    ∃ before, entries[reference]? = some before ∧ entry = before.saw frame := by
  rw [List.getElem?_map] at found
  obtain ⟨before,there,rfl⟩ := Option.map_eq_some_iff.mp found
  exact ⟨before,there,rfl⟩

def Server.saw (server : Server) (frame : Frame) : Server := {server with entries := server.entries.map (Entry.saw frame)}

theorem Current.saw (current : Current server reference entry) (frame) : Current (server.saw frame) reference (entry.saw frame) := by
  refine ⟨get_saw current.1 frame,?_⟩
  rw [(saw_later frame entry).ended]
  exact current.2.imp_left fun past => by simp [past]

section
variable (serves : Serves server) (running : ∀ id reference, server.manager.sessions.lookup id = some reference → ends id frame = false)
include serves running

theorem Serves.live_saw (id) (reference) (found : server.manager.sessions.lookup id = some reference) :
    ∃ entry, (server.saw frame).entries[reference]? = some entry ∧ entry.session.id = id ∧ entry.ended = false := by
  obtain ⟨entry,there,rfl,still⟩ := serves.live id reference found
  refine ⟨entry.saw frame,get_saw there frame,rfl,?_⟩
  rw [(saw_later frame entry).ended,still,running _ reference found]
  rfl

theorem Serves.passes (nothing : ∀ (id : UInt16) (reference : Nat) (entry : Entry) c, server.manager.sessions.lookup id = some reference →
      server.entries[reference]? = some entry → entry.session.channels = some c → ownData id frame = []) :
    Serves (server.saw frame) := by
  refine ⟨serves.live_saw running,?_,?_,?_⟩
  · intro reference member
    obtain ⟨entry,current⟩ := serves.known reference member
    exact ⟨_,current.saw frame⟩
  · intro c channel found
    obtain ⟨entry,current,data,state⟩ := serves.served c channel found
    refine ⟨_,current.saw frame,?_,?_⟩
    · rw [data]
      refine ((saw_later frame entry).owed_still ?_).symm
      cases past : entry.ended with
      | true => exact .inl rfl
      | false =>
        exact .inr (.inr (nothing _ _ entry c (current.running past) current.1 (state.resolve_left (by simp [past]))))
    · rw [(saw_later frame entry).ended]
      exact state.imp_left fun past => by simp [past]
  · intro reference entry c found attached
    obtain ⟨before,there,rfl⟩ := get_of_saw found
    exact serves.owned reference before c there attached

end

section
variable {server : Server}

theorem channelOf_some (found : server.channelOf id = some c) :
    ∃ reference entry, server.manager.sessions.lookup id = some reference ∧ server.entries[reference]? = some entry ∧ entry.session.channels = some c := by
  obtain ⟨reference,known,found⟩ := Option.bind_eq_some_iff.mp found
  obtain ⟨entry,there,attached⟩ := Option.bind_eq_some_iff.mp found
  exact ⟨reference,entry,known,there,attached⟩

theorem channelOf_saw (server : Server) (frame id) : (server.saw frame).channelOf id = server.channelOf id := by
  simp only [Server.channelOf,Server.saw]
  cases server.manager.get id with
  | none => rfl
  | some reference =>
    cases there : server.entries[reference]? with
    | none => simp [there]
    | some entry => simp [there,Entry.saw]

theorem Serves.delivers (serves : Serves server) (keep : frame.1.status = .keep) (carries : frame.2 = some data)
    (attached : server.channelOf frame.1.sessionId = some c) : Serves ((server.saw frame).send c data) := by
  obtain ⟨reference,entry,known,there,linked⟩ := channelOf_some attached
  have running : ∀ id reference, server.manager.sessions.lookup id = some reference → ends id frame = false := by
    simp [ends,keep]
  obtain ⟨own,same,owner⟩ := serves.owned reference entry c there linked
  obtain ⟨_,there',id,still⟩ := serves.live _ reference known
  cases Option.some.inj (there.symm.trans there')
  refine ⟨serves.live_saw running,?_,?_,?_⟩
  · intro other member
    obtain ⟨entry,current⟩ := serves.known other member
    exact ⟨_,current.saw frame⟩
  · intro position channel found
    simp only [Server.send,List.getElem?_modify] at found
    obtain ⟨old,before,changed⟩ := Option.map_eq_some_iff.mp found
    obtain ⟨target,current,held,state⟩ := serves.served position old before
    have owners : channel.owner = old.owner := by
      rw [← changed]
      split <;> rfl
    rw [owners]
    refine ⟨_,current.saw frame,?_,?_⟩
    · by_cases here : c = position
      · subst here
        cases Option.some.inj (same.symm.trans before)
        rw [owner] at current
        cases Option.some.inj (there.symm.trans current.1)
        rw [if_pos rfl] at changed
        rw [← changed,List.flatten_append,held,(saw_later frame entry).owed_more still (by rw [id]; exact running _ _ known),id,ownData,carries]
        simp
      · rw [if_neg here] at changed
        rw [← changed,held]
        refine ((saw_later frame target).owed_still ?_).symm
        cases past : target.ended with
        | true => exact .inl rfl
        | false =>
          refine .inr (.inr (other_quiet ?_).2)
          intro sameId
          have lookup := current.running past
          rw [← sameId,known] at lookup
          have sameReference := Option.some.inj lookup
          have sameEntry := current.1
          rw [← sameReference,there] at sameEntry
          cases Option.some.inj sameEntry
          exact here (Option.some.inj (linked.symm.trans (state.resolve_left (by simp [past]))))
    · rw [(saw_later frame target).ended]
      exact state.imp_left fun past => by simp [past]
  · intro other found position after attached
    obtain ⟨before,there,rfl⟩ := get_of_saw after
    obtain ⟨channel,here,belongs⟩ := serves.owned other before position there attached
    refine ⟨if c = position then {channel with data := channel.data ++ [data]} else channel,?_,?_⟩
    · simp [Server.send,Server.saw,List.getElem?_modify,here]
    · split <;> exact belongs

theorem add_lookup_ne (manager : SessionManager) (other : id ≠ fresh) :
    (manager.add fresh reference).1.sessions.lookup id = manager.sessions.lookup id := by
  unfold SessionManager.add
  split
  · rfl
  · exact AList.lookup_insert_ne other

theorem Serves.announces (serves : Serves server) (opened : frame.1.status = .new)
    (free : frame.1.sessionId ∉ server.manager.sessions) : Serves {server with
      entries := server.entries ++ [⟨.new frame.1.sessionId,[frame]⟩]
      manager := (server.manager.add frame.1.sessionId server.entries.length).1
      announced := server.announced ++ [frame.1.sessionId]} := by
  have absent := AList.lookup_eq_none.mpr free
  have kept : ∀ (id : UInt16) reference, server.manager.sessions.lookup id = some reference →
      (server.manager.add frame.1.sessionId server.entries.length).1.sessions.lookup id = some reference := by
    intro id reference found
    have other : id ≠ frame.1.sessionId := fun same => by rw [same,absent] at found; cases found
    exact (add_lookup_ne _ other).trans found
  have older : ∀ (reference : Nat) entry, server.entries[reference]? = some entry →
      (server.entries ++ [⟨.new frame.1.sessionId,[frame]⟩])[reference]? = some entry := by
    intro reference entry found
    obtain ⟨inside,-⟩ := List.getElem?_eq_some_iff.mp found
    rw [List.getElem?_append_left inside,found]
  have still : ∀ reference entry, Current server reference entry →
      (server.entries ++ [⟨.new frame.1.sessionId,[frame]⟩])[reference]? = some entry ∧ (entry.ended ∨
        (server.manager.add frame.1.sessionId server.entries.length).1.sessions.lookup entry.session.id = some reference) :=
    fun reference entry current => ⟨older reference entry current.1,current.2.imp_right (kept _ reference)⟩
  refine ⟨?_,?_,?_,?_⟩
  · intro id reference found
    by_cases fresh : id = frame.1.sessionId
    · subst fresh
      unfold SessionManager.add at found
      split at found
      · rw [absent] at found
        cases found
      · rw [AList.lookup_insert] at found
        cases found
        exact ⟨_,List.getElem?_concat_length,rfl,by simp [Entry.ended,ends,opened]⟩
    · rw [add_lookup_ne _ fresh] at found
      obtain ⟨entry,there,same,running⟩ := serves.live id reference found
      exact ⟨entry,older reference entry there,same,running⟩
  · intro reference member
    obtain ⟨entry,current⟩ := serves.known reference member
    exact ⟨entry,still reference entry current⟩
  · intro c channel found
    obtain ⟨entry,current,data,state⟩ := serves.served c channel found
    exact ⟨entry,still channel.owner entry current,data,state⟩
  · intro reference entry c found attached
    rcases Nat.lt_or_ge reference server.entries.length with inside | last
    · rw [List.getElem?_append_left inside] at found
      exact serves.owned reference entry c found attached
    · rw [List.getElem?_append_right last] at found
      have fresh := List.mem_of_getElem? found
      rw [List.mem_singleton.mp fresh] at attached
      cases attached

theorem end_entry (found : server.entries[reference]? = some entry) (frame)
    (id) : ∃ after, ((server.saw frame).endSession id).entries[reference]? = some after ∧ Later frame entry after ∧
      (server.manager.sessions.lookup id ≠ some reference → after.session = entry.session) := by
  have seen := get_saw found frame
  simp only [Server.endSession,Server.saw,SessionManager.get]
  cases known : server.manager.sessions.lookup id with
  | none => exact ⟨_,seen,saw_later frame entry,fun _ => rfl⟩
  | some live =>
    rw [List.getElem?_modify,seen]
    by_cases here : live = reference
    · subst here
      exact ⟨_,rfl,⟨by simp [Entry.saw,Session.takeChannels,Session.close],by simp [Entry.saw]⟩,fun other => absurd rfl other⟩
    · refine ⟨entry.saw frame,by simp [here],saw_later frame entry,fun _ => rfl⟩

theorem entry_of_end (found : ((server.saw frame).endSession id).entries[reference]? = some after) (attached : after.session.channels = some c) :
    ∃ entry, server.entries[reference]? = some entry ∧ entry.session.channels = some c := by
  simp only [Server.endSession,Server.saw,SessionManager.get] at found
  cases known : server.manager.sessions.lookup id with
  | none =>
    rw [known] at found
    obtain ⟨entry,there,rfl⟩ := get_of_saw found
    exact ⟨entry,there,attached⟩
  | some live =>
    rw [known] at found
    rw [List.getElem?_modify] at found
    obtain ⟨seen,there,changed⟩ := Option.map_eq_some_iff.mp found
    obtain ⟨entry,before,rfl⟩ := get_of_saw there
    refine ⟨entry,before,?_⟩
    rw [← changed] at attached
    split at attached
    · simp [Session.takeChannels,Session.close] at attached
    · exact attached

theorem end_lookup_ne (server : Server) (other : id ≠ last) : (server.endSession last).manager.sessions.lookup id = server.manager.sessions.lookup id :=
  AList.lookup_erase_ne other

section
variable (serves : Serves server)
include serves

theorem Serves.current_ends (last : frame.1.status = .end_) (current : Current server reference entry) :
    ∃ after, Later frame entry after ∧ Current ((server.saw frame).endSession frame.1.sessionId) reference after ∧
      (after.ended ∨ after.session = entry.session) := by
  have own : ends frame.1.sessionId frame = true := by simp [ends,last]
  obtain ⟨after,there,next,same⟩ := end_entry current.1 frame frame.1.sessionId
  by_cases here : entry.session.id = frame.1.sessionId
  · have past : after.ended := by rw [next.ended,here,own,Bool.or_true]
    exact ⟨after,next,⟨there,.inl past⟩,.inl past⟩
  · refine ⟨after,next,⟨there,?_⟩,.inr (same ?_)⟩
    · rw [next.ended,next.id,end_lookup_ne _ here]
      exact current.2.imp_left fun past => by simp [past]
    · intro known
      obtain ⟨other,there,id,-⟩ := serves.live _ reference known
      cases Option.some.inj (current.1.symm.trans there)
      exact here id

theorem Serves.finishes (last : frame.1.status = .end_) : Serves ((server.saw frame).endSession frame.1.sessionId) := by
  have own : ends frame.1.sessionId frame = true := by simp [ends,last]
  refine ⟨?_,?_,?_,?_⟩
  · intro id reference found
    have other : id ≠ frame.1.sessionId := by
      intro same
      subst same
      have erased : ((server.saw frame).endSession frame.1.sessionId).manager.sessions.lookup frame.1.sessionId = none :=
        AList.lookup_erase _ _
      rw [erased] at found
      cases found
    rw [end_lookup_ne _ other] at found
    obtain ⟨entry,there,rfl,running⟩ := serves.live id reference found
    obtain ⟨after,here,next,-⟩ := end_entry there frame frame.1.sessionId
    refine ⟨after,here,next.id,?_⟩
    rw [next.ended,running,(other_quiet (Ne.symm other)).1]
    rfl
  · intro reference member
    obtain ⟨entry,current⟩ := serves.known reference member
    obtain ⟨after,-,current,-⟩ := serves.current_ends last current
    exact ⟨after,current⟩
  · intro c channel found
    obtain ⟨entry,current,data,state⟩ := serves.served c channel found
    obtain ⟨after,next,current',kept⟩ := serves.current_ends last current
    refine ⟨after,current',?_,?_⟩
    · rw [data]
      refine (next.owed_still (.inr ?_)).symm
      by_cases here : entry.session.id = frame.1.sessionId
      · exact .inl (by rw [here,own])
      · exact .inr (other_quiet (Ne.symm here)).2
    · rcases kept with past | same
      · exact .inl past
      · rw [next.ended,same]
        exact state.imp_left fun past => by simp [past]
  · intro reference after c found attached
    obtain ⟨entry,there,before⟩ := entry_of_end found attached
    exact serves.owned reference entry c there before

theorem read_serves (carried : Carried server (.frame frame)) : Serves (server.read frame) := by
  obtain ⟨free,silent⟩ := carried
  change Serves ((server.saw frame).dispatch frame)
  unfold Server.dispatch
  dsimp only
  split
  · rename_i opened
    refine Serves.announces (serves.passes ?_ ?_) opened (free opened)
    · simp [ends,opened]
    · intro id reference entry c known _ _
      refine (other_quiet ?_).2
      rintro rfl
      exact free opened (AList.lookup_isSome.mp (by rw [known]; rfl))
  · rename_i keep
    have running : ∀ id reference, server.manager.sessions.lookup id = some reference → ends id frame = false := by
      simp [ends,keep]
    rw [channelOf_saw]
    split
    · rename_i c data attached carries
      exact serves.delivers keep carries attached
    · rename_i missing
      apply serves.passes running
      intro id reference entry c known there attached
      by_cases here : frame.1.sessionId = id
      · subst here
        have found : server.channelOf frame.1.sessionId = some c := by
          simp [Server.channelOf,SessionManager.get,known,there,attached]
        cases carries : frame.2 with
        | none => simp [ownData,carries]
        | some data => exact absurd carries (missing c data found)
      · exact (other_quiet here).2
  · rename_i last
    exact serves.finishes last
  · rename_i alive
    apply serves.passes
    · simp [ends,alive]
    · simp [ownData,silent alive]

theorem Serves.attaches (holds : reference ∈ server.held)
    (there : server.entries[reference]? = some entry) (vacant : entry.session.channels = none) (nothing : entry.owed = []) : Serves {server with
      entries := server.entries.set reference {entry with session := {entry.session with channels := some server.channels.length}}
      channels := server.channels ++ [⟨reference,[]⟩]} := by
  obtain ⟨_,current⟩ := serves.known reference holds
  cases Option.some.inj (there.symm.trans current.1)
  obtain ⟨inside,-⟩ := List.getElem?_eq_some_iff.mp there
  have kept : ∀ (other : Nat) before, server.entries[other]? = some before → ∃ after,
      (server.entries.set reference {entry with session := {entry.session with channels := some server.channels.length}})[other]? =
        some after ∧ after.session.id = before.session.id ∧ after.ended = before.ended ∧ after.owed = before.owed ∧
      ∀ c, before.session.channels = some c → after.session.channels = some c := by
    intro other before found
    by_cases here : reference = other
    · subst here
      cases Option.some.inj (there.symm.trans found)
      refine ⟨_,List.getElem?_set_self inside,rfl,rfl,rfl,?_⟩
      intro c attached
      rw [vacant] at attached
      cases attached
    · exact ⟨before,by rw [List.getElem?_set_ne here]; exact found,rfl,rfl,rfl,fun _ attached => attached⟩
  refine ⟨?_,?_,?_,?_⟩
  · intro id other found
    obtain ⟨before,found,same,running⟩ := serves.live id other found
    obtain ⟨after,here,id,ended,-,-⟩ := kept other before found
    exact ⟨after,here,id.trans same,ended.trans running⟩
  · intro other member
    obtain ⟨before,current⟩ := serves.known other member
    obtain ⟨after,here,id,ended,-,-⟩ := kept other before current.1
    exact ⟨after,here,by rw [ended,id]; exact current.2⟩
  · intro c channel found
    rw [List.getElem?_append] at found
    split at found
    · obtain ⟨before,current,data,state⟩ := serves.served c channel found
      obtain ⟨after,here,id,ended,owed,channels⟩ := kept channel.owner before current.1
      exact ⟨after,⟨here,by rw [ended,id]; exact current.2⟩,by rw [owed]; exact data,by rw [ended]; exact state.imp_right (channels c)⟩
    · have fresh := List.mem_of_getElem? found
      rw [List.mem_singleton] at fresh
      have last : c = server.channels.length := by
        obtain ⟨short,-⟩ := List.getElem?_eq_some_iff.mp found
        simp at short
        omega
      subst fresh last
      exact ⟨_,⟨List.getElem?_set_self inside,current.2⟩,nothing.symm,.inr rfl⟩
  · intro other after c found attached
    by_cases here : reference = other
    · subst here
      rw [List.getElem?_set_self inside] at found
      cases found
      cases attached
      exact ⟨_,List.getElem?_concat_length,rfl⟩
    · rw [List.getElem?_set_ne here] at found
      obtain ⟨channel,present,owner⟩ := serves.owned other after c found attached
      obtain ⟨short,-⟩ := List.getElem?_eq_some_iff.mp present
      exact ⟨channel,by dsimp only; rw [List.getElem?_append_left short]; exact present,owner⟩

theorem advance_serves (carried : Carried server event) (step : advance server event = some next) : Serves next := by
  cases event with
  | frame frame =>
    cases step
    exact read_serves serves carried
  | get id =>
    simp only [advance] at step
    split at step
    · split at step
      · rename_i reference found
        cases step
        refine {serves with known := ?_}
        intro other member
        rcases List.mem_append.mp member with old | new
        · exact serves.known other old
        · rw [List.mem_singleton.mp new]
          obtain ⟨entry,there,same,-⟩ := serves.live id reference found
          exact ⟨entry,there,.inr (same ▸ found)⟩
      · cases step
        exact serves
    · cases step
  | attach position =>
    obtain ⟨reference,holds,step⟩ := Option.bind_eq_some_iff.mp step
    obtain ⟨entry,there,step⟩ := Option.bind_eq_some_iff.mp step
    simp only [Session.attachChannels] at step
    cases vacant : entry.session.channels with
    | some _ =>
      rw [vacant] at step
      cases step
      exact serves
    | none =>
      rw [vacant] at step
      cases step
      exact serves.attaches (List.mem_of_getElem? holds) there vacant (carried reference entry holds there)
  | monitor =>
    cases step
    have same : (server.manager.closeIfNoSessionAndIdle server.manager.size server.manager.totalAllocated).1.sessions = server.manager.sessions := by
      unfold SessionManager.closeIfNoSessionAndIdle
      repeat' split
      all_goals rfl
    refine ⟨?_,?_,?_,serves.owned⟩
    · intro id reference found
      exact serves.live id reference (same ▸ found)
    · intro reference member
      obtain ⟨entry,current⟩ := serves.known reference member
      exact ⟨entry,current.1,by rw [same]; exact current.2⟩
    · intro c channel found
      obtain ⟨entry,current,state⟩ := serves.served c channel found
      exact ⟨entry,⟨current.1,by rw [same]; exact current.2⟩,state⟩

end

theorem owed_own (id) : owed id since = owed id (since.filter fun frame => frame.1.sessionId = id) := by
  induction since with
  | nil => rfl
  | cons frame rest ih =>
    by_cases own : frame.1.sessionId = id
    · rw [List.filter_cons_of_pos (by simpa using own)]
      simp only [owed] at ih
      simp only [owed,List.takeWhile_cons]
      split
      · rw [List.flatMap_cons,List.flatMap_cons,ih]
      · rfl
    · obtain ⟨running,nothing⟩ := other_quiet own
      rw [List.filter_cons_of_neg (by simpa using own),← ih]
      simp [owed,running,nothing]

end

-- In such a run each consumer has received, at every moment, exactly what its session is owed.
theorem channels_served (carried : Meets advance Carried .new events) (path : run advance .new events = some server)
    (present : channel ∈ server.channels) :
    ∃ entry : Entry, server.entries[channel.owner]? = some entry ∧ channel.data.flatten = entry.owed ∧
      entry.owed = owed entry.session.id (entry.since.filter fun frame => frame.1.sessionId = entry.session.id) := by
  have serves := run_invariant_where Serves (fun _ _ _ serves carried step => advance_serves serves carried step) new_serves
    carried path
  obtain ⟨c,found⟩ := List.mem_iff_getElem?.mp present
  obtain ⟨entry,current,data,-⟩ := serves.served c channel found
  exact ⟨entry,current.1,data,owed_own _⟩

def keepFrame (id : UInt16) (data : Bytes) : Frame := (⟨id,.keep,⟨1⟩,none,none,.zero 8⟩,some data)
def newFrame (id : UInt16) (data : Option Bytes) : Frame :=
  (⟨id,.new,⟨if data.isSome then 1 else 0⟩,some ⟨.domain "example.com",⟨443⟩,.tcp⟩,none,.zero 8⟩,data)

def promptRun : List Event :=
  [.frame (newFrame 7 none),.frame (newFrame 8 none),.get 7,.attach 0,.frame (keepFrame 7 [1,2]),.frame (keepFrame 8 [9]),
    .frame (keepFrame 7 [3])]

theorem channels_served_prompt : ∃ server, run advance .new promptRun = some server ∧
    ∀ channel ∈ server.channels, ∃ entry : Entry, server.entries[channel.owner]? = some entry ∧
      channel.data.flatten = entry.owed := by
  obtain ⟨server,path⟩ := Option.isSome_iff_exists.mp (by decide +kernel : (run advance .new promptRun).isSome)
  have carried : Meets advance Carried .new promptRun := by
    have opening : ∀ (server : Server) id, id ∉ server.manager.sessions → Carried server (.frame (newFrame id none)) :=
      fun _ _ free => ⟨fun _ => free,fun _ => rfl⟩
    have keeping : ∀ (server : Server) (id : UInt16) data, Carried server (.frame (keepFrame id data)) :=
      fun _ _ _ => ⟨fun opened => SessionStatus.noConfusion opened,fun alive => SessionStatus.noConfusion alive⟩
    refine meets_cons (opening _ _ (by decide +kernel)) rfl (meets_cons (opening _ _ (by decide +kernel)) rfl
      (meets_cons True.intro rfl (meets_cons ?_ rfl (meets_cons (keeping _ _ _) rfl (meets_cons (keeping _ _ _) rfl
        (meets_cons (keeping _ _ _) rfl True.intro))))))
    intro reference entry holds there
    obtain rfl : 0 = reference := Option.some.inj holds
    obtain rfl : (⟨.new 7,[newFrame 7 none,newFrame 8 none]⟩ : Entry) = entry := Option.some.inj there
    rfl
  refine ⟨server,path,fun channel present => ?_⟩
  obtain ⟨entry,there,data,-⟩ := channels_served carried path present
  exact ⟨entry,there,data⟩

-- The first bytes travel in the New frame, as `MuxWriter` sends them, and never reach the consumer.
theorem new_frame_data_lost : ∃ server channel entry,
    run advance .new [.frame (newFrame 7 (some [1,2])),.get 7,.attach 0,.frame (keepFrame 7 [3])] = some server ∧
      channel ∈ server.channels ∧ server.entries[channel.owner]? = some entry ∧
      channel.data.flatten = [3] ∧ entry.owed = [1,2,3] := by
  refine ⟨_,⟨0,[[3]]⟩,⟨⟨7,false,some 0⟩,[newFrame 7 (some [1,2]),keepFrame 7 [3]]⟩,rfl,?_,rfl,rfl,by decide +kernel⟩
  exact List.mem_singleton.mpr rfl

end AstraCore.MuxServer
