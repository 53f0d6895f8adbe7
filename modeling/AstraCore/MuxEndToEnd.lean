import AstraCore.MuxServer
import AstraCore.MuxSessionIo

namespace AstraCore.MuxEndToEnd
open CheckedBytes MuxFrame MuxServer MuxSessionIo Machine

structure Stream where
  sessionId : UInt16
  shutdown : Bool
  chunks : List Bytes
deriving DecidableEq, Repr

-- A client and a server joined by a reliable pipe. `tasks` are the spawned writes of all streams
-- in the order they were issued, which is also the order they run in.
structure Joined where
  strategy : MuxClientStrategy
  manager : SessionManager
  streams : List Stream
  tasks : List (UInt16 × Task)
  toServer : Bytes
  server : Server

def Joined.start (strategy : MuxClientStrategy) : Joined := ⟨strategy,.new,[],[],[],.new⟩

inductive Event where
  | openMuxStream
  | pollWrite (stream : Nat) (chunk : Bytes)
  | pollShutdown (stream : Nat)
  | runTask
  | serve
  | clientMonitor
  | serverMonitor

-- The consumer takes every new announcement and attaches its channel before the next frame is read.
def consume (before after : Server) : Server :=
  (after.announced.drop before.announced.length).foldl
    (fun server id => (run MuxServer.advance server [.get id,.attach server.held.length]).getD server) after

def idle (manager : SessionManager) : SessionManager :=
  (manager.closeIfNoSessionAndIdle manager.size manager.totalAllocated).1

def advance (joined : Joined) : Event → Option Joined
  | .openMuxStream =>
    match joined.manager.allocate joined.strategy joined.streams.length with
    | some (manager,id) => some {joined with manager,streams := joined.streams ++ [⟨id,false,[]⟩]}
    | none => some joined
  | .pollWrite position chunk => do
    let stream ← joined.streams[position]?
    if 1 ≤ chunk.length ∧ chunk.length ≤ 65535 then
      if stream.shutdown then some joined
      else some {joined with
        streams := joined.streams.set position {stream with chunks := stream.chunks ++ [chunk]}
        tasks := joined.tasks ++ [(stream.sessionId,.write chunk)]}
    else none
  | .pollShutdown position => do
    let stream ← joined.streams[position]?
    if stream.shutdown then some joined
    else some {joined with
      streams := joined.streams.set position {stream with shutdown := true}
      tasks := joined.tasks ++ [(stream.sessionId,.close)]}
  | .runTask =>
    match joined.tasks with
    | [] => none
    | (id,task) :: tasks => some {joined with tasks,toServer := joined.toServer ++ task.bytes id}
  | .serve =>
    match readFrame joined.toServer with
    | .error _ => none
    | .ok (frame,toServer) => some {joined with toServer,server := consume joined.server (joined.server.read frame)}
  | .clientMonitor => some {joined with manager := idle joined.manager}
  | .serverMonitor => some {joined with server := {joined.server with manager := idle joined.server.manager}}

-- The stream's id was announced once and a consumer attached to it holds the chunks as written.
def Delivered (joined : Joined) (stream : Stream) : Prop :=
  joined.server.announced.count stream.sessionId = 1 ∧
    ∃ channel ∈ joined.server.channels, ∃ entry : Entry, joined.server.entries[channel.owner]? = some entry ∧
      entry.session.id = stream.sessionId ∧ channel.data = stream.chunks

structure Unopened (joined : Joined) : Prop where
  fits : ∀ item ∈ joined.tasks, item.2.fits
  pipe : ∃ frames, joined.toServer = wireFrames frames ∧ ∀ frame ∈ frames, Sendable frame ∧ frame.1.status ≠ .new
  entries : joined.server.entries = []
  announced : joined.server.announced = []

theorem start_unopened : Unopened (.start strategy) :=
  ⟨by simp [Joined.start],⟨[],rfl,by simp⟩,rfl,rfl⟩

theorem frame_not_new (id) (task : Task) : (task.frame id).1.status ≠ .new := by
  cases task <;> exact fun opened => SessionStatus.noConfusion opened

theorem read_unopened (server : Server) (old : frame.1.status ≠ .new) (entries : server.entries = [])
    (announced : server.announced = []) : (server.read frame).entries = [] ∧ (server.read frame).announced = [] := by
  have unattached : ∀ id, (server.saw frame).channelOf id = none := by
    intro id
    rw [channelOf_saw]
    simp only [Server.channelOf,entries]
    cases server.manager.get id <;> simp
  change ((server.saw frame).dispatch frame).entries = [] ∧ ((server.saw frame).dispatch frame).announced = []
  unfold Server.dispatch
  dsimp only
  split
  · rename_i opened
    exact absurd opened old
  · rw [unattached]
    exact ⟨by simp [Server.saw,entries],announced⟩
  · refine ⟨?_,announced⟩
    simp only [Server.endSession,Server.saw,entries]
    split <;> simp
  · exact ⟨by simp [Server.saw,entries],announced⟩

theorem Unopened.spawns (unopened : Unopened joined) (streams id task) (fits : task.fits) :
    Unopened {joined with streams,tasks := joined.tasks ++ [(id,task)]} := by
  refine {unopened with fits := ?_}
  intro item member
  rcases List.mem_append.mp member with old | new
  · exact unopened.fits item old
  · rw [List.mem_singleton.mp new]
    exact fits

theorem Unopened.runs {id : UInt16} (unopened : Unopened joined) (waiting : joined.tasks = (id,task) :: tasks) :
    Unopened {joined with tasks,toServer := joined.toServer ++ task.bytes id} := by
  obtain ⟨frames,pipe,quiet⟩ := unopened.pipe
  have fits := unopened.fits
  rw [waiting] at fits
  refine {unopened with fits := fun item member => fits item (by simp [member]),pipe := ⟨frames ++ [task.frame id],?_,?_⟩}
  · rw [pipe]
    simp [wireFrames,Task.bytes]
  · intro frame member
    rcases List.mem_append.mp member with old | new
    · exact quiet frame old
    · rw [List.mem_singleton.mp new]
      exact ⟨frame_sendable id task (fits (id,task) (by simp)),frame_not_new id task⟩

theorem Unopened.serves (unopened : Unopened joined) (reads : readFrame joined.toServer = .ok (frame,toServer)) :
    Unopened {joined with toServer,server := consume joined.server (joined.server.read frame)} := by
  obtain ⟨frames,pipe,quiet⟩ := unopened.pipe
  cases frames with
  | nil =>
    rw [pipe] at reads
    cases reads
  | cons first rest =>
    obtain ⟨sendable,old⟩ := quiet first (by simp)
    have sent : readFrame joined.toServer = .ok (first,wireFrames rest) := by
      rw [pipe]
      exact readFrame_encode sendable (wireFrames rest)
    cases Except.ok.inj (reads.symm.trans sent)
    obtain ⟨entries,announced⟩ := read_unopened joined.server old unopened.entries unopened.announced
    have nothing : consume joined.server (joined.server.read frame) = joined.server.read frame := by
      simp [consume,announced]
    rw [nothing]
    exact ⟨unopened.fits,⟨rest,rfl,fun other member => quiet other (by simp [member])⟩,entries,announced⟩

theorem advance_unopened (unopened : Unopened joined) (step : advance joined event = some next) : Unopened next := by
  cases event with
  | openMuxStream =>
    simp only [advance] at step
    split at step <;> cases step
    · exact {unopened with}
    · exact unopened
  | pollWrite position chunk =>
    obtain ⟨stream,-,step⟩ := Option.bind_eq_some_iff.mp step
    split at step
    · rename_i sized
      split at step <;> cases step
      · exact unopened
      · exact unopened.spawns _ _ (.write chunk) sized.2
    · cases step
  | pollShutdown position =>
    obtain ⟨stream,-,step⟩ := Option.bind_eq_some_iff.mp step
    split at step <;> cases step
    · exact unopened
    · exact unopened.spawns _ _ .close True.intro
  | runTask =>
    simp only [advance] at step
    split at step <;> cases step
    rename_i waiting
    exact unopened.runs waiting
  | serve =>
    simp only [advance] at step
    split at step <;> cases step
    rename_i reads
    exact unopened.serves reads
  | clientMonitor | serverMonitor =>
    cases step
    exact {unopened with}

theorem never_delivered (path : run advance (.start strategy) events = some joined) :
    ∀ stream ∈ joined.streams, ¬ Delivered joined stream := by
  have unopened := run_invariant Unopened (fun _ _ _ unopened step => advance_unopened unopened step)
    (start_unopened) path
  rintro stream - ⟨once,-⟩
  rw [unopened.announced] at once
  cases once

def oneChunk : List Event := [.openMuxStream,.pollWrite 0 [1],.runTask,.serve]

theorem never_delivered_one_chunk : ∃ joined, run advance (.start .default) oneChunk = some joined ∧
    joined.streams ≠ [] ∧ ∀ stream ∈ joined.streams, ¬ Delivered joined stream := by
  have some_end : (run advance (.start .default) oneChunk).map Joined.streams = some [⟨1,false,[[1]]⟩] := rfl
  obtain ⟨joined,path,streams⟩ := Option.map_eq_some_iff.mp some_end
  exact ⟨joined,path,by simp [streams],never_delivered path⟩

theorem chunk_sent_unannounced : ∃ joined, run advance (.start .default) oneChunk = some joined ∧
    joined.streams = [⟨1,false,[[1]]⟩] ∧ joined.tasks = [] ∧ joined.toServer = [] ∧
    ¬ Delivered joined ⟨1,false,[[1]]⟩ := by
  refine ⟨_,rfl,rfl,rfl,rfl,?_⟩
  rintro ⟨once,-⟩
  cases once

end AstraCore.MuxEndToEnd
