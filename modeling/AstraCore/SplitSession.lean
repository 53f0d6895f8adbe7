import AstraCore.Machine
import AstraCore.SplitRequest
import AstraCore.UploadQueue

namespace AstraCore.SplitHttp
open CheckedBytes TextScan LineReader PriorityQueue Machine List
open PolledStream (Stream Reading)

variable (heap : Heap Packet.seq)

-- A `Session` with the id it was made for. `upload` is its queue together with what has gone in and, by the task that feeds the
-- connection, out of it; `attached` says whether there is such a task.
structure Session where
  owner : Text
  upload : Track heap
  attached : Bool

-- What a request still has to do when it holds its session: `push` its body; answer 200, start the tasks of the connection and
-- announce it; or answer 409.
inductive Task where
  | upload (sid : Text) (session seq : Nat) (body : Reading Bytes)
  | attach (sid : Text) (session : Nat)
  | conflict (sid : Text)

def Task.sid : Task → Text
  | .upload sid _ _ _ => sid
  | .attach sid _ => sid
  | .conflict sid => sid

-- The listener with every session it ever made; the table names a session by its place there. `answers` are those to
-- downloads, `connections` the calls of `on_conn`.
structure Server where
  sessions : List (Session heap)
  table : AList (fun _ : Text => Nat)
  tasks : List (Option Task)
  answers : List (Text × Nat)
  connections : List (Text × Nat)

def Server.start : Server heap := ⟨[],∅,[],[],[]⟩

variable {heap}

section
variable (server : Server heap)

def Server.create (sid : Text) : Server heap :=
  {server with
    sessions := server.sessions ++ [⟨sid,.start,false⟩]
    table := server.table.insert sid server.sessions.length}

def Server.getOrCreate (sid : Text) : Nat × Bool × Server heap :=
  match server.table.lookup sid with
  | some session => (session,false,server)
  | none => (server.sessions.length,true,server.create sid)

def Server.spawn (task : Task) : Server heap := {server with tasks := server.tasks ++ [some task]}

-- A request up to the point where it lets go of the table.
def Server.visit : Action → Server heap
  | .download sid =>
    let (session,fresh,server) := server.getOrCreate sid
    server.spawn (if fresh then .attach sid session else .conflict sid)
  | .upload sid seq body =>
    let (session,_,server) := server.getOrCreate sid
    server.spawn (.upload sid session seq body)
  | .badRequest => server
  | .options => server
  | .notAllowed => server

def Session.advance (event : QueueEvent) (session : Session heap) : Session heap := {session with upload := session.upload.advance event}

def Server.carryOut : Task → Server heap
  | .upload _ session seq (.ok body) => {server with sessions := server.sessions.modify session (Session.advance (.push seq body))}
  | .upload _ _ _ (.error _) => server
  | .attach sid session =>
    {server with
      sessions := server.sessions.modify session fun s => {s with attached := true}
      answers := server.answers ++ [(sid,200)]
      connections := server.connections ++ [(sid,session)]}
  | .conflict sid => {server with answers := server.answers ++ [(sid,409)]}

-- A client's connection has brought a whole request; a request goes on; the task that feeds a connection takes a turn; one of
-- the two tasks of a connection ends and takes the id out of the table.
inductive Event where
  | request (stream : Stream bufferSize)
  | proceed (task : Nat)
  | turn (session : Nat)
  | remove (sid : Text)

def serve : Event → Option (Server heap)
  | .request stream =>
    match handleConn stream with
    | .ok action => some (server.visit action)
    | .error _ => some server
  | .proceed i =>
    match server.tasks[i]? with
    | some (some task) => some ({server with tasks := server.tasks.set i none}.carryOut task)
    | _ => none
  | .turn k =>
    match server.sessions[k]? with
    | some session =>
      if session.attached then some {server with sessions := server.sessions.modify k (Session.advance .tryPop)} else none
    | none => none
  | .remove sid => if ∃ connection ∈ server.connections, connection.1 = sid then some {server with table := server.table.erase sid} else none

inductive Visit where
  | download
  | upload (seq : Nat) (body : Reading Bytes)

def Action.visit (sid : Text) : Action → Option Visit
  | .download other => if other = sid then some .download else none
  | .upload other seq body => if other = sid then some (.upload seq body) else none
  | .badRequest => none
  | .options => none
  | .notAllowed => none

def Event.visit (sid : Text) : Event → Option Visit
  | .request stream =>
    match handleConn stream with
    | .ok action => action.visit sid
    | .error _ => none
  | _ => none

def visits (sid : Text) (events : List Event) : List Visit := events.filterMap (Event.visit sid)

def Server.track (sid : Text) : Track heap :=
  match (server.table.lookup sid).bind (server.sessions[·]?) with
  | some session => session.upload
  | none => .start

end

-- One download and the uploads 0 to n - 1 of a session, in any order and among any other requests; each has been carried out,
-- and the session has not been removed.
structure Arrives (heap : Heap Packet.seq) (sid : Text) (n : Nat) (payload : Nat → Bytes) (events : List Event) (server : Server heap) : Prop where
  path : run serve (Server.start heap) events = some server
  order : (visits sid events).Perm (.download :: (List.range n).map fun seq => .upload seq (.ok (payload seq)))
  kept : .remove sid ∉ events
  settled : ∀ task, some task ∈ server.tasks → task.sid ≠ sid

def ofId (sid : Text) (pairs : List (Text × Nat)) : List Nat := pairs.filterMap fun pair => if pair.1 = sid then some pair.2 else none

-- The download was answered with 200, one connection was announced, and turns of its task bring it the data of all uploads.
def SetUp (sid : Text) (n : Nat) (payload : Nat → Bytes) (server : Server heap) : Prop :=
  ofId sid server.answers = [200] ∧
    ∃ k, ofId sid server.connections = [k] ∧
      ∃ turns last session, run serve server (List.replicate turns (.turn k)) = some last ∧ last.sessions[k]? = some session ∧
        session.upload.delivered = (List.range n).map payload

def Roomy (sid : Text) (server : Server heap) : Event → Prop
  | .proceed i =>
    ∀ session seq body, server.tasks[i]? = some (some (.upload sid session seq (.ok body))) → (server.track sid).queue.items.card < 128
  | _ => True

def RoomyRun (heap : Heap Packet.seq) (sid : Text) (events : List Event) : Prop :=
  ∀ before event, before ++ [event] <+: events → ∀ server : Server heap, run serve (Server.start heap) before = some server →
    Roomy sid server event

def Task.session : Task → Option Nat
  | .upload _ session _ _ => some session
  | .attach _ session => some session
  | .conflict _ => none

def Server.owners (server : Server heap) : List Text := server.sessions.map Session.owner
def Server.attachments (server : Server heap) : List Bool := server.sessions.map Session.attached

structure Owned (sid : Text) (server : Server heap) : Prop where
  table : ∀ other k, server.table.lookup other = some k → server.owners[k]? = some other
  tasks : ∀ task k, some task ∈ server.tasks → task.session = some k → server.owners[k]? = some task.sid
  single : ∀ k, server.owners[k]? = some sid → server.table.lookup sid = some k
  attached : ∀ connection ∈ server.connections, server.attachments[connection.2]? = some true

theorem map_modify {g : α → β} (same : ∀ a, g (f a) = g a) (items : List α) : (items.modify k f).map g = items.map g := by
  apply ext_getElem?
  intro i
  rw [getElem?_map,getElem?_map,getElem?_modify]
  cases items[i]? with
  | none => rfl
  | some a =>
    simp only [Option.map_eq_map,Option.map_some,Option.some.injEq]
    split
    · exact same a
    · rfl

theorem mem_set_none {tasks : List (Option Task)} (member : some task ∈ tasks.set i none) : some task ∈ tasks := by
  rcases mem_or_eq_of_mem_set member with old | new
  · exact old
  · cases new

theorem start_owned : Owned sid (Server.start heap) := by
  refine ⟨fun other k found => ?_,fun task k member => ?_,fun k found => ?_,fun connection member => ?_⟩
  · cases found
  · cases member
  · cases found
  · cases member

theorem getOrCreate_known {server : Server heap} (known : server.table.lookup sid = some k) : server.getOrCreate sid = (k,false,server) := by
  rw [Server.getOrCreate,known]

theorem getOrCreate_absent {server : Server heap} (absent : server.table.lookup sid = none) :
    server.getOrCreate sid = (server.sessions.length,true,server.create sid) := by
  rw [Server.getOrCreate,absent]

theorem create_owners (server : Server heap) : (server.create sid).owners = server.owners ++ [sid] := map_append

theorem create_session (server : Server heap) : (server.create sid).owners[server.sessions.length]? = some sid := by
  have width : server.owners.length = server.sessions.length := length_map _
  rw [create_owners,← width,getElem?_concat_length]

theorem create_owned (held : Owned sid server) (absent : server.table.lookup other = none) : Owned sid (server.create other) := by
  have width : server.owners.length = server.sessions.length := length_map _
  have old {k : Nat} {name : Text} (found : server.owners[k]? = some name) : (server.create other).owners[k]? = some name := by
    rw [create_owners,getElem?_append_left (List.getElem?_eq_some_iff.mp found).1]
    exact found
  have table (name : Text) : (server.create other).table.lookup name = if name = other then some server.sessions.length else server.table.lookup name :=
    FiniteMap.lookup_inserted ..
  refine ⟨fun name k found => ?_,fun task k member session => old (held.tasks task k member session),fun k found => ?_,fun connection member => ?_⟩
  · rw [table] at found
    split at found
    · rename_i same
      cases found
      rw [same]
      exact create_session server
    · exact old (held.table name k found)
  · rw [create_owners,getElem?_append] at found
    rw [table]
    split at found
    · have known := held.single k found
      rw [if_neg]
      · exact known
      · intro same
        rw [same,absent] at known
        cases known
    · have named := mem_singleton.mp (mem_of_getElem? found)
      have last : k - server.owners.length < 1 := (List.getElem?_eq_some_iff.mp found).1
      rw [if_pos named]
      congr 1
      omega
  · have before : (server.sessions.map Session.attached)[connection.2]? = some true := held.attached connection member
    change ((server.sessions ++ [_]).map Session.attached)[connection.2]? = some true
    rw [map_append,getElem?_append_left (List.getElem?_eq_some_iff.mp before).1]
    exact before

theorem getOrCreate_owned (held : Owned sid server) (other) :
    Owned sid (server.getOrCreate other).2.2 ∧ (server.getOrCreate other).2.2.owners[(server.getOrCreate other).1]? = some other := by
  cases known : server.table.lookup other with
  | some k =>
    rw [getOrCreate_known known]
    exact ⟨held,held.table other k known⟩
  | none =>
    rw [getOrCreate_absent known]
    exact ⟨create_owned held known,create_session server⟩

theorem spawn_owned (held : Owned sid server) (there : ∀ k, task.session = some k → server.owners[k]? = some task.sid) : Owned sid (server.spawn task) := by
  refine ⟨held.table,fun other k member session => ?_,held.single,held.attached⟩
  rcases mem_append.mp member with old | new
  · exact held.tasks other k old session
  · cases mem_singleton.mp new
    exact there k session

theorem visit_download (server : Server heap) : server.visit (.download sid) = (server.getOrCreate sid).2.2.spawn
      (if (server.getOrCreate sid).2.1 then .attach sid (server.getOrCreate sid).1 else .conflict sid) := rfl

theorem visit_owned (held : Owned sid server) (action) : Owned sid (server.visit action) := by
  cases action with
  | badRequest | options | notAllowed => exact held
  | download other =>
    obtain ⟨kept,there⟩ := getOrCreate_owned held other
    rw [visit_download]
    split
    · refine spawn_owned kept fun k session => ?_
      cases session
      exact there
    · exact spawn_owned kept fun k session => by cases session
  | upload other seq body =>
    obtain ⟨kept,there⟩ := getOrCreate_owned held other
    refine spawn_owned kept fun k session => ?_
    cases session
    exact there

theorem modify_owned (held : Owned sid server) (k) (f : Session heap → Session heap) (owner : ∀ s, (f s).owner = s.owner)
    (attached : ∀ s, s.attached = true → (f s).attached = true) : Owned sid {server with sessions := server.sessions.modify k f} := by
  have owners : Server.owners {server with sessions := server.sessions.modify k f} = server.owners := map_modify owner _
  refine ⟨?_,?_,?_,fun connection member => ?_⟩
  · rw [owners]
    exact held.table
  · rw [owners]
    exact held.tasks
  · rw [owners]
    exact held.single
  · have before := held.attached connection member
    rw [Server.attachments,getElem?_map] at before ⊢
    obtain ⟨session,found,on⟩ := Option.map_eq_some_iff.mp before
    rw [getElem?_modify,found]
    simp only [Option.map_eq_map,Option.map_some,Option.some.injEq]
    split
    · exact attached session on
    · exact on

theorem carryOut_owned (held : Owned sid server) (there : ∀ k, task.session = some k → server.owners[k]? = some task.sid) :
    Owned sid (server.carryOut task) := by
  cases task with
  | upload other k seq body =>
    cases body with
    | error stop => exact held
    | ok body => exact modify_owned held k _ (fun _ => rfl) fun _ on => on
  | conflict other => exact ⟨held.table,held.tasks,held.single,held.attached⟩
  | attach other k =>
    have kept := modify_owned held k (fun s => {s with attached := true}) (fun _ => rfl) fun _ _ => rfl
    refine ⟨kept.table,kept.tasks,kept.single,fun connection member => ?_⟩
    rcases mem_append.mp member with old | new
    · exact kept.attached connection old
    · cases mem_singleton.mp new
      have owner := there k rfl
      rw [Server.owners,getElem?_map] at owner
      obtain ⟨session,found,-⟩ := Option.map_eq_some_iff.mp owner
      change ((server.sessions.modify k _).map Session.attached)[k]? = some true
      rw [getElem?_map,getElem?_modify,found]
      simp

theorem serve_owned (held : Owned sid server) (kept : event ≠ .remove sid) (step : serve server event = some later) : Owned sid later := by
  cases event with
  | request stream =>
    rw [serve] at step
    split at step
    · cases step
      exact visit_owned held _
    · cases step
      exact held
  | proceed i =>
    rw [serve] at step
    split at step
    · rename_i task found
      cases step
      have there := fun k => held.tasks task k (mem_of_getElem? found)
      have fewer : Owned sid {server with tasks := server.tasks.set i none} :=
        ⟨held.table,fun other k member => held.tasks other k (mem_set_none member),held.single,held.attached⟩
      exact carryOut_owned fewer there
    · cases step
  | turn k =>
    rw [serve] at step
    split at step
    · split at step
      · cases step
        exact modify_owned held k _ (fun _ => rfl) fun _ on => on
      · cases step
    · cases step
  | remove other =>
    have different : sid ≠ other := fun same => kept (congrArg _ same.symm)
    rw [serve] at step
    split at step
    · cases step
      refine ⟨fun name k found => ?_,held.tasks,fun k found => ?_,held.attached⟩
      · rw [FiniteMap.lookup_erased] at found
        split at found
        · cases found
        · exact held.table name k found
      · rw [FiniteMap.lookup_erased,if_neg different]
        exact held.single k found
    · cases step

def uploadOf (sid : Text) : Option Task → Option (Nat × Reading Bytes)
  | some (.upload other _ seq body) => if other = sid then some (seq,body) else none
  | _ => none

def attachOf (sid : Text) : Option Task → Option Nat
  | some (.attach other session) => if other = sid then some session else none
  | _ => none

def conflictOf (sid : Text) : Option Task → Option Unit
  | some (.conflict other) => if other = sid then some () else none
  | _ => none

@[ext] structure View (heap : Heap Packet.seq) where
  session : Option Nat
  track : Track heap
  uploads : List (Nat × Reading Bytes)
  attaching : List Nat
  conflicts : List Unit
  answers : List Nat
  connections : List Nat

def Server.view (server : Server heap) (sid : Text) : View heap where
  session := server.table.lookup sid
  track := server.track sid
  uploads := server.tasks.filterMap (uploadOf sid)
  attaching := server.tasks.filterMap (attachOf sid)
  conflicts := server.tasks.filterMap (conflictOf sid)
  answers := ofId sid server.answers
  connections := ofId sid server.connections

-- All that a step can do to what a server has of one id; `room` is what it says about the room in the queue.
inductive Changes (view : View heap) : Option Visit → Prop → View heap → Prop where
  | idle (free : room) : Changes view none room view
  | opens (k : Nat) (absent : view.session = none) (free : room) :
      Changes view (some .download) room {view with session := some k, attaching := view.attaching ++ [k]}
  | repeats (k : Nat) (known : view.session = some k) (free : room) :
      Changes view (some .download) room {view with conflicts := view.conflicts ++ [()]}
  | posts (k seq : Nat) (body : Reading Bytes) (known : view.session = none ∨ view.session = some k) (free : room) :
      Changes view (some (.upload seq body)) room {view with session := some k, uploads := view.uploads ++ [(seq,body)]}
  | pushes (seq : Nat) (body : Bytes) (rest : List (Nat × Reading Bytes)) (found : view.uploads.Perm ((seq,.ok body) :: rest))
      (free : room ↔ view.track.queue.items.card < 128) :
      Changes view none room {view with uploads := rest, track := view.track.advance (.push seq body)}
  | drops (seq : Nat) (stop : PolledStream.Stop) (rest : List (Nat × Reading Bytes)) (found : view.uploads.Perm ((seq,.error stop) :: rest))
      (free : room) : Changes view none room {view with uploads := rest}
  | attaches (k : Nat) (rest : List Nat) (found : view.attaching.Perm (k :: rest)) (free : room) :
      Changes view none room
        {view with attaching := rest, answers := view.answers ++ [200], connections := view.connections ++ [k]}
  | refuses (rest : List Unit) (found : view.conflicts.Perm (() :: rest)) (free : room) :
      Changes view none room {view with conflicts := rest, answers := view.answers ++ [409]}
  | turns (free : room) : Changes view none room {view with track := view.track.advance .tryPop}

section
variable {server : Server heap}

theorem track_of_lookup (known : server.table.lookup sid = some k) (found : server.sessions[k]? = some session) : server.track sid = session.upload := by
  rw [Server.track,known,Option.bind_some,found]

theorem owner_session {k : Nat} (owner : server.owners[k]? = some other) : ∃ session, server.sessions[k]? = some session ∧ session.owner = other := by
  rw [Server.owners,getElem?_map] at owner
  exact Option.map_eq_some_iff.mp owner

theorem track_modify (held : Owned sid server) (there : server.owners[k]? = some other) (f)
    (g : Track heap → Track heap) (upload : ∀ s, (f s).upload = g s.upload) :
    Server.track {server with sessions := server.sessions.modify k f} sid = if other = sid then g (server.track sid) else server.track sid := by
  cases known : server.table.lookup sid with
  | none =>
    have different : other ≠ sid := by
      intro same
      rw [held.single k (by rw [there,same])] at known
      cases known
    rw [if_neg different,Server.track,Server.track,known]
    rfl
  | some j =>
    have owner := held.table sid j known
    obtain ⟨session,found,-⟩ := owner_session owner
    have changed : (server.sessions.modify k f)[j]? = some (if k = j then f session else session) := by
      rw [getElem?_modify,found]
      rfl
    have after : Server.track {server with sessions := server.sessions.modify k f} sid = (if k = j then f session else session).upload :=
      track_of_lookup known changed
    rw [track_of_lookup known found,after]
    by_cases same : k = j
    · rw [same,owner] at there
      rw [if_pos same,if_pos (Option.some.inj there).symm]
      exact upload session
    · have different : other ≠ sid := by
        intro named
        rw [held.single k (by rw [there,named])] at known
        exact same (Option.some.inj known)
      rw [if_neg same,if_neg different]

end

theorem modify_view (held : Owned sid server) (there : server.owners[k]? = some other) (f)
    (g : Track heap → Track heap) (upload : ∀ s, (f s).upload = g s.upload) : Server.view {server with sessions := server.sessions.modify k f} sid =
      {server.view sid with track := if other = sid then g (server.track sid) else server.track sid} := by
  rw [Server.view,track_modify held there f g upload]
  rfl

theorem create_view {server : Server heap} (held : Owned sid server) (absent : server.table.lookup other = none) : (server.create other).view sid =
      if other = sid then {server.view sid with session := some server.sessions.length} else server.view sid := by
  have table : (server.create other).table.lookup sid = if sid = other then some server.sessions.length else server.table.lookup sid :=
    FiniteMap.lookup_inserted ..
  split
  · rename_i same
    rw [if_pos same.symm] at table
    have before : server.track sid = .start := by
      rw [Server.track,← same,absent]
      rfl
    have after := track_of_lookup table getElem?_concat_length
    apply View.ext
    · exact table
    · exact after.trans before.symm
    all_goals rfl
  · rename_i different
    rw [if_neg (Ne.symm different)] at table
    apply View.ext
    · exact table
    · change (server.create other).track sid = server.track sid
      cases lookup : server.table.lookup sid with
      | none =>
        rw [Server.track,Server.track,table,lookup]
        rfl
      | some k =>
        obtain ⟨session,found,-⟩ := owner_session (held.table sid k lookup)
        rw [track_of_lookup lookup found]
        refine track_of_lookup (table.trans lookup) ?_
        rw [Server.create,getElem?_append_left (List.getElem?_eq_some_iff.mp found).1]
        exact found
    all_goals rfl

theorem getOrCreate_view {server : Server heap} (held : Owned sid server) (other) : (server.getOrCreate other).2.2.view sid =
      if other = sid then {server.view sid with session := some (server.getOrCreate other).1} else server.view sid := by
  cases known : server.table.lookup other with
  | some k =>
    rw [getOrCreate_known known]
    split
    · rename_i same
      rw [same] at known
      exact View.ext known rfl rfl rfl rfl rfl rfl
    · rfl
  | none =>
    rw [getOrCreate_absent known]
    exact create_view held known

theorem spawn_view (server : Server heap) : (server.spawn task).view sid = {server.view sid with
      uploads := (server.view sid).uploads ++ (uploadOf sid (some task)).toList
      attaching := (server.view sid).attaching ++ (attachOf sid (some task)).toList
      conflicts := (server.view sid).conflicts ++ (conflictOf sid (some task)).toList} := by
  have joined {α : Type} (f : Option Task → Option α) : (server.tasks ++ [some task]).filterMap f = server.tasks.filterMap f ++ (f (some task)).toList := by
    rw [filterMap_append,filterMap_cons]
    cases f (some task) <;> rfl
  exact View.ext rfl rfl (joined _) (joined _) (joined _) rfl rfl

section
variable (f : Option Task → Option α) (nothing : f none = none) {tasks : List (Option Task)}
include f nothing

theorem filterMap_out (found : tasks[i]? = some task) : (tasks.filterMap f).Perm ((f task).toList ++ (tasks.set i none).filterMap f) := by
  induction tasks generalizing i with
  | nil => cases found
  | cons first rest ih =>
    cases i with
    | zero =>
      cases Option.some.inj found
      rw [set_cons_zero,filterMap_cons,filterMap_cons,nothing]
      cases f task <;> exact List.Perm.refl _
    | succ i =>
      have inner := ih found
      rw [set_cons_succ,filterMap_cons,filterMap_cons]
      cases f first with
      | none => exact inner
      | some a => exact (inner.cons a).trans (perm_middle.symm)

theorem filterMap_kept (found : tasks[i]? = some task) (other : f task = none) : (tasks.set i none).filterMap f = tasks.filterMap f := by
  induction tasks generalizing i with
  | nil => cases found
  | cons first rest ih =>
    cases i with
    | zero =>
      cases Option.some.inj found
      rw [set_cons_zero,filterMap_cons,filterMap_cons,nothing,other]
    | succ i => rw [set_cons_succ,filterMap_cons,filterMap_cons,ih found]

end

theorem others_task (different : task.sid ≠ sid) : uploadOf sid (some task) = none ∧ attachOf sid (some task) = none ∧ conflictOf sid (some task) = none := by
  cases task with
  | upload other k seq body => exact ⟨if_neg different,rfl,rfl⟩
  | attach other k => exact ⟨rfl,if_neg different,rfl⟩
  | conflict other => exact ⟨rfl,rfl,if_neg different⟩

theorem spawn_other (server : Server heap) (different : task.sid ≠ sid) : (server.spawn task).view sid = server.view sid := by
  obtain ⟨upload,attach,conflict⟩ := others_task different
  rw [spawn_view,upload,attach,conflict]
  simp only [Option.toList_none,append_nil]

theorem download_changes (held : Owned sid server) (free : room) :
    Changes (server.view sid) ((Action.download other).visit sid) room ((server.visit (.download other)).view sid) := by
  rw [visit_download,Action.visit]
  by_cases same : other = sid
  · subst same
    rw [if_pos rfl,spawn_view]
    cases known : server.table.lookup other with
    | some k =>
      rw [getOrCreate_known known]
      simp only [Bool.false_eq_true,if_false,uploadOf,attachOf,conflictOf,if_true,Option.toList_none,Option.toList_some,append_nil]
      exact .repeats k known free
    | none =>
      rw [getOrCreate_absent known,create_view held known]
      simp only [if_true,uploadOf,attachOf,conflictOf,Option.toList_none,Option.toList_some,append_nil]
      exact .opens _ known free
  · rw [if_neg same,spawn_other,getOrCreate_view held,if_neg same]
    · exact .idle free
    · split <;> exact same

theorem upload_changes (held : Owned sid server) (free : room) :
    Changes (server.view sid) ((Action.upload other seq body).visit sid) room ((server.visit (.upload other seq body)).view sid) := by
  change Changes _ (if other = sid then some (.upload seq body) else none) room
    (((server.getOrCreate other).2.2.spawn (.upload other (server.getOrCreate other).1 seq body)).view sid)
  by_cases same : other = sid
  · subst same
    have known : (server.view other).session = none ∨ (server.view other).session = some (server.getOrCreate other).1 := by
      change server.table.lookup other = none ∨ server.table.lookup other = _
      cases known : server.table.lookup other with
      | none => exact .inl rfl
      | some k =>
        rw [getOrCreate_known known]
        exact .inr rfl
    rw [if_pos rfl,spawn_view,getOrCreate_view held,if_pos rfl]
    simp only [uploadOf,attachOf,conflictOf,if_true,Option.toList_none,Option.toList_some,append_nil]
    exact .posts _ seq body known free
  · rw [if_neg same,spawn_other _ (show (Task.upload other _ seq body).sid ≠ sid from same),getOrCreate_view held,if_neg same]
    exact .idle free

theorem visit_changes (held : Owned sid server) (free : room) : Changes (server.view sid) (action.visit sid) room ((server.visit action).view sid) := by
  cases action with
  | badRequest | options | notAllowed => exact .idle free
  | download other => exact download_changes held free
  | upload other seq body => exact upload_changes held free

def Server.without (server : Server heap) (i : Nat) : Server heap := {server with tasks := server.tasks.set i none}

theorem without_owned (held : Owned sid server) (i) : Owned sid (server.without i) :=
  ⟨held.table,fun other k member => held.tasks other k (mem_set_none member),held.single,held.attached⟩

theorem without_view (server : Server heap) (i) : (server.without i).view sid = {server.view sid with
      uploads := (server.tasks.set i none).filterMap (uploadOf sid)
      attaching := (server.tasks.set i none).filterMap (attachOf sid)
      conflicts := (server.tasks.set i none).filterMap (conflictOf sid)} := rfl

theorem ofId_concat (pairs) : ofId sid (pairs ++ [(other,n)]) = if other = sid then ofId sid pairs ++ [n] else ofId sid pairs := by
  split
  · rename_i same
    simp [ofId,same]
  · rename_i different
    simp [ofId,different]

def Task.effect (task : Task) (view : View heap) : View heap :=
  match task with
  | .upload _ _ seq (.ok body) => {view with track := view.track.advance (.push seq body)}
  | .upload _ _ _ (.error _) => view
  | .attach _ k => {view with answers := view.answers ++ [200], connections := view.connections ++ [k]}
  | .conflict _ => {view with answers := view.answers ++ [409]}

theorem carryOut_view (held : Owned sid server) (there : ∀ k, task.session = some k → server.owners[k]? = some task.sid) :
    (server.carryOut task).view sid = if task.sid = sid then task.effect (server.view sid) else server.view sid := by
  by_cases mine : task.sid = sid
  · rw [if_pos mine]
    cases task with
    | upload other k seq body =>
      cases body with
      | error stop => rfl
      | ok body =>
        rw [Server.carryOut,modify_view held (there k rfl) _ (Track.advance · (.push seq body)) (fun _ => rfl),if_pos mine]
        rfl
    | attach other k =>
      have track := track_modify held (there k rfl) (fun s => {s with attached := true}) (fun upload => upload) (fun _ => rfl)
      exact View.ext rfl (track.trans (if_pos mine)) rfl rfl rfl ((ofId_concat _).trans (if_pos mine)) ((ofId_concat _).trans (if_pos mine))
    | conflict other => exact View.ext rfl rfl rfl rfl rfl ((ofId_concat _).trans (if_pos mine)) rfl
  · rw [if_neg mine]
    cases task with
    | upload other k seq body =>
      cases body with
      | error stop => rfl
      | ok body =>
        rw [Server.carryOut,modify_view held (there k rfl) _ (Track.advance · (.push seq body)) (fun _ => rfl),if_neg mine]
        rfl
    | attach other k =>
      have track := track_modify held (there k rfl) (fun s => {s with attached := true}) (fun upload => upload) (fun _ => rfl)
      exact View.ext rfl (track.trans (if_neg mine)) rfl rfl rfl ((ofId_concat _).trans (if_neg mine)) ((ofId_concat _).trans (if_neg mine))
    | conflict other => exact View.ext rfl rfl rfl rfl rfl ((ofId_concat _).trans (if_neg mine)) rfl

theorem proceed_changes (held : Owned sid server) (found : server.tasks[i]? = some (some task)) :
    Changes (server.view sid) none (Roomy sid server (.proceed i)) (((server.without i).carryOut task).view sid) := by
  have elsewhere (apart : ∀ k seq body, task ≠ .upload sid k seq (.ok body)) : Roomy sid server (.proceed i) := by
    intro k seq body again
    rw [found] at again
    exact absurd (Option.some.inj (Option.some.inj again)) (apart k seq body)
  rw [carryOut_view (without_owned held i) fun k session => held.tasks _ k (mem_of_getElem? found) session,without_view]
  by_cases mine : task.sid = sid
  · rw [if_pos mine]
    cases task with
    | upload other k seq body =>
      obtain rfl : other = sid := mine
      have taken := filterMap_out (uploadOf other) rfl found
      rw [uploadOf,if_pos rfl] at taken
      rw [filterMap_kept (attachOf other) rfl found rfl,filterMap_kept (conflictOf other) rfl found rfl]
      cases body with
      | error stop => exact .drops seq stop _ taken (elsewhere fun _ _ _ same => by cases same)
      | ok body => exact .pushes seq body _ taken ⟨fun room => room k seq body found,fun room _ _ _ _ => room⟩
    | attach other k =>
      obtain rfl : other = sid := mine
      have taken := filterMap_out (attachOf other) rfl found
      rw [attachOf,if_pos rfl] at taken
      rw [filterMap_kept (uploadOf other) rfl found rfl,filterMap_kept (conflictOf other) rfl found rfl]
      exact .attaches k _ taken (elsewhere fun _ _ _ same => by cases same)
    | conflict other =>
      obtain rfl : other = sid := mine
      have taken := filterMap_out (conflictOf other) rfl found
      rw [conflictOf,if_pos rfl] at taken
      rw [filterMap_kept (uploadOf other) rfl found rfl,filterMap_kept (attachOf other) rfl found rfl]
      exact .refuses _ taken (elsewhere fun _ _ _ same => by cases same)
  · obtain ⟨upload,attach,conflict⟩ := others_task mine
    rw [if_neg mine,filterMap_kept (uploadOf sid) rfl found upload,filterMap_kept (attachOf sid) rfl found attach,
      filterMap_kept (conflictOf sid) rfl found conflict]
    refine .idle (elsewhere fun k seq body same => mine ?_)
    rw [same]
    rfl

theorem turn_changes (held : Owned sid server) (there : server.owners[k]? = some other) :
    Changes (server.view sid) none True (Server.view {server with sessions := server.sessions.modify k (Session.advance .tryPop)} sid) := by
  rw [modify_view held there _ (Track.advance · .tryPop) (fun _ => rfl)]
  split
  · exact .turns trivial
  · exact .idle trivial

theorem erase_view {server : Server heap} (different : sid ≠ other) : Server.view {server with table := server.table.erase other} sid = server.view sid := by
  have table : (server.table.erase other).lookup sid = server.table.lookup sid := by
    rw [FiniteMap.lookup_erased,if_neg different]
  apply View.ext
  · exact table
  · change Server.track _ sid = server.track sid
    rw [Server.track,Server.track,table]
  all_goals rfl

theorem serve_changes {server : Server heap} (held : Owned sid server) (kept : event ≠ .remove sid) (step : serve server event = some later) :
    Changes (server.view sid) (event.visit sid) (Roomy sid server event) (later.view sid) := by
  cases event with
  | request stream =>
    rw [serve] at step
    rw [Event.visit]
    cases read : handleConn stream with
    | ok action =>
      rw [read] at step
      cases step
      exact visit_changes held trivial
    | error stop =>
      rw [read] at step
      cases step
      exact .idle trivial
  | proceed i =>
    rw [serve] at step
    split at step
    · rename_i task found
      cases step
      exact proceed_changes held found
    · cases step
  | turn k =>
    rw [serve] at step
    split at step
    · rename_i session found
      split at step
      · cases step
        have there : server.owners[k]? = some session.owner := by
          rw [Server.owners,getElem?_map,found]
          rfl
        exact turn_changes held there
      · cases step
    · cases step
  | remove other =>
    rw [serve] at step
    split at step
    · cases step
      rw [erase_view fun same => kept (congrArg _ same.symm)]
      exact .idle trivial
    · cases step

def Visit.isDownload : Visit → Bool
  | .download => true
  | .upload _ _ => false

def Visit.posted : Visit → Option (Nat × Reading Bytes)
  | .download => none
  | .upload seq body => some (seq,body)

def posts (seen : List Visit) : List (Nat × Reading Bytes) := seen.filterMap Visit.posted

def opening : List Visit → Nat
  | .download :: _ => 1
  | _ => 0

theorem opening_concat (visit) (started : seen ≠ []) : opening (seen ++ [visit]) = opening seen := by
  cases seen with
  | nil => exact absurd rfl started
  | cons first rest => cases first <;> rfl

-- How the downloads of a session fare: the one that made the session is or will be granted, every other one is refused.
structure Granted (seen : List Visit) (view : View heap) : Prop where
  known : view.session = none ↔ seen = []
  granted : view.attaching.length + view.connections.length = opening seen
  refused : view.conflicts.length + view.answers.count 409 + opening seen = seen.countP Visit.isDownload
  accepted : view.answers.count 200 = view.connections.length
  codes : ∀ code ∈ view.answers, code = 200 ∨ code = 409
  places : ∀ k ∈ view.attaching ++ view.connections, view.session = some k

theorem Granted.started (granted : Granted seen view) (there : view.session = some k) : seen ≠ [] := by
  intro empty
  rw [granted.known.mpr empty] at there
  cases there

theorem Granted.untouched (granted : Granted seen view) (absent : view.session = none) : seen = [] ∧ view.attaching = [] ∧ view.connections = [] := by
  have empty := granted.known.mp absent
  have none_ := granted.granted
  rw [empty,show opening [] = 0 from rfl] at none_
  exact ⟨empty,length_eq_zero_iff.mp (by omega),length_eq_zero_iff.mp (by omega)⟩

theorem opens_granted (granted : Granted seen view) (absent : view.session = none) :
    Granted (seen ++ [.download]) {view with session := some k, attaching := view.attaching ++ [k]} := by
  have ⟨_,_,refused,accepted,codes,_⟩ := granted
  obtain ⟨rfl,attaching,connections⟩ := granted.untouched absent
  rw [attaching,connections]
  refine ⟨by simp,rfl,?_,?_,codes,by simp⟩
  · have before : view.conflicts.length + view.answers.count 409 + 0 = 0 := refused
    change view.conflicts.length + view.answers.count 409 + 1 = 1
    omega
  · rw [accepted,connections]

theorem repeats_granted {view : View heap} (granted : Granted seen view) (there : view.session = some k) :
    Granted (seen ++ [.download]) {view with conflicts := view.conflicts ++ [()]} := by
  have ⟨_,grants,refused,accepted,codes,places⟩ := granted
  have same := opening_concat .download (granted.started there)
  refine ⟨by simp [there],by rw [same]; exact grants,?_,accepted,codes,places⟩
  rw [countP_append,length_append]
  change view.conflicts.length + 1 + view.answers.count 409 + _ = _ + 1
  omega

theorem posts_granted (granted : Granted seen view) (there : view.session = none ∨ view.session = some k) :
    Granted (seen ++ [.upload seq body]) {view with session := some k, uploads := view.uploads ++ [(seq,body)]} := by
  have ⟨_,grants,refused,accepted,codes,places⟩ := granted
  have same : opening (seen ++ [.upload seq body]) = opening seen := by
    by_cases started : seen = []
    · rw [started]
      rfl
    · exact opening_concat _ started
  refine ⟨by simp,by rw [same]; exact grants,?_,accepted,codes,?_⟩
  · rw [same,countP_append]
    exact refused
  · intro j member
    rcases there with absent | there
    · obtain ⟨-,attaching,connections⟩ := granted.untouched absent
      rw [attaching,connections] at member
      cases member
    · exact there ▸ places j member

theorem Granted.codes_concat (granted : Granted seen view) (sent : code = 200 ∨ code = 409) : ∀ other ∈ view.answers ++ [code], other = 200 ∨ other = 409 := by
  intro other member
  rcases mem_append.mp member with old | new
  · exact granted.codes other old
  · exact mem_singleton.mp new ▸ sent

theorem attaches_granted (granted : Granted seen view) (found : view.attaching.Perm (k :: rest)) :
    Granted seen {view with attaching := rest, answers := view.answers ++ [200], connections := view.connections ++ [k]} := by
  have ⟨known,grants,refused,accepted,_,places⟩ := granted
  have width := found.length_eq
  rw [length_cons] at width
  refine ⟨known,?_,?_,?_,granted.codes_concat (.inl rfl),fun j member => places j ?_⟩
  · rw [← grants,width,length_append,length_singleton]
    dsimp only
    omega
  · rw [count_append]
    exact refused
  · rw [count_append,accepted,length_append]
    rfl
  · rw [mem_append,found.mem_iff,mem_cons]
    rw [mem_append,mem_append,mem_singleton] at member
    rcases member with waiting | old | same
    · exact .inl (.inr waiting)
    · exact .inr old
    · exact .inl (.inl same)

theorem refuses_granted (granted : Granted seen view) (found : view.conflicts.Perm (() :: rest)) :
    Granted seen {view with conflicts := rest, answers := view.answers ++ [409]} := by
  have ⟨known,grants,refused,accepted,_,places⟩ := granted
  have width := found.length_eq
  rw [length_cons] at width
  refine ⟨known,grants,?_,?_,granted.codes_concat (.inr rfl),places⟩
  · rw [count_append]
    change rest.length + (_ + 1) + _ = _
    omega
  · rw [count_append,accepted]
    rfl

theorem changes_granted (granted : Granted seen view) (change : Changes view visit room later) : Granted (seen ++ visit.toList) later := by
  have quiet : seen ++ (none : Option Visit).toList = seen := append_nil seen
  cases change with
  | idle => rwa [quiet]
  | opens k absent => exact opens_granted granted absent
  | repeats k there => exact repeats_granted granted there
  | posts k seq body there => exact posts_granted granted there
  | attaches k rest found => rw [quiet]; exact attaches_granted granted found
  | refuses rest found => rw [quiet]; exact refuses_granted granted found
  | pushes | drops | turns => rw [quiet]; exact ⟨granted.known,granted.granted,granted.refused,granted.accepted,granted.codes,granted.places⟩

def intact (payload : Nat → Bytes) (seq : Nat) : Nat × Reading Bytes := (seq,.ok (payload seq))

structure Orderly (payload : Nat → Bytes) (seen : List Visit) : Prop where
  once : ((posts seen).map Prod.fst).Nodup
  bodies : ∀ post ∈ posts seen, post = intact payload post.1

theorem Orderly.front (orderly : Orderly payload (seen ++ more)) : Orderly payload seen := by
  have parts : posts _ = posts seen ++ posts more := filterMap_append
  refine ⟨?_,fun post member => orderly.bodies post (by rw [parts]; exact mem_append_left _ member)⟩
  have once := orderly.once
  rw [parts,map_append] at once
  exact (nodup_append.mp once).1

-- The uploads of a session wait or have been carried out. All of these are in the queue or delivered exactly if each found room.
structure Carried (payload : Nat → Bytes) (seen : List Visit) (roomy : Prop) (view : View heap) (carried : List Nat) : Prop where
  posted : (posts seen).Perm (view.uploads ++ carried.map (intact payload))
  sound : Sound payload view.track
  taken : view.track.taken.Subperm carried
  fits : roomy ↔ view.track.taken.length = carried.length

theorem Carried.same (state : Carried payload seen roomy view carried) (free : room) : Carried payload seen (roomy ∧ room) view carried :=
  ⟨state.posted,state.sound,state.taken,(and_iff_left free).trans state.fits⟩

theorem mem_taken_of_delivered (sound : Sound payload track) (old : seq < track.queue.nextSeq) : seq ∈ track.taken := by
  rw [← Multiset.mem_coe,sound.taken]
  exact Multiset.mem_add.mpr (.inr (Multiset.mem_range.mpr old))

theorem posted_fresh {carried : List Nat} (all : (posts seen).Perm ((seq,body) :: (rest ++ carried.map (intact payload))))
    (orderly : Orderly payload seen) : seq ∉ carried := by
  intro again
  have once := (all.map Prod.fst).nodup_iff.mp orderly.once
  rw [map_cons,map_append] at once
  refine (nodup_cons.mp once).1 (mem_append_right _ ?_)
  rw [map_map]
  exact mem_map.mpr ⟨seq,again,rfl⟩

theorem Carried.push {view : View heap} (state : Carried payload seen roomy view carried) (orderly : Orderly payload seen)
    (found : view.uploads.Perm ((seq,.ok body) :: rest)) (free : room ↔ view.track.queue.items.card < 128) :
    Carried payload seen (roomy ∧ room) {view with uploads := rest, track := view.track.advance (.push seq body)} (carried ++ [seq]) := by
  have ⟨posted,sound,taken,roomy_⟩ := state
  have all := posted.trans (found.append_right _)
  have here := orderly.bodies _ (all.mem_iff.mpr (mem_cons_self ..))
  have same : body = payload seq := Except.ok.inj (Prod.mk.inj here).2
  subst same
  have current : view.track.queue.nextSeq ≤ seq := by
    by_contra old
    exact posted_fresh all orderly (taken.subset (mem_taken_of_delivered sound (Nat.not_le.mp old)))
  have takes : view.track.queue.Takes seq ↔ room := by
    rw [UploadQueue.Takes,sound.size,free]
    exact and_iff_right current
  have advanced : (view.track.advance (.push seq (payload seq))).taken =
      if view.track.queue.Takes seq then view.track.taken ++ [seq] else view.track.taken := rfl
  refine ⟨?_,push_sound sound seq,?_,?_⟩
  · rw [map_append,← append_assoc]
    exact all.trans (here ▸ (perm_append_singleton _ _).symm)
  · rw [advanced]
    split
    · exact (subperm_append_right _).mpr taken
    · exact taken.trans (sublist_append_left _ _).subperm
  · have bound := taken.length_le
    rw [advanced,length_append,length_singleton]
    split
    · rename_i goes
      rw [and_iff_left (takes.mp goes),roomy_,length_append,length_singleton]
      omega
    · rename_i stays
      exact iff_of_false (fun both => stays (takes.mpr both.2)) (by omega)

theorem changes_carried (state : Carried payload seen roomy view carried) (orderly : Orderly payload (seen ++ visit.toList))
    (change : Changes view visit room later) : ∃ carried, Carried payload (seen ++ visit.toList) (roomy ∧ room) later carried := by
  cases change with
  | idle free =>
    rw [Option.toList_none,append_nil]
    exact ⟨carried,state.same free⟩
  | opens _ _ free | repeats _ _ free =>
    have same : posts (seen ++ [.download]) = posts seen := filterMap_append.trans (append_nil _)
    exact ⟨carried,by rw [Option.toList_some,same]; exact state.posted,state.sound,state.taken,(state.same free).fits⟩
  | posts k seq body there free =>
    have more : posts (seen ++ [.upload seq body]) = posts seen ++ [(seq,body)] := filterMap_append
    refine ⟨carried,?_,state.sound,state.taken,(state.same free).fits⟩
    rw [Option.toList_some,more,append_assoc]
    exact (state.posted.append_right _).trans (by rw [append_assoc]; exact List.Perm.append_left _ perm_append_comm)
  | pushes seq body rest found free =>
    rw [Option.toList_none,append_nil] at orderly ⊢
    exact ⟨carried ++ [seq],state.push orderly found free⟩
  | drops seq stop rest found free =>
    rw [Option.toList_none,append_nil] at orderly ⊢
    have member : (seq,.error stop) ∈ posts seen := by
      rw [state.posted.mem_iff,mem_append,found.mem_iff]
      exact .inl (mem_cons_self ..)
    cases orderly.bodies _ member
  | attaches _ _ _ free | refuses _ _ free =>
    rw [Option.toList_none,append_nil]
    exact ⟨carried,state.posted,state.sound,state.taken,(state.same free).fits⟩
  | turns free =>
    rw [Option.toList_none,append_nil]
    exact ⟨carried,state.posted,tryPop_sound state.sound,state.taken,(state.same free).fits⟩

theorem visits_concat : visits sid (history ++ [event]) = visits sid history ++ (event.visit sid).toList := by
  rw [visits,filterMap_append,filterMap_cons]
  cases event.visit sid <;> rfl

theorem roomyRun_concat (reached : run serve (Server.start heap) history = some server) :
    RoomyRun heap sid (history ++ [event]) ↔ RoomyRun heap sid history ∧ Roomy sid server event := by
  constructor
  · intro roomy
    refine ⟨fun before other front => roomy before other (front.trans (prefix_append ..)),?_⟩
    exact roomy history event prefix_rfl server reached
  · rintro ⟨early,late⟩ before other front middle path
    rcases prefix_concat_iff.mp front with whole | part
    · obtain ⟨rfl,same⟩ := append_inj' whole rfl
      cases same
      cases reached.symm.trans path
      exact late
    · exact early before other part middle path

structure Follows (heap : Heap Packet.seq) (sid : Text) (payload : Nat → Bytes) (history : List Event) (server : Server heap) : Prop where
  reached : run serve (Server.start heap) history = some server
  held : Owned sid server
  granted : Granted (visits sid history) (server.view sid)
  carried : ∃ carried, Carried payload (visits sid history) (RoomyRun heap sid history) (server.view sid) carried

theorem start_follows (sid payload) : Follows heap sid payload [] (Server.start heap) := by
  refine ⟨rfl,start_owned,⟨iff_of_true rfl rfl,rfl,rfl,rfl,fun code member => ?_,fun k member => ?_⟩,[],List.Perm.refl _,
    start_sound payload,Subperm.refl _,iff_of_true ?_ rfl⟩
  · cases member
  · cases member
  · intro before event front
    exact absurd (prefix_nil.mp front) (by simp)

theorem serve_follows (follows : Follows heap sid payload history server) (kept : event ≠ .remove sid)
    (orderly : Orderly payload (visits sid (history ++ [event]))) (step : serve server event = some onward) :
    Follows heap sid payload (history ++ [event]) onward := by
  obtain ⟨reached,held,granted,carried,state⟩ := follows
  have change := serve_changes held kept step
  have further := changes_granted granted change
  rw [visits_concat] at orderly
  have ⟨later,moved⟩ := changes_carried state orderly change
  rw [← visits_concat] at further moved
  rw [← roomyRun_concat reached] at moved
  exact ⟨run_concat reached step,serve_owned held kept step,further,later,moved⟩

theorem run_follows (kept : .remove sid ∉ events) (orderly : Orderly payload (visits sid events))
    (path : run serve (Server.start heap) events = some server) : Follows heap sid payload events server := by
  have preserved := run_history
    (fun history server => .remove sid ∉ history → Orderly payload (visits sid history) → Follows heap sid payload history server)
    (fun history server event next ih step kept orderly => by
      rw [mem_append,not_or] at kept
      have front := orderly
      rw [visits_concat] at front
      exact serve_follows (ih kept.1 front.front) (fun same => kept.2 (same ▸ mem_singleton_self _)) orderly step)
    (fun _ _ => start_follows sid payload) path
  exact preserved kept orderly

theorem posts_whole : posts (.download :: (range n).map fun seq => .upload seq (.ok (payload seq))) = (range n).map (intact payload) := by
  rw [posts,filterMap_cons]
  rw [filterMap_map,← filterMap_eq_map]
  rfl

theorem fst_intact (payload) (seqs : List Nat) : (seqs.map (intact payload)).map Prod.fst = seqs := by
  rw [map_map]
  exact map_id seqs

theorem Arrives.posts (arrives : Arrives heap sid n payload events server) : (posts (visits sid events)).Perm ((range n).map (intact payload)) := by
  rw [← posts_whole]
  exact arrives.order.filterMap _

theorem Arrives.orderly (arrives : Arrives heap sid n payload events server) : Orderly payload (visits sid events) := by
  constructor
  · rw [(arrives.posts.map Prod.fst).nodup_iff,fst_intact]
    exact nodup_range
  · intro post member
    obtain ⟨seq,-,rfl⟩ := mem_map.mp (arrives.posts.mem_iff.mp member)
    rfl

theorem Arrives.single (arrives : Arrives heap sid n payload events server) : (visits sid events).countP Visit.isDownload = 1 := by
  have uploads : ((range n).map fun seq => Visit.upload seq (.ok (payload seq))).countP Visit.isDownload = 0 := by
    rw [countP_map]
    exact countP_eq_zero.mpr fun seq _ => by simp [Visit.isDownload]
  rw [arrives.order.countP_eq,countP_cons_of_pos rfl,uploads]

theorem Arrives.quiet (arrives : Arrives heap sid n payload events server) :
    (server.view sid).uploads = [] ∧ (server.view sid).attaching = [] ∧ (server.view sid).conflicts = [] := by
  have apart (task : Option Task) (member : task ∈ server.tasks) :
      uploadOf sid task = none ∧ attachOf sid task = none ∧ conflictOf sid task = none := by
    cases task with
    | none => exact ⟨rfl,rfl,rfl⟩
    | some task => exact others_task (arrives.settled task member)
  exact ⟨filterMap_eq_nil_iff.mpr fun task member => (apart task member).1,
    filterMap_eq_nil_iff.mpr fun task member => (apart task member).2.1,filterMap_eq_nil_iff.mpr fun task member => (apart task member).2.2⟩

theorem opening_iff : opening seen = 1 ↔ seen.head? = some .download := by
  cases seen with
  | nil => simp [opening]
  | cons first rest => cases first <;> simp [opening]

theorem turn_runs {server : Server heap} (found : server.sessions[k]? = some session) (on : session.attached = true) :
    ∃ last, run serve server (replicate turns (.turn k)) = some last ∧
      last.sessions[k]? = some {session with upload := session.upload.after (replicate turns .tryPop)} := by
  induction turns generalizing server session with
  | zero => exact ⟨server,rfl,found⟩
  | succ turns ih =>
    have step : serve server (.turn k) = some {server with sessions := server.sessions.modify k (Session.advance .tryPop)} := by
      rw [serve,found]
      dsimp only
      rw [if_pos on]
    have moved : (server.sessions.modify k (Session.advance .tryPop))[k]? = some (session.advance .tryPop) := by
      rw [getElem?_modify,found]
      simp
    obtain ⟨last,path,there⟩ := @ih _ {server with sessions := server.sessions.modify k _} moved on
    exact ⟨last,by rw [replicate_succ,run,step]; exact path,there⟩

theorem delivered_iff (state : Carried payload seen roomy view carried) (all : carried.Perm (range n)) :
    (∃ turns, (view.track.after (replicate turns .tryPop)).delivered = (range n).map payload) ↔ roomy := by
  have ⟨_,sound,taken,fits⟩ := state
  have width := all.length_eq.trans length_range
  rw [fits]
  constructor
  · rintro ⟨turns,delivered⟩
    have last := pops_sound turns sound
    have reached : (view.track.after (replicate turns .tryPop)).queue.nextSeq = n := by
      rw [← sound_next last,delivered,length_map,length_range]
    have count := congrArg Multiset.card last.taken
    rw [Multiset.card_add,Multiset.card_range,Multiset.coe_card,pops_taken] at count
    have bound := taken.length_le
    omega
  · intro same
    have whole := (taken.perm_of_length_le (by omega)).trans all
    have bounded : view.track.queue.nextSeq ≤ n := by
      by_contra beyond
      have inside := whole.mem_iff.mp (mem_taken_of_delivered sound (Nat.not_le.mp beyond))
      exact Nat.lt_irrefl n (mem_range.mp inside)
    have once (seq : Nat) (_ : seq + 1 < n) : view.track.taken.count seq ≤ 1 := by
      rw [whole.count_eq]
      exact nodup_iff_count_le_one.mp nodup_range seq
    have reached := pops_deliver (n - view.track.queue.nextSeq) sound (fun seq inside => whole.mem_iff.mpr (mem_range.mpr inside)) once
      (by omega)
    refine ⟨n - view.track.queue.nextSeq,?_⟩
    rw [(pops_sound _ sound).delivered,reached]

theorem answers_single (granted : Granted seen view) (quiet : view.attaching = []) (opened : opening seen = 1)
    (single : seen.countP Visit.isDownload = 1) : view.answers = [200] := by
  have one := granted.granted
  have none_ := granted.refused
  rw [quiet,length_nil,opened] at one
  have absent : 409 ∉ view.answers := count_eq_zero.mp (by omega)
  have accepted : ∀ code ∈ view.answers, code = 200 := fun code member =>
    (granted.codes code member).resolve_right fun same => absent (same ▸ member)
  have count := granted.accepted
  rw [eq_replicate_of_mem accepted,count_replicate_self] at count
  rw [eq_replicate_of_mem accepted,count,← Nat.zero_add view.connections.length,one]
  rfl

theorem connection_fed (held : Owned sid server) (granted : Granted seen (server.view sid)) (announced : ofId sid server.connections = [k]) :
    ∃ session, server.sessions[k]? = some session ∧ session.attached = true ∧ session.upload = (server.view sid).track := by
  have member : k ∈ ofId sid server.connections := by rw [announced]; exact mem_singleton_self k
  have known := granted.places k (mem_append_right _ member)
  obtain ⟨session,found,-⟩ := owner_session (held.table sid k known)
  obtain ⟨connection,inside,picked⟩ := mem_filterMap.mp member
  have on := held.attached connection inside
  split at picked
  · rw [Option.some.inj picked,Server.attachments,getElem?_map,found] at on
    exact ⟨session,found,Option.some.inj on,(track_of_lookup known found).symm⟩
  · cases picked

theorem set_up_iff (arrives : Arrives heap sid n payload events server) :
    SetUp sid n payload server ↔ (visits sid events).head? = some .download ∧ RoomyRun heap sid events := by
  obtain ⟨-,held,granted,carried,state⟩ := run_follows arrives.kept arrives.orderly arrives.path
  obtain ⟨uploads,attaching,-⟩ := arrives.quiet
  have all : carried.Perm (range n) := by
    have posted := state.posted.symm.trans arrives.posts
    rw [uploads,nil_append] at posted
    have seqs := posted.map Prod.fst
    rwa [fst_intact,fst_intact] at seqs
  have count := granted.granted
  rw [attaching,length_nil,Nat.zero_add] at count
  rw [← opening_iff,← delivered_iff state all]
  constructor
  · rintro ⟨-,k,announced,turns,last,session,path,there,delivered⟩
    obtain ⟨first,found,on,track⟩ := connection_fed held granted announced
    obtain ⟨again,other,moved⟩ := turn_runs found on
    cases path.symm.trans other
    cases there.symm.trans moved
    rw [track] at delivered
    refine ⟨?_,turns,delivered⟩
    rw [← count,show (server.view sid).connections = [k] from announced]
    rfl
  · rintro ⟨opened,turns,delivered⟩
    have answers := answers_single granted attaching opened arrives.single
    obtain ⟨k,announced⟩ := length_eq_one_iff.mp (count.trans opened)
    obtain ⟨session,found,on,track⟩ := connection_fed held granted announced
    obtain ⟨last,path,moved⟩ := turn_runs found on
    rw [track] at moved
    exact ⟨answers,k,announced,turns,last,_,path,moved,delivered⟩

def rootPath : Text := ['/']
def sampleId : Text := ['a']
def sampleHost : Text := ['h']

def inOneRead (bytes : Bytes) : Stream bufferSize := ⟨[PolledStream.oneRead bytes],.stillOpen⟩

def downloadStream : Stream bufferSize := inOneRead (downloadRequest rootPath sampleId sampleHost)
def uploadStream : Stream bufferSize := inOneRead (uploadRequest rootPath sampleId sampleHost 0 [7])

deriving instance DecidableEq for Action

theorem downloadStream_read : handleConn downloadStream = .ok (.download sampleId) := by decide +kernel
theorem uploadStream_read : handleConn uploadStream = .ok (.upload sampleId 0 (.ok [7])) := by decide +kernel

def downloadFirst : List Event := [.request downloadStream,.request uploadStream,.proceed 0,.proceed 1]
def uploadFirst : List Event := [.request uploadStream,.request downloadStream,.proceed 0,.proceed 1]

def samplePayload : Nat → Bytes := fun _ => [7]
def sampleQueue : Track (listed Packet.seq) := Track.start.advance (.push 0 [7])

def servedSession : Server (listed Packet.seq) :=
  ⟨[⟨sampleId,sampleQueue,true⟩],(∅ : AList fun _ : Text => Nat).insert sampleId 0,[none,none],[(sampleId,200)],[(sampleId,0)]⟩

def refusedSession : Server (listed Packet.seq) :=
  ⟨[⟨sampleId,sampleQueue,false⟩],(∅ : AList fun _ : Text => Nat).insert sampleId 0,[none,none],[(sampleId,409)],[]⟩

theorem downloadFirst_arrives : Arrives (listed Packet.seq) sampleId 1 samplePayload downloadFirst servedSession := by
  refine ⟨?_,?_,?_,?_⟩
  · simp only [downloadFirst,run,serve,downloadStream_read,uploadStream_read,Option.bind_some]
    rfl
  · simp only [visits,downloadFirst,filterMap_cons,Event.visit,downloadStream_read,uploadStream_read]
    exact List.Perm.refl _
  · simp [downloadFirst]
  · simp [servedSession]

theorem uploadFirst_arrives : Arrives (listed Packet.seq) sampleId 1 samplePayload uploadFirst refusedSession := by
  refine ⟨?_,?_,?_,?_⟩
  · simp only [uploadFirst,run,serve,downloadStream_read,uploadStream_read,Option.bind_some]
    rfl
  · simp only [visits,uploadFirst,filterMap_cons,Event.visit,downloadStream_read,uploadStream_read]
    exact List.Perm.swap ..
  · simp [uploadFirst]
  · simp [refusedSession]

theorem set_up_download_first :
    SetUp sampleId 1 samplePayload servedSession ∧ (visits sampleId downloadFirst).head? = some .download ∧
      RoomyRun (listed Packet.seq) sampleId downloadFirst := by
  have setUp : SetUp sampleId 1 samplePayload servedSession := ⟨rfl,0,rfl,1,_,_,rfl,rfl,rfl⟩
  exact ⟨setUp,(set_up_iff downloadFirst_arrives).mp setUp⟩

theorem download_refused_after_upload :
    Arrives (listed Packet.seq) sampleId 1 samplePayload uploadFirst refusedSession ∧ ¬ SetUp sampleId 1 samplePayload refusedSession ∧
      ofId sampleId refusedSession.answers = [409] ∧ ofId sampleId refusedSession.connections = [] := by
  refine ⟨uploadFirst_arrives,?_,rfl,rfl⟩
  rintro ⟨accepted,-⟩
  exact absurd accepted (by decide)

end AstraCore.SplitHttp
