import AstraCore.KeyedList
import AstraCore.KcpLifecycle
import AstraCore.KcpPacketReader

namespace AstraCore.KcpListener
open CheckedBytes KcpSegment KcpSending KcpConnection Machine FiniteMap List
variable {Remote : Type}

structure SessionId (Remote : Type) where
  remote : Remote
  conv : UInt16
deriving DecidableEq

structure Session (Remote : Type) where
  id : SessionId Remote
  conn : Connection
  dataLoop : Bool
  pingLoop : Bool

-- Every connection made so far, in the order in which they were made; the table names them by their place there.
structure Listener (Remote : Type) where
  sessions : List (Session Remote)
  table : AList (fun _ : SessionId Remote => Nat)
  announced : List Nat
  listening : Bool

def Listener.start : Listener Remote := ⟨[],∅,[],true⟩

-- One turn of each loop. A task whose `flush` panics is over as well.
def Session.dataUpdater (session : Session Remote) (clock : Nat → UInt32) : Session Remote :=
  if session.conn.state = .terminating ∨ session.conn.state = .terminated then {session with dataLoop := false}
  else if !(session.conn.sending.updateNecessary || session.conn.receiving.updateNecessary) ∧ session.conn.state = .active then session
  else
    match session.conn.flush clock with
    | .ok (conn,_) => {session with conn}
    | .error _ => {session with dataLoop := false}

def Session.pingUpdater (session : Session Remote) (clock : Nat → UInt32) : Session Remote :=
  if session.conn.state = .terminated then {session with pingLoop := false}
  else
    match session.conn.flush clock with
    | .ok (conn,_) => {session with conn}
    | .error _ => {session with pingLoop := false}

-- The listener's loop takes a datagram; the tasks of a connection run; whoever the connection was announced to calls it. Since
-- `flush` awaits its packets, its stages are events of their own as well.
inductive Event (Remote : Type) where
  | datagram (remote : Remote) (data : Bytes) (clock : Nat → UInt32)
  | recvFails
  | dataTick (i : Nat) (clock : Nat → UInt32)
  | pingTick (i : Nat) (clock : Nat → UInt32)
  | stage (i : Nat) (stage : Stage)
  | call (i : Nat) (call : KcpLifecycle.Call)
  | terminate (i : Nat)

section
variable (listener : Listener Remote)

def Listener.feed (i : Nat) (segments : List Segment) (clock : Nat → UInt32) : Listener Remote :=
  {listener with sessions := listener.sessions.modify i fun session => {session with conn := session.conn.input segments clock}}

def Listener.replace (i : Nat) (session : Session Remote) : Listener Remote :=
  {listener with sessions := listener.sessions.set i session}

def Listener.ids : List (SessionId Remote) := listener.sessions.map Session.id

end

theorem replace_ids {listener : Listener Remote} (found : listener.sessions[i]? = some session) (same : later.id = session.id) :
    (listener.replace i later).ids = listener.ids := by
  obtain ⟨inside,rfl⟩ := List.getElem?_eq_some_iff.mp found
  unfold Listener.replace Listener.ids
  rw [map_set,same]
  apply ext_getElem?
  intro k
  by_cases here : i = k
  · rw [← here,getElem?_set_self (by rwa [length_map]),getElem?_map,found]
    rfl
  · rw [getElem?_set_ne here]

theorem feed_ids (listener : Listener Remote) : (listener.feed i segments clock).ids = listener.ids := by
  unfold Listener.feed Listener.ids
  apply ext_getElem?
  intro k
  rw [getElem?_map,getElem?_map,getElem?_modify]
  cases listener.sessions[k]? with
  | none => rfl
  | some session =>
    split
    · rfl
    · rfl

theorem feed_other (listener : Listener Remote) (apart : j ≠ i) : (listener.feed j segments clock).sessions[i]? = listener.sessions[i]? :=
  getElem?_modify_ne _ _ apart

theorem dataUpdater_id (session : Session Remote) : (session.dataUpdater clock).id = session.id := by
  unfold Session.dataUpdater
  split
  · rfl
  · split
    · rfl
    · split
      · rfl
      · rfl

theorem pingUpdater_id (session : Session Remote) : (session.pingUpdater clock).id = session.id := by
  unfold Session.pingUpdater
  split
  · rfl
  · split
    · rfl
    · rfl

variable [DecidableEq Remote]

def Listener.accept (listener : Listener Remote) (id : SessionId Remote) (conn : Connection) : Listener Remote :=
  {listener with
    sessions := listener.sessions ++ [⟨id,conn,true,true⟩]
    table := listener.table.insert id listener.sessions.length
    announced := listener.announced ++ [listener.sessions.length]}

-- A panic in the reader or in `Connection::new` ends the listener's task, as an error of the socket does.
def Listener.receive (config : Config) (listener : Listener Remote) (remote : Remote) (data : Bytes) (clock : Nat → UInt32) :
    Listener Remote :=
  if data = [] then listener
  else
    match KcpPacketReader.read data with
    | .error _ => {listener with listening := false}
    | .ok [] => listener
    | .ok (seg :: rest) =>
      match listener.table.lookup ⟨remote,seg.conv⟩ with
      | some i => listener.feed i (seg :: rest) clock
      | none =>
        match Connection.new seg.conv config with
        | .error _ => {listener with listening := false}
        | .ok conn => (listener.accept ⟨remote,seg.conv⟩ conn).feed listener.sessions.length (seg :: rest) clock

def advance (config : Config) (listener : Listener Remote) : Event Remote → Option (Listener Remote)
  | .datagram remote data clock => if listener.listening then some (listener.receive config remote data clock) else none
  | .recvFails => if listener.listening then some {listener with listening := false} else none
  | .dataTick i clock => do
    let session ← listener.sessions[i]?
    if session.dataLoop then some (listener.replace i (session.dataUpdater clock)) else none
  | .pingTick i clock => do
    let session ← listener.sessions[i]?
    if session.pingLoop then some (listener.replace i (session.pingUpdater clock)) else none
  | .stage i stage => do
    let session ← listener.sessions[i]?
    let (conn,_) ← (session.conn.perform stage).toOption
    some (listener.replace i {session with conn})
  | .call i call => do
    let session ← listener.sessions[i]?
    let life ← KcpLifecycle.advance ⟨session.conn,[]⟩ call
    some (listener.replace i {session with conn := life.conn})
  | .terminate i => do
    let session ← listener.sessions[i]?
    some {listener with table := listener.table.erase session.id}

def Session.Dead (session : Session Remote) : Prop :=
  session.conn.state = .terminated ∧ session.dataLoop = false ∧ session.pingLoop = false

def Carries (data : Bytes) (conv : UInt16) : Prop := ∃ seg rest, KcpPacketReader.read data = .ok (seg :: rest) ∧ seg.conv = conv

-- The table does not lead to the connection any more: a datagram with its key leaves it alone, and where the key is free it makes
-- and announces a new one.
def Forgotten (config : Config) (listener : Listener Remote) (i : Nat) (session : Session Remote) : Prop :=
  listener.table.lookup session.id ≠ some i ∧
    ∀ data clock next, Carries data session.id.conv →
      advance config listener (.datagram session.id.remote data clock) = some next →
        next.sessions[i]? = some session ∧
          (listener.table.lookup session.id = none → next.listening = true → next.announced = listener.announced ++ [listener.sessions.length])

def DeadForgotten (config : Config) (listener : Listener Remote) : Prop :=
  ∀ i session, listener.sessions[i]? = some session → session.Dead → Forgotten config listener i session

-- At some point of the run at which the connection was there, `terminate` was called on it or on another one with its key.
def Terminated (config : Config) (events : List (Event Remote)) (i : Nat) : Prop :=
  ∃ before k after listener id, events = before ++ .terminate k :: after ∧ run (advance config) .start before = some listener ∧
    listener.ids[k]? = some id ∧ listener.ids[i]? = some id

inductive Change (listener : Listener Remote) (event : Event Remote) (next : Listener Remote) : Prop where
  | none (other : ∀ k, event ≠ .terminate k) (ids : next.ids = listener.ids) (table : next.table = listener.table)
  | added (id : SessionId Remote) (other : ∀ k, event ≠ .terminate k) (free : listener.table.lookup id = none)
      (ids : next.ids = listener.ids ++ [id]) (table : next.table = listener.table.insert id listener.ids.length)
  | removed (k : Nat) (id : SessionId Remote) (called : event = .terminate k) (named : listener.ids[k]? = some id)
      (ids : next.ids = listener.ids) (table : next.table = listener.table.erase id)

theorem receive_changes (remote : Remote) (other : ∀ k, event ≠ Event.terminate k) : Change listener event (listener.receive config remote data clock) := by
  unfold Listener.receive
  split
  · exact .none other rfl rfl
  · split
    · exact .none other rfl rfl
    · exact .none other rfl rfl
    · rename_i seg rest read
      split
      · exact .none other (feed_ids ..) rfl
      · rename_i free
        split
        · exact .none other rfl rfl
        · refine .added ⟨remote,seg.conv⟩ other free ?_ ?_
          · rw [feed_ids]
            exact map_append
          · change listener.table.insert _ listener.sessions.length = _
            rw [Listener.ids,length_map]

section
variable {listener : Listener Remote}

theorem advance_changes (step : advance config listener event = some later) : Change listener event later := by
  cases event with
  | datagram remote data clock =>
    simp only [advance] at step
    split at step
    · cases step
      exact receive_changes remote (by simp)
    · cases step
  | recvFails =>
    simp only [advance] at step
    split at step
    · cases step
      exact .none (by simp) rfl rfl
    · cases step
  | dataTick i clock =>
    obtain ⟨session,found,step⟩ := Option.bind_eq_some_iff.mp step
    split at step
    · cases step
      exact .none (by simp) (replace_ids found (dataUpdater_id session)) rfl
    · cases step
  | pingTick i clock =>
    obtain ⟨session,found,step⟩ := Option.bind_eq_some_iff.mp step
    split at step
    · cases step
      exact .none (by simp) (replace_ids found (pingUpdater_id session)) rfl
    · cases step
  | stage i stage =>
    obtain ⟨session,found,step⟩ := Option.bind_eq_some_iff.mp step
    obtain ⟨⟨conn,packets⟩,performed,step⟩ := Option.bind_eq_some_iff.mp step
    cases step
    exact .none (by simp) (replace_ids found rfl) rfl
  | call i call =>
    obtain ⟨session,found,step⟩ := Option.bind_eq_some_iff.mp step
    obtain ⟨life,called,step⟩ := Option.bind_eq_some_iff.mp step
    cases step
    exact .none (by simp) (replace_ids found rfl) rfl
  | terminate k =>
    obtain ⟨session,found,step⟩ := Option.bind_eq_some_iff.mp step
    cases step
    refine .removed k session.id rfl ?_ rfl rfl
    rw [Listener.ids,getElem?_map,found]
    rfl

theorem advance_ids (step : advance config listener event = some later) : listener.ids <+: later.ids := by
  cases advance_changes step with
  | none _ ids _ => rw [ids]
  | added id _ _ ids _ => rw [ids]; exact prefix_append ..
  | removed _ _ _ _ ids _ => rw [ids]

theorem run_ids (path : run (advance config) listener events = some last) : listener.ids <+: last.ids :=
  run_invariant (fun later => listener.ids <+: later.ids) (fun _ _ _ grown step => grown.trans (advance_ids step)) (prefix_rfl) path

theorem terminated_concat (path : run (advance config) .start history = some listener) : Terminated config (history ++ [event]) i ↔
      Terminated config history i ∨ ∃ k id, event = .terminate k ∧ listener.ids[k]? = some id ∧ listener.ids[i]? = some id := by
  constructor
  · rintro ⟨before,k,after,earlier,id,parts,reached,called,here⟩
    rcases eq_nil_or_concat after with rfl | ⟨init,last,rfl⟩
    · have same := append_inj_right' parts rfl
      rw [← append_inj_left' parts rfl,path] at reached
      cases Option.some.inj reached
      exact .inr ⟨k,id,(List.cons.inj same).1,called,here⟩
    · rw [concat_eq_append,← cons_append,← append_assoc] at parts
      exact .inl ⟨before,k,init,earlier,id,append_inj_left' parts rfl,reached,called,here⟩
  · rintro (⟨before,k,after,earlier,id,rfl,reached,called,here⟩ | ⟨k,id,rfl,called,here⟩)
    · exact ⟨before,k,after ++ [event],earlier,id,by simp,reached,called,here⟩
    · exact ⟨history,k,[],listener,id,rfl,path,called,here⟩

end

structure Kept (config : Config) (history : List (Event Remote)) (listener : Listener Remote) : Prop where
  path : run (advance config) .start history = some listener
  named : ∀ id i, listener.table.lookup id = some i → listener.ids[i]? = some id
  held : ∀ i id, listener.ids[i]? = some id → (listener.table.lookup id = some i ↔ ¬ Terminated config history i)

section
variable {listener : Listener Remote}

theorem terminated_same (path : run (advance config) .start history = some listener)
    (other : ∀ k, event ≠ .terminate k) : Terminated config (history ++ [event]) i ↔ Terminated config history i := by
  rw [terminated_concat path]
  apply or_iff_left
  rintro ⟨k,_,called,_⟩
  exact other k called

theorem unmade_unterminated (path : run (advance config) .start history = some listener) : ¬ Terminated config history listener.ids.length := by
  rintro ⟨before,k,after,earlier,key,parts,reached,-,there⟩
  rw [parts] at path
  obtain ⟨middle,early,late⟩ := run_split path
  cases Option.some.inj (reached.symm.trans early)
  have grown := (run_ids late).length_le
  have inside := (List.getElem?_eq_some_iff.mp there).1
  omega

theorem added_kept {id : SessionId Remote} (kept : Kept config history listener)
    (longer : run (advance config) .start (history ++ [event]) = some later) (other : ∀ k, event ≠ .terminate k)
    (free : listener.table.lookup id = none) (ids : later.ids = listener.ids ++ [id])
    (table : later.table = listener.table.insert id listener.ids.length) : Kept config (history ++ [event]) later := by
  refine ⟨longer,fun key i found => ?_,fun i key here => ?_⟩
  · rw [table,lookup_inserted] at found
    rw [ids]
    split at found
    · rename_i new
      cases Option.some.inj found
      rw [new,getElem?_concat_length]
    · have old := kept.named key i found
      rw [getElem?_append_left (List.getElem?_eq_some_iff.mp old).1]
      exact old
  · rw [terminated_same kept.path other,table,lookup_inserted]
    rw [ids] at here
    by_cases new : i = listener.ids.length
    · rw [new,getElem?_concat_length] at here
      rw [if_pos (Option.some.inj here).symm,new]
      exact iff_of_true rfl (unmade_unterminated kept.path)
    · have old : listener.ids[i]? = some key := by
        have inside := (List.getElem?_eq_some_iff.mp here).1
        rw [length_append,length_singleton] at inside
        rwa [getElem?_append_left (by omega)] at here
      have before := kept.held i key old
      split
      · rename_i taken
        rw [taken,free] at before
        refine iff_of_false (fun there => new (Option.some.inj there).symm) ?_
        exact fun untouched => absurd (before.mpr untouched) (by simp)
      · exact before

end

theorem removed_kept {id : SessionId Remote} (kept : Kept config history listener)
    (longer : run (advance config) .start (history ++ [event]) = some later) (called : event = .terminate k)
    (found : listener.ids[k]? = some id) (ids : later.ids = listener.ids) (table : later.table = listener.table.erase id) :
    Kept config (history ++ [event]) later := by
  refine ⟨longer,fun key i there => ?_,fun i key here => ?_⟩
  · rw [table,lookup_erased] at there
    rw [ids]
    split at there
    · cases there
    · exact kept.named key i there
  · rw [ids] at here
    rw [table,lookup_erased,terminated_concat kept.path]
    split
    · rename_i same
      rw [same] at here
      refine iff_of_false (by simp) (not_not_intro (.inr ⟨k,id,called,found,here⟩))
    · rename_i different
      rw [kept.held i key here]
      apply not_congr
      refine (or_iff_left ?_).symm
      rintro ⟨j,other,again,there,mine⟩
      cases called.symm.trans again
      rw [found] at there
      cases Option.some.inj there
      exact different (Option.some.inj (here.symm.trans mine))

theorem advance_kept {listener : Listener Remote} (kept : Kept config history listener) (step : advance config listener event = some later) :
    Kept config (history ++ [event]) later := by
  have longer := run_concat kept.path step
  cases advance_changes step with
  | none other ids table =>
    refine ⟨longer,by rw [ids,table]; exact kept.named,fun i id here => ?_⟩
    rw [terminated_same kept.path other,table]
    rw [ids] at here
    exact kept.held i id here
  | added id other free ids table => exact added_kept kept longer other free ids table
  | removed k id called found ids table => exact removed_kept kept longer called found ids table

theorem run_kept (path : run (advance config) (Listener.start : Listener Remote) events = some listener) : Kept config events listener := by
  have start : Kept config [] (Listener.start : Listener Remote) := by
    refine ⟨rfl,fun id i found => ?_,fun i id here => ?_⟩
    · cases found
    · cases here
  exact run_history (Kept config) (fun _ _ _ _ kept step => advance_kept kept step) start path

theorem receive_other (listener : Listener Remote) (found : listener.sessions[i]? = some session)
    (other : listener.table.lookup session.id ≠ some i) (carries : Carries data session.id.conv) :
    (listener.receive config session.id.remote data clock).sessions[i]? = some session ∧
      (listener.table.lookup session.id = none → (listener.receive config session.id.remote data clock).listening = true →
        (listener.receive config session.id.remote data clock).announced = listener.announced ++ [listener.sessions.length]) := by
  obtain ⟨seg,rest,read,conv⟩ := carries
  have inside := (List.getElem?_eq_some_iff.mp found).1
  have key : (⟨session.id.remote,seg.conv⟩ : SessionId Remote) = session.id := by rw [conv]
  have present : data ≠ [] := by
    rintro rfl
    rw [KcpPacketReader.read,KcpPacketReader.readLoop_nil] at read
    cases read
  unfold Listener.receive
  rw [if_neg present,read]
  dsimp only
  rw [key]
  cases lookup : listener.table.lookup session.id with
  | some j =>
    have apart : j ≠ i := fun same => other (lookup.trans (congrArg some same))
    refine ⟨?_,fun free => by cases free⟩
    rw [feed_other _ apart]
    exact found
  | none =>
    cases Connection.new seg.conv config with
    | error fault => exact ⟨found,fun _ stopped => by cases stopped⟩
    | ok conn =>
      refine ⟨?_,fun _ _ => rfl⟩
      rw [feed_other _ (Nat.ne_of_gt inside)]
      change (listener.sessions ++ _)[i]? = _
      rw [getElem?_append_left inside]
      exact found

theorem forgotten_iff {listener : Listener Remote} (found : listener.sessions[i]? = some session) :
    Forgotten config listener i session ↔ listener.table.lookup session.id ≠ some i := by
  refine ⟨And.left,fun other => ⟨other,fun data clock next carries step => ?_⟩⟩
  simp only [advance] at step
  split at step
  · cases step
    exact receive_other listener found other carries
  · cases step

-- In every run the dead connections are forgotten exactly if for each of them `terminate` has been called.
theorem sessions_removed_iff (config : Config) (events : List (Event Remote)) (listener : Listener Remote)
    (path : run (advance config) .start events = some listener) :
    DeadForgotten config listener ↔
      ∀ i session, listener.sessions[i]? = some session → session.Dead → Terminated config events i := by
  have kept := run_kept path
  refine forall_congr' fun i => forall_congr' fun session => forall_congr' fun found => forall_congr' fun _ => ?_
  have named : listener.ids[i]? = some session.id := by
    rw [Listener.ids,getElem?_map,found]
    rfl
  rw [forgotten_iff found,ne_eq,kept.held i session.id named,not_not]

def greeting : DataSegment := ⟨7,⟨0⟩,0,0,0,[1],0,0⟩

theorem greeting_read : KcpPacketReader.read greeting.serialize = .ok [.data greeting] := by decide +kernel

-- The connection is closed by its user, tells the peer so for ten seconds and is over; both of its tasks see that and end.
def lifeEvents : List (Event Nat) :=
  [.call 0 (.close 10),.pingTick 0 (fun _ => 5000),.pingTick 0 (fun _ => 15000),.dataTick 0 (fun _ => 15050),.pingTick 0 (fun _ => 20000)]

def wholeLife : List (Event Nat) := .datagram 0 greeting.serialize (fun _ => 0) :: lifeEvents

def greeted : Listener Nat := (Listener.start.accept ⟨0,7⟩ KcpStream.freshConnection).feed 0 [.data greeting] (fun _ => 0)

theorem greeted_first : advance .default Listener.start (.datagram (0 : Nat) greeting.serialize (fun _ => 0)) = some greeted := by
  simp only [advance,Listener.receive,greeting_read]
  rfl

def remains (listener : Listener Nat) : List (SessionId Nat × State × Bool × Bool) × Option Nat :=
  (listener.sessions.map fun session => (session.id,session.conn.state,session.dataLoop,session.pingLoop),listener.table.lookup ⟨0,7⟩)

theorem wholeLife_remains :
    ∃ listener, run (advance .default) .start wholeLife = some listener ∧ remains listener = ([(⟨0,7⟩,.terminated,false,false)],some 0) := by
  have lived : (run (advance .default) greeted lifeEvents).map remains = some ([(⟨0,7⟩,.terminated,false,false)],some 0) := by
    decide
  obtain ⟨listener,path,left⟩ := Option.map_eq_some_iff.mp lived
  refine ⟨listener,?_,left⟩
  rw [wholeLife,run,greeted_first]
  exact path

theorem remains_session (left : remains listener = ([(key,state,dataLoop,pingLoop)],place)) :
    ∃ session, listener.sessions = [session] ∧ session.id = key ∧ session.conn.state = state ∧ session.dataLoop = dataLoop ∧
      session.pingLoop = pingLoop ∧ listener.table.lookup ⟨0,7⟩ = place := by
  obtain ⟨sessions,lookup⟩ := Prod.mk.inj left
  obtain ⟨session,same,read⟩ := map_eq_singleton_iff.mp sessions
  obtain ⟨named,rest⟩ := Prod.mk.inj read
  obtain ⟨stated,loops⟩ := Prod.mk.inj rest
  obtain ⟨data,ping⟩ := Prod.mk.inj loops
  exact ⟨session,same,named,stated,data,ping,lookup⟩

theorem dead_connection_kept :
    ∃ listener session, run (advance .default) .start wholeLife = some listener ∧ listener.sessions[0]? = some session ∧ session.Dead ∧
      listener.table.lookup session.id = some 0 ∧ ¬ DeadForgotten .default listener := by
  obtain ⟨listener,path,left⟩ := wholeLife_remains
  obtain ⟨session,only,named,finished,data,ping,lookup⟩ := remains_session left
  have found : listener.sessions[0]? = some session := by rw [only]; rfl
  have dead : session.Dead := ⟨finished,data,ping⟩
  rw [← named] at lookup
  exact ⟨listener,session,path,found,dead,lookup,fun forgotten => (forgotten 0 session found dead).1 lookup⟩

theorem sessions_removed_terminated :
    ∃ listener, run (advance .default) .start (wholeLife ++ [.terminate 0]) = some listener ∧ DeadForgotten .default listener := by
  obtain ⟨listener,path,left⟩ := wholeLife_remains
  obtain ⟨session,only,-⟩ := remains_session left
  have found : listener.sessions[0]? = some session := by rw [only]; rfl
  have step : advance .default listener (.terminate 0) = some {listener with table := listener.table.erase session.id} := by
    rw [advance,found]
    rfl
  have ended := run_concat path step
  refine ⟨_,ended,(sessions_removed_iff .default _ _ ended).mpr fun i other here _ => ?_⟩
  have first : i = 0 := by
    have inside := (List.getElem?_eq_some_iff.mp here).1
    rw [only,length_singleton] at inside
    omega
  have key : listener.ids[0]? = some session.id := by rw [Listener.ids,only]; rfl
  rw [first]
  exact ⟨wholeLife,0,[],listener,session.id,rfl,path,key,key⟩

-- Datagrams of a key go to its one connection that was not terminated.
theorem table_live_iff (path : run (advance config) .start events = some listener) (id : SessionId Remote) (i) :
    listener.table.lookup id = some i ↔ listener.ids[i]? = some id ∧ ¬ Terminated config events i := by
  have kept := run_kept path
  refine ⟨fun found => ?_,fun live => (kept.held i id live.1).mpr live.2⟩
  have there := kept.named id i found
  exact ⟨there,(kept.held i id there).mp found⟩

theorem table_live_greeted : ∃ listener, run (advance .default) .start wholeLife = some listener ∧
    (listener.table.lookup ⟨0,7⟩ = some 0 ↔ listener.ids[0]? = some ⟨0,7⟩ ∧ ¬ Terminated .default wholeLife 0) := by
  obtain ⟨listener,path,-⟩ := wholeLife_remains
  exact ⟨listener,path,table_live_iff path _ _⟩

end AstraCore.KcpListener
