import AstraCore.KcpSending
import AstraCore.KcpReceiving

namespace AstraCore.KcpConnection
open CheckedBytes KcpSegment KcpSending KcpReceiving

inductive State where
  | active
  | readyToClose
  | peerClosed
  | terminating
  | peerTerminating
  | terminated
deriving DecidableEq, Repr

structure RoundTripInfo where
  variation : UInt32
  srtt : UInt32
  rto : UInt32
  minRtt : UInt32
  updatedTimestamp : UInt32
deriving DecidableEq, Repr

def RoundTripInfo.new (minRtt : UInt32) : RoundTripInfo := ⟨0,0,100,minRtt,0⟩

def RoundTripInfo.updatePeerRto (info : RoundTripInfo) (rto current : UInt32) : RoundTripInfo :=
  if current - info.updatedTimestamp < 3000 then info else {info with updatedTimestamp := current,rto}

def RoundTripInfo.timeout (info : RoundTripInfo) : UInt32 := info.rto

structure Connection where
  conversation : UInt16
  config : Config
  mss : UInt32
  state : State
  stateBeginTime : UInt32
  lastIncomingTime : UInt32
  lastPingTime : UInt32
  roundTrip : RoundTripInfo
  receiving : ReceivingWorker
  sending : SendingWorker

def Connection.new (conversation : UInt16) (config : Config) : Checked Connection := do
  let sending ← SendingWorker.new config
  .ok ⟨conversation,config,config.mss,.active,0,0,0,.new config.tti,.new config.mss,sending⟩

section
variable (conn : Connection)

-- `elapsed` is read anew by every `set_state`; a reading is therefore an argument.
def Connection.setState (state : State) (current : UInt32) : Connection :=
  let conn := {conn with state,stateBeginTime := current}
  match state with
  | .active => conn
  | .readyToClose => {conn with receiving := conn.receiving.closeRead}
  | .peerClosed => {conn with sending := conn.sending.closeWrite}
  | .terminating => {conn with receiving := conn.receiving.closeRead,sending := conn.sending.closeWrite}
  | .peerTerminating => {conn with sending := conn.sending.closeWrite}
  | .terminated => {conn with receiving := conn.receiving.closeRead,sending := conn.sending.closeWrite}

def Connection.close (current : UInt32) : Connection :=
  match conn.state with
  | .active => conn.setState .readyToClose current
  | .peerClosed => conn.setState .terminating current
  | .peerTerminating => conn.setState .terminated current
  | _ => conn

def Connection.handleOption (opt : SegmentOption) (current : UInt32) : Connection :=
  if opt.containsClose then
    match conn.state with
    | .readyToClose => conn.setState .terminating current
    | .active => conn.setState .peerClosed current
    | _ => conn
  else conn

def Connection.ping (current : UInt32) (cmd : Command) : Connection × List Segment :=
  let seg := {CmdOnlySegment.new cmd with
    conv := conn.conversation
    receivingNext := conn.receiving.nextNumber
    sendingNext := conn.sending.firstUnacknowledged
    peerRto := conn.roundTrip.timeout
    option := if conn.state = .readyToClose then .close else ⟨0⟩}
  ({conn with lastPingTime := current},[.cmdOnly seg])

section
variable (clock : Nat → UInt32)

-- The parts of `flush` between two points where it awaits. `clock i` is the i-th reading the
-- whole call would make; `clock 0` is the `current` it starts with.
def Connection.expire : Connection :=
  let conn :=
    if conn.state = .active ∧ clock 0 - conn.lastIncomingTime ≥ 30000 then conn.close (clock 1) else conn
  if conn.state = .readyToClose ∧ conn.sending.isEmpty then conn.setState .terminating (clock 2) else conn

def Connection.linger : Connection :=
  if clock 0 - conn.stateBeginTime > 8000 then conn.setState .terminated (clock 3) else conn

def Connection.giveUp : Connection :=
  let conn :=
    if conn.state = .peerTerminating ∧ clock 0 - conn.stateBeginTime > 4000
    then conn.setState .terminating (clock 4) else conn
  if conn.state = .readyToClose ∧ clock 0 - conn.stateBeginTime > 15000
  then conn.setState .terminating (clock 5) else conn

def Connection.sendAcks (current rto : UInt32) : Connection × List Segment :=
  let (receiving,segs) := conn.receiving.flushAcks current rto conn.conversation
  ({conn with receiving},segs.map .ack)

def stamp (conv : UInt16) (firstUna : UInt32) (hasClose : Bool) (seg : DataSegment) : DataSegment :=
  {seg with conv,sendingNext := firstUna,option := if hasClose then .close else ⟨0⟩}

def Connection.sendData (current rto : UInt32) (hasClose : Bool) :
    Checked (Connection × List Segment) := do
  let firstUna := conn.sending.firstUnacknowledged
  let (sending,segs) ← conn.sending.flush current conn.config rto
  .ok ({conn with sending},segs.map fun seg => .data (stamp conn.conversation firstUna hasClose seg))

def Connection.flush : Checked (Connection × List Segment) :=
  if conn.state = .terminated then .ok (conn,[])
  else
    let conn := conn.expire clock
    if conn.state = .terminating then
      let (conn,packets) := conn.ping (clock 0) .terminate
      .ok (conn.linger clock,packets)
    else do
      let conn := conn.giveUp clock
      let rto := conn.roundTrip.timeout
      let (conn,acks) := conn.sendAcks (clock 0) rto
      let hasClose := conn.state == .readyToClose
      let (conn,data) ← conn.sendData (clock 0) rto hasClose
      if clock 0 - conn.lastPingTime ≥ 3000 then
        let (conn,pings) := conn.ping (clock 0) .ping
        .ok (conn,acks ++ data ++ pings)
      else .ok (conn,acks ++ data)

end

def Connection.terminateReceived (current : UInt32) : Connection :=
  match conn.state with
  | .active | .peerClosed => conn.setState .peerTerminating current
  | .readyToClose => conn.setState .terminating current
  | .terminating => conn.setState .terminated current
  | _ => conn

-- The body of the loop of `input`: `current` is read once per call, the two others by `set_state`.
def Connection.inputSegment (current optionTime commandTime : UInt32) : Segment → Connection
  | .data seg =>
    if seg.conv ≠ conn.conversation then conn
    else
      let conn := conn.handleOption seg.option optionTime
      {conn with receiving := conn.receiving.processSegment seg}
  | .ack seg =>
    if seg.conv ≠ conn.conversation then conn
    else
      let conn := conn.handleOption seg.option optionTime
      {conn with sending := conn.sending.processSegment seg conn.roundTrip.timeout}
  | .cmdOnly seg =>
    if seg.conv ≠ conn.conversation then conn
    else
      let conn := conn.handleOption seg.option optionTime
      let conn := if seg.cmd = .terminate then conn.terminateReceived commandTime else conn
      {conn with
        sending := conn.sending.processReceivingNext seg.receivingNext
        receiving := conn.receiving.processSendingNext seg.sendingNext
        roundTrip := conn.roundTrip.updatePeerRto seg.peerRto current}

end

def inputLoop (current : UInt32) (clock : Nat → UInt32) : List Segment → Nat → Connection → Connection
  | [],_,conn => conn
  | seg :: rest,i,conn => inputLoop current clock rest (i+2) (conn.inputSegment current (clock i) (clock (i+1)) seg)

section
variable (conn : Connection)

def Connection.input (segments : List Segment) (clock : Nat → UInt32) : Connection :=
  inputLoop (clock 0) clock segments 1 {conn with lastIncomingTime := clock 0}

inductive IoErrorKind where
  | connectionAborted
  | timedOut
deriving DecidableEq, Repr

structure IoError where
  kind : IoErrorKind
  message : String
deriving DecidableEq, Repr

inductive Turned (α : Type) where
  | again
  | waits
  | returned (result : Except IoError α)

def copyChunks (size : Nat) : List Bytes → Bytes → Bytes
  | [],written => written
  | chunk :: rest,written =>
    let toCopy := min chunk.length (size - written.length)
    let written := written ++ chunk.take toCopy
    if written.length ≥ size then written else copyChunks size rest written

def Connection.readRound (size : Nat) : Connection × Turned Bytes :=
  if conn.state = .readyToClose ∨ conn.state = .terminating ∨ conn.state = .terminated then
    (conn,.returned (.error ⟨.connectionAborted,"connection closed"⟩))
  else
    let (receiving,chunks) := conn.receiving.readMultiBuffer
    let conn := {conn with receiving}
    let written := copyChunks size chunks []
    if chunks ≠ [] ∧ written.length > 0 then (conn,.returned (.ok written))
    else if conn.state = .peerTerminating then (conn,.returned (.error ⟨.connectionAborted,"peer terminating"⟩))
    else (conn,.waits)

structure WriteCall where
  buf : Bytes
  offset : Nat
  inside : offset ≤ buf.length

def WriteCall.start (buf : Bytes) : WriteCall := ⟨buf,0,Nat.zero_le _⟩
def WriteCall.accepted (call : WriteCall) : Bytes := call.buf.take call.offset

def Connection.writeRound (call : WriteCall) : Connection × WriteCall × Turned Nat :=
  if conn.state ≠ .active then (conn,call,.returned (.error ⟨.connectionAborted,"connection closed"⟩))
  else
    let stop := min (call.offset + conn.mss.toNat) call.buf.length
    let chunk := (call.buf.take stop).drop call.offset
    if chunk = [] then (conn,call,.returned (.ok call.offset))
    else
      match conn.sending.push chunk with
      | (sending,true) => ({conn with sending},⟨call.buf,stop,Nat.min_le_right _ _⟩,.again)
      | (sending,false) => ({conn with sending},call,.waits)

-- `flush` awaits every packet it writes, so other tasks run between these stages.
inductive Stage where
  | expire (clock : Nat → UInt32)
  | linger (clock : Nat → UInt32)
  | giveUp (clock : Nat → UInt32)
  | sendAcks (current rto : UInt32)
  | sendData (current rto : UInt32) (hasClose : Bool)
  | ping (current : UInt32) (cmd : Command)

def Connection.perform : Stage → Checked (Connection × List Segment)
  | .expire clock => .ok (conn.expire clock,[])
  | .linger clock => .ok (conn.linger clock,[])
  | .giveUp clock => .ok (conn.giveUp clock,[])
  | .sendAcks current rto => .ok (conn.sendAcks current rto)
  | .sendData current rto hasClose => conn.sendData current rto hasClose
  | .ping current cmd => .ok (conn.ping current cmd)

end

def dataEntry : Segment → Option (UInt32 × Bytes)
  | .data seg => some (entry seg)
  | _ => none

def flight (packets : List Segment) : List (UInt32 × Bytes) := packets.filterMap dataEntry

-- A connection step seen from its workers: the sender may forget, its packets carry only what it
-- holds, and the receiver stores only what it already had or was offered.
structure Steps (offered : List (UInt32 × Bytes)) (packets : List Segment) (before after : Connection) : Prop where
  forgets : Forgets (fun _ => True) before.sending after.sending
  copies : ∀ item ∈ flight packets, item ∈ before.sending.entries
  still : after.receiving.nextNumber = before.receiving.nextNumber
  stored : ∀ k seg, after.receiving.window.cache.lookup k = some seg →
    before.receiving.window.cache.lookup k = some seg ∨ (k,seg.payload) ∈ offered

theorem Steps.quiet (forgets : Forgets (fun _ => True) before.sending after.sending)
    (receiving : after.receiving = before.receiving) : Steps offered [] before after :=
  ⟨forgets,by simp [flight],by rw [receiving],fun k seg found => .inl (receiving ▸ found)⟩

theorem Steps.same (sending : after.sending = before.sending) (receiving : after.receiving = before.receiving) : Steps offered [] before after :=
  .quiet (.same (by rw [SendingWorker.entries,SendingWorker.entries,sending]) (by rw [sending])) receiving

theorem Steps.trans (first : Steps offered packets before middle) (second : Steps offered more middle after) :
    Steps offered (packets ++ more) before after := by
  refine ⟨first.forgets.trans second.forgets,?_,second.still.trans first.still,?_⟩
  · intro item member
    rw [flight,List.filterMap_append] at member
    rcases List.mem_append.mp member with early | late
    · exact first.copies item early
    · exact first.forgets.kept item (second.copies item late)
  · intro k seg found
    rcases second.stored k seg found with old | new
    · exact first.stored k seg old
    · exact .inr new

theorem setState_steps : Steps offered [] conn (conn.setState state current) := by
  cases state with
  | active | readyToClose => exact .same rfl rfl
  | peerClosed | terminating | peerTerminating | terminated => exact .quiet (closeWrite_forgets conn.sending) rfl

theorem close_steps (conn current) : Steps offered [] conn (conn.close current) := by
  unfold Connection.close
  split
  · exact setState_steps
  · exact setState_steps
  · exact setState_steps
  · exact .same rfl rfl

theorem handleOption_steps (opt current) : Steps offered [] conn (conn.handleOption opt current) := by
  unfold Connection.handleOption
  split
  · split
    · exact setState_steps
    · exact setState_steps
    · exact .same rfl rfl
  · exact .same rfl rfl

theorem terminateReceived_steps (current) : Steps offered [] conn (conn.terminateReceived current) := by
  unfold Connection.terminateReceived
  split
  · exact setState_steps
  · exact setState_steps
  · exact setState_steps
  · exact setState_steps
  · exact .same rfl rfl

theorem steps_if (condition) [Decidable condition] (step : Steps offered [] conn next) : Steps offered [] conn (if condition then next else conn) := by
  split
  · exact step
  · exact .same rfl rfl

theorem expire_steps : Steps offered [] conn (conn.expire clock) :=
  (steps_if _ (close_steps conn (clock 1))).trans (steps_if _ (setState_steps))

theorem giveUp_steps : Steps offered [] conn (conn.giveUp clock) :=
  (steps_if _ (setState_steps)).trans (steps_if _ (setState_steps))

theorem sendAcks_steps : Steps offered (conn.sendAcks current rto).2 conn (conn.sendAcks current rto).1 := by
  refine ⟨.same rfl rfl,?_,rfl,fun k seg found => .inl found⟩
  simp [Connection.sendAcks,flight,dataEntry]

theorem sendData_steps (sent : Connection.sendData conn current rto hasClose = .ok (after,packets)) : Steps offered packets conn after := by
  obtain ⟨⟨sending,segs⟩,flushed,sent⟩ := checked_bind sent
  cases sent
  obtain ⟨forgets,copies⟩ := flush_forgets flushed
  refine ⟨forgets.mono fun _ _ => True.intro,?_,rfl,fun k seg found => .inl found⟩
  intro item member
  obtain ⟨packet,emitted,same⟩ := List.mem_filterMap.mp member
  obtain ⟨seg,flushed,rfl⟩ := List.mem_map.mp emitted
  cases same
  exact copies seg flushed

theorem perform_steps (performed : Connection.perform conn stage = .ok (after,packets)) : Steps offered packets conn after := by
  cases stage with
  | expire clock => cases performed; exact expire_steps
  | linger clock => cases performed; exact steps_if _ (setState_steps)
  | giveUp clock => cases performed; exact giveUp_steps
  | sendAcks current rto => cases performed; exact sendAcks_steps
  | sendData current rto hasClose => exact sendData_steps performed
  | ping current cmd =>
    cases performed
    exact ⟨.same rfl rfl,by simp [flight,dataEntry],rfl,fun k seg found => .inl found⟩

theorem inputSegment_steps (known : ∀ item, dataEntry seg = some item → item ∈ offered) :
    Steps offered [] conn (conn.inputSegment current optionTime commandTime seg) := by
  cases seg with
  | data seg =>
    simp only [Connection.inputSegment]
    split
    · exact .same rfl rfl
    · refine (handleOption_steps seg.option optionTime).trans ⟨.same rfl rfl,by simp [flight],processSegment_next _ seg,?_⟩
      intro k other found
      rcases processSegment_lookup found with old | ⟨rfl,rfl⟩
      · exact .inl old
      · exact .inr (known _ rfl)
  | ack seg =>
    simp only [Connection.inputSegment]
    split
    · exact .same rfl rfl
    · exact (handleOption_steps seg.option optionTime).trans
        (.quiet ((processSegment_forgets _ seg _).mono fun _ _ => True.intro) rfl)
  | cmdOnly seg =>
    simp only [Connection.inputSegment]
    split
    · exact .same rfl rfl
    · refine ((handleOption_steps seg.option optionTime).trans
        (steps_if (seg.cmd = .terminate) (terminateReceived_steps commandTime))).trans ?_
      exact ⟨(processReceivingNext_forgets _ seg.receivingNext).mono fun _ _ => True.intro,by simp [flight],rfl,fun k other found => .inl found⟩

theorem input_steps (conn segments clock) (known : ∀ item ∈ flight segments, item ∈ offered) : Steps offered [] conn (conn.input segments clock) := by
  have looped : ∀ i conn, Steps offered [] conn (inputLoop (clock 0) clock segments i conn) := by
    induction segments with
    | nil => exact fun i conn => .same rfl rfl
    | cons seg rest ih =>
      intro i conn
      have front : ∀ item, dataEntry seg = some item → item ∈ offered :=
        fun item same => known item (List.mem_filterMap.mpr ⟨seg,by simp,same⟩)
      refine (inputSegment_steps front).trans (ih ?_ (i+2) _)
      intro item member
      obtain ⟨other,later,same⟩ := List.mem_filterMap.mp member
      exact known item (List.mem_filterMap.mpr ⟨other,by simp [later],same⟩)
  have noted : Steps offered [] conn {conn with lastIncomingTime := clock 0} := .same rfl rfl
  exact noted.trans (looped 1 _)

theorem copyChunks_eq (size chunks written) (fits : written.length ≤ size) :
    copyChunks size chunks written = written ++ chunks.flatten.take (size - written.length) := by
  induction chunks generalizing written with
  | nil => simp [copyChunks]
  | cons chunk rest ih =>
    rw [copyChunks,List.flatten_cons,List.take_append,← List.append_assoc]
    have same : chunk.take (min chunk.length (size - written.length)) = chunk.take (size - written.length) := by
      rw [Nat.min_comm,← List.take_take,List.take_length]
    have length : (written ++ chunk.take (size - written.length)).length = min (written.length + chunk.length) size := by
      simp
      omega
    rw [same]
    split
    · have used : size - written.length - chunk.length = 0 := by omega
      simp [used]
    · rw [ih _ (by omega),length]
      congr 2
      omega

theorem readRound_cases (conn : Connection) (size) : (∃ fault, conn.readRound size = (conn,.returned (.error fault))) ∨
      ∃ outcome, conn.readRound size = ({conn with receiving := conn.receiving.readMultiBuffer.1},outcome) ∧
        (outcome = .returned (.ok (conn.receiving.readMultiBuffer.2.flatten.take size)) ∨
          conn.receiving.readMultiBuffer.2.flatten.take size = [] ∧ ∀ bytes, outcome ≠ .returned (.ok bytes)) := by
  unfold Connection.readRound
  split
  · exact .inl ⟨_,rfl⟩
  · apply Or.inr
    dsimp only
    have copied := copyChunks_eq size conn.receiving.readMultiBuffer.2 [] (Nat.zero_le _)
    rw [copied]
    split
    · exact ⟨_,rfl,.inl rfl⟩
    · rename_i nothing
      have empty : conn.receiving.readMultiBuffer.2.flatten.take size = [] := by
        by_contra filled
        refine nothing ⟨?_,List.length_pos_of_ne_nil filled⟩
        intro none
        simp [none] at filled
      split
      · exact ⟨_,rfl,.inr ⟨empty,by simp⟩⟩
      · exact ⟨_,rfl,.inr ⟨empty,by simp⟩⟩

theorem writeRound_cases (conn : Connection) (call) : (∃ outcome, conn.writeRound call = (conn,call,outcome)) ∨
      ∃ chunk later, conn.writeRound call = ({conn with sending := {conn.sending with
        window := conn.sending.window.push conn.sending.nextNumber chunk,nextNumber := conn.sending.nextNumber + 1}},later,.again) ∧
        later.accepted = call.accepted ++ chunk := by
  unfold Connection.writeRound
  split
  · exact .inl ⟨_,rfl⟩
  · dsimp only
    split
    · exact .inl ⟨_,rfl⟩
    · rcases push_cases conn.sending _
        with refused | taken
      · rw [refused]
        exact .inl ⟨_,rfl⟩
      · rw [taken]
        refine .inr ⟨_,_,rfl,?_⟩
        have inside := call.inside
        have start : call.offset ≤ min (call.offset + conn.mss.toNat) call.buf.length := by omega
        simp only [WriteCall.accepted]
        rw [List.drop_take,← List.take_add,Nat.add_sub_cancel' start]

end AstraCore.KcpConnection
