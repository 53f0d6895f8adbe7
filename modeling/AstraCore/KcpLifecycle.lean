import AstraCore.KcpStream

namespace AstraCore.KcpLifecycle
open CheckedBytes KcpSegment KcpSending KcpConnection Machine

-- The order of the states. A connection that has left `Active` by itself and one whose peer has left it are equally far.
def rank : State → Nat
  | .active => 0
  | .readyToClose => 1
  | .peerClosed => 1
  | .peerTerminating => 2
  | .terminating => 3
  | .terminated => 4

structure Move where
  before : Connection
  enters : State
  time : UInt32

section
variable (conn : Connection)

def moved (target : Option State) (time : UInt32) : List Move := target.toList.map fun enters => ⟨conn,enters,time⟩

def enter (target : Option State) (time : UInt32) : Connection :=
  match target with
  | none => conn
  | some state => conn.setState state time

def closing : Option State :=
  match conn.state with
  | .active => some .readyToClose
  | .peerClosed => some .terminating
  | .peerTerminating => some .terminated
  | _ => none

def peerClosing (opt : SegmentOption) : Option State :=
  if opt.containsClose then
    match conn.state with
    | .readyToClose => some .terminating
    | .active => some .peerClosed
    | _ => none
  else none

def peerTerminates (cmd : Command) : Option State :=
  if cmd = .terminate then
    match conn.state with
    | .active | .peerClosed => some .peerTerminating
    | .readyToClose => some .terminating
    | .terminating => some .terminated
    | _ => none
  else none

section
variable (current : UInt32)

def silent : Option State :=
  if conn.state = .active ∧ current - conn.lastIncomingTime ≥ 30000 then closing conn else none

def drained : Option State :=
  if conn.state = .readyToClose ∧ conn.sending.isEmpty then some .terminating else none

def lingered : Option State :=
  if current - conn.stateBeginTime > 8000 then some .terminated else none

def abandoned : Option State :=
  if conn.state = .peerTerminating ∧ current - conn.stateBeginTime > 4000 then some .terminating else none

def unanswered : Option State :=
  if conn.state = .readyToClose ∧ current - conn.stateBeginTime > 15000 then some .terminating else none

end

end

theorem close_enters : conn.close time = enter conn (closing conn) time := by
  unfold Connection.close closing
  cases conn.state <;> rfl

theorem handleOption_enters : conn.handleOption opt time = enter conn (peerClosing conn opt) time := by
  unfold Connection.handleOption peerClosing
  split
  · cases conn.state <;> rfl
  · rfl

theorem terminateReceived_enters : (if cmd = .terminate then conn.terminateReceived time else conn) = enter conn (peerTerminates conn cmd) time := by
  unfold Connection.terminateReceived peerTerminates
  split
  · cases conn.state <;> rfl
  · rfl

theorem enter_if [Decidable condition] : (if condition then conn.setState state time else conn) = enter conn (if condition then some state else none) time := by
  split <;> rfl

def silenced (conn : Connection) (clock : Nat → UInt32) : Connection := enter conn (silent conn (clock 0)) (clock 1)

theorem expire_enters (conn clock) : conn.expire clock = enter (silenced conn clock) (drained (silenced conn clock)) (clock 2) := by
  have first : silenced conn clock = if conn.state = .active ∧ clock 0 - conn.lastIncomingTime ≥ 30000 then conn.close (clock 1) else conn := by
    unfold silenced silent
    split
    · exact (close_enters).symm
    · rfl
  rw [first]
  exact enter_if

theorem linger_enters : conn.linger clock = enter conn (lingered conn (clock 0)) (clock 3) := enter_if

def left (conn : Connection) (clock : Nat → UInt32) : Connection := enter conn (abandoned conn (clock 0)) (clock 4)

theorem giveUp_enters (conn) : conn.giveUp clock = enter (left conn clock) (unanswered (left conn clock) (clock 0)) (clock 5) := by
  have first : left conn clock = if conn.state = .peerTerminating ∧ clock 0 - conn.stateBeginTime > 4000 then conn.setState .terminating (clock 4) else conn :=
    (enter_if).symm
  rw [first]
  exact enter_if

section
variable (conn : Connection)

section
variable (clock : Nat → UInt32)

def expireMoves : List Move :=
  moved conn (silent conn (clock 0)) (clock 1) ++ moved (silenced conn clock) (drained (silenced conn clock)) (clock 2)

def giveUpMoves : List Move :=
  moved conn (abandoned conn (clock 0)) (clock 4) ++ moved (left conn clock) (unanswered (left conn clock) (clock 0)) (clock 5)

def flushMoves : List Move :=
  if conn.state = .terminated then []
  else
    expireMoves conn clock ++
      if (conn.expire clock).state = .terminating then
        moved ((conn.expire clock).ping (clock 0) .terminate).1
          (lingered ((conn.expire clock).ping (clock 0) .terminate).1 (clock 0)) (clock 3)
      else giveUpMoves (conn.expire clock) clock

end

def segmentMoves (optionTime commandTime : UInt32) : Segment → List Move
  | .data seg => if seg.conv ≠ conn.conversation then [] else moved conn (peerClosing conn seg.option) optionTime
  | .ack seg => if seg.conv ≠ conn.conversation then [] else moved conn (peerClosing conn seg.option) optionTime
  | .cmdOnly seg =>
    if seg.conv ≠ conn.conversation then []
    else
      moved conn (peerClosing conn seg.option) optionTime ++
        moved (conn.handleOption seg.option optionTime) (peerTerminates (conn.handleOption seg.option optionTime) seg.cmd) commandTime

end

def inputMoves (current : UInt32) (clock : Nat → UInt32) : List Segment → Nat → Connection → List Move
  | [],_,_ => []
  | seg :: rest,i,conn =>
    segmentMoves conn (clock i) (clock (i+1)) seg ++
      inputMoves current clock rest (i+2) (conn.inputSegment current (clock i) (clock (i+1)) seg)

-- `wakes` is how often a notification ends the wait before it times out.
def readBytes (size : Nat) : Nat → Connection → Connection × Except IoError Bytes
  | wakes,conn =>
    match conn.readRound size with
    | (conn,.returned result) => (conn,result)
    | (conn,_) =>
      match wakes with
      | 0 => (conn,.error ⟨.timedOut,"read timeout"⟩)
      | wakes + 1 => readBytes size wakes conn

def writeLoop : Nat → Nat → WriteCall → Connection → Connection × Option (Except IoError Nat)
  | 0,_,_,conn => (conn,none)
  | turns + 1,wakes,call,conn =>
    match conn.writeRound call with
    | (conn,_,.returned result) => (conn,some result)
    | (conn,call,.again) => writeLoop turns wakes call conn
    | (conn,call,.waits) =>
      match wakes with
      | 0 => (conn,some (.error ⟨.timedOut,"write timeout"⟩))
      | wakes + 1 => writeLoop turns wakes call conn

def writeBytes (buf : Bytes) (wakes : Nat) (conn : Connection) : Connection × Option (Except IoError Nat) :=
  writeLoop (buf.length + wakes + 1) wakes (.start buf) conn

inductive Call where
  | flush (clock : Nat → UInt32)
  | input (segments : List Segment) (clock : Nat → UInt32)
  | close (time : UInt32)
  | readBytes (size wakes : Nat)
  | writeBytes (buf : Bytes) (wakes : Nat)

structure Life where
  conn : Connection
  moves : List Move

def advance (life : Life) : Call → Option Life
  | .flush clock =>
    match life.conn.flush clock with
    | .error _ => none
    | .ok (conn,_) => some ⟨conn,life.moves ++ flushMoves life.conn clock⟩
  | .input segments clock =>
    some ⟨life.conn.input segments clock,
      life.moves ++ inputMoves (clock 0) clock segments 1 {life.conn with lastIncomingTime := clock 0}⟩
  | .close time => some ⟨life.conn.close time,life.moves ++ moved life.conn (closing life.conn) time⟩
  | .readBytes size wakes => some ⟨(readBytes size wakes life.conn).1,life.moves⟩
  | .writeBytes buf wakes =>
    match writeBytes buf wakes life.conn with
    | (_,none) => none
    | (conn,some _) => some ⟨conn,life.moves⟩

def Chain : State → List Move → State → Prop
  | first,[],last => first = last
  | first,move :: rest,last => move.before.state = first ∧ Chain move.enters rest last

theorem Chain.append (front : Chain first moves middle) (back : Chain middle more last) : Chain first (moves ++ more) last := by
  induction moves generalizing first with
  | nil =>
    cases front
    exact back
  | cons move rest ih => exact ⟨front.1,ih front.2⟩

def Forward (move : Move) : Prop := rank move.before.state < rank move.enters

structure Follows (readings : UInt32 → Prop) (before : Connection) (moves : List Move) (after : Connection) : Prop where
  chain : Chain before.state moves after.state
  forward : ∀ move ∈ moves, Forward move
  begun : after.stateBeginTime = before.stateBeginTime ∨ readings after.stateBeginTime
  heard : after.lastIncomingTime = before.lastIncomingTime ∨ readings after.lastIncomingTime
  config : after.config = before.config

section Follows
variable {readings : UInt32 → Prop}

theorem Follows.still (state : after.state = before.state) (begun : after.stateBeginTime = before.stateBeginTime)
    (heard : after.lastIncomingTime = before.lastIncomingTime) (config : after.config = before.config) : Follows readings before [] after :=
  ⟨state.symm,by simp,.inl begun,.inl heard,config⟩

theorem Follows.trans (first : Follows readings before moves middle) (second : Follows readings middle more after) :
    Follows readings before (moves ++ more) after := by
  refine ⟨first.chain.append second.chain,?_,?_,?_,second.config.trans first.config⟩
  · intro move member
    rcases List.mem_append.mp member with early | late
    · exact first.forward move early
    · exact second.forward move late
  · rcases second.begun with same | read
    · rw [same]
      exact first.begun
    · exact .inr read
  · rcases second.heard with same | read
    · rw [same]
      exact first.heard
    · exact .inr read

theorem Follows.quietly (first : Follows readings before moves middle) (second : Follows readings middle [] after) :
    Follows readings before moves after := by
  have both := first.trans second
  rwa [List.append_nil] at both

theorem setState_fields (conn : Connection) (state time) : (conn.setState state time).state = state ∧ (conn.setState state time).stateBeginTime = time ∧
      (conn.setState state time).lastIncomingTime = conn.lastIncomingTime ∧ (conn.setState state time).config = conn.config := by
  cases state <;> exact ⟨rfl,rfl,rfl,rfl⟩

theorem enter_follows (conn) (time) (read : readings time)
    (later : ∀ state ∈ target, rank conn.state < rank state) : Follows readings conn (moved conn target time) (enter conn target time) := by
  cases target with
  | none => exact .still rfl rfl rfl rfl
  | some state =>
    obtain ⟨entered,begun,heard,config⟩ := setState_fields conn state time
    refine ⟨⟨rfl,entered.symm⟩,?_,.inr ?_,.inl heard,config⟩
    · intro move member
      rw [List.mem_singleton.mp member]
      exact later state rfl
    · change readings (conn.setState state time).stateBeginTime
      rwa [begun]

theorem closing_later (conn) : ∀ state ∈ closing conn, rank conn.state < rank state := by
  unfold closing
  cases conn.state <;> decide

theorem peerClosing_later : ∀ state ∈ peerClosing conn opt, rank conn.state < rank state := by
  unfold peerClosing
  split
  · cases conn.state <;> decide
  · simp

theorem peerTerminates_later : ∀ state ∈ peerTerminates conn cmd, rank conn.state < rank state := by
  unfold peerTerminates
  split
  · cases conn.state <;> decide
  · simp

theorem silent_later (conn) : ∀ state ∈ silent conn current, rank conn.state < rank state := by
  unfold silent
  split
  · exact closing_later conn
  · simp

theorem guarded_later (conn : Connection) [Decidable condition] (later : rank source < rank state) :
    ∀ target ∈ (if conn.state = source ∧ condition then some state else none), rank conn.state < rank target := by
  intro target member
  split at member
  · rename_i holds
    cases Option.some.inj member
    rw [holds.1]
    exact later
  · cases member

theorem sendData_follows (sent : (conn.sendAcks current rto).1.sendData current rto hasClose = .ok (after,packets)) : Follows readings conn [] after := by
  obtain ⟨⟨sending,segs⟩,-,sent⟩ := checked_bind sent
  cases sent
  exact .still rfl rfl rfl rfl

section Flush
variable (conn : Connection) (clock : Nat → UInt32) (read : ∀ i, readings (clock i))
include read

theorem expire_follows : Follows readings conn (expireMoves conn clock) (conn.expire clock) := by
  rw [expire_enters]
  have first : Follows readings conn (moved conn (silent conn (clock 0)) (clock 1)) (silenced conn clock) :=
    enter_follows conn _ (read 1) (silent_later conn)
  exact first.trans (enter_follows _ _ (read 2) (guarded_later _ (by decide)))

theorem giveUp_follows : Follows readings conn (giveUpMoves conn clock) (conn.giveUp clock) := by
  rw [giveUp_enters]
  have first : Follows readings conn (moved conn (abandoned conn (clock 0)) (clock 4)) (left conn clock) :=
    enter_follows conn _ (read 4) (guarded_later conn (by decide))
  exact first.trans (enter_follows _ _ (read 5) (guarded_later _ (by decide)))

theorem linger_follows (terminating : conn.state = .terminating) :
    Follows readings conn (moved conn (lingered conn (clock 0)) (clock 3)) (conn.linger clock) := by
  rw [linger_enters]
  apply enter_follows conn _ (read 3)
  intro state member
  unfold lingered at member
  split at member
  · cases Option.some.inj member
    rw [terminating]
    decide
  · cases member

theorem flush_follows (flushed : conn.flush clock = .ok (last,packets)) : Follows readings conn (flushMoves conn clock) last := by
  unfold Connection.flush at flushed
  unfold flushMoves
  split at flushed
  · rename_i over_
    rw [if_pos over_]
    cases flushed
    exact .still rfl rfl rfl rfl
  · rename_i living
    rw [if_neg living]
    have expired := expire_follows conn clock read
    dsimp only at flushed
    split at flushed
    · rename_i terminating
      rw [if_pos terminating]
      cases flushed
      have pinged : Follows readings (conn.expire clock) [] ((conn.expire clock).ping (clock 0) .terminate).1 := .still rfl rfl rfl rfl
      exact (expired.quietly pinged).trans (linger_follows _ clock read terminating)
    · rename_i waiting
      rw [if_neg waiting]
      have waited := expired.trans (giveUp_follows _ clock read)
      obtain ⟨⟨sent,data⟩,sends,flushed⟩ := checked_bind flushed
      have sender := waited.quietly (sendData_follows sends)
      split at flushed
      · cases flushed
        exact sender.quietly (.still rfl rfl rfl rfl)
      · cases flushed
        exact sender

end Flush

theorem handleOption_follows (read : readings time) : Follows readings conn (moved conn (peerClosing conn opt) time) (conn.handleOption opt time) := by
  rw [handleOption_enters]
  exact enter_follows conn _ read (peerClosing_later)

theorem inputSegment_follows (optionRead : readings optionTime) (commandRead : readings commandTime) :
    Follows readings conn (segmentMoves conn optionTime commandTime seg) (conn.inputSegment current optionTime commandTime seg) := by
  cases seg with
  | data seg | ack seg =>
    simp only [segmentMoves,Connection.inputSegment]
    split
    · exact .still rfl rfl rfl rfl
    · exact (handleOption_follows optionRead).quietly (.still rfl rfl rfl rfl)
  | cmdOnly seg =>
    simp only [segmentMoves,Connection.inputSegment]
    split
    · exact .still rfl rfl rfl rfl
    · refine (handleOption_follows optionRead).trans ?_
      rw [terminateReceived_enters]
      refine (enter_follows _ _ commandRead (peerTerminates_later)).quietly ?_
      exact .still rfl rfl rfl rfl

theorem inputLoop_follows (read : ∀ i, readings (clock i)) (i)
    (conn) : Follows readings conn (inputMoves current clock segments i conn) (inputLoop current clock segments i conn) := by
  induction segments generalizing i conn with
  | nil => exact .still rfl rfl rfl rfl
  | cons seg rest ih => exact (inputSegment_follows (read i) (read (i+1))).trans (ih (i+2) _)

theorem input_follows (read : ∀ i, readings (clock i)) :
    Follows readings conn (inputMoves (clock 0) clock segments 1 {conn with lastIncomingTime := clock 0}) (conn.input segments clock) := by
  have noted : Follows readings conn [] {conn with lastIncomingTime := clock 0} := ⟨rfl,by simp,.inl rfl,.inr (read 0),rfl⟩
  exact noted.trans (inputLoop_follows read 1 _)

theorem readRound_follows : Follows readings conn [] (conn.readRound size).1 := by
  rcases readRound_cases conn size with ⟨fault,same⟩ | ⟨outcome,same,-⟩
  · rw [same]
    exact .still rfl rfl rfl rfl
  · rw [same]
    exact .still rfl rfl rfl rfl

theorem readBytes_follows (conn) : Follows readings conn [] (readBytes size wakes conn).1 := by
  induction wakes generalizing conn with
  | zero =>
    have round := @readRound_follows readings conn size
    unfold readBytes
    split
    all_goals
      rename_i same
      rwa [same] at round
  | succ wakes ih =>
    have round := @readRound_follows readings conn size
    unfold readBytes
    split
    · rename_i same
      rwa [same] at round
    · rename_i same
      rw [same] at round
      exact round.trans (ih _)

theorem writeRound_follows : Follows readings conn [] (conn.writeRound call).1 := by
  rcases writeRound_cases conn call with ⟨outcome,same⟩ | ⟨chunk,later,same,-⟩
  · rw [same]
    exact .still rfl rfl rfl rfl
  · rw [same]
    exact .still rfl rfl rfl rfl

theorem writeLoop_follows (wakes call conn) : Follows readings conn [] (writeLoop turns wakes call conn).1 := by
  induction turns generalizing wakes call conn with
  | zero => exact .still rfl rfl rfl rfl
  | succ turns ih =>
    have round := @writeRound_follows readings conn call
    rw [writeLoop]
    rcases same : conn.writeRound call with ⟨later,next,_ | _ | result⟩
    · rw [same] at round
      exact round.trans (ih wakes next later)
    · rw [same] at round
      cases wakes with
      | zero => exact round
      | succ wakes => exact round.trans (ih wakes next later)
    · rw [same] at round
      exact round

end Follows

def Call.Reads (readings : UInt32 → Prop) : Call → Prop
  | .flush clock => ∀ i, readings (clock i)
  | .input _ clock => ∀ i, readings (clock i)
  | .close time => readings time
  | .readBytes _ _ => True
  | .writeBytes _ _ => True

theorem advance_follows (step : advance life call = some next) (reads : call.Reads readings) :
    ∃ more, next.moves = life.moves ++ more ∧ Follows readings life.conn more next.conn := by
  cases call with
  | flush clock =>
    simp only [advance] at step
    split at step
    · cases step
    · rename_i conn packets flushed
      cases step
      exact ⟨_,rfl,flush_follows life.conn clock reads flushed⟩
  | input segments clock =>
    cases step
    exact ⟨_,rfl,input_follows reads⟩
  | close time =>
    cases step
    refine ⟨_,rfl,?_⟩
    rw [close_enters]
    exact enter_follows life.conn _ reads (closing_later life.conn)
  | readBytes size wakes =>
    cases step
    exact ⟨[],(List.append_nil _).symm,readBytes_follows life.conn⟩
  | writeBytes buf wakes =>
    simp only [advance] at step
    have follows := @writeLoop_follows readings (buf.length + wakes + 1) wakes (.start buf) life.conn
    split at step
    · cases step
    · rename_i conn result written
      cases step
      rw [writeBytes] at written
      rw [written] at follows
      exact ⟨[],(List.append_nil _).symm,follows⟩

theorem sending_returns (worker : SendingWorker) (sized : config.sendingInFlightSize = .ok size) :
    ∃ result, worker.flush current config rto = .ok result := by
  unfold SendingWorker.flush
  split
  · exact ⟨_,rfl⟩
  · rw [sized]
    split
    · exact ⟨_,rfl⟩
    · exact ⟨_,rfl⟩

section
variable (conn : Connection) (sized : conn.config.sendingInFlightSize = .ok size)
include conn sized

theorem sendData_returns : ∃ result, conn.sendData current rto hasClose = .ok result := by
  obtain ⟨result,sent⟩ := sending_returns conn.sending sized
  exact ⟨_,by rw [Connection.sendData,sent,ok_bind]⟩

theorem flush_returns : ∃ result, conn.flush clock = .ok result := by
  unfold Connection.flush
  split
  · exact ⟨_,rfl⟩
  · dsimp only
    split
    · exact ⟨_,rfl⟩
    · have expired : Follows (fun _ => True) conn _ _ := expire_follows conn clock fun _ => True.intro
      have waited := expired.trans (giveUp_follows _ clock fun _ => True.intro)
      rw [← waited.config] at sized
      generalize (conn.expire clock).giveUp clock = waiting at sized ⊢
      obtain ⟨result,sent⟩ := sendData_returns (waiting.sendAcks (clock 0) waiting.roundTrip.timeout).1 sized
      rw [sent,ok_bind]
      split
      · exact ⟨_,rfl⟩
      · exact ⟨_,rfl⟩

end

theorem writeRound_again (round : Connection.writeRound conn call = (later,next,.again)) :
    next.buf.length = call.buf.length ∧ call.offset < next.offset := by
  unfold Connection.writeRound at round
  split at round
  · cases round
  · dsimp only at round
    split at round
    · cases round
    · rename_i present
      split at round
      · grind [List.drop_eq_nil_iff,List.length_take]
      · cases round

theorem writeRound_waits (round : Connection.writeRound conn call = (later,next,.waits)) : next = call := by
  unfold Connection.writeRound at round
  split at round
  · cases round
  · dsimp only at round
    split at round
    · cases round
    · split at round
      · cases round
      · cases round
        rfl

theorem writeLoop_returns (turns wakes call conn)
    (enough : call.buf.length - call.offset + wakes < turns) : ∃ later result, writeLoop turns wakes call conn = (later,some result) := by
  induction turns generalizing wakes call conn with
  | zero => exact absurd enough (Nat.not_lt_zero _)
  | succ turns ih =>
    rw [writeLoop]
    rcases same : conn.writeRound call with ⟨later,next,_ | _ | result⟩
    · obtain ⟨width,further⟩ := writeRound_again same
      have inside := next.inside
      exact ih wakes next later (by omega)
    · rw [writeRound_waits same]
      cases wakes with
      | zero => exact ⟨_,_,rfl⟩
      | succ wakes => exact ih wakes call later (by omega)
    · exact ⟨_,_,rfl⟩

theorem writeBytes_refused (left : conn.state ≠ .active) : writeBytes buf wakes conn = (conn,some (.error ⟨.connectionAborted,"connection closed"⟩)) := by
  rw [writeBytes,writeLoop,Connection.writeRound,if_pos left]

structure Orderly (life : Life) : Prop where
  chain : Chain .active life.moves life.conn.state
  forward : ∀ move ∈ life.moves, Forward move
  sized : ∃ size, life.conn.config.sendingInFlightSize = .ok size

theorem advance_returns (orderly : Orderly life) : ∃ next, advance life call = some next := by
  cases call with
  | flush clock =>
    obtain ⟨size,sized⟩ := orderly.sized
    obtain ⟨result,flushed⟩ := flush_returns life.conn sized
    exact ⟨_,by rw [advance,flushed]⟩
  | input segments clock | close time | readBytes size wakes => exact ⟨_,rfl⟩
  | writeBytes buf wakes =>
    obtain ⟨later,result,written⟩ := writeLoop_returns (buf.length + wakes + 1) wakes (.start buf) life.conn
      (by change buf.length - 0 + wakes < _; omega)
    exact ⟨_,by rw [advance,writeBytes,written]⟩

theorem advance_orderly (orderly : Orderly life) (step : advance life call = some next) : Orderly next := by
  have reads : call.Reads fun _ => True := by cases call <;> simp [Call.Reads]
  obtain ⟨more,grown,follows⟩ := advance_follows step reads
  refine ⟨?_,?_,?_⟩
  · rw [grown]
    exact orderly.chain.append follows.chain
  · intro move member
    rw [grown] at member
    rcases List.mem_append.mp member with early | late
    · exact orderly.forward move early
    · exact follows.forward move late
  · rw [follows.config]
    exact orderly.sized

theorem created_orderly (created : Connection.new conversation config = .ok conn) : Orderly ⟨conn,[]⟩ := by
  obtain ⟨sending,workers,created⟩ := checked_bind created
  obtain ⟨size,sized,-⟩ := checked_bind workers
  cases created
  exact ⟨rfl,by simp,size,sized⟩

theorem Chain.ended (chain : Chain .terminated moves last) (forward : ∀ move ∈ moves, Forward move) : last = .terminated := by
  cases moves with
  | nil => exact chain.symm
  | cons move rest =>
    have ahead := forward move (List.mem_cons_self ..)
    rw [Forward,chain.1] at ahead
    cases enters : move.enters <;> rw [enters] at ahead <;> exact absurd ahead (by decide)

theorem terminated_stays (over_ : life.conn.state = .terminated) (step : advance life call = some next) : next.conn.state = .terminated := by
  have reads : call.Reads fun _ => True := by cases call <;> simp [Call.Reads]
  obtain ⟨more,-,follows⟩ := advance_follows step reads
  have chain := follows.chain
  rw [over_] at chain
  exact chain.ended follows.forward

theorem lifecycle_forward (created : Connection.new conversation config = .ok conn) (calls : List Call) :
    ∃ life, run advance ⟨conn,[]⟩ calls = some life ∧ Chain .active life.moves life.conn.state ∧ (∀ move ∈ life.moves, Forward move) ∧
      (life.conn.state = .terminated → (∀ call next, advance life call = some next → next.conn.state = .terminated) ∧
        ∀ clock, life.conn.flush clock = .ok (life.conn,[])) ∧
      (life.conn.state ≠ .active → ∀ buf wakes,
        writeBytes buf wakes life.conn = (life.conn,some (.error ⟨.connectionAborted,"connection closed"⟩))) := by
  have taken : ∀ life call, Orderly life → ∃ next, advance life call = some next ∧ Orderly next := by
    intro life call orderly
    obtain ⟨next,step⟩ := advance_returns orderly
    exact ⟨next,step,advance_orderly orderly step⟩
  obtain ⟨life,path,orderly⟩ := run_returns Orderly taken (created_orderly created) calls
  refine ⟨life,path,orderly.chain,orderly.forward,?_,?_⟩
  · intro over_
    refine ⟨fun call next step => terminated_stays over_ step,fun clock => ?_⟩
    rw [Connection.flush,if_pos over_]
  · intro left buf wakes
    exact writeBytes_refused left

theorem lifecycle_forward_closed :
    ∃ life, run advance ⟨KcpStream.freshConnection,[]⟩ [.close 5,.flush fun _ => 9,.writeBytes [1] 0] = some life ∧
      ∀ move ∈ life.moves, Forward move := by
  obtain ⟨life,path,-,forward,-⟩ := lifecycle_forward KcpStream.freshConnection_created [.close 5,.flush fun _ => 9,.writeBytes [1] 0]
  exact ⟨life,path,forward⟩

end AstraCore.KcpLifecycle
