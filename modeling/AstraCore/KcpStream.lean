import AstraCore.KcpDelivery
import AstraCore.KcpConnection

namespace AstraCore.KcpStream
open CheckedBytes KcpSegment KcpSending KcpReceiving KcpConnection KcpDelivery Machine List

inductive Side where
  | dialer
  | listener
deriving DecidableEq, Repr

def Side.other : Side → Side
  | .dialer => .listener
  | .listener => .dialer

-- A connection with everything it has ever written to the network, the accepted part of every
-- `write_bytes` call that is over, the call still running and all bytes `read_bytes` returned.
structure Peer where
  conn : Connection
  sent : List Segment
  finished : List Bytes
  writing : Option WriteCall
  returned : Bytes

def Peer.accepted (peer : Peer) : Bytes := peer.finished.flatten ++ peer.writing.elim [] WriteCall.accepted

abbrev Peers := Side → Peer

inductive Event where
  | writeBytes (side : Side) (buf : Bytes)
  | writeRound (side : Side)
  | abandonWrite (side : Side)
  | readRound (side : Side) (size : Nat)
  | flush (side : Side) (stage : Stage)
  | input (side : Side) (segments : List Segment) (clock : Nat → UInt32)
  | close (side : Side) (current : UInt32)

-- A Data segment that arrives carries number and payload of one the other side wrote, at any
-- time, any number of times. Acknowledgements and commands may even be garbled on the way.
def arrives (peer : Peer) (segments : List Segment) : Bool :=
  (flight segments).all (fun item => decide (item ∈ flight peer.sent))

def finishWrite (peer : Peer) (conn : Connection) (call : WriteCall) : Peer :=
  {peer with conn,finished := peer.finished ++ [call.accepted],writing := none}

def advance (peers : Peers) : Event → Option Peers
  | .writeBytes side buf =>
    match (peers side).writing with
    | some _ => none
    | none => some (Function.update peers side {peers side with writing := some (.start buf)})
  | .writeRound side =>
    match (peers side).writing with
    | none => none
    | some call =>
      match (peers side).conn.writeRound call with
      | (conn,call,.returned _) => some (Function.update peers side (finishWrite (peers side) conn call))
      | (conn,call,_) => some (Function.update peers side {peers side with conn,writing := some call})
  | .abandonWrite side =>
    match (peers side).writing with
    | none => none
    | some call => some (Function.update peers side (finishWrite (peers side) (peers side).conn call))
  | .readRound side size =>
    match (peers side).conn.readRound size with
    | (conn,.returned (.ok bytes)) =>
      some (Function.update peers side {peers side with conn,returned := (peers side).returned ++ bytes})
    | (conn,_) => some (Function.update peers side {peers side with conn})
  | .flush side stage =>
    match (peers side).conn.perform stage with
    | .error _ => none
    | .ok (conn,packets) =>
      some (Function.update peers side {peers side with conn,sent := (peers side).sent ++ packets})
  | .input side segments clock =>
    if arrives (peers side.other) segments then
      some (Function.update peers side {peers side with conn := (peers side).conn.input segments clock})
    else none
  | .close side current =>
    some (Function.update peers side {peers side with conn := (peers side).conn.close current})

def initial (conns : Side → Connection) : Peers := fun side => ⟨conns side,[],[],none,[]⟩

-- One direction: what the target's receiver handed out are the chunks the source pushed, the
-- chunks are the accepted bytes, and the caller was given every byte of what was handed out.
def Flows (source target : Peer) : Prop :=
  ∃ pushed delivered, Genuine pushed source.conn.sending (flight source.sent) target.conn.receiving delivered ∧
    pushed.flatten = source.accepted ∧ delivered.flatten = target.returned

theorem initial_flows {configs : Side → Config} (created : ∀ side, Connection.new conversation (configs side) = .ok (conns side)) (side) :
    Flows (initial conns side) (initial conns side.other) := by
  have source := created side
  have target := created side.other
  obtain ⟨sending,workers,source⟩ := checked_bind source
  obtain ⟨_,-,target⟩ := checked_bind target
  refine ⟨[],[],?_,rfl,rfl⟩
  rw [initial,initial,← Except.ok.inj source,← Except.ok.inj target]
  exact .start workers rfl rfl

theorem Flows.in_order (flows : Flows source target) : target.returned <+: source.accepted := by
  obtain ⟨pushed,delivered,genuine,accepted,returned⟩ := flows
  rw [← accepted,← returned,genuine.stream]
  exact ( take_prefix _ pushed).flatten

theorem other_ne (side : Side) : side.other ≠ side := by cases side <;> decide
theorem other_other (side : Side) : side.other.other = side := by cases side <;> rfl
theorem eq_other {s : Side} (different : s ≠ side) : s = side.other := by
  cases side <;> cases s <;> first | rfl | exact absurd rfl different

theorem update_flows (outward : Flows later (peers side.other)) (inward : Flows (peers side.other) later) (s : Side) :
    Flows (Function.update peers side later s) (Function.update peers side later s.other) := by
  by_cases same : s = side
  · subst same
    rwa [Function.update_self,Function.update_of_ne (other_ne s)]
  · have opposite := eq_other same
    subst opposite
    rwa [other_other,Function.update_self,Function.update_of_ne (other_ne side)]

theorem Flows.sends (flows : Flows source target) (steps : Steps offered packets source.conn conn) :
    Flows {source with conn,sent := source.sent ++ packets} target := by
  obtain ⟨pushed,delivered,genuine,accepted,returned⟩ := flows
  refine ⟨pushed,delivered,?_,accepted,returned⟩
  have sent := genuine.sends steps.forgets steps.copies
  rwa [flight,flight,← filterMap_append] at sent

theorem Flows.receives (flows : Flows source target) (steps : Steps (flight source.sent) packets target.conn conn) :
    Flows source {target with conn,sent} := by
  obtain ⟨pushed,delivered,genuine,accepted,returned⟩ := flows
  refine ⟨pushed,delivered,genuine.receives ?_ steps.still,accepted,returned⟩
  intro k seg found
  rcases steps.stored k seg found with old | new
  · exact genuine.stored k seg old
  · exact genuine.inFlight _ new

theorem steps_flows (flows : ∀ side, Flows (peers side) (peers side.other))
    (steps : Steps (flight (peers side.other).sent) packets (peers side).conn conn) (s : Side) :
    Flows (Function.update peers side {peers side with conn,sent := (peers side).sent ++ packets} s)
      (Function.update peers side {peers side with conn,sent := (peers side).sent ++ packets} s.other) := by
  have inward := flows side.other
  rw [other_other] at inward
  exact update_flows ((flows side).sends steps) (inward.receives steps) s

-- What keeps the stream whole: a reader's buffer takes everything stored in a row, and the
-- sender's 32-bit numbers have not run out.
def Roomy (peers : Peers) : Event → Prop
  | .readRound side size =>
    ∀ chunks, Waiting (peers side).conn.receiving.window.cache (peers side).conn.receiving.nextNumber chunks →
      chunks.flatten.length ≤ size
  | .writeRound side => (peers side).conn.sending.nextNumber ≠ 0xFFFFFFFF
  | _ => True

section
variable (flows : Flows source target)
include flows

theorem Flows.pushes (room : source.conn.sending.nextNumber ≠ 0xFFFFFFFF)
    (chunk) (sent : later.sent = source.sent) (taken : later.accepted = source.accepted ++ chunk) (sending : later.conn.sending = {source.conn.sending with
      window := source.conn.sending.window.push source.conn.sending.nextNumber chunk
      nextNumber := source.conn.sending.nextNumber + 1}) : Flows later target := by
  obtain ⟨pushed,delivered,genuine,accepted,returned⟩ := flows
  have short : pushed.length + 1 < 2^32 := by
    have numbered := genuine.numbered
    have inside := source.conn.sending.nextNumber.toNat_lt
    have last : source.conn.sending.nextNumber.toNat ≠ 0xFFFFFFFF := fun same => room (UInt32.toNat_inj.mp same)
    omega
  refine ⟨pushed ++ [chunk],delivered,?_,?_,returned⟩
  · rw [sending,sent]
    exact genuine.pushes short chunk
  · rw [flatten_append,accepted,taken]
    simp

theorem Flows.reads (receiving : later.conn.receiving = target.conn.receiving.readMultiBuffer.1)
    (returns : later.returned = target.returned ++ target.conn.receiving.readMultiBuffer.2.flatten) : Flows source later := by
  obtain ⟨pushed,delivered,genuine,accepted,returned⟩ := flows
  refine ⟨pushed,delivered ++ target.conn.receiving.readMultiBuffer.2,?_,accepted,?_⟩
  · rw [receiving]
    exact genuine.reads
  · rw [flatten_append,returned,returns]

theorem Flows.same_source (sending : later.conn.sending = source.conn.sending) (sent : later.sent = source.sent)
    (accepted : later.accepted = source.accepted) : Flows later target := by
  unfold Flows
  rw [sending,sent,accepted]
  exact flows

theorem Flows.same_target (receiving : later.conn.receiving = target.conn.receiving)
    (returned : later.returned = target.returned) : Flows source later := by
  unfold Flows
  rw [receiving,returned]
  exact flows

end

theorem readRound_flows (flows : ∀ side, Flows (peers side) (peers side.other))
    (roomy : Roomy peers (.readRound side size)) (step : advance peers (.readRound side size) = some later) (s) : Flows (later s) (later s.other) := by
  have inward := flows side.other
  rw [other_other] at inward
  rcases readRound_cases (peers side).conn size with ⟨fault,closed⟩ | ⟨outcome,taken,result⟩
  · simp only [advance,closed] at step
    cases step
    exact update_flows (flows side) inward s
  · have fits := roomy _ (readMultiBuffer_waiting (peers side).conn.receiving)
    rw [take_of_length_le fits] at result
    rcases result with rfl | ⟨empty,nothing⟩
    · simp only [advance,taken] at step
      cases step
      refine update_flows ?_ ?_ s
      · exact (flows side).same_source rfl rfl rfl
      · exact inward.reads rfl rfl
    · simp only [advance,taken] at step
      cases step
      refine update_flows ?_ ?_ s
      · exact (flows side).same_source rfl rfl rfl
      · exact inward.reads rfl (by simp [empty])

theorem writeRound_flows (flows : ∀ side, Flows (peers side) (peers side.other))
    (roomy : Roomy peers (.writeRound side)) (step : advance peers (.writeRound side) = some onward) (s) : Flows (onward s) (onward s.other) := by
  have inward := flows side.other
  rw [other_other] at inward
  simp only [advance] at step
  cases running : (peers side).writing with
  | none => rw [running] at step; cases step
  | some call =>
    rw [running] at step
    dsimp only at step
    have before : (peers side).accepted = (peers side).finished.flatten ++ call.accepted := by
      rw [Peer.accepted,running]
      rfl
    rcases writeRound_cases (peers side).conn call with ⟨outcome,same⟩ | ⟨chunk,later,pushed,grown⟩
    · rw [same] at step
      cases outcome with
      | returned result =>
        cases step
        refine update_flows ?_ ?_ s
        · exact (flows side).same_source rfl rfl (by rw [before]; simp [Peer.accepted,finishWrite])
        · exact inward.same_target rfl rfl
      | again | waits =>
        cases step
        refine update_flows ?_ ?_ s
        · exact (flows side).same_source rfl rfl before.symm
        · exact inward.same_target rfl rfl
    · rw [pushed] at step
      cases step
      refine update_flows ?_ ?_ s
      · refine (flows side).pushes roomy chunk rfl ?_ rfl
        rw [before,append_assoc,← grown]
        rfl
      · exact inward.same_target rfl rfl

theorem advance_flows (flows : ∀ side, Flows (peers side) (peers side.other)) (roomy : Roomy peers event)
    (step : advance peers event = some later) : ∀ side, Flows (later side) (later side.other) := by
  cases event with
  | writeBytes side buf =>
    have inward := flows side.other
    rw [other_other] at inward
    simp only [advance] at step
    split at step <;> cases step
    rename_i idle
    apply update_flows
    · exact (flows side).same_source rfl rfl (by simp [Peer.accepted,idle,WriteCall.accepted,WriteCall.start])
    · exact inward.same_target rfl rfl
  | writeRound side => exact writeRound_flows flows roomy step
  | abandonWrite side =>
    have inward := flows side.other
    rw [other_other] at inward
    simp only [advance] at step
    split at step <;> cases step
    rename_i call running
    apply update_flows
    · exact (flows side).same_source rfl rfl (by simp [Peer.accepted,running,finishWrite])
    · exact inward.same_target rfl rfl
  | readRound side size => exact readRound_flows flows roomy step
  | flush side stage =>
    simp only [advance] at step
    split at step <;> cases step
    rename_i conn packets performed
    exact steps_flows flows (perform_steps performed)
  | input side segments clock =>
    simp only [advance] at step
    split at step <;> cases step
    rename_i arrived
    have known : ∀ item ∈ flight segments, item ∈ flight (peers side.other).sent := by
      intro item member
      simpa using all_eq_true.mp arrived item member
    simpa using steps_flows flows (input_steps (peers side).conn segments clock known)
  | close side current =>
    cases step
    simpa using steps_flows flows (close_steps (peers side).conn current)

-- As long as no reader asks for less than is waiting, each caller reads a front of what the other wrote.
theorem returned_in_order {configs : Side → Config}
    (created : ∀ side, Connection.new conversation (configs side) = .ok (conns side))
    (roomy : Meets advance Roomy (initial conns) events) (path : run advance (initial conns) events = some peers)
    (side : Side) : (peers side.other).returned <+: (peers side).accepted := by
  have flows := run_invariant_where _
    (fun _ _ _ flows roomy step => advance_flows flows roomy step) (initial_flows created) roomy path
  exact (flows side).in_order

def freshConnection : Connection :=
  ⟨7,.default,1332,.active,0,0,0,.new 50,.new 1332,freshSender⟩

theorem freshConnection_created : Connection.new 7 .default = .ok freshConnection := by rfl

def threeBytes (size : Nat) : List Event :=
  [.writeBytes .dialer [1,2,3],.writeRound .dialer,.writeRound .dialer,.flush .dialer (.sendData 0 100 false),
    .input .listener [.data ⟨7,⟨0⟩,0,0,0,[1,2,3],100,1⟩] (fun _ => 5),.readRound .listener size]

def fourthByte : List Event :=
  [.writeBytes .dialer [4],.writeRound .dialer,.writeRound .dialer,.flush .dialer (.sendData 10 100 false),
    .input .listener [.data ⟨7,⟨0⟩,10,1,0,[4],110,1⟩] (fun _ => 15),.readRound .listener 1]

theorem waiting_alone (front : cache.lookup later = some seg)
    (gap : cache.lookup (later + 1) = none) (waiting : Waiting cache later chunks) : chunks.flatten.length ≤ seg.payload.length := by
  match chunks,waiting with
  | [],_ => simp
  | [chunk],⟨⟨other,found,same⟩,_⟩ =>
    cases Option.some.inj (front.symm.trans found)
    simp [same]
  | _ :: _ :: _,⟨_,⟨other,found,_⟩,_⟩ => rw [gap] at found; cases found

theorem returned_in_order_three : ∃ peers, run advance (initial fun _ => freshConnection) (threeBytes 16) = some peers ∧
    (peers .listener).returned <+: (peers .dialer).accepted := by
  obtain ⟨peers,path⟩ := Option.isSome_iff_exists.mp
    (by decide +kernel : (run advance (initial fun _ => freshConnection) (threeBytes 16)).isSome)
  have roomy : Meets advance Roomy (initial fun _ => freshConnection) (threeBytes 16) := by
    have start : (0 : UInt32) ≠ 0xFFFFFFFF := by decide
    have second : (1 : UInt32) ≠ 0xFFFFFFFF := by decide
    refine meets_cons True.intro rfl (meets_cons start rfl (meets_cons second rfl (meets_cons True.intro rfl
      (meets_cons True.intro rfl ⟨?_,fun _ _ => True.intro⟩))))
    intro chunks waiting
    exact Nat.le_trans (waiting_alone rfl rfl waiting) (by decide)
  exact ⟨peers,path,returned_in_order (fun _ => freshConnection_created) roomy path .dialer⟩

-- The reader takes one byte; the two others of the segment are gone and the next call returns the fourth.
theorem short_buffer_skips : ∃ peers,
    run advance (initial fun _ => freshConnection) (threeBytes 1 ++ fourthByte) = some peers ∧
      (peers .listener).returned = [1,4] ∧ (peers .dialer).accepted = [1,2,3,4] ∧
      ¬ (peers .listener).returned <+: (peers .dialer).accepted := by
  have evaluated : (run advance (initial fun _ => freshConnection) (threeBytes 1 ++ fourthByte)).map
      (fun peers => ((peers .listener).returned,(peers .dialer).accepted)) = some ([1,4],[1,2,3,4]) := by decide +kernel
  obtain ⟨peers,path,ends⟩ := Option.map_eq_some_iff.mp evaluated
  obtain ⟨returned,accepted⟩ := Prod.mk.inj ends
  refine ⟨peers,path,returned,accepted,?_⟩
  rw [returned,accepted]
  decide

end AstraCore.KcpStream
