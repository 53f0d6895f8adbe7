import AstraCore.CheckedBytes
import AstraCore.Machine

namespace AstraCore.MuxSessionRead
open CheckedBytes Machine List

structure Channel where
  chunks : List Bytes
  connected : Bool

-- The reading half of a `SessionIo`. Nothing but `poll_read` locks the receiver, so `try_lock` finds it free.
structure Reader where
  readBuf : Bytes
  readPos : Nat
  eof : Bool
deriving DecidableEq, Repr

def Reader.new : Reader := ⟨[],0,false⟩

inductive Polled where
  | pending
  | ready (bytes : Bytes)
deriving DecidableEq, Repr

def Polled.bytes : Polled → Bytes
  | .pending => []
  | .ready bytes => bytes

def pollRead (reader : Reader) (channel : Channel) (room : Nat) : Reader × Channel × Polled :=
  if reader.readPos < reader.readBuf.length then
    let remaining := reader.readBuf.drop reader.readPos
    let len := min remaining.length room
    let readPos := reader.readPos + len
    (if readPos ≥ reader.readBuf.length then {reader with readBuf := [],readPos := 0} else {reader with readPos},
      channel,.ready (remaining.take len))
  else if reader.eof then (reader,channel,.ready [])
  else
    match channel.chunks with
    | data :: rest =>
      let len := min data.length room
      (if len < data.length then {reader with readBuf := data,readPos := len} else reader,
        {channel with chunks := rest},.ready (data.take len))
    | [] => if channel.connected then (reader,channel,.pending) else ({reader with eof := true},channel,.ready [])

structure Session where
  reader : Reader
  channel : Channel
  sent : List Bytes
  delivered : Bytes

def Session.new : Session := ⟨.new,⟨[],true⟩,[],[]⟩

inductive Event where
  | send (chunk : Bytes)
  | drop
  | poll (room : Nat)

section
variable (s : Session)

def Session.polled (room : Nat) : Polled := (pollRead s.reader s.channel room).2.2

-- A sender that was dropped sends nothing. Buffers are not empty.
def advance : Event → Option Session
  | .send chunk =>
    if s.channel.connected then some {s with channel := {s.channel with chunks := s.channel.chunks ++ [chunk]},sent := s.sent ++ [chunk]}
    else none
  | .drop => some {s with channel := {s.channel with connected := false}}
  | .poll room =>
    if 0 < room then
      let (reader,channel,result) := pollRead s.reader s.channel room
      some {s with reader,channel,delivered := s.delivered ++ result.bytes}
    else none

def sends (events : List Event) : List Bytes :=
  events.filterMap fun
    | .send chunk => some chunk
    | _ => none

def Honest : Event → Prop
  | .poll room => 0 < room → s.polled room = .ready [] → s.channel.connected = false ∧ s.delivered = s.sent.flatten
  | _ => True

def rest (reader : Reader) : Bytes := reader.readBuf.drop reader.readPos

structure Sound (reader : Reader) (channel : Channel) : Prop where
  inside : reader.readPos ≤ reader.readBuf.length
  ended : reader.eof = true → rest reader = [] ∧ channel.chunks = [] ∧ channel.connected = false

theorem rest_done (done : ¬ reader.readPos < reader.readBuf.length) : rest reader = [] :=
  drop_of_length_le (by omega)

theorem new_sound : Sound .new channel :=
  ⟨Nat.le_refl 0,fun ended => absurd ended Bool.false_ne_true⟩

inductive Polls (reader : Reader) (channel : Channel) (room : Nat) : Reader → Channel → Polled → Prop where
  | drains (some : rest reader ≠ []) (left : rest later = (rest reader).drop room) (inside : later.readPos ≤ later.readBuf.length)
      (eof : later.eof = reader.eof) : Polls reader channel room later channel (.ready ((rest reader).take room))
  | ended (none : rest reader = []) (eof : reader.eof = true) : Polls reader channel room reader channel (.ready [])
  | receives (none : rest reader = []) (open_ : reader.eof = false) (queue : channel.chunks = data :: queued)
      (left : rest later = data.drop room) (inside : later.readPos ≤ later.readBuf.length) (eof : later.eof = false) :
      Polls reader channel room later {channel with chunks := queued} (.ready (data.take room))
  | waits (none : rest reader = []) (open_ : reader.eof = false) (queue : channel.chunks = []) (connected : channel.connected = true) :
      Polls reader channel room reader channel .pending
  | ends (none : rest reader = []) (open_ : reader.eof = false) (queue : channel.chunks = []) (connected : channel.connected = false) :
      Polls reader channel room {reader with eof := true} channel (.ready [])

theorem take_min (bytes : Bytes) : bytes.take (min bytes.length room) = bytes.take room := by
  rw [Nat.min_comm,← take_take,take_length]

theorem pollRead_cases (reader channel) (inside : reader.readPos ≤ reader.readBuf.length) (room) :
    Polls reader channel room (pollRead reader channel room).1 (pollRead reader channel room).2.1 (pollRead reader channel room).2.2 := by
  have width : (rest reader).length = reader.readBuf.length - reader.readPos := length_drop
  rw [pollRead]
  by_cases buffered : reader.readPos < reader.readBuf.length
  · have present : rest reader ≠ [] := by
      rw [← length_pos_iff]
      omega
    rw [if_pos buffered]
    change Polls reader channel room
      (if reader.readPos + min (rest reader).length room ≥ reader.readBuf.length then {reader with readBuf := [],readPos := 0}
        else {reader with readPos := reader.readPos + min (rest reader).length room})
      channel (.ready ((rest reader).take (min (rest reader).length room)))
    rw [take_min]
    split
    · refine .drains present ?_ (Nat.le_refl 0) rfl
      rw [drop_of_length_le (by omega)]
      rfl
    · rename_i more
      have all : min (rest reader).length room = room := by omega
      refine .drains present ?_ ?_ rfl
      · change reader.readBuf.drop _ = (reader.readBuf.drop reader.readPos).drop room
        rw [drop_drop,all]
      · change reader.readPos + min (rest reader).length room ≤ reader.readBuf.length
        omega
  · have none := rest_done buffered
    rw [if_neg buffered]
    by_cases ended : reader.eof = true
    · rw [if_pos ended]
      exact .ended none ended
    have open_ := Bool.eq_false_iff.mpr ended
    rw [if_neg ended]
    cases queue : channel.chunks with
    | nil =>
      cases connected : channel.connected with
      | true => exact .waits none open_ queue connected
      | false => exact .ends none open_ queue connected
    | cons data queued =>
      dsimp only
      rw [take_min]
      split
      · rename_i part
        have all : min data.length room = room := by omega
        refine .receives none open_ queue ?_ (Nat.le_of_lt part) open_
        change data.drop _ = data.drop room
        rw [all]
      · refine .receives none open_ queue ?_ inside open_
        rw [none,drop_of_length_le (by omega)]

structure Accounts : Prop where
  sound : Sound s.reader s.channel
  account : s.delivered ++ rest s.reader ++ s.channel.chunks.flatten = s.sent.flatten
  queued : s.channel.chunks <:+ s.sent

end

theorem new_accounts : Accounts .new := ⟨new_sound,rfl,suffix_rfl⟩

theorem poll_accounts (accounts : Accounts s) (polls : Polls s.reader s.channel room reader channel result) :
    Accounts {s with reader,channel,delivered := s.delivered ++ result.bytes} := by
  obtain ⟨sound,account,queued⟩ := accounts
  cases polls with
  | drains present left inside eof =>
    refine ⟨⟨inside,?_⟩,?_,queued⟩
    · intro ended
      have nothing := (sound.ended (eof.symm.trans ended)).1
      exact absurd nothing present
    · dsimp only [Polled.bytes]
      rw [left,append_assoc s.delivered,take_append_drop]
      exact account
  | ended none eof => exact ⟨sound,by simpa [Polled.bytes] using account,queued⟩
  | receives none open_ queue left inside eof =>
    refine ⟨⟨inside,fun ended => absurd (eof.symm.trans ended) Bool.false_ne_true⟩,?_,?_⟩
    · dsimp only [Polled.bytes]
      rw [none,queue,append_nil] at account
      rw [left,append_assoc s.delivered,take_append_drop,append_assoc]
      exact account
    · rw [queue] at queued
      exact (suffix_cons _ _).trans queued
  | waits none open_ queue connected => exact ⟨sound,by simpa [Polled.bytes] using account,queued⟩
  | ends none open_ queue connected =>
    refine ⟨⟨sound.inside,fun _ => ⟨none,queue,connected⟩⟩,?_,queued⟩
    simpa [Polled.bytes,rest] using account

theorem advance_accounts (accounts : Accounts s) (step : advance s event = some later) : Accounts later := by
  cases event with
  | send chunk =>
    rw [advance] at step
    split at step
    · rename_i connected
      cases step
      refine ⟨⟨accounts.sound.inside,?_⟩,?_,?_⟩
      · intro ended
        have dropped := (accounts.sound.ended ended).2.2
        exact absurd (connected.symm.trans dropped) Bool.noConfusion
      · have account := accounts.account
        simp only [flatten_append,← account,append_assoc]
      · obtain ⟨front,whole⟩ := accounts.queued
        exact ⟨front,by rw [← whole,append_assoc]⟩
    · cases step
  | drop =>
    cases step
    refine ⟨⟨accounts.sound.inside,?_⟩,accounts.account,accounts.queued⟩
    intro ended
    obtain ⟨none,queue,-⟩ := accounts.sound.ended ended
    exact ⟨none,queue,rfl⟩
  | poll room =>
    rw [advance] at step
    split at step
    · cases step
      exact poll_accounts accounts (pollRead_cases s.reader s.channel accounts.sound.inside room)
    · cases step

theorem take_positive (positive : 0 < room) (none : bytes.take room = []) : bytes = [] := by
  rcases take_eq_nil_iff.mp none with zero | empty
  · omega
  · exact empty

theorem poll_honest (accounts : Accounts s) (full : [] ∉ s.sent) : Honest s event := by
  cases event with
  | send chunk | drop => trivial
  | poll room =>
    intro positive zero
    have account := accounts.account
    have polls := pollRead_cases s.reader s.channel accounts.sound.inside room
    rw [show (pollRead s.reader s.channel room).2.2 = .ready [] from zero] at polls
    generalize (pollRead s.reader s.channel room).1 = reader at polls
    generalize (pollRead s.reader s.channel room).2.1 = channel at polls
    generalize same : Polled.ready [] = result at polls
    cases polls with
    | drains present left inside eof =>
      have nothing := Polled.ready.inj same
      exact absurd (take_positive positive nothing.symm) present
    | ended none eof =>
      obtain ⟨-,queue,dropped⟩ := accounts.sound.ended eof
      refine ⟨dropped,?_⟩
      simpa [none,queue] using account
    | receives none open_ queue left inside eof =>
      have nothing := take_positive positive (Polled.ready.inj same).symm
      have queued : [] ∈ s.channel.chunks := by
        rw [queue,nothing]
        exact mem_cons_self
      exact absurd (accounts.queued.subset queued) full
    | waits none open_ queue connected => cases same
    | ends none open_ queue connected => exact ⟨connected,by simpa [none,queue] using account⟩

theorem sends_cons : sends (event :: events) = sends [event] ++ sends events := by
  cases event with
  | send chunk | drop | poll room => rfl

theorem advance_sent (step : advance s event = some later) : later.sent = s.sent ++ sends [event] := by
  cases event with
  | send chunk =>
    rw [advance] at step
    split at step
    · cases step
      rfl
    · cases step
  | drop =>
    cases step
    exact (append_nil _).symm
  | poll room =>
    rw [advance] at step
    split at step
    · cases step
      exact (append_nil _).symm
    · cases step

theorem run_honest (accounts : Accounts s) (full : [] ∉ s.sent ++ sends events) : Meets advance Honest s events := by
  induction events generalizing s with
  | nil => trivial
  | cons event rest ih =>
    refine ⟨poll_honest accounts (fun found => full (mem_append_left _ found)),?_⟩
    intro next step
    apply ih (advance_accounts accounts step)
    rw [advance_sent step,append_assoc,← sends_cons]
    exact full

theorem run_accounts (path : run advance .new events = some last) : Accounts last ∧ last.sent = sends events := by
  refine run_history (fun history s => Accounts s ∧ s.sent = sends history) ?_ ⟨new_accounts,rfl⟩ path
  rintro history s event next ⟨accounts,sent⟩ step
  refine ⟨advance_accounts accounts step,?_⟩
  rw [advance_sent step,sent,sends,sends,sends,filterMap_append]

def sendAll (chunks : List Bytes) : List Event := chunks.map .send
def pollEach (chunks : List Bytes) : List Event := chunks.map fun chunk => .poll chunk.length

theorem run_sends (chunks s) (connected : s.channel.connected = true) : run advance s (sendAll chunks) =
      some {s with channel := {s.channel with chunks := s.channel.chunks ++ chunks},sent := s.sent ++ chunks} := by
  induction chunks generalizing s with
  | nil => simp [sendAll,run]
  | cons chunk rest ih =>
    have step : advance s (.send chunk) = some {s with
        channel := {s.channel with chunks := s.channel.chunks ++ [chunk]},sent := s.sent ++ [chunk]} := if_pos connected
    rw [sendAll,map_cons,run,step]
    refine (ih _ ?_).trans ?_
    · exact connected
    · simp

theorem run_polls (front back) (full : [] ∉ front) (sent delivered connected) :
    run advance ⟨.new,⟨front ++ back,connected⟩,sent,delivered⟩ (pollEach front) = some ⟨.new,⟨back,connected⟩,sent,delivered ++ front.flatten⟩ := by
  induction front generalizing delivered with
  | nil => simp [pollEach,run]
  | cons chunk rest ih =>
    have positive : 0 < chunk.length := length_pos_iff.mpr fun none => full (by rw [none]; exact mem_cons_self)
    have step : advance ⟨.new,⟨chunk :: (rest ++ back),connected⟩,sent,delivered⟩ (.poll chunk.length) =
        some ⟨.new,⟨rest ++ back,connected⟩,sent,delivered ++ chunk⟩ := by
      simp [advance,positive,pollRead,Reader.new,Polled.bytes]
    rw [pollEach,map_cons,run,cons_append,step]
    refine (ih (fun found => full (mem_cons_of_mem _ found)) _).trans ?_
    simp

theorem sends_polls : sends (pollEach front ++ events) = sends events := by
  induction front with
  | nil => rfl
  | cons chunk rest ih => exact ih

theorem sends_all : sends (sendAll chunks ++ events) = chunks ++ sends events := by
  induction chunks with
  | nil => rfl
  | cons chunk rest ih => exact congrArg (chunk :: ·) ih

theorem reads_in_order_iff (chunks : List Bytes) : (∀ events, sends events = chunks →
      (∀ last, run advance .new events = some last → last.delivered <+: chunks.flatten) ∧ Meets advance Honest .new events) ↔
      [] ∉ chunks := by
  constructor
  · intro correct found
    obtain ⟨front,back,rfl,full⟩ := eq_append_cons_of_mem found
    have sent : sends (sendAll (front ++ [] :: back) ++ (pollEach front ++ [.poll 1])) = front ++ [] :: back := by
      rw [sends_all,sends_polls]
      exact append_nil _
    have all := (correct _ sent).2
    have queued := run_sends (front ++ [] :: back) .new rfl
    have polled := run_polls front ([] :: back) full (front ++ [] :: back) [] true
    have last := (meets_behind (meets_behind all queued) polled).1
    obtain ⟨dropped,-⟩ := last Nat.zero_lt_one rfl
    cases dropped
  · rintro full events rfl
    refine ⟨?_,run_honest new_accounts full⟩
    intro last path
    obtain ⟨accounts,sent⟩ := run_accounts path
    rw [← sent,← accounts.account,append_assoc]
    exact prefix_append ..

theorem empty_chunk_read : ∃ s, run advance .new [.send [],.send [7]] = some s ∧ s.polled 1 = .ready [] ∧
    s.channel.connected = true ∧ s.delivered ≠ s.sent.flatten ∧ ¬ Honest s (.poll 1) := by
  refine ⟨_,rfl,rfl,rfl,by decide,?_⟩
  intro honest
  obtain ⟨dropped,-⟩ := honest Nat.zero_lt_one rfl
  cases dropped

def pollAll : Reader → Channel → List Nat → Reader × Channel × Bytes
  | reader,channel,[] => (reader,channel,[])
  | reader,channel,room :: rooms =>
    let (reader,channel,result) := pollRead reader channel room
    let (reader,channel,bytes) := pollAll reader channel rooms
    (reader,channel,result.bytes ++ bytes)

def ReadsOut (reader : Reader) (channel : Channel) : Prop :=
  ∃ rooms, (∀ room ∈ rooms, 0 < room) ∧ (pollAll reader channel rooms).1.eof = true ∧
    (pollAll reader channel rooms).2.2 = rest reader ++ channel.chunks.flatten

end AstraCore.MuxSessionRead
