import AstraCore.KcpLifecycle

namespace AstraCore.KcpTimers
open CheckedBytes KcpSegment KcpConnection KcpLifecycle Machine

-- What a clock that never goes back shows during one call, in milliseconds since the connection was made.
structure Readings where
  at_ : Nat → Nat
  last : Nat
  ordered : ∀ i j, i ≤ j → at_ i ≤ at_ j
  bounded : ∀ i, at_ i ≤ last

def Readings.clock (readings : Readings) (i : Nat) : UInt32 := UInt32.ofNat (readings.at_ i)

inductive Action where
  | flush
  | input (segments : List Segment)
  | close
  | readBytes (size wakes : Nat)
  | writeBytes (buf : Bytes) (wakes : Nat)

structure Timed where
  action : Action
  readings : Readings

def Timed.call (timed : Timed) : Call :=
  match timed.action with
  | .flush => .flush timed.readings.clock
  | .input segments => .input segments timed.readings.clock
  | .close => .close (timed.readings.clock 0)
  | .readBytes size wakes => .readBytes size wakes
  | .writeBytes buf wakes => .writeBytes buf wakes

def advanceTimed (life : Life) (timed : Timed) : Option Life := advance life timed.call

def Ordered : Nat → List Timed → Prop
  | _,[] => True
  | now,timed :: rest => now ≤ timed.readings.at_ 0 ∧ timed.readings.last < 2^31 ∧ Ordered timed.readings.last rest

def since (time earlier : UInt32) : Nat := time.toNat - earlier.toNat

def Timely (move : Move) : Prop :=
  match move.before.state with
  | .active => 30000 ≤ since move.time move.before.lastIncomingTime
  | .readyToClose => move.before.sending.isEmpty = false → 15000 < since move.time move.before.stateBeginTime
  | .peerTerminating => 4000 < since move.time move.before.stateBeginTime
  | .terminating => move.enters = .terminated → 8000 < since move.time move.before.stateBeginTime
  | _ => True

def NotEarly (life : Life) (timed : Timed) : Prop :=
  timed.action = .flush → ∀ move ∈ flushMoves life.conn timed.readings.clock, Timely move

def Expired (conn : Connection) (current : Nat) : Prop := conn.state = .active ∧ 30000 ≤ current - conn.lastIncomingTime.toNat

-- A `flush` that enters a state and looks at its age in the same call compares with the time at which it started: the clock
-- must not have moved between the two, or by more than the timer once the state was entered.
def Level (conn : Connection) (readings : Readings) : Prop :=
  if conn.sending.isEmpty then
    conn.state = .readyToClose ∨ Expired conn (readings.at_ 0) →
      readings.at_ 2 = readings.at_ 0 ∨ 8000 < readings.at_ 3 - readings.at_ 2
  else
    Expired conn (readings.at_ 0) → readings.at_ 1 = readings.at_ 0 ∨ 15000 < readings.at_ 5 - readings.at_ 1

def Unhurried (life : Life) (timed : Timed) : Prop := timed.action = .flush → Level life.conn timed.readings

structure InTime (now : Nat) (conn : Connection) : Prop where
  begun : conn.stateBeginTime.toNat ≤ now
  heard : conn.lastIncomingTime.toNat ≤ now

theorem clock_toNat (readings : Readings) (short : readings.last < 2^31) (i) : (readings.clock i).toNat = readings.at_ i := by
  have bound := readings.bounded i
  rw [Readings.clock,UInt32.toNat_ofNat']
  omega

theorem clock_read (readings : Readings) (short : readings.last < 2^31) (i) : (readings.clock i).toNat ≤ readings.last := by
  rw [clock_toNat readings short]
  exact readings.bounded i

theorem InTime.follows (inTime : InTime now conn) (order : now ≤ last) (follows : Follows (fun time => time.toNat ≤ last) conn moves after) :
    InTime last after := by
  constructor
  · rcases follows.begun with same | read
    · rw [same]
      exact Nat.le_trans inTime.begun order
    · exact read
  · rcases follows.heard with same | read
    · rw [same]
      exact Nat.le_trans inTime.heard order
    · exact read

theorem advance_inTime (inTime : InTime now life.conn) (first : now ≤ timed.readings.at_ 0) (short : timed.readings.last < 2^31)
    (step : advanceTimed life timed = some next) : InTime timed.readings.last next.conn := by
  have read := clock_read timed.readings short
  have reads : timed.call.Reads fun time => time.toNat ≤ timed.readings.last := by
    unfold Timed.call
    cases timed.action with
    | flush | input segments => exact read
    | close => exact read 0
    | readBytes size wakes | writeBytes buf wakes => exact True.intro
  obtain ⟨more,-,follows⟩ := advance_follows step reads
  exact inTime.follows (Nat.le_trans first (timed.readings.bounded 0)) follows

theorem sub_earlier {time : UInt32} (earlier : time.toNat ≤ current.toNat) : (current - time).toNat = current.toNat - time.toNat := by
  have small := current.toNat_lt
  rw [UInt32.toNat_sub]
  omega

theorem sub_later {time : UInt32} (later : current.toNat < time.toNat) (short : time.toNat < 2^31) : 2^31 < (current - time).toNat := by
  rw [UInt32.toNat_sub]
  omega

theorem fires_iff {later begun limit : UInt32} (order : current.toNat ≤ later.toNat) (short : begun.toNat < 2^31) (small : limit.toNat < 2^31) :
    (current - begun > limit → limit.toNat < since later begun) ↔ begun.toNat ≤ current.toNat ∨ limit.toNat < since later begun := by
  rw [gt_iff_lt,UInt32.lt_iff_toNat_lt,since]
  by_cases earlier : begun.toNat ≤ current.toNat
  · rw [sub_earlier earlier]
    exact iff_of_true (fun passed => by omega) (.inl earlier)
  · have wrapped := sub_later (Nat.not_le.mp earlier) short
    constructor
    · intro timely
      exact .inr (timely (by omega))
    · rintro (same | timely) _
      · exact absurd same earlier
      · exact timely

theorem moved_if (condition) [Decidable condition] (state time) (property : Move → Prop) :
    (∀ move ∈ moved conn (if condition then some state else none) time, property move) ↔ (condition → property ⟨conn,state,time⟩) := by
  split
  · rename_i holds
    simp [moved,holds]
  · rename_i fails
    simp [moved,fails]

section Stages
variable {readings : Readings} (short : readings.last < 2^31)
include short

theorem clock_order (i) (order : i ≤ j) : (readings.clock i).toNat ≤ (readings.clock j).toNat := by
  rw [clock_toNat _ short,clock_toNat _ short]
  exact readings.ordered i j order

theorem timer_iff (begun limit k) (read : begun.toNat ≤ readings.last) (small : limit.toNat < 2^31) :
    (readings.clock 0 - begun > limit → limit.toNat < since (readings.clock k) begun) ↔
      begun.toNat ≤ readings.at_ 0 ∨ limit.toNat < readings.at_ k - begun.toNat := by
  have fires := @fires_iff _ _ begun limit (clock_order short 0 (Nat.zero_le k)) (by omega) small
  rw [fires,since,clock_toNat _ short,clock_toNat _ short]

theorem linger_timely (conn) (terminating : conn.state = .terminating) (read : conn.stateBeginTime.toNat ≤ readings.last) :
    (∀ move ∈ moved conn (lingered conn (readings.clock 0)) (readings.clock 3), Timely move) ↔
      conn.stateBeginTime.toNat ≤ readings.at_ 0 ∨ 8000 < readings.at_ 3 - conn.stateBeginTime.toNat := by
  have timer := timer_iff short conn.stateBeginTime 8000 3 read (by decide)
  have timely : Timely ⟨conn,.terminated,readings.clock 3⟩ ↔ 8000 < since (readings.clock 3) conn.stateBeginTime := by
    simp [Timely,terminating]
  rw [lingered,moved_if,timely]
  exact timer

theorem abandoned_timely (peer : conn.state = .peerTerminating → conn.stateBeginTime.toNat ≤ readings.at_ 0) :
    ∀ move ∈ moved conn (abandoned conn (readings.clock 0)) (readings.clock 4), Timely move := by
  rw [abandoned,moved_if]
  rintro ⟨state,fires⟩
  have early := peer state
  have bound := readings.bounded 0
  have timer := timer_iff short conn.stateBeginTime 4000 4 (by omega) (by decide)
  have passed := timer.mpr (.inl early) fires
  simpa [Timely,state] using passed

theorem unanswered_timely (conn) (read : conn.stateBeginTime.toNat ≤ readings.last) :
    (∀ move ∈ moved conn (unanswered conn (readings.clock 0)) (readings.clock 5), Timely move) ↔ (conn.state = .readyToClose → conn.sending.isEmpty = false →
        conn.stateBeginTime.toNat ≤ readings.at_ 0 ∨ 15000 < readings.at_ 5 - conn.stateBeginTime.toNat) := by
  have timer := timer_iff short conn.stateBeginTime 15000 5 read (by decide)
  rw [unanswered,moved_if]
  constructor
  · intro timely state present
    apply timer.mp
    intro fires
    have passed := timely ⟨state,fires⟩
    rw [Timely,state] at passed
    exact passed present
  · rintro timely ⟨state,fires⟩
    rw [Timely,state]
    intro present
    exact timer.mpr (timely state present) fires

omit short in
theorem left_other (other : conn.state ≠ .readyToClose) : (left conn clock).state ≠ .readyToClose := by
  unfold left abandoned
  split
  · rw [enter,(setState_fields conn .terminating _).1]
    decide
  · exact other

theorem giveUp_timely (read : conn.stateBeginTime.toNat ≤ readings.last) (peer : conn.state = .peerTerminating → conn.stateBeginTime.toNat ≤ readings.at_ 0) :
    (∀ move ∈ giveUpMoves conn readings.clock, Timely move) ↔ (conn.state = .readyToClose → conn.sending.isEmpty = false →
      conn.stateBeginTime.toNat ≤ readings.at_ 0 ∨ 15000 < readings.at_ 5 - conn.stateBeginTime.toNat) := by
  rw [giveUpMoves,List.forall_mem_append,and_iff_right (abandoned_timely short peer)]
  by_cases state : conn.state = .readyToClose
  · have same : left conn readings.clock = conn := by simp [left,abandoned,state,enter]
    rw [same]
    exact unanswered_timely short conn read
  · have none_ : unanswered (left conn readings.clock) (readings.clock 0) = none :=
      if_neg fun both => left_other state both.1
    rw [none_]
    exact iff_of_true (by simp [moved]) fun ready => absurd ready state

theorem expired_iff (conn) (heard : conn.lastIncomingTime.toNat ≤ readings.at_ 0) :
    conn.state = .active ∧ readings.clock 0 - conn.lastIncomingTime ≥ 30000 ↔ Expired conn (readings.at_ 0) := by
  rw [ge_iff_le,UInt32.le_iff_toNat_le,sub_earlier (by rw [clock_toNat _ short]; exact heard),clock_toNat _ short]
  rfl

theorem expire_expired (heard : conn.lastIncomingTime.toNat ≤ readings.at_ 0) (expired : Expired conn (readings.at_ 0)) :
    silenced conn readings.clock = conn.setState .readyToClose (readings.clock 1) := by
  rw [silenced,silent,if_pos ((expired_iff short conn heard).mpr expired),closing,expired.1]
  rfl

theorem expire_lively (heard : conn.lastIncomingTime.toNat ≤ readings.at_ 0) (lively : ¬ Expired conn (readings.at_ 0)) :
    silenced conn readings.clock = conn := by
  rw [silenced,silent,if_neg (mt (expired_iff short conn heard).mp lively)]
  rfl

omit short in
theorem expire_drained (conn : Connection) (state : (silenced conn clock).state = .readyToClose) (empty : (silenced conn clock).sending.isEmpty = true) :
    (conn.expire clock).state = .terminating ∧ (conn.expire clock).stateBeginTime = clock 2 := by
  rw [expire_enters,drained,if_pos ⟨state,empty⟩]
  obtain ⟨entered,begun,-⟩ := setState_fields _ .terminating (clock 2)
  exact ⟨entered,begun⟩

omit short in
theorem expire_kept (kept : ¬ ((silenced conn clock).state = .readyToClose ∧ (silenced conn clock).sending.isEmpty = true)) :
    conn.expire clock = silenced conn clock := by
  rw [expire_enters,drained,if_neg kept]
  rfl

theorem expire_timely (heard : conn.lastIncomingTime.toNat ≤ readings.at_ 0) : ∀ move ∈ expireMoves conn readings.clock, Timely move := by
  rw [expireMoves,List.forall_mem_append]
  constructor
  · by_cases expired : Expired conn (readings.at_ 0)
    · have target : silent conn (readings.clock 0) = some .readyToClose := by
        rw [silent,if_pos ((expired_iff short conn heard).mpr expired),closing,expired.1]
      have order := readings.ordered 0 1 (by omega)
      have passed := expired.2
      rw [target]
      intro move member
      rw [List.mem_singleton.mp member,Timely,expired.1]
      simp only [since,clock_toNat _ short]
      omega
    · have target : silent conn _ = none := if_neg (mt (expired_iff short conn heard).mp expired)
      rw [target]
      simp [moved]
  · rw [drained,moved_if]
    rintro ⟨state,empty⟩
    rw [Timely,state]
    intro present
    exact absurd (empty.symm.trans present) (by decide)

theorem expire_inTime (inTime : InTime (readings.at_ 0) conn) : InTime readings.last (conn.expire readings.clock) :=
  inTime.follows (readings.bounded 0) (expire_follows conn readings.clock (clock_read readings short))

theorem terminating_timely (conn) (inTime : InTime (readings.at_ 0) conn) (living : conn.state ≠ .terminated)
    (terminating : (conn.expire readings.clock).state = .terminating) :
    (∀ move ∈ flushMoves conn readings.clock, Timely move) ↔ (conn.expire readings.clock).stateBeginTime.toNat ≤ readings.at_ 0 ∨
      8000 < readings.at_ 3 - (conn.expire readings.clock).stateBeginTime.toNat := by
  have inside := (expire_inTime short inTime).begun
  rw [flushMoves,if_neg living,if_pos terminating,List.forall_mem_append,and_iff_right (expire_timely short inTime.heard)]
  exact linger_timely short ((conn.expire readings.clock).ping (readings.clock 0) .terminate).1 terminating inside

theorem drained_timely (conn) (inTime : InTime (readings.at_ 0) conn) (living : conn.state ≠ .terminated)
    (state : (silenced conn readings.clock).state = .readyToClose) (empty : (silenced conn readings.clock).sending.isEmpty = true) :
    (∀ move ∈ flushMoves conn readings.clock, Timely move) ↔ readings.at_ 2 = readings.at_ 0 ∨ 8000 < readings.at_ 3 - readings.at_ 2 := by
  obtain ⟨terminating,begun⟩ := expire_drained conn state empty
  have order := readings.ordered 0 2 (by omega)
  rw [terminating_timely short conn inTime living terminating,begun,clock_toNat _ short]
  omega

theorem waiting_timely (conn) (inTime : InTime (readings.at_ 0) conn) (living : conn.state ≠ .terminated)
    (kept : ¬ ((silenced conn readings.clock).state = .readyToClose ∧ (silenced conn readings.clock).sending.isEmpty = true))
    (waiting : (silenced conn readings.clock).state ≠ .terminating)
    (peer : (silenced conn readings.clock).state = .peerTerminating → (silenced conn readings.clock).stateBeginTime.toNat ≤ readings.at_ 0) :
    (∀ move ∈ flushMoves conn readings.clock, Timely move) ↔ ((silenced conn readings.clock).state = .readyToClose →
      (silenced conn readings.clock).stateBeginTime.toNat ≤ readings.at_ 0 ∨ 15000 < readings.at_ 5 - (silenced conn readings.clock).stateBeginTime.toNat) := by
  have inside := (expire_inTime short inTime).begun
  have same := expire_kept kept
  rw [same] at inside
  rw [flushMoves,if_neg living,same,if_neg waiting,List.forall_mem_append,and_iff_right (expire_timely short inTime.heard),giveUp_timely short inside peer]
  constructor
  · intro timely state
    have present : (silenced conn readings.clock).sending.isEmpty = false := by
      cases empty : (silenced conn readings.clock).sending.isEmpty with
      | true => exact absurd ⟨state,empty⟩ kept
      | false => rfl
    exact timely state present
  · intro timely state _
    exact timely state

theorem flush_timely_iff (inTime : InTime (readings.at_ 0) conn) : (∀ move ∈ flushMoves conn readings.clock, Timely move) ↔ Level conn readings := by
  unfold Level
  by_cases living : conn.state = .terminated
  · have quiet : ¬ Expired conn (readings.at_ 0) := fun expired => by rw [Expired,living] at expired; exact absurd expired.1 (by decide)
    rw [flushMoves,if_pos living]
    refine iff_of_true (by simp) ?_
    split
    · rintro (ready | expired)
      · exact absurd (living.symm.trans ready) (by decide)
      · exact absurd expired quiet
    · exact fun expired => absurd expired quiet
  by_cases expired : Expired conn (readings.at_ 0)
  · -- Closed for its silence in this very call.
    have closed := expire_expired short inTime.heard expired
    obtain ⟨entered,begun,-⟩ := setState_fields conn .readyToClose (readings.clock 1)
    cases empty : conn.sending.isEmpty with
    | true =>
      rw [drained_timely short conn inTime living (by rw [closed]; exact entered) (by rw [closed]; exact empty)]
      simp [expired]
    | false =>
      have order := readings.ordered 0 1 (by omega)
      rw [waiting_timely short conn inTime living,closed,entered,begun,clock_toNat _ short]
      · simp only [expired,true_imp_iff,Bool.false_eq_true,if_false]
        omega
      · rw [closed]
        exact fun both => absurd (empty.symm.trans both.2) (by decide)
      · rw [closed,entered]
        decide
      · rw [closed,entered]
        exact fun other => absurd other (by decide)
  · have same := expire_lively short inTime.heard expired
    by_cases ready : conn.state = .readyToClose ∧ conn.sending.isEmpty = true
    · rw [drained_timely short conn inTime living (by rw [same]; exact ready.1) (by rw [same]; exact ready.2)]
      simp [ready]
    · -- Every timer that is looked at was set by an earlier call.
      have early := inTime.begun
      refine iff_of_true ?_ ?_
      · by_cases terminating : conn.state = .terminating
        · have kept := expire_kept (by rw [same]; exact ready)
          rw [same] at kept
          rw [terminating_timely short conn inTime living (by rw [kept]; exact terminating),kept]
          exact .inl early
        · rw [waiting_timely short conn inTime living,same]
          · exact fun _ => .inl early
          · rw [same]
            exact ready
          · rw [same]
            exact terminating
          · rw [same]
            exact fun _ => early
      · split
        · rename_i empty
          rintro (state | silent)
          · exact absurd ⟨state,empty⟩ ready
          · exact absurd silent expired
        · exact fun silent => absurd silent expired

end Stages

theorem notEarly_iff (inTime : InTime now life.conn) (first : now ≤ timed.readings.at_ 0) (short : timed.readings.last < 2^31) :
    NotEarly life timed ↔ Unhurried life timed := by
  have earlier : InTime _ life.conn := ⟨Nat.le_trans inTime.begun first,Nat.le_trans inTime.heard first⟩
  exact forall_congr' fun _ => flush_timely_iff short earlier

theorem run_notEarly_iff (inTime : InTime now life.conn) (ordered : Ordered now calls) :
    Meets advanceTimed NotEarly life calls ↔ Meets advanceTimed Unhurried life calls := by
  induction calls generalizing now life with
  | nil => exact Iff.rfl
  | cons timed rest ih =>
    obtain ⟨first,short,later⟩ := ordered
    refine and_congr (notEarly_iff inTime first short) ?_
    exact forall_congr' fun next => forall_congr' fun step => ih (advance_inTime inTime first short step) later

theorem timers_wait_iff (created : Connection.new conversation config = .ok conn) (calls : List Timed) (ordered : Ordered 0 calls) :
    Meets advanceTimed NotEarly ⟨conn,[]⟩ calls ↔ Meets advanceTimed Unhurried ⟨conn,[]⟩ calls := by
  obtain ⟨sending,-,created⟩ := checked_bind created
  cases created
  exact run_notEarly_iff ⟨Nat.le_refl 0,Nat.le_refl 0⟩ ordered

theorem steady_ordered (time : Nat) : ∀ i j : Nat, i ≤ j → time ≤ time := fun _ _ _ => Nat.le_refl time
theorem steady_bounded (time : Nat) : ∀ _ : Nat, time ≤ time := fun _ => Nat.le_refl time

-- A clock that stands still during the call, and one that moves on by a millisecond after the first reading.
def steady (time : Nat) : Readings := ⟨fun _ => time,time,steady_ordered time,steady_bounded time⟩

theorem ticking_ordered (i j) (order : i ≤ j) : time + min i 1 ≤ time + min j 1 := by omega
theorem ticking_bounded (i) : time + min i 1 ≤ time + 1 := by omega

def ticking (time : Nat) : Readings := ⟨fun i => time + min i 1,time + 1,ticking_ordered,ticking_bounded⟩

theorem steady_level : Level conn (steady time) := by
  unfold Level
  split
  · exact fun _ => .inl rfl
  · exact fun _ => .inl rfl

def steadyCalls : List Timed := [⟨.flush,steady 30000⟩,⟨.flush,steady 40000⟩]

theorem timers_wait_iff_steady : Ordered 0 steadyCalls ∧ Meets advanceTimed NotEarly ⟨KcpStream.freshConnection,[]⟩ steadyCalls := by
  have ordered : Ordered 0 steadyCalls := ⟨by decide,by decide,by decide,by decide,True.intro⟩
  refine ⟨ordered,(timers_wait_iff KcpStream.freshConnection_created steadyCalls ordered).mpr ⟨?_,?_⟩⟩
  · exact fun _ => steady_level
  · exact fun next _ => ⟨fun _ => steady_level,fun _ _ => True.intro⟩

def tickingCall : Timed := ⟨.flush,ticking 30000⟩

-- A silent connection is closed, found empty and terminated by one call: it has spent no time in `Terminating`.
theorem terminated_at_once : Ordered 0 [tickingCall] ∧
      (flushMoves KcpStream.freshConnection tickingCall.readings.clock).map (fun move => (move.before.state,move.enters,move.time)) =
        [(.active,.readyToClose,30001),(.readyToClose,.terminating,30001),(.terminating,.terminated,30001)] ∧
      ¬ Meets advanceTimed NotEarly ⟨KcpStream.freshConnection,[]⟩ [tickingCall] := by
  have short : tickingCall.readings.last < 2^31 := by decide
  refine ⟨⟨Nat.zero_le _,short,True.intro⟩,by rfl,?_⟩
  intro meets
  have level := (flush_timely_iff short ⟨Nat.zero_le _,Nat.zero_le _⟩).mp (meets.1 rfl)
  have moved := level (.inr ⟨rfl,by decide⟩)
  exact absurd moved (by decide)

end AstraCore.KcpTimers
