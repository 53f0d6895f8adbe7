import Mathlib.Data.List.Perm.Basic
import AstraCore.Machine
import AstraCore.MuxFrame

namespace AstraCore.MuxSessionIo
open CheckedBytes MuxFrame Machine
open List (mem_map prefix_append prefix_rfl)

section
variable (sessionId : UInt16)

-- `write_fn` and `close_fn` as both `make_fns` and `make_fns_server` build them.
def writeFrame (data : Bytes) : Frame :=
  ({FrameMetadata.new sessionId .keep with option := FrameOption.new.set FrameOption.data},some data)

def closeFrame (hasError : Bool) : Frame :=
  ({FrameMetadata.new sessionId .end_ with
    option := if hasError then FrameOption.new.set FrameOption.error else FrameOption.new},none)

-- What `poll_write` and `poll_shutdown` spawn; a task takes the writer lock once and writes one frame.
inductive Task where
  | write (data : Bytes)
  | close
deriving DecidableEq, Repr

def Task.frame : Task → Frame
  | .write data => writeFrame sessionId data
  | .close => closeFrame sessionId false

def Task.bytes (task : Task) : Bytes :=
  encodeFrame (task.frame sessionId).1 (task.frame sessionId).2

end

-- The writing half of a session. `spawned` and `written` record the tasks in the order of the
-- calls and in the order they got the lock; no operation reads them.
structure SessionIo where
  sessionId : UInt16
  shutdown : Bool
  waiting : List Task
  wire : Bytes
  spawned : List Task
  written : List Task
deriving DecidableEq

def SessionIo.new (sessionId : UInt16) : SessionIo := ⟨sessionId,false,[],[],[],[]⟩

section
variable (io : SessionIo)

def SessionIo.spawn (task : Task) : SessionIo :=
  {io with waiting := io.waiting ++ [task],spawned := io.spawned ++ [task]}

-- The result is the one the caller sees at once, before the frame is written.
def SessionIo.pollWrite (buf : Bytes) : SessionIo × Except String Nat :=
  if io.shutdown then (io,.error "session closed") else (io.spawn (.write buf),.ok buf.length)

def SessionIo.pollShutdown : SessionIo :=
  if io.shutdown then io else {io with shutdown := true}.spawn .close

inductive Event where
  | pollWrite (buf : Bytes)
  | pollShutdown
  | lock (task : Nat)

def advance : Event → Option SessionIo
  | .pollWrite buf => some (io.pollWrite buf).1
  | .pollShutdown => some io.pollShutdown
  | .lock i => (io.waiting[i]?).map fun task =>
    {io with
      waiting := io.waiting.eraseIdx i
      wire := io.wire ++ task.bytes io.sessionId
      written := io.written ++ [task]}

-- The scheduler grants the lock in the order of the calls, and no buffer is longer than its length field.
def InTurn : Event → Prop
  | .pollWrite buf => io.shutdown = false → buf.length ≤ 65535
  | .pollShutdown => True
  | .lock i => io.waiting[i]? = io.spawned[io.written.length]?

end

def Task.fits : Task → Prop
  | .write data => data.length ≤ 65535
  | .close => True

structure Accounts (sessionId : UInt16) (io : SessionIo) : Prop where
  same : io.sessionId = sessionId
  wire : io.wire = wireFrames (io.written.map (Task.frame sessionId))
  tasks : (io.written ++ io.waiting).Perm io.spawned
  unclosed : io.shutdown = false → Task.close ∉ io.spawned
  closing : ∀ i, io.spawned[i]? = some .close → i + 1 = io.spawned.length

theorem new_accounts (sessionId) : Accounts sessionId (.new sessionId) :=
  ⟨rfl,rfl,.refl _,fun _ => by simp [SessionIo.new],by simp [SessionIo.new]⟩

theorem Accounts.spawn (accounts : Accounts sessionId io) (open_ : io.shutdown = false) (task) :
    (∀ i, (io.spawn task).spawned[i]? = some .close → i + 1 = (io.spawn task).spawned.length) ∧
      ((io.spawn task).written ++ (io.spawn task).waiting).Perm (io.spawn task).spawned := by
  refine ⟨?_,?_⟩
  · intro i found
    rw [SessionIo.spawn] at found ⊢
    rw [List.getElem?_append] at found
    split at found
    · exact absurd (List.mem_of_getElem? found) (accounts.unclosed open_)
    · obtain ⟨inside,-⟩ := List.getElem?_eq_some_iff.mp found
      simp at inside ⊢
      omega
  · simpa only [SessionIo.spawn,List.append_assoc] using accounts.tasks.append_right [task]

theorem advance_accounts (accounts : Accounts sessionId io) (step : advance io event = some next) : Accounts sessionId next := by
  cases event with
  | pollWrite buf =>
    cases step
    rw [SessionIo.pollWrite]
    split
    · exact accounts
    · rename_i open_
      have open_ : io.shutdown = false := by simpa using open_
      obtain ⟨closing,tasks⟩ := accounts.spawn open_ (.write buf)
      refine ⟨accounts.same,accounts.wire,tasks,?_,closing⟩
      intro _ member
      rcases List.mem_append.mp member with old | new
      · exact accounts.unclosed open_ old
      · simp at new
  | pollShutdown =>
    cases step
    rw [SessionIo.pollShutdown]
    split
    · exact accounts
    · rename_i open_
      obtain ⟨closing,tasks⟩ := accounts.spawn (by simpa using open_) .close
      exact ⟨accounts.same,accounts.wire,tasks,fun absent => by simp [SessionIo.spawn] at absent,closing⟩
  | lock i =>
    obtain ⟨task,found,rfl⟩ := Option.map_eq_some_iff.mp step
    refine ⟨accounts.same,?_,?_,accounts.unclosed,accounts.closing⟩
    · rw [accounts.wire,accounts.same]
      simp [wireFrames,Task.bytes]
    · obtain ⟨inside,same⟩ := List.getElem?_eq_some_iff.mp found
      have moved : (task :: io.waiting.eraseIdx i).Perm io.waiting := by
        rw [← same]
        exact List.getElem_cons_eraseIdx_perm inside
      have whole := (moved.append_left io.written).trans accounts.tasks
      simpa only [List.append_assoc,List.singleton_append] using whole

theorem data_announced : (FrameOption.new.set FrameOption.data).has FrameOption.data := by decide
theorem plain_unannounced : ¬ FrameOption.new.has FrameOption.data := by decide

theorem frame_sendable (sessionId) (task : Task) (fits : task.fits) : Sendable (task.frame sessionId) := by
  cases task with
  | write data =>
    refine ⟨⟨rfl,by simp [Task.frame,writeFrame,FrameMetadata.new],by simp [Task.frame,writeFrame,FrameMetadata.new],fun _ => rfl⟩,?_,?_⟩
    · exact ⟨fun _ => data_announced,fun _ => rfl⟩
    · intro other same
      cases same
      exact fits
  | close =>
    refine ⟨⟨rfl,by simp [Task.frame,closeFrame,FrameMetadata.new],by simp [Task.frame,closeFrame,FrameMetadata.new],
      fun _ => rfl⟩,?_,by simp [Task.frame,closeFrame]⟩
    exact ⟨fun absent => by simp [Task.frame,closeFrame] at absent,fun has => absurd has plain_unannounced⟩

theorem frame_inj (same : Task.frame sessionId first = Task.frame sessionId second) : first = second := by
  cases first <;> cases second <;> simp_all [Task.frame,writeFrame,closeFrame]

structure Ordered (io : SessionIo) : Prop where
  order : io.written <+: io.spawned
  fits : ∀ task ∈ io.spawned, task.fits

theorem spawn_ordered (ordered : Ordered io) (fits : Task.fits task) : Ordered (io.spawn task) := by
  refine ⟨ordered.order.trans (prefix_append _ _),?_⟩
  intro other member
  rcases List.mem_append.mp member with old | new
  · exact ordered.fits other old
  · rw [List.mem_singleton.mp new]
    exact fits

theorem advance_ordered (ordered : Ordered io) (turn : InTurn io event) (step : advance io event = some next) : Ordered next := by
  cases event with
  | pollWrite buf =>
    cases step
    rw [SessionIo.pollWrite]
    split
    · exact ordered
    · rename_i open_
      exact spawn_ordered ordered (turn (by simpa using open_))
  | pollShutdown =>
    cases step
    rw [SessionIo.pollShutdown]
    split
    · exact ordered
    · exact spawn_ordered ⟨ordered.order,ordered.fits⟩ True.intro
  | lock i =>
    obtain ⟨task,found,rfl⟩ := Option.map_eq_some_iff.mp step
    refine ⟨?_,ordered.fits⟩
    have next := turn.symm.trans found
    have front := List.prefix_iff_eq_take.mp ordered.order
    apply List.prefix_iff_eq_take.mpr
    rw [List.length_append,List.length_singleton,List.take_add_one,next,← front]
    rfl

theorem advance_grows (step : advance io event = some next) : io.spawned <+: next.spawned ∧ io.written <+: next.written := by
  cases event with
  | pollWrite buf =>
    cases step
    rw [SessionIo.pollWrite]
    split
    · exact ⟨prefix_rfl,prefix_rfl⟩
    · exact ⟨prefix_append _ _,prefix_rfl⟩
  | pollShutdown =>
    cases step
    rw [SessionIo.pollShutdown]
    split
    · exact ⟨prefix_rfl,prefix_rfl⟩
    · exact ⟨prefix_append _ _,prefix_rfl⟩
  | lock i =>
    obtain ⟨task,-,rfl⟩ := Option.map_eq_some_iff.mp step
    exact ⟨prefix_rfl,prefix_append _ _⟩

theorem run_grows (path : run advance io events = some last) : io.spawned <+: last.spawned ∧ io.written <+: last.written :=
  run_invariant (fun later => io.spawned <+: later.spawned ∧ io.written <+: later.written)
    (fun _ _ _ grown step => ⟨grown.1.trans (advance_grows step).1,grown.2.trans (advance_grows step).2⟩)
    ⟨prefix_rfl,prefix_rfl⟩ path

theorem run_in_turn (accounts : Accounts sessionId io) (path : run advance io events = some last)
    (order : last.written = last.spawned) (fits : ∀ task ∈ last.spawned, task.fits) : Meets advance InTurn io events := by
  induction events generalizing io with
  | nil => exact True.intro
  | cons event rest ih =>
    obtain ⟨next,step,path⟩ := run_cons path
    refine meets_cons ?_ step (ih (advance_accounts accounts step) path)
    obtain ⟨spawned,written⟩ := run_grows path
    cases event with
    | pollShutdown => exact True.intro
    | pollWrite buf =>
      intro open_
      have issued : Task.write buf ∈ next.spawned := by
        cases step
        simp [SessionIo.pollWrite,open_,SessionIo.spawn]
      exact fits _ (spawned.subset issued)
    | lock i =>
      obtain ⟨task,found,rfl⟩ := Option.map_eq_some_iff.mp step
      have room : io.written.length < io.spawned.length := by
        obtain ⟨inside,-⟩ := List.getElem?_eq_some_iff.mp found
        have total := accounts.tasks.length_eq
        rw [List.length_append] at total
        omega
      change io.waiting[i]? = io.spawned[io.written.length]?
      have here : io.spawned[io.written.length]? = last.spawned[io.written.length]? := by
        obtain ⟨more,whole⟩ := spawned
        rw [← whole,List.getElem?_append_left room]
      have there : last.written[io.written.length]? = some task := by
        obtain ⟨more,whole⟩ := written
        rw [← whole]
        simp
      rw [found,here,← order,there]

theorem readFrame_short (reads : readFrame stream = .ok (frame,rest)) : ∀ data, frame.2 = some data → data.length ≤ 65535 := by
  obtain ⟨⟨lenBuf,s1⟩,-,reads⟩ := checked_bind reads
  obtain ⟨⟨metaBuf,s2⟩,-,reads⟩ := checked_bind reads
  obtain ⟨⟨metadata,used⟩,-,reads⟩ := checked_bind reads
  dsimp only at reads
  split at reads
  · obtain ⟨⟨sizeBuf,s3⟩,-,reads⟩ := checked_bind reads
    obtain ⟨⟨data,s4⟩,taken,reads⟩ := checked_bind reads
    cases reads
    intro other same
    cases same
    have size := (be16 sizeBuf).toNat_lt
    dsimp only [readExact] at taken
    split at taken
    · cases taken
    · cases taken
      rw [List.length_take]
      omega
  · cases reads
    exact fun _ absent => by cases absent

theorem readFrames_short (reads : readFrames count stream = .ok (frames,rest)) : ∀ frame ∈ frames, ∀ data, frame.2 = some data → data.length ≤ 65535 := by
  induction count generalizing stream frames with
  | zero => cases reads; simp
  | succ count ih =>
    obtain ⟨⟨frame,s1⟩,first,reads⟩ := checked_bind reads
    obtain ⟨⟨others,s2⟩,later,reads⟩ := checked_bind reads
    cases reads
    intro other member
    rcases List.mem_cons.mp member with rfl | rest
    · exact readFrame_short first
    · exact ih later other rest

theorem fits_of_frame (short : ∀ data, (Task.frame sessionId task).2 = some data → data.length ≤ 65535) : task.fits := by
  cases task with
  | write data => exact short data rfl
  | close => exact True.intro

theorem frames_in_call_order_iff (path : run advance (.new sessionId) events = some io) (finished : io.waiting = []) :
    (∀ i, io.spawned[i]? = some .close → i + 1 = io.spawned.length) ∧
      (readFrames io.spawned.length io.wire = .ok (io.spawned.map (Task.frame sessionId),[]) ↔
        Meets advance InTurn (.new sessionId) events) := by
  have accounts := run_invariant (Accounts sessionId) (fun _ _ _ accounts step => advance_accounts accounts step)
    (new_accounts sessionId) path
  have tasks : io.written.Perm io.spawned := by simpa [finished] using accounts.tasks
  refine ⟨accounts.closing,?_,?_⟩
  · intro reads
    have fits : ∀ task ∈ io.spawned, task.fits := fun task member =>
      fits_of_frame (readFrames_short reads _ (List.mem_map_of_mem member))
    have sent : ∀ frame ∈ io.written.map (Task.frame sessionId), Sendable frame := by
      intro frame member
      obtain ⟨task,written,rfl⟩ := mem_map.mp member
      exact frame_sendable sessionId task (fits task (tasks.subset written))
    have decoded := readFrames_wire _ sent []
    rw [List.append_nil,List.length_map,tasks.length_eq,← accounts.wire,reads] at decoded
    have same := (Prod.mk.inj (Except.ok.inj decoded)).1
    have order := List.map_injective_iff.mpr (fun _ _ => frame_inj) same
    exact run_in_turn (new_accounts sessionId) path order.symm fits
  · intro turns
    have ordered := run_invariant_where Ordered (fun _ _ _ ordered turn step => advance_ordered ordered turn step)
      (⟨prefix_rfl,by simp [SessionIo.new]⟩ : Ordered (.new sessionId)) turns path
    have order := ordered.order.eq_of_length tasks.length_eq
    have sent : ∀ frame ∈ io.spawned.map (Task.frame sessionId), Sendable frame := by
      intro frame member
      obtain ⟨task,spawned,rfl⟩ := mem_map.mp member
      exact frame_sendable sessionId task (ordered.fits task spawned)
    have decoded := readFrames_wire _ sent []
    rw [accounts.wire,order]
    simpa using decoded

def politeRun : List Event := [.pollWrite [1],.pollWrite [2,3],.lock 0,.pollShutdown,.lock 0,.lock 0]

theorem frames_in_call_order_polite : ∃ io, run advance (.new 5) politeRun = some io ∧ io.waiting = [] ∧
    (readFrames io.spawned.length io.wire = .ok (io.spawned.map (Task.frame 5),[]) ↔
      Meets advance InTurn (.new 5) politeRun) := by
  have evaluated : (run advance (.new 5) politeRun).map (·.waiting) = some [] := by decide +kernel
  obtain ⟨io,path,finished⟩ := Option.map_eq_some_iff.mp evaluated
  exact ⟨io,path,finished,(frames_in_call_order_iff path finished).2⟩

-- Two tasks are waiting for the lock and the younger one gets it first.
theorem later_write_overtakes : ∃ io, run advance (.new 5) [.pollWrite [1],.pollWrite [2],.lock 1,.lock 0] = some io ∧
    io.waiting = [] ∧ io.spawned = [.write [1],.write [2]] ∧
    readFrames 2 io.wire = .ok ([writeFrame 5 [2],writeFrame 5 [1]],[]) ∧
    readFrames 2 io.wire ≠ .ok (io.spawned.map (Task.frame 5),[]) := by
  refine ⟨⟨5,false,[],Task.bytes 5 (.write [2]) ++ Task.bytes 5 (.write [1]),[.write [1],.write [2]],[.write [2],.write [1]]⟩,
    by decide +kernel,rfl,rfl,by decide +kernel,by decide +kernel⟩

-- In any order of the locks the wire holds whole frames.
theorem frames_conserved (path : run advance (.new sessionId) events = some io) (fits : ∀ task ∈ io.spawned, task.fits) :
    ∃ written, readFrames written.length io.wire = .ok (written.map (Task.frame sessionId),[]) ∧ (written ++ io.waiting).Perm io.spawned := by
  have accounts := run_invariant (Accounts sessionId) (fun _ _ _ accounts step => advance_accounts accounts step) (new_accounts sessionId) path
  refine ⟨io.written,?_,accounts.tasks⟩
  have sent : ∀ frame ∈ io.written.map (Task.frame sessionId), Sendable frame := by
    intro frame member
    obtain ⟨task,written,rfl⟩ := mem_map.mp member
    exact frame_sendable sessionId task (fits task (accounts.tasks.subset (List.mem_append_left _ written)))
  have decoded := readFrames_wire _ sent []
  rw [accounts.wire]
  simpa using decoded

theorem frames_conserved_overtaken : ∃ io, run advance (.new 5) [.pollWrite [1],.pollWrite [2],.lock 1] = some io ∧
    ∃ written, readFrames written.length io.wire = .ok (written.map (Task.frame 5),[]) ∧ (written ++ io.waiting).Perm io.spawned :=
  ⟨_,rfl,@frames_conserved _ [.pollWrite [1],.pollWrite [2],.lock 1] _ rfl (by simp [SessionIo.pollWrite,SessionIo.new,SessionIo.spawn,Task.fits])⟩

end AstraCore.MuxSessionIo
