import AstraCore.Buffers
import AstraCore.Machine

namespace AstraCore.Buffers
open CheckedBytes Machine List

-- `received` is what the underlying writer has got, which takes everything. No operation changes `buffered`.
structure BufferedWriter where
  received : Bytes
  buffer : Buffer
  buffered : Bool

namespace BufferedWriter
variable (fresh : Block)

def new : BufferedWriter := ⟨[],.new fresh,true⟩

section
variable (w : BufferedWriter)

def flush : BufferedWriter :=
  if w.buffer.len = 0 then w else {w with received := w.received ++ (MultiBuffer.withBuffer w.buffer).bytes,buffer := .new fresh}

-- One turn of the loop of `write_multi_buffer`: neither a short write nor a failed one is looked at.
def putBuffer (b : Buffer) : BufferedWriter :=
  let buffer := match w.buffer.write b.bytes with
    | .ok (_,buffer) => buffer
    | .error _ => w.buffer
  let w := {w with buffer}
  if w.buffer.available < b.len then w.flush fresh else w

def writeMultiBuffer (mb : MultiBuffer) : BufferedWriter :=
  if w.buffered then mb.bufs.foldl (putBuffer fresh) w else {w with received := w.received ++ mb.bytes}

end

def write (w : BufferedWriter) (data : Bytes) : Except String Nat × BufferedWriter :=
  match w.buffer.write data with
  | .ok (n,buffer) => (.ok n,{w with buffer})
  | .error e => (.error e,w)

section
variable (w : BufferedWriter)

def held : Bytes := w.received ++ w.buffer.bytes

theorem flush_held : (w.flush fresh).held = w.held := by
  rw [flush]
  split
  · rfl
  · simp [held,MultiBuffer.withBuffer]

theorem flush_received : (w.flush fresh).received = w.held := by
  rw [flush]
  split
  · rename_i empty
    have none := eq_nil_of_length_eq_zero ((Buffer.bytes_length _).trans empty)
    rw [held,none,append_nil]
  · simp [held,MultiBuffer.withBuffer]

end

end BufferedWriter

theorem Buffer.write_full {b : Buffer} (full : b.available = 0) (data) : b.write data = .error "buffer is full" :=
  if_pos full

theorem Buffer.write_room {b : Buffer} (room : b.available ≠ 0) (data) : ∃ after,
    b.write data = .ok ((data.take b.available).length,after) ∧ after.bytes = b.bytes ++ data.take b.available ∧
      after.start = b.start ∧ after.stop = b.stop + (data.take b.available).length :=
  ⟨_,if_neg room,Buffer.appended_bytes b (Buffer.written_fits b data),rfl,rfl⟩

namespace BufferedWriter
variable {fresh : Block}

def Unread (w : BufferedWriter) : Prop := w.buffer.start = 0 ∧ w.buffered = true

section
variable {w : BufferedWriter} (unread : w.Unread)
include unread

theorem Unread.len : w.buffer.len = w.buffer.stop := by
  rw [Buffer.len,unread.1,Nat.sub_zero]

theorem flush_unread : (w.flush fresh).Unread := by
  rw [flush]
  split
  · exact unread
  · exact ⟨rfl,unread.2⟩

theorem flush_stop : (w.flush fresh).buffer.stop = 0 := by
  rw [flush]
  split
  · rename_i empty
    exact unread.len.symm.trans empty
  · rfl

end

structure Put (w : BufferedWriter) (b : Buffer) (next : BufferedWriter) : Prop where
  held : next.held = w.held ++ b.bytes.take w.buffer.available
  unread : next.Unread
  stop : b.len ≤ w.buffer.available →
    next.buffer.stop = if SIZE < w.buffer.stop + b.len + b.len then 0 else w.buffer.stop + b.len

theorem putBuffer_put (fresh) (unread : w.Unread) (b) : Put w b (w.putBuffer fresh b) := by
  have bounded := w.buffer.bounded
  have shown := b.bytes_length
  by_cases full : w.buffer.available = 0
  · have refused := Buffer.write_full full b.bytes
    rw [putBuffer,refused]
    dsimp only
    split
    · exact ⟨by rw [flush_held,full,take_zero,append_nil],flush_unread unread,by omega⟩
    · refine ⟨by rw [full,take_zero,append_nil],unread,?_⟩
      intro none
      have zero : b.len = 0 := by omega
      rw [zero,Nat.add_zero,if_neg (by omega)]
  · obtain ⟨after,written,bytes,start,stop⟩ := Buffer.write_room full b.bytes
    have kept : ({w with buffer := after} : BufferedWriter).held = w.held ++ b.bytes.take w.buffer.available := by
      rw [held,bytes,← append_assoc]
      rfl
    have still : ({w with buffer := after} : BufferedWriter).Unread := ⟨start.trans unread.1,unread.2⟩
    have ends : b.len ≤ w.buffer.available → after.stop = w.buffer.stop + b.len := by
      simp [stop,shown]
    rw [putBuffer,written]
    dsimp only
    split
    · rename_i longer
      refine ⟨by rw [flush_held,kept],flush_unread still,?_⟩
      intro fits
      have := ends fits
      rw [flush_stop still,if_pos]
      simp only [Buffer.available] at longer fits
      omega
    · rename_i room
      refine ⟨kept,still,?_⟩
      intro fits
      have placed := ends fits
      rw [if_neg]
      · exact placed
      · simp only [Buffer.available] at room fits
        omega

end BufferedWriter

-- Buffers of these lengths find room one after the other where the writer's own buffer ends at `stop`: after each of them
-- it is emptied if the room left is less than that buffer's length.
def Roomy : Nat → List Nat → Prop
  | _,[] => True
  | stop,len :: rest => stop + len ≤ SIZE ∧ Roomy (if SIZE < stop + len + len then 0 else stop + len) rest

instance decideRoomy : (stop : Nat) → (lens : List Nat) → Decidable (Roomy stop lens)
  | _,[] => inferInstanceAs (Decidable True)
  | stop,len :: rest =>
    have := decideRoomy (if SIZE < stop + len + len then 0 else stop + len) rest
    inferInstanceAs (Decidable (stop + len ≤ SIZE ∧ Roomy (if SIZE < stop + len + len then 0 else stop + len) rest))

namespace BufferedWriter
variable {fresh : Block}

theorem puts_unread (fresh) (unread : w.Unread) (bufs : List Buffer) : (bufs.foldl (putBuffer fresh) w).Unread := by
  induction bufs generalizing w with
  | nil => exact unread
  | cons b rest ih => exact ih (putBuffer_put fresh unread b).unread

theorem puts_atMost (fresh) (unread : w.Unread) (bufs) : (bufs.foldl (putBuffer fresh) w).held.length ≤ w.held.length + total bufs := by
  induction bufs generalizing w with
  | nil => exact Nat.le_refl _
  | cons b rest ih =>
    have put := putBuffer_put fresh unread b
    have later := ih put.unread
    have one := congrArg List.length put.held
    have shown := b.bytes_length
    simp only [length_append,length_take] at one
    rw [foldl_cons,total_cons]
    omega

theorem puts_roomy (fresh) (unread : w.Unread) (roomy : Roomy w.buffer.stop (lengths bufs)) :
    (bufs.foldl (putBuffer fresh) w).held = w.held ++ bytesOf bufs := by
  induction bufs generalizing w with
  | nil => exact (append_nil _).symm
  | cons b rest ih =>
    obtain ⟨fits,later⟩ := roomy
    have put := putBuffer_put fresh unread b
    have room : b.len ≤ w.buffer.available := by
      rw [Buffer.available]
      omega
    rw [← put.stop room] at later
    rw [foldl_cons,ih put.unread later,put.held,take_of_length_le (by rwa [b.bytes_length]),bytesOf_cons,append_assoc]

theorem puts_crowded (fresh) (unread : w.Unread) (crowded : ¬ Roomy w.buffer.stop (lengths bufs)) :
    (bufs.foldl (putBuffer fresh) w).held.length < w.held.length + total bufs := by
  induction bufs generalizing w with
  | nil => exact absurd trivial crowded
  | cons b rest ih =>
    have put := putBuffer_put fresh unread b
    have one := congrArg List.length put.held
    have shown := b.bytes_length
    have bounded := w.buffer.bounded
    simp only [length_append,length_take] at one
    rw [foldl_cons,total_cons]
    by_cases room : b.len ≤ w.buffer.available
    · have later := ih put.unread (by
        rw [put.stop room]
        intro roomy
        refine crowded ⟨?_,roomy⟩
        simp only [Buffer.available] at room
        omega)
      omega
    · have later := puts_atMost fresh put.unread rest
      omega

end BufferedWriter

inductive WriteCall where
  | multi (mb : MultiBuffer)
  | write (data : Bytes)

structure WriteSession where
  writer : BufferedWriter
  wanted : Bytes

namespace WriteSession
variable (fresh : Block)

def start : WriteSession := ⟨.new fresh,[]⟩

section
variable (s : WriteSession)

def call : WriteCall → Option WriteSession
  | .multi mb => some ⟨s.writer.writeMultiBuffer fresh mb,s.wanted ++ mb.bytes⟩
  | .write data =>
    match s.writer.write data with
    | (.ok n,writer) => some ⟨writer,s.wanted ++ data.take n⟩
    | (.error _,writer) => some {s with writer}

def Balanced : Prop := s.writer.Unread ∧ s.writer.held = s.wanted
def Short : Prop := s.writer.Unread ∧ s.writer.held.length < s.wanted.length

def Careful : WriteCall → Prop
  | .multi mb => Roomy s.writer.buffer.stop (lengths mb.bufs)
  | .write _ => True

end

variable {fresh} {s next : WriteSession}

theorem call_multi (fresh) (unread : s.writer.Unread) :
    s.call fresh (.multi mb) = some ⟨mb.bufs.foldl (BufferedWriter.putBuffer fresh) s.writer,s.wanted ++ mb.bytes⟩ := by
  rw [call,BufferedWriter.writeMultiBuffer,if_pos unread.2]

theorem call_write (fresh) (unread : s.writer.Unread) : ∃ next front,
    s.call fresh (.write data) = some next ∧ next.writer.Unread ∧ next.writer.held = s.writer.held ++ front ∧ next.wanted = s.wanted ++ front := by
  by_cases full : s.writer.buffer.available = 0
  · refine ⟨s,[],?_,unread,(append_nil _).symm,(append_nil _).symm⟩
    rw [call,BufferedWriter.write,Buffer.write_full full]
  · obtain ⟨after,written,bytes,start,stop⟩ := Buffer.write_room full data
    refine ⟨⟨{s.writer with buffer := after},s.wanted ++ data.take (data.take s.writer.buffer.available).length⟩,
      data.take s.writer.buffer.available,?_,⟨start.trans unread.1,unread.2⟩,?_,?_⟩
    · rw [call,BufferedWriter.write,written]
    · rw [BufferedWriter.held,bytes,← append_assoc]
      rfl
    · rw [length_take,← take_take,take_length]

theorem call_kept (balanced : s.Balanced) (careful : s.Careful made) : ∃ next, s.call fresh made = some next ∧ next.Balanced := by
  obtain ⟨unread,same⟩ := balanced
  cases made with
  | multi mb =>
    refine ⟨_,call_multi fresh unread,BufferedWriter.puts_unread fresh unread mb.bufs,?_⟩
    rw [BufferedWriter.puts_roomy fresh unread careful,same]
    rfl
  | write data =>
    obtain ⟨next,front,taken,still,held,wanted⟩ := call_write fresh unread
    exact ⟨next,taken,still,by rw [held,wanted,same]⟩

theorem call_crowded (balanced : s.Balanced) (careless : ¬ s.Careful made) (taken : s.call fresh made = some next) : next.Short := by
  obtain ⟨unread,same⟩ := balanced
  cases made with
  | multi mb =>
    cases Option.some.inj ((call_multi fresh unread).symm.trans taken)
    refine ⟨BufferedWriter.puts_unread fresh unread mb.bufs,?_⟩
    have fewer := BufferedWriter.puts_crowded fresh unread careless
    rw [length_append,← same,mb.bytes_length,mb.counted]
    exact fewer
  | write data => exact absurd trivial careless

theorem short_stays (short : s.Short) (taken : s.call fresh made = some next) : next.Short := by
  obtain ⟨unread,fewer⟩ := short
  cases made with
  | multi mb =>
    cases Option.some.inj ((call_multi fresh unread).symm.trans taken)
    refine ⟨BufferedWriter.puts_unread fresh unread mb.bufs,?_⟩
    have most := BufferedWriter.puts_atMost fresh unread mb.bufs
    change (mb.bufs.foldl _ s.writer).held.length < (s.wanted ++ mb.bytes).length
    rw [length_append,mb.bytes_length,mb.counted]
    omega
  | write data =>
    obtain ⟨other,front,same,still,held,wanted⟩ := call_write fresh unread
    cases Option.some.inj (same.symm.trans taken)
    refine ⟨still,?_⟩
    rw [held,wanted,length_append,length_append]
    omega

theorem call_unread (unread : s.writer.Unread) (taken : s.call fresh made = some next) : next.writer.Unread := by
  cases made with
  | multi mb =>
    cases Option.some.inj ((call_multi fresh unread).symm.trans taken)
    exact BufferedWriter.puts_unread fresh unread mb.bufs
  | write data =>
    obtain ⟨other,front,same,still,-,-⟩ := call_write fresh unread
    cases Option.some.inj (same.symm.trans taken)
    exact still

end WriteSession

-- After a flush the underlying writer has all that was written exactly when every buffer of every MultiBuffer found room.
theorem writer_conserves_iff (fresh : Block) (calls : List WriteCall) :
    (∃ last, run (WriteSession.call fresh) (.start fresh) calls = some last ∧ (last.writer.flush fresh).received = last.wanted) ↔
      Meets (WriteSession.call fresh) WriteSession.Careful (.start fresh) calls := by
  have new : (WriteSession.start fresh).writer.Unread := ⟨rfl,rfl⟩
  have kept : (∃ last, run (WriteSession.call fresh) (.start fresh) calls = some last ∧ last.Balanced) ↔
      Meets (WriteSession.call fresh) WriteSession.Careful (.start fresh) calls := by
    apply run_keeps_iff WriteSession.Balanced WriteSession.Short
    · intro s made balanced careful
      exact WriteSession.call_kept balanced careful
    · intro s made next balanced careless taken
      exact WriteSession.call_crowded balanced careless taken
    · intro s made next short taken
      exact WriteSession.short_stays short taken
    · intro s short balanced
      exact Nat.ne_of_lt short.2 (congrArg List.length balanced.2)
    · exact ⟨new,rfl⟩
  rw [← kept]
  apply exists_congr
  intro last
  apply and_congr_right
  intro path
  have unread := run_invariant (fun s : WriteSession => s.writer.Unread)
    (fun s made next unread taken => WriteSession.call_unread unread taken) new path
  rw [BufferedWriter.flush_received]
  exact ⟨fun same => ⟨unread,same⟩,fun balanced => balanced.2⟩

theorem block_behind_a_byte : ¬ ∃ last, run (WriteSession.call (.zero SIZE)) (.start (.zero SIZE))
    [.multi (.of [.fromSlice (.zero SIZE) [7],.fromSlice (.zero SIZE) (List.replicate SIZE 8)])] = some last ∧
      (last.writer.flush (.zero SIZE)).received = last.wanted := by
  rintro ⟨last,path,same⟩
  obtain ⟨next,step,path⟩ := run_cons path
  cases path
  have block : (Buffer.fromSlice (.zero SIZE) (List.replicate SIZE 8)).len = SIZE := by
    rw [Buffer.fromSlice_len _ (by simp),length_replicate]
  have crowded : ¬ Roomy 0 [1,SIZE] := by decide
  have short := WriteSession.call_crowded (s := .start (.zero SIZE)) ⟨⟨rfl,rfl⟩,rfl⟩ (by
    change ¬ Roomy 0 [_,_]
    rwa [block]) step
  rw [BufferedWriter.flush_received] at same
  exact Nat.ne_of_lt short.2 (congrArg List.length same)

end AstraCore.Buffers
