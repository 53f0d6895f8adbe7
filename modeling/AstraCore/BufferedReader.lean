import AstraCore.Buffers
import AstraCore.Machine

namespace AstraCore.Buffers
open CheckedBytes Machine
open List (append_nil length_append length_take prefix_append)

inductive ErrorKind where
  | interrupted
  | unexpectedEof
  | other
deriving DecidableEq, Repr

structure IoError where
  kind : ErrorKind
  message : String
deriving DecidableEq, Repr

-- An inner `Reader`: what its calls return one after another, and the bytes it has handed out. Behind the last of them it
-- is at its end, where a reader returns an empty MultiBuffer.
structure Source where
  coming : List (Except IoError MultiBuffer)
  given : Bytes

def Source.readMultiBuffer (source : Source) : Except IoError MultiBuffer × Source :=
  match source.coming with
  | [] => (.ok .new,source)
  | .error e :: rest => (.error e,{source with coming := rest})
  | .ok mb :: rest => (.ok mb,⟨rest,source.given ++ mb.bytes⟩)

structure BufferedReader where
  reader : Source
  buf : MultiBuffer

namespace BufferedReader

def new (reader : Source) : BufferedReader := ⟨reader,.new⟩

def bufferedBytes (r : BufferedReader) : Nat := r.buf.totalLen

-- What the inner reader gave beyond `size` goes out of scope with `result`.
def readAtMost (r : BufferedReader) (fresh : Block) (size : Nat) : Except IoError MultiBuffer × BufferedReader :=
  if size ≤ r.buf.totalLen then
    let (result,buf) := r.buf.cutFront fresh size
    (.ok result,{r with buf})
  else
    match r.reader.readMultiBuffer with
    | (.error e,reader) => (.error e,{r with reader})
    | (.ok more,reader) =>
      let result := if more.isEmpty then r.buf else r.buf.append more
      (.ok (result.cutFront fresh size).1,⟨reader,.new⟩)

def readMultiBuffer (r : BufferedReader) : Except IoError MultiBuffer × BufferedReader :=
  if r.buf.isEmpty then
    let (result,reader) := r.reader.readMultiBuffer
    (result,{r with reader})
  else (.ok r.buf,{r with buf := .new})

def read (r : BufferedReader) (room : Nat) : Checked (Except IoError Bytes × BufferedReader) := do
  let (bytes,buf) ← r.buf.readInto room
  if 0 < bytes.length then .ok (.ok bytes,{r with buf})
  else
    match r.reader.readMultiBuffer with
    | (.error e,reader) => .ok (.error e,⟨reader,buf⟩)
    | (.ok mb,reader) =>
      if mb.isEmpty then .ok (.ok [],⟨reader,buf⟩)
      else do
        let (bytes,buf) ← mb.readInto room
        .ok (.ok bytes,⟨reader,buf⟩)

end BufferedReader

def Source.upcoming (source : Source) : MultiBuffer :=
  match source.coming with
  | .ok mb :: _ => mb
  | _ => .new

theorem Source.fetch_cases (source : Source) : (∃ e after, source.readMultiBuffer = (.error e,after) ∧ source.upcoming = .new ∧ after.given = source.given) ∨
    ∃ after, source.readMultiBuffer = (.ok source.upcoming,after) ∧ after.given = source.given ++ source.upcoming.bytes := by
  rcases source with ⟨coming,given⟩
  cases coming with
  | nil => exact .inr ⟨_,rfl,(append_nil _).symm⟩
  | cons first rest =>
    cases first with
    | error e => exact .inl ⟨e,_,rfl,rfl,rfl⟩
    | ok mb => exact .inr ⟨_,rfl,rfl⟩

namespace BufferedReader

theorem read_overruns {r : BufferedReader} (overruns : ¬ Fits room 0 (lengths r.buf.bufs)) : r.read room = .error .sliceIndex := by
  rw [read,MultiBuffer.readInto_overruns overruns]
  rfl

theorem read_buffered {r : BufferedReader} (fits : Fits room 0 (lengths r.buf.bufs)) (positive : 0 < room) (held : r.buf.totalLen ≠ 0) :
    r.read room = .ok (.ok (r.buf.bytes.take room),{r with buf := .of (behind room r.buf.bufs)}) := by
  have some : 0 < (r.buf.bytes.take room).length := by
    rw [length_take,MultiBuffer.bytes_length]
    omega
  rw [read,MultiBuffer.readInto_fits fits]
  exact if_pos some

theorem read_empty {r : BufferedReader} (nothing : room = 0 ∨ r.buf.totalLen = 0) : r.read room = match r.reader.readMultiBuffer with
      | (.error e,reader) => .ok (.error e,⟨reader,.of (behind room r.buf.bufs)⟩)
      | (.ok mb,reader) =>
        if mb.isEmpty then .ok (.ok [],⟨reader,.of (behind room r.buf.bufs)⟩)
        else mb.readInto room >>= fun done => .ok (.ok done.1,⟨reader,done.2⟩) := by
  have fits : Fits room 0 (lengths r.buf.bufs) := by
    rcases nothing with none | empty
    · exact fits_full (by omega) _
    · exact fits_nothing (r.buf.counted.symm.trans empty)
  have none : ¬ 0 < (r.buf.bytes.take room).length := by
    rw [length_take,MultiBuffer.bytes_length]
    omega
  rw [read,MultiBuffer.readInto_fits fits]
  exact if_neg none

section
variable {r : BufferedReader}

theorem readAtMost_held (enough : size ≤ r.buf.totalLen) (fresh) :
    r.readAtMost fresh size = (.ok (r.buf.cutFront fresh size).1,{r with buf := (r.buf.cutFront fresh size).2}) :=
  if_pos enough

theorem readAtMost_failed (less : r.buf.totalLen < size) (fetch : r.reader.readMultiBuffer = (.error e,after)) (fresh) :
    r.readAtMost fresh size = (.error e,{r with reader := after}) := by
  rw [readAtMost,if_neg (by omega),fetch]

theorem readAtMost_fetched (less : r.buf.totalLen < size) (fetch : r.reader.readMultiBuffer = (.ok more,after)) (fresh) :
    ∃ result, r.readAtMost fresh size = (.ok result,⟨after,.new⟩) ∧ result.bytes = (r.buf.bytes ++ more.bytes).take size := by
  rw [readAtMost,if_neg (by omega),fetch]
  refine ⟨_,rfl,?_⟩
  rw [MultiBuffer.cutFront_front]
  split
  · rename_i empty
    rw [MultiBuffer.empty_bytes ((MultiBuffer.isEmpty_iff more).mp empty),append_nil]
  · rw [MultiBuffer.append_bytes]

theorem readMultiBuffer_empty (empty : r.buf.totalLen = 0) : r.readMultiBuffer = (r.reader.readMultiBuffer.1,{r with reader := r.reader.readMultiBuffer.2}) :=
  if_pos ((MultiBuffer.isEmpty_iff r.buf).mpr empty)

theorem readMultiBuffer_held (held : r.buf.totalLen ≠ 0) : r.readMultiBuffer = (.ok r.buf,{r with buf := .new}) :=
  if_neg (held ∘ (MultiBuffer.isEmpty_iff r.buf).mp)

end

end BufferedReader

inductive Call where
  | read (room : Nat)
  | readAtMost (size : Nat) (fresh : Block)
  | readMultiBuffer

structure Session where
  reader : BufferedReader
  returned : Bytes

def bytesRead : Except IoError MultiBuffer → Bytes
  | .ok mb => mb.bytes
  | .error _ => []

section
variable (s : Session)

def Session.call : Call → Option Session
  | .read room =>
    match s.reader.read room with
    | .ok (.ok bytes,reader) => some ⟨reader,s.returned ++ bytes⟩
    | .ok (.error _,reader) => some {s with reader}
    | .error _ => none
  | .readAtMost size fresh =>
    let (result,reader) := s.reader.readAtMost fresh size
    some ⟨reader,s.returned ++ bytesRead result⟩
  | .readMultiBuffer =>
    let (result,reader) := s.reader.readMultiBuffer
    some ⟨reader,s.returned ++ bytesRead result⟩

def Session.start (coming : List (Except IoError MultiBuffer)) : Session := ⟨.new ⟨coming,[]⟩,[]⟩

def Session.Balanced : Prop := s.returned ++ s.reader.buf.bytes = s.reader.reader.given

def Session.Short : Prop := s.returned.length + s.reader.buf.totalLen < s.reader.reader.given.length

-- `read`: the slice ends with a buffer, with what is there or inside the first buffer, and without room nothing is fetched
-- on top of what is buffered. `read_at_most`: the inner reader, if it is asked, brings no more than is wanted.
def Session.Careful : Call → Prop
  | .read room =>
    Fits room 0 (lengths s.reader.buf.bufs) ∧
    (s.reader.buf.totalLen = 0 → Fits room 0 (lengths s.reader.reader.upcoming.bufs)) ∧
    (room = 0 → s.reader.buf.totalLen = 0 ∨ s.reader.reader.upcoming.totalLen = 0)
  | .readAtMost size _ =>
    size ≤ s.reader.buf.totalLen ∨ s.reader.buf.totalLen + s.reader.reader.upcoming.totalLen ≤ size
  | .readMultiBuffer => True

end

instance decideCareful (s : Session) : (call : Call) → Decidable (s.Careful call)
  | .read _ => inferInstanceAs (Decidable (_ ∧ (_ = 0 → Fits _ _ _) ∧ (_ = 0 → _ ∨ _)))
  | .readAtMost _ _ => inferInstanceAs (Decidable (_ ∨ _))
  | .readMultiBuffer => inferInstanceAs (Decidable True)

structure Session.Follows (s next : Session) (fetched : Bytes) : Prop where
  obtained : next.reader.reader.given = s.reader.reader.given ++ fetched
  kept : next.returned ++ next.reader.buf.bytes = s.returned ++ s.reader.buf.bytes ++ fetched
  grown : s.returned <+: next.returned

structure Session.Loses (s next : Session) (fetched : Bytes) : Prop where
  obtained : next.reader.reader.given = s.reader.reader.given ++ fetched
  fewer : next.returned.length + next.reader.buf.totalLen < s.returned.length + s.reader.buf.totalLen + fetched.length

namespace Session
variable {s next : Session}

theorem Follows.balanced (follows : s.Follows next fetched) (balanced : s.Balanced) : next.Balanced := by
  rw [Balanced,follows.kept,follows.obtained,balanced]

theorem Follows.short (follows : s.Follows next fetched) (short : s.Short) : next.Short := by
  have kept := congrArg List.length follows.kept
  have obtained := congrArg List.length follows.obtained
  simp only [length_append,MultiBuffer.bytes_length] at kept obtained
  simp only [Short] at short ⊢
  omega

theorem Loses.short (loses : s.Loses next fetched) (atMost : s.returned.length + s.reader.buf.totalLen ≤ s.reader.reader.given.length) : next.Short := by
  have obtained := congrArg List.length loses.obtained
  have fewer := loses.fewer
  simp only [length_append] at obtained
  simp only [Short]
  omega

theorem Balanced.length (balanced : s.Balanced) : s.returned.length + s.reader.buf.totalLen = s.reader.reader.given.length := by
  rw [← balanced,length_append,MultiBuffer.bytes_length]

theorem call_readAtMost (result : s.reader.readAtMost fresh size = (outcome,after)) :
    s.call (.readAtMost size fresh) = some ⟨after,s.returned ++ bytesRead outcome⟩ := by
  rw [call,result]

theorem call_readMultiBuffer (result : s.reader.readMultiBuffer = (outcome,after)) :
    s.call .readMultiBuffer = some ⟨after,s.returned ++ bytesRead outcome⟩ := by
  rw [call,result]

theorem readMultiBuffer_follows : ∃ next fetched, s.call .readMultiBuffer = some next ∧ s.Follows next fetched := by
  by_cases empty : s.reader.buf.totalLen = 0
  · have none := MultiBuffer.empty_bytes empty
    have result := BufferedReader.readMultiBuffer_empty empty
    rcases s.reader.reader.fetch_cases with ⟨e,after,fetch,-,given⟩ | ⟨after,fetch,given⟩
    · rw [fetch] at result
      exact ⟨_,[],call_readMultiBuffer result,by simp [given],by simp [bytesRead],prefix_append ..⟩
    · rw [fetch] at result
      exact ⟨_,_,call_readMultiBuffer result,given,by simp [bytesRead,none],prefix_append ..⟩
  · have result := BufferedReader.readMultiBuffer_held empty
    exact ⟨_,[],call_readMultiBuffer result,by simp,by simp [bytesRead],prefix_append ..⟩

theorem readAtMost_follows (careful : s.Careful (.readAtMost size fresh)) :
    ∃ next fetched, s.call (.readAtMost size fresh) = some next ∧ s.Follows next fetched := by
  by_cases enough : size ≤ s.reader.buf.totalLen
  · have result := BufferedReader.readAtMost_held enough fresh
    exact ⟨_,[],call_readAtMost result,by simp,by simp [bytesRead],prefix_append ..⟩
  have less := Nat.lt_of_not_le enough
  have room := careful.resolve_left enough
  rcases s.reader.reader.fetch_cases with ⟨e,after,fetch,-,given⟩ | ⟨after,fetch,given⟩
  · have result := BufferedReader.readAtMost_failed less fetch fresh
    exact ⟨_,[],call_readAtMost result,by simp [given],by simp [bytesRead],prefix_append ..⟩
  · obtain ⟨front,result,bytes⟩ := BufferedReader.readAtMost_fetched less fetch fresh
    have whole : (s.reader.buf.bytes ++ s.reader.reader.upcoming.bytes).length ≤ size := by simpa using room
    rw [List.take_of_length_le whole] at bytes
    exact ⟨_,_,call_readAtMost result,given,by simp [bytesRead,bytes],prefix_append ..⟩

theorem readAtMost_loses (careless : ¬ s.Careful (.readAtMost size fresh)) :
    ∃ next fetched, s.call (.readAtMost size fresh) = some next ∧ s.Loses next fetched := by
  obtain ⟨less,more⟩ := not_or.mp careless
  replace less := Nat.lt_of_not_le less
  rcases s.reader.reader.fetch_cases with ⟨e,after,fetch,none,given⟩ | ⟨after,fetch,given⟩
  · rw [none,MultiBuffer.new_totalLen] at more
    omega
  · obtain ⟨front,result,bytes⟩ := BufferedReader.readAtMost_fetched less fetch fresh
    refine ⟨_,_,call_readAtMost result,given,?_⟩
    simp only [bytesRead,bytes,length_append,length_take,MultiBuffer.bytes_length,MultiBuffer.new_totalLen]
    omega

theorem call_read (result : s.reader.read room = .ok (.ok bytes,after)) : s.call (.read room) = some ⟨after,s.returned ++ bytes⟩ := by
  rw [call,result]

theorem call_read_failed (result : s.reader.read room = .ok (.error e,after)) : s.call (.read room) = some {s with reader := after} := by
  rw [call,result]

theorem call_read_panics (result : s.reader.read room = .error fault) : s.call (.read room) = none := by
  rw [call,result]

theorem unread_bytes (mb : MultiBuffer) (nothing : room = 0 ∨ mb.totalLen = 0) : bytesOf (behind room mb.bufs) = mb.bytes := by
  rw [behind_bytes]
  rcases nothing with none | empty
  · rw [none]
    rfl
  · change mb.bytes.drop room = mb.bytes
    rw [MultiBuffer.empty_bytes empty,List.drop_nil]

theorem read_follows (careful : s.Careful (.read room)) : ∃ next fetched, s.call (.read room) = some next ∧ s.Follows next fetched := by
  obtain ⟨fits,later,fetchable⟩ := careful
  by_cases nothing : room = 0 ∨ s.reader.buf.totalLen = 0
  · have same := unread_bytes s.reader.buf nothing
    have result := BufferedReader.read_empty nothing
    rcases s.reader.reader.fetch_cases with ⟨e,after,fetch,-,given⟩ | ⟨after,fetch,given⟩
    · rw [fetch] at result
      exact ⟨_,[],call_read_failed result,by simp [given],by simp [same],List.prefix_rfl⟩
    rw [fetch] at result
    by_cases empty : s.reader.reader.upcoming.totalLen = 0
    · have none := MultiBuffer.empty_bytes empty
      have returned := result.trans (if_pos ((MultiBuffer.isEmpty_iff _).mpr empty))
      exact ⟨_,_,call_read returned,given,by simp [same,none],prefix_append ..⟩
    · have drained : s.reader.buf.totalLen = 0 := by
        rcases nothing with none | drained
        · exact (fetchable none).resolve_right empty
        · exact drained
      have filled := MultiBuffer.readInto_fits (later drained)
      have returned := result.trans (if_neg (empty ∘ (MultiBuffer.isEmpty_iff _).mp))
      rw [filled] at returned
      refine ⟨_,_,call_read returned,given,?_,prefix_append ..⟩
      change s.returned ++ _ ++ bytesOf (behind room _) = _
      rw [behind_bytes,List.append_assoc,MultiBuffer.bytes,List.take_append_drop,MultiBuffer.empty_bytes drained,append_nil]
  · obtain ⟨positive,held⟩ := not_or.mp nothing
    have result := BufferedReader.read_buffered fits (by omega) held
    refine ⟨_,[],call_read result,by simp,?_,prefix_append ..⟩
    simp [behind_bytes,List.append_assoc,MultiBuffer.bytes,List.take_append_drop,append_nil]

theorem read_careless (careless : ¬ s.Careful (.read room)) :
    s.call (.read room) = none ∨ ∃ next fetched, s.call (.read room) = some next ∧ s.Loses next fetched := by
  by_cases fits : Fits room 0 (lengths s.reader.buf.bufs)
  · rcases s.reader.reader.fetch_cases with ⟨e,after,fetch,none,given⟩ | ⟨after,fetch,given⟩
    · refine absurd ⟨fits,?_,?_⟩ careless
      · intro _
        rw [none]
        trivial
      · simp [none]
    by_cases later : s.reader.buf.totalLen = 0 → Fits room 0 (lengths s.reader.reader.upcoming.bufs)
    · have kept : ¬ (room = 0 → s.reader.buf.totalLen = 0 ∨ s.reader.reader.upcoming.totalLen = 0) := by
        intro fetchable
        exact careless ⟨fits,later,fetchable⟩
      obtain ⟨none,both⟩ := Classical.not_imp.mp kept
      obtain ⟨held,more⟩ := not_or.mp both
      subst none
      have result := BufferedReader.read_empty (r := s.reader) (.inl rfl)
      rw [fetch] at result
      have returned := result.trans (if_neg (more ∘ (MultiBuffer.isEmpty_iff _).mp))
      rw [MultiBuffer.readInto_fits (fits_full (Nat.le_refl 0) _)] at returned
      refine .inr ⟨_,_,call_read returned,given,?_⟩
      simp only [List.take_zero,append_nil,behind_zero,MultiBuffer.of_totalLen,MultiBuffer.bytes_length]
      rw [← MultiBuffer.counted]
      omega
    · obtain ⟨drained,overruns⟩ := Classical.not_imp.mp later
      have result := @BufferedReader.read_empty room s.reader (.inr drained)
      have more : s.reader.reader.upcoming.totalLen ≠ 0 := by
        intro empty
        exact overruns (fits_nothing ((MultiBuffer.counted _).symm.trans empty))
      rw [fetch] at result
      have returned := result.trans (if_neg (more ∘ (MultiBuffer.isEmpty_iff _).mp))
      rw [MultiBuffer.readInto_overruns overruns] at returned
      exact .inl (call_read_panics returned)
  · exact .inl (call_read_panics (BufferedReader.read_overruns fits))

theorem call_follows (careful : s.Careful made) : ∃ next fetched, s.call made = some next ∧ s.Follows next fetched := by
  cases made with
  | read room => exact read_follows careful
  | readAtMost size fresh => exact readAtMost_follows careful
  | readMultiBuffer => exact readMultiBuffer_follows

theorem call_loses (careless : ¬ s.Careful made) (taken : s.call made = some next) : ∃ fetched, s.Loses next fetched := by
  have either : s.call made = none ∨ ∃ next fetched, s.call made = some next ∧ s.Loses next fetched := by
    cases made with
    | read room => exact read_careless careless
    | readAtMost size fresh => exact .inr (readAtMost_loses careless)
    | readMultiBuffer => exact absurd trivial careless
  rcases either with panics | ⟨other,fetched,same,loses⟩
  · cases panics.symm.trans taken
  · cases Option.some.inj (same.symm.trans taken)
    exact ⟨fetched,loses⟩

theorem short_stays (short : s.Short) (taken : s.call made = some next) : next.Short := by
  by_cases careful : s.Careful made
  · obtain ⟨other,fetched,same,follows⟩ := call_follows careful
    cases Option.some.inj (same.symm.trans taken)
    exact follows.short short
  · obtain ⟨fetched,loses⟩ := call_loses careful taken
    exact loses.short (Nat.le_of_lt short)

end Session

-- The calls end without a panic and with nothing lost exactly when each of them is careful.
theorem reader_balanced_iff (coming : List (Except IoError MultiBuffer)) (calls : List Call) :
    (∃ last, run Session.call (.start coming) calls = some last ∧ last.Balanced) ↔
      Meets Session.call Session.Careful (.start coming) calls := by
  apply run_keeps_iff Session.Balanced Session.Short
  · intro s call balanced careful
    obtain ⟨next,fetched,taken,follows⟩ := Session.call_follows careful
    exact ⟨next,taken,follows.balanced balanced⟩
  · intro s call next balanced careless taken
    obtain ⟨fetched,loses⟩ := Session.call_loses careless taken
    exact loses.short (Nat.le_of_eq balanced.length)
  · intro s call next short taken
    exact Session.short_stays short taken
  · intro s short balanced
    exact Nat.ne_of_lt short balanced.length
  · rfl

theorem wanted_one_of_two : ¬ ∃ last,
    run Session.call (.start [.ok (.of [.fromSlice (.zero SIZE) [7,8]])]) [.readAtMost 1 (.zero SIZE)] = some last ∧ last.Balanced := by
  rintro ⟨last,path,balanced⟩
  obtain ⟨next,step,path⟩ := run_cons path
  cases path
  have two : (Buffer.fromSlice (.zero SIZE) [7,8]).len = 2 := Buffer.fromSlice_len _ (by decide)
  have careless : ¬ (Session.start [.ok (.of [.fromSlice (.zero SIZE) [7,8]])]).Careful (.readAtMost 1 (.zero SIZE)) := by
    change ¬ (1 ≤ 0 ∨ 0 + total [_] ≤ 1)
    simp [two]
  obtain ⟨fetched,loses⟩ := Session.call_loses careless step
  exact Nat.ne_of_lt (loses.short (Nat.le_refl 0)) balanced.length

end AstraCore.Buffers
