import AstraCore.BufferedReader

namespace AstraCore.Buffers
open CheckedBytes

-- `read` in a loop until a slice is full. `read_exact` goes on behind an interruption, a plain loop does not; each has its
-- own error for a stream that ends too early. Every turn takes something from `need` or from what is coming.
def fillLoop (retries : Bool) (short : IoError) : Nat → Nat → BufferedReader → Checked (Except IoError Bytes × BufferedReader)
  | 0,need,r => .ok (if need = 0 then .ok [] else .error short,r)
  | fuel+1,need,r =>
    if need = 0 then .ok (.ok [],r)
    else do
      let (result,r) ← r.read need
      match result with
      | .error e => if retries ∧ e.kind = .interrupted then fillLoop retries short fuel need r else .ok (.error e,r)
      | .ok bytes =>
        if bytes.length = 0 then .ok (.error short,r)
        else do
          let (later,r) ← fillLoop retries short fuel (need - bytes.length) r
          .ok (later.map (bytes ++ ·),r)

section
variable (r : BufferedReader)

def BufferedReader.fill (retries : Bool) (short : IoError) (need : Nat) : Checked (Except IoError Bytes × BufferedReader) :=
  fillLoop retries short (need + r.reader.coming.length + 1) need r

def BufferedReader.readExact (need : Nat) : Checked (Except IoError Bytes × BufferedReader) :=
  r.fill true ⟨.unexpectedEof,"failed to fill whole buffer"⟩ need

-- A reader over an inner reader that does not fail: the lengths of the buffers it holds and of those that come, and the
-- text they hold together.
def Holds (cur : List Nat) (later : List (List Nat)) (text : Bytes) : Prop :=
  ∃ buf, ∃ pieces : List MultiBuffer, ∃ given, r = ⟨⟨pieces.map .ok,given⟩,buf⟩ ∧ lengths buf.bufs = cur ∧ (pieces.map fun p => lengths p.bufs) = later ∧
    buf.bytes ++ pieces.flatMap MultiBuffer.bytes = text

end

def Proper (later : List (List Nat)) : Prop := ∀ piece ∈ later, piece.sum ≠ 0

theorem proper_head {piece : MultiBuffer} (proper : Proper (lengths piece.bufs :: later)) : piece.totalLen ≠ 0 := by
  rw [piece.counted]
  exact proper _ (List.mem_cons_self ..)

theorem proper_tail (proper : Proper (piece :: later)) : Proper later := fun p found => proper p (List.mem_cons_of_mem _ found)

theorem holds_length (holds : Holds r cur later text) : text.length = cur.sum + (later.map List.sum).sum := by
  obtain ⟨buf,pieces,given,-,rfl,rfl,rfl⟩ := holds
  have coming : (pieces.flatMap MultiBuffer.bytes).length = ((pieces.map fun p => lengths p.bufs).map List.sum).sum := by
    rw [List.length_flatMap,List.map_map]
    congr 1
    exact List.map_congr_left fun p _ => (MultiBuffer.bytes_length p).trans p.counted
  rw [List.length_append,MultiBuffer.bytes_length,coming,buf.counted]
  rfl

def behindLens : Nat → List Nat → List Nat
  | _,[] => []
  | n,len :: rest => if n = 0 then len :: rest else if len ≤ n then behindLens (n - len) rest else (len - n) :: rest

@[simp] theorem behindLens_zero : behindLens 0 lens = lens := by
  cases lens with
  | nil => rfl
  | cons len lens => exact if_pos rfl

theorem lengths_behind (n) : lengths (behind n bufs) = behindLens n (lengths bufs) := by
  induction bufs generalizing n with
  | nil => rfl
  | cons b rest ih =>
    change lengths _ = behindLens n (b.len :: lengths rest)
    rw [behind,behindLens]
    split
    · rfl
    · split
      · exact ih _
      · change (b.advance n).len :: lengths rest = _
        rw [Buffer.advance_len]

-- Where the buffers are after a field was read from them in a loop of reads; none where a read panics. Within one
-- MultiBuffer the field has to fit as one read does.
def walkField : Nat → List Nat → List (List Nat) → Option (List Nat × List (List Nat))
  | need,cur,[] => if Fits need 0 cur ∧ need ≤ cur.sum then some (behindLens need cur,[]) else none
  | need,cur,piece :: later =>
    if Fits need 0 cur then
      if need ≤ cur.sum then some (behindLens need cur,piece :: later) else walkField (need - cur.sum) piece later
    else none

theorem walkField_inside (fits : Fits need 0 cur) (inside : need ≤ cur.sum) : walkField need cur later = some (behindLens need cur,later) := by
  cases later with
  | nil => rw [walkField,if_pos ⟨fits,inside⟩]
  | cons piece later => rw [walkField,if_pos fits,if_pos inside]

theorem walkField_overruns (overruns : ¬ Fits need 0 cur) : walkField need cur later = none := by
  cases later with
  | nil => rw [walkField,if_neg fun both => overruns both.1]
  | cons piece later => rw [walkField,if_neg overruns]

theorem walkField_beyond (fits : Fits need 0 cur) (beyond : cur.sum < need) (piece) :
    walkField need cur (piece :: later) = walkField (need - cur.sum) piece later := by
  rw [walkField,if_pos fits,if_neg (by omega)]

theorem walkField_proper (proper : Proper later) (walks : walkField need cur later = some walked) : Proper walked.2 := by
  induction later generalizing need cur with
  | nil =>
    rw [walkField] at walks
    split at walks
    · cases walks
      exact proper
    · cases walks
  | cons piece later ih =>
    rw [walkField] at walks
    split at walks
    · split at walks
      · cases walks
        exact proper
      · exact ih (proper_tail proper) walks
    · cases walks

namespace BufferedReader
variable {retries : Bool} {short : IoError}

theorem buf_sum (buf : MultiBuffer) : (lengths buf.bufs).sum = buf.totalLen := buf.counted.symm

variable {buf : MultiBuffer}

theorem read_fetches (empty : buf.totalLen = 0) (some : piece.totalLen ≠ 0) (positive : 0 < room) :
    read ⟨⟨(piece :: pieces).map .ok,given⟩,buf⟩ room = read ⟨⟨pieces.map .ok,given ++ piece.bytes⟩,piece⟩ room := by
  have fetched := @read_empty room ⟨⟨(piece :: pieces).map .ok,given⟩,buf⟩ (.inr empty)
  rw [fetched]
  change (if piece.isEmpty then _ else _ : Checked (Except IoError Bytes × BufferedReader)) = _
  rw [if_neg (some ∘ (MultiBuffer.isEmpty_iff piece).mp)]
  by_cases fits : Fits room 0 (lengths piece.bufs)
  · rw [MultiBuffer.readInto_fits fits,@read_buffered room ⟨_,piece⟩ fits positive some]
    rfl
  · rw [MultiBuffer.readInto_overruns fits,@read_overruns room ⟨_,piece⟩ fits]
    rfl

theorem fill_fetches (empty : buf.totalLen = 0) (some : piece.totalLen ≠ 0) (positive : 0 < need) :
    fillLoop retries short (fuel + 1) need ⟨⟨(piece :: pieces).map .ok,given⟩,buf⟩ =
      fillLoop retries short (fuel + 1) need ⟨⟨pieces.map .ok,given ++ piece.bytes⟩,piece⟩ := by
  rw [fillLoop,if_neg (by omega),read_fetches empty some positive,fillLoop,if_neg (by omega)]

theorem fill_nothing : fillLoop retries short fuel 0 r = .ok (.ok [],r) := by
  cases fuel with
  | zero => rfl
  | succ fuel => rw [fillLoop,if_pos rfl]

theorem fill_turn (read : r.read need = .ok (.ok bytes,after)) (some : bytes.length ≠ 0) (positive : 0 < need)
    (later : fillLoop retries short fuel (need - bytes.length) after = .ok (.ok rest,last)) :
    fillLoop retries short (fuel + 1) need r = .ok (.ok (bytes ++ rest),last) := by
  rw [fillLoop,if_neg (by omega),read]
  change (if bytes.length = 0 then _ else _ : Checked _) = _
  rw [if_neg some,later]
  rfl

theorem fill_turn_panics (read : r.read need = .ok (.ok bytes,after)) (some : bytes.length ≠ 0) (positive : 0 < need)
    (later : fillLoop retries short fuel (need - bytes.length) after = .error fault) : fillLoop retries short (fuel + 1) need r = .error fault := by
  rw [fillLoop,if_neg (by omega),read]
  change (if bytes.length = 0 then _ else _ : Checked _) = _
  rw [if_neg some,later]
  rfl

theorem read_within {r : BufferedReader} (read : r.read room = .ok (.ok bytes,after)) : bytes.length ≤ room := by
  obtain ⟨⟨front,buf⟩,first,read⟩ := checked_bind read
  have within := MultiBuffer.readInto_within first
  dsimp only at read
  split at read
  · cases read
    exact within
  split at read
  · cases read
  · split at read
    · cases read
      exact Nat.zero_le room
    · obtain ⟨⟨front,buf⟩,second,read⟩ := checked_bind read
      cases read
      exact MultiBuffer.readInto_within second

inductive Filled (result : Checked (Except IoError Bytes × BufferedReader)) (field rest : Bytes) :
    Option (List Nat × List (List Nat)) → Prop where
  | read (after : BufferedReader) (returned : result = .ok (.ok field,after)) (holds : Holds after cur later rest) :
      Filled result field rest (some (cur,later))
  | panics (overruns : result = .error .sliceIndex) : Filled result field rest none

theorem fillLoop_here (holds : Holds r cur later (field ++ rest)) (enough : field.length < fuel)
    (here : Fits field.length 0 cur → field.length ≤ cur.sum) :
    Filled (fillLoop retries short fuel field.length r) field rest (walkField field.length cur later) := by
  obtain ⟨fuel,rfl⟩ := Nat.exists_eq_succ_of_ne_zero (show fuel ≠ 0 by omega)
  by_cases nothing : field.length = 0
  · have none := List.eq_nil_of_length_eq_zero nothing
    subst none
    have walked : walkField ([] : Bytes).length cur later = some (cur,later) := by
      rw [List.length_nil,walkField_inside (fits_full (Nat.le_refl 0) cur) (Nat.zero_le _),behindLens_zero]
    rw [walked]
    exact .read r (fill_nothing) holds
  obtain ⟨buf,pieces,given,rfl,rfl,rfl,text⟩ := holds
  by_cases fits : Fits field.length 0 (lengths buf.bufs)
  · have inside := here fits
    rw [buf_sum] at inside
    have front : buf.bytes.take field.length = field := by
      rw [← List.take_append_of_le_length (by rwa [MultiBuffer.bytes_length]),text,List.take_left]
    have back : buf.bytes.drop field.length ++ pieces.flatMap MultiBuffer.bytes = rest := by
      rw [← List.drop_append_of_le_length (by rwa [MultiBuffer.bytes_length]),text,List.drop_left]
    have read := @read_buffered field.length ⟨⟨pieces.map .ok,given⟩,buf⟩ fits (by omega) (by change buf.totalLen ≠ 0; omega)
    rw [front] at read
    have done := @fill_nothing retries short fuel ⟨⟨pieces.map .ok,given⟩,.of (behind field.length buf.bufs)⟩
    rw [← Nat.sub_self field.length] at done
    have filled := fill_turn read nothing (by omega) done
    rw [List.append_nil] at filled
    rw [walkField_inside fits (by rwa [buf_sum])]
    refine .read _ filled ⟨_,pieces,given,rfl,lengths_behind .. ,rfl,?_⟩
    change bytesOf (behind field.length buf.bufs) ++ _ = rest
    rw [behind_bytes]
    exact back
  · rw [walkField_overruns fits]
    refine .panics ?_
    rw [fillLoop,if_neg nothing,@read_overruns field.length ⟨_,buf⟩ fits]
    rfl

theorem fillLoop_beyond {rest : Bytes} (fits : Fits field.length 0 (lengths buf.bufs))
    (some : buf.totalLen ≠ 0) (beyond : buf.totalLen < field.length) (fetched : next.totalLen ≠ 0) (front : field.take buf.totalLen = buf.bytes)
    (later : Filled (fillLoop retries short (fuel + 1) (field.length - buf.totalLen) ⟨⟨pieces.map .ok,given ++ next.bytes⟩,next⟩)
      (field.drop buf.totalLen) rest walked) :
    Filled (fillLoop retries short (fuel + 2) field.length ⟨⟨(next :: pieces).map .ok,given⟩,buf⟩) field rest walked := by
  have read := @read_buffered field.length ⟨⟨(next :: pieces).map .ok,given⟩,buf⟩ fits (by omega) some
  have all : buf.bytes.take field.length = buf.bytes := List.take_of_length_le (by rw [MultiBuffer.bytes_length]; omega)
  rw [all] at read
  have drained : (MultiBuffer.of (behind field.length buf.bufs)).totalLen = 0 := by
    rw [MultiBuffer.of_totalLen,behind_total,← buf.counted]
    omega
  have some_bytes : buf.bytes.length ≠ 0 := by rwa [MultiBuffer.bytes_length]
  rw [← fill_fetches drained fetched (by omega)] at later
  nth_rewrite 1 [← MultiBuffer.bytes_length buf] at later
  cases later with
  | read after returned holds =>
    have filled := fill_turn read some_bytes (by omega) returned
    rw [← front,List.take_append_drop] at filled
    exact .read after filled holds
  | panics overruns => exact .panics (fill_turn_panics read some_bytes (by omega) overruns)

theorem fillLoop_walks {r : BufferedReader} (holds : Holds r cur later (field ++ rest)) (proper : Proper later) (enough : field.length < fuel) :
    Filled (fillLoop retries short fuel field.length r) field rest (walkField field.length cur later) := by
  induction later generalizing r cur field fuel with
  | nil =>
    apply fillLoop_here holds enough
    have all := holds_length holds
    simp only [List.length_append,List.map_nil,List.sum_nil] at all
    omega
  | cons piece later ih =>
    by_cases here : Fits field.length 0 cur → field.length ≤ cur.sum
    · exact fillLoop_here holds enough here
    obtain ⟨fits,beyond⟩ := Classical.not_imp.mp here
    replace beyond := Nat.lt_of_not_le beyond
    rw [walkField_beyond fits beyond]
    obtain ⟨buf,pieces,given,rfl,rfl,shape,text⟩ := holds
    rw [buf_sum] at beyond ⊢
    obtain ⟨next,pieces,rfl⟩ := List.exists_cons_of_ne_nil (show pieces ≠ [] by rintro rfl; cases shape)
    obtain ⟨rfl,rfl⟩ := List.cons.inj shape
    have whole := text
    obtain ⟨fuel,rfl⟩ := Nat.exists_eq_succ_of_ne_zero (show fuel ≠ 0 by omega)
    by_cases empty : buf.totalLen = 0
    · rw [fill_fetches empty (proper_head proper) (by omega),empty]
      apply ih _ (proper_tail proper) enough
      rw [MultiBuffer.empty_bytes empty] at whole
      exact ⟨next,pieces,_,rfl,rfl,rfl,whole⟩
    · obtain ⟨fuel,rfl⟩ := Nat.exists_eq_succ_of_ne_zero (show fuel ≠ 0 by omega)
      have front : field.take buf.totalLen = buf.bytes := by
        rw [← List.take_append_of_le_length (by omega),← text]
        exact List.take_left' (MultiBuffer.bytes_length buf)
      have back : field.drop buf.totalLen ++ rest = next.bytes ++ pieces.flatMap MultiBuffer.bytes := by
        rw [← List.drop_append_of_le_length (by omega),← whole]
        exact List.drop_left' (MultiBuffer.bytes_length buf)
      have width : (field.drop buf.totalLen).length = field.length - buf.totalLen := List.length_drop
      have later_filled := @ih _ _ (fuel + 1) ⟨⟨pieces.map .ok,given ++ next.bytes⟩,next⟩
        ⟨next,pieces,_,rfl,rfl,rfl,back.symm⟩ (proper_tail proper) (by omega)
      rw [width] at later_filled
      exact fillLoop_beyond fits empty beyond (proper_head proper) front later_filled

theorem fill_walks (retries short) (holds : Holds r cur later (field ++ rest)) (proper : Proper later) :
    Filled (r.fill retries short field.length) field rest (walkField field.length cur later) :=
  fillLoop_walks holds proper (by omega)

theorem read_takes_buffered {pieces : List MultiBuffer} (some : buf.totalLen ≠ 0)
    (proper : Proper (pieces.map fun p => lengths p.bufs)) (positive : 0 < room)
    (read : BufferedReader.read ⟨⟨pieces.map .ok,given⟩,buf⟩ room = .ok (result,after)) :
    ∃ bytes cur later rest, result = .ok bytes ∧ buf.bytes ++ pieces.flatMap MultiBuffer.bytes = bytes ++ rest ∧ Holds after cur later rest ∧ Proper later := by
  by_cases fits : Fits room 0 (lengths buf.bufs)
  · rw [@read_buffered room ⟨_,buf⟩ fits positive some] at read
    cases read
    refine ⟨_,_,_,buf.bytes.drop room ++ pieces.flatMap MultiBuffer.bytes,rfl,?_,⟨_,pieces,given,rfl,rfl,rfl,?_⟩,proper⟩
    · rw [← List.append_assoc,List.take_append_drop]
    · exact congrArg (· ++ pieces.flatMap MultiBuffer.bytes) (behind_bytes room buf.bufs)
  · rw [@read_overruns room ⟨_,buf⟩ fits] at read
    cases read

theorem read_takes (holds : Holds r cur later text) (proper : Proper later) (positive : 0 < room) (read : r.read room = .ok (result,after)) :
    ∃ bytes cur later rest, result = .ok bytes ∧ text = bytes ++ rest ∧ Holds after cur later rest ∧ Proper later := by
  obtain ⟨buf,pieces,given,rfl,rfl,rfl,rfl⟩ := holds
  by_cases empty : buf.totalLen = 0
  · have none := MultiBuffer.empty_bytes empty
    cases pieces with
    | nil =>
      rw [@read_empty room ⟨_,buf⟩ (.inr empty)] at read
      cases read
      refine ⟨[],_,[],[],rfl,?_,⟨_,[],given,rfl,rfl,rfl,?_⟩,proper⟩
      · rw [none]
        rfl
      · change bytesOf (behind room buf.bufs) ++ [] = []
        rw [behind_bytes]
        change buf.bytes.drop room ++ [] = []
        rw [none]
        simp
    | cons piece pieces =>
      rw [read_fetches empty (proper_head proper) positive] at read
      obtain ⟨bytes,cur,later,rest,done,text,holds,proper⟩ := read_takes_buffered (proper_head proper) (proper_tail proper) positive read
      refine ⟨bytes,cur,later,rest,done,?_,holds,proper⟩
      rw [none,List.nil_append,← text,List.flatMap_cons]
  · exact read_takes_buffered empty proper positive read

theorem fillLoop_takes {r : BufferedReader} (holds : Holds r cur later text) (proper : Proper later)
    (filled : fillLoop retries short fuel need r = .ok (.ok field,after)) :
    field.length = need ∧ ∃ cur later rest, text = field ++ rest ∧ Holds after cur later rest ∧ Proper later := by
  induction fuel generalizing r cur later text need field with
  | zero =>
    rw [fillLoop] at filled
    split at filled
    · rename_i zero
      cases filled
      exact ⟨zero.symm,cur,later,text,rfl,holds,proper⟩
    · cases filled
  | succ fuel ih =>
    rw [fillLoop] at filled
    split at filled
    · rename_i zero
      cases filled
      exact ⟨zero.symm,cur,later,text,rfl,holds,proper⟩
    rename_i positive
    obtain ⟨⟨result,next⟩,read,filled⟩ := checked_bind filled
    obtain ⟨bytes,cur,later,rest,rfl,rfl,holds,proper⟩ := read_takes holds proper (by omega) read
    dsimp only at filled
    split at filled
    · cases filled
    obtain ⟨⟨tail,last⟩,more,filled⟩ := checked_bind filled
    cases tail with
    | error e => cases filled
    | ok tail =>
      cases filled
      obtain ⟨width,cur,later,rest,rfl,holds,proper⟩ := ih holds proper more
      have within := read_within read
      refine ⟨?_,cur,later,rest,(List.append_assoc ..).symm,holds,proper⟩
      rw [List.length_append,width]
      omega

theorem fill_takes (holds : Holds r cur later text) (proper : Proper later) (filled : r.fill retries short need = .ok (.ok field,after)) :
    field.length = need ∧ ∃ cur later rest, text = field ++ rest ∧ Holds after cur later rest ∧ Proper later :=
  fillLoop_takes holds proper filled

theorem fill_ended (retries short) (holds : Holds r cur later []) (proper : Proper later) (positive : 0 < need) : ∃ after,
    r.fill retries short need = .ok (.error short,after) ∧ after.reader.coming = [] ∧ after.buf.totalLen = 0 := by
  obtain ⟨buf,pieces,given,rfl,rfl,rfl,text⟩ := holds
  obtain ⟨held,coming⟩ := List.append_eq_nil_iff.mp text
  have empty : buf.totalLen = 0 := by rw [← MultiBuffer.bytes_length,held]; rfl
  cases pieces with
  | nil =>
    have read := @read_empty need ⟨⟨([] : List MultiBuffer).map .ok,given⟩,buf⟩ (.inr empty)
    refine ⟨⟨⟨[],given⟩,.of (behind need buf.bufs)⟩,?_,rfl,?_⟩
    · rw [fill,fillLoop,if_neg (by omega),read]
      rfl
    · rw [MultiBuffer.of_totalLen,behind_total,← buf.counted,empty,Nat.zero_sub]
  | cons piece pieces =>
    exact absurd (by rw [← MultiBuffer.bytes_length,(List.append_eq_nil_iff.mp coming).1]; rfl) (proper_head proper)

theorem atMost_inside (holds : Holds r cur later (chunk ++ rest)) (inside : chunk.length ≤ cur.sum) (fresh) :
    ∃ mb after, r.readAtMost fresh chunk.length = (.ok mb,after) ∧ mb.bytes = chunk ∧ Holds after (behindLens chunk.length cur) later rest := by
  obtain ⟨buf,pieces,given,rfl,rfl,rfl,text⟩ := holds
  rw [buf_sum] at inside
  have within : chunk.length ≤ buf.bytes.length := by rwa [MultiBuffer.bytes_length]
  refine ⟨_,_,readAtMost_held inside fresh,?_,⟨_,pieces,given,rfl,?_,rfl,?_⟩⟩
  · rw [MultiBuffer.cutFront_front,← List.take_append_of_le_length within,text,List.take_left]
  · rw [MultiBuffer.cutFront_bufs,lengths_behind]
  · rw [MultiBuffer.cutFront_back,← List.drop_append_of_le_length within,text,List.drop_left]

theorem atMost_fetches (holds : Holds r cur (piece :: later) text) (beyond : cur.sum < n) (fresh) :
    ∃ mb after, r.readAtMost fresh n = (.ok mb,after) ∧ mb.bytes = (text.take (cur.sum + piece.sum)).take n ∧
      Holds after [] later (text.drop (cur.sum + piece.sum)) := by
  obtain ⟨buf,pieces,given,rfl,rfl,shape,rfl⟩ := holds
  obtain ⟨next,pieces,rfl⟩ := List.exists_cons_of_ne_nil (show pieces ≠ [] by rintro rfl; cases shape)
  obtain ⟨rfl,rfl⟩ := List.cons.inj shape
  rw [buf_sum] at beyond
  have width : (buf.bytes ++ next.bytes).length = (lengths buf.bufs).sum + (lengths next.bufs).sum := by
    rw [List.length_append,MultiBuffer.bytes_length,MultiBuffer.bytes_length,buf_sum,buf_sum]
  have text : buf.bytes ++ (next :: pieces).flatMap MultiBuffer.bytes = buf.bytes ++ next.bytes ++ pieces.flatMap MultiBuffer.bytes := by
    rw [List.flatMap_cons,List.append_assoc]
  have fetch : (Source.mk ((next :: pieces).map .ok) given).readMultiBuffer = (.ok next,⟨pieces.map .ok,given ++ next.bytes⟩) := rfl
  obtain ⟨result,returned,bytes⟩ := @readAtMost_fetched ⟨_,buf⟩ n _ next beyond fetch fresh
  refine ⟨result,_,returned,?_,⟨_,pieces,_,rfl,rfl,rfl,?_⟩⟩
  · rw [bytes,text,List.take_left' width]
  · rw [text,List.drop_left' width]
    rfl

theorem atMost_front (holds : Holds r cur later text) (returned : r.readAtMost fresh n = (.ok mb,after)) : mb.bytes <+: text := by
  obtain ⟨buf,pieces,given,rfl,rfl,rfl,rfl⟩ := holds
  by_cases enough : n ≤ buf.totalLen
  · rw [@readAtMost_held ⟨_,buf⟩ n enough] at returned
    cases returned
    rw [MultiBuffer.cutFront_front]
    exact (List.take_prefix ..).trans (List.prefix_append ..)
  have less := Nat.lt_of_not_le enough
  cases pieces with
  | nil =>
    have fetch : (Source.mk (([] : List MultiBuffer).map .ok) given).readMultiBuffer = (.ok .new,⟨[],given⟩) := rfl
    obtain ⟨result,same,bytes⟩ := @readAtMost_fetched ⟨_,buf⟩ n _ _ less fetch fresh
    cases same.symm.trans returned
    rw [bytes]
    exact List.take_prefix ..
  | cons piece pieces =>
    have fetch : (Source.mk ((piece :: pieces).map .ok) given).readMultiBuffer = (.ok piece,⟨pieces.map .ok,given ++ piece.bytes⟩) := rfl
    obtain ⟨result,same,bytes⟩ := @readAtMost_fetched ⟨_,buf⟩ n _ _ less fetch fresh
    cases same.symm.trans returned
    rw [bytes,List.flatMap_cons,← List.append_assoc]
    exact (List.take_prefix ..).trans (List.prefix_append ..)

end BufferedReader

end AstraCore.Buffers
