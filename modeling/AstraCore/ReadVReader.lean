import AstraCore.BufferedReader
import AstraCore.ByteStream

namespace AstraCore.Buffers
open CheckedBytes NetAddress ByteStream
open List (append_nil eq_of_mem_replicate length_append length_flatten length_map map_cons mem_cons_of_mem mem_cons_self mem_map range
  sum_cons take_left)

-- What one call of the underlying `read` finds. Every slice it is called with has the room of a whole block.
inductive Arrival where
  | data (segment : Segment UInt8 SIZE)
  | interrupted
  | endOfFile
  | failed (e : IoError)

def Arrival.bytes : Arrival → Bytes
  | .data segment => segment.val
  | _ => []

structure Underlying where
  coming : List Arrival
  given : Bytes

def Underlying.read (inner : Underlying) : Arrival × Underlying :=
  match inner.coming with
  | [] => (.endOfFile,inner)
  | first :: rest => (first,⟨rest,inner.given ++ first.bytes⟩)

def readOneBuffer (block : Block) (inner : Underlying) : Except IoError (Option Buffer) × Underlying :=
  match inner.read with
  | (.endOfFile,inner) => (.ok none,inner)
  | (.data segment,inner) => (.ok (some (.fromSlice block segment.val)),inner)
  | (.interrupted,inner) => (.ok (some (.new block)),inner)
  | (.failed e,inner) => (.error e,inner)

def keeping (b : Buffer) : Except IoError (Nat × List Buffer) × Underlying → Except IoError (Nat × List Buffer) × Underlying
  | (.ok (total,bufs),inner) => (.ok (total,b :: bufs),inner)
  | (.error e,inner) => (.error e,inner)

-- The buffers are new, one for each block. The loop ends behind a read that leaves more room than it filled.
def platformReadv : List Block → Underlying → Nat → Except IoError (Nat × List Buffer) × Underlying
  | [],inner,total => (.ok (total,[]),inner)
  | block :: rest,inner,total =>
    match inner.read with
    | (.endOfFile,inner) => (.ok (total,(block :: rest).map .new),inner)
    | (.failed e,inner) => (.error e,inner)
    | (.interrupted,inner) => keeping (.new block) (platformReadv rest inner total)
    | (.data segment,inner) =>
      let b := Buffer.fromSlice block segment.val
      if segment.val.length < b.available then (.ok (total + segment.val.length,b :: rest.map .new),inner)
      else keeping b (platformReadv rest inner (total + segment.val.length))

theorem chunk_bounded (remaining) : min remaining SIZE ≤ SIZE := Nat.min_le_right ..

-- The ends are set anew from the total; the count is that of the buffers that show something.
def spread : Nat → List Buffer → List Buffer × Nat
  | _,[] => ([],0)
  | remaining,b :: rest =>
    let (bufs,count) := spread (remaining - min remaining SIZE) rest
    (b.upTo (min remaining SIZE) (chunk_bounded remaining) :: bufs,if remaining = 0 then count else count + 1)

def adjusted (level nBufs : Nat) : Nat := if level ≤ nBufs then min (level * 2) 8 else max nBufs 1

structure ReadVReader where
  inner : Underlying
  allocLevel : Nat
  positive : 1 ≤ allocLevel
  atMost : allocLevel ≤ 8

theorem adjusted_positive (positive : 1 ≤ level) (nBufs) : 1 ≤ adjusted level nBufs := by
  rw [adjusted]
  split <;> omega

theorem adjusted_atMost (atMost : level ≤ 8) (nBufs) : adjusted level nBufs ≤ 8 := by
  rw [adjusted]
  split <;> omega

namespace ReadVReader

def new (inner : Underlying) : ReadVReader := ⟨inner,1,Nat.le_refl 1,by decide⟩

def adjust (r : ReadVReader) (nBufs : Nat) : ReadVReader :=
  {r with
    allocLevel := adjusted r.allocLevel nBufs
    positive := adjusted_positive r.positive nBufs
    atMost := adjusted_atMost r.atMost nBufs}

def readMultiNative (r : ReadVReader) (blocks : List Block) (own : Block) : Except IoError (Nat × List Buffer) × ReadVReader :=
  if r.allocLevel = 1 then
    match readOneBuffer own r.inner with
    | (.error e,inner) => (.error e,{r with inner})
    | (.ok none,inner) => (.ok (0,blocks.map .new),{r with inner})
    | (.ok (some buf),inner) =>
      let r := {r with inner}
      (.ok (buf.len,[buf]),if SIZE ≤ buf.len then r.adjust 1 else r)
  else
    match platformReadv blocks r.inner 0 with
    | (.error e,inner) => (.error e,{r with inner})
    | (.ok (n,bufs),inner) =>
      let r := {r with inner}
      if n = 0 then (.ok (n,bufs),r)
      else
        let (bufs,consumed) := spread n bufs
        (.ok (n,bufs),r.adjust consumed)

def readMultiBuffer (r : ReadVReader) (blocks : Nat → Block) : Except IoError MultiBuffer × ReadVReader :=
  match r.readMultiNative ((List.range r.allocLevel).map blocks) (blocks 0) with
  | (.error e,r) => (.error e,r)
  | (.ok (n,bufs),r) =>
    if n = 0 then (.ok .new,r)
    else (.ok (.of (bufs.takeWhile fun b => b.len != 0)),r)

end ReadVReader

def readAll : ReadVReader → List (Nat → Block) → Bytes × ReadVReader
  | r,[] => ([],r)
  | r,blocks :: later =>
    let (result,r) := r.readMultiBuffer blocks
    let (bytes,r) := readAll r later
    (bytesRead result ++ bytes,r)

inductive Pattern where
  | data (count : Nat)
  | interrupted
  | endOfFile
  | failed
deriving DecidableEq, Repr

def Arrival.pattern : Arrival → Pattern
  | .data segment => .data segment.val.length
  | .interrupted => .interrupted
  | .endOfFile => .endOfFile
  | .failed _ => .failed

-- What one call with a number of buffers makes of the reads that come: how much each buffer got, whether it ended in an
-- error, and the reads behind it.
structure Round where
  lens : List Nat
  failed : Bool
  rest : List Pattern
deriving DecidableEq, Repr

def Round.behind (round : Round) (count : Nat) : Round := {round with lens := count :: round.lens}

def round : Nat → List Pattern → Round
  | 0,coming => ⟨[],false,coming⟩
  | _+1,[] => ⟨[],false,[]⟩
  | _+1,.endOfFile :: rest => ⟨[],false,rest⟩
  | _+1,.failed :: rest => ⟨[],true,rest⟩
  | level+1,.interrupted :: rest => (round level rest).behind 0
  | level+1,.data count :: rest => if count < SIZE - count then ⟨[count],false,rest⟩ else (round level rest).behind count

def Packed : List Nat → Prop
  | [] => True
  | len :: rest => rest.sum = 0 ∨ len = SIZE ∧ Packed rest

instance decidePacked : (lens : List Nat) → Decidable (Packed lens)
  | [] => inferInstanceAs (Decidable True)
  | len :: rest =>
    have := decidePacked rest
    inferInstanceAs (Decidable (rest.sum = 0 ∨ len = SIZE ∧ Packed rest))

-- An error comes before any byte of its call, and without one the buffers are filled without a gap.
def Round.Whole (r : Round) : Prop := if r.failed then r.lens.sum = 0 else Packed r.lens

instance decideWhole (r : Round) : Decidable r.Whole :=
  inferInstanceAs (Decidable (if r.failed = true then r.lens.sum = 0 else Packed r.lens))

def used : Nat → Nat → Nat
  | 0,_ => 0
  | level+1,n => used level (n - min n SIZE) + if n = 0 then 0 else 1

def levelAfter (level : Nat) (r : Round) : Nat :=
  if r.failed ∨ r.lens.sum = 0 then level
  else if level = 1 then if SIZE ≤ r.lens.sum then adjusted 1 1 else 1
  else adjusted level (used level r.lens.sum)

def Steady : Nat → List Pattern → Nat → Prop
  | _,_,0 => True
  | level,coming,calls+1 =>
    (round level coming).Whole ∧ Steady (levelAfter level (round level coming)) (round level coming).rest calls

instance decideSteady : (level : Nat) → (coming : List Pattern) → (calls : Nat) → Decidable (Steady level coming calls)
  | _,_,0 => inferInstanceAs (Decidable True)
  | level,coming,calls+1 =>
    have := decideSteady (levelAfter level (round level coming)) (round level coming).rest calls
    inferInstanceAs (Decidable ((round level coming).Whole ∧
      Steady (levelAfter level (round level coming)) (round level coming).rest calls))

def memory (b : Buffer) : Bytes := b.data.val

def memories : List Block → List Bytes → List Bytes
  | [],_ => []
  | block :: rest,[] => block.val :: memories rest []
  | block :: rest,segment :: segments => (segment ++ block.val.drop segment.length) :: memories rest segments

def shown : Nat → List Bytes → Bytes
  | _,[] => []
  | n,first :: rest => first.take (min n SIZE) ++ shown (n - min n SIZE) rest

theorem memory_fromSlice (block) (segment : Segment UInt8 SIZE) : memory (.fromSlice block segment.val) = segment.val ++ block.val.drop segment.val.length := by
  have whole := List.take_of_length_le segment.property.2
  change block.val.take 0 ++ segment.val.take SIZE ++ block.val.drop _ = _
  rw [whole,List.take_zero,List.nil_append,Nat.zero_add]

theorem memories_new (blocks) : (blocks.map Buffer.new).map memory = memories blocks [] := by
  induction blocks with
  | nil => rfl
  | cons block rest ih => rw [map_cons,map_cons,ih]; rfl

theorem memories_length (segments) : (memories blocks segments).length = blocks.length := by
  induction blocks generalizing segments with
  | nil => rfl
  | cons block rest ih =>
    cases segments with
    | nil => exact congrArg Nat.succ (ih [])
    | cons segment segments => exact congrArg Nat.succ (ih segments)

structure Gathered (blocks : List Block) (inner : Underlying) (total : Nat) (r : Round) (segments : List Bytes)
    (result : Except IoError (Nat × List Buffer) × Underlying) : Prop where
  lens : segments.map List.length = r.lens
  given : result.2.given = inner.given ++ segments.flatten
  rest : result.2.coming.map Arrival.pattern = r.rest
  failed : r.failed = true → ∃ e, result.1 = .error e
  filled : r.failed = false → ∃ bufs, result.1 = .ok (total + r.lens.sum,bufs) ∧ bufs.map memory = memories blocks segments

theorem gathered_behind {inner : Underlying} {total before : Nat} (gathered : Gathered later after total r segments result)
    (given : after.given = inner.given ++ piece) (kept : memory b = piece ++ block.val.drop piece.length) (counted : total = before + piece.length) :
    Gathered (block :: later) inner before (r.behind piece.length) (piece :: segments) (keeping b result) := by
  have lens : (piece :: segments).map List.length = (r.behind piece.length).lens := by
    rw [map_cons,gathered.lens]
    rfl
  have books : inner.given ++ (piece :: segments).flatten = after.given ++ segments.flatten := by
    rw [given,List.append_assoc,List.flatten_cons]
  rcases result with ⟨outcome,last⟩
  cases outcome with
  | error e =>
    refine ⟨lens,gathered.given.trans books.symm,gathered.rest,fun _ => ⟨e,rfl⟩,?_⟩
    intro fine
    obtain ⟨bufs,impossible,-⟩ := gathered.filled fine
    cases impossible
  | ok done =>
    rcases done with ⟨n,bufs⟩
    refine ⟨lens,gathered.given.trans books.symm,gathered.rest,?_,?_⟩
    · intro broken
      obtain ⟨e,impossible⟩ := gathered.failed broken
      cases impossible
    · intro fine
      obtain ⟨others,same,filled⟩ := gathered.filled fine
      cases same
      refine ⟨b :: bufs,?_,?_⟩
      · rw [counted,Nat.add_assoc]
        rfl
      · rw [map_cons,filled,kept]
        rfl

theorem gathered_last (coming total) :
    Gathered blocks ⟨coming,given⟩ total ⟨[],false,coming.map Arrival.pattern⟩ [] (.ok (total,blocks.map .new),⟨coming,given⟩) := by
  refine ⟨rfl,(append_nil _).symm,rfl,?_,fun _ => ⟨_,rfl,memories_new blocks⟩⟩
  intro broken
  cases broken

theorem gathers_data (block rest) (segment : Segment UInt8 SIZE) (given total)
    (later : ∃ segments, Gathered rest ⟨coming,given ++ segment.val⟩ (total + segment.val.length) (round rest.length (coming.map Arrival.pattern)) segments
      (platformReadv rest ⟨coming,given ++ segment.val⟩ (total + segment.val.length))) :
    ∃ segments, Gathered (block :: rest) ⟨.data segment :: coming,given⟩ total
      (round (block :: rest).length (.data segment.val.length :: coming.map Arrival.pattern)) segments
      (platformReadv (block :: rest) ⟨.data segment :: coming,given⟩ total) := by
  have room : (Buffer.fromSlice block segment.val).available = SIZE - segment.val.length := by
    change SIZE - (segment.val.take SIZE).length = _
    rw [List.take_of_length_le segment.property.2]
  have place := memory_fromSlice block segment
  by_cases short : segment.val.length < SIZE - segment.val.length
  · have ends : platformReadv (block :: rest) ⟨.data segment :: coming,given⟩ total =
        keeping (.fromSlice block segment.val) (.ok (total + segment.val.length,rest.map .new),⟨coming,given ++ segment.val⟩) :=
      if_pos (by rwa [room])
    have ended : round (block :: rest).length (.data segment.val.length :: coming.map Arrival.pattern) =
        Round.behind ⟨[],false,coming.map Arrival.pattern⟩ segment.val.length := if_pos short
    rw [ends,ended]
    exact ⟨[segment.val],gathered_behind (gathered_last ..) rfl place rfl⟩
  · have goes : platformReadv (block :: rest) ⟨.data segment :: coming,given⟩ total =
        keeping (.fromSlice block segment.val) (platformReadv rest ⟨coming,given ++ segment.val⟩ (total + segment.val.length)) :=
      if_neg (by rwa [room])
    have going : round (block :: rest).length (.data segment.val.length :: coming.map Arrival.pattern) =
        (round rest.length (coming.map Arrival.pattern)).behind segment.val.length := if_neg short
    obtain ⟨segments,gathered⟩ := later
    rw [goes,going]
    exact ⟨segment.val :: segments,gathered_behind gathered rfl place rfl⟩

theorem platformReadv_gathers (inner total) : ∃ segments, Gathered blocks inner total (round blocks.length (inner.coming.map Arrival.pattern)) segments
      (platformReadv blocks inner total) := by
  induction blocks generalizing inner total with
  | nil => exact ⟨[],rfl,by simp [platformReadv],rfl,by simp [round],fun _ => ⟨[],rfl,rfl⟩⟩
  | cons block rest ih =>
    rcases inner with ⟨coming,given⟩
    cases coming with
    | nil =>
      exact ⟨[],rfl,by simp [platformReadv,Underlying.read],rfl,by simp [round],fun _ => ⟨_,rfl,memories_new _⟩⟩
    | cons first coming =>
      cases first with
      | endOfFile =>
        exact ⟨[],rfl,by simp [platformReadv,Underlying.read,Arrival.bytes],rfl,by simp [round,Arrival.pattern],fun _ => ⟨_,rfl,memories_new _⟩⟩
      | failed e =>
        exact ⟨[],rfl,by simp [platformReadv,Underlying.read,Arrival.bytes],rfl,fun _ => ⟨e,rfl⟩,by simp [round,Arrival.pattern]⟩
      | interrupted =>
        obtain ⟨segments,gathered⟩ := ih ⟨coming,given ++ []⟩ total
        have place : memory (.new block) = [] ++ block.val.drop ([] : Bytes).length := rfl
        exact ⟨[] :: segments,gathered_behind gathered rfl place rfl⟩
      | data segment => exact gathers_data block rest segment given total (ih ..)

@[simp] theorem shown_zero (blocks) : shown 0 blocks = [] := by
  induction blocks with
  | nil => rfl
  | cons first rest ih => simp [shown,ih]

theorem spread_shows (bufs) : bytesOf ((spread n bufs).1.takeWhile fun b => b.len != 0) = shown n (bufs.map memory) := by
  induction bufs generalizing n with
  | nil => rfl
  | cons b rest ih =>
    change bytesOf ((b.upTo (min n SIZE) _ :: (spread _ rest).1).takeWhile _) = _
    rw [List.takeWhile_cons,Buffer.upTo_len]
    by_cases zero : n = 0
    · subst zero
      simp
    · have some : (min n SIZE != 0) = true := by
        have positive : min n SIZE ≠ 0 := by
          rw [SIZE]
          omega
        simp [positive]
      rw [if_pos some,bytesOf_cons,ih]
      rfl

theorem spread_count (bufs) : (spread n bufs).2 = used bufs.length n := by
  induction bufs generalizing n with
  | nil => rfl
  | cons b rest ih =>
    change (if n = 0 then (spread _ rest).2 else (spread _ rest).2 + 1) = _
    rw [ih]
    change _ = used rest.length _ + if n = 0 then 0 else 1
    split <;> rfl

structure Called (blocks : List Block) (r next : ReadVReader) (turn : Round) (result : Bytes) (segments : List Bytes) : Prop where
  lens : segments.map List.length = turn.lens
  given : next.inner.given = r.inner.given ++ segments.flatten
  rest : next.inner.coming.map Arrival.pattern = turn.rest
  level : next.allocLevel = levelAfter r.allocLevel turn
  result : result = if turn.failed then [] else shown turn.lens.sum (memories blocks segments)

def ReadVReader.turn (r : ReadVReader) : Round := round r.allocLevel (r.inner.coming.map Arrival.pattern)

namespace ReadVReader

theorem shown_single (segment : Segment UInt8 SIZE) : shown segment.val.length (memories [block] [segment.val]) = segment.val := by
  have bounded := segment.property.2
  change (segment.val ++ block.val.drop segment.val.length).take _ ++ [] = segment.val
  rw [Nat.min_eq_left bounded,append_nil,take_left]

theorem single_level (r : ReadVReader) (single : r.allocLevel = 1) (some : 0 < n) (coming) :
    (if SIZE ≤ n then r.adjust 1 else r).allocLevel = levelAfter 1 ⟨[n],false,coming⟩ := by
  have counted : ¬ ((false : Bool) = true ∨ ([n] : List Nat).sum = 0) := by
    rw [List.sum_singleton]
    rintro (impossible | none)
    · cases impossible
    · omega
  rw [levelAfter,if_neg counted,if_pos rfl,List.sum_singleton]
  split
  · change adjusted r.allocLevel 1 = _
    rw [single]
  · exact single

theorem single_data {coming : List Arrival} (r : ReadVReader) (single : r.allocLevel = 1) (comes : r.inner.coming = .data piece :: coming) :
    r.readMultiBuffer blocks = (.ok (.of [.fromSlice (blocks 0) piece.val]),
      if SIZE ≤ piece.val.length then ({r with inner := ⟨coming,r.inner.given ++ piece.val⟩} : ReadVReader).adjust 1
      else {r with inner := ⟨coming,r.inner.given ++ piece.val⟩}) := by
  obtain ⟨some,bounded⟩ := piece.property
  have length : (Buffer.fromSlice (blocks 0) piece.val).len = piece.val.length := Buffer.fromSlice_len _ bounded
  have positive : (piece.val.length != 0) = true := by simp; exact List.ne_nil_of_length_pos some
  rw [readMultiBuffer,readMultiNative,if_pos single,readOneBuffer,Underlying.read,comes]
  dsimp only [Arrival.bytes]
  rw [length,if_neg (by omega)]
  simp [length,positive]

theorem single_called (single : r.allocLevel = 1) (blocks) : ∃ segments,
    Called ((List.range r.allocLevel).map blocks) r (r.readMultiBuffer blocks).2 r.turn (bytesRead (r.readMultiBuffer blocks).1) segments := by
  rcases r with ⟨⟨coming,given⟩,level,positive,atMost⟩
  cases single
  cases coming with
  | nil => exact ⟨[],rfl,(append_nil _).symm,rfl,rfl,rfl⟩
  | cons first coming =>
    cases first with
    | endOfFile | failed e => exact ⟨[],rfl,rfl,rfl,rfl,rfl⟩
    | interrupted => exact ⟨[[]],rfl,rfl,rfl,rfl,rfl⟩
    | data segment =>
      have turn : ReadVReader.turn ⟨⟨.data segment :: coming,given⟩,1,positive,atMost⟩ = ⟨[segment.val.length],false,coming.map Arrival.pattern⟩ := by
        change (if _ then _ else _ : Round) = _
        split <;> rfl
      have shows : bytesOf [Buffer.fromSlice (blocks 0) segment.val] = shown ([segment.val.length] : List Nat).sum (memories [blocks 0] [segment.val]) := by
        rw [List.sum_singleton,shown_single,bytesOf_cons,Buffer.fromSlice_bytes,List.take_of_length_le segment.property.2]
        exact append_nil _
      have books : given ++ segment.val = given ++ [segment.val].flatten := by simp
      rw [single_data _ rfl rfl,turn]
      refine ⟨[segment.val],rfl,?_,?_,single_level _ rfl segment.property.1 _,shows⟩
      · split <;> exact books
      · split <;> rfl

theorem several_called (several : r.allocLevel ≠ 1) (blocks) : ∃ segments,
    Called ((List.range r.allocLevel).map blocks) r (r.readMultiBuffer blocks).2 r.turn (bytesRead (r.readMultiBuffer blocks).1) segments := by
  have width : ((range r.allocLevel).map blocks).length = r.allocLevel := by simp
  obtain ⟨segments,gathered⟩ := platformReadv_gathers r.inner 0
  rw [width] at gathered
  change Gathered _ _ _ r.turn _ _ at gathered
  refine ⟨segments,?_⟩
  rcases found : platformReadv _ r.inner 0 with ⟨outcome,last⟩
  rw [found] at gathered
  cases broken : r.turn.failed with
  | true =>
    obtain ⟨e,rfl⟩ := gathered.failed broken
    rw [readMultiBuffer,readMultiNative,if_neg several,found]
    exact ⟨gathered.lens,gathered.given,gathered.rest,(if_pos (.inl broken)).symm,by rw [broken]; rfl⟩
  | false =>
    obtain ⟨bufs,rfl,filled⟩ := gathered.filled broken
    rw [Nat.zero_add] at found
    by_cases nothing : r.turn.lens.sum = 0
    · rw [readMultiBuffer,readMultiNative,if_neg several,found,nothing]
      exact ⟨gathered.lens,gathered.given,gathered.rest,(if_pos (.inr nothing)).symm,by rw [broken,nothing,shown_zero]; rfl⟩
    · have count : bufs.length = r.allocLevel := by
        have same := congrArg List.length filled
        rwa [length_map,memories_length,width] at same
      rw [readMultiBuffer,readMultiNative,if_neg several,found]
      dsimp only
      rw [if_neg nothing]
      dsimp only
      rw [if_neg nothing]
      refine ⟨gathered.lens,gathered.given,gathered.rest,?_,?_⟩
      · change adjusted r.allocLevel (spread r.turn.lens.sum bufs).2 = _
        rw [spread_count,count,levelAfter,if_neg (by simp [broken,nothing]),if_neg several]
      · rw [broken]
        exact (spread_shows bufs).trans (by rw [filled]; rfl)

theorem readMultiBuffer_called (r blocks) : ∃ segments,
    Called ((List.range r.allocLevel).map blocks) r (r.readMultiBuffer blocks).2 r.turn (bytesRead (r.readMultiBuffer blocks).1) segments := by
  by_cases single : r.allocLevel = 1
  · exact single_called single blocks
  · exact several_called single blocks

end ReadVReader

def Bounded (coming : List Pattern) : Prop := ∀ count, .data count ∈ coming → count ≤ SIZE

theorem arrivals_bounded (coming : List Arrival) : Bounded (coming.map Arrival.pattern) := by
  intro count found
  obtain ⟨arrival,-,same⟩ := mem_map.mp found
  cases arrival with
  | data segment =>
    cases same
    exact segment.property.2
  | interrupted | endOfFile | failed e => cases same

theorem round_facts (level) (bounded : Bounded coming) : (round level coming).lens.length ≤ level ∧
    (∀ len ∈ (round level coming).lens, len ≤ SIZE) ∧ Bounded (round level coming).rest := by
  induction level generalizing coming with
  | zero => exact ⟨Nat.le_refl 0,by simp [round],bounded⟩
  | succ level ih =>
    cases coming with
    | nil => exact ⟨Nat.zero_le _,by simp [round],bounded⟩
    | cons first coming =>
      have later : Bounded coming := fun count found => bounded count (mem_cons_of_mem _ found)
      obtain ⟨short,each,rest⟩ := ih later
      cases first with
      | endOfFile | failed => exact ⟨Nat.zero_le _,by simp [round],later⟩
      | interrupted => exact ⟨Nat.succ_le_succ short,by simpa [round,Round.behind] using each,rest⟩
      | data count =>
        have fits := bounded count (mem_cons_self ..)
        rw [round]
        split
        · exact ⟨Nat.succ_le_succ (Nat.zero_le _),by simpa using fits,later⟩
        · exact ⟨Nat.succ_le_succ short,by simpa [Round.behind,fits] using each,rest⟩

theorem shown_length_le (n blocks) : (shown n blocks).length ≤ n := by
  induction blocks generalizing n with
  | nil => exact Nat.zero_le n
  | cons first rest ih =>
    have later := ih (n - min n SIZE)
    rw [shown,length_append,List.length_take]
    omega

theorem shown_packed {segments : List Bytes} (packed : Packed (segments.map List.length))
    (enough : segments.length ≤ blocks.length) (each : ∀ segment ∈ segments, segment.length ≤ SIZE) :
    shown (segments.map List.length).sum (memories blocks segments) = segments.flatten := by
  induction segments generalizing blocks with
  | nil => exact shown_zero _
  | cons segment segments ih =>
    cases blocks with
    | nil => cases enough
    | cons block blocks =>
      have bounded := each segment (mem_cons_self ..)
      have later : ∀ segment ∈ segments, segment.length ≤ SIZE := fun s found => each s (mem_cons_of_mem _ found)
      rw [map_cons,sum_cons,List.flatten_cons]
      change (segment ++ block.val.drop segment.length).take _ ++ shown _ _ = _
      rcases packed with none | ⟨full,packed⟩
      · have empty : segments.flatten = [] := by
          apply List.eq_nil_of_length_eq_zero
          rw [length_flatten]
          exact none
        rw [none,Nat.add_zero,Nat.min_eq_left bounded,Nat.sub_self,shown_zero,take_left,empty]
      · have block_full : min (segment.length + (segments.map List.length).sum) SIZE = segment.length := by omega
        rw [block_full,take_left,Nat.add_sub_cancel_left,ih packed (Nat.le_of_succ_le_succ enough) later]

-- A gap shows a byte that was in a block before: in the first buffer that is not full, where more bytes come behind it.
theorem stale_here (block) (less : len < SIZE) (more : lens.sum ≠ 0) : ∃ byte ∈ block.val, ∀ (blocks : List Block) segments,
    segments.map List.length = len :: lens → byte ∈ shown (len :: lens).sum (memories (block :: blocks) segments) := by
  have behind : (block.val.drop len).length = SIZE - len := by rw [List.length_drop,block.property]
  obtain ⟨byte,tail,stale⟩ := List.exists_cons_of_ne_nil (List.ne_nil_of_length_pos (show 0 < (block.val.drop len).length by omega))
  have held : byte ∈ block.val.drop len := by
    rw [stale]
    exact mem_cons_self ..
  refine ⟨byte,List.mem_of_mem_drop held,?_⟩
  intro blocks segments lengths
  cases segments with
  | nil => cases lengths
  | cons segment segments =>
    obtain ⟨first,rest⟩ := List.cons.inj lengths
    rw [sum_cons]
    change byte ∈ (segment ++ block.val.drop segment.length).take _ ++ _
    obtain ⟨beyond,reach⟩ : ∃ beyond, min (len + lens.sum) SIZE - segment.length = beyond + 1 :=
      ⟨min (len + lens.sum) SIZE - segment.length - 1,by omega⟩
    rw [first,stale,List.take_append,reach]
    simp

theorem shown_behind (blocks) (lengths : segments.map List.length = SIZE :: lens) : ∃ front rest, rest.map List.length = lens ∧
      shown (SIZE :: lens).sum (memories (block :: blocks) segments) = front ++ shown lens.sum (memories blocks rest) := by
  cases segments with
  | nil => cases lengths
  | cons segment segments =>
    obtain ⟨-,rest⟩ := List.cons.inj lengths
    have rest_sum : SIZE + lens.sum - min (SIZE + lens.sum) SIZE = lens.sum := by omega
    refine ⟨(segment ++ block.val.drop segment.length).take (min (SIZE + lens.sum) SIZE),segments,rest,?_⟩
    rw [sum_cons]
    change _ ++ shown _ _ = _
    rw [rest_sum]

theorem stale_shown {lens : List Nat} (loose : ¬ Packed lens) (enough : lens.length ≤ blocks.length)
    (each : ∀ len ∈ lens, len ≤ SIZE) : ∃ block ∈ blocks, ∃ byte ∈ block.val, ∀ segments, segments.map List.length = lens →
      byte ∈ shown lens.sum (memories blocks segments) := by
  induction lens generalizing blocks with
  | nil => exact absurd trivial loose
  | cons len lens ih =>
    obtain ⟨more,gap⟩ := not_or.mp loose
    obtain ⟨bounded,later⟩ := List.forall_mem_cons.mp each
    cases blocks with
    | nil => cases enough
    | cons block blocks =>
      by_cases full : len = SIZE
      · obtain ⟨found,member,byte,inside,shows⟩ := ih (fun packed => gap ⟨full,packed⟩) (Nat.le_of_succ_le_succ enough) later
        refine ⟨found,mem_cons_of_mem _ member,byte,inside,?_⟩
        subst full
        intro segments lengths
        obtain ⟨front,rest,lens,shown⟩ := shown_behind blocks lengths
        rw [shown]
        exact List.mem_append_right _ (shows rest lens)
      · obtain ⟨byte,inside,shows⟩ := stale_here block (Nat.lt_of_le_of_ne bounded full) more
        exact ⟨block,mem_cons_self ..,byte,inside,shows blocks⟩

def ReadVReader.over (r : ReadVReader) (others : List Arrival) : ReadVReader := {r with inner := ⟨others,[]⟩}

theorem readAll_bytes (r blocks) : (readAll r (blocks :: later)).1 =
    bytesRead (r.readMultiBuffer blocks).1 ++ (readAll (r.readMultiBuffer blocks).2 later).1 := rfl
theorem readAll_last (r blocks) : (readAll r (blocks :: later)).2 = (readAll (r.readMultiBuffer blocks).2 later).2 := rfl

theorem call_whole {r : ReadVReader} (whole : r.turn.Whole) (called : Called ((List.range r.allocLevel).map blocks) r next r.turn result segments) :
    result = segments.flatten := by
  obtain ⟨enough,each,-⟩ := round_facts r.allocLevel (arrivals_bounded r.inner.coming)
  rw [Round.Whole] at whole
  rw [called.result]
  split
  · rename_i failed
    rw [if_pos failed,← called.lens,← length_flatten] at whole
    exact (List.eq_nil_of_length_eq_zero whole).symm
  · rename_i fine
    rw [if_neg fine,← called.lens] at whole
    rw [← called.lens]
    apply shown_packed whole
    · have counted := congrArg List.length called.lens
      rw [length_map] at counted
      rw [length_map,List.length_range,counted]
      exact enough
    · intro segment found
      apply each
      change segment.length ∈ r.turn.lens
      rw [← called.lens]
      exact List.mem_map_of_mem found

theorem steady_conserves (r supplies) (steady : Steady r.allocLevel (r.inner.coming.map Arrival.pattern) supplies.length) :
    (readAll r supplies).2.inner.given = r.inner.given ++ (readAll r supplies).1 := by
  induction supplies generalizing r with
  | nil => exact (append_nil _).symm
  | cons blocks later ih =>
    obtain ⟨whole,rest⟩ := steady
    obtain ⟨segments,called⟩ := r.readMultiBuffer_called blocks
    have tail := ih (r.readMultiBuffer blocks).2 (by rw [called.level,called.rest]; exact rest)
    rw [readAll_bytes,readAll_last,tail,called.given,call_whole whole called,List.append_assoc]

theorem call_atMost (called : Called blocks r next turn result segments) : result.length + r.inner.given.length ≤ next.inner.given.length := by
  have read : segments.flatten.length = turn.lens.sum := by rw [length_flatten,called.lens]
  have most := shown_length_le turn.lens.sum (memories blocks segments)
  rw [called.given,called.result,length_append]
  split
  · simp
  · omega

theorem readAll_atMost (r supplies) : (readAll r supplies).1.length + r.inner.given.length ≤ (readAll r supplies).2.inner.given.length := by
  induction supplies generalizing r with
  | nil => simp [readAll]
  | cons blocks later ih =>
    obtain ⟨segments,called⟩ := r.readMultiBuffer_called blocks
    have first := call_atMost called
    have tail := ih (r.readMultiBuffer blocks).2
    rw [readAll_bytes,readAll_last,length_append]
    omega

theorem failed_loses (r blocks) (failed : r.turn.failed = true) (some : r.turn.lens.sum ≠ 0) :
    (readAll r (blocks :: later)).1.length + r.inner.given.length < (readAll r (blocks :: later)).2.inner.given.length := by
  obtain ⟨segments,called⟩ := r.readMultiBuffer_called blocks
  have read : segments.flatten.length = r.turn.lens.sum := by rw [length_flatten,called.lens]
  have nothing := called.result.trans (if_pos failed)
  have given := congrArg List.length called.given
  have tail := readAll_atMost (r.readMultiBuffer blocks).2 later
  rw [length_append] at given
  rw [readAll_bytes,readAll_last,nothing,List.nil_append]
  omega

-- Where a call is not whole, either its reads are lost with an error, or a byte of a block comes out whatever was read.
theorem unsteady_shows (supplies) (bounded : Bounded coming) (unsteady : ¬ Steady level coming supplies.length) :
    (∃ blocks ∈ supplies, ∃ i, ∃ byte ∈ (blocks i).val, ∀ r, r.allocLevel = level →
      r.inner.coming.map Arrival.pattern = coming → byte ∈ (readAll r supplies).1) ∨ ∀ r, r.allocLevel = level → r.inner.coming.map Arrival.pattern = coming →
      (readAll r supplies).1.length + r.inner.given.length < (readAll r supplies).2.inner.given.length := by
  induction supplies generalizing level coming with
  | nil => exact absurd trivial unsteady
  | cons blocks later ih =>
    obtain ⟨enough,each,rest⟩ := round_facts level bounded
    by_cases whole : (round level coming).Whole
    · rcases ih rest (fun steady => unsteady ⟨whole,steady⟩) with ⟨given,member,i,byte,inside,shows⟩ | loses
      · refine .inl ⟨given,mem_cons_of_mem _ member,i,byte,inside,?_⟩
        rintro r rfl rfl
        obtain ⟨segments,called⟩ := r.readMultiBuffer_called blocks
        exact List.mem_append_right _ (shows _ called.level called.rest)
      · refine .inr ?_
        rintro r rfl rfl
        obtain ⟨segments,called⟩ := r.readMultiBuffer_called blocks
        have first := call_atMost called
        have tail := loses _ called.level called.rest
        rw [readAll_bytes,readAll_last,length_append]
        omega
    · rw [Round.Whole] at whole
      cases failed : (round level coming).failed with
      | true =>
        rw [if_pos failed] at whole
        refine .inr ?_
        rintro r rfl rfl
        exact failed_loses r blocks failed whole
      | false =>
        rw [if_neg (by rw [failed]; decide)] at whole
        obtain ⟨block,member,byte,inside,shows⟩ := @stale_shown ((range level).map blocks) _ whole (by simpa using enough) each
        obtain ⟨i,-,rfl⟩ := mem_map.mp member
        refine .inl ⟨blocks,mem_cons_self ..,i,byte,inside,?_⟩
        rintro r rfl rfl
        obtain ⟨segments,called⟩ := r.readMultiBuffer_called blocks
        have result := called.result.trans (if_neg (by rw [ReadVReader.turn,failed]; decide))
        rw [readAll_bytes,result]
        exact List.mem_append_left _ (shows segments called.lens)

def Underlying.stream (inner : Underlying) : Bytes := inner.given ++ inner.coming.flatMap Arrival.bytes

theorem read_stream (inner : Underlying) : inner.read.2.stream = inner.stream := by
  rcases inner with ⟨coming,given⟩
  cases coming with
  | nil => rfl
  | cons first rest => simp [Underlying.read,Underlying.stream]

theorem keeping_inner (result) : (keeping b result).2 = result.2 := by
  rcases result with ⟨outcome,inner⟩
  cases outcome with
  | error e | ok done => rfl

theorem platformReadv_stream (blocks inner total) : (platformReadv blocks inner total).2.stream = inner.stream := by
  induction blocks generalizing inner total with
  | nil => rfl
  | cons block rest ih =>
    have kept := read_stream inner
    rcases found : inner.read with ⟨first,after⟩
    rw [found] at kept
    rw [platformReadv,found]
    cases first with
    | endOfFile | failed e => exact kept
    | interrupted => exact (congrArg Underlying.stream (keeping_inner _)).trans ((ih after total).trans kept)
    | data segment =>
      dsimp only
      split
      · exact kept
      · exact (congrArg Underlying.stream (keeping_inner _)).trans ((ih after _).trans kept)

theorem readOneBuffer_inner (block inner) : (readOneBuffer block inner).2 = inner.read.2 := by
  rw [readOneBuffer]
  rcases inner.read with ⟨first,after⟩
  cases first with
  | endOfFile | failed e | interrupted | data segment => rfl

theorem readMultiNative_stream (r : ReadVReader) (blocks) : (r.readMultiNative blocks own).2.inner.stream = r.inner.stream := by
  rw [ReadVReader.readMultiNative]
  split
  · have kept := congrArg Underlying.stream (readOneBuffer_inner own r.inner)
    rw [read_stream] at kept
    rcases found : readOneBuffer own r.inner with ⟨outcome,after⟩
    rw [found] at kept
    cases outcome with
    | error e => exact kept
    | ok one =>
      cases one with
      | none => exact kept
      | some buf =>
        dsimp only
        split <;> exact kept
  · have kept := platformReadv_stream blocks r.inner 0
    rcases found : platformReadv blocks r.inner 0 with ⟨outcome,after⟩
    rw [found] at kept
    cases outcome with
    | error e => exact kept
    | ok done =>
      dsimp only
      split <;> exact kept

theorem readMultiBuffer_inner (r : ReadVReader) (blocks) :
    (r.readMultiBuffer blocks).2 = (r.readMultiNative ((List.range r.allocLevel).map blocks) (blocks 0)).2 := by
  rw [ReadVReader.readMultiBuffer]
  rcases r.readMultiNative _ (blocks 0) with ⟨outcome,after⟩
  cases outcome with
  | error e => rfl
  | ok done =>
    dsimp only
    split <;> rfl

theorem readAll_stream (r supplies) : (readAll r supplies).2.inner.stream = r.inner.stream := by
  induction supplies generalizing r with
  | nil => rfl
  | cons blocks later ih => rw [readAll_last,ih,readMultiBuffer_inner,readMultiNative_stream]

def Arrival.flooded (byte : UInt8) : Arrival → Arrival
  | .data segment => .data ⟨List.replicate segment.val.length byte,by rw [List.length_replicate]; exact segment.property⟩
  | other => other

theorem flooded_pattern (arrival : Arrival) : (arrival.flooded byte).pattern = arrival.pattern := by
  cases arrival with
  | data segment => exact congrArg Pattern.data (List.length_replicate ..)
  | interrupted | endOfFile | failed e => rfl

theorem flooded_bytes {arrival : Arrival} (found : other ∈ (arrival.flooded byte).bytes) : other = byte := by
  cases arrival with
  | data segment => exact eq_of_mem_replicate found
  | interrupted | endOfFile | failed e => cases found

theorem flooded_given (r : ReadVReader) (arrivals : List Arrival)
    (found : other ∈ (readAll (r.over (arrivals.map (Arrival.flooded byte))) supplies).2.inner.given) : other = byte := by
  have stream := readAll_stream (r.over (arrivals.map (Arrival.flooded byte))) supplies
  have member : other ∈ (r.over (arrivals.map (Arrival.flooded byte))).inner.stream := by
    rw [← stream]
    exact List.mem_append_left _ found
  rcases List.mem_append.mp member with none | coming
  · cases none
  · obtain ⟨arrival,flooded,inside⟩ := List.mem_flatMap.mp coming
    obtain ⟨original,-,rfl⟩ := mem_map.mp flooded
    exact flooded_bytes inside

theorem readv_conserves_iff (r : ReadVReader) (supplies : List (Nat → Block)) :
    (∀ others, others.map Arrival.pattern = r.inner.coming.map Arrival.pattern →
      (readAll (r.over others) supplies).1 = (readAll (r.over others) supplies).2.inner.given) ↔
      Steady r.allocLevel (r.inner.coming.map Arrival.pattern) supplies.length := by
  constructor
  · intro conserved
    by_contra unsteady
    rcases unsteady_shows supplies (arrivals_bounded _) unsteady with ⟨-,-,-,byte,-,shows⟩ | loses
    · have pattern : (r.inner.coming.map (Arrival.flooded (byte + 1))).map Arrival.pattern = r.inner.coming.map Arrival.pattern := by
        rw [List.map_map]
        exact List.map_congr_left fun arrival _ => flooded_pattern arrival
      have found := shows (r.over _) rfl pattern
      rw [conserved _ pattern] at found
      have same := flooded_given r r.inner.coming found
      simp at same
    · have fewer := loses (r.over r.inner.coming) rfl rfl
      rw [conserved _ rfl] at fewer
      exact Nat.lt_irrefl _ (Nat.lt_of_le_of_lt (Nat.le_add_right ..) fewer)
  · intro steady others pattern
    have conserved := steady_conserves (r.over others) supplies (by rw [← pattern] at steady; exact steady)
    exact conserved.symm

-- A block of ones, half a block and one more: behind the half block a zero of the second buffer's block comes out.
def onesRead (n : Nat) (some : 0 < n ∧ n ≤ SIZE) : Arrival := .data ⟨List.replicate n 1,by rwa [List.length_replicate]⟩

def onesReads : List Arrival := [onesRead SIZE (by decide),onesRead 4096 (by decide),onesRead 1 (by decide)]

theorem onesRead_pattern (some : 0 < n ∧ n ≤ SIZE) : (onesRead n some).pattern = .data n :=
  congrArg Pattern.data (List.length_replicate ..)

theorem onesRead_flooded (some : 0 < n ∧ n ≤ SIZE) : (onesRead n some).flooded 1 = onesRead n some := by
  simp [onesRead,Arrival.flooded]

theorem half_block_then_more : ¬ (readAll (.new ⟨onesReads,[]⟩) [fun _ => .zero SIZE,fun _ => .zero SIZE]).1 =
    (readAll (.new ⟨onesReads,[]⟩) [fun _ => .zero SIZE,fun _ => .zero SIZE]).2.inner.given := by
  intro conserved
  have pattern : onesReads.map Arrival.pattern = [.data SIZE,.data 4096,.data 1] := by
    simp only [onesReads,map_cons,List.map_nil,onesRead_pattern]
  have unsteady : ¬ Steady 1 [.data SIZE,.data 4096,.data 1] 2 := by decide
  have bounded : Bounded [.data SIZE,.data 4096,.data 1] := by
    rw [← pattern]
    exact arrivals_bounded _
  rcases unsteady_shows [fun _ => .zero SIZE,fun _ => .zero SIZE] bounded unsteady with ⟨blocks,member,i,byte,inside,shows⟩ | loses
  · have found := shows (.new ⟨onesReads,[]⟩) rfl pattern
    have zero : byte = 0 := by
      have zeros : blocks = fun _ => Octets.zero SIZE := by simpa using member
      rw [zeros] at inside
      exact eq_of_mem_replicate inside
    rw [conserved] at found
    have ones : onesReads.map (Arrival.flooded 1) = onesReads := by simp only [onesReads,map_cons,List.map_nil,onesRead_flooded]
    have begun (reads) : ReadVReader.new ⟨reads,[]⟩ = ReadVReader.over (.new ⟨[],[]⟩) reads := rfl
    rw [← ones,begun] at found
    have one := flooded_given _ _ found
    rw [zero] at one
    cases one
  · have fewer := loses (.new ⟨onesReads,[]⟩) rfl pattern
    rw [conserved] at fewer
    exact Nat.lt_irrefl _ (Nat.lt_of_le_of_lt (Nat.le_add_right ..) fewer)

end AstraCore.Buffers
