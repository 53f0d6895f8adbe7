import AstraCore.Authenticators
import AstraCore.ReaderWalk

namespace AstraCore.ChunkStream
open CheckedBytes CallOrder Authenticators Buffers

inductive Fault where
  | panicked (fault : Panic)
  | overflow
deriving DecidableEq, Repr

abbrev Guarded := Except Fault

def guarded : Checked α → Guarded α
  | .ok value => .ok value
  | .error fault => .error (.panicked fault)

inductive SizeParser where
  | plain
  | aead (auth : Authenticator) (fixed : auth.overhead = 16)

namespace SizeParser

def sizeBytes : SizeParser → Nat
  | .plain => 2
  | .aead auth _ => 2 + auth.overhead

def rawSize (auth : Authenticator) (size : UInt16) : Bytes := u16ToBe (size - UInt16.ofNat auth.overhead)

def encode : SizeParser → List UInt16 → UInt16 → Guarded Bytes
  | .plain,_,size => .ok (u16ToBe size)
  | .aead auth _,earlier,size =>
    if size < UInt16.ofNat auth.overhead then .error .overflow
    else .ok (auth.seals (earlier.map (rawSize auth)) (rawSize auth size))

def decode : SizeParser → List Bytes → Bytes → Guarded (Except IoError UInt16)
  | .plain,_,b => do
    let high ← guarded (byteAt b 0)
    let low ← guarded (byteAt b 1)
    .ok (.ok (be16 [high,low]))
  | .aead auth _,earlier,b =>
    match auth.opens earlier b with
    | .error e => .ok (.error ⟨.other,e⟩)
    | .ok decrypted => do
      let high ← guarded (byteAt decrypted 0)
      let low ← guarded (byteAt decrypted 1)
      let size := be16 [high,low]
      if 65535 < size.toNat + auth.overhead then .error .overflow
      else .ok (.ok (size + UInt16.ofNat auth.overhead))

end SizeParser

def sliceSize : Nat := 8192

-- The loop of `write_multi_buffer`; `earlier` are the sizes encoded so far. Every turn but the last cuts something off.
def writeLoop (parser : SizeParser) (fresh : Block) : Nat → List UInt16 → MultiBuffer → MultiBuffer → Guarded (List UInt16 × MultiBuffer)
  | 0,earlier,_,mb2Write => .ok (earlier,mb2Write)
  | fuel+1,earlier,remaining,mb2Write =>
    let (chunk,remaining) := remaining.cutFront fresh sliceSize
    if chunk.isEmpty then .ok (earlier,mb2Write)
    else do
      let size := UInt16.ofNat chunk.totalLen
      let encoded ← parser.encode earlier size
      writeLoop parser fresh fuel (earlier ++ [size]) remaining ((mb2Write.pushBack (.fromSlice fresh encoded)).append chunk)

def writeMultiBuffer (parser : SizeParser) (fresh : Block) (earlier : List UInt16) (mb : MultiBuffer) : Guarded (List UInt16 × MultiBuffer) :=
  writeLoop parser fresh (mb.totalLen + 1) earlier mb .new

def writeAll (parser : SizeParser) (fresh : Block) : List UInt16 → List MultiBuffer → Guarded Bytes
  | _,[] => .ok []
  | earlier,mb :: rest => do
    let (earlier,out) ← writeMultiBuffer parser fresh earlier mb
    let later ← writeAll parser fresh earlier rest
    .ok (out.bytes ++ later)

structure ChunkStreamReader where
  decoded : List Bytes
  reader : BufferedReader
  leftoverSize : Nat
  maxChunk : UInt32
  numChunk : UInt32

namespace ChunkStreamReader
variable (parser : SizeParser) (fresh : Block)

def withChunkCount (reader : Source) (maxChunk : UInt32) : ChunkStreamReader := ⟨[],.new reader,0,maxChunk,0⟩

def new (reader : Source) : ChunkStreamReader := withChunkCount reader 0

section
variable (r : ChunkStreamReader)

def readSize : Guarded (Except IoError UInt16 × ChunkStreamReader) := do
  let (field,reader) ← guarded (r.reader.readExact parser.sizeBytes)
  match field with
  | .error e => .ok (.error e,{r with reader})
  | .ok buffer => do
    let size ← parser.decode r.decoded buffer
    .ok (size,{r with reader,decoded := r.decoded ++ [buffer]})

def readData (size : Nat) : Except IoError MultiBuffer × ChunkStreamReader :=
  match r.reader.readAtMost fresh size with
  | (.error e,reader) => (.error e,{r with reader,leftoverSize := size})
  | (.ok mb,reader) =>
    if mb.isEmpty then (.error ⟨.unexpectedEof,"no data"⟩,{r with reader,leftoverSize := size})
    else (.ok mb,{r with reader,leftoverSize := size - mb.totalLen})

def readMultiBuffer : Guarded (Except IoError MultiBuffer × ChunkStreamReader) :=
  if r.leftoverSize = 0 then
    if r.numChunk.toNat + 1 = 2^32 then .error .overflow
    else
      let r := {r with numChunk := r.numChunk + 1}
      if 0 < r.maxChunk ∧ r.maxChunk < r.numChunk then .ok (.error ⟨.unexpectedEof,"max chunk count reached"⟩,r)
      else do
        let (nextSize,r) ← r.readSize parser
        match nextSize with
        | .error e => .ok (.error e,r)
        | .ok nextSize =>
          if nextSize = 0 then .ok (.error ⟨.unexpectedEof,"zero size chunk"⟩,r)
          else .ok (r.readData fresh nextSize.toNat)
  else .ok (r.readData fresh r.leftoverSize)

end

end ChunkStreamReader

-- Calls until one fails, the bytes they returned before that and how the last one failed. A call that panics or overflows
-- leaves nothing to go on from.
inductive Drains (parser : SizeParser) (fresh : Block) : ChunkStreamReader → Bytes → IoError → ChunkStreamReader → Prop where
  | ends (failed : r.readMultiBuffer parser fresh = .ok (.error e,last)) : Drains parser fresh r [] e last
  | goes (returned : r.readMultiBuffer parser fresh = .ok (.ok mb,next)) (later : Drains parser fresh next bytes e last) :
      Drains parser fresh r (mb.bytes ++ bytes) e last

def RoundTrips (parser : SizeParser) (fresh : Block) (written pieces : List MultiBuffer) : Prop :=
  ∃ e last, Drains parser fresh (.new ⟨pieces.map .ok,[]⟩) (written.flatMap MultiBuffer.bytes) e last ∧
    e.kind = .unexpectedEof ∧ last.reader.reader.coming = [] ∧ last.reader.buf.totalLen = 0

def slices : Nat → Nat → List Nat
  | 0,_ => []
  | fuel+1,n => if n = 0 then [] else min n sliceSize :: slices fuel (n - min n sliceSize)

def chunkLens (lens : List Nat) : List Nat := lens.flatMap fun n => slices n n

-- Where the buffers are after a chunk was read with `read_at_most`; none where bytes behind it are lost. The chunk ends in
-- the MultiBuffer in which it starts, or with a MultiBuffer.
def walkData : Nat → List Nat → List (List Nat) → Option (List Nat × List (List Nat))
  | n,cur,[] => if n ≤ cur.sum then some (behindLens n cur,[]) else none
  | n,cur,piece :: later =>
    if n ≤ cur.sum then some (behindLens n cur,piece :: later)
    else if cur.sum + piece.sum ≤ n then walkData (n - cur.sum - piece.sum) [] later
    else none

def walk (sizeBytes : Nat) : List Nat → List Nat → List (List Nat) → Option (List Nat × List (List Nat))
  | [],cur,later => some (cur,later)
  | n :: rest,cur,later =>
    match walkField sizeBytes cur later with
    | none => none
    | some (cur,later) =>
      match walkData n cur later with
      | none => none
      | some (cur,later) => walk sizeBytes rest cur later

def SizeParser.Encodes : SizeParser → Nat → Prop
  | .plain,_ => True
  | .aead _ _,n => 16 ≤ n

instance SizeParser.decideEncodes : (parser : SizeParser) → (n : Nat) → Decidable (parser.Encodes n)
  | .plain,_ => inferInstanceAs (Decidable True)
  | .aead _ _,n => inferInstanceAs (Decidable (16 ≤ n))

open List

namespace SizeParser

def header : SizeParser → List UInt16 → UInt16 → Bytes
  | .plain,_,size => u16ToBe size
  | .aead auth _,earlier,size => auth.seals (earlier.map (rawSize auth)) (rawSize auth size)

theorem header_length (parser : SizeParser) (earlier size) : (parser.header earlier size).length = parser.sizeBytes := by
  cases parser with
  | plain => exact u16ToBe_length size
  | aead auth fixed =>
    rw [header,auth.seals_length]
    rfl

theorem sizeBytes_positive (parser : SizeParser) : 0 < parser.sizeBytes := by
  cases parser with
  | plain => exact Nat.two_pos
  | aead auth fixed =>
    rw [sizeBytes]
    omega

theorem small_toNat (small : n ≤ sliceSize) : (UInt16.ofNat n).toNat = n := by
  rw [sliceSize] at small
  rw [UInt16.toNat_ofNat',Nat.mod_eq_of_lt (by omega)]

theorem below_overhead (small : n ≤ sliceSize) (fixed : overhead = 16) : UInt16.ofNat n < UInt16.ofNat overhead ↔ n < 16 := by
  rw [UInt16.lt_iff_toNat_lt,small_toNat small,fixed]
  rfl

variable {parser : SizeParser}

theorem encode_header (small : n ≤ sliceSize) (encodes : parser.Encodes n) (earlier) :
    parser.encode earlier (.ofNat n) = .ok (parser.header earlier (.ofNat n)) := by
  cases parser with
  | plain => rfl
  | aead auth fixed =>
    change 16 ≤ n at encodes
    exact if_neg (by rw [below_overhead small fixed]; omega)

theorem encode_overflows (small : n ≤ sliceSize) (overflows : ¬ parser.Encodes n) (earlier) : parser.encode earlier (.ofNat n) = .error .overflow := by
  cases parser with
  | plain => exact absurd trivial overflows
  | aead auth fixed =>
    change ¬ 16 ≤ n at overflows
    exact if_pos (by rw [below_overhead small fixed]; omega)

theorem two_bytes (word) : ∃ high low, u16ToBe word = [high,low] := ⟨_,_,rfl⟩

theorem decode_header (small : n ≤ sliceSize) (encodes : parser.Encodes n) (earlier) :
    parser.decode (outputs parser.header [] earlier) (parser.header earlier (.ofNat n)) = .ok (.ok (.ofNat n)) := by
  cases parser with
  | plain =>
    obtain ⟨high,low,bytes⟩ := two_bytes _
    have word := be16_roundtrip (UInt16.ofNat n)
    rw [bytes] at word
    rw [header,bytes]
    change (.ok _ : Guarded _) = _
    rw [word]
  | aead auth fixed =>
    have opened := auth.inverts (earlier.map (rawSize auth)) (rawSize auth (.ofNat n))
    have memory : outputs (header (.aead auth fixed)) [] earlier = outputs auth.seals [] (earlier.map (rawSize auth)) :=
      outputs_map auth.seals (rawSize auth) [] earlier
    obtain ⟨high,low,bytes⟩ := two_bytes _
    have word := be16_roundtrip (UInt16.ofNat n - UInt16.ofNat auth.overhead)
    rw [bytes] at word
    have fits : ¬ 65535 < (UInt16.ofNat n - UInt16.ofNat auth.overhead).toNat + auth.overhead := by
      have ordered : UInt16.ofNat auth.overhead ≤ UInt16.ofNat n := by
        rw [UInt16.le_iff_toNat_le,small_toNat small,fixed]
        exact encodes
      rw [UInt16.toNat_sub_of_le _ _ ordered,small_toNat small]
      rw [sliceSize] at small
      omega
    rw [memory,header,decode,opened]
    rw [rawSize,bytes]
    change (if 65535 < (be16 [high,low]).toNat + auth.overhead then .error .overflow
      else .ok _ : Guarded _) = _
    rw [word,if_neg fits,UInt16.sub_add_cancel]

end SizeParser

def frames (parser : SizeParser) : List UInt16 → List Bytes → Bytes
  | _,[] => []
  | earlier,chunk :: rest =>
    parser.header earlier (.ofNat chunk.length) ++ chunk ++ frames parser (earlier ++ [.ofNat chunk.length]) rest

def sizesOf (chunks : List Bytes) : List UInt16 := chunks.map fun chunk => .ofNat chunk.length

theorem frames_append : frames parser earlier (front ++ back) = frames parser earlier front ++ frames parser (earlier ++ sizesOf front) back := by
  induction front generalizing earlier with
  | nil => simp [frames,sizesOf]
  | cons chunk rest ih => simp [frames,sizesOf,ih]

def cutAt : List Nat → Bytes → List Bytes
  | [],_ => []
  | n :: rest,text => text.take n :: cutAt rest (text.drop n)

theorem cutAt_append (enough : front.sum = text.length) : cutAt (front ++ back) (text ++ rest) = cutAt front text ++ cutAt back rest := by
  induction front generalizing text with
  | nil =>
    have none := eq_nil_of_length_eq_zero enough.symm
    rw [none]
    rfl
  | cons n front ih =>
    rw [sum_cons] at enough
    have inside : n ≤ text.length := by omega
    rw [cons_append,cutAt,take_append_of_le_length inside,drop_append_of_le_length inside,ih (by rw [length_drop]; omega)]
    rfl

theorem cutAt_lengths (enough : lens.sum ≤ text.length) : (cutAt lens text).map List.length = lens := by
  induction lens generalizing text with
  | nil => rfl
  | cons n lens ih =>
    rw [sum_cons] at enough
    rw [cutAt,map_cons,length_take,Nat.min_eq_left (by omega),ih (by rw [length_drop]; omega)]

theorem slices_sum (enough : n ≤ fuel) : (slices fuel n).sum = n := by
  induction fuel generalizing n with
  | zero => simp [slices]; omega
  | succ fuel ih =>
    rw [slices]
    split
    · rename_i zero
      rw [zero]
      rfl
    · rw [sum_cons,ih (by rw [sliceSize]; omega)]
      omega

theorem slices_within (found : len ∈ slices fuel n) : 0 < len ∧ len ≤ sliceSize := by
  induction fuel generalizing n with
  | zero => cases found
  | succ fuel ih =>
    rw [slices] at found
    split at found
    · cases found
    · rcases mem_cons.mp found with rfl | later
      · rw [sliceSize]
        omega
      · exact ih later

theorem cut_length (mb : MultiBuffer) : (mb.cutFront fresh sliceSize).1.totalLen = min mb.totalLen sliceSize := by
  rw [← MultiBuffer.bytes_length,MultiBuffer.cutFront_front,length_take,MultiBuffer.bytes_length,Nat.min_comm]

theorem left_length (fresh) (mb : MultiBuffer) : (mb.cutFront fresh sliceSize).2.totalLen = mb.totalLen - min mb.totalLen sliceSize := by
  rw [← MultiBuffer.bytes_length,MultiBuffer.cutFront_back,length_drop,MultiBuffer.bytes_length]
  omega

theorem writeLoop_ends (parser fresh) (empty : remaining.totalLen = 0) (fuel earlier out) :
    writeLoop parser fresh (fuel + 1) earlier remaining out = .ok (earlier,out) := by
  have none : (remaining.cutFront fresh sliceSize).1.totalLen = 0 := by rw [cut_length,empty,Nat.zero_min]
  exact if_pos ((MultiBuffer.isEmpty_iff _).mpr none)

theorem writeLoop_turn (fresh) (some : remaining.totalLen ≠ 0) (fuel earlier out) : writeLoop parser fresh (fuel + 1) earlier remaining out =
      parser.encode earlier (.ofNat (min remaining.totalLen sliceSize)) >>= fun encoded =>
        writeLoop parser fresh fuel (earlier ++ [.ofNat (min remaining.totalLen sliceSize)]) (remaining.cutFront fresh sliceSize).2
          ((out.pushBack (.fromSlice fresh encoded)).append (remaining.cutFront fresh sliceSize).1) := by
  have first : (remaining.cutFront fresh sliceSize).1.totalLen ≠ 0 := by
    rw [cut_length,sliceSize]
    omega
  rw [← cut_length]
  exact if_neg (mt (MultiBuffer.isEmpty_iff _).mp first)

theorem slices_turn (some : n ≠ 0) (fuel) : slices (fuel + 1) n = min n sliceSize :: slices fuel (n - min n sliceSize) :=
  if_neg some

theorem cut_bytes (mb : MultiBuffer) : (mb.cutFront fresh sliceSize).1.bytes = mb.bytes.take (min mb.totalLen sliceSize) := by
  rw [MultiBuffer.cutFront_front,Nat.min_comm,← MultiBuffer.bytes_length,← take_take,take_length]

theorem left_bytes (mb : MultiBuffer) : (mb.cutFront fresh sliceSize).2.bytes = mb.bytes.drop (min mb.totalLen sliceSize) := by
  rw [MultiBuffer.cutFront_back]
  by_cases longer : sliceSize ≤ mb.totalLen
  · rw [Nat.min_eq_right longer]
  · rw [drop_of_length_le (by rw [MultiBuffer.bytes_length]; omega),drop_of_length_le (by rw [MultiBuffer.bytes_length]; omega)]

theorem header_buffer (parser : SizeParser) (fresh size) : (Buffer.fromSlice fresh (parser.header earlier size)).bytes = parser.header earlier size := by
  have short : (parser.header earlier size).length ≤ SIZE := by
    rw [SizeParser.header_length]
    cases parser with
    | plain => decide
    | aead auth fixed => rw [SizeParser.sizeBytes,fixed]; decide
  rw [Buffer.fromSlice_bytes,take_of_length_le short]

theorem writeLoop_frames (fresh) (enough : remaining.totalLen ≤ fuel)
    (encodes : ∀ n ∈ slices fuel remaining.totalLen, parser.Encodes n) (earlier out) : ∃ last,
    writeLoop parser fresh (fuel + 1) earlier remaining out = .ok (earlier ++ sizesOf (cutAt (slices fuel remaining.totalLen) remaining.bytes),last) ∧
      last.bytes = out.bytes ++ frames parser earlier (cutAt (slices fuel remaining.totalLen) remaining.bytes) := by
  induction fuel generalizing remaining earlier out with
  | zero =>
    refine ⟨out,?_,by simp [slices,cutAt,frames]⟩
    rw [writeLoop_ends parser fresh (by omega)]
    simp [slices,cutAt,sizesOf]
  | succ fuel ih =>
    by_cases empty : remaining.totalLen = 0
    · refine ⟨out,?_,by simp [slices,empty,cutAt,frames]⟩
      rw [writeLoop_ends parser fresh empty]
      simp [slices,empty,cutAt,sizesOf]
    · have width := left_length fresh remaining
      rw [slices_turn empty] at encodes ⊢
      obtain ⟨first,later⟩ := forall_mem_cons.mp encodes
      have encoded := SizeParser.encode_header (Nat.min_le_right ..) first earlier
      obtain ⟨last,written,bytes⟩ := @ih (remaining.cutFront fresh sliceSize).2 (by rw [width,sliceSize]; omega) (by rwa [width])
        (earlier ++ [.ofNat _])
        ((out.pushBack _).append
          (remaining.cutFront fresh sliceSize).1)
      rw [width,left_bytes] at written bytes
      refine ⟨last,?_,?_⟩
      · rw [writeLoop_turn fresh empty,encoded,ok_bind,written,cutAt]
        simp [sizesOf]
      · rw [bytes,cutAt,frames,MultiBuffer.append_bytes,MultiBuffer.pushBack_bytes,header_buffer,cut_bytes]
        simp

theorem writeLoop_overflows (enough : remaining.totalLen ≤ fuel) (overflows : ∃ n ∈ slices fuel remaining.totalLen, ¬ parser.Encodes n) :
    writeLoop parser fresh (fuel + 1) earlier remaining out = .error .overflow := by
  induction fuel generalizing remaining earlier out with
  | zero =>
    obtain ⟨n,found,-⟩ := overflows
    cases found
  | succ fuel ih =>
    by_cases empty : remaining.totalLen = 0
    · obtain ⟨n,found,-⟩ := overflows
      rw [slices,if_pos empty] at found
      cases found
    have small : min remaining.totalLen sliceSize ≤ sliceSize := Nat.min_le_right ..
    rw [writeLoop_turn fresh empty]
    by_cases first : parser.Encodes (min remaining.totalLen sliceSize)
    · rw [SizeParser.encode_header small first]
      apply ih
      · rw [left_length,sliceSize]
        omega
      · obtain ⟨n,found,fails⟩ := overflows
        rw [slices_turn empty] at found
        rcases mem_cons.mp found with rfl | later
        · exact absurd first fails
        · rw [left_length]
          exact ⟨n,later,fails⟩
    · rw [SizeParser.encode_overflows small first,error_bind]

theorem writeAll_frames (parser fresh written) (encodes : ∀ n ∈ chunkLens (written.map MultiBuffer.totalLen), parser.Encodes n) (earlier) :
    writeAll parser fresh earlier written =
      .ok (frames parser earlier (cutAt (chunkLens (written.map MultiBuffer.totalLen)) (written.flatMap MultiBuffer.bytes))) := by
  induction written generalizing earlier with
  | nil => rfl
  | cons mb rest ih =>
    have lens : chunkLens ((mb :: rest).map MultiBuffer.totalLen) = slices mb.totalLen mb.totalLen ++ chunkLens (rest.map MultiBuffer.totalLen) :=
      flatMap_cons
    rw [lens] at encodes ⊢
    obtain ⟨out,first,bytes⟩ := writeLoop_frames fresh (Nat.le_refl mb.totalLen)
      (fun n found => encodes n (mem_append_left _ found)) earlier .new
    have later := ih (fun n found => encodes n (mem_append_right _ found))
    have whole : (slices mb.totalLen mb.totalLen).sum = mb.bytes.length := by rw [slices_sum (Nat.le_refl _),MultiBuffer.bytes_length]
    rw [writeAll,writeMultiBuffer,first,ok_bind]
    dsimp only
    rw [later,ok_bind,bytes,flatMap_cons,cutAt_append whole,frames_append,MultiBuffer.new_bytes,nil_append]

theorem writeAll_overflows (parser fresh written) (overflows : ∃ n ∈ chunkLens (written.map MultiBuffer.totalLen), ¬ parser.Encodes n) (earlier) :
    writeAll parser fresh earlier written = .error .overflow := by
  induction written generalizing earlier with
  | nil =>
    obtain ⟨n,found,-⟩ := overflows
    cases found
  | cons mb rest ih =>
    by_cases first : ∃ n ∈ slices mb.totalLen mb.totalLen, ¬ parser.Encodes n
    · rw [writeAll,writeMultiBuffer,writeLoop_overflows (Nat.le_refl _) first,error_bind]
    · obtain ⟨out,done,-⟩ := writeLoop_frames fresh (Nat.le_refl mb.totalLen)
        (fun n found => Classical.byContradiction fun fails => first ⟨n,found,fails⟩) earlier .new
      rw [writeAll,writeMultiBuffer,done,ok_bind]
      dsimp only
      rw [ih,error_bind]
      obtain ⟨n,found,fails⟩ := overflows
      rcases mem_append.mp found with here | later
      · exact absurd ⟨n,here,fails⟩ first
      · exact ⟨n,later,fails⟩

end AstraCore.ChunkStream
