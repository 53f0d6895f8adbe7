import AstraCore.ChunkStream

namespace AstraCore.ChunkStream
open CheckedBytes CallOrder Buffers
open List (append_assoc length_append length_cons length_drop length_nil length_replicate length_take map_cons map_map mem_cons_of_mem
  mem_cons_self replicate sum sum_cons take_append_drop)
variable {parser : SizeParser} {fresh : Block}

def Continues (parser : SizeParser) (fresh : Block) :
    Guarded (Except IoError MultiBuffer × ChunkStreamReader) → Bytes → IoError → ChunkStreamReader → Prop
  | .ok (.ok mb,next),bytes,e,last => ∃ rest, bytes = mb.bytes ++ rest ∧ Drains parser fresh next rest e last
  | .ok (.error failed,next),bytes,e,last => bytes = [] ∧ e = failed ∧ last = next
  | .error _,_,_,_ => False

theorem drains_iff : Drains parser fresh r bytes e last ↔ Continues parser fresh (r.readMultiBuffer parser fresh) bytes e last := by
  constructor
  · intro drains
    cases drains with
    | ends failed =>
      rw [failed]
      exact ⟨rfl,rfl,rfl⟩
    | goes returned later =>
      rw [returned]
      exact ⟨_,rfl,later⟩
  · intro continues
    cases found : r.readMultiBuffer parser fresh with
    | error fault =>
      rw [found] at continues
      exact continues.elim
    | ok done =>
      rcases done with ⟨result,next⟩
      rw [found] at continues
      cases result with
      | error failed =>
        obtain ⟨rfl,rfl,rfl⟩ := continues
        exact .ends found
      | ok mb =>
        obtain ⟨rest,rfl,later⟩ := continues
        exact .goes found later

structure Stands (parser : SizeParser) (r : ChunkStreamReader) (left count : Nat) (sizes : List UInt16) (cur : List Nat)
    (later : List (List Nat)) (text : Bytes) : Prop where
  left : r.leftoverSize = left
  unlimited : r.maxChunk = 0
  count : r.numChunk.toNat = count
  decoded : r.decoded = outputs parser.header [] sizes
  holds : Holds r.reader cur later text

section
variable (stands : Stands parser r 0 count sizes cur later text)
include stands

theorem stands_overflows (full : count + 1 = 2^32) : r.readMultiBuffer parser fresh = .error .overflow := by
  rw [ChunkStreamReader.readMultiBuffer,if_pos stands.left,if_pos (by rw [stands.count,full])]

theorem drains_room (drains : Drains parser fresh r bytes e last) : count + 1 < 2^32 := by
  have below := r.numChunk.toNat_lt
  rw [stands.count] at below
  by_contra full
  rw [drains_iff,stands_overflows stands (by omega)] at drains
  exact drains

theorem stands_sizes_first (room : count + 1 < 2^32) : r.readMultiBuffer parser fresh =
      ({r with numChunk := r.numChunk + 1} : ChunkStreamReader).readSize parser >>= fun done =>
        match done.1 with
        | .error e => .ok (.error e,done.2)
        | .ok nextSize =>
          if nextSize = 0 then .ok (.error ⟨.unexpectedEof,"zero size chunk"⟩,done.2) else .ok (done.2.readData fresh nextSize.toNat) := by
  have counts : ¬ r.numChunk.toNat + 1 = 2^32 := by
    rw [stands.count]
    omega
  have unlimited : ¬ (0 < r.maxChunk ∧ r.maxChunk < r.numChunk + 1) := by
    rw [stands.unlimited]
    rintro ⟨impossible,-⟩
    exact absurd impossible (by decide)
  rw [ChunkStreamReader.readMultiBuffer,if_pos stands.left,if_neg counts]
  exact if_neg unlimited

end

theorem stands_counted (stands : Stands parser r left count sizes cur later text) (room : count + 1 < 2^32) :
    Stands parser {r with numChunk := r.numChunk + 1} left (count + 1) sizes cur later text := by
  refine ⟨stands.left,stands.unlimited,?_,stands.decoded,stands.holds⟩
  rw [UInt32.toNat_add,stands.count]
  exact Nat.mod_eq_of_lt room

theorem readSize_walks (stands : Stands parser r left count sizes cur later (parser.header sizes (.ofNat n) ++ rest)) (proper : Proper later)
    (small : n ≤ sliceSize) (encodes : parser.Encodes n) : match walkField parser.sizeBytes cur later with
    | none => r.readSize parser = .error (.panicked .sliceIndex)
    | some walked => ∃ next, r.readSize parser = .ok (.ok (.ofNat n),next) ∧ Stands parser next left count (sizes ++ [.ofNat n]) walked.1 walked.2 rest := by
  have width := SizeParser.header_length parser sizes (.ofNat n)
  have filled := BufferedReader.fill_walks true ⟨.unexpectedEof,"failed to fill whole buffer"⟩ stands.holds proper
  rw [width] at filled
  change BufferedReader.Filled (r.reader.readExact parser.sizeBytes) _ _ _ at filled
  generalize walkField parser.sizeBytes cur later = walked at filled
  cases filled with
  | panics overruns =>
    rw [ChunkStreamReader.readSize,overruns]
    rfl
  | read after returned holds =>
    have decoded := SizeParser.decode_header small encodes sizes
    refine ⟨{r with reader := after,decoded := r.decoded ++ [parser.header sizes (.ofNat n)]},?_,⟨stands.left,stands.unlimited,stands.count,?_,holds⟩⟩
    · rw [ChunkStreamReader.readSize,returned]
      change parser.decode r.decoded _ >>= _ = _
      rw [stands.decoded,decoded]
      rfl
    · rw [stands.decoded,outputs_concat,List.nil_append]

theorem small_nonzero (small : n ≤ sliceSize) (positive : 0 < n) : UInt16.ofNat n ≠ 0 := by
  intro zero
  have same := congrArg UInt16.toNat zero
  rw [SizeParser.small_toNat small] at same
  change n = 0 at same
  omega

section
variable (stands : Stands parser r 0 count sizes cur later (parser.header sizes (.ofNat n) ++ rest)) (proper : Proper later) (small : n ≤ sliceSize)
include stands proper small

theorem opens_panics (encodes : parser.Encodes n) (room : count + 1 < 2^32) (overruns : walkField parser.sizeBytes cur later = none) :
    r.readMultiBuffer parser fresh = .error (.panicked .sliceIndex) := by
  have size := readSize_walks (stands_counted stands room) proper small encodes
  rw [overruns] at size
  rw [stands_sizes_first stands room,size]
  rfl

theorem opens_walks (positive : 0 < n) (encodes : parser.Encodes n) (room : count + 1 < 2^32)
    (walks : walkField parser.sizeBytes cur later = some walked) : ∃ next, r.readMultiBuffer parser fresh = .ok (next.readData fresh n) ∧
      Stands parser next 0 (count + 1) (sizes ++ [.ofNat n]) walked.1 walked.2 rest := by
  have size := readSize_walks (stands_counted stands room) proper small encodes
  rw [walks] at size
  obtain ⟨next,read,after⟩ := size
  refine ⟨next,?_,after⟩
  rw [stands_sizes_first stands room,read,ok_bind]
  dsimp only
  rw [if_neg (small_nonzero small positive),SizeParser.small_toNat small]

end

theorem goes_on (stands : Stands parser r left count sizes cur later text) (some : left ≠ 0) :
    r.readMultiBuffer parser fresh = .ok (r.readData fresh left) := by
  rw [ChunkStreamReader.readMultiBuffer,stands.left,if_neg some]

theorem readData_returns {r : ChunkStreamReader} (returned : r.reader.readAtMost fresh n = (.ok mb,after)) (some : mb.bytes ≠ []) :
    r.readData fresh n = (.ok mb,{r with reader := after,leftoverSize := n - mb.bytes.length}) := by
  have full : ¬ mb.isEmpty = true := by
    rw [MultiBuffer.isEmpty_iff]
    exact some ∘ MultiBuffer.empty_bytes
  rw [ChunkStreamReader.readData,returned]
  dsimp only
  rw [if_neg full,MultiBuffer.bytes_length]

theorem data_inside (stands : Stands parser r left count sizes cur later (chunk ++ rest)) (some : chunk ≠ []) (inside : chunk.length ≤ cur.sum) :
    ∃ mb next, r.readData fresh chunk.length = (.ok mb,next) ∧ mb.bytes = chunk ∧
      Stands parser next 0 count sizes (behindLens chunk.length cur) later rest := by
  obtain ⟨mb,after,returned,bytes,holds⟩ := BufferedReader.atMost_inside stands.holds inside fresh
  refine ⟨mb,_,readData_returns returned (by rwa [bytes]),bytes,⟨?_,stands.unlimited,stands.count,stands.decoded,holds⟩⟩
  rw [bytes,Nat.sub_self]

theorem data_fetches (fresh) (stands : Stands parser r left count sizes cur (piece :: later) text) (beyond : cur.sum < n) (some : piece.sum ≠ 0)
    (enough : cur.sum + piece.sum ≤ text.length) : ∃ mb next, r.readData fresh n = (.ok mb,next) ∧ mb.bytes = (text.take (cur.sum + piece.sum)).take n ∧
      Stands parser next (n - (cur.sum + piece.sum)) count sizes [] later (text.drop (cur.sum + piece.sum)) := by
  obtain ⟨mb,after,returned,bytes,holds⟩ := BufferedReader.atMost_fetches stands.holds beyond fresh
  have width : mb.bytes.length = min n (cur.sum + piece.sum) := by
    rw [bytes,length_take,length_take,Nat.min_eq_left enough]
  have positive : mb.bytes ≠ [] := by
    intro none
    rw [none,length_nil] at width
    omega
  refine ⟨mb,_,readData_returns returned positive,bytes,⟨?_,stands.unlimited,stands.count,stands.decoded,holds⟩⟩
  change n - mb.bytes.length = _
  omega

def lostBehind : Nat → List Nat → List (List Nat) → Nat
  | _,_,[] => 0
  | n,cur,piece :: later =>
    if cur.sum + piece.sum ≤ n then lostBehind (n - cur.sum - piece.sum) [] later else cur.sum + piece.sum - n

theorem walkData_inside (inside : n ≤ cur.sum) (later) : walkData n cur later = some (behindLens n cur,later) := by
  cases later with
  | nil | cons piece later => exact if_pos inside

theorem walkData_whole (beyond : cur.sum < n) (whole : cur.sum + piece.sum ≤ n) :
    walkData n cur (piece :: later) = walkData (n - (cur.sum + piece.sum)) [] later := by
  rw [walkData,if_neg (by omega),if_pos whole,Nat.sub_sub]

theorem walkData_loses (beyond : cur.sum < n) (more : n < cur.sum + piece.sum) (later) : walkData n cur (piece :: later) = none := by
  rw [walkData,if_neg (by omega),if_neg (by omega)]

theorem lostBehind_whole (whole : cur.sum + piece.sum ≤ n) : lostBehind n cur (piece :: later) = lostBehind (n - (cur.sum + piece.sum)) [] later := by
  rw [lostBehind,if_pos whole,Nat.sub_sub]

theorem lostBehind_loses (more : n < cur.sum + piece.sum) (later) : lostBehind n cur (piece :: later) = cur.sum + piece.sum - n := by
  rw [lostBehind,if_neg (by omega)]

inductive Delivered (parser : SizeParser) (fresh : Block) (outcome : Except IoError MultiBuffer × ChunkStreamReader) (count : Nat)
    (sizes : List UInt16) (chunk rest : Bytes) (lost : Nat) : Option (List Nat × List (List Nat)) → Prop where
  | whole (next : ChunkStreamReader) (stands : Stands parser next 0 count sizes cur later rest) (proper : Proper later)
      (goes : ∀ bytes e last, Continues parser fresh (.ok outcome) (chunk ++ bytes) e last ↔ Drains parser fresh next bytes e last) :
      Delivered parser fresh outcome count sizes chunk rest lost (some (cur,later))
  | loses (next : ChunkStreamReader) (stands : Stands parser next 0 count sizes cur later (rest.drop lost)) (proper : Proper later)
      (positive : 0 < lost) (inside : lost ≤ rest.length)
      (goes : ∀ bytes e last, Continues parser fresh (.ok outcome) (chunk ++ bytes) e last ↔ Drains parser fresh next bytes e last) :
      Delivered parser fresh outcome count sizes chunk rest lost none

theorem continues_single (returned : outcome = (.ok mb,next)) (bytes : mb.bytes = chunk) (tail e last) :
    Continues parser fresh (.ok outcome) (chunk ++ tail) e last ↔ Drains parser fresh next tail e last := by
  rw [returned]
  constructor
  · rintro ⟨rest,split,drains⟩
    rw [bytes] at split
    rwa [List.append_cancel_left split]
  · intro drains
    exact ⟨tail,by rw [bytes],drains⟩

theorem delivered_behind (returned : outcome = (.ok mb,next)) (bytes : mb.bytes = front) (same : ∀ bytes e last,
      Drains parser fresh next bytes e last ↔ Continues parser fresh (.ok later) bytes e last)
    (delivered : Delivered parser fresh later count sizes chunk rest lost walked) :
    Delivered parser fresh outcome count sizes (front ++ chunk) rest lost walked := by
  have ahead : ∀ tail e last, Continues parser fresh (.ok outcome) (front ++ chunk ++ tail) e last ↔
      Continues parser fresh (.ok later) (chunk ++ tail) e last := by
    intro tail e last
    rw [← same,append_assoc]
    exact continues_single returned bytes _ e last
  cases delivered with
  | whole last stands proper goes => exact .whole last stands proper fun bytes e ending => (ahead bytes e ending).trans (goes bytes e ending)
  | loses last stands proper positive inside goes =>
    exact .loses last stands proper positive inside fun bytes e ending => (ahead bytes e ending).trans (goes bytes e ending)

theorem delivered_inside (stands : Stands parser r left count sizes cur later (chunk ++ rest)) (some : chunk ≠ [])
    (proper : Proper later) (inside : chunk.length ≤ cur.sum) :
    Delivered parser fresh (r.readData fresh chunk.length) count sizes chunk rest lost (walkData chunk.length cur later) := by
  obtain ⟨mb,next,returned,bytes,after⟩ := data_inside stands some inside
  rw [walkData_inside inside]
  exact .whole next after proper (continues_single returned bytes)

theorem delivered_loses {r : ChunkStreamReader} (returned : r.readData fresh chunk.length = (.ok mb,next))
    (bytes : mb.bytes = ((chunk ++ rest).take n).take chunk.length)
    (after : Stands parser next (chunk.length - n) count sizes [] later ((chunk ++ rest).drop n)) (proper : Proper later)
    (longer : chunk.length < n) (enough : n ≤ (chunk ++ rest).length) :
    Delivered parser fresh (r.readData fresh chunk.length) count sizes chunk rest (n - chunk.length) none := by
  rw [List.take_take,Nat.min_eq_left (by omega),List.take_left] at bytes
  rw [List.drop_append,List.drop_of_length_le (by omega),Nat.sub_eq_zero_of_le (by omega)] at after
  rw [length_append] at enough
  exact .loses next after proper (by omega) (by omega) (continues_single returned bytes)

theorem data_delivered (fresh) (stands : Stands parser r left count sizes cur later (chunk ++ rest)) (some : chunk ≠ []) (proper : Proper later) :
    Delivered parser fresh (r.readData fresh chunk.length) count sizes chunk rest (lostBehind chunk.length cur later)
      (walkData chunk.length cur later) := by
  induction later generalizing r left cur chunk with
  | nil =>
    have all := holds_length stands.holds
    simp only [length_append,List.map_nil,List.sum_nil] at all
    exact delivered_inside stands some proper (by omega)
  | cons piece later ih =>
    by_cases inside : chunk.length ≤ cur.sum
    · exact delivered_inside stands some proper inside
    have beyond := Nat.lt_of_not_le inside
    have fetched := proper piece (mem_cons_self ..)
    have later_proper := proper_tail proper
    have enough : cur.sum + piece.sum ≤ (chunk ++ rest).length := by
      rw [holds_length stands.holds,map_cons,sum_cons]
      omega
    obtain ⟨mb,next,returned,bytes,after⟩ := data_fetches fresh stands beyond fetched enough
    by_cases whole : cur.sum + piece.sum ≤ chunk.length
    · rw [walkData_whole beyond whole,lostBehind_whole whole]
      rw [List.take_append_of_le_length whole,List.take_of_length_le (by rw [length_take]; omega)] at bytes
      rw [List.drop_append_of_le_length whole] at after
      by_cases exactly : cur.sum + piece.sum = chunk.length
      · rw [exactly,Nat.sub_self,List.drop_length,List.nil_append] at after
        rw [exactly,List.take_length] at bytes
        rw [exactly,Nat.sub_self,walkData_inside (Nat.zero_le _)]
        exact .whole next after later_proper (continues_single returned bytes)
      · have left : chunk.length - (cur.sum + piece.sum) ≠ 0 := by omega
        have width : (chunk.drop _).length = chunk.length - (cur.sum + piece.sum) := length_drop
        have more : chunk.drop (cur.sum + piece.sum) ≠ [] := by
          intro none
          rw [none,length_nil] at width
          omega
        have delivered := ih after more later_proper
        rw [width] at delivered
        have behind := delivered_behind returned bytes (fun tail e last => by
          rw [drains_iff,goes_on after left]) delivered
        rwa [take_append_drop] at behind
    · have longer := Nat.lt_of_not_le whole
      rw [walkData_loses beyond longer,lostBehind_loses longer]
      exact delivered_loses returned bytes after later_proper longer enough

theorem stands_ended (stands : Stands parser r 0 count sizes cur later []) (proper : Proper later) (room : count + 1 < 2^32) :
    ∃ e last, Drains parser fresh r [] e last ∧ e.kind = .unexpectedEof ∧ last.reader.reader.coming = [] ∧ last.reader.buf.totalLen = 0 := by
  obtain ⟨after,missing,coming,empty⟩ := BufferedReader.fill_ended true ⟨.unexpectedEof,"failed to fill whole buffer"⟩ stands.holds proper
    parser.sizeBytes_positive
  refine ⟨⟨.unexpectedEof,"failed to fill whole buffer"⟩,{r with reader := after,numChunk := r.numChunk + 1},.ends ?_,rfl,coming,empty⟩
  change r.reader.readExact parser.sizeBytes = _ at missing
  rw [stands_sizes_first stands room,ChunkStreamReader.readSize]
  rw [missing]
  rfl

theorem frames_cons (enough : n ≤ text.length) : frames parser sizes (cutAt (n :: lens) text) =
      parser.header sizes (.ofNat n) ++ (text.take n ++ frames parser (sizes ++ [.ofNat n]) (cutAt lens (text.drop n))) := by
  have width : (text.take n).length = n := by
    rw [length_take]
    omega
  rw [cutAt,frames,width,append_assoc]

theorem walk_drains (stands : Stands parser r 0 count sizes cur later (frames parser sizes (cutAt lens text)))
    (proper : Proper later) (within : ∀ n ∈ lens, (0 < n ∧ n ≤ sliceSize) ∧ parser.Encodes n) (whole : text.length = lens.sum)
    (room : count + lens.length + 1 < 2^32) (walks : (walk parser.sizeBytes lens cur later).isSome) :
    ∃ e last, Drains parser fresh r text e last ∧ e.kind = .unexpectedEof ∧ last.reader.reader.coming = [] ∧ last.reader.buf.totalLen = 0 := by
  induction lens generalizing r count sizes cur later text with
  | nil =>
    have none := List.eq_nil_of_length_eq_zero whole
    subst none
    exact stands_ended stands proper (by simpa using room)
  | cons n lens ih =>
    obtain ⟨⟨positive,small⟩,encodes⟩ := within n (mem_cons_self ..)
    rw [length_cons] at room
    rw [sum_cons] at whole
    have width : (text.take n).length = n := by
      rw [length_take]
      omega
    have some : text.take n ≠ [] := by
      intro none
      rw [none,length_nil] at width
      omega
    rw [frames_cons (by omega)] at stands
    rw [walk] at walks
    cases field : walkField parser.sizeBytes cur later with
    | none =>
      rw [field] at walks
      cases walks
    | some walked =>
      obtain ⟨next,opened,behind⟩ := opens_walks stands proper small positive encodes (by omega) field
      have later_proper := walkField_proper proper field
      have delivered := data_delivered fresh behind some later_proper
      rw [field] at walks
      dsimp only at walks
      rw [width] at delivered
      generalize walkData n walked.1 walked.2 = reached at delivered walks
      cases delivered with
      | loses => cases walks
      | whole after stands proper goes =>
        obtain ⟨e,last,drains,ended⟩ := ih stands proper (fun m found => within m (mem_cons_of_mem _ found))
          (by rw [length_drop]; omega) (by omega) walks
        refine ⟨e,last,drains_iff.mpr ?_,ended⟩
        have whole := (goes _ e last).mpr drains
        rwa [take_append_drop,← opened] at whole

theorem data_first {r : ChunkStreamReader} (holds : Holds r.reader cur later rest)
    (continues : Continues parser fresh (.ok (r.readData fresh n)) bytes e last) : bytes = [] ∨ bytes.head? = rest.head? := by
  rw [ChunkStreamReader.readData] at continues
  rcases taken : r.reader.readAtMost fresh n with ⟨result,after⟩
  rw [taken] at continues
  cases result with
  | error failed => exact .inl continues.1
  | ok mb =>
    dsimp only at continues
    split at continues
    · exact .inl continues.1
    rename_i some
    obtain ⟨tail,rfl,-⟩ := continues
    obtain ⟨beyond,rfl⟩ := BufferedReader.atMost_front holds taken
    have nonempty : mb.bytes ≠ [] := by
      intro none
      apply some
      rw [MultiBuffer.isEmpty_iff,← MultiBuffer.bytes_length,none]
      rfl
    right
    rw [List.head?_append_of_ne_nil _ nonempty,List.head?_append_of_ne_nil _ nonempty]

theorem first_byte (stands : Stands parser r 0 count sizes cur later text) (proper : Proper later)
    (drains : Drains parser fresh r bytes e last) : bytes = [] ∨ bytes.head? = (text.drop parser.sizeBytes).head? := by
  have room := drains_room stands drains
  rw [drains_iff,stands_sizes_first stands room,ChunkStreamReader.readSize] at drains
  cases filled : r.reader.readExact parser.sizeBytes with
  | error fault =>
    rw [filled] at drains
    exact drains.elim
  | ok done =>
    rcases done with ⟨field,after⟩
    rw [filled] at drains
    cases field with
    | error failed => exact .inl drains.1
    | ok field =>
      obtain ⟨width,cur,later,rest,rfl,holds,-⟩ := BufferedReader.fill_takes stands.holds proper filled
      rw [← width,List.drop_left]
      change Continues parser fresh ((parser.decode r.decoded field >>= _) >>= _) bytes e last at drains
      cases decoded : parser.decode r.decoded field with
      | error fault =>
        rw [decoded] at drains
        exact drains.elim
      | ok size =>
        rw [decoded] at drains
        cases size with
        | error failed => exact .inl drains.1
        | ok size =>
          change Continues parser fresh (if size = 0 then _ else _) bytes e last at drains
          split at drains
          · exact .inl drains.1
          · exact @data_first parser fresh cur later rest size.toNat bytes e last ⟨_,after,_,_,_⟩ holds drains

-- Where bytes were lost before a chunk, what comes out next does not depend on the chunk's first byte: it is lost itself or
-- taken for a part of a size field.
theorem lost_first (stands : Stands parser r 0 count sizes cur later ((frames parser sizes (cutAt (m :: lens) (first :: tail))).drop lost))
    (proper : Proper later) (positive : 0 < lost) (some : 0 < m) (inside : m ≤ tail.length + 1) (drains : Drains parser fresh r (first :: tail) e last) :
    Option.some first = ((tail.take (m - 1) ++ frames parser (sizes ++ [.ofNat m]) (cutAt lens (tail.drop (m - 1)))).drop (lost - 1)).head? := by
  obtain ⟨m,rfl⟩ := Nat.exists_eq_succ_of_ne_zero (Nat.ne_of_gt some)
  obtain ⟨lost,rfl⟩ := Nat.exists_eq_succ_of_ne_zero (Nat.ne_of_gt positive)
  have width := SizeParser.header_length parser sizes (.ofNat (m + 1))
  rcases first_byte stands proper drains with none | head
  · cases none
  · rw [frames_cons (by rw [length_cons]; omega),List.drop_drop,Nat.add_comm,← width,List.drop_length_add_append] at head
    exact head

-- So not every text can come out behind such a loss: two that differ in that byte only would have to agree.
theorem lost_impossible (within : ∀ n ∈ lens, 0 < n) (delivered : ∀ text, text.length = lens.sum → ∃ outcome e last,
      Delivered parser fresh outcome count sizes chunk (frames parser sizes (cutAt lens text)) lost none ∧
      Continues parser fresh (.ok outcome) (chunk ++ text) e last) : False := by
  cases lens with
  | nil =>
    obtain ⟨outcome,e,last,loses,-⟩ := delivered [] rfl
    cases loses with
    | loses next stands proper positive inside goes => exact absurd inside (by simp [cutAt,frames]; omega)
  | cons m lens =>
    have some := within m (mem_cons_self ..)
    let tail : Bytes := replicate (m + lens.sum - 1) 0
    have width : tail.length = m + lens.sum - 1 := length_replicate
    have comes : ∀ first, Option.some first =
        ((tail.take (m - 1) ++ frames parser (sizes ++ [.ofNat m]) (cutAt lens (tail.drop (m - 1)))).drop (lost - 1)).head? := by
      intro first
      have whole : (first :: tail).length = (m :: lens).sum := by
        rw [length_cons,sum_cons]
        omega
      obtain ⟨outcome,e,last,loses,continues⟩ := delivered _ whole
      cases loses with
      | loses next stands proper positive inside goes =>
        exact lost_first stands proper positive some (by omega) ((goes _ e last).mp continues)
    have zero := comes 0
    rw [← comes 1] at zero
    cases zero

-- Readers for every text of so many bytes, each of which stands before its chunks and gives its text.
structure Gives (parser : SizeParser) (fresh : Block) (family : Bytes → ChunkStreamReader) (count : Nat) (sizes : List UInt16) (cur : List Nat)
    (later : List (List Nat)) (lens : List Nat) : Prop where
  stands : ∀ text, text.length = lens.sum → Stands parser (family text) 0 count sizes cur later (frames parser sizes (cutAt lens text))
  drains : ∀ text, text.length = lens.sum → ∃ e last, Drains parser fresh (family text) text e last

theorem Gives.room (gives : Gives parser fresh family count sizes cur later lens) : count + 1 < 2^32 := by
  have zeros : (replicate lens.sum (0 : UInt8)).length = lens.sum := length_replicate
  obtain ⟨e,last,drained⟩ := gives.drains _ zeros
  exact drains_room (gives.stands _ zeros) drained

section
variable (gives : Gives parser fresh family count sizes cur later (n :: lens))
include gives

theorem Gives.framed (width : chunk.length = n) (whole : text.length = lens.sum) : Stands parser (family (chunk ++ text)) 0 count sizes cur later
      (parser.header sizes (.ofNat n) ++ (chunk ++ frames parser (sizes ++ [.ofNat n]) (cutAt lens text))) := by
  have all : (chunk ++ text).length = (n :: lens).sum := by rw [length_append,sum_cons,width,whole]
  have here := gives.stands _ all
  rwa [frames_cons (by rw [length_append]; omega),List.take_left' width,List.drop_left' width] at here

theorem Gives.field (proper : Proper later) (small : n ≤ sliceSize)
    (encodes : parser.Encodes n) : ∃ walked, walkField parser.sizeBytes cur later = some walked := by
  cases field : walkField parser.sizeBytes cur later with
  | some walked => exact ⟨walked,rfl⟩
  | none =>
    have zeros : (replicate lens.sum (0 : UInt8)).length = lens.sum := length_replicate
    have front : (replicate n (0 : UInt8)).length = n := length_replicate
    obtain ⟨e,last,drained⟩ := gives.drains (replicate n 0 ++ replicate lens.sum 0) (by simp)
    rw [drains_iff,opens_panics (gives.framed front zeros) proper small encodes gives.room field] at drained
    exact drained.elim

theorem Gives.delivered (proper : Proper later) (small : n ≤ sliceSize)
    (positive : 0 < n) (encodes : parser.Encodes n) (field : walkField parser.sizeBytes cur later = some walked) (whole : text.length = lens.sum) :
    ∃ outcome e last, Delivered parser fresh outcome (count + 1) (sizes ++ [.ofNat n]) (List.replicate n 0)
        (frames parser (sizes ++ [.ofNat n]) (cutAt lens text)) (lostBehind n walked.1 walked.2) (walkData n walked.1 walked.2) ∧
      Continues parser fresh (.ok outcome) (List.replicate n 0 ++ text) e last := by
  have front : (replicate n (0 : UInt8)).length = n := length_replicate
  have some : replicate n (0 : UInt8) ≠ [] := by
    rw [Ne,List.replicate_eq_nil_iff]
    omega
  obtain ⟨next,opened,behind⟩ := opens_walks (gives.framed front whole) proper small positive encodes gives.room field
  obtain ⟨e,last,drained⟩ := gives.drains (replicate n 0 ++ text) (by simp [whole])
  have chunk := data_delivered fresh behind some (walkField_proper proper field)
  rw [front] at chunk
  rw [drains_iff,opened] at drained
  exact ⟨_,e,last,chunk,drained⟩

end

theorem gives_next (family : Bytes → ChunkStreamReader) (delivered : ∀ text, text.length = lens.sum → ∃ outcome e last,
      Delivered parser fresh outcome count sizes chunk (frames parser sizes (cutAt lens text)) lost (some reached) ∧
      Continues parser fresh (.ok outcome) (chunk ++ text) e last) :
    ∃ readers, Gives parser fresh readers count sizes reached.1 reached.2 lens ∧ Proper reached.2 := by
  have next : ∀ text, ∃ r, text.length = lens.sum → Stands parser r 0 count sizes reached.1 reached.2 (frames parser sizes (cutAt lens text)) ∧
      Proper reached.2 ∧ ∃ e last, Drains parser fresh r text e last := by
    intro text
    by_cases whole : text.length = lens.sum
    · obtain ⟨outcome,e,last,delivered,continues⟩ := delivered text whole
      cases delivered with
      | whole after stands proper goes => exact ⟨after,fun _ => ⟨stands,proper,e,last,(goes text e last).mp continues⟩⟩
    · exact ⟨family [],fun same => absurd same whole⟩
  obtain ⟨readers,after⟩ := Classical.skolem.mp next
  exact ⟨readers,⟨fun text whole => (after text whole).1,fun text whole => (after text whole).2.2⟩,(after (replicate lens.sum 0) length_replicate).2.1⟩

theorem drains_walk (gives : Gives parser fresh family count sizes cur later lens)
    (within : ∀ n ∈ lens, (0 < n ∧ n ≤ sliceSize) ∧ parser.Encodes n) (proper : Proper later) :
    count + lens.length + 1 < 2^32 ∧ (walk parser.sizeBytes lens cur later).isSome := by
  induction lens generalizing family count sizes cur later with
  | nil => exact ⟨gives.room,rfl⟩
  | cons n lens ih =>
    obtain ⟨⟨⟨positive,small⟩,encodes⟩,smaller⟩ := List.forall_mem_cons.mp within
    obtain ⟨walked,field⟩ := gives.field proper small encodes
    have delivered := fun (text : Bytes) (whole : text.length = lens.sum) => gives.delivered proper small positive encodes field whole
    rw [walk,field]
    dsimp only
    generalize walkData n walked.1 walked.2 = reached at delivered
    cases reached with
    | none => exact (lost_impossible (fun m found => (smaller m found).1.1) delivered).elim
    | some reached =>
      obtain ⟨readers,behind,reached_proper⟩ := gives_next family delivered
      obtain ⟨room,walks⟩ := ih behind smaller reached_proper
      refine ⟨?_,walks⟩
      rw [length_cons]
      omega

def buffersOf (lens : List Nat) (text : Bytes) : List Buffer := (cutAt lens text).map (.fromSlice (.zero SIZE))

def piecesOf : List (List Nat) → Bytes → List MultiBuffer
  | [],_ => []
  | piece :: rest,text => .of (buffersOf piece (text.take piece.sum)) :: piecesOf rest (text.drop piece.sum)

theorem buffersOf_lengths (bounded : ∀ n ∈ lens, n ≤ SIZE) (enough : lens.sum ≤ text.length) : lengths (buffersOf lens text) = lens := by
  have cut := cutAt_lengths enough
  rw [buffersOf,lengths,map_map]
  refine (List.map_congr_left fun piece found => Buffer.fromSlice_len _ (bounded _ ?_)).trans cut
  rw [← cut]
  exact List.mem_map_of_mem found

theorem buffersOf_bytes (bounded : ∀ n ∈ lens, n ≤ SIZE) (whole : lens.sum = text.length) : bytesOf (buffersOf lens text) = text := by
  induction lens generalizing text with
  | nil => exact (List.eq_nil_of_length_eq_zero whole.symm).symm
  | cons n lens ih =>
    rw [sum_cons] at whole
    have short : (text.take n).length ≤ SIZE := Nat.le_trans (List.length_take_le ..) (bounded n (mem_cons_self ..))
    have rest := @ih (text.drop n) (fun m found => bounded m (mem_cons_of_mem _ found)) (by rw [length_drop]; omega)
    change bytesOf (Buffer.fromSlice (.zero SIZE) (text.take n) :: buffersOf lens (text.drop n)) = _
    rw [bytesOf_cons,rest,Buffer.fromSlice_bytes,List.take_of_length_le short,take_append_drop]

theorem piecesOf_facts (bounded : ∀ piece ∈ shape, ∀ n ∈ piece, n ≤ SIZE) (whole : (shape.map List.sum).sum = text.length) :
    ((piecesOf shape text).map fun p => lengths p.bufs) = shape ∧ (piecesOf shape text).flatMap MultiBuffer.bytes = text := by
  induction shape generalizing text with
  | nil => exact ⟨rfl,(List.eq_nil_of_length_eq_zero whole.symm).symm⟩
  | cons piece shape ih =>
    rw [map_cons,sum_cons] at whole
    have width : (text.take piece.sum).length = piece.sum := by
      rw [length_take]
      omega
    have here := bounded piece (mem_cons_self ..)
    obtain ⟨lens,bytes⟩ := @ih (text.drop piece.sum) (fun p found => bounded p (mem_cons_of_mem _ found)) (by rw [length_drop]; omega)
    rw [piecesOf,map_cons,List.flatMap_cons,MultiBuffer.of_bufs,MultiBuffer.of_bytes,lens,bytes,
      buffersOf_lengths here (by omega),buffersOf_bytes here width.symm,take_append_drop]
    exact ⟨rfl,rfl⟩

theorem frames_length : (frames parser sizes chunks).length = (chunks.map List.length).sum + chunks.length * parser.sizeBytes := by
  induction chunks generalizing sizes with
  | nil => simp [frames]
  | cons chunk rest ih =>
    rw [frames,length_append,length_append,SizeParser.header_length,ih,map_cons,sum_cons,length_cons,Nat.add_mul]
    omega

-- The lengths of the MultiBuffers that are written, none of them empty, and those of the buffers in the MultiBuffers in
-- which the inner reader returns the resulting bytes.
structure Layout (parser : SizeParser) where
  lens : List Nat
  shape : List (List Nat)
  written : ∀ n ∈ lens, 0 < n
  proper : Proper shape
  bounded : ∀ piece ∈ shape, ∀ n ∈ piece, n ≤ SIZE
  whole : (shape.map List.sum).sum = (chunkLens lens).sum + (chunkLens lens).length * parser.sizeBytes

theorem chunkLens_within (found : n ∈ chunkLens lens) : 0 < n ∧ n ≤ sliceSize := by
  obtain ⟨m,-,inside⟩ := List.mem_flatMap.mp found
  exact slices_within inside

theorem chunkLens_sum : (chunkLens lens).sum = lens.sum := by
  induction lens with
  | nil => rfl
  | cons n lens ih =>
    change (slices n n ++ chunkLens lens).sum = _
    rw [List.sum_append,slices_sum (Nat.le_refl n),ih,sum_cons]

theorem written_exists (whole : lens.sum = text.length) : ∃ written : List MultiBuffer,
    written.map MultiBuffer.totalLen = lens ∧ written.flatMap MultiBuffer.bytes = text := by
  have bounded : ∀ piece ∈ lens.map (fun n => slices n n), ∀ n ∈ piece, n ≤ SIZE := by
    intro piece found n inside
    obtain ⟨m,-,rfl⟩ := List.mem_map.mp found
    exact (slices_within inside).2
  have sums : (lens.map fun n => slices n n).map sum = lens := by
    rw [map_map]
    exact (List.map_congr_left fun n _ => slices_sum (Nat.le_refl n)).trans (List.map_id lens)
  obtain ⟨shape,bytes⟩ := @piecesOf_facts (lens.map fun n => slices n n) text bounded (by rw [sums,whole])
  refine ⟨_,?_,bytes⟩
  have counts := congrArg (List.map sum) shape
  rw [sums,map_map] at counts
  have each : ∀ p ∈ piecesOf (lens.map fun n => slices n n) text, p.totalLen = (lengths p.bufs).sum := fun p _ => p.counted
  exact (List.map_congr_left each).trans counts

theorem stands_new (parser) (pieces : List MultiBuffer) :
    Stands parser (.new ⟨pieces.map .ok,[]⟩) 0 0 [] [] (pieces.map fun p => lengths p.bufs) (pieces.flatMap MultiBuffer.bytes) :=
  ⟨rfl,rfl,rfl,rfl,⟨.new,pieces,[],rfl,rfl,rfl,rfl⟩⟩

theorem trips_encode (writes : ∀ written, written.map MultiBuffer.totalLen = lens → ∃ wire, writeAll parser fresh [] written = .ok wire) :
    ∀ n ∈ chunkLens lens, parser.Encodes n := by
  intro n found
  by_contra fails
  obtain ⟨written,same,-⟩ := @written_exists lens (replicate lens.sum 0) (by simp)
  obtain ⟨wire,done⟩ := writes written same
  rw [writeAll_overflows parser fresh written ⟨n,by rwa [same],fails⟩] at done
  cases done

section
variable (layout : Layout parser)

def Layout.reader (text : Bytes) : ChunkStreamReader :=
  .new ⟨(piecesOf layout.shape (frames parser [] (cutAt (chunkLens layout.lens) text))).map .ok,[]⟩

theorem Layout.pieces (whole : text.length = (chunkLens layout.lens).sum) :
    ((piecesOf layout.shape (frames parser [] (cutAt (chunkLens layout.lens) text))).map fun p => lengths p.bufs) = layout.shape ∧
      (piecesOf layout.shape (frames parser [] (cutAt (chunkLens layout.lens) text))).flatMap MultiBuffer.bytes =
        frames parser [] (cutAt (chunkLens layout.lens) text) := by
  have lens := cutAt_lengths (Nat.le_of_eq whole.symm)
  have counts := congrArg List.length lens
  rw [List.length_map] at counts
  apply piecesOf_facts layout.bounded
  rw [frames_length,lens,layout.whole,counts]

theorem Layout.stands (whole : text.length = (chunkLens layout.lens).sum) :
    Stands parser (layout.reader text) 0 0 [] [] layout.shape (frames parser [] (cutAt (chunkLens layout.lens) text)) := by
  obtain ⟨shape,bytes⟩ := layout.pieces whole
  have new := stands_new parser (piecesOf layout.shape (frames parser [] (cutAt (chunkLens layout.lens) text)))
  rwa [shape,bytes] at new

end

theorem chunk_stream_iff (parser : SizeParser) (fresh : Block) (layout : Layout parser) :
    (∀ written : List MultiBuffer, written.map MultiBuffer.totalLen = layout.lens → ∃ wire, writeAll parser fresh [] written = .ok wire ∧
      ∀ pieces : List MultiBuffer, (pieces.map fun p => lengths p.bufs) = layout.shape → pieces.flatMap MultiBuffer.bytes = wire →
        RoundTrips parser fresh written pieces) ↔
      (∀ n ∈ chunkLens layout.lens, parser.Encodes n) ∧ (chunkLens layout.lens).length + 1 < 2^32 ∧
        (walk parser.sizeBytes (chunkLens layout.lens) [] layout.shape).isSome := by
  constructor
  · intro trips
    have encodes := trips_encode fun written lens => ⟨_,(trips written lens).choose_spec.1⟩
    have drains : ∀ text, text.length = (chunkLens layout.lens).sum → ∃ e last, Drains parser fresh (layout.reader text) text e last := by
      intro text whole
      obtain ⟨shape,bytes⟩ := layout.pieces whole
      obtain ⟨written,lens,data⟩ := @written_exists layout.lens text (by rw [whole,chunkLens_sum])
      obtain ⟨wire,done,trip⟩ := trips written lens
      rw [writeAll_frames parser fresh written (by rwa [lens]),lens,data] at done
      cases done
      obtain ⟨e,last,drains,-⟩ := trip _ shape bytes
      rw [data] at drains
      exact ⟨e,last,drains⟩
    have walked := drains_walk ⟨fun text whole => layout.stands whole,drains⟩ (fun n found => ⟨chunkLens_within found,encodes n found⟩) layout.proper
    rw [Nat.zero_add] at walked
    exact ⟨encodes,walked⟩
  · rintro ⟨encodes,room,walks⟩ written lens
    refine ⟨_,writeAll_frames parser fresh written (by rwa [lens]) [],?_⟩
    intro pieces shape bytes
    have stands := stands_new parser pieces
    rw [shape,bytes,lens] at stands
    refine walk_drains stands layout.proper ?_ ?_ (by simpa using room) walks
    · intro n found
      exact ⟨chunkLens_within found,encodes n found⟩
    · simp [chunkLens_sum,lens,List.length_flatMap]

def wholeChunks : Layout .plain :=
  ⟨[2,3],[[4],[5]],by decide,by unfold Proper; decide,by decide,by decide⟩

def fiveBytes : List MultiBuffer := [.of [.fromSlice (.zero SIZE) [1,2]],.of [.fromSlice (.zero SIZE) [3,4,5]]]

theorem chunk_stream_whole : ∃ wire, writeAll .plain (.zero SIZE) [] fiveBytes = .ok wire ∧
    ∀ pieces : List MultiBuffer, (pieces.map fun p => lengths p.bufs) = [[4],[5]] → pieces.flatMap MultiBuffer.bytes = wire →
      RoundTrips .plain (.zero SIZE) fiveBytes pieces := by
  refine (chunk_stream_iff .plain (.zero SIZE) wholeChunks).mpr ⟨by decide,by decide,by decide⟩ fiveBytes ?_
  simp [fiveBytes,wholeChunks,Buffer.fromSlice_len (.zero SIZE) (show ([1,2] : Bytes).length ≤ SIZE by decide),
    Buffer.fromSlice_len (.zero SIZE) (show ([3,4,5] : Bytes).length ≤ SIZE by decide)]

def twoBytes : List MultiBuffer := [.of [.fromSlice (.zero SIZE) [1,2]]]
def splitField : List MultiBuffer := [.of [.fromSlice (.zero SIZE) [0],.fromSlice (.zero SIZE) [2,1,2]]]

theorem split_field_panics : writeAll .plain (.zero SIZE) [] twoBytes = .ok (splitField.flatMap MultiBuffer.bytes) ∧
    ¬ RoundTrips .plain (.zero SIZE) twoBytes splitField := by
  have total : twoBytes.map MultiBuffer.totalLen = [2] := by
    simp [twoBytes,Buffer.fromSlice_len (.zero SIZE) (show ([1,2] : Bytes).length ≤ SIZE by decide)]
  refine ⟨?_,?_⟩
  · rw [writeAll_frames .plain (.zero SIZE) twoBytes (fun _ _ => trivial)]
    rfl
  · rintro ⟨e,last,drains,-⟩
    have stands := stands_new .plain splitField
    rw [drains_iff] at drains
    exact drains

end AstraCore.ChunkStream
