import AstraCore.SplitRequest

namespace AstraCore.SplitHttp
open CheckedBytes LossyUtf8 TextScan LineReader NumberText List
open ByteStream (text_exists)
open PolledStream (Reading labelled labelled_ok fallible)

abbrev Chunk := {data : Bytes // data.length ≤ maxCapacity}

-- `stream_chunked`: every chunk behind the line with its size, and a size of zero at the end.
def sizeLine (n : Nat) : Text := upperHex n ++ crlf

def chunkText (chunk : Chunk) : Bytes := (sizeLine chunk.val.length).bytes ++ (chunk.val ++ crlf.bytes)

def chunksText (chunks : List Chunk) : Bytes := chunks.flatMap chunkText

def finalText : Bytes := Text.bytes ['0','\r','\n','\r','\n']

def streamChunked (chunks : List Chunk) : Bytes := chunksText chunks ++ finalText

def chunkSize (line : Text) : Except String (Option Nat) :=
  let chunkSizeStr := trim line
  if chunkSizeStr = [] then .ok none
  else
    match fromStrRadix 16 maxU64 chunkSizeStr with
    | .ok size => .ok (some size)
    | .error e => .error ("parse chunk size '" ++ String.ofList chunkSizeStr ++ "': " ++ e)

-- `let _ = reader.read_line(..)`: whatever comes of it, the line is gone.
def skipLine (reader : Buffered) : Reading Buffered :=
  match readUntil reader with
  | .ok (_,later) => .ok later
  | .error (.error _) => .ok ⟨[],⟨[],reader.stream.ending⟩⟩
  | .error stop => .error stop

structure Body where
  delivered : List Bytes
  reader : Buffered

inductive Turn where
  | more (body : Body)
  | ends (body : Body)

-- What stands behind a line with a size. `accepts` says for each chunk whether the connection still takes it.
def readChunk (accepts : Nat → Bool) (delivered : List Bytes) (reader : Buffered) : Option Nat → Reading Turn
  | none => .ok (.more ⟨delivered,reader⟩)
  | some 0 => do
    let reader ← skipLine reader
    .ok (.ends ⟨delivered,reader⟩)
  | some (n + 1) => do
    zeroed (n + 1)
    let (chunk,reader) ← labelled "read chunk data: " (reader.readExact (n + 1))
    let reader ← skipLine reader
    if accepts delivered.length then .ok (.more ⟨delivered ++ [chunk],reader⟩) else .ok (.ends ⟨delivered,reader⟩)

def Body.turn (accepts : Nat → Bool) (body : Body) : Reading Turn := do
  let (line,reader) ← labelled "read chunk size: " (readLine body.reader)
  let size ← fallible (chunkSize line)
  readChunk accepts body.delivered reader size

def readChunkedBody (accepts : Nat → Bool) : (turns : Nat) → Body → Option (List Bytes × Reading Buffered)
  | 0,_ => none
  | turns + 1,body =>
    match body.turn accepts with
    | .ok (.more next) => readChunkedBody accepts turns next
    | .ok (.ends last) => some (last.delivered,.ok last.reader)
    | .error stop => some (body.delivered,.error stop)

def always : Nat → Bool := fun _ => true

section
variable (chunks : List Chunk)

-- However the bytes arrive, the loop delivers the chunks and ends behind the last byte; and as long as a byte is missing it
-- waits, with every chunk delivered that is there.
structure Transparent : Prop where
  complete : ∀ reader : Buffered, reader.text = streamChunked chunks →
    ∃ turns delivered later, readChunkedBody always turns ⟨[],reader⟩ = some (delivered,.ok later) ∧
      delivered.flatten = (chunks.map Subtype.val).flatten ∧ later.text = []
  open_ : ∀ (reader : Buffered) (missing : Bytes), reader.text ++ missing = streamChunked chunks → missing ≠ [] →
    reader.stream.ending = .stillOpen →
      ∃ turns delivered, readChunkedBody always turns ⟨[],reader⟩ = some (delivered,.error .waits) ∧ delivered <+: chunks.map Subtype.val ∧
        ∀ sent, chunksText sent <+: reader.text → sent <+: chunks → sent.map Subtype.val <+: delivered

theorem sizeLine_isLine (n) : IsLine (sizeLine n) := by
  apply isLine_ended
  intro inside
  exact absurd (upperHex_digits n _ inside) (by decide)

theorem hex_solid (digit : AddressText.isDigit 16 c = true) : isWhitespace c = false := by
  have range : 48 ≤ c.toNat ∧ c.toNat ≤ 102 := by
    simp only [AddressText.isDigit,decide_true,Bool.true_and,Bool.or_eq_true,Bool.and_eq_true,decide_eq_true_eq] at digit
    rcases digit with decimal | ⟨low,high⟩ | ⟨low,high⟩
    · have range := AddressText.digit_range decimal
      omega
    · exact ⟨Nat.le_trans (by decide) low,high⟩
    · exact ⟨Nat.le_trans (by decide) low,Nat.le_trans high (by decide)⟩
  simp only [isWhitespace,Bool.or_eq_false_iff,decide_eq_false_iff_not,beq_eq_false_iff_ne]
  omega

theorem chunkSize_written (small : n ≤ maxU64) : chunkSize (sizeLine n) = .ok (some n) := by
  have solid : ∀ c ∈ upperHex n, isWhitespace c = false := fun c inside => hex_solid (upperHex_digits n c inside)
  have trimmed : trim (sizeLine n) = upperHex n :=
    trim_ended (fun c first => solid c (mem_of_mem_head? first)) (fun c last => solid c (mem_of_mem_getLast? last))
      (all_eq_true.mp rfl)
  rw [chunkSize,trimmed,if_neg (upperHex_present n),fromStrRadix_upperHex small]

theorem turn_sized {body : Body} (read : readLine body.reader = .ok (line,reader)) (sized : chunkSize line = .ok size) :
    body.turn accepts = readChunk accepts body.delivered reader size := by
  rw [Body.turn,read,labelled_ok,ok_bind]
  dsimp only
  rw [sized]
  rfl

theorem skipLine_found (parts : reader.text = crlf.bytes ++ rest) :
    ∃ later, skipLine reader = .ok later ∧ later.text = rest ∧ later.stream.ending = reader.stream.ending := by
  have line : reader.text = [13] ++ newline :: rest := parts
  obtain ⟨later,read,text⟩ := readUntil_found line (by decide)
  exact ⟨later,by rw [skipLine,read],text,(readUntil_line read).ending⟩

theorem turn_final {body : Body} (accepts) (parts : body.reader.text = finalText ++ rest) :
    ∃ later, body.turn accepts = .ok (.ends ⟨body.delivered,later⟩) ∧ later.text = rest := by
  have lines := parts
  obtain ⟨middle,read,text,-⟩ := readLine_written (sizeLine_isLine 0) lines
  obtain ⟨later,skipped,behind,-⟩ := skipLine_found text
  refine ⟨later,?_,behind⟩
  rw [turn_sized read (chunkSize_written (Nat.zero_le _)),readChunk,skipped]
  rfl

theorem turn_chunk {body : Body} (chunk : Chunk) (present : chunk.val ≠ []) (accepted : accepts body.delivered.length = true)
    (parts : body.reader.text = chunkText chunk ++ rest) : ∃ later, body.turn accepts = .ok (.more ⟨body.delivered ++ [chunk.val],later⟩) ∧ later.text = rest ∧
      later.stream.ending = body.reader.stream.ending := by
  obtain ⟨n,width⟩ : ∃ n, chunk.val.length = n + 1 := Nat.exists_eq_add_one.mpr (length_pos_iff.mpr present)
  rw [chunkText,append_assoc,append_assoc] at parts
  obtain ⟨first,read,text,same⟩ := readLine_written (sizeLine_isLine _) parts
  obtain ⟨second,taken,behind,kept⟩ := Buffered.readExact_enough text width
  obtain ⟨later,skipped,left,last⟩ := skipLine_found behind
  have fits : ¬ maxCapacity < n + 1 := by
    omega
  refine ⟨later,?_,left,last.trans (kept.trans same)⟩
  rw [turn_sized read (chunkSize_written (Nat.le_trans chunk.property (by decide))),width,readChunk,zeroed,if_neg fits,ok_bind,taken,labelled_ok,ok_bind]
  dsimp only
  rw [skipped,ok_bind,if_pos accepted]

theorem skipLine_waits (rest : reader.text ++ missing = crlf.bytes) (lacking : missing ≠ [])
    (opened : reader.stream.ending = .stillOpen) : skipLine reader = .error .waits := by
  have clear : newline ∉ reader.text := by
    intro inside
    have bound := congrArg List.length rest
    rw [length_append,show crlf.bytes.length = 2 from rfl] at bound
    have some_ := length_pos_iff.mpr lacking
    cases shape : reader.text with
    | nil =>
      rw [shape] at inside
      cases inside
    | cons b more =>
      rw [shape,length_cons] at bound
      obtain rfl : more = [] := length_eq_zero_iff.mp (by omega)
      rw [shape] at rest inside
      cases (List.cons.inj (show b :: missing = 13 :: [10] from rest)).1
      exact absurd inside (by decide)
  rw [skipLine,readUntil_end clear,opened]
  rfl

theorem readChunk_waits (fits : data.length ≤ maxCapacity)
    (parts : reader.text ++ missing = data ++ crlf.bytes) (lacking : missing ≠ []) (opened : reader.stream.ending = .stillOpen) :
    readChunk accepts delivered reader (some data.length) = .error .waits := by
  cases width : data.length with
  | zero =>
    obtain rfl := length_eq_zero_iff.mp width
    rw [readChunk,skipLine_waits parts lacking opened]
    rfl
  | succ n =>
    rw [readChunk,zeroed,if_neg (show ¬ maxCapacity < n + 1 by omega),ok_bind]
    rcases part_or_whole parts with ⟨rest,some_,short⟩ | ⟨rest,enough,end_⟩
    · have less : reader.text.length < n + 1 := by
        have total := congrArg List.length short
        have positive := length_pos_iff.mpr some_
        rw [length_append] at total
        omega
      rw [Buffered.readExact_short less,opened]
      rfl
    · obtain ⟨later,taken,behind,kept⟩ := Buffered.readExact_enough enough width
      rw [taken,labelled_ok,ok_bind]
      dsimp only
      rw [skipLine_waits (by rw [behind]; exact end_) lacking (kept.trans opened)]
      rfl

theorem turn_waits {body : Body} (accepts data) (fits : data.length ≤ maxCapacity)
    (parts : body.reader.text ++ missing = (sizeLine data.length).bytes ++ (data ++ crlf.bytes)) (lacking : missing ≠ [])
    (opened : body.reader.stream.ending = .stillOpen) : body.turn accepts = .error .waits := by
  rcases part_or_whole parts with ⟨middle,present,whole⟩ | ⟨middle,whole,later⟩
  · rw [Body.turn,readLine_waits (sizeLine_isLine _) whole present opened]
    rfl
  · obtain ⟨first,read,text,same⟩ := readLine_written (sizeLine_isLine _) whole
    rw [turn_sized read (chunkSize_written (Nat.le_trans fits (by decide)))]
    exact readChunk_waits fits (by rw [text]; exact later) lacking (same.trans opened)

theorem readChunkedBody_more (goes : body.turn accepts = .ok (.more later)) (turns) :
    readChunkedBody accepts (turns + 1) body = readChunkedBody accepts turns later := by
  rw [readChunkedBody,goes]

theorem readChunkedBody_longer (stops : readChunkedBody accepts turns body = some result) (more) :
    readChunkedBody accepts (turns + more) body = some result := by
  induction turns generalizing body with
  | zero => cases stops
  | succ turns ih =>
    rw [Nat.succ_add,readChunkedBody]
    rw [readChunkedBody] at stops
    split at stops
    · exact ih stops
    · exact stops
    · exact stops

theorem readChunkedBody_unique (first : readChunkedBody accepts turns body = some result) (second : readChunkedBody accepts more body = some other) :
    result = other := by
  have one := readChunkedBody_longer first more
  have two := readChunkedBody_longer second turns
  rw [Nat.add_comm] at two
  exact Option.some.inj (one.symm.trans two)

theorem chunks_read (present : ∀ chunk ∈ chunks, chunk.val ≠ []) (delivered reader) (parts : reader.text = chunksText chunks ++ rest) :
    ∃ later, later.text = rest ∧ later.stream.ending = reader.stream.ending ∧ ∀ turns, readChunkedBody always (chunks.length + turns) ⟨delivered,reader⟩ =
        readChunkedBody always turns ⟨delivered ++ chunks.map Subtype.val,later⟩ := by
  induction chunks generalizing delivered reader with
  | nil => exact ⟨reader,parts,rfl,fun turns => by rw [length_nil,Nat.zero_add,map_nil,append_nil]⟩
  | cons chunk chunks ih =>
    rw [chunksText,flatMap_cons,append_assoc] at parts
    obtain ⟨middle,goes,text,same⟩ := @turn_chunk always _ ⟨delivered,reader⟩ chunk (present chunk (mem_cons_self ..)) rfl parts
    obtain ⟨later,behind,kept,rest⟩ := ih (fun other inside => present other (mem_cons_of_mem _ inside)) _ middle text
    refine ⟨later,behind,kept.trans same,fun turns => ?_⟩
    rw [length_cons,Nat.succ_add,readChunkedBody_more goes,rest turns,append_assoc]
    rfl

theorem final_read (accepts delivered) (parts : reader.text = finalText ++ rest) :
    ∃ later, readChunkedBody accepts 1 ⟨delivered,reader⟩ = some (delivered,.ok later) ∧ later.text = rest := by
  obtain ⟨later,goes,text⟩ := @turn_final _ ⟨delivered,reader⟩ accepts parts
  exact ⟨later,by rw [readChunkedBody,goes],text⟩

theorem body_complete (present : ∀ chunk ∈ chunks, chunk.val ≠ []) (reader) (parts : reader.text = chunksText chunks ++ (finalText ++ rest)) :
    ∃ turns later, readChunkedBody always turns ⟨[],reader⟩ = some (chunks.map Subtype.val,.ok later) ∧ later.text = rest := by
  obtain ⟨middle,text,-,goes⟩ := chunks_read chunks present [] reader parts
  obtain ⟨later,ends,behind⟩ := final_read always _ text
  exact ⟨chunks.length + 1,later,(goes 1).trans ends,behind⟩

theorem body_open (present : ∀ chunk ∈ chunks, chunk.val ≠ []) (delivered reader)
    (parts : reader.text ++ missing = chunksText chunks ++ finalText) (lacking : missing ≠ []) (opened : reader.stream.ending = .stillOpen) :
    ∃ turns got, readChunkedBody always turns ⟨delivered,reader⟩ = some (delivered ++ got,.error .waits) ∧ got <+: chunks.map Subtype.val ∧
      ∀ sent, chunksText sent <+: reader.text → sent <+: chunks → sent.map Subtype.val <+: got := by
  induction chunks generalizing delivered reader with
  | nil =>
    have waits : Body.turn always ⟨delivered,reader⟩ = .error .waits := turn_waits always [] (Nat.zero_le _) parts lacking opened
    refine ⟨1,[],by rw [readChunkedBody,waits,append_nil], nil_prefix,fun sent _ front => ?_⟩
    rw [prefix_nil.mp front]
    exact nil_prefix
  | cons chunk chunks ih =>
    rw [chunksText,flatMap_cons,append_assoc] at parts
    rcases part_or_whole parts with ⟨middle,some_,part⟩ | ⟨middle,whole,later⟩
    · have waits : Body.turn always ⟨delivered,reader⟩ = .error .waits := turn_waits always chunk.val chunk.property part some_ opened
      refine ⟨1,[],by rw [readChunkedBody,waits,append_nil], nil_prefix,fun sent text front => ?_⟩
      cases sent with
      | nil => exact nil_prefix
      | cons first sent =>
        obtain ⟨rfl,-⟩ := cons_prefix_cons.mp front
        have bound := (prefix_append _ _ |>.trans text : chunkText first <+: reader.text).length_le
        have positive := length_pos_iff.mpr some_
        rw [← part,length_append] at bound
        omega
    · obtain ⟨next,goes,text,same⟩ := @turn_chunk always _ ⟨delivered,reader⟩ chunk (present chunk (mem_cons_self ..)) rfl whole
      obtain ⟨turns,got,waits,front,covers⟩ := ih (fun other inside => present other (mem_cons_of_mem _ inside)) _ next
        (by rw [text]; exact later) (same.trans opened)
      refine ⟨turns + 1,chunk.val :: got,?_,(prefix_cons_inj _).mpr front,fun sent arrived part => ?_⟩
      · rw [readChunkedBody_more goes,waits,append_assoc]
        rfl
      · cases sent with
        | nil => exact nil_prefix
        | cons first sent =>
          obtain ⟨rfl,more⟩ := cons_prefix_cons.mp part
          refine (prefix_cons_inj _).mpr (covers sent ?_ more)
          rw [whole,chunksText,flatMap_cons,prefix_append_right_inj] at arrived
          rw [text]
          exact arrived

end

theorem chunkText_empty (empty : chunk.val = []) : chunkText chunk = finalText := by
  rw [chunkText,empty]
  rfl

theorem reader_exists : ∃ reader : Buffered, reader.text = bytes ∧ reader.stream.ending = ending := by
  obtain ⟨segments,rfl⟩ := text_exists (show 0 < bufferSize by decide) bytes
  have undelayed : (segments.map some).reduceOption = segments := by
    simp [reduceOption,filterMap_map]
  exact ⟨⟨[],⟨segments.map some,ending⟩⟩,congrArg ByteStream.text undelayed,rfl⟩

theorem framing_iff (chunks : List Chunk) : Transparent chunks ↔ ∀ chunk ∈ chunks, chunk.val ≠ [] := by
  constructor
  · rintro ⟨-,open_⟩ chunk member empty
    -- The first empty chunk is taken for the end while the server has more to write.
    have some_ : (chunks.find? fun chunk => decide (chunk.val = [])).isSome := find?_isSome.mpr ⟨chunk,member,decide_eq_true empty⟩
    obtain ⟨first,found⟩ := Option.isSome_iff_exists.mp some_
    obtain ⟨blank,front,back,rfl,full⟩ := find?_eq_some_iff_append.mp found
    have present : ∀ chunk ∈ front, chunk.val ≠ [] := fun chunk inside => by simpa using full chunk inside
    have parts : streamChunked (front ++ first :: back) = (chunksText front ++ (finalText ++ [])) ++ (chunksText back ++ finalText) := by
      rw [streamChunked,chunksText,flatMap_append,flatMap_cons,chunkText_empty (of_decide_eq_true blank)]
      simp only [chunksText,append_assoc,append_nil]
    obtain ⟨reader,text,opened⟩ := reader_exists
    obtain ⟨turns,delivered,waits,-⟩ := open_ reader _ (by rw [text,parts]) (by simp [finalText,Text.bytes]) opened
    obtain ⟨more,later,ends,-⟩ := body_complete front present reader text
    cases (Prod.mk.inj (readChunkedBody_unique waits ends)).2
  · intro present
    constructor
    · intro reader text
      obtain ⟨turns,later,ends,behind⟩ := body_complete chunks present reader (show _ = _ ++ (finalText ++ []) by rw [text]; rfl)
      exact ⟨turns,chunks.map Subtype.val,later,ends,rfl,behind⟩
    · intro reader missing parts lacking opened
      obtain ⟨turns,got,waits,front,covers⟩ := body_open chunks present [] reader parts lacking opened
      exact ⟨turns,got,waits,front,covers⟩

def emptyBetween : List Chunk := [⟨[1],by decide⟩,⟨[],by decide⟩,⟨[2],by decide⟩]

theorem empty_chunk_ends : ¬ Transparent emptyBetween ∧
      ∃ turns later, readChunkedBody always turns ⟨[],⟨streamChunked emptyBetween,⟨[],.stillOpen⟩⟩⟩ = some ([[1]],.ok later) ∧
        later.text = chunkText ⟨[2],by decide⟩ ++ finalText := by
  have read := body_complete [⟨[1],by decide⟩] (by simp) ⟨streamChunked emptyBetween,⟨[],.stillOpen⟩⟩ rfl
  refine ⟨fun transparent => ?_,read⟩
  obtain ⟨turns,delivered,later,ends,text,-⟩ := transparent.complete ⟨streamChunked emptyBetween,⟨[],.stillOpen⟩⟩ (append_nil _)
  obtain ⟨more,other,stops,-⟩ := read
  rw [(Prod.mk.inj (readChunkedBody_unique ends stops)).1] at text
  exact absurd text (by decide)

def nextLine (text : Bytes) : Bytes × Bytes :=
  match splitOnce newline text with
  | some (front,back) => (front ++ [newline],back)
  | none => (text,[])

def lineSize (line : Bytes) : Except String (Option Nat) :=
  match fromUtf8 line with
  | some s => chunkSize s.toList
  | none => .error "stream did not contain valid UTF-8"

-- From one place of a stream to a later one there are only blank lines and whole chunks that the connection takes.
inductive Passes (accepts : Nat → Bool) : Nat → Bytes → Nat → Bytes → Prop where
  | here : Passes accepts k text k text
  | blank (size : lineSize (nextLine text).1 = .ok none) (later : Passes accepts k (nextLine text).2 k' rest) : Passes accepts k text k' rest
  | chunk (size : lineSize (nextLine text).1 = .ok (some (n + 1))) (fits : n + 1 ≤ maxCapacity) (enough : n + 1 ≤ (nextLine text).2.length)
      (accepted : accepts k = true) (later : Passes accepts (k + 1) (nextLine ((nextLine text).2.drop (n + 1))).2 k' rest) :
      Passes accepts k text k' rest

section
variable (accepts : Nat → Bool)

def Stalls (text : Bytes) : Prop := ∃ k, Passes accepts 0 text k []
def Overflows (text : Bytes) : Prop :=
  ∃ k rest n, Passes accepts 0 text k rest ∧ lineSize (nextLine rest).1 = .ok (some n) ∧ maxCapacity < n

def Returns (body : Body) : Prop :=
  ∃ turns delivered result, readChunkedBody accepts turns body = some (delivered,result) ∧
    ((∃ later, result = .ok later) ∨ ∃ e, result = .error (.error e))

end

theorem readUntil_closed (closed : reader.stream.ending = .closed) :
    ∃ later, readUntil reader = .ok ((nextLine reader.text).1,later) ∧ later.text = (nextLine reader.text).2 ∧ later.stream.ending = .closed := by
  unfold nextLine
  cases found : splitOnce newline reader.text with
  | some parts =>
    obtain ⟨shape,fresh⟩ := splitOnce_parts found
    obtain ⟨later,read,text⟩ := readUntil_found shape fresh
    exact ⟨later,read,text,(readUntil_line read).ending.trans closed⟩
  | none =>
    have read := readUntil_end (splitOnce_absent found)
    rw [closed] at read
    exact ⟨_,read,rfl,rfl⟩

theorem skipLine_closed (closed : reader.stream.ending = .closed) :
    ∃ later, skipLine reader = .ok later ∧ later.text = (nextLine reader.text).2 ∧ later.stream.ending = .closed := by
  obtain ⟨later,read,text,ending⟩ := readUntil_closed closed
  exact ⟨later,by rw [skipLine,read],text,ending⟩

theorem nextLine_shorter (present : text ≠ []) : (nextLine text).2.length < text.length := by
  have positive := length_pos_iff.mpr present
  unfold nextLine
  cases found : splitOnce newline text with
  | some parts =>
    have shape := congrArg List.length (splitOnce_parts found).1
    rw [length_append,length_cons] at shape
    dsimp only
    omega
  | none => exact positive

theorem nextLine_length (text) : (nextLine text).2.length ≤ text.length := by
  by_cases present : text = []
  · rw [present]
    exact Nat.le_refl _
  · exact Nat.le_of_lt (nextLine_shorter present)

section
variable {body : Body} (closed : body.reader.stream.ending = .closed)
include closed

theorem turn_line (size : lineSize (nextLine body.reader.text).1 = .ok found) :
    ∃ later, body.turn accepts = readChunk accepts body.delivered later found ∧ later.text = (nextLine body.reader.text).2 ∧ later.stream.ending = .closed := by
  obtain ⟨later,raw,text,ended⟩ := readUntil_closed closed
  unfold lineSize at size
  split at size
  · rename_i s decoded
    have read : readLine body.reader = .ok (s.toList,later) := by
      rw [readLine,raw,ok_bind]
      simp only [decoded]
    exact ⟨later,turn_sized read size,text,ended⟩
  · cases size

theorem turn_bad_line (bad : lineSize (nextLine body.reader.text).1 = .error e) : ∃ e, body.turn accepts = .error (.error e) := by
  obtain ⟨later,raw,-⟩ := readUntil_closed closed
  unfold lineSize at bad
  split at bad
  · rename_i s decoded
    have read : readLine body.reader = .ok (s.toList,later) := by
      rw [readLine,raw,ok_bind]
      simp only [decoded]
    rw [Body.turn,read,labelled_ok,ok_bind]
    dsimp only
    rw [bad]
    exact ⟨e,rfl⟩
  · rename_i decoded
    rw [Body.turn,readLine,raw,ok_bind]
    simp only [decoded]
    exact ⟨_,rfl⟩

theorem turn_blank (size : lineSize (nextLine body.reader.text).1 = .ok none) :
    ∃ later, body.turn accepts = .ok (.more ⟨body.delivered,later⟩) ∧ later.text = (nextLine body.reader.text).2 ∧ later.stream.ending = .closed :=
  turn_line closed size

theorem turn_zero (size : lineSize (nextLine body.reader.text).1 = .ok (some 0)) : ∃ last, body.turn accepts = .ok (.ends last) := by
  obtain ⟨first,goes,-,ended⟩ := turn_line closed size
  obtain ⟨later,skipped,-⟩ := skipLine_closed ended
  exact ⟨_,by rw [goes,readChunk,skipped]; rfl⟩

theorem turn_large (size : lineSize (nextLine body.reader.text).1 = .ok (some n)) (large : maxCapacity < n) : body.turn accepts = .error (.panic .capacity) := by
  obtain ⟨n,rfl⟩ : ∃ k, n = k + 1 := ⟨n - 1,by omega⟩
  obtain ⟨first,goes,-⟩ := turn_line closed size
  rw [goes,readChunk,zeroed,if_pos large]
  rfl

section
variable (size : lineSize (nextLine body.reader.text).1 = .ok (some (n + 1))) (fits : n + 1 ≤ maxCapacity)
include size fits

theorem turn_short (short : (nextLine body.reader.text).2.length < n + 1) : ∃ e, body.turn accepts = .error (.error e) := by
  obtain ⟨first,goes,text,ended⟩ := turn_line closed size
  rw [goes,readChunk,zeroed,if_neg (Nat.not_lt.mpr fits),Buffered.readExact_short (by rw [text]; exact short),ended]
  exact ⟨_,rfl⟩

theorem turn_whole (enough : n + 1 ≤ (nextLine body.reader.text).2.length) :
    ∃ data later, body.turn accepts = (if accepts body.delivered.length then .ok (.more ⟨body.delivered ++ [data],later⟩)
        else .ok (.ends ⟨body.delivered,later⟩)) ∧ later.text = (nextLine ((nextLine body.reader.text).2.drop (n + 1))).2 ∧ later.stream.ending = .closed := by
  obtain ⟨first,goes,text,ended⟩ := turn_line closed size
  have parts : first.text = (nextLine body.reader.text).2.take (n + 1) ++ (nextLine body.reader.text).2.drop (n + 1) := by
    rw [text,take_append_drop]
  obtain ⟨second,taken,behind,kept⟩ := Buffered.readExact_enough parts (length_take_of_le enough)
  obtain ⟨later,skipped,left,last⟩ := skipLine_closed (kept.trans ended)
  rw [behind] at left
  refine ⟨(nextLine body.reader.text).2.take (n + 1),later,?_,left,last⟩
  rw [goes,readChunk,zeroed,if_neg (Nat.not_lt.mpr fits),ok_bind,taken,labelled_ok,ok_bind]
  dsimp only
  rw [skipped,ok_bind]

end

end

theorem returns_more (goes : body.turn accepts = .ok (.more later)) : Returns accepts body ↔ Returns accepts later := by
  constructor
  · rintro ⟨turns,delivered,result,stops,kind⟩
    cases turns with
    | zero => cases stops
    | succ turns =>
      rw [readChunkedBody_more goes] at stops
      exact ⟨turns,delivered,result,stops,kind⟩
  · rintro ⟨turns,delivered,result,stops,kind⟩
    exact ⟨turns + 1,delivered,result,by rw [readChunkedBody_more goes]; exact stops,kind⟩

theorem returns_ends (goes : body.turn accepts = .ok (.ends last)) : Returns accepts body :=
  ⟨1,last.delivered,.ok last.reader,by rw [readChunkedBody,goes],.inl ⟨_,rfl⟩⟩

theorem returns_fails (goes : body.turn accepts = .error (.error e)) : Returns accepts body :=
  ⟨1,body.delivered,.error (.error e),by rw [readChunkedBody,goes],.inr ⟨_,rfl⟩⟩

theorem panics_forever (goes : body.turn accepts = .error (.panic fault)) : ¬ Returns accepts body := by
  rintro ⟨turns,delivered,result,stops,kind⟩
  have panics : readChunkedBody accepts 1 body = some (body.delivered,.error (.panic fault)) := by rw [readChunkedBody,goes]
  cases (Prod.mk.inj (readChunkedBody_unique stops panics)).2
  rcases kind with ⟨later,ok⟩ | ⟨e,error⟩
  · cases ok
  · cases error

theorem stalls_forever (ended : body.reader.text = []) (closed : body.reader.stream.ending = .closed) (turns) : readChunkedBody accepts turns body = none := by
  induction turns generalizing body with
  | zero => rfl
  | succ turns ih =>
    have blank : lineSize (nextLine body.reader.text).1 = .ok none := by
      rw [ended]
      decide +kernel
    obtain ⟨later,goes,text,kept⟩ := turn_blank closed blank
    rw [readChunkedBody_more goes]
    rw [ended] at text
    exact @ih ⟨body.delivered,later⟩ text kept

theorem passes_returns (passes : Passes accepts k text k' rest) (body) (at_ : body.reader.text = text) (count : body.delivered.length = k)
    (closed : body.reader.stream.ending = .closed) :
    ∃ next, next.reader.text = rest ∧ next.reader.stream.ending = .closed ∧ (Returns accepts body ↔ Returns accepts next) := by
  induction passes generalizing body with
  | here => exact ⟨body,at_,closed,Iff.rfl⟩
  | blank size _ ih =>
    rw [← at_] at size
    obtain ⟨later,goes,text,kept⟩ := turn_blank closed size
    obtain ⟨next,there,ended,iff⟩ := ih ⟨body.delivered,later⟩ (by rw [text,at_]) count kept
    exact ⟨next,there,ended,(returns_more goes).trans iff⟩
  | chunk size fits enough accepted _ ih =>
    rw [← at_] at size enough
    obtain ⟨data,later,goes,text,kept⟩ := turn_whole closed size fits enough
    rw [count,if_pos accepted] at goes
    obtain ⟨next,there,ended,iff⟩ := ih ⟨body.delivered ++ [data],later⟩ (by rw [text,at_]) (by rw [length_append,count]; rfl) kept
    exact ⟨next,there,ended,(returns_more goes).trans iff⟩

theorem returns_from (closed : body.reader.stream.ending = .closed) (moving : ∀ k, ¬ Passes accepts body.delivered.length body.reader.text k [])
    (small : ∀ k rest n, Passes accepts body.delivered.length body.reader.text k rest → lineSize (nextLine rest).1 = .ok (some n) → n ≤ maxCapacity) :
    Returns accepts body := by
  induction length : body.reader.text.length using Nat.strongRecOn generalizing body with
  | ind width ih =>
    have present : body.reader.text ≠ [] := fun empty => moving _ (by rw [empty]; exact .here)
    have shorter := nextLine_shorter present
    cases size : lineSize (nextLine body.reader.text).1 with
    | error e =>
      obtain ⟨e,goes⟩ := turn_bad_line closed size
      exact returns_fails goes
    | ok found =>
      rcases found with _ | _ | n
      · obtain ⟨later,goes,text,kept⟩ := turn_blank closed size
        rw [returns_more goes]
        refine @ih later.text.length (by rw [text]; omega) ⟨body.delivered,later⟩ kept (fun k passes => moving k (.blank size ?_))
          (fun k rest n passes => small k rest n (.blank size ?_)) rfl
        · rw [← text]
          exact passes
        · rw [← text]
          exact passes
      · obtain ⟨last,goes⟩ := turn_zero closed size
        exact returns_ends goes
      · have fits := small _ _ _ .here size
        by_cases enough : n + 1 ≤ (nextLine body.reader.text).2.length
        · obtain ⟨data,later,goes,text,kept⟩ := turn_whole closed size fits enough
          split at goes
          · rename_i accepted
            have less : later.text.length < width := by
              have first := nextLine_length ((nextLine body.reader.text).2.drop (n + 1))
              rw [length_drop] at first
              rw [text]
              omega
            have count : (body.delivered ++ [data]).length = body.delivered.length + 1 := length_append
            rw [returns_more goes]
            refine @ih later.text.length less ⟨body.delivered ++ [data],later⟩ kept
              (fun k passes => moving k (.chunk size fits enough accepted ?_))
              (fun k rest m passes => small k rest m (.chunk size fits enough accepted ?_)) rfl
            · rw [← text,← count]
              exact passes
            · rw [← text,← count]
              exact passes
          · exact returns_ends goes
        · obtain ⟨e,goes⟩ := turn_short closed size fits (Nat.not_le.mp enough)
          exact returns_fails goes

theorem body_returns_iff (accepts : Nat → Bool) (buffer : Bytes) (arrivals : List (Option (ByteStream.Segment UInt8 bufferSize))) :
    Returns accepts ⟨[],⟨buffer,⟨arrivals,.closed⟩⟩⟩ ↔
      ¬ Stalls accepts (Buffered.text ⟨buffer,⟨arrivals,.closed⟩⟩) ∧ ¬ Overflows accepts (Buffered.text ⟨buffer,⟨arrivals,.closed⟩⟩) := by
  constructor
  · intro returns
    constructor
    · rintro ⟨k,passes⟩
      obtain ⟨next,ended,closed,iff⟩ := passes_returns passes ⟨[],⟨buffer,⟨arrivals,.closed⟩⟩⟩ rfl rfl rfl
      obtain ⟨turns,delivered,result,stops,-⟩ := iff.mp returns
      rw [stalls_forever ended closed] at stops
      cases stops
    · rintro ⟨k,rest,n,passes,size,large⟩
      obtain ⟨next,there,closed,iff⟩ := passes_returns passes ⟨[],⟨buffer,⟨arrivals,.closed⟩⟩⟩ rfl rfl rfl
      rw [← there] at size
      exact panics_forever (turn_large closed size large) (iff.mp returns)
  · rintro ⟨moving,small⟩
    refine returns_from rfl (fun k passes => moving ⟨k,passes⟩) (fun k rest n passes size => ?_)
    by_contra large
    exact small ⟨k,rest,n,passes,size,Nat.not_le.mp large⟩

def cutDownload : Body := ⟨[],⟨chunkText ⟨[7],by decide⟩,⟨[],.closed⟩⟩⟩

theorem cutDownload_unending : readChunkedBody always turns cutDownload = none := by
  cases turns with
  | zero => rfl
  | succ turns =>
    obtain ⟨later,goes,text,kept⟩ := @turn_chunk always [] cutDownload ⟨[7],by decide⟩ (by simp) rfl rfl
    rw [readChunkedBody_more goes]
    exact stalls_forever text kept turns

theorem cut_download_loops : ¬ Returns always cutDownload := by
  rintro ⟨turns,delivered,result,stops,-⟩
  rw [cutDownload_unending] at stops
  cases stops

end AstraCore.SplitHttp
