import AstraCore.PolledStream
import AstraCore.TextScan

namespace AstraCore.LineReader
open CheckedBytes ByteStream PolledStream LossyUtf8 TextScan
open List (append_assoc append_eq_append_iff append_nil flatten_cons length_append length_cons mem_append mem_cons mem_cons_of_mem
  mem_cons_self)

-- A `BufReader`: what it holds, and the stream behind it. An arrival is what one of its reads finds, so it fits its buffer.
def bufferSize : Nat := 8192

structure Buffered where
  buffer : Bytes
  stream : Stream bufferSize

def Buffered.text (reader : Buffered) : Bytes := reader.buffer ++ reader.stream.text

def newline : UInt8 := 10

def lineAtEnd (line : Bytes) : Ending → Reading (Bytes × Buffered)
  | .stillOpen => .error .waits
  | .closed => .ok (line,⟨[],⟨[],.closed⟩⟩)
  | .broken e => .error (.error e)

def lineLoop (line : Bytes) (ending : Ending) : List (Option (Segment UInt8 bufferSize)) → Reading (Bytes × Buffered)
  | [] => lineAtEnd line ending
  | none :: rest => lineLoop line ending rest
  | some segment :: rest =>
    match splitOnce newline segment.val with
    | some (front,back) => .ok (line ++ (front ++ [newline]),⟨back,⟨rest,ending⟩⟩)
    | none => lineLoop (line ++ segment.val) ending rest

def readUntil (reader : Buffered) : Reading (Bytes × Buffered) :=
  match splitOnce newline reader.buffer with
  | some (front,back) => .ok (front ++ [newline],⟨back,reader.stream⟩)
  | none => lineLoop reader.buffer reader.stream.ending reader.stream.arrivals

def readLine (reader : Buffered) : Reading (Text × Buffered) := do
  let (line,later) ← readUntil reader
  match fromUtf8 line with
  | some s => .ok (s.toList,later)
  | none => .error (.error "stream did not contain valid UTF-8")

-- Lines up to a blank one, which is read as well. Every other line takes a byte, so the turns do not run out.
def headLoop (blank : Text → Bool) (label : String) : Nat → List Text → Buffered → Reading (List Text × Buffered)
  | 0,_,_ => .error .waits
  | turns + 1,lines,reader => do
    let (line,later) ← labelled label (readLine reader)
    if blank line then .ok (lines,later) else headLoop blank label turns (lines ++ [line]) later

def readHead (blank : Text → Bool) (label : String) (reader : Buffered) : Reading (List Text × Buffered) :=
  headLoop blank label (reader.text.length + 1) [] reader

-- `read_exact` takes what the buffer holds and then whole reads. Where less than a buffer is missing they go through the
-- buffer, which keeps the rest.
def exactLoop (ending : Ending) : Nat → List (Option (Segment UInt8 bufferSize)) → Reading (Bytes × Buffered)
  | 0,arrivals => .ok ([],⟨[],⟨arrivals,ending⟩⟩)
  | _ + 1,[] => .error ending.stop
  | n + 1,none :: rest => exactLoop ending (n + 1) rest
  | n + 1,some segment :: rest =>
    if n + 1 < segment.val.length then .ok (segment.val.take (n + 1),⟨segment.val.drop (n + 1),⟨rest,ending⟩⟩)
    else do
      let (more,later) ← exactLoop ending (n + 1 - segment.val.length) rest
      .ok (segment.val ++ more,later)

def Buffered.readExact (n : Nat) (reader : Buffered) : Reading (Bytes × Buffered) :=
  if n ≤ reader.buffer.length then .ok (reader.buffer.take n,⟨reader.buffer.drop n,reader.stream⟩)
  else do
    let (more,later) ← exactLoop reader.stream.ending (n - reader.buffer.length) reader.stream.arrivals
    .ok (reader.buffer ++ more,later)

def Buffered.readToEnd (reader : Buffered) : Reading Bytes :=
  match reader.stream.ending with
  | .closed => .ok reader.text
  | .stillOpen => .error .waits
  | .broken e => .error (.error e)

-- `fill_buf` reads where the buffer is empty, and finds nothing only at the end of the stream.
def fillLoop (ending : Ending) : List (Option (Segment UInt8 bufferSize)) → Reading Buffered
  | [] =>
    match ending with
    | .stillOpen => .error .waits
    | .closed => .ok ⟨[],⟨[],.closed⟩⟩
    | .broken e => .error (.error e)
  | none :: rest => fillLoop ending rest
  | some segment :: rest => .ok ⟨segment.val,⟨rest,ending⟩⟩

def Buffered.fillBuf (reader : Buffered) : Reading Buffered :=
  if reader.buffer = [] then fillLoop reader.stream.ending reader.stream.arrivals else .ok reader

structure Fresh (segments : List (Segment UInt8 bufferSize)) (n : Nat) (stream : Stream bufferSize) : Prop where
  boundary : Boundary segments n
  behind : ∀ k, 0 < k → (Boundary stream.arrivals.reduceOption k ↔ Boundary segments (n + k))

-- Where a reader stands that has taken `n` bytes: it holds the rest of the segment they end in.
structure Position (segments : List (Segment UInt8 bufferSize)) (n : Nat) (reader : Buffered) : Prop where
  stream : Fresh segments (n + reader.buffer.length) reader.stream
  inside : ∀ k, n ≤ k → k < n + reader.buffer.length → ¬ Boundary segments k

theorem Position.start (stream) : Position stream.arrivals.reduceOption 0 ⟨[],stream⟩ := by
  refine ⟨⟨boundary_zero _,fun k _ => ?_⟩,fun _ _ short => absurd short (Nat.not_lt_zero _)⟩
  rw [List.length_nil,Nat.zero_add]

theorem Position.clean_iff (position : Position segments n reader) : reader.buffer = [] ↔ Boundary segments n := by
  constructor
  · intro empty
    have held := position.stream.boundary
    rwa [empty] at held
  · intro boundary
    by_contra present
    have positive := List.length_pos_iff.mpr present
    exact position.inside n (Nat.le_refl n) (by omega) boundary

theorem Fresh.delayed (fresh : Fresh segments n ⟨none :: rest,ending⟩) : Fresh segments n ⟨rest,ending⟩ :=
  ⟨fresh.boundary,fresh.behind⟩

section
variable (fresh : Fresh segments n ⟨some piece :: rest,ending⟩)
include fresh

theorem Fresh.past : Fresh segments (n + piece.val.length) ⟨rest,ending⟩ := by
  have positive := piece.property.1
  constructor
  · rw [← fresh.behind _ positive]
    exact (boundary_cons piece rest.reduceOption 0).mpr (boundary_zero _)
  · intro k more
    rw [Nat.add_assoc,← fresh.behind _ (by omega)]
    exact (boundary_cons piece rest.reduceOption k).symm

theorem Fresh.inside (low : n < k) (high : k < n + piece.val.length) : ¬ Boundary segments k := by
  obtain ⟨j,rfl⟩ : ∃ j, k = n + j := ⟨k - n,by omega⟩
  rw [← fresh.behind j (by omega)]
  exact boundary_inside piece rest.reduceOption (by omega) (by omega)

end

theorem lineLoop_position (fresh : Fresh segments (n + line.length) ⟨arrivals,ending⟩)
    (read : lineLoop line ending arrivals = .ok (whole,later)) : Position segments (n + whole.length) later := by
  induction arrivals generalizing line with
  | nil =>
    cases ending with
    | stillOpen | broken e => cases read
    | closed =>
      obtain ⟨rfl,rfl⟩ := Prod.mk.inj (Except.ok.inj read)
      exact ⟨fresh,fun k low high => absurd high (Nat.not_lt.mpr low)⟩
  | cons arrival rest ih =>
    cases arrival with
    | none => exact ih fresh.delayed read
    | some segment =>
      rw [lineLoop] at read
      cases found : splitOnce newline segment.val with
      | some parts =>
        obtain ⟨front,back⟩ := parts
        rw [found] at read
        obtain ⟨rfl,rfl⟩ := Prod.mk.inj (Except.ok.inj read)
        have width : segment.val.length = front.length + 1 + back.length := by
          rw [(splitOnce_parts found).1,length_append,length_cons]
          omega
        have reached : n + (line ++ (front ++ [newline])).length + back.length = n + line.length + segment.val.length := by
          simp only [length_append,List.length_singleton]
          omega
        refine ⟨?_,fun k low high => ?_⟩
        · rw [reached]
          exact fresh.past
        · change k < n + (line ++ (front ++ [newline])).length + back.length at high
          exact fresh.inside (by omega) (by omega)
      | none =>
        rw [found] at read
        refine ih ?_ read
        rw [length_append,← Nat.add_assoc]
        exact fresh.past

structure Line (reader : Buffered) (line : Bytes) (later : Buffered) : Prop where
  text : reader.text = line ++ later.text
  ending : later.stream.ending = reader.stream.ending
  form : (∃ front, newline ∉ front ∧ line = front ++ [newline]) ∨
    (newline ∉ line ∧ later.text = [] ∧ reader.stream.ending = .closed)

theorem lineLoop_line (line) (clear : newline ∉ line)
    (read : lineLoop line ending arrivals = .ok (whole,later)) : Line ⟨line,⟨arrivals,ending⟩⟩ whole later := by
  induction arrivals generalizing line with
  | nil =>
    cases ending with
    | stillOpen | broken e => cases read
    | closed =>
      obtain ⟨rfl,rfl⟩ := Prod.mk.inj (Except.ok.inj read)
      exact ⟨rfl,rfl,.inr ⟨clear,rfl,rfl⟩⟩
  | cons arrival rest ih =>
    cases arrival with
    | none =>
      obtain ⟨text,same,form⟩ := ih line clear read
      exact ⟨text,same,form⟩
    | some segment =>
      have next : Buffered.text ⟨line,⟨some segment :: rest,ending⟩⟩ = line ++ segment.val ++ text rest.reduceOption := by
        rw [append_assoc]
        rfl
      rw [lineLoop] at read
      cases found : splitOnce newline segment.val with
      | some parts =>
        obtain ⟨front,back⟩ := parts
        obtain ⟨shape,fresh⟩ := splitOnce_parts found
        rw [found] at read
        obtain ⟨rfl,rfl⟩ := Prod.mk.inj (Except.ok.inj read)
        refine ⟨?_,rfl,.inl ⟨line ++ front,?_,(append_assoc ..).symm⟩⟩
        · rw [next,shape]
          simp [Buffered.text,Stream.text]
        · rw [mem_append]
          exact fun inside => inside.elim clear fresh
      | none =>
        rw [found] at read
        have further : newline ∉ line ++ segment.val := by
          rw [mem_append]
          exact fun inside => inside.elim clear (splitOnce_absent found)
        obtain ⟨text,same,form⟩ := ih _ further read
        exact ⟨next.trans text,same,form⟩

theorem readUntil_line (read : readUntil reader = .ok (line,later)) : Line reader line later := by
  unfold readUntil at read
  cases found : splitOnce newline reader.buffer with
  | some parts =>
    obtain ⟨front,back⟩ := parts
    obtain ⟨shape,fresh⟩ := splitOnce_parts found
    rw [found] at read
    obtain ⟨rfl,rfl⟩ := Prod.mk.inj (Except.ok.inj read)
    refine ⟨?_,rfl,.inl ⟨front,fresh,rfl⟩⟩
    simp [Buffered.text,shape]
  | none =>
    rw [found] at read
    exact lineLoop_line _ (splitOnce_absent found) read

theorem readUntil_position (position : Position segments n reader) (read : readUntil reader = .ok (line,later)) :
    Position segments (n + line.length) later := by
  unfold readUntil at read
  cases found : splitOnce newline reader.buffer with
  | some parts =>
    obtain ⟨front,back⟩ := parts
    rw [found] at read
    obtain ⟨rfl,rfl⟩ := Prod.mk.inj (Except.ok.inj read)
    have width : reader.buffer.length = (front ++ [newline]).length + back.length := by
      rw [(splitOnce_parts found).1,length_append,length_append,length_cons,List.length_singleton]
      omega
    refine ⟨?_,fun k low high => position.inside k (by omega) ?_⟩
    · have fresh := position.stream
      rwa [width,← Nat.add_assoc] at fresh
    · change k < n + (front ++ [newline]).length + back.length at high
      omega
  | none =>
    rw [found] at read
    exact lineLoop_position position.stream read

theorem lineLoop_found (line) (parts : text arrivals.reduceOption = front ++ newline :: back) (fresh : newline ∉ front) :
    ∃ later, lineLoop line ending arrivals = .ok (line ++ (front ++ [newline]),later) := by
  induction arrivals generalizing line front with
  | nil => exact absurd (congrArg List.length parts) (by simp)
  | cons arrival rest ih =>
    cases arrival with
    | none => exact ih line parts fresh
    | some segment =>
      rw [lineLoop]
      rcases append_eq_append_iff.mp parts with ⟨more,rfl,later⟩ | ⟨more,shape,later⟩
      · rw [splitOnce_none fun inside => fresh (List.mem_append_left _ inside)]
        obtain ⟨reader,read⟩ := ih _ later fun inside => fresh (List.mem_append_right _ inside)
        refine ⟨reader,read.trans ?_⟩
        rw [append_assoc,append_assoc]
      · cases more with
        | nil =>
          rw [append_nil] at shape
          rw [shape,splitOnce_none fresh]
          obtain ⟨reader,read⟩ := ih _ (show text rest.reduceOption = [] ++ newline :: back from later.symm) (by simp)
          exact ⟨reader,read.trans (by simp)⟩
        | cons c more =>
          obtain ⟨rfl,-⟩ := List.cons.inj later
          rw [shape,splitOnce_front fresh]
          exact ⟨_,rfl⟩

theorem lineLoop_end (line) (clear : newline ∉ text arrivals.reduceOption) :
    lineLoop line ending arrivals = lineAtEnd (line ++ text arrivals.reduceOption) ending := by
  induction arrivals generalizing line with
  | nil => rw [List.reduceOption_nil,text_nil,append_nil,lineLoop]
  | cons arrival rest ih =>
    cases arrival with
    | none => exact ih line clear
    | some segment =>
      rw [List.reduceOption_cons_of_some,text_cons,mem_append,not_or] at clear
      rw [lineLoop,splitOnce_none clear.1,List.reduceOption_cons_of_some,text_cons,← append_assoc]
      exact ih _ clear.2

theorem readUntil_found (parts : reader.text = front ++ newline :: back) (fresh : newline ∉ front) :
    ∃ later, readUntil reader = .ok (front ++ [newline],later) ∧ later.text = back := by
  have goes : ∃ later, readUntil reader = .ok (front ++ [newline],later) := by
    unfold readUntil
    rcases append_eq_append_iff.mp parts with ⟨more,rfl,later⟩ | ⟨more,shape,later⟩
    · rw [splitOnce_none fun inside => fresh (List.mem_append_left _ inside),append_assoc]
      exact lineLoop_found _ later fun inside => fresh (List.mem_append_right _ inside)
    · cases more with
      | nil =>
        rw [append_nil] at shape
        rw [shape,splitOnce_none fresh]
        exact lineLoop_found _ (show reader.stream.text = [] ++ newline :: back from later.symm) (by simp)
      | cons c more =>
        obtain ⟨rfl,-⟩ := List.cons.inj later
        rw [shape,splitOnce_front fresh]
        exact ⟨_,rfl⟩
  obtain ⟨later,read⟩ := goes
  have text := (readUntil_line read).text
  rw [parts,append_assoc] at text
  exact ⟨later,read,(List.cons.inj (List.append_cancel_left text)).2.symm⟩

theorem readUntil_end (clear : newline ∉ reader.text) : readUntil reader = lineAtEnd reader.text reader.stream.ending := by
  rw [Buffered.text,mem_append,not_or] at clear
  rw [readUntil,splitOnce_none clear.1]
  exact lineLoop_end _ clear.2

theorem asBytes_ofList (text : Text) : asBytes (String.ofList text) = text.bytes := by
  rw [asBytes,String.toList_ofList]
  rfl

theorem readLine_iff : readLine reader = .ok (line,later) ↔ readUntil reader = .ok (line.bytes,later) := by
  constructor
  · intro read
    obtain ⟨⟨bytes,rest⟩,raw,decoded⟩ := checked_bind read
    dsimp only at decoded
    split at decoded
    · rename_i s valid
      obtain ⟨rfl,rfl⟩ := Prod.mk.inj (Except.ok.inj decoded)
      rw [raw,← fromUtf8_eq_some valid]
      rfl
    · cases decoded
  · intro raw
    have valid : fromUtf8 line.bytes = some (String.ofList line) := by
      rw [← asBytes_ofList,fromUtf8_asBytes]
    rw [readLine,raw,ok_bind]
    simp only [valid,String.toList_ofList]

def splitLines : Bytes → List Bytes
  | [] => []
  | b :: rest =>
    if b = newline then [newline] :: splitLines rest
    else
      match splitLines rest with
      | [] => [[b]]
      | line :: lines => (b :: line) :: lines

theorem splitLines_front (fresh : newline ∉ front) : splitLines (front ++ newline :: back) = (front ++ [newline]) :: splitLines back := by
  induction front with
  | nil => rw [List.nil_append,splitLines,if_pos rfl,List.nil_append]
  | cons b rest ih =>
    rw [mem_cons,not_or] at fresh
    rw [List.cons_append,splitLines,if_neg (Ne.symm fresh.1),ih fresh.2]
    rfl

theorem splitLines_last (fresh : newline ∉ bytes) (present : bytes ≠ []) : splitLines bytes = [bytes] := by
  induction bytes with
  | nil => exact absurd rfl present
  | cons b rest ih =>
    rw [mem_cons,not_or] at fresh
    rw [splitLines,if_neg (Ne.symm fresh.1)]
    cases rest with
    | nil => rfl
    | cons c more => rw [ih fresh.2 (by simp)]

theorem Line.next (line : Line reader bytes later) : splitLines reader.text = bytes :: splitLines later.text ∨ (splitLines reader.text = [] ∧ bytes = []) := by
  rw [line.text]
  rcases line.form with ⟨front,fresh,rfl⟩ | ⟨fresh,empty,-⟩
  · left
    rw [append_assoc]
    exact splitLines_front fresh
  · rw [empty,append_nil]
    by_cases present : bytes = []
    · exact .inr ⟨congrArg splitLines present,present⟩
    · exact .inl (splitLines_last fresh present)

inductive Head (blank : Text → Bool) : Buffered → List Text → Buffered → Prop where
  | closing (read : readLine reader = .ok (line,later)) (found : blank line = true) : Head blank reader [] later
  | field (read : readLine reader = .ok (line,middle)) (solid : blank line = false) (further : Head blank middle more later) :
      Head blank reader (line :: more) later

theorem headLoop_head (read : headLoop blank label turns seen reader = .ok (all,later)) : ∃ more, all = seen ++ more ∧ Head blank reader more later := by
  induction turns generalizing seen reader with
  | zero => cases read
  | succ turns ih =>
    obtain ⟨⟨line,middle⟩,first,rest⟩ := checked_bind read
    dsimp only at rest
    split at rest
    · rename_i found
      obtain ⟨rfl,rfl⟩ := Prod.mk.inj (Except.ok.inj rest)
      exact ⟨[],(append_nil _).symm,.closing (labelled_eq_ok.mp first) found⟩
    · rename_i solid
      obtain ⟨more,rfl,head⟩ := ih rest
      exact ⟨line :: more,by rw [append_assoc]; rfl,.field (labelled_eq_ok.mp first) (by simpa using solid) head⟩

theorem Line.shorter (line : Line reader bytes later) (present : bytes ≠ []) : later.text.length < reader.text.length := by
  have positive := List.length_pos_iff.mpr present
  rw [line.text,length_append]
  omega

theorem solid_present {blank : Text → Bool} (emptyBlank : blank [] = true) (solid : blank line = false) : line.bytes ≠ [] := by
  intro empty
  rw [bytes_eq_nil empty,emptyBlank] at solid
  cases solid

theorem headLoop_enough (emptyBlank : blank [] = true) (head : Head blank reader more later) (enough : reader.text.length < turns)
    (seen) : headLoop blank label turns seen reader = .ok (seen ++ more,later) := by
  induction head generalizing seen turns with
  | closing read found =>
    obtain ⟨turns,rfl⟩ : ∃ k, turns = k + 1 := ⟨turns - 1,by omega⟩
    rw [headLoop,read,labelled_ok,ok_bind]
    simp only [found,if_true,append_nil]
  | @field reader line middle more later read solid further ih =>
    obtain ⟨turns,rfl⟩ : ∃ k, turns = k + 1 := ⟨turns - 1,by omega⟩
    have present := solid_present emptyBlank solid
    have shorter := (readUntil_line (readLine_iff.mp read)).shorter present
    rw [headLoop,read,labelled_ok,ok_bind]
    simp only [solid]
    have rest := ih (by omega : middle.text.length < turns) (seen ++ [line])
    rw [append_assoc] at rest
    exact rest

theorem readHead_iff (emptyBlank : blank [] = true) : readHead blank label reader = .ok (fields,later) ↔ Head blank reader fields later := by
  constructor
  · intro read
    obtain ⟨more,rfl,head⟩ := headLoop_head read
    exact head
  · intro head
    exact headLoop_enough emptyBlank head (Nat.lt_succ_self _) []

def FieldsOf (blank : Text → Bool) (lines : List Bytes) (fields : List Text) : Prop :=
  (∀ field ∈ fields, blank field = false) ∧ ∃ rest, lines = fields.map Text.bytes ++ rest ∧
    (rest = [] ∨ ∃ closing others, rest = Text.bytes closing :: others ∧ blank closing = true)

theorem Head.fieldsOf (emptyBlank : blank [] = true) (head : Head blank reader fields later) : FieldsOf blank (splitLines reader.text) fields := by
  induction head with
  | closing read found =>
    refine ⟨by simp,_,rfl,?_⟩
    rcases (readUntil_line (readLine_iff.mp read)).next with next | ⟨none_,-⟩
    · exact .inr ⟨_,_,next,found⟩
    · exact .inl none_
  | @field reader line middle more later read solid further ih =>
    obtain ⟨others,rest,parts,closed⟩ := ih
    refine ⟨fun field member => ?_,?_⟩
    · rcases mem_cons.mp member with rfl | later
      · exact solid
      · exact others field later
    · rcases (readUntil_line (readLine_iff.mp read)).next with next | ⟨none_,empty⟩
      · exact ⟨rest,by rw [next,parts]; rfl,closed⟩
      · exact absurd empty (solid_present emptyBlank solid)

structure Takes (reader : Buffered) (bytes : Bytes) (later : Buffered) : Prop where
  text : reader.text = bytes ++ later.text
  ending : later.stream.ending = reader.stream.ending
  position : ∀ segments n, Position segments n reader → Position segments (n + bytes.length) later

theorem Takes.trans (first : Takes reader bytes middle) (second : Takes middle more later) : Takes reader (bytes ++ more) later := by
  refine ⟨by rw [first.text,second.text,append_assoc],second.ending.trans first.ending,fun segments n position => ?_⟩
  rw [length_append,← Nat.add_assoc]
  exact second.position segments _ (first.position segments n position)

theorem readLine_takes (read : readLine reader = .ok (line,later)) : Takes reader line.bytes later := by
  have raw := readLine_iff.mp read
  have found := readUntil_line raw
  exact ⟨found.text,found.ending,fun _ _ position => readUntil_position position raw⟩

theorem Head.takes (head : Head blank reader fields later) : ∃ closing, blank closing = true ∧
    Takes reader (Text.bytes (fields.flatten ++ closing)) later := by
  induction head with
  | closing read found => exact ⟨_,found,readLine_takes read⟩
  | field read _ _ ih =>
    obtain ⟨closing,found,takes⟩ := ih
    refine ⟨closing,found,?_⟩
    rw [flatten_cons,append_assoc,bytes_append]
    exact (readLine_takes read).trans takes

def IsLine (line : Text) : Prop := ∃ body, '\n' ∉ body ∧ line = body ++ ['\n']

theorem isLine_ended (fresh : '\n' ∉ body) : IsLine (body ++ ['\r','\n']) :=
  ⟨body ++ ['\r'],by simpa using fresh,by simp⟩

theorem IsLine.bytes (shape : IsLine line) : ∃ front, newline ∉ front ∧ line.bytes = front ++ [newline] := by
  obtain ⟨body,fresh,rfl⟩ := shape
  exact ⟨Text.bytes body,fun inside => fresh ((newline_bytes body).mp inside),bytes_append body ['\n']⟩

theorem readLine_shape (read : readLine reader = .ok (line,later)) : '\n' ∉ line ∨ IsLine line := by
  by_cases fed : '\n' ∈ line
  · have form := (readUntil_line (readLine_iff.mp read)).form
    obtain ⟨body,rest,rfl,fresh⟩ := List.eq_append_cons_of_mem fed
    have bytes : Text.bytes (body ++ '\n' :: rest) = Text.bytes body ++ newline :: Text.bytes rest := bytes_append body ('\n' :: rest)
    rcases form with ⟨front,clear,whole⟩ | ⟨clear,-,-⟩
    · have early : newline ∉ Text.bytes body := fun inside => fresh ((newline_bytes body).mp inside)
      have same : some (Text.bytes body,Text.bytes rest) = some (front,[]) := by
        rw [← splitOnce_front early,← splitOnce_front clear,← bytes,whole]
      cases bytes_eq_nil (Prod.mk.inj (Option.some.inj same)).2
      exact .inr ⟨body,fresh,rfl⟩
    · exact absurd ((newline_bytes _).mpr fed) clear
  · exact .inl fed

theorem readLine_written (shape : IsLine line) (parts : reader.text = line.bytes ++ rest) :
    ∃ later, readLine reader = .ok (line,later) ∧ later.text = rest ∧ later.stream.ending = reader.stream.ending := by
  obtain ⟨front,fresh,form⟩ := shape.bytes
  rw [form,append_assoc] at parts
  obtain ⟨later,raw,text⟩ := readUntil_found parts fresh
  rw [← form] at raw
  exact ⟨later,readLine_iff.mpr raw,text,(readUntil_line raw).ending⟩

theorem readLine_waits (shape : IsLine line) (parts : reader.text ++ more = line.bytes) (missing : more ≠ [])
    (opened : reader.stream.ending = .stillOpen) : readLine reader = .error .waits := by
  obtain ⟨front,fresh,form⟩ := shape.bytes
  have clear : newline ∉ reader.text := by
    obtain ⟨init,last,rfl⟩ := (List.eq_nil_or_concat more).resolve_left missing
    rw [form,List.concat_eq_append,← append_assoc] at parts
    have inner := (List.append_inj_left' parts rfl)
    exact fun inside => fresh (inner ▸ List.mem_append_left init inside)
  rw [readLine,readUntil_end clear,opened]
  rfl

theorem head_written (shapes : ∀ field ∈ fields, IsLine field) (solid : ∀ field ∈ fields, blank field = false)
    (last : IsLine closing) (found : blank closing = true) (parts : reader.text = Text.bytes (fields.flatten ++ closing) ++ rest) :
    ∃ later, Head blank reader fields later ∧ later.text = rest ∧ later.stream.ending = reader.stream.ending := by
  induction fields generalizing reader with
  | nil =>
    obtain ⟨later,read,text,ending⟩ := readLine_written last parts
    exact ⟨later,.closing read found,text,ending⟩
  | cons field fields ih =>
    rw [flatten_cons,append_assoc,bytes_append,append_assoc] at parts
    obtain ⟨middle,read,text,ending⟩ := readLine_written (shapes field (mem_cons_self ..)) parts
    obtain ⟨later,head,behind,kept⟩ := ih (fun field member => shapes field (mem_cons_of_mem _ member))
      (fun field member => solid field (mem_cons_of_mem _ member)) text
    exact ⟨later,.field read (solid field (mem_cons_self ..)) head,behind,kept.trans ending⟩

theorem header_written (fields : List Text) (first : IsLine line) (shapes : ∀ field ∈ fields, IsLine field)
    (solid : ∀ field ∈ fields, blank field = false) (last : IsLine closing) (found : blank closing = true)
    (parts : reader.text = Text.bytes (line ++ (fields.flatten ++ closing)) ++ rest) :
    ∃ middle later, readLine reader = .ok (line,middle) ∧ Head blank middle fields later ∧ later.text = rest ∧
      Takes reader (Text.bytes (line ++ (fields.flatten ++ closing))) later := by
  have whole := parts
  rw [bytes_append,append_assoc] at parts
  obtain ⟨middle,read,text,-⟩ := readLine_written first parts
  obtain ⟨later,head,behind,-⟩ := head_written shapes solid last found text
  refine ⟨middle,later,read,head,behind,?_⟩
  obtain ⟨ending,-,taken⟩ := head.takes
  have takes := (readLine_takes read).trans taken
  have same := whole.symm.trans takes.text
  rw [behind] at same
  rw [List.append_cancel_right same]
  exact takes

theorem Head.unique (emptyBlank : blank [] = true) (first : Head blank reader fields later) (second : Head blank reader others last) : later = last := by
  have one : readHead blank "" reader = .ok _ := (readHead_iff emptyBlank).mpr first
  have two : readHead blank "" reader = .ok (others,last) := (readHead_iff emptyBlank).mpr second
  exact (Prod.mk.inj (Except.ok.inj (one.symm.trans two))).2

theorem part_or_whole (parts : seen ++ more = first ++ rest) :
    (∃ middle, middle ≠ [] ∧ seen ++ middle = first) ∨ ∃ middle, seen = first ++ middle ∧ middle ++ more = rest := by
  rcases append_eq_append_iff.mp parts with ⟨middle,whole,later⟩ | ⟨middle,whole,later⟩
  · by_cases present : middle = []
    · rw [present,append_nil] at whole
      rw [present] at later
      exact .inr ⟨[],by rw [whole,append_nil],later⟩
    · exact .inl ⟨middle,present,whole.symm⟩
  · exact .inr ⟨middle,whole,later.symm⟩

theorem headLoop_waits (fields : List Text) (shapes : ∀ field ∈ fields, IsLine field) (solid : ∀ field ∈ fields, blank field = false)
    (last : IsLine closing) (parts : reader.text ++ more = Text.bytes (fields.flatten ++ closing)) (missing : more ≠ [])
    (opened : reader.stream.ending = .stillOpen) (turns seen) : headLoop blank label turns seen reader = .error .waits := by
  induction fields generalizing reader turns seen with
  | nil =>
    cases turns with
    | zero => rfl
    | succ turns => rw [headLoop,readLine_waits last parts missing opened]; rfl
  | cons field fields ih =>
    cases turns with
    | zero => rfl
    | succ turns =>
      have shape := shapes field (mem_cons_self ..)
      rw [flatten_cons,append_assoc,bytes_append] at parts
      rcases part_or_whole parts with ⟨middle,present,whole⟩ | ⟨middle,whole,later⟩
      · rw [headLoop,readLine_waits shape whole present opened]
        rfl
      · obtain ⟨rest,read,text,ending⟩ := readLine_written shape whole
        rw [headLoop,read,labelled_ok,ok_bind]
        simp only [solid field (mem_cons_self ..)]
        refine ih (fun field member => shapes field (mem_cons_of_mem _ member))
          (fun field member => solid field (mem_cons_of_mem _ member)) ?_ (ending.trans opened) turns _
        rw [text]
        exact later

theorem cut_inside {first front : Bytes} (parts : first ++ second = front ++ rest) (enough : front.length ≤ first.length) :
    ∃ inner, first = front ++ inner ∧ inner ++ second = rest := by
  obtain ⟨inner,rfl⟩ := List.prefix_of_prefix_length_le ⟨rest,parts.symm⟩ (List.prefix_append first second) enough
  rw [append_assoc] at parts
  exact ⟨inner,rfl,List.append_cancel_left parts⟩

theorem exactLoop_enough (parts : text arrivals.reduceOption = front ++ rest) :
    ∃ later, exactLoop ending front.length arrivals = .ok (front,later) ∧ later.text = rest ∧ later.stream.ending = ending := by
  induction arrivals generalizing front with
  | nil =>
    obtain ⟨rfl,rfl⟩ := List.append_eq_nil_iff.mp parts.symm
    exact ⟨_,rfl,rfl,rfl⟩
  | cons arrival more ih =>
    cases front with
    | nil => exact ⟨_,rfl,parts,rfl⟩
    | cons b front =>
      cases arrival with
      | none => exact ih parts
      | some segment =>
        rw [length_cons,exactLoop]
        split
        · obtain ⟨inner,shape,behind⟩ := @cut_inside _ rest segment.val (b :: front) parts (by rw [length_cons]; omega)
          rw [shape,take_front (@length_cons _ b front),drop_front (@length_cons _ b front)]
          exact ⟨_,rfl,behind,rfl⟩
        · obtain ⟨inner,shape,behind⟩ := @cut_inside rest _ (b :: front) segment.val parts.symm (by rw [length_cons]; omega)
          obtain ⟨later,goes,text,same⟩ := ih behind.symm
          rw [← length_cons,shape,length_append,Nat.add_sub_cancel_left,goes]
          exact ⟨later,rfl,text,same⟩

theorem exactLoop_short (short : (text arrivals.reduceOption).length < n) : exactLoop ending n arrivals = .error ending.stop := by
  induction arrivals generalizing n with
  | nil =>
    obtain ⟨n,rfl⟩ : ∃ k, n = k + 1 := ⟨n - 1,by omega⟩
    rfl
  | cons arrival more ih =>
    obtain ⟨n,rfl⟩ : ∃ k, n = k + 1 := ⟨n - 1,by omega⟩
    cases arrival with
    | none => exact ih short
    | some segment =>
      have width : segment.val.length + (text more.reduceOption).length < n + 1 := by
        rw [← length_append]
        exact short
      rw [exactLoop,if_neg (by omega),ih (by omega)]
      rfl

variable {reader : Buffered}

theorem Buffered.readExact_enough (parts : reader.text = front ++ rest) (sized : front.length = n) :
    ∃ later, reader.readExact n = .ok (front,later) ∧ later.text = rest ∧ later.stream.ending = reader.stream.ending := by
  subst sized
  unfold Buffered.readExact
  split
  · rename_i enough
    obtain ⟨inner,shape,behind⟩ := cut_inside parts enough
    rw [shape,take_front rfl,drop_front rfl]
    exact ⟨_,rfl,behind,rfl⟩
  · rename_i missing
    obtain ⟨inner,rfl,behind⟩ := cut_inside parts.symm (Nat.le_of_not_le missing)
    obtain ⟨later,goes,text,same⟩ := exactLoop_enough behind.symm
    rw [length_append,Nat.add_sub_cancel_left,goes]
    exact ⟨later,rfl,text,same⟩

theorem Buffered.readExact_short (short : reader.text.length < n) : reader.readExact n = .error reader.stream.ending.stop := by
  have width : reader.buffer.length + reader.stream.text.length < n := by
    rw [← length_append]
    exact short
  have missing : reader.stream.text.length < n - reader.buffer.length := by omega
  rw [Buffered.readExact,if_neg (by omega),exactLoop_short missing]
  rfl

theorem fillLoop_present (present : text arrivals.reduceOption ≠ []) :
    ∃ next, fillLoop ending arrivals = .ok next ∧ next.buffer ≠ [] ∧ next.text = text arrivals.reduceOption := by
  induction arrivals with
  | nil => exact absurd rfl present
  | cons arrival rest ih =>
    cases arrival with
    | none => exact ih present
    | some segment => exact ⟨_,rfl,List.ne_nil_of_length_pos segment.property.1,rfl⟩

theorem fillLoop_empty (empty : text arrivals.reduceOption = []) : fillLoop ending arrivals = fillLoop ending [] := by
  induction arrivals with
  | nil => rfl
  | cons arrival rest ih =>
    cases arrival with
    | none => exact ih empty
    | some segment => exact absurd (List.append_eq_nil_iff.mp empty).1 (List.ne_nil_of_length_pos segment.property.1)

theorem Buffered.fillBuf_present (present : reader.text ≠ []) : ∃ next, reader.fillBuf = .ok next ∧ next.buffer ≠ [] ∧ next.text = reader.text := by
  unfold Buffered.fillBuf
  by_cases empty : reader.buffer = []
  · rw [Buffered.text,empty] at present
    rw [Buffered.text,empty]
    exact fillLoop_present present
  · exact ⟨reader,if_neg empty,empty,rfl⟩

theorem Buffered.fillBuf_empty (empty : reader.text = []) : reader.fillBuf = fillLoop reader.stream.ending [] := by
  obtain ⟨noBuffer,noText⟩ := List.append_eq_nil_iff.mp empty
  rw [Buffered.fillBuf,if_pos noBuffer]
  exact fillLoop_empty noText

end AstraCore.LineReader
