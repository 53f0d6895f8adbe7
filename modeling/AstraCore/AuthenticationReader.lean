import AstraCore.Authenticators
import AstraCore.ReaderWalk
import Mathlib.Data.List.TakeDrop

namespace AstraCore.SealedChunks
open CheckedBytes CallOrder Authenticators Buffers
open List (append_nil cons_ne_nil flatten_cons length_append)

-- A `ChunkSizeDecoder` with the encoder of the other side. Both may depend on their earlier calls, and there may be sizes
-- that are not encoded.
structure SizeCodec where
  sizeBytes : Nat
  carries : UInt16 → Prop
  encodes : List UInt16 → UInt16 → Bytes
  decodes : List Bytes → Bytes → Except IoError UInt16
  width : ∀ earlier size, (encodes earlier size).length = sizeBytes
  inverts : ∀ earlier size, (∀ before ∈ earlier, carries before) → carries size →
    decodes (outputs encodes [] earlier) (encodes earlier size) = .ok size

-- `opened` and `decoded` are what the authenticator and the size parser were called with, `drawn` counts the lengths taken
-- from the padding generator.
structure AuthenticationReader where
  opened : List Bytes
  reader : BufferedReader
  decoded : List Bytes
  drawn : Nat
  cachedSize : UInt16
  cachedPadding : UInt16
  hasSize : Bool
  done : Bool

def errSoft : String := "waiting for more data"
def waiting : IoError := ⟨.other,errSoft⟩
def eof : IoError := ⟨.unexpectedEof,"EOF"⟩
def notEnough : IoError := ⟨.unexpectedEof,"not enough data"⟩

-- The end of `read_buffer`: the buffer holds a sealed chunk and is extended by the length of the opened one. What was opened
-- is copied behind that, and the end is set back to its length.
def inPlace (fresh : Block) (chunk opened : Bytes) : Checked Buffer := do
  let b ← (Buffer.fromSlice fresh chunk).extend opened.length
  let copied : Buffer := {b with data := writeAt b.data b.stop (opened.take b.available) (b.written_fits opened)}
  .ok (copied.upTo (opened.take b.available).length (Nat.le_trans (Nat.le_add_left ..) (b.written_fits opened)))

-- `padding` is what the generator gives call by call, zero where there is none.
variable (auth : Authenticator) (parser : SizeCodec) (padding : Nat → UInt16) (fresh : Block)

namespace AuthenticationReader

def new (source : Source) : AuthenticationReader := ⟨[],.new source,[],0,0,0,false,false⟩

section
variable (r : AuthenticationReader)

def readSize : Checked (Except IoError (UInt16 × UInt16) × AuthenticationReader) :=
  if r.hasSize then .ok (.ok (r.cachedSize,r.cachedPadding),{r with hasSize := false})
  else do
    let (field,reader) ← r.reader.readExact parser.sizeBytes
    match field with
    | .error e => .ok (.error e,{r with reader})
    | .ok sizeBytes =>
      .ok ((parser.decodes r.decoded sizeBytes).map fun size => (size,padding r.drawn),
        {r with reader,drawn := r.drawn + 1,decoded := r.decoded ++ [sizeBytes]})

-- A padding above the size underflows, in a build without checks into a slice index.
def openFront (chunk : Bytes) (padding : Nat) : Checked (Except IoError Bytes × AuthenticationReader) :=
  if chunk.length < padding then .error .sliceIndex
  else .ok ((auth.opens r.opened (chunk.take (chunk.length - padding))).mapError fun text => ⟨.other,text⟩,
    {r with opened := r.opened ++ [chunk.take (chunk.length - padding)]})

def readBuffer (size padding : Nat) : Checked (Except IoError Buffer × AuthenticationReader) := do
  let (chunk,reader) ← r.reader.fill false notEnough size
  match chunk with
  | .error e => .ok (.error e,{r with reader})
  | .ok chunk =>
    let (opened,r) ← {r with reader}.openFront auth chunk padding
    match opened with
    | .error e => .ok (.error e,r)
    | .ok opened => do
      let b ← inPlace fresh chunk opened
      .ok (.ok b,r)

def readPayload (size padding : Nat) : Checked (Except IoError Buffer × AuthenticationReader) := do
  let (payload,reader) ← r.reader.readExact size
  match payload with
  | .error e => .ok (.error e,{r with reader})
  | .ok payload =>
    let (opened,r) ← {r with reader}.openFront auth payload padding
    .ok (opened.map (Buffer.fromSlice fresh),r)

def readSized (soft : Bool) (size pad : UInt16) : Checked (Except IoError Buffer × AuthenticationReader) :=
  if size.toNat = auth.overhead + pad.toNat then .ok (.error eof,{r with done := true})
  else if soft ∧ r.reader.bufferedBytes < size.toNat then
    .ok (.error waiting,{r with cachedSize := size,cachedPadding := pad,hasSize := true})
  else if size.toNat ≤ SIZE then r.readBuffer auth fresh size.toNat pad.toNat
  else r.readPayload auth fresh size.toNat pad.toNat

def readChunk (soft : Bool) : Checked (Except IoError Buffer × AuthenticationReader) :=
  if soft ∧ r.reader.bufferedBytes < parser.sizeBytes then .ok (.error waiting,r)
  else if r.done then .ok (.error eof,r)
  else do
    let (sized,r) ← r.readSize parser padding
    match sized with
    | .error e => .ok (.error e,r)
    | .ok (size,pad) => r.readSized auth fresh soft size pad

def readInternal (soft : Bool) (mb : MultiBuffer) : Checked (Except IoError MultiBuffer × AuthenticationReader) := do
  let (chunk,r) ← r.readChunk auth parser padding fresh soft
  .ok (chunk.map mb.pushBack,r)

end

def softLoop : Nat → AuthenticationReader → MultiBuffer → Checked (Except IoError MultiBuffer × AuthenticationReader)
  | 0,r,mb => .ok (.ok mb,r)
  | left+1,r,mb => do
    let (result,r) ← r.readInternal auth parser padding fresh true mb
    match result with
    | .ok mb => softLoop left r mb
    | .error e => if e.message = errSoft ∨ e.kind = .unexpectedEof then .ok (.ok mb,r) else .ok (.error e,r)

def READ_SIZE : Nat := 16

def readMultiBuffer (r : AuthenticationReader) : Checked (Except IoError MultiBuffer × AuthenticationReader) := do
  let (result,r) ← r.readInternal auth parser padding fresh false .new
  match result with
  | .error e => .ok (.error e,r)
  | .ok mb => softLoop auth parser padding fresh (READ_SIZE - 1) r mb

end AuthenticationReader

inductive Drains : AuthenticationReader → Bytes → IoError → AuthenticationReader → Prop where
  | ends (failed : r.readMultiBuffer auth parser padding fresh = .ok (.error e,last)) : Drains r [] e last
  | goes (returned : r.readMultiBuffer auth parser padding fresh = .ok (.ok mb,next)) (later : Drains next bytes e last) :
      Drains r (mb.bytes ++ bytes) e last

section
variable (earlier : List Bytes)

def fieldSize (plaintext : Bytes) : Nat :=
  (auth.seals earlier plaintext).length + (padding earlier.length).toNat

def field (plaintext : Bytes) : UInt16 := UInt16.ofNat (fieldSize auth padding earlier plaintext)

def fields : List UInt16 := outputs (field auth padding) [] earlier

end

variable (pads : Nat → Bytes)

def payload (earlier : List Bytes) (plaintext : Bytes) : Bytes := auth.seals earlier plaintext ++ pads earlier.length

def chunkOf (earlier : List Bytes) (plaintext : Bytes) : Bytes :=
  parser.encodes (fields auth padding earlier) (field auth padding earlier plaintext) ++ payload auth pads earlier plaintext

def wire (earlier chunks : List Bytes) : Bytes := (outputs (chunkOf auth parser padding pads) earlier chunks).flatten

def Small : List Bytes → List Bytes → Prop
  | _,[] => True
  | earlier,plaintext :: more =>
    (fieldSize auth padding earlier plaintext < 65536 ∧ parser.carries (field auth padding earlier plaintext)) ∧ Small (earlier ++ [plaintext]) more

-- Plaintexts with the empty chunk behind them, sent and split into MultiBuffers, none of which is empty: that would be the
-- end of the stream.
structure Transmission where
  plaintexts : List Bytes
  pads : Nat → Bytes
  padded : ∀ call, (pads call).length = (padding call).toNat
  small : Small auth parser padding [] (plaintexts ++ [[]])
  pieces : List MultiBuffer
  proper : Proper (pieces.map fun p => lengths p.bufs)
  carries : pieces.flatMap MultiBuffer.bytes = wire auth parser padding pads [] (plaintexts ++ [[]])

def Transmission.RoundTrips (t : Transmission auth parser padding) : Prop :=
  ∃ e last, Drains auth parser padding fresh (.new ⟨t.pieces.map .ok,[]⟩) t.plaintexts.flatten e last ∧ e.kind = .unexpectedEof

-- What comes out for a chunk: in a buffer the front of the sealed chunk, as far as the block has room for the opened one
-- twice; none where it does not have it once.
def returned (earlier : List Bytes) (plaintext : Bytes) : Option Bytes :=
  if fieldSize auth padding earlier plaintext ≤ SIZE then
    if fieldSize auth padding earlier plaintext + plaintext.length ≤ SIZE then
      some ((auth.seals earlier plaintext).take (min plaintext.length (SIZE - (fieldSize auth padding earlier plaintext + plaintext.length))))
    else none
  else some (plaintext.take SIZE)

def outcome : List Bytes → List Nat → List (List Nat) → Bool → List Bytes → Option Bytes
  | _,_,_,_,[] => some []
  | earlier,cur,later,sized,plaintext :: more => do
    let (cur,later) ← (if sized then some (cur,later) else walkField parser.sizeBytes cur later)
    if plaintext = [] then some []
    else do
      let (cur,later) ← walkField (fieldSize auth padding earlier plaintext) cur later
      let front ← returned auth padding earlier plaintext
      (outcome (earlier ++ [plaintext]) cur later false more).map (front ++ ·)

def Comes (earlier : List Bytes) (plaintext : Bytes) : Prop :=
  if fieldSize auth padding earlier plaintext ≤ SIZE then
    fieldSize auth padding earlier plaintext + 2 * plaintext.length ≤ SIZE ∧ plaintext <+: auth.seals earlier plaintext
  else plaintext.length ≤ SIZE

def Passes : List Bytes → List Nat → List (List Nat) → List Bytes → Prop
  | _,_,_,[] => True
  | earlier,cur,later,plaintext :: more => ∃ opened, walkField parser.sizeBytes cur later = some opened ∧
    if plaintext = [] then more.flatten = []
    else Comes auth padding earlier plaintext ∧
      ∃ behind, walkField (fieldSize auth padding earlier plaintext) opened.1 opened.2 = some behind ∧
        Passes (earlier ++ [plaintext]) behind.1 behind.2 more

section
variable {auth : Authenticator} {parser : SizeCodec} {padding : Nat → UInt16} {fresh : Block} {pads : Nat → Bytes}

theorem inPlace_fits (fits : chunk.length + opened.length ≤ SIZE) (less : opened.length ≤ chunk.length) :
    ∃ b, inPlace fresh chunk opened = .ok b ∧ b.bytes = chunk.take (min opened.length (SIZE - (chunk.length + opened.length))) := by
  have short : chunk.length ≤ SIZE := by omega
  have stop : (Buffer.fromSlice fresh chunk).stop = chunk.length := Buffer.fromSlice_len fresh short
  have extended : (Buffer.fromSlice fresh chunk).stop + opened.length ≤ SIZE := by rwa [stop]
  have width : (opened.take (SIZE - (chunk.length + opened.length))).length = min opened.length (SIZE - (chunk.length + opened.length)) := by
    rw [List.length_take,Nat.min_comm]
  rw [inPlace,Buffer.extend,dif_pos extended]
  refine ⟨_,rfl,?_⟩
  rw [Buffer.upTo_bytes]
  dsimp only [Buffer.available]
  simp only [stop,width]
  have whole : (Buffer.fromSlice fresh chunk).data.val.take chunk.length = chunk := by
    have shown := Buffer.fromSlice_bytes fresh chunk
    rwa [Buffer.bytes,stop,List.take_of_length_le short] at shown
  have inside : min opened.length (SIZE - (chunk.length + opened.length)) ≤ chunk.length := by omega
  have front := List.take_take (i := min opened.length (SIZE - (chunk.length + opened.length))) (j := chunk.length)
    (l := (Buffer.fromSlice fresh chunk).data.val)
  rw [whole,Nat.min_eq_left inside] at front
  rw [writeAt_before _ _ (by omega),front]

theorem inPlace_overflows (overflows : SIZE < chunk.length + opened.length) (short : chunk.length ≤ SIZE) :
    inPlace fresh chunk opened = .error .capacity := by
  have stop : (Buffer.fromSlice fresh chunk).stop = chunk.length := Buffer.fromSlice_len fresh short
  rw [inPlace,Buffer.extend,dif_neg (by rw [stop]; omega)]
  rfl

theorem field_toNat (small : fieldSize auth padding earlier plaintext < 65536) :
    (field auth padding earlier plaintext).toNat = fieldSize auth padding earlier plaintext := UInt16.toNat_ofNat_of_lt small

theorem payload_length (padded : ∀ call, (pads call).length = (padding call).toNat) (earlier plaintext) :
    (payload auth pads earlier plaintext).length = fieldSize auth padding earlier plaintext := by
  rw [payload,length_append,padded]
  rfl

theorem fieldSize_eq (earlier plaintext) : fieldSize auth padding earlier plaintext = plaintext.length + auth.overhead + (padding earlier.length).toNat := by
  rw [fieldSize,auth.seals_length]

theorem wire_cons (earlier) (plaintext) : wire auth parser padding pads earlier (plaintext :: more) =
      parser.encodes (fields auth padding earlier) (field auth padding earlier plaintext) ++
        (payload auth pads earlier plaintext ++ wire auth parser padding pads (earlier ++ [plaintext]) more) := by
  rw [wire,outputs,flatten_cons,chunkOf,List.append_assoc]
  rfl

theorem fields_concat (earlier plaintext) :
    fields auth padding (earlier ++ [plaintext]) = fields auth padding earlier ++ [field auth padding earlier plaintext] :=
  outputs_concat ..

structure Fresh (auth : Authenticator) (parser : SizeCodec) (padding : Nat → UInt16) (pads : Nat → Bytes)
    (r : AuthenticationReader) (earlier : List Bytes) (cur : List Nat) (later : List (List Nat)) (chunks : List Bytes) : Prop where
  opened : r.opened = outputs auth.seals [] earlier
  decoded : r.decoded = outputs parser.encodes [] (fields auth padding earlier)
  carried : ∀ size ∈ fields auth padding earlier, parser.carries size
  drawn : r.drawn = earlier.length
  unsized : r.hasSize = false
  undone : r.done = false
  proper : Proper later
  holds : Holds r.reader cur later (wire auth parser padding pads earlier chunks)

structure Sized (auth : Authenticator) (parser : SizeCodec) (padding : Nat → UInt16) (pads : Nat → Bytes)
    (r : AuthenticationReader) (earlier : List Bytes) (cur : List Nat) (later : List (List Nat)) (plaintext : Bytes) (more : List Bytes) : Prop where
  opened : r.opened = outputs auth.seals [] earlier
  decoded : r.decoded = outputs parser.encodes [] (fields auth padding (earlier ++ [plaintext]))
  carried : ∀ size ∈ fields auth padding (earlier ++ [plaintext]), parser.carries size
  drawn : r.drawn = earlier.length + 1
  undone : r.done = false
  proper : Proper later
  holds : Holds r.reader cur later (payload auth pads earlier plaintext ++ wire auth parser padding pads (earlier ++ [plaintext]) more)

inductive Stands (auth : Authenticator) (parser : SizeCodec) (padding : Nat → UInt16) (pads : Nat → Bytes)
    (r : AuthenticationReader) (earlier : List Bytes) (cur : List Nat) (later : List (List Nat)) : Bool → List Bytes → Prop where
  | finished (done : r.done = true) : Stands auth parser padding pads r earlier cur later false []
  | fresh (fresh : Fresh auth parser padding pads r earlier cur later (plaintext :: more)) :
      Stands auth parser padding pads r earlier cur later false (plaintext :: more)
  | cached (sized : Sized auth parser padding pads r earlier cur later plaintext more) (hasSize : r.hasSize = true)
      (size : r.cachedSize = field auth padding earlier plaintext) (pad : r.cachedPadding = padding earlier.length) :
      Stands auth parser padding pads r earlier cur later true (plaintext :: more)

theorem openFront_payload {r : AuthenticationReader} (padded : ∀ call, (pads call).length = (padding call).toNat)
    (opened : r.opened = outputs auth.seals [] earlier) (plaintext) : r.openFront auth (payload auth pads earlier plaintext) (padding earlier.length).toNat =
      .ok (.ok plaintext,{r with opened := outputs auth.seals [] (earlier ++ [plaintext])}) := by
  have width := @payload_length auth padding pads padded earlier plaintext
  have bounded : ¬ (payload auth pads earlier plaintext).length < (padding earlier.length).toNat := by
    rw [width,fieldSize]
    omega
  have front : (payload auth pads earlier plaintext).take ((payload auth pads earlier plaintext).length - (padding earlier.length).toNat) =
      auth.seals earlier plaintext := by
    rw [width,fieldSize,Nat.add_sub_cancel,payload,List.take_left]
  rw [AuthenticationReader.openFront,if_neg bounded,front,opened,auth.inverts,outputs_concat]
  rfl

inductive PayloadTurn (auth : Authenticator) (parser : SizeCodec) (padding : Nat → UInt16) (pads : Nat → Bytes)
    (earlier : List Bytes) (cur : List Nat) (later : List (List Nat)) (plaintext : Bytes) (more : List Bytes)
    (result : Checked (Except IoError Buffer × AuthenticationReader)) : Prop where
  | splits (panics : result = .error .sliceIndex) (overruns : walkField (fieldSize auth padding earlier plaintext) cur later = none)
  | overflows (panics : result = .error .capacity) (full : returned auth padding earlier plaintext = none)
  | gives (done : result = .ok (.ok b,after)) (front : returned auth padding earlier plaintext = some b.bytes)
      (walks : walkField (fieldSize auth padding earlier plaintext) cur later = some walked)
      (stands : Fresh auth parser padding pads after (earlier ++ [plaintext]) walked.1 walked.2 more)

section
variable {r : AuthenticationReader} (sized : Sized auth parser padding pads r earlier cur later plaintext more) (unsized : r.hasSize = false)
include sized unsized

theorem sized_opened (walks : walkField (fieldSize auth padding earlier plaintext) cur later = some (cur',later'))
    (holds : Holds after cur' later' (wire auth parser padding pads (earlier ++ [plaintext]) more)) :
    Fresh auth parser padding pads {r with reader := after,opened := outputs auth.seals [] (earlier ++ [plaintext])} (earlier ++ [plaintext])
      cur' later' more where
  opened := rfl
  decoded := sized.decoded
  carried := sized.carried
  drawn := by simpa using sized.drawn
  unsized := unsized
  undone := sized.undone
  proper := walkField_proper sized.proper walks
  holds := holds

section
variable (padded : ∀ call, (pads call).length = (padding call).toNat)
include padded

theorem readBuffer_turn (short : fieldSize auth padding earlier plaintext ≤ SIZE) : PayloadTurn auth parser padding pads earlier cur later plaintext more
      (r.readBuffer auth fresh (fieldSize auth padding earlier plaintext) (padding earlier.length).toNat) := by
  have width := @payload_length auth padding pads padded earlier plaintext
  have filled := BufferedReader.fill_walks false notEnough sized.holds sized.proper
  rw [width] at filled
  generalize walks : walkField _ cur later = walked at filled
  rw [AuthenticationReader.readBuffer]
  cases filled with
  | panics overruns =>
    refine .splits ?_ walks
    rw [overruns]
    rfl
  | read after read holds =>
    have turn := openFront_payload (r := {r with reader := after}) padded sized.opened plaintext
    rw [read,ok_bind]
    dsimp only
    rw [turn,ok_bind]
    dsimp only
    by_cases fits : fieldSize auth padding earlier plaintext + plaintext.length ≤ SIZE
    · have less : plaintext.length ≤ (payload auth pads earlier plaintext).length := by
        rw [width,fieldSize_eq]
        omega
      obtain ⟨b,done,bytes⟩ := @inPlace_fits fresh (payload auth pads earlier plaintext) plaintext (by rwa [width]) less
      rw [done]
      refine .gives rfl ?_ walks (sized_opened sized unsized walks holds)
      rw [returned,if_pos short,if_pos fits,bytes,width,payload,List.take_append_of_le_length]
      rw [auth.seals_length]
      omega
    · refine .overflows ?_ (by rw [returned,if_pos short,if_neg fits])
      rw [inPlace_overflows (by rw [width]; omega) (by rwa [width])]
      rfl

theorem readPayload_turn (long : ¬ fieldSize auth padding earlier plaintext ≤ SIZE) : PayloadTurn auth parser padding pads earlier cur later plaintext more
      (r.readPayload auth fresh (fieldSize auth padding earlier plaintext) (padding earlier.length).toNat) := by
  have filled := BufferedReader.fill_walks true ⟨.unexpectedEof,"failed to fill whole buffer"⟩ sized.holds sized.proper
  rw [@payload_length auth padding pads padded] at filled
  generalize walks : walkField (fieldSize auth padding earlier plaintext) cur later = walked at filled
  rw [AuthenticationReader.readPayload,BufferedReader.readExact]
  cases filled with
  | panics overruns =>
    refine .splits ?_ walks
    rw [overruns]
    rfl
  | read after read holds =>
    have turn := openFront_payload (r := {r with reader := after}) padded sized.opened plaintext
    rw [read,ok_bind]
    dsimp only
    rw [turn]
    have stands := sized_opened sized unsized walks holds
    refine .gives rfl ?_ walks stands
    rw [returned,if_neg long,Buffer.fromSlice_bytes]

end

end

-- How `read_internal` leaves the rest of the stream. A soft read may find too little and be asked again later.
inductive Turn (auth : Authenticator) (parser : SizeCodec) (padding : Nat → UInt16) (pads : Nat → Bytes)
    (soft : Bool) (earlier : List Bytes) (chunks : List Bytes) (whole : Option Bytes)
    (result : Checked (Except IoError Buffer × AuthenticationReader)) : Prop where
  | panics (panics : result = .error fault) (none : whole = none)
  | ends (done : result = .ok (.error eof,after)) (finished : after.done = true) (nothing : whole = some [])
  | waits (soft : soft = true) (done : result = .ok (.error waiting,after))
      (stands : Stands auth parser padding pads after earlier cur later sized chunks)
      (same : outcome auth parser padding earlier cur later sized chunks = whole)
  | gives (chunks : chunks = plaintext :: more) (some : plaintext ≠ []) (done : result = .ok (.ok b,after))
      (stands : Stands auth parser padding pads after (earlier ++ [plaintext]) cur later false more)
      (front : whole = (outcome auth parser padding (earlier ++ [plaintext]) cur later false more).map (b.bytes ++ ·))

theorem outcome_fresh (earlier cur) : outcome auth parser padding earlier cur later false (plaintext :: more) =
      (walkField parser.sizeBytes cur later).bind fun walked => outcome auth parser padding earlier walked.1 walked.2 true (plaintext :: more) := by
  rfl

theorem outcome_cached (some : plaintext ≠ []) (earlier cur) : outcome auth parser padding earlier cur later true (plaintext :: more) =
      (walkField (fieldSize auth padding earlier plaintext) cur later).bind fun walked =>
        (returned auth padding earlier plaintext).bind fun front =>
          (outcome auth parser padding (earlier ++ [plaintext]) walked.1 walked.2 false more).map (front ++ ·) := by
  change (if plaintext = [] then _ else _) = _
  rw [if_neg some]
  rfl

theorem outcome_empty (earlier cur) : outcome auth parser padding earlier cur later true ([] :: more) = some [] := by
  rfl

theorem stands_fresh {r : AuthenticationReader} (fresh : Fresh auth parser padding pads r earlier cur later chunks) (some : chunks ≠ []) :
    Stands auth parser padding pads r earlier cur later false chunks := by
  obtain ⟨plaintext,more,rfl⟩ := List.exists_cons_of_ne_nil some
  exact .fresh fresh

theorem terminator_ahead (some : plaintext ≠ []) (ahead : [] ∈ plaintext :: more) : ([] : Bytes) ∈ more := by
  rcases List.mem_cons.mp ahead with here | there
  · exact absurd here.symm some
  · exact there

section
variable {r : AuthenticationReader}

theorem readSized_turn (sized : Sized auth parser padding pads r earlier cur later plaintext more)
    (unsized : r.hasSize = false) (padded : ∀ call, (pads call).length = (padding call).toNat)
    (small : fieldSize auth padding earlier plaintext < 65536) (ahead : [] ∈ plaintext :: more) (soft) :
    Turn auth parser padding pads soft earlier (plaintext :: more)
      (outcome auth parser padding earlier cur later true (plaintext :: more))
      (r.readSized auth fresh soft (field auth padding earlier plaintext) (padding earlier.length)) := by
  rw [AuthenticationReader.readSized,field_toNat small]
  by_cases empty : plaintext = []
  · subst empty
    rw [if_pos (by rw [fieldSize_eq,List.length_nil,Nat.zero_add])]
    exact .ends rfl rfl (outcome_empty ..)
  have some : plaintext.length ≠ 0 := fun zero => empty (List.eq_nil_of_length_eq_zero zero)
  rw [if_neg (by rw [fieldSize_eq]; omega)]
  by_cases less : soft ∧ r.reader.bufferedBytes < fieldSize auth padding earlier plaintext
  · rw [if_pos less]
    refine .waits less.1 rfl (.cached ?_ rfl rfl rfl) rfl
    exact ⟨sized.opened,sized.decoded,sized.carried,sized.drawn,sized.undone,sized.proper,sized.holds⟩
  rw [if_neg less,outcome_cached empty]
  have turn : PayloadTurn auth parser padding pads earlier cur later plaintext more
      (if fieldSize auth padding earlier plaintext ≤ SIZE
        then r.readBuffer auth fresh (fieldSize auth padding earlier plaintext) (padding earlier.length).toNat
        else r.readPayload auth fresh (fieldSize auth padding earlier plaintext) (padding earlier.length).toNat) := by
    split
    · exact readBuffer_turn sized unsized padded ‹_›
    · exact readPayload_turn sized unsized padded ‹_›
  cases turn with
  | splits panics overruns => exact .panics panics (by rw [overruns]; rfl)
  | overflows panics full =>
    refine .panics panics ?_
    rw [full]
    cases walkField (fieldSize auth padding earlier plaintext) cur later with
    | none | some walked => rfl
  | gives done front walks fresh =>
    refine .gives rfl empty done (stands_fresh fresh (List.ne_nil_of_mem (terminator_ahead empty ahead))) ?_
    rw [walks,front]
    rfl

theorem readSize_walks (fresh : Fresh auth parser padding pads r earlier cur later (plaintext :: more))
    (carried : parser.carries (field auth padding earlier plaintext)) :
    walkField parser.sizeBytes cur later = none ∧ r.readSize parser padding = .error .sliceIndex ∨
      ∃ walked after, walkField parser.sizeBytes cur later = some walked ∧ after.hasSize = false ∧
        r.readSize parser padding = .ok (.ok (field auth padding earlier plaintext,padding earlier.length),after) ∧
        Sized auth parser padding pads after earlier walked.1 walked.2 plaintext more := by
  have holds := fresh.holds
  rw [wire_cons] at holds
  have filled := BufferedReader.fill_walks true ⟨.unexpectedEof,"failed to fill whole buffer"⟩ holds fresh.proper
  rw [parser.width] at filled
  rw [AuthenticationReader.readSize,fresh.unsized,BufferedReader.readExact]
  generalize walks : walkField parser.sizeBytes cur later = walked at filled
  cases filled with
  | panics overruns =>
    rw [overruns]
    exact .inl ⟨rfl,rfl⟩
  | read reader read behind =>
    rw [read,ok_bind]
    dsimp only
    rw [fresh.decoded,parser.inverts _ _ fresh.carried carried,fresh.drawn]
    refine .inr ⟨_,_,rfl,?_,rfl,?_⟩
    · rfl
    · refine ⟨fresh.opened,?_,?_,rfl,fresh.undone,walkField_proper fresh.proper walks,behind⟩
      · rw [fields_concat,outputs_concat,List.nil_append]
      · rw [fields_concat]
        intro size found
        rcases List.mem_append.mp found with before | last
        · exact fresh.carried size before
        · cases List.mem_singleton.mp last
          exact carried

theorem readChunk_turn (stands : Stands auth parser padding pads r earlier cur later sized chunks)
    (padded : ∀ call, (pads call).length = (padding call).toNat) (small : Small auth parser padding earlier chunks) (ahead : chunks ≠ [] → [] ∈ chunks) (soft) :
    Turn auth parser padding pads soft earlier chunks (outcome auth parser padding earlier cur later sized chunks)
      (r.readChunk auth parser padding fresh soft) := by
  rw [AuthenticationReader.readChunk]
  by_cases less : soft ∧ r.reader.bufferedBytes < parser.sizeBytes
  · rw [if_pos less]
    exact .waits less.1 rfl stands rfl
  rw [if_neg less]
  cases stands with
  | finished done =>
    rw [if_pos done]
    exact .ends rfl done rfl
  | cached sized hasSize size pad =>
    rw [sized.undone,AuthenticationReader.readSize,if_pos hasSize]
    have behind : Sized auth parser padding pads {r with hasSize := false} earlier cur later _ _ :=
      ⟨sized.opened,sized.decoded,sized.carried,sized.drawn,sized.undone,sized.proper,sized.holds⟩
    have turn := @readSized_turn auth parser padding fresh pads _ _ _ _ _ _ behind rfl padded small.1.1 (ahead (cons_ne_nil _ _)) soft
    rw [← size,← pad] at turn
    exact turn
  | fresh fresh =>
    rw [fresh.undone,outcome_fresh]
    rcases readSize_walks fresh small.1.2 with ⟨overruns,panics⟩ | ⟨walked,after,walks,unsized,read,sized⟩
    · refine @Turn.panics _ _ _ _ _ _ _ _ _ .sliceIndex ?_ (by rw [overruns]; rfl)
      rw [panics]
      rfl
    · rw [walks,read]
      exact readSized_turn sized unsized padded small.1.1 (ahead (cons_ne_nil _ _)) soft

end

theorem readInternal_chunk (r : AuthenticationReader) (soft mb) :
    r.readInternal auth parser padding fresh soft mb = (r.readChunk auth parser padding fresh soft).map fun done => (done.1.map mb.pushBack,done.2) := by
  rw [AuthenticationReader.readInternal]
  cases r.readChunk auth parser padding fresh soft with
  | error fault | ok done => rfl

inductive Called (auth : Authenticator) (parser : SizeCodec) (padding : Nat → UInt16) (pads : Nat → Bytes)
    (front : Bytes) (limit : Nat) (whole : Option Bytes) (result : Checked (Except IoError MultiBuffer × AuthenticationReader)) : Prop where
  | panics (panics : result = .error fault) (none : whole = none)
  | returns (done : result = .ok (.ok mb,after)) (bytes : mb.bytes = front ++ got)
      (stands : Stands auth parser padding pads after earlier cur later sized chunks) (fewer : chunks.length < limit)
      (small : Small auth parser padding earlier chunks) (ahead : chunks ≠ [] → [] ∈ chunks)
      (behind : whole = (outcome auth parser padding earlier cur later sized chunks).map (got ++ ·))

theorem called_behind (called : Called auth parser padding pads (front ++ more) limit whole result) :
    Called auth parser padding pads front limit (whole.map (more ++ ·)) result := by
  cases called with
  | panics panics none => exact .panics panics (by rw [none]; rfl)
  | returns done bytes stands fewer small ahead behind =>
    refine .returns done (bytes.trans (List.append_assoc ..)) stands fewer small ahead ?_
    rw [behind]
    simp [Function.comp_def]

variable (padded : ∀ call, (pads call).length = (padding call).toNat)
include padded

section
variable {r : AuthenticationReader}

theorem softLoop_called {n : Nat} (stands : Stands auth parser padding pads r earlier cur later sized chunks)
    (small : Small auth parser padding earlier chunks)
    (ahead : chunks ≠ [] → [] ∈ chunks) (fewer : chunks.length < limit) (mb) :
    Called auth parser padding pads mb.bytes limit (outcome auth parser padding earlier cur later sized chunks)
      (AuthenticationReader.softLoop auth parser padding fresh n r mb) := by
  induction n generalizing r earlier cur later sized chunks mb with
  | zero => exact .returns rfl (append_nil _).symm stands fewer small ahead (by simp)
  | succ n ih =>
    have turn := @readChunk_turn auth parser padding fresh pads _ _ _ _ _ _ stands padded small ahead true
    rw [AuthenticationReader.softLoop,readInternal_chunk]
    cases turn with
    | panics panics none => exact .panics (by rw [panics]; rfl) none
    | ends done finished nothing =>
      rw [done]
      refine .returns rfl (append_nil _).symm (@Stands.finished auth parser padding pads _ [] [] [] finished)
        (Nat.zero_lt_of_lt fewer) trivial (absurd rfl) ?_
      rw [nothing]
      rfl
    | waits soft done again same =>
      rw [done]
      exact .returns rfl (append_nil _).symm again fewer small ahead (by simp [same])
    | gives split some done next front =>
      subst split
      rw [done,front]
      apply called_behind
      rw [← MultiBuffer.pushBack_bytes]
      exact ih next small.2 (fun _ => terminator_ahead some (ahead (cons_ne_nil _ _))) (Nat.lt_of_succ_lt fewer) _

theorem readMultiBuffer_called (stands : Stands auth parser padding pads r earlier cur later sized chunks)
    (small : Small auth parser padding earlier chunks)
    (ahead : chunks ≠ [] → [] ∈ chunks) : (∃ after, r.readMultiBuffer auth parser padding fresh = .ok (.error eof,after) ∧
      outcome auth parser padding earlier cur later sized chunks = some []) ∨
    Called auth parser padding pads [] chunks.length (outcome auth parser padding earlier cur later sized chunks)
      (r.readMultiBuffer auth parser padding fresh) := by
  have turn := @readChunk_turn auth parser padding fresh pads _ _ _ _ _ _ stands padded small ahead false
  rw [AuthenticationReader.readMultiBuffer,readInternal_chunk]
  cases turn with
  | panics panics none => exact .inr (.panics (by rw [panics]; rfl) none)
  | ends done finished nothing =>
    rw [done]
    exact .inl ⟨_,rfl,nothing⟩
  | waits soft => cases soft
  | gives split some done next front =>
    subst split
    rw [done,front]
    refine .inr (called_behind ?_)
    rw [← MultiBuffer.new_bytes,← MultiBuffer.pushBack_bytes]
    exact softLoop_called padded next small.2 (fun _ => terminator_ahead some (ahead (cons_ne_nil _ _))) (Nat.lt_succ_self _) _

theorem outcome_drains (stands : Stands auth parser padding pads r earlier cur later sized chunks) (small : Small auth parser padding earlier chunks)
    (ahead : chunks ≠ [] → [] ∈ chunks) (whole : outcome auth parser padding earlier cur later sized chunks = some bytes) :
    ∃ last, Drains auth parser padding fresh r bytes eof last := by
  induction count : chunks.length using Nat.strongRecOn generalizing r earlier cur later sized chunks bytes with
  | ind n ih =>
    subst count
    rcases @readMultiBuffer_called auth parser padding fresh pads padded _ _ _ _ _ _ stands small ahead with ⟨after,done,nothing⟩ | called
    · cases whole.symm.trans nothing
      exact ⟨after,.ends done⟩
    cases called with
    | panics panics none => cases whole.symm.trans none
    | returns done got next fewer small ahead behind =>
      obtain ⟨later,rest,rfl⟩ := Option.map_eq_some_iff.mp (behind.symm.trans whole)
      obtain ⟨last,drains⟩ := ih _ fewer next small ahead rest rfl
      subst got
      exact ⟨last,.goes done drains⟩

theorem drains_outcome (drains : Drains auth parser padding fresh r bytes e last)
    (stands : Stands auth parser padding pads r earlier cur later sized chunks) (small : Small auth parser padding earlier chunks)
    (ahead : chunks ≠ [] → [] ∈ chunks) : outcome auth parser padding earlier cur later sized chunks = some bytes ∧ e = eof := by
  induction drains generalizing earlier cur later sized chunks with
  | ends failed =>
    rcases @readMultiBuffer_called auth parser padding fresh pads padded _ _ _ _ _ _ stands small ahead with ⟨after,done,nothing⟩ | called
    · cases failed.symm.trans done
      exact ⟨nothing,rfl⟩
    · cases called with
      | panics panics none => cases failed.symm.trans panics
      | returns done => cases failed.symm.trans done
  | goes returned later ih =>
    rcases @readMultiBuffer_called auth parser padding fresh pads padded _ _ _ _ _ _ stands small ahead with ⟨after,done,nothing⟩ | called
    · cases returned.symm.trans done
    · cases called with
      | panics panics none => cases returned.symm.trans panics
      | returns done got next fewer small ahead behind =>
        cases returned.symm.trans done
        obtain ⟨rest,rfl⟩ := ih next small ahead
        subst got
        exact ⟨by rw [behind,rest]; rfl,rfl⟩

end

omit padded

theorem returned_length (front : returned auth padding earlier plaintext = some bytes) : bytes.length ≤ plaintext.length := by
  grind [returned]

theorem returned_iff (earlier plaintext) : returned auth padding earlier plaintext = some plaintext ↔ Comes auth padding earlier plaintext := by
  rw [returned,Comes]
  split
  · split
    · rw [Option.some.injEq]
      constructor
      · intro front
        have width := congrArg List.length front
        rw [List.length_take] at width
        have inside := List.take_prefix (min plaintext.length (SIZE - (fieldSize auth padding earlier plaintext + plaintext.length)))
          (auth.seals earlier plaintext)
        rw [front] at inside
        exact ⟨by omega,inside⟩
      · rintro ⟨fits,front⟩
        rw [Nat.min_eq_left (by omega)]
        exact (List.prefix_iff_eq_take.mp front).symm
    · constructor
      · intro same
        cases same
      · omega
  · simp [Option.some.injEq]

theorem outcome_length (whole : outcome auth parser padding earlier cur later sized chunks = some bytes) : bytes.length ≤ chunks.flatten.length := by
  induction chunks generalizing earlier cur later sized bytes with
  | nil =>
    cases whole
    exact Nat.le_refl _
  | cons plaintext more ih =>
    obtain ⟨opened,-,whole⟩ := Option.bind_eq_some_iff.mp whole
    dsimp only at whole
    split at whole
    · cases whole
      exact Nat.zero_le _
    · obtain ⟨walked,-,whole⟩ := Option.bind_eq_some_iff.mp whole
      obtain ⟨front,came,whole⟩ := Option.bind_eq_some_iff.mp whole
      obtain ⟨rest,behind,rfl⟩ := Option.map_eq_some_iff.mp whole
      rw [flatten_cons,length_append,length_append]
      exact Nat.add_le_add (returned_length came) (ih behind)

theorem outcome_iff (earlier cur) :
    outcome auth parser padding earlier cur later false chunks = some chunks.flatten ↔ Passes auth parser padding earlier cur later chunks := by
  induction chunks generalizing earlier cur later with
  | nil => simp [outcome,Passes]
  | cons plaintext more ih =>
    rw [outcome_fresh,Option.bind_eq_some_iff]
    apply exists_congr
    intro opened
    apply and_congr_right
    intro _
    by_cases empty : plaintext = []
    · subst empty
      rw [outcome_empty,Option.some.injEq]
      exact eq_comm
    rw [if_neg empty,outcome_cached empty]
    constructor
    · intro whole
      obtain ⟨walked,walks,whole⟩ := Option.bind_eq_some_iff.mp whole
      obtain ⟨front,came,whole⟩ := Option.bind_eq_some_iff.mp whole
      obtain ⟨rest,behind,text⟩ := Option.map_eq_some_iff.mp whole
      rw [flatten_cons] at text
      have width := congrArg List.length text
      rw [length_append,length_append] at width
      have short := returned_length came
      have least := outcome_length behind
      obtain ⟨rfl,rfl⟩ := List.append_inj text (by omega)
      exact ⟨(returned_iff ..).mp came,walked,walks,(ih ..).mp behind⟩
    · rintro ⟨comes,walked,walks,passes⟩
      rw [walks,(returned_iff ..).mpr comes]
      change Option.map _ _ = _
      rw [(ih ..).mpr passes]
      rfl

theorem stands_new (t : Transmission auth parser padding) :
    Stands auth parser padding t.pads (.new ⟨t.pieces.map .ok,[]⟩) [] [] (t.pieces.map fun p => lengths p.bufs) false (t.plaintexts ++ [[]]) := by
  apply stands_fresh
  · exact ⟨rfl,rfl,fun _ found => absurd found List.not_mem_nil,rfl,rfl,rfl,t.proper,⟨.new,t.pieces,[],rfl,rfl,rfl,t.carries⟩⟩
  · simp

end

theorem authenticated_iff (auth : Authenticator) (parser : SizeCodec) (padding : Nat → UInt16) (fresh : Block)
    (t : Transmission auth parser padding) :
    t.RoundTrips auth parser padding fresh ↔
      Passes auth parser padding [] [] (t.pieces.map fun p => lengths p.bufs) (t.plaintexts ++ [[]]) := by
  have text : (t.plaintexts ++ [[]]).flatten = t.plaintexts.flatten := by simp
  have ahead : t.plaintexts ++ [[]] ≠ [] → [] ∈ t.plaintexts ++ [[]] := by simp
  rw [← outcome_iff,text]
  constructor
  · rintro ⟨e,last,drains,-⟩
    exact (drains_outcome t.padded drains (stands_new t) t.small ahead).1
  · intro whole
    obtain ⟨last,drains⟩ := outcome_drains t.padded (stands_new t) t.small ahead whole
    exact ⟨eof,last,drains,rfl⟩

-- A cipher that turns every bit over and puts a tag behind, the plain size field and no padding. One plaintext of two bytes,
-- sent in one buffer, comes out still sealed.
def flipping : AeadCipher where
  nonceSize := 0
  overhead := 16
  sealWithNonce plaintext _ _ := plaintext.map (~~~ ·) ++ List.replicate 16 0
  openWithNonce ciphertext _ _ := .ok ((ciphertext.take (ciphertext.length - 16)).map (~~~ ·))
  seals_length plaintext _ _ := by simp
  inverts plaintext _ _ := by simp [Function.comp_def]

def flippingAuthenticator : Authenticator := aeadAuthenticator flipping (fun _ => []) (fun _ => []) fun _ => rfl

def plainSizes : SizeCodec where
  sizeBytes := 2
  carries _ := True
  encodes _ size := u16ToBe size
  decodes _ bytes := .ok (be16 bytes)
  width _ size := u16ToBe_length size
  inverts _ size _ _ := congrArg Except.ok (be16_roundtrip size)

def flippedWire : Bytes := [0,18,254,253] ++ List.replicate 16 0 ++ [0,16] ++ List.replicate 16 0

def flippedPiece : MultiBuffer := .of [.fromSlice (.zero SIZE) flippedWire]

theorem flipped_proper : Proper ([flippedPiece].map fun p => lengths p.bufs) := by
  intro piece found
  rw [List.map_singleton,List.mem_singleton] at found
  subst found
  decide

theorem flipped_carries : [flippedPiece].flatMap MultiBuffer.bytes = wire flippingAuthenticator plainSizes (fun _ => 0) (fun _ => []) [] ([[1,2]] ++ [[]]) := by
  decide

def flipped : Transmission flippingAuthenticator plainSizes fun _ => 0 where
  plaintexts := [[1,2]]
  pads _ := []
  padded _ := rfl
  small := ⟨⟨by decide,trivial⟩,⟨by decide,trivial⟩,trivial⟩
  pieces := [flippedPiece]
  proper := flipped_proper
  carries := flipped_carries

theorem ciphertext_returned : ¬ flipped.RoundTrips flippingAuthenticator plainSizes (fun _ => 0) (.zero SIZE) ∧
    ∃ last, Drains flippingAuthenticator plainSizes (fun _ => 0) (.zero SIZE) (.new ⟨[.ok flippedPiece],[]⟩) [254,253] eof last := by
  have stands := stands_new flipped
  have ahead : ([[1,2]] ++ [[]] : List Bytes) ≠ [] → ([] : Bytes) ∈ ([[1,2]] ++ [[]] : List Bytes) := by simp
  have whole : outcome flippingAuthenticator plainSizes (fun _ => 0) [] [] [[38]] false ([[1,2]] ++ [[]]) = some [254,253] := by decide
  refine ⟨?_,outcome_drains flipped.padded stands flipped.small ahead whole⟩
  rintro ⟨e,last,drains,-⟩
  have other := (drains_outcome flipped.padded drains stands flipped.small ahead).1
  cases whole.symm.trans other

end AstraCore.SealedChunks
