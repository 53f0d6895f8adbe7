import AstraCore.AddressText
import AstraCore.Dialogue
import AstraCore.LineReader

namespace AstraCore.HttpUpgrade
open CheckedBytes NetAddress ByteStream LossyUtf8 TextScan AddressText Dialogue Dialogue.Talk LineReader List
open PolledStream (Stream Reading labelled labelled_eq_ok oneRead)

structure Config where
  host : Text
  path : Text
  headers : List (Text × Text)

def Config.normalizedPath (config : Config) : Text :=
  match config.path with
  | [] => ['/']
  | '/' :: rest => '/' :: rest
  | path => '/' :: path

def crlf : Text := ['\r','\n']

def Config.requestText (config : Config) (dest : Destination) : Text :=
  let addr := displayAddress dest.address ++ ':' :: decimal dest.port.value.toNat
  let host := if config.host = [] then addr else config.host
  "GET ".toList ++ config.normalizedPath ++ " HTTP/1.1\r\nHost: ".toList ++ host ++
    ("\r\nConnection: Upgrade\r\nUpgrade: websocket\r\nSec-Fetch-Mode: websocket\r\nSec-Fetch-Dest: empty\r\n" ++
      "Sec-Fetch-Site: same-origin\r\nPragma: no-cache\r\nCache-Control: no-cache\r\nAccept: */*\r\n").toList ++
    (config.headers.flatMap fun (key,value) => key ++ [':',' '] ++ value ++ crlf) ++ crlf

def blankTrimmed (line : Text) : Bool := trim line = []

def readStatus (reader : Buffered) : Reading Buffered := do
  let (statusLine,reader) ← labelled "httpupgrade dial: read status: " (readLine reader)
  if "101".toList <:+: statusLine then do
    let (_,reader) ← readHead blankTrimmed "httpupgrade dial: read header: " reader
    .ok reader
  else .error (.error ("httpupgrade dial: unexpected status: " ++ String.ofList (trim statusLine)))

-- The reader borrows the stream and is dropped with its buffer; the stream itself is the connection.
def unbuffered (read : Buffered → Reading Buffered) : Talk bufferSize Unit := fun stream =>
  ([],(read ⟨[],stream⟩).map fun reader => ((),reader.stream))

def dial (config : Config) (dest : Destination) : Talk bufferSize Unit := do
  say (config.requestText dest).bytes
  unbuffered readStatus

structure Fields where
  host : Text
  connection : Text
  upgrade : Text

def stripFront (front text : Text) : Option Text := if front <+: text then some (text.drop front.length) else none

section
variable (lower : Text → Text)

def Fields.take (fields : Fields) (line : Text) : Fields :=
  match stripFront "Host:".toList (trim line) with
  | some value => {fields with host := lower (trim value)}
  | none =>
    match stripFront "Connection:".toList (trim line) with
    | some value => {fields with connection := lower (trim value)}
    | none =>
      match stripFront "Upgrade:".toList (trim line) with
      | some value => {fields with upgrade := lower (trim value)}
      | none => fields

def readUpgrade (config : Config) (expectedPath : Text) (reader : Buffered) : Reading Buffered := do
  let (requestLine,reader) ← labelled "read request line: " (readLine reader)
  match words requestLine with
  | method :: reqPath :: _ =>
    if method ≠ "GET".toList then .error (.error "invalid request line")
    else if reqPath ≠ expectedPath then .error (.error ("bad path: " ++ String.ofList reqPath))
    else do
      let (lines,reader) ← readHead blankTrimmed "read header: " reader
      let fields := lines.foldl (Fields.take lower) ⟨[],[],[]⟩
      if config.host ≠ [] ∧ fields.host ≠ lower config.host then .error (.error ("bad host: " ++ String.ofList fields.host))
      else if fields.connection ≠ "upgrade".toList ∨ fields.upgrade ≠ "websocket".toList then .error (.error "not an upgrade request")
      else .ok reader
  | _ => .error (.error "invalid request line")

def responseText : String := "HTTP/1.1 101 Switching Protocols\r\nConnection: Upgrade\r\nUpgrade: websocket\r\n\r\n"

def handleConn (config : Config) (expectedPath : Text) : Talk bufferSize Unit := do
  unbuffered (readUpgrade lower config expectedPath)
  say (asBytes responseText)

end

inductive Side where
  | dialer (config : Config) (dest : Destination)
  | listener (lower : Text → Text) (config : Config)

def Side.handshake : Side → Talk bufferSize Unit
  | .dialer config dest => dial config dest
  | .listener lower config => handleConn lower config config.normalizedPath

def IsHeader (header : Bytes) : Prop :=
  ∃ (first : Text) (fields : List Text) (closing : Text), IsLine first ∧ (∀ field ∈ fields, IsLine field) ∧
    (∀ field ∈ fields, blankTrimmed field = false) ∧ IsLine closing ∧ blankTrimmed closing = true ∧
    header = Text.bytes (first ++ (fields.flatten ++ closing))

-- A handshake that succeeds has been sent a whole header, and leaves all that was sent behind it to the connection.
def Transparent (side : Side) (stream : Stream bufferSize) : Prop :=
  ∀ connection, (side.handshake stream).2 = .ok ((),connection) →
    ∃ header payload, stream.text = header ++ payload ∧ IsHeader header ∧ connection.text = payload

def Apart (stream : Stream bufferSize) : Prop :=
  ∃ header, header <+: stream.text ∧ IsHeader header ∧ Boundary stream.arrivals.reduceOption header.length

-- A line as it is read: ended by its newline, or all that is left of a closed stream.
def Cut (ending : PolledStream.Ending) (line : Text) (rest : Bytes) : Prop :=
  IsLine line ∨ ('\n' ∉ line ∧ rest = [] ∧ ending = .closed)

-- Lines up to a blank one. A closed stream ends with the empty line, so a header that is cut off is one as well.
inductive Lines (ending : PolledStream.Ending) : Bytes → List Text → Prop where
  | closing (cut : Cut ending line rest) (blank : blankTrimmed line = true) : Lines ending (line.bytes ++ rest) []
  | field (cut : Cut ending line rest) (solid : blankTrimmed line = false) (further : Lines ending rest more) :
      Lines ending (line.bytes ++ rest) (line :: more)

-- The status line has 101 in it; the request line asks for the path, and the last fields of their names are those of an
-- upgrade for the host.
def Side.Accepts (first : Text) (fields : List Text) : Side → Prop
  | .dialer .. => "101".toList <:+: first
  | .listener lower config => ∃ others, words first = "GET".toList :: config.normalizedPath :: others ∧
      (config.host ≠ [] → (fields.foldl (Fields.take lower) ⟨[],[],[]⟩).host = lower config.host) ∧
      (fields.foldl (Fields.take lower) ⟨[],[],[]⟩).connection = "upgrade".toList ∧
      (fields.foldl (Fields.take lower) ⟨[],[],[]⟩).upgrade = "websocket".toList

def Opens (side : Side) (stream : Stream bufferSize) : Prop :=
  ∃ first rest fields, stream.text = Text.bytes first ++ rest ∧ Cut stream.ending first rest ∧ Lines stream.ending rest fields ∧
    side.Accepts first fields

theorem readLine_cut (read : readLine reader = .ok (line,later)) : reader.text = line.bytes ++ later.text ∧
    later.stream.ending = reader.stream.ending ∧ Cut reader.stream.ending line later.text := by
  have found := readUntil_line (readLine_iff.mp read)
  refine ⟨found.text,found.ending,?_⟩
  rcases readLine_shape read with clear | whole
  · rcases found.form with ⟨front,-,ended⟩ | ⟨-,rest,closed⟩
    · exact absurd ((newline_bytes line).mp (ended ▸ mem_append_right _ (mem_singleton_self _))) clear
    · exact .inr ⟨clear,rest,closed⟩
  · exact .inl whole

theorem cut_read (text : reader.text = line.bytes ++ rest) (cut : Cut reader.stream.ending line rest) :
    ∃ later, readLine reader = .ok (line,later) ∧ later.text = rest ∧ later.stream.ending = reader.stream.ending := by
  rcases cut with whole | ⟨clear,rfl,closed⟩
  · exact readLine_written whole text
  · rw [append_nil] at text
    refine ⟨⟨[],⟨[],.closed⟩⟩,readLine_iff.mpr ?_,rfl,closed.symm⟩
    rw [readUntil_end (by rw [text]; exact fun inside => clear ((newline_bytes line).mp inside)),closed,text]
    rfl

theorem Lines.ofHead (head : Head blankTrimmed reader fields later) : Lines reader.stream.ending reader.text fields := by
  induction head with
  | closing read found =>
    obtain ⟨text,-,cut⟩ := readLine_cut read
    rw [text]
    exact .closing cut found
  | field read solid further ih =>
    obtain ⟨text,ending,cut⟩ := readLine_cut read
    rw [ending] at ih
    rw [text]
    exact .field cut solid ih

theorem Lines.head (lines : Lines ending bytes fields) (text : reader.text = bytes) (same : reader.stream.ending = ending) :
    ∃ later, Head blankTrimmed reader fields later := by
  induction lines generalizing reader with
  | closing cut blank =>
    obtain ⟨later,read,-,-⟩ := cut_read text (same ▸ cut)
    exact ⟨later,.closing read blank⟩
  | field cut solid further ih =>
    obtain ⟨middle,read,rest,ending⟩ := cut_read text (same ▸ cut)
    obtain ⟨later,head⟩ := ih rest (ending.trans same)
    exact ⟨later,.field read solid head⟩

theorem readStatus_iff : readStatus reader = .ok later ↔ ∃ first middle fields, readLine reader = .ok (first,middle) ∧
    Head blankTrimmed middle fields later ∧ "101".toList <:+: first := by
  constructor
  · intro read
    obtain ⟨⟨first,middle⟩,line,rest⟩ := checked_bind read
    dsimp only at rest
    split at rest
    · rename_i status
      obtain ⟨⟨fields,final⟩,head,returned⟩ := checked_bind rest
      cases Except.ok.inj returned
      exact ⟨first,middle,fields,labelled_eq_ok.mp line,(readHead_iff rfl).mp head,status⟩
    · cases rest
  · rintro ⟨first,middle,fields,line,head,status⟩
    rw [readStatus,labelled_eq_ok.mpr line,ok_bind]
    dsimp only
    rw [if_pos status,(readHead_iff rfl).mpr head,ok_bind]

theorem readUpgrade_iff (lower : Text → Text) (config) : readUpgrade lower config config.normalizedPath reader = .ok later ↔
    ∃ first middle fields, readLine reader = .ok (first,middle) ∧ Head blankTrimmed middle fields later ∧
      (Side.listener lower config).Accepts first fields := by
  constructor
  · intro read
    obtain ⟨⟨first,middle⟩,line,rest⟩ := checked_bind read
    dsimp only at rest
    split at rest
    · rename_i method reqPath others asked
      split at rest
      · cases rest
      rename_i get
      split at rest
      · cases rest
      rename_i path
      obtain ⟨⟨fields,final⟩,head,checked⟩ := checked_bind rest
      split at checked
      · cases checked
      rename_i host
      split at checked
      · cases checked
      rename_i upgrade
      cases Except.ok.inj checked
      rw [not_not.mp get,not_not.mp path] at asked
      rw [not_and,not_not] at host
      rw [not_or,not_not,not_not] at upgrade
      exact ⟨first,middle,fields,labelled_eq_ok.mp line,(readHead_iff rfl).mp head,others,asked,host,upgrade⟩
    · cases rest
  · rintro ⟨first,middle,fields,line,head,others,asked,host,upgrade⟩
    rw [readUpgrade,labelled_eq_ok.mpr line,ok_bind]
    simp only [asked]
    rw [if_neg (not_not.mpr rfl),if_neg (not_not.mpr rfl),(readHead_iff rfl).mpr head,ok_bind]
    dsimp only
    rw [if_neg (fun wrong => wrong.2 (host wrong.1)),if_neg (by rw [not_or,not_not,not_not]; exact upgrade)]

theorem unbuffered_iff : (unbuffered reading stream).2 = .ok ((),connection) ↔
    ∃ later, reading ⟨[],stream⟩ = .ok later ∧ connection = later.stream := by
  unfold unbuffered
  cases reading ⟨[],stream⟩ with
  | error stop =>
    refine iff_of_false (fun read => by cases read) ?_
    rintro ⟨_,read,-⟩
    cases read
  | ok later =>
    simp only [Except.map,Except.ok.injEq,Prod.mk.injEq,true_and,exists_eq_left']
    exact eq_comm

theorem handshake_iff (side : Side) : (side.handshake stream).2 = .ok ((),connection) ↔ ∃ first middle fields later,
    readLine ⟨[],stream⟩ = .ok (first,middle) ∧ Head blankTrimmed middle fields later ∧ side.Accepts first fields ∧
      connection = later.stream := by
  cases side with
  | dialer config dest =>
    change (unbuffered readStatus stream).2 = _ ↔ _
    rw [unbuffered_iff]
    constructor
    · rintro ⟨later,read,same⟩
      obtain ⟨first,middle,fields,line,head,status⟩ := readStatus_iff.mp read
      exact ⟨first,middle,fields,later,line,head,status,same⟩
    · rintro ⟨first,middle,fields,later,line,head,status,same⟩
      exact ⟨later,readStatus_iff.mpr ⟨first,middle,fields,line,head,status⟩,same⟩
  | listener lower config =>
    have said : (handleConn lower config config.normalizedPath stream).2 = .ok ((),connection) ↔
        (unbuffered (readUpgrade lower config config.normalizedPath) stream).2 = .ok ((),connection) := by
      constructor
      · intro succeeds
        obtain ⟨value,rest,read,said⟩ := bind_ok succeeds
        cases (Prod.mk.inj (Except.ok.inj said)).2
        exact read
      · intro read
        rw [handleConn,bind_eq,andThen]
        cases went : unbuffered (readUpgrade lower config config.normalizedPath) stream with
        | mk said reading =>
          rw [went] at read
          cases read
          rfl
    rw [Side.handshake,said,unbuffered_iff]
    constructor
    · rintro ⟨later,read,same⟩
      obtain ⟨first,middle,fields,line,head,accepted⟩ := (readUpgrade_iff lower config).mp read
      exact ⟨first,middle,fields,later,line,head,accepted,same⟩
    · rintro ⟨first,middle,fields,later,line,head,accepted,same⟩
      exact ⟨later,(readUpgrade_iff lower config).mpr ⟨first,middle,fields,line,head,accepted⟩,same⟩

theorem handshake_opens (side : Side) : (∃ connection, (side.handshake stream).2 = .ok ((),connection)) ↔ Opens side stream := by
  constructor
  · rintro ⟨connection,succeeds⟩
    obtain ⟨first,middle,fields,later,line,head,accepted,-⟩ := (handshake_iff side).mp succeeds
    obtain ⟨text,ending,cut⟩ := readLine_cut line
    have lines := Lines.ofHead head
    rw [ending] at lines
    exact ⟨first,middle.text,fields,text,cut,lines,accepted⟩
  · rintro ⟨first,rest,fields,text,cut,lines,accepted⟩
    obtain ⟨middle,line,behind,ending⟩ := cut_read (show Buffered.text ⟨[],stream⟩ = _ from text) cut
    obtain ⟨later,head⟩ := lines.head behind ending
    exact ⟨later.stream,(handshake_iff side).mpr ⟨first,middle,fields,later,line,head,accepted,rfl⟩⟩

section
variable (side : Side) (succeeds : (side.handshake stream).2 = .ok ((),connection))
include side succeeds

theorem header_left (whole : IsHeader header) (parts : stream.text = header ++ payload) :
    connection.text = payload ↔ Boundary stream.arrivals.reduceOption header.length := by
  obtain ⟨first,fields,closing,line,shapes,solid,last,blank,rfl⟩ := whole
  obtain ⟨read,middle,lines,later,start,head,-,rfl⟩ := (handshake_iff side).mp succeeds
  obtain ⟨other,final,again,written,behind,takes⟩ := header_written fields line shapes solid last blank
    (show Buffered.text ⟨[],stream⟩ = _ from parts)
  cases (Prod.mk.inj (Except.ok.inj (start.symm.trans again))).2
  obtain rfl := Head.unique rfl head written
  have position := takes.position _ 0 (Position.start stream)
  rw [Nat.zero_add] at position
  rw [← position.clean_iff,← behind]
  exact self_eq_append_left

end

theorem upgrade_transparent_iff (side : Side) (stream : Stream bufferSize) :
    Transparent side stream ↔ (Opens side stream → Apart stream) := by
  rw [← handshake_opens]
  constructor
  · rintro transparent ⟨connection,returned⟩
    obtain ⟨header,payload,parts,whole,left⟩ := transparent connection returned
    exact ⟨header,⟨payload,parts.symm⟩,whole,(header_left side returned whole parts).mp left⟩
  · intro apart connection returned
    obtain ⟨header,⟨payload,parts⟩,whole,boundary⟩ := apart ⟨connection,returned⟩
    exact ⟨header,payload,parts.symm,whole,(header_left side returned whole parts.symm).mpr boundary⟩

theorem IsHeader.last (whole : IsHeader header) : header.getLast? = some newline := by
  obtain ⟨first,fields,closing,-,-,-,last,-,rfl⟩ := whole
  obtain ⟨front,-,form⟩ := last.bytes
  rw [bytes_append,bytes_append,form,← append_assoc,← append_assoc,getLast?_concat]

theorem not_transparent (returned : (side.handshake stream).2.toOption.map (fun (_,connection) => connection.text) = some [])
    (unfinished : stream.text.getLast? ≠ some newline) : ¬ Transparent side stream := by
  intro transparent
  cases found : (side.handshake stream).2 with
  | error stop =>
    rw [found] at returned
    cases returned
  | ok result =>
    obtain ⟨⟨⟩,connection⟩ := result
    rw [found] at returned
    obtain ⟨header,payload,parts,whole,left⟩ := transparent connection found
    rw [show connection.text = [] from Option.some.inj returned] at left
    rw [← left,append_nil] at parts
    exact unfinished (parts ▸ whole.last)

def rootConfig : Config := ⟨[],['/'],[]⟩
def origin : Destination := tcpDestination (.domain "origin.example") ⟨80⟩

def arrived (bytes : Bytes) (ending : PolledStream.Ending) : Stream bufferSize := ⟨[oneRead bytes],ending⟩

def answerAndPayload : Bytes := asBytes responseText ++ [1,2,3]
def cutStatus : Bytes := asBytes "HTTP/1.1 101"
def cutRequest : Bytes := asBytes "GET / HTTP/1.1\r\nConnection: Upgrade\r\nUpgrade: websocket"

theorem all_taken :
    (((Side.dialer rootConfig origin).handshake (arrived answerAndPayload .stillOpen)).2.toOption.map fun (_,connection) => connection.text) = some [] ∧
    (((Side.dialer rootConfig origin).handshake (arrived cutStatus .closed)).2.toOption.map fun (_,connection) => connection.text) = some [] ∧
    (((Side.listener toLowercase rootConfig).handshake (arrived cutRequest .closed)).2.toOption.map fun (_,connection) => connection.text) =
      some [] ∧ (arrived answerAndPayload .stillOpen).text.getLast? ≠ some newline ∧ (arrived cutStatus .closed).text.getLast? ≠ some newline ∧
    (arrived cutRequest .closed).text.getLast? ≠ some newline := by
  decide +kernel

theorem payload_dropped_and_cut_accepted : ¬ Transparent (.dialer rootConfig origin) (arrived answerAndPayload .stillOpen) ∧
    ¬ Transparent (.dialer rootConfig origin) (arrived cutStatus .closed) ∧
    ¬ Transparent (.listener toLowercase rootConfig) (arrived cutRequest .closed) := by
  obtain ⟨payload,status,request,behind,statusEnd,requestEnd⟩ := all_taken
  exact ⟨not_transparent payload behind,not_transparent status statusEnd,not_transparent request requestEnd⟩

end AstraCore.HttpUpgrade
