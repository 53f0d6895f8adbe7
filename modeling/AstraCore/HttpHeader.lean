import AstraCore.Dialogue
import AstraCore.TextScan

namespace AstraCore.HttpHeader
open CheckedBytes ByteStream LossyUtf8 TextScan PolledStream Dialogue Dialogue.Talk List
variable {cap : Nat}

structure Header where
  name : Text
  value : List Text

structure Status where
  code : Text
  reason : Text

structure RequestConfig where
  version : Option Text
  method : Option Text
  uri : List Text
  header : List Header

structure ResponseConfig where
  version : Option Text
  status : Option Status
  header : List Header

structure Config where
  request : Option RequestConfig
  response : Option ResponseConfig

-- `draw` is what the generator gives; it is reduced to the range that is asked for.
def pickStr (draw : Nat) (arr : List Text) : Text :=
  if arr.length ≤ 1 then arr.headD [] else arr.getD (draw % arr.length) []

def pickHeaders (draws : Nat → Nat) (header : List Header) : List Text :=
  header.mapIdx fun i h => h.name ++ [':',' '] ++ pickStr (draws i) h.value

def fullVersion (version : Option Text) : Text := "HTTP/".toList ++ version.getD "1.1".toList

section
variable (config : ResponseConfig)

def ResponseConfig.hasHeader (name : Text) : Bool :=
  config.header.any fun h => h.name.map Char.toLower = name.map Char.toLower

def ResponseConfig.getStatus : Status := config.status.getD ⟨"200".toList,"OK".toList⟩

def lineEnd : Text := ['\r','\n']

def ResponseConfig.dateLine (now : Text) : Text :=
  if config.hasHeader "Date".toList then [] else "Date: ".toList ++ now ++ lineEnd

def buildResponseHeader (draws : Nat → Nat) (now : Text) : Bytes :=
  Text.bytes (fullVersion config.version ++ ' ' :: config.getStatus.code ++ ' ' :: config.getStatus.reason ++ lineEnd ++
    (pickHeaders draws config.header).flatMap (· ++ lineEnd) ++ config.dateLine now ++ lineEnd)

end

def buildRequestHeader (config : RequestConfig) (uri : Nat) (draws : Nat → Nat) : Bytes :=
  Text.bytes (config.method.getD "GET".toList ++ ' ' :: pickStr uri config.uri ++ ' ' :: fullVersion config.version ++ lineEnd ++
    (pickHeaders draws config.header).flatMap (· ++ lineEnd) ++ lineEnd)

def maxHeaderLength : Nat := 8192
def chunkSize : Nat := 1024

def checkHeader (expected : Option RequestConfig) (headerBytes : Bytes) : Except String Unit :=
  match expected with
  | none => .ok ()
  | some expected =>
    match fromUtf8 headerBytes with
    | none => .error "header: invalid utf8"
    | some headerStr => if (words headerStr.toList).getD 1 [] ∈ expected.uri then .ok () else .error "Header Mismatch."

def headerLoop (expected : Option RequestConfig) : Nat → Bytes → Stream cap → Reading (Bytes × Stream cap)
  | 0,_,_ => .error .waits
  | turns + 1,buf,stream =>
    match stream.poll chunkSize with
    | (.pending,later) => if stream.arrivals = [] then .error .waits else headerLoop expected turns buf later
    | (.failed e,_) => .error (.error ("header read: " ++ e))
    | (.filled chunk _,later) =>
      if chunk = [] then .error (.error "header: connection closed")
      else
        match position headerEnd (buf ++ chunk) with
        | some pos =>
          match checkHeader expected ((buf ++ chunk).take pos) with
          | .error e => .error (.error e)
          | .ok () => .ok ((buf ++ chunk).drop (pos + 4),later)
        | none =>
          if maxHeaderLength < (buf ++ chunk).length then .error (.error "Header too long.")
          else headerLoop expected turns (buf ++ chunk) later

def readHeader (expected : Option RequestConfig) : Talk cap Bytes := fun stream =>
  ([],headerLoop expected (stream.text.length + stream.arrivals.length + 1) [] stream)

structure HttpConn (cap : Nat) where
  inner : Stream cap
  readPending : Option Bytes

def HttpConn.pollRead (room : Nat) (conn : HttpConn cap) : Fill room × HttpConn cap :=
  match conn.readPending with
  | some (b :: data) =>
    let remaining := (b :: data).drop room
    (.filled ((b :: data).take room) (List.length_take_le ..),⟨conn.inner,if remaining = [] then none else some remaining⟩)
  | _ => ((conn.inner.poll room).1,⟨(conn.inner.poll room).2,none⟩)

section
variable (config : Config)

def Config.requestBytes (uri : Nat) (draws : Nat → Nat) : Bytes :=
  match config.request with
  | some request => buildRequestHeader request uri draws
  | none => []

def Config.responseBytes (draws : Nat → Nat) (now : Text) : Bytes :=
  match config.response with
  | some response => buildResponseHeader response draws now
  | none => []

-- A handshake returns what its `HttpConn` holds; the connection inside is what is left of the stream.
def clientHandshake (uri : Nat) (draws : Nat → Nat) : Talk cap (Option Bytes) := do
  say (config.requestBytes uri draws)
  pure none

def serverHandshake (draws : Nat → Nat) (now : Text) : Talk cap (Option Bytes) := do
  let remaining ← readHeader config.request
  say (config.responseBytes draws now)
  pure (some remaining)

def client (uri : Nat) (draws : Nat → Nat) (upload : Bytes) : Talk cap (Option Bytes) := do
  let pending ← clientHandshake config uri draws
  say upload
  pure pending

def server (draws : Nat → Nat) (now : Text) (download : Bytes) : Talk cap (Option Bytes) := do
  let pending ← serverHandshake config draws now
  say download
  pure pending

end

def wrapped (result : Option Bytes × Stream cap) : HttpConn cap := ⟨result.2,result.1⟩

def taken : Fill room → Bytes
  | .filled bytes _ => bytes
  | _ => []

def HttpConn.reads (conn : HttpConn cap) : List Nat → Bytes × HttpConn cap
  | [] => ([],conn)
  | room :: rooms =>
    let (fill,later) := conn.pollRead room
    let (more,last) := later.reads rooms
    (taken fill ++ more,last)

structure Delivers (conn : HttpConn cap) (written : Bytes) : Prop where
  part : ∀ rooms, (conn.reads rooms).1 <+: written
  whole : ∃ enough, ∀ rooms, (∀ room ∈ rooms, 0 < room) → enough ≤ rooms.length → (conn.reads rooms).1 = written

def HttpConn.text (conn : HttpConn cap) : Bytes := conn.readPending.getD [] ++ conn.inner.text

theorem poll_text (room) (stream : Stream cap) : taken (stream.poll room).1 ++ (stream.poll room).2.text = stream.text := by
  obtain ⟨arrivals,ending⟩ := stream
  cases arrivals with
  | nil => cases ending <;> rfl
  | cons arrival rest =>
    cases arrival with
    | none => rfl
    | some segment =>
      rw [Stream.poll]
      dsimp only
      split
      · change segment.val.take room ++ (segment.val.drop room ++ text rest.reduceOption) = segment.val ++ text rest.reduceOption
        rw [← append_assoc,take_append_drop]
      · rfl

theorem pollRead_text (room) (conn : HttpConn cap) : taken (conn.pollRead room).1 ++ (conn.pollRead room).2.text = conn.text := by
  obtain ⟨inner,pending⟩ := conn
  rcases pending with _ | _ | ⟨b,data⟩
  · exact poll_text room inner
  · exact poll_text room inner
  · have kept : (if (b :: data).drop room = [] then none else some ((b :: data).drop room)).getD [] = (b :: data).drop room := by
      split
      · rename_i empty
        rw [empty]
        rfl
      · rfl
    change (b :: data).take room ++ ((if (b :: data).drop room = [] then none else some _).getD [] ++ inner.text) = b :: data ++ inner.text
    rw [kept,← append_assoc,take_append_drop]

section
variable (conn : HttpConn cap)

theorem reads_text : (conn.reads rooms).1 ++ (conn.reads rooms).2.text = conn.text := by
  induction rooms generalizing conn with
  | nil => rfl
  | cons room rooms ih =>
    rw [← pollRead_text room conn,← ih (conn.pollRead room).2,← append_assoc]
    rfl

def HttpConn.ahead : Nat := conn.text.length + conn.inner.arrivals.length

theorem pollRead_ahead (positive : 0 < room) : (conn.pollRead room).2.ahead < conn.ahead ∨ (conn.pollRead room).2.ahead = 0 := by
  have polled : ∀ inner : Stream cap, HttpConn.ahead ⟨(inner.poll room).2,none⟩ < HttpConn.ahead ⟨inner,none⟩ ∨
      HttpConn.ahead ⟨(inner.poll room).2,none⟩ = 0 := by
    intro inner
    have none_ (empty : inner.arrivals = []) : HttpConn.ahead ⟨inner,none⟩ = 0 := by
      simp [HttpConn.ahead,HttpConn.text,Stream.text,empty]
    cases inner.poll_cases positive with
    | waits poll empty _ | closed poll empty _ | broken e poll empty _ => rw [poll]; exact .inr (none_ empty)
    | delayed later poll text _ fewer =>
      rw [poll]
      simp only [HttpConn.ahead,HttpConn.text,text]
      omega
    | arrived later bytes fits poll present text _ fewer =>
      rw [poll]
      simp only [HttpConn.ahead,HttpConn.text,text,length_append]
      omega
  obtain ⟨inner,pending⟩ := conn
  rcases pending with _ | _ | ⟨b,data⟩
  · exact polled inner
  · exact polled inner
  · have whole := congrArg List.length (pollRead_text room ⟨inner,some (b :: data)⟩)
    have some_ : 0 < (taken (HttpConn.pollRead room ⟨inner,some (b :: data)⟩).1).length := by
      change 0 < ((b :: data).take room).length
      rw [length_take,length_cons]
      omega
    rw [length_append] at whole
    left
    change _ + inner.arrivals.length < _ + inner.arrivals.length
    omega

theorem reads_all (positive : ∀ room ∈ rooms, 0 < room) (enough : conn.ahead ≤ rooms.length) : (conn.reads rooms).2.ahead = 0 := by
  induction rooms generalizing conn with
  | nil => exact Nat.le_zero.mp enough
  | cons room rooms ih =>
    rw [length_cons] at enough
    have next := pollRead_ahead conn (positive room (mem_cons_self ..))
    exact ih (conn.pollRead room).2 (fun room member => positive room (mem_cons_of_mem _ member)) (by omega)

theorem reads_whole (positive : ∀ room ∈ rooms, 0 < room) (enough : conn.ahead ≤ rooms.length) : (conn.reads rooms).1 = conn.text := by
  have final := reads_all conn positive enough
  have empty : (conn.reads rooms).2.text = [] := by
    rw [HttpConn.ahead] at final
    exact length_eq_zero_iff.mp (by omega)
  rw [← reads_text conn,empty,append_nil]

end

theorem delivers_iff : Delivers conn written ↔ conn.text = written := by
  constructor
  · intro delivers
    obtain ⟨enough,all⟩ := delivers.whole
    have positive : ∀ room ∈ List.replicate (enough + conn.ahead) 1, 0 < room := by
      intro room member
      rw [eq_of_mem_replicate member]
      exact Nat.one_pos
    have width : (List.replicate _ 1).length = enough + conn.ahead := length_replicate
    rw [← all _ positive (by omega),reads_whole conn positive (by omega)]
  · rintro rfl
    exact ⟨fun rooms => ⟨_,reads_text conn⟩,conn.ahead,fun rooms positive enough => reads_whole conn positive enough⟩

theorem headerLoop_text (read : headerLoop expected turns buf stream = .ok (remaining,later)) :
    ∃ pos, position headerEnd (buf ++ stream.text) = some pos ∧ remaining ++ later.text = (buf ++ stream.text).drop (pos + 4) := by
  induction turns generalizing buf stream with
  | zero => cases read
  | succ turns ih =>
    rw [headerLoop] at read
    have polled := poll_text chunkSize stream
    rcases poll : stream.poll chunkSize with ⟨_ | e | ⟨chunk,fits⟩,next⟩
    · rw [poll] at read polled
      dsimp only at read
      split at read
      · cases read
      · rw [← polled]
        exact ih read
    · rw [poll] at read
      cases read
    · rw [poll] at read polled
      dsimp only at read
      rw [← polled,← append_assoc]
      change ∃ pos, position headerEnd _ = some pos ∧ _ = (buf ++ chunk ++ next.text).drop (pos + 4)
      split at read
      · cases read
      · split at read
        · rename_i pos found
          split at read
          · cases read
          · obtain ⟨rfl,rfl⟩ := Prod.mk.inj (Except.ok.inj read)
            refine ⟨pos,position_append _ _ found,?_⟩
            have bound : pos + 4 ≤ (buf ++ chunk).length := position_bound found
            rw [drop_append_of_le_length bound]
        · split at read
          · cases read
          · exact ih read

theorem client_eq : client config uri draws upload stream = (config.requestBytes uri draws ++ upload,.ok (none,stream)) := by
  simp [client,clientHandshake,bind_eq,andThen,pure_eq,say]

theorem server_eq (stream : Stream cap) : server config draws now download stream =
      match headerLoop config.request (stream.text.length + stream.arrivals.length + 1) [] stream with
      | .error stop => ([],.error stop)
      | .ok (remaining,later) => (config.responseBytes draws now ++ download,.ok (some remaining,later)) := by
  simp only [server,serverHandshake,bind_eq,andThen,readHeader]
  cases headerLoop config.request _ [] stream with
  | error stop => rfl
  | ok found => simp [pure_eq,say]

theorem lines_end (more : List Text) : ∃ front, first ++ lineEnd ++ more.flatMap (· ++ lineEnd) = front ++ lineEnd := by
  rcases eq_nil_or_concat more with rfl | ⟨init,last,rfl⟩
  · exact ⟨first,by simp⟩
  · exact ⟨first ++ lineEnd ++ init.flatMap (· ++ lineEnd) ++ last,by simp⟩

theorem requestHeader_end : ∃ front, buildRequestHeader config uri draws = front ++ headerEnd := by
  obtain ⟨front,same⟩ := lines_end
    (pickHeaders draws config.header)
  refine ⟨Text.bytes front,?_⟩
  rw [buildRequestHeader,same,bytes_append,bytes_append,append_assoc]
  rfl

theorem responseHeader_present : buildResponseHeader config draws now ≠ [] := by
  intro empty
  have none_ := bytes_eq_nil empty
  exact absurd (congrArg List.length none_) (by simp)

def EndsOnce (header : Bytes) : Prop := position headerEnd header = some (header.length - 4)

theorem stripped_exact (found : position headerEnd (front ++ headerEnd ++ upload) = some pos) :
    (front ++ headerEnd ++ upload).drop (pos + 4) = upload ↔ EndsOnce (front ++ headerEnd) := by
  obtain ⟨n,inside,first⟩ := position_found (show headerEnd ≠ [] by decide) front []
  rw [append_nil] at first
  rw [position_append _ upload first] at found
  obtain rfl := Option.some.inj found
  have width : (front ++ headerEnd).length = front.length + 4 := length_append
  have cut : n + 4 ≤ (front ++ headerEnd).length := by omega
  rw [drop_append_of_le_length cut,EndsOnce,first,Option.some.injEq,append_left_eq_self,drop_eq_nil_iff]
  omega

section Pipe
variable {config : Config} {uri : Nat} {draws answers : Nat → Nat} {now : Text} {upload download : Bytes} {l r : Stream cap}

theorem server_reads (parts : r.text = config.requestBytes uri draws ++ upload) (ready : (server config answers now download r).2 = .ok result) :
    ∃ pos, position headerEnd (config.requestBytes uri draws ++ upload) = some pos ∧
      (wrapped result).text = (config.requestBytes uri draws ++ upload).drop (pos + 4) := by
  rw [server_eq] at ready
  rcases read : headerLoop config.request _ [] r with stop | ⟨remaining,later⟩
  · rw [read] at ready
    cases ready
  · rw [read] at ready
    obtain ⟨pos,found,left⟩ := headerLoop_text read
    rw [parts] at found left
    cases Except.ok.inj ready
    exact ⟨pos,found,left⟩

theorem server_said (ready : (server config answers now download r).2 = .ok result) :
    (server config answers now download r).1 = config.responseBytes answers now ++ download := by
  rw [server_eq] at ready ⊢
  split at ready
  · cases ready
  · rfl

end Pipe

-- Up the pipe the header is taken off again if its end does not stand in it before; down the pipe nothing takes it off.
theorem obfuscation_transparent_iff (config : Config) (uri : Nat) (draws answers : Nat → Nat) (now : Text) (upload download : Bytes)
    (l r : Stream cap) (above below : Option Bytes × Stream cap)
    (settled : Settled (client config uri draws upload) (server config answers now download) l r)
    (opened : (client config uri draws upload l).2 = .ok above) (accepted : (server config answers now download r).2 = .ok below) :
    (Delivers (wrapped below) upload ↔ ∃ request, config.request = some request ∧ EndsOnce (buildRequestHeader request uri draws)) ∧
      (Delivers (wrapped above) download ↔ config.response = none) := by
  constructor
  · have parts := settled.toRight
    rw [client_eq] at parts
    obtain ⟨pos,found,left⟩ := server_reads parts accepted
    rw [delivers_iff,left]
    cases shape : config.request with
    | none =>
      rw [Config.requestBytes,shape,nil_append] at found ⊢
      have bound : pos + 4 ≤ upload.length := position_bound found
      refine iff_of_false (fun same => ?_) (by simp)
      have width := congrArg List.length same
      rw [length_drop] at width
      omega
    | some request =>
      rw [Config.requestBytes,shape] at found ⊢
      obtain ⟨front,header⟩ := requestHeader_end
      dsimp only at found ⊢
      rw [header] at found ⊢
      rw [stripped_exact found]
      simp [header]
  · obtain rfl := Except.ok.inj opened
    rw [delivers_iff]
    change l.text = download ↔ _
    rw [settled.toLeft,server_said accepted,append_left_eq_self,Config.responseBytes]
    cases config.response with
    | none => simp
    | some response => exact iff_of_false (responseHeader_present) (by simp)

def bareRequest : RequestConfig := ⟨none,none,[['/']],[]⟩
def bareConfig : Config := ⟨some bareRequest,some ⟨none,none,[]⟩⟩
def epoch : Text := "Thu, 01 Jan 1970 00:00:00 GMT".toList

def upBytes : Bytes := buildRequestHeader bareRequest 0 (fun _ => 0) ++ [1,2,3]
def downBytes : Bytes := bareConfig.responseBytes (fun _ => 0) epoch ++ [7,8]

def arriving (bytes : Bytes) : Stream chunkSize := ⟨[oneRead bytes],.stillOpen⟩

theorem bare_accepted : (server bareConfig (fun _ => 0) epoch [7,8] (arriving upBytes)).2 = .ok (some [1,2,3],⟨[],.stillOpen⟩) := by
  rfl

theorem bare_settled : Settled (client bareConfig 0 (fun _ => 0) [1,2,3]) (server bareConfig (fun _ => 0) epoch [7,8])
    (arriving downBytes) (arriving upBytes) := ⟨by decide +kernel,by decide +kernel⟩

theorem obfuscation_transparent_bare : Delivers (wrapped (some [1,2,3],⟨[],.stillOpen⟩) : HttpConn chunkSize) [1,2,3] ∧
      ¬ Delivers (wrapped (none,arriving downBytes)) [7,8] :=
  have both := obfuscation_transparent_iff bareConfig 0 (fun _ => 0) (fun _ => 0) epoch [1,2,3] [7,8] _ _ _ _ bare_settled rfl
    bare_accepted
  ⟨both.1.mpr ⟨bareRequest,rfl,by unfold EndsOnce; decide +kernel⟩,fun delivers => absurd (both.2.mp delivers) (by simp [bareConfig])⟩

-- The server takes the request's header off; the client reads the response's header in front of the two bytes.
theorem response_header_read :
    Settled (client bareConfig 0 (fun _ => 0) [1,2,3]) (server bareConfig (fun _ => 0) epoch [7,8])
      (arriving downBytes) (arriving upBytes) ∧
    (client bareConfig 0 (fun _ => 0) [1,2,3] (arriving downBytes)).2 = .ok (none,arriving downBytes) ∧
    (server bareConfig (fun _ => 0) epoch [7,8] (arriving upBytes)).2 = .ok (some [1,2,3],⟨[],.stillOpen⟩) ∧
    ((wrapped (none,arriving downBytes)).reads [1024]).1 = asBytes "HTTP/1.1 200 OK\r\nDate: Thu, 01 Jan 1970 00:00:00 GMT\r\n\r\n" ++ [7,8] ∧
    ¬ Delivers (wrapped (none,arriving downBytes)) [7,8] :=
  ⟨bare_settled,rfl,bare_accepted,by decide +kernel,fun delivers => absurd ((delivers_iff).mp delivers) (by decide +kernel)⟩

end AstraCore.HttpHeader
