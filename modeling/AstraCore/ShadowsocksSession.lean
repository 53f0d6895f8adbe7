import AstraCore.ShadowsocksReader

namespace AstraCore.Shadowsocks
open CheckedBytes NetAddress ByteCounter PolledStream List
open MuxFrame (Fits)
variable {cap : Nat} (suite : Suite) {c : CipherType}

def Polled.data : Polled → Bytes
  | .ready data => data
  | _ => []

def Polled.ends : Polled → Bool
  | .error _ => true
  | .panic _ => true
  | _ => false

def DecryptingReader.reads : List Nat → DecryptingReader c → Stream cap → Option (List Polled × DecryptingReader c × Stream cap)
  | [],reader,stream => some ([],reader,stream)
  | room :: rooms,reader,stream =>
    match reader.pollRead suite room stream with
    | none => none
    | some (polled,reader,stream) =>
      if polled.ends then some ([polled],reader,stream)
      else (reads rooms reader stream).map fun (later,reader,stream) => (polled :: later,reader,stream)

def delivered (polled : List Polled) : Bytes := polled.flatMap Polled.data

-- What is still to happen to a reader: no two calls in a row leave this unchanged unless it waits for more to arrive.
def weight (reader : DecryptingReader c) (stream : Stream cap) : Nat :=
  reader.output.length + (backlog reader stream).length + stream.arrivals.length

section
variable (reader : DecryptingReader c)
include reader

theorem weight_drained (stream : Stream cap) (present : reader.output ≠ []) (positive : 0 < room) :
    weight {reader with output := reader.output.drop room} stream < weight reader stream := by
  have some_output := length_pos_of_ne_nil present
  change (reader.output.drop room).length + (backlog reader stream).length + _ < _
  rw [weight,length_drop]
  omega

theorem weight_delayed (text : later.text = stream.text)
    (fewer : later.arrivals.length < stream.arrivals.length) : weight reader later < weight reader stream := by
  rw [weight,weight,backlog,backlog,text]
  omega

theorem weight_filled (kept : stage.held ++ later.text = backlog reader stream) (fewer : later.arrivals.length ≤ stream.arrivals.length) :
    weight {reader with stage := stage} later ≤ weight reader stream := by
  change reader.output.length + (stage.held ++ later.text).length + _ ≤ _
  rw [kept,weight]
  omega

theorem weight_taken (cipher : Octets c.keySize) (nonce)
    {frame : Frame} (parts : backlog reader stream = frame.bytes ++ later.text) (small : pt.length ≤ reader.output.length + frame.body.length)
    (fewer : later.arrivals.length ≤ stream.arrivals.length) : weight ⟨cipher,nonce,pt,.size [] (Nat.succ_pos 1)⟩ later < weight reader stream := by
  have lengths := congrArg List.length parts
  rw [length_append,frame.bytes_length] at lengths
  change pt.length + ([] ++ later.text).length + _ < _
  rw [weight,nil_append]
  omega

end

def plaintexts (cipher : Octets c.keySize) : List Frame → Bytes
  | [] => []
  | frame :: rest =>
    match openChunk suite cipher frame.size frame.body with
    | .ok (.ok pt) => pt ++ plaintexts cipher rest
    | _ => []

def Frame.Sized (c : CipherType) (frame : Frame) : Prop := 0 < frame.body.length ∧ c.nonceSize ≤ frame.body.length

structure Ahead (cipher : Octets c.keySize) (origin : List Frame) (ending : Ending) (plain : Bytes) (reader : DecryptingReader c)
    (stream : Stream cap) (frames : List Frame) : Prop where
  suffix : frames <:+ origin
  keyed : reader.cipher = cipher
  ends : stream.ending = ending
  text : backlog reader stream = frames.flatMap Frame.bytes
  owed : reader.output ++ plaintexts suite cipher frames = plain

def Answers (cipher : Octets c.keySize) (origin : List Frame) (ending : Ending) (room before : Nat) (plain : Bytes) :
    Polled → DecryptingReader c → Stream cap → Prop
  | .ready data,reader,stream =>
    ∃ rest frames, plain = data ++ rest ∧ Ahead suite cipher origin ending rest reader stream frames ∧
      (0 < room → data ≠ [] ∧ weight reader stream < before)
  | .pending,reader,stream =>
    (∃ frames, Ahead suite cipher origin ending plain reader stream frames) ∧ (stream.arrivals = [] → plain = []) ∧
      (plain = [] ∨ weight reader stream < before)
  | .error e,_,_ => plain = [] ∧ (ending = .broken e ∨ ∃ frame ∈ origin, ∀ pt, ¬ frame.Carries suite cipher pt)
  | .panic _,_,_ => False

theorem held_incomplete (stage : ReadStage) (frame : Frame) (rest) : stage.held ≠ frame.bytes ++ rest := by
  intro same
  cases stage with
  | size held unfilled =>
    have lengths := congrArg List.length same
    rw [length_append,frame.bytes_length] at lengths
    change held.length = _ at lengths
    omega
  | payload field held unfilled =>
    rw [Frame.bytes,append_assoc] at same
    obtain ⟨sizes,bodies⟩ := append_inj same (by rw [field.property,frame.size.property])
    have lengths := congrArg List.length bodies
    have equal := Subtype.ext sizes
    rw [length_append,frame.whole,← equal] at lengths
    omega

theorem held_unframed {stage : ReadStage} (same : stage.held = frames.flatMap Frame.bytes) : frames = [] := by
  cases frames with
  | nil => rfl
  | cons frame rest => exact absurd same (held_incomplete stage frame _)

variable {stream : Stream cap}

theorem text_of_empty (empty : stream.arrivals = []) : stream.text = [] := by
  rw [Stream.text,empty]
  rfl

variable {suite} in
theorem Ahead.exhausted {cipher : Octets c.keySize}
    (ahead : Ahead suite cipher origin ending plain reader stream frames) (dry : reader.output = []) (empty : stream.arrivals = []) : plain = [] := by
  have text := ahead.text
  rw [backlog,text_of_empty empty,append_nil] at text
  rw [← ahead.owed,dry,held_unframed text]
  rfl

variable {reader : DecryptingReader c}

theorem turn_ahead (sized : ∀ frame ∈ origin, frame.Sized c) (ahead : Ahead suite cipher origin ending plain reader stream frames)
    (within : weight reader stream ≤ before) : (∃ polled reader' stream', reader.turn suite room stream = .returns polled reader' stream' ∧
      Answers suite cipher origin ending room before plain polled reader' stream') ∨ ∃ reader' stream', reader.turn suite room stream = .again reader' stream' ∧
      (∃ frames', Ahead suite cipher origin ending plain reader' stream' frames') ∧ weight reader' stream' ≤ before := by
  have framed (frame : Frame) (later : Stream cap) (parts : backlog reader stream = frame.bytes ++ later.text) :
      ∃ others, frames = frame :: others ∧ later.text = others.flatMap Frame.bytes ∧ others <:+ origin ∧ frame ∈ origin := by
    obtain ⟨others,rfl,rest⟩ := frames_head (ahead.text.symm.trans parts)
    exact ⟨others,rfl,rest,(suffix_cons frame others).trans ahead.suffix,ahead.suffix.subset (mem_cons_self ..)⟩
  cases turn_cases suite room reader stream with
  | drains present turn =>
    refine .inl ⟨_,_,_,turn,reader.output.drop room ++ plaintexts suite cipher frames,frames,?_,⟨ahead.suffix,ahead.keyed,ahead.ends,ahead.text,rfl⟩,?_⟩
    · rw [← append_assoc,take_append_drop,ahead.owed]
    · intro positive
      have some_output := length_pos_of_ne_nil present
      refine ⟨ne_nil_of_length_pos (by rw [length_take]; omega),?_⟩
      exact Nat.lt_of_lt_of_le (weight_drained reader stream present positive) within
  | waits dry turn empty _ =>
    have nothing := ahead.exhausted dry empty
    exact .inl ⟨_,_,_,turn,⟨frames,ahead⟩,fun _ => nothing,.inl nothing⟩
  | delayed dry later turn text ending fewer =>
    have further : Ahead suite cipher origin _ plain reader later frames :=
      ⟨ahead.suffix,ahead.keyed,ending.trans ahead.ends,by rw [backlog,text]; exact ahead.text,ahead.owed⟩
    refine .inl ⟨_,_,_,turn,⟨frames,further⟩,further.exhausted dry,.inr ?_⟩
    exact Nat.lt_of_lt_of_le (weight_delayed reader text fewer) within
  | broken dry e turn empty ending =>
    exact .inl ⟨_,_,_,turn,ahead.exhausted dry empty,.inl (ahead.ends.symm.trans ending)⟩
  | spins _ turn => exact .inr ⟨_,_,turn,⟨frames,ahead⟩,within⟩
  | fills dry stage later turn kept ending _ fewer =>
    refine .inr ⟨_,_,turn,⟨frames,ahead.suffix,ahead.keyed,ending.trans ahead.ends,kept.trans ahead.text,ahead.owed⟩,?_⟩
    exact Nat.le_trans (weight_filled reader kept fewer) within
  | empties _ frame later _ parts zero =>
    obtain ⟨others,-,-,-,among⟩ := framed frame later parts
    have present := (sized frame among).1
    rw [zero] at present
    cases present
  | faults _ frame later _ parts _ clipped =>
    obtain ⟨others,-,-,-,among⟩ := framed frame later parts
    have long := (sized frame among).2
    omega
  | refuses dry frame e later turn parts _ refused =>
    obtain ⟨others,rfl,-,-,among⟩ := framed frame later parts
    rw [ahead.keyed] at refused
    refine .inl ⟨_,_,_,turn,?_,.inr ⟨frame,among,?_⟩⟩
    · rw [← ahead.owed,dry,plaintexts,refused]
      rfl
    · intro pt carries
      rw [Frame.Carries,refused] at carries
      cases carries
  | opens dry frame pt later turn parts carries ending _ fewer =>
    obtain ⟨others,rfl,rest,suffix,among⟩ := framed frame later parts
    have width := carries.length
    rw [ahead.keyed] at carries
    refine .inr ⟨_,_,turn,⟨others,suffix,ahead.keyed,ending.trans ahead.ends,rest,?_⟩,?_⟩
    · rw [← ahead.owed,dry,plaintexts,carries]
      rfl
    · have lighter := weight_taken reader reader.cipher (next reader.nonce) parts (by omega : pt.length ≤ _) fewer
      exact Nat.le_of_lt (Nat.lt_of_lt_of_le lighter within)

theorem pollRead_ahead (sized : ∀ frame ∈ origin, frame.Sized c) (ahead : Ahead suite cipher origin ending plain reader stream frames)
    (finished : reader.pollRead suite room stream = some (polled,later,rest)) :
    Answers suite cipher origin ending room (weight reader stream) plain polled later rest := by
  refine loop_invariant (fun after left => (∃ frames, Ahead suite cipher origin ending plain after left frames) ∧
    weight after left ≤ weight reader stream) _ ?_ ⟨⟨frames,ahead⟩,Nat.le_refl _⟩ finished
  rintro after left ⟨⟨frames',ahead'⟩,within⟩
  exact turn_ahead suite sized ahead' within

def Answered (room : Nat) (answer : Polled) : Prop :=
  answer = .pending ∨ ∃ data, answer = .ready data ∧ (0 < room → data ≠ [])

-- What a run delivers: a part of the text, all of it where the last call waits and nothing is left to arrive, and all of
-- it after enough calls with room.
structure Conveys (rooms : List Nat) (plain : Bytes) (bound : Nat) (polled : List Polled) (rest : Stream cap) : Prop where
  part : delivered polled <+: plain
  waits : polled.getLast? = some .pending → rest.arrivals = [] → delivered polled = plain
  all : (∀ room ∈ rooms, 0 < room) → bound < rooms.length → delivered polled = plain

theorem reads_cons (finished : reader.reads suite (room :: rooms) stream = some (polled,later,rest)) :
    ∃ answer reader' stream', reader.pollRead suite room stream = some (answer,reader',stream') ∧ (answer.ends = true ∧ polled = [answer] ∨
        answer.ends = false ∧ ∃ others, reader'.reads suite rooms stream' = some (others,later,rest) ∧ polled = answer :: others) := by
  rw [DecryptingReader.reads] at finished
  split at finished
  · cases finished
  · rename_i answer reader' stream' first
    refine ⟨answer,reader',stream',first,?_⟩
    split at finished
    · rename_i ends
      cases finished
      exact .inl ⟨ends,rfl⟩
    · rename_i goes
      obtain ⟨⟨others,_,_⟩,found,same⟩ := Option.map_eq_some_iff.mp finished
      cases same
      exact .inr ⟨by simpa using goes,others,found,rfl⟩

theorem reads_total (Holds : DecryptingReader c → Stream cap → Prop) (Good : Polled → Prop)
    (step : ∀ room reader stream, Holds reader stream → ∃ answer reader' stream',
      reader.pollRead suite room stream = some (answer,reader',stream') ∧ Good answer ∧ (answer.ends = false → Holds reader' stream'))
    (start : Holds reader stream) (rooms) :
    ∃ polled later rest, reader.reads suite rooms stream = some (polled,later,rest) ∧ ∀ answer ∈ polled, Good answer := by
  induction rooms generalizing reader stream with
  | nil => exact ⟨[],reader,stream,rfl,nofun⟩
  | cons room rooms ih =>
    obtain ⟨answer,reader',stream',first,good,further⟩ := step room reader stream start
    rw [DecryptingReader.reads,first]
    dsimp only
    by_cases ends : answer.ends = true
    · rw [if_pos ends]
      refine ⟨[answer],reader',stream',rfl,?_⟩
      intro other among
      cases mem_singleton.mp among
      exact good
    · obtain ⟨others,later,rest,found,all⟩ := ih (further (by simpa using ends))
      rw [if_neg ends,found]
      refine ⟨answer :: others,later,rest,rfl,?_⟩
      intro other among
      rcases mem_cons.mp among with rfl | among
      · exact good
      · exact all other among

theorem getLast?_longer {answer : Polled} (differs : answer ≠ .pending) (last : (answer :: others).getLast? = some .pending) :
    others.getLast? = some .pending := by
  cases others with
  | nil => exact absurd (Option.some.inj last) differs
  | cons second others => rwa [getLast?_cons_cons] at last

theorem reads_convey {cipher : Octets c.keySize} (sized : ∀ frame ∈ origin, frame.Sized c) (ahead : Ahead suite cipher origin ending plain reader stream frames)
    (finished : reader.reads suite rooms stream = some (polled,later,rest)) : Conveys rooms plain (weight reader stream) polled rest := by
  induction rooms generalizing reader stream plain frames polled with
  | nil =>
    cases finished
    exact ⟨ nil_prefix,fun last => (by cases last),fun _ long => absurd long (Nat.not_lt_zero _)⟩
  | cons room rooms ih =>
    obtain ⟨answer,reader',stream',first,run⟩ := reads_cons suite finished
    have settled := pollRead_ahead suite sized ahead first
    cases answer with
    | ready data =>
      obtain ⟨owed,frames',rfl,ahead',progress⟩ := settled
      obtain ⟨ends,-⟩ | ⟨-,others,found,rfl⟩ := run
      · cases ends
      · have further := ih ahead' found
        have parts : delivered (.ready data :: others) = data ++ delivered others := rfl
        refine ⟨?_,?_,?_⟩
        · rw [parts]
          exact prefix_append_right_inj data |>.mpr further.part
        · intro last empty
          rw [parts,further.waits (getLast?_longer (by nofun) last) empty]
        · intro positive long
          have less := (progress (positive room (mem_cons_self ..))).2
          rw [parts,further.all (fun other among => positive other (mem_cons_of_mem _ among))
            (by rw [length_cons] at long; omega)]
    | pending =>
      obtain ⟨⟨frames',ahead'⟩,exhausted,progress⟩ := settled
      obtain ⟨ends,-⟩ | ⟨-,others,found,rfl⟩ := run
      · cases ends
      · have further := ih ahead' found
        refine ⟨further.part,?_,?_⟩
        · intro last empty
          cases others with
          | nil =>
            cases rooms with
            | nil =>
              cases found
              exact (exhausted empty).symm
            | cons _ _ =>
              obtain ⟨_,_,_,-,⟨-,wrong⟩ | ⟨-,_,-,wrong⟩⟩ := reads_cons suite found <;> cases wrong
          | cons second others =>
            exact further.waits last empty
        · intro positive long
          obtain rfl | less := progress
          · exact prefix_nil.mp further.part
          · exact further.all (fun other among => positive other (mem_cons_of_mem _ among))
              (by rw [length_cons] at long; omega)
    | error e =>
      obtain ⟨rfl,-⟩ := settled
      obtain ⟨-,rfl⟩ | ⟨goes,-⟩ := run
      · exact ⟨ nil_prefix,fun _ _ => rfl,fun _ _ => rfl⟩
      · cases goes
    | panic fault => exact settled.elim

theorem reads_return (sized : ∀ frame ∈ origin, frame.Sized c) (ahead : Ahead suite cipher origin ending plain reader stream frames)
    (alive : ending ≠ .closed) (rooms) : ∃ polled later rest, reader.reads suite rooms stream = some (polled,later,rest) := by
  have step (room : Nat) (reader : DecryptingReader c) (stream : Stream cap)
      (held : ∃ plain frames, Ahead suite cipher origin ending plain reader stream frames) :
      ∃ answer reader' stream', reader.pollRead suite room stream = some (answer,reader',stream') ∧ True ∧
        (answer.ends = false → ∃ plain frames, Ahead suite cipher origin ending plain reader' stream' frames) := by
    obtain ⟨plain,frames,ahead⟩ := held
    obtain ⟨answer,reader',stream',first⟩ := pollRead_returns suite room reader stream (by rwa [ahead.ends])
    have settled := pollRead_ahead suite sized ahead first
    refine ⟨answer,reader',stream',first,trivial,fun goes => ?_⟩
    cases answer with
    | ready data =>
      obtain ⟨owed,frames',-,ahead',-⟩ := settled
      exact ⟨owed,frames',ahead'⟩
    | pending => exact ⟨plain,settled.1⟩
    | error e => cases goes
    | panic fault => exact settled.elim
  obtain ⟨polled,later,rest,finished,-⟩ := reads_total suite _ (fun _ => True) step ⟨plain,frames,ahead⟩ rooms
  exact ⟨polled,later,rest,finished⟩

theorem reads_answered {cipher : Octets c.keySize} (sized : ∀ frame ∈ origin, frame.Sized c) (carried : ∀ frame ∈ origin, ∃ pt, frame.Carries suite cipher pt)
    (ahead : Ahead suite cipher origin .stillOpen plain reader stream frames)
    (finished : reader.reads suite rooms stream = some (polled,later,rest)) : List.Forall₂ Answered rooms polled := by
  induction rooms generalizing reader stream plain frames polled with
  | nil =>
    cases finished
    exact .nil
  | cons room rooms ih =>
    obtain ⟨answer,reader',stream',first,run⟩ := reads_cons suite finished
    have settled := pollRead_ahead suite sized ahead first
    cases answer with
    | ready data =>
      obtain ⟨_,_,-,ahead',progress⟩ := settled
      obtain ⟨ends,-⟩ | ⟨-,others,found,rfl⟩ := run
      · cases ends
      · exact .cons (.inr ⟨data,rfl,fun positive => (progress positive).1⟩) (ih ahead' found)
    | pending =>
      obtain ⟨⟨_,ahead'⟩,-,-⟩ := settled
      obtain ⟨ends,-⟩ | ⟨-,others,found,rfl⟩ := run
      · cases ends
      · exact .cons (.inl rfl) (ih ahead' found)
    | error e =>
      obtain ⟨-,broken | ⟨frame,among,refused⟩⟩ := settled
      · cases broken
      · obtain ⟨pt,carries⟩ := carried frame among
        exact absurd carries (refused pt)
    | panic fault => exact settled.elim

def readTcpSession (c : CipherType) (key iv : Bytes) (stream : Stream cap) :
    Reading (Destination × DecryptingReader c × Stream cap) := do
  let (cipher,nonce) ← faulty (createAuthenticator suite c key iv)
  let (size,stream) ← labelled "read chunk size: " (readExact 2 stream)
  let (chunk,stream) ← labelled "read chunk: " (readExact (announced size) stream)
  let opened ← faulty (openChunk suite cipher size chunk.val)
  let plaintext ← labelled "decrypt first chunk: " (fallible opened)
  let (dest,_) ← fallible (readAddress plaintext)
  .ok (dest,.fresh cipher (next nonce),stream)

section
variable (aead : c.isAead = true)
include aead

theorem readTcpSession_frame (key iv stream) (frame : Frame) (parts : stream.text = frame.bytes ++ rest) :
    ∃ later : Stream cap, later.text = rest ∧ later.ending = stream.ending ∧ readTcpSession suite c key iv stream = (do
        let opened ← faulty (openChunk suite (suite.hkdfSha1 key iv c.keySize) frame.size frame.body)
        let plaintext ← labelled "decrypt first chunk: " (fallible opened)
        let (dest,_) ← fallible (readAddress plaintext)
        .ok (dest,.fresh (suite.hkdfSha1 key iv c.keySize) (next (Octets.zero c.nonceSize)),later)) := by
  rw [Frame.bytes,append_assoc] at parts
  obtain ⟨middle,sizeRead,middleText,middleEnding⟩ := readExact_enough stream parts frame.size.property
  obtain ⟨later,bodyRead,laterText,laterEnding⟩ := readExact_enough middle middleText frame.whole
  refine ⟨later,laterText,laterEnding.trans middleEnding,?_⟩
  rw [readTcpSession,createAuthenticator,if_pos aead,faulty,ok_bind]
  dsimp only
  rw [sizeRead,labelled_ok,ok_bind]
  rw [bodyRead]
  rfl

theorem readTcpSession_carried (key iv stream) {frame : Frame}
    (parts : stream.text = frame.bytes ++ rest) (carries : frame.Carries suite (suite.hkdfSha1 key iv c.keySize) plaintext)
    (read : readAddress plaintext = .ok (dest,offset)) : ∃ later : Stream cap, later.text = rest ∧ later.ending = stream.ending ∧
      readTcpSession suite c key iv stream = .ok (dest,.fresh (suite.hkdfSha1 key iv c.keySize) (next (Octets.zero c.nonceSize)),later) := by
  obtain ⟨later,text,ending,session⟩ := readTcpSession_frame suite aead key iv stream frame parts
  rw [carries,faulty,ok_bind,fallible,labelled_ok,ok_bind,read] at session
  exact ⟨later,text,ending,session⟩

theorem readTcpSession_short (key iv) (stream : Stream cap) (short : Short stream.text) :
    ∃ label, readTcpSession suite c key iv stream = .error (stream.ending.stop.labelled label) := by
  rw [readTcpSession,createAuthenticator,if_pos aead,faulty,ok_bind]
  dsimp only
  obtain short | ⟨size,later,parts,short⟩ := short
  · rw [readExact_short stream short]
    exact ⟨_,rfl⟩
  · obtain ⟨middle,read,text,ending⟩ := readExact_enough stream parts size.property
    rw [read,labelled_ok,ok_bind]
    rw [readExact_short middle (by rwa [text]),ending]
    exact ⟨_,rfl⟩

end

theorem plaintexts_carried (carried : List.Forall₂ (Frame.Carries suite cipher) frames chunks) : plaintexts suite cipher frames = chunks.flatten := by
  induction carried with
  | nil => rfl
  | cons carries _ ih =>
    rw [plaintexts,carries,flatten_cons,← ih]

theorem sized_carried {cipher : Octets c.keySize} (carried : List.Forall₂ (Frame.Carries suite cipher) frames chunks) :
    ∀ frame ∈ frames, frame.Sized c ∧ ∃ pt, frame.Carries suite cipher pt := by
  induction carried with
  | nil => nofun
  | cons carries _ ih =>
    intro frame among
    rcases mem_cons.mp among with rfl | among
    · have width := carries.length
      exact ⟨⟨by omega,by omega⟩,_,carries⟩
    · exact ih frame among

theorem fresh_ahead (cipher : Octets c.keySize) (nonce frames) (stream : Stream cap) (text : stream.text = frames.flatMap Frame.bytes) :
    Ahead suite cipher frames stream.ending (plaintexts suite cipher frames) (.fresh cipher nonce) stream frames :=
  ⟨suffix_refl _,rfl,rfl,text,rfl⟩

def Delivers (reader : DecryptingReader c) (stream : Stream cap) (plain : Bytes) : Prop :=
  ∃ bound, ∀ rooms, ∃ polled later rest, reader.reads suite rooms stream = some (polled,later,rest) ∧
    List.Forall₂ Answered rooms polled ∧ Conveys rooms plain bound polled rest

theorem uplink_roundtrip (aead : c.isAead = true) (key iv : Bytes) (address : Address) (port : UInt16) (fits : Fits address)
    (chunks : List Bytes) (small : ∀ chunk ∈ chunks, chunk.length ≤ 0x3FFF) :
    ∃ session first later sent, SessionCipher.new suite c key iv = .ok session ∧
      session.encryptFirstChunk suite address port = .ok (first,later) ∧ later.encryptChunks suite chunks = .ok sent ∧
      ∀ {cap} (stream : Stream cap), stream.text = first ++ sent.flatten → stream.ending = .stillOpen →
        ∃ reader rest, readTcpSession suite c key iv stream = .ok (tcpDestination address ⟨port⟩,reader,rest) ∧
          Delivers suite reader rest chunks.flatten := by
  let session : SessionCipher c := ⟨suite.hkdfSha1 key iv c.keySize,Octets.zero c.nonceSize⟩
  obtain ⟨first,plaintext,wrote,carries,offset,read⟩ := encryptFirstChunk_frame suite session address port fits
  obtain ⟨frames,sent,carried⟩ := encryptChunks_frames suite {session with nonce := next session.nonce} chunks small
  refine ⟨session,_,_,_,?_,wrote,sent,?_⟩
  · rw [SessionCipher.new,createAuthenticator,if_pos aead]
    rfl
  · intro cap stream text stays
    obtain ⟨rest,behind,ending,opened⟩ := readTcpSession_carried suite aead key iv stream text carries read
    rw [stays] at ending
    refine ⟨_,rest,opened,?_⟩
    have ahead := fresh_ahead suite session.cipher (next (Octets.zero c.nonceSize)) frames rest behind
    rw [ending,plaintexts_carried suite carried] at ahead
    have whole := sized_carried suite carried
    refine ⟨weight (.fresh session.cipher (next (Octets.zero c.nonceSize))) rest,fun rooms => ?_⟩
    obtain ⟨polled,later,left,finished⟩ := reads_return suite (fun frame among => (whole frame among).1) ahead (by nofun) rooms
    exact ⟨polled,later,left,finished,
      reads_answered suite (fun frame among => (whole frame among).1) (fun frame among => (whole frame among).2) ahead finished,
      reads_convey suite (fun frame among => (whole frame among).1) ahead finished⟩

theorem uplink_roundtrip_exposed : ∃ session first later sent, SessionCipher.new exposedSuite .aes128Gcm [7] [8] = .ok session ∧
      session.encryptFirstChunk exposedSuite (.ipv4 ⟨[1,2,3,4],rfl⟩) 80 = .ok (first,later) ∧
      later.encryptChunks exposedSuite [[5],[],[6,7]] = .ok sent ∧
      ∀ {cap} (stream : Stream cap), stream.text = first ++ sent.flatten → stream.ending = .stillOpen →
        ∃ reader rest, readTcpSession exposedSuite .aes128Gcm [7] [8] stream =
            .ok (tcpDestination (.ipv4 ⟨[1,2,3,4],rfl⟩) ⟨80⟩,reader,rest) ∧
          Delivers exposedSuite reader rest [5,6,7] :=
  uplink_roundtrip exposedSuite rfl [7] [8] (.ipv4 ⟨[1,2,3,4],rfl⟩) 80 trivial [[5],[],[6,7]] (by decide)

end AstraCore.Shadowsocks
