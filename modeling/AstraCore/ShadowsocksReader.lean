import AstraCore.ShadowsocksProtocol

namespace AstraCore.Shadowsocks
open CheckedBytes NetAddress ByteCounter PolledStream List
variable {cap : Nat} (suite : Suite) {c : CipherType}

-- The filled part of the size field, or of the chunk it announced. Neither is ever full between two reads.
inductive ReadStage where
  | size (held : Bytes) (unfilled : held.length < 2)
  | payload (size : Octets 2) (held : Bytes) (unfilled : held.length < announced size)

structure DecryptingReader (c : CipherType) where
  cipher : Octets c.keySize
  nonce : Octets c.nonceSize
  output : Bytes
  stage : ReadStage

def DecryptingReader.fresh (cipher : Octets c.keySize) (nonce : Octets c.nonceSize) : DecryptingReader c :=
  ⟨cipher,nonce,[],.size [] (Nat.succ_pos 1)⟩

inductive Polled where
  | ready (data : Bytes)
  | pending
  | error (text : String)
  | panic (fault : Panic)

inductive Turn (c : CipherType) (cap : Nat) where
  | returns (polled : Polled) (reader : DecryptingReader c) (stream : Stream cap)
  | again (reader : DecryptingReader c) (stream : Stream cap)

def DecryptingReader.turn (room : Nat) (reader : DecryptingReader c) (stream : Stream cap) : Turn c cap :=
  if reader.output ≠ [] then
    .returns (.ready (reader.output.take room)) {reader with output := reader.output.drop room} stream
  else
    match reader.stage with
    | .size held unfilled =>
      match stream.poll (2 - held.length) with
      | (.pending,stream) => .returns .pending reader stream
      | (.failed e,stream) => .returns (.error e) reader stream
      | (.filled bytes fits,stream) =>
        if short : (held ++ bytes).length < 2 then .again {reader with stage := .size (held ++ bytes) short} stream
        else
          let size : Octets 2 := ⟨held ++ bytes,by rw [List.length_append] at short ⊢; omega⟩
          if zero : announced size = 0 then .returns (.ready []) {reader with stage := .size [] (Nat.succ_pos 1)} stream
          else .again {reader with stage := .payload size [] (Nat.pos_of_ne_zero zero)} stream
    | .payload size held unfilled =>
      match stream.poll (announced size - held.length) with
      | (.pending,stream) => .returns .pending reader stream
      | (.failed e,stream) => .returns (.error e) reader stream
      | (.filled bytes _,stream) =>
        if short : (held ++ bytes).length < announced size then
          .again {reader with stage := .payload size (held ++ bytes) short} stream
        else
          match openChunk suite reader.cipher size (held ++ bytes) with
          | .error fault => .returns (.panic fault) reader stream
          | .ok (.error e) => .returns (.error e) reader stream
          | .ok (.ok pt) =>
            .again {reader with output := reader.output ++ pt, nonce := next reader.nonce, stage := .size [] (Nat.succ_pos 1)} stream

def DecryptingReader.loop (room : Nat) : Nat → DecryptingReader c → Stream cap → Option (Polled × DecryptingReader c × Stream cap)
  | 0,_,_ => none
  | turns + 1,reader,stream =>
    match reader.turn suite room stream with
    | .returns polled reader stream => some (polled,reader,stream)
    | .again reader stream => loop room turns reader stream

-- A turn that goes on has read something, unless the stream is closed; so more turns than this never help.
def DecryptingReader.pollRead (room : Nat) (reader : DecryptingReader c) (stream : Stream cap) :
    Option (Polled × DecryptingReader c × Stream cap) :=
  reader.loop suite room (stream.text.length + 1) stream

def ReadStage.held : ReadStage → Bytes
  | .size held _ => held
  | .payload field held _ => field.val ++ held

def backlog (reader : DecryptingReader c) (stream : Stream cap) : Bytes := reader.stage.held ++ stream.text

inductive TurnCases (room : Nat) (reader : DecryptingReader c) (stream : Stream cap) : Prop where
  | drains (present : reader.output ≠ [])
      (turn : reader.turn suite room stream =
        .returns (.ready (reader.output.take room)) {reader with output := reader.output.drop room} stream)
  | waits (dry : reader.output = []) (turn : reader.turn suite room stream = .returns .pending reader stream)
      (empty : stream.arrivals = []) (ending : stream.ending = .stillOpen)
  | delayed (dry : reader.output = []) (later : Stream cap) (turn : reader.turn suite room stream = .returns .pending reader later)
      (text : later.text = stream.text) (ending : later.ending = stream.ending)
      (fewer : later.arrivals.length < stream.arrivals.length)
  | broken (dry : reader.output = []) (e : String) (turn : reader.turn suite room stream = .returns (.error e) reader stream)
      (empty : stream.arrivals = []) (ending : stream.ending = .broken e)
  | spins (dry : reader.output = []) (turn : reader.turn suite room stream = .again reader stream)
      (empty : stream.arrivals = []) (ending : stream.ending = .closed)
  | fills (dry : reader.output = []) (stage : ReadStage) (later : Stream cap)
      (turn : reader.turn suite room stream = .again {reader with stage := stage} later)
      (kept : stage.held ++ later.text = backlog reader stream) (ending : later.ending = stream.ending)
      (shorter : later.text.length < stream.text.length) (fewer : later.arrivals.length ≤ stream.arrivals.length)
  | empties (dry : reader.output = []) (frame : Frame) (later : Stream cap)
      (turn : reader.turn suite room stream = .returns (.ready []) {reader with stage := .size [] (Nat.succ_pos 1)} later)
      (parts : backlog reader stream = frame.bytes ++ later.text) (zero : frame.body = []) (ending : later.ending = stream.ending)
      (fewer : later.arrivals.length ≤ stream.arrivals.length)
  | faults (dry : reader.output = []) (frame : Frame) (later : Stream cap)
      (turn : reader.turn suite room stream = .returns (.panic .sliceIndex) reader later)
      (parts : backlog reader stream = frame.bytes ++ later.text) (present : 0 < frame.body.length)
      (clipped : frame.body.length < c.nonceSize)
  | refuses (dry : reader.output = []) (frame : Frame) (e : String) (later : Stream cap)
      (turn : reader.turn suite room stream = .returns (.error e) reader later)
      (parts : backlog reader stream = frame.bytes ++ later.text) (present : 0 < frame.body.length)
      (refused : openChunk suite reader.cipher frame.size frame.body = .ok (.error e))
  | opens (dry : reader.output = []) (frame : Frame) (pt : Bytes) (later : Stream cap)
      (turn : reader.turn suite room stream =
        .again ⟨reader.cipher,next reader.nonce,pt,.size [] (Nat.succ_pos 1)⟩ later)
      (parts : backlog reader stream = frame.bytes ++ later.text) (carries : frame.Carries suite reader.cipher pt)
      (ending : later.ending = stream.ending) (shorter : later.text.length < stream.text.length)
      (fewer : later.arrivals.length ≤ stream.arrivals.length)

theorem turn_cases (room) (reader : DecryptingReader c) (stream : Stream cap) : TurnCases suite room reader stream := by
  by_cases present : reader.output ≠ []
  · exact .drains present (if_pos present)
  · have dry := not_not.mp present
    have whole : reader.turn suite room stream = _ := if_neg present
    cases stage : reader.stage with
    | size held unfilled =>
      rw [stage] at whole
      dsimp only at whole
      have kept : backlog reader stream = held ++ stream.text := by rw [backlog,stage]; rfl
      cases stream.poll_cases (show 0 < 2 - held.length by omega) with
      | waits poll empty ending => exact .waits dry (by rw [whole,poll]) empty ending
      | delayed later poll text ending fewer => exact .delayed dry later (by rw [whole,poll]) text ending fewer
      | broken e poll empty ending => exact .broken dry e (by rw [whole,poll]) empty ending
      | closed poll empty ending =>
        refine .spins dry ?_ empty ending
        have short : (held ++ []).length < 2 := by rwa [append_nil]
        rw [whole,poll]
        dsimp only
        rw [dif_pos short]
        simp [← stage]
      | arrived later bytes fits poll arrived text ending fewer =>
        have shorter : later.text.length < stream.text.length := by rw [text,length_append]; omega
        have same : held ++ bytes ++ later.text = backlog reader stream := by rw [kept,text,append_assoc]
        rw [poll] at whole
        dsimp only at whole
        by_cases short : (held ++ bytes).length < 2
        · exact .fills dry (.size (held ++ bytes) short) later (by rw [whole,dif_pos short]) same ending shorter fewer
        · rw [dif_neg short] at whole
          have sized : (held ++ bytes).length = 2 := by rw [length_append] at short ⊢; omega
          by_cases zero : announced ⟨held ++ bytes,sized⟩ = 0
          · refine .empties dry ⟨⟨held ++ bytes,sized⟩,[],zero.symm⟩ later (by rw [whole,dif_pos zero]) ?_ rfl ending fewer
            rw [Frame.bytes,append_nil,← same]
          · refine .fills dry (.payload ⟨held ++ bytes,sized⟩ [] (Nat.pos_of_ne_zero zero)) later (by rw [whole,dif_neg zero]) ?_
              ending shorter fewer
            rw [ReadStage.held,append_nil,← same]
    | payload size held unfilled =>
      rw [stage] at whole
      dsimp only at whole
      have kept : backlog reader stream = size.val ++ held ++ stream.text := by rw [backlog,stage]; rfl
      cases stream.poll_cases (show 0 < announced size - held.length by omega) with
      | waits poll empty ending => exact .waits dry (by rw [whole,poll]) empty ending
      | delayed later poll text ending fewer => exact .delayed dry later (by rw [whole,poll]) text ending fewer
      | broken e poll empty ending => exact .broken dry e (by rw [whole,poll]) empty ending
      | closed poll empty ending =>
        refine .spins dry ?_ empty ending
        have short : (held ++ []).length < announced size := by rwa [append_nil]
        rw [whole,poll]
        dsimp only
        rw [dif_pos short]
        simp [← stage]
      | arrived later bytes fits poll arrived text ending fewer =>
        have shorter : later.text.length < stream.text.length := by rw [text,length_append]; omega
        have same : size.val ++ (held ++ bytes) ++ later.text = backlog reader stream := by
          rw [kept,text]
          simp only [append_assoc]
        rw [poll] at whole
        dsimp only at whole
        by_cases short : (held ++ bytes).length < announced size
        · exact .fills dry (.payload size (held ++ bytes) short) later (by rw [whole,dif_pos short]) same ending shorter fewer
        · rw [dif_neg short] at whole
          have filled : (held ++ bytes).length = announced size := by rw [length_append] at short ⊢; omega
          have positive : 0 < (held ++ bytes).length := by omega
          let frame : Frame := ⟨size,held ++ bytes,filled⟩
          cases opened : openChunk suite reader.cipher size _ with
          | error fault =>
            rw [opened] at whole
            have clipped : (held ++ bytes).length < c.nonceSize ∧ fault = .sliceIndex := by
              rw [openChunk] at opened
              split at opened
              · cases opened
              · cases opened
                exact ⟨by omega,rfl⟩
            exact .faults dry frame later (by rw [whole,clipped.2]) same.symm positive clipped.1
          | ok result =>
            rw [opened] at whole
            cases result with
            | error e => exact .refuses dry frame e later whole same.symm positive opened
            | ok pt =>
              refine .opens dry frame pt later ?_ same.symm opened ending shorter fewer
              rw [whole]
              dsimp only
              rw [dry,nil_append]

-- Rules for the loop. What one turn keeps, a call of `poll_read` keeps; and where every turn that goes on reads something,
-- the call returns.
section
variable {suite} {room : Nat} (Holds : DecryptingReader c → Stream cap → Prop)
  (Done : Polled → DecryptingReader c → Stream cap → Prop)

theorem loop_invariant (step : ∀ reader stream, Holds reader stream →
      (∃ polled reader' stream', reader.turn suite room stream = .returns polled reader' stream' ∧ Done polled reader' stream') ∨
      ∃ reader' stream', reader.turn suite room stream = .again reader' stream' ∧ Holds reader' stream')
    (start : Holds reader stream) (finished : reader.loop suite room turns stream = some (polled,later,rest)) : Done polled later rest := by
  induction turns generalizing reader stream with
  | zero => cases finished
  | succ turns ih =>
    rw [DecryptingReader.loop] at finished
    obtain ⟨polled',reader',stream',turn,settled⟩ | ⟨reader',stream',turn,holds⟩ := step reader stream start
    · rw [turn] at finished
      cases finished
      exact settled
    · rw [turn] at finished
      exact ih holds finished

theorem loop_total (step : ∀ reader stream, Holds reader stream →
      (∃ polled reader' stream', reader.turn suite room stream = .returns polled reader' stream' ∧ Done polled reader' stream') ∨
      ∃ reader' stream', reader.turn suite room stream = .again reader' stream' ∧ Holds reader' stream' ∧ stream'.text.length < stream.text.length)
    (start : Holds reader stream) (enough : stream.text.length < turns) :
    ∃ polled later rest, reader.loop suite room turns stream = some (polled,later,rest) ∧ Done polled later rest := by
  induction turns generalizing reader stream with
  | zero => omega
  | succ turns ih =>
    rw [DecryptingReader.loop]
    obtain ⟨polled,reader',stream',turn,settled⟩ | ⟨reader',stream',turn,holds,shorter⟩ := step reader stream start
    · rw [turn]
      exact ⟨polled,reader',stream',rfl,settled⟩
    · rw [turn]
      exact ih holds (by omega)

end

theorem turn_progress (reader : DecryptingReader c) : (∃ polled reader' stream', reader.turn suite room stream = .returns polled reader' stream') ∨
    (∃ reader' stream', reader.turn suite room stream = .again reader' stream' ∧ stream'.text.length < stream.text.length ∧
      stream'.ending = stream.ending) ∨ (reader.turn suite room stream = .again reader stream ∧ stream.ending = .closed) := by
  cases turn_cases suite room reader stream with
  | drains _ turn | waits _ turn | delayed _ _ turn | broken _ _ turn => exact .inl ⟨_,_,_,turn⟩
  | spins _ turn _ ending => exact .inr (.inr ⟨turn,ending⟩)
  | fills _ _ _ turn _ ending shorter => exact .inr (.inl ⟨_,_,turn,shorter,ending⟩)
  | empties _ _ _ turn | faults _ _ _ turn | refuses _ _ _ _ turn => exact .inl ⟨_,_,_,turn⟩
  | opens _ _ _ _ turn _ _ ending shorter => exact .inr (.inl ⟨_,_,turn,shorter,ending⟩)

theorem pollRead_returns (room) (reader : DecryptingReader c) (stream : Stream cap) (alive : stream.ending ≠ .closed) :
    ∃ polled later rest, reader.pollRead suite room stream = some (polled,later,rest) := by
  have step (reader : DecryptingReader c) (stream : Stream cap) (unclosed : stream.ending ≠ .closed) :
      (∃ polled reader' stream', reader.turn suite room stream = .returns polled reader' stream' ∧ True) ∨
      ∃ reader' stream', reader.turn suite room stream = .again reader' stream' ∧ stream'.ending ≠ .closed ∧ stream'.text.length < stream.text.length := by
    obtain ⟨polled,reader',stream',turn⟩ | ⟨reader',stream',turn,shorter,ending⟩ | ⟨-,closed⟩ := turn_progress suite reader
    · exact .inl ⟨polled,reader',stream',turn,trivial⟩
    · exact .inr ⟨reader',stream',turn,by rwa [ending],shorter⟩
    · exact absurd closed unclosed
  obtain ⟨polled,later,rest,finished,-⟩ := loop_total _ _ step alive
    (Nat.lt_succ_self _)
  exact ⟨polled,later,rest,finished⟩

theorem loop_more (more) (reader : DecryptingReader c) (stream : Stream cap)
    (finished : reader.loop suite room turns stream = some result) : reader.loop suite room (turns + more) stream = some result := by
  induction turns generalizing reader stream with
  | zero => cases finished
  | succ turns ih =>
    rw [Nat.add_right_comm,DecryptingReader.loop]
    rw [DecryptingReader.loop] at finished
    cases turn : reader.turn suite room stream with
    | returns polled reader' stream' => rwa [turn] at finished
    | again reader' stream' =>
      rw [turn] at finished
      exact ih reader' stream' finished

theorem pollRead_stuck {reader : DecryptingReader c} (stuck : reader.pollRead suite room stream = none)
    (turns) : reader.loop suite room turns stream = none := by
  refine Option.eq_none_iff_forall_ne_some.mpr ?_
  intro result finished
  have found : reader.pollRead suite room stream = some result := by
    clear stuck
    induction turns generalizing reader stream with
    | zero => cases finished
    | succ turns ih =>
      rw [DecryptingReader.loop] at finished
      obtain ⟨polled,reader',stream',turn⟩ | ⟨reader',stream',turn,shorter,-⟩ | ⟨turn,-⟩ := turn_progress suite reader
      · rw [turn] at finished
        rw [DecryptingReader.pollRead,DecryptingReader.loop,turn]
        exact finished
      · rw [turn] at finished
        have settled := loop_more suite (stream.text.length - (stream'.text.length + 1)) reader' stream' (ih finished)
        rw [Nat.add_sub_cancel' (by omega)] at settled
        rw [DecryptingReader.pollRead,DecryptingReader.loop,turn]
        exact settled
      · rw [turn] at finished
        exact ih finished
  rw [stuck] at found
  cases found

end AstraCore.Shadowsocks
