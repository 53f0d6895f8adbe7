import AstraCore.CheckedBytes

namespace AstraCore.JsonComments
open CheckedBytes List

inductive State where
  | content
  | escape
  | doubleQuote
  | doubleQuoteEscape
  | singleQuote
  | singleQuoteEscape
  | comment
  | slash
  | multilineComment
  | multilineCommentStar
deriving DecidableEq

-- One byte of the input: the next state and what is written. The bytes are " 34, # 35, ' 39, * 42, / 47, \ 92 and newline 10.
def step : State → UInt8 → State × Bytes
  | .content,34 => (.doubleQuote,[34])
  | .content,39 => (.singleQuote,[39])
  | .content,92 => (.escape,[])
  | .content,35 => (.comment,[])
  | .content,47 => (.slash,[])
  | .content,x => (.content,[x])
  | .escape,x => (.content,[92,x])
  | .doubleQuote,34 => (.content,[34])
  | .doubleQuote,92 => (.doubleQuoteEscape,[92])
  | .doubleQuote,x => (.doubleQuote,[x])
  | .doubleQuoteEscape,x => (.doubleQuote,[92,x])
  | .singleQuote,39 => (.content,[39])
  | .singleQuote,92 => (.singleQuoteEscape,[92])
  | .singleQuote,x => (.singleQuote,[x])
  | .singleQuoteEscape,x => (.singleQuote,[92,x])
  | .comment,10 => (.content,[10])
  | .comment,_ => (.comment,[])
  | .slash,47 => (.comment,[])
  | .slash,42 => (.multilineComment,[])
  | .slash,x => (.slash,[47,x])
  | .multilineComment,42 => (.multilineCommentStar,[])
  | .multilineComment,10 => (.multilineComment,[10])
  | .multilineComment,_ => (.multilineComment,[])
  | .multilineCommentStar,47 => (.content,[])
  | .multilineCommentStar,42 => (.multilineCommentStar,[])
  | .multilineCommentStar,10 => (.multilineCommentStar,[10])
  | .multilineCommentStar,_ => (.multilineComment,[])

-- One call: what is written, the state and the input left. The second byte of a transition is dropped when the buffer is full.
def read : Nat → State → Bytes → Bytes × State × Bytes
  | 0,state,input => ([],state,input)
  | _ + 1,state,[] => ([],state,[])
  | room + 1,state,x :: rest =>
    let written := (step state x).2.take (room + 1)
    let more := read (room + 1 - written.length) (step state x).1 rest
    (written ++ more.1,more.2)

-- Calls with buffers of the given sizes until one returns 0; `none` when there are too few.
def readAll : List Nat → State → Bytes → Option Bytes
  | [],_,_ => none
  | size :: sizes,state,input =>
    let (out,next,rest) := read size state input
    if out = [] then some [] else (readAll sizes next rest).map (out ++ ·)

-- A run of the machine in which no transition writes two bytes.
inductive Runs : State → Bytes → Bytes → State → Prop
  | nil : Runs s [] [] s
  | cons (single : (step s x).2.length ≤ 1) (rest : Runs (step s x).1 input out last) : Runs s (x :: input) ((step s x).2 ++ out) last

theorem Runs.quiet (quiet : step s x = (middle,[])) (rest : Runs middle input out last) : Runs s (x :: input) out last := by
  have run : Runs s (x :: input) ((step s x).2 ++ out) last := .cons (by simp [quiet]) (by rw [quiet]; exact rest)
  simpa [quiet] using run

theorem Runs.loud (loud : step s x = (middle,[y])) (rest : Runs middle input out last) : Runs s (x :: input) (y :: out) last := by
  have run : Runs s (x :: input) ((step s x).2 ++ out) last := .cons (by simp [loud]) (by rw [loud]; exact rest)
  simpa [loud] using run

theorem Runs.part (runs : Runs s input out last) (size) : ∃ back, out = (JsonComments.read size s input).1 ++ back ∧
      Runs (JsonComments.read size s input).2.1 (JsonComments.read size s input).2.2 back last := by
  induction runs generalizing size with
  | nil => cases size <;> exact ⟨[],rfl,.nil⟩
  | @cons s x input out last single rest ih =>
    cases size with
    | zero => exact ⟨_,rfl,.cons single rest⟩
    | succ size =>
      have short : (step s x).2.take (size + 1) = (step s x).2 := take_of_length_le (by omega)
      obtain ⟨back,same,onward⟩ := ih (size + 1 - (step s x).2.length)
      simp only [JsonComments.read,short]
      exact ⟨back,by rw [append_assoc,← same],onward⟩

theorem read_ended (state input) (nothing : (read (size + 1) state input).1 = []) : (read (size + 1) state input).2.2 = [] := by
  induction input generalizing state size with
  | nil => rfl
  | cons x rest ih =>
    simp only [read,append_eq_nil_iff,take_eq_nil_iff] at nothing ⊢
    have silent : (step state x).2 = [] := by simpa using nothing.1
    simp only [silent,take_nil,length_nil,Nat.sub_zero] at nothing ⊢
    exact ih _ nothing.2

theorem read_shorter (state input size) :
    (read size state input).2.2.length ≤ input.length ∧ ((read size state input).1 ≠ [] → (read size state input).2.2.length < input.length) := by
  induction input generalizing state size with
  | nil => cases size <;> simp [read]
  | cons x rest ih =>
    cases size with
    | zero => simp [read]
    | succ size =>
      have fewer := (ih (step state x).1 (size + 1 - ((step state x).2.take (size + 1)).length)).1
      simp only [read,length_cons]
      exact ⟨by omega,fun _ => by omega⟩

theorem Runs.ended (runs : Runs s [] out last) : out = [] := by
  cases runs
  rfl

theorem readAll_ends (state input) (positive : ∀ size ∈ sizes, 0 < size) (enough : input.length < sizes.length) :
    readAll sizes state input ≠ none := by
  induction sizes generalizing state input with
  | nil => exact absurd enough (Nat.not_lt_zero _)
  | cons size sizes ih =>
    have fewer := (read_shorter state input size).2
    simp only [readAll]
    split
    · simp
    · rename_i something
      have shorter := fewer something
      rw [length_cons] at enough
      simpa using ih _ _ (fun other inside => positive other (mem_cons_of_mem _ inside))
        (Nat.lt_of_lt_of_le shorter (Nat.le_of_lt_succ enough))

theorem readAll_runs (runs : Runs s input out last) (positive : ∀ size ∈ sizes, 0 < size)
    (result : readAll sizes s input = some bytes) : bytes = out := by
  induction sizes generalizing s input out bytes with
  | nil => cases result
  | cons size sizes ih =>
    obtain ⟨back,same,onward⟩ := runs.part size
    obtain ⟨room,rfl⟩ := Nat.exists_eq_add_one_of_ne_zero (Nat.ne_of_gt (positive size mem_cons_self))
    simp only [readAll] at result
    split at result
    · rename_i nothing
      rw [read_ended s input nothing] at onward
      rw [same,nothing,onward.ended,← Option.some.inj result]
      rfl
    · obtain ⟨more,rest,rfl⟩ := Option.map_eq_some_iff.mp result
      rw [same,ih onward (fun other inside => positive other (mem_cons_of_mem _ inside)) rest]

-- All that the transitions write, whatever fits a buffer.
def output : State → Bytes → Bytes
  | _,[] => []
  | state,x :: rest => (step state x).2 ++ output (step state x).1 rest

theorem read_output (state input) (room : (output state input).length < size) :
    ∃ last, read size state input = (output state input,last,[]) := by
  obtain ⟨size,rfl⟩ := Nat.exists_eq_add_one_of_ne_zero (Nat.ne_zero_of_lt room)
  induction input generalizing state size with
  | nil => exact ⟨state,rfl⟩
  | cons x rest ih =>
    rw [output,length_append] at room
    have short : (step state x).2.take (size + 1) = (step state x).2 := take_of_length_le (by omega)
    obtain ⟨last,more⟩ := ih (step state x).1 (size - (step state x).2.length) (by omega)
    rw [← Nat.sub_add_comm (by omega)] at more
    exact ⟨last,by simp only [read,short,more,output]⟩

theorem readAll_output (state input) : readAll [(output state input).length + 1,1] state input = some (output state input) := by
  obtain ⟨last,all⟩ := read_output state input (Nat.lt_succ_self _)
  simp only [readAll,all]
  split
  · rename_i nothing
    rw [nothing]
  · simp [read]

-- With one byte of room a call ends at the first transition that writes, and keeps one byte of it.
theorem readAll_ones (state input) (result : readAll (replicate k 1) state input = some bytes) :
    bytes.length ≤ (output state input).length ∧
      (bytes.length = (output state input).length → ∃ last, Runs state input (output state input) last) := by
  induction input generalizing state k bytes with
  | nil =>
    cases k with
    | zero => cases result
    | succ k =>
      cases result
      exact ⟨Nat.le_refl _,fun _ => ⟨state,.nil⟩⟩
  | cons x rest ih =>
    cases k with
    | zero => cases result
    | succ k =>
      cases wrote : (step state x).2 with
      | nil =>
        have next : readAll (replicate (k + 1) 1) (step state x).1 rest = some bytes := by
          rw [← result]
          simp [replicate_succ,readAll,read,wrote]
        obtain ⟨fewer,runs⟩ := ih _ next
        simp only [output,wrote,nil_append]
        refine ⟨fewer,fun same => ?_⟩
        obtain ⟨last,further⟩ := runs same
        exact ⟨last,.quiet (Prod.ext rfl wrote) further⟩
      | cons y more =>
        simp only [replicate_succ,readAll,read,wrote,take_succ_cons,take_zero,length_singleton,
          Nat.sub_self,append_nil,cons_ne_nil,if_false] at result
        obtain ⟨others,next,rfl⟩ := Option.map_eq_some_iff.mp result
        obtain ⟨fewer,runs⟩ := ih _ next
        simp only [output,wrote,length_append,length_cons,length_nil]
        refine ⟨by omega,fun same => ?_⟩
        obtain ⟨last,further⟩ := runs (by omega)
        cases eq_nil_of_length_eq_zero (show more.length = 0 by omega)
        exact ⟨last,.loud (Prod.ext rfl wrote) further⟩

-- The calls end whatever the sizes are; what they yield is the same for all of them exactly when no transition writes two
-- bytes on the way.
theorem buffer_independent_iff (input : Bytes) :
    ((∀ sizes others result other, (∀ size ∈ sizes, 0 < size) → (∀ size ∈ others, 0 < size) →
      readAll sizes .content input = some result → readAll others .content input = some other → result = other) ↔
        ∃ out last, Runs .content input out last) ∧
    (∀ sizes, (∀ size ∈ sizes, 0 < size) → input.length < sizes.length → readAll sizes .content input ≠ none) ∧
    ∀ size state text, (read (size + 1) state text).1 = [] → (read (size + 1) state text).2.2 = [] := by
  refine ⟨⟨fun same => ?_,?_⟩,fun _ => readAll_ends .content input,fun _ state text => read_ended state text⟩
  · have one : ∀ size ∈ replicate (input.length + 1) 1, 0 < size := by simp
    obtain ⟨bytes,small⟩ := Option.ne_none_iff_exists'.mp (readAll_ends .content input one (by simp))
    have equal := same _ _ _ _ (by simp) one (readAll_output .content input) small
    obtain ⟨last,runs⟩ := (readAll_ones .content input small).2 (congrArg length equal.symm)
    exact ⟨_,last,runs⟩
  · rintro ⟨out,last,runs⟩ sizes others result other positive more first second
    rw [readAll_runs runs positive first,readAll_runs runs more second]

theorem byte_dropped : readAll [1,1] .content [92,97] = some [92] ∧ readAll [2,2] .content [92,97] = some [92,97] := by decide

end AstraCore.JsonComments
