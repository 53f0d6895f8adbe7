import AstraCore.ByteStream
import AstraCore.Dispatcher

namespace AstraCore.InboundLink
open CheckedBytes NetAddress ByteStream Dispatcher
variable {cap : Nat}

structure Incoming (cap : Nat) where
  segments : List (Segment UInt8 cap)
  failure : Option String

-- What surrounds one call: whether the response header can be written, what the dispatcher answers, and after
-- how many uploaded bytes copying stops, and how, if it stops before the stream ends.
structure Circumstances where
  written : Except String Unit
  dispatched : Except String Unit
  stopped : Option (Nat × Except String Unit)

structure Outcome where
  response : Bytes
  dispatch : Option (Session × Destination)
  copied : Bytes
  result : Except String Unit

def Outcome.refusal (e : String) : Outcome := ⟨[],none,[],.error e⟩

structure Labels where
  write : String
  copy : String

-- What a handler knows once it has decoded a request; of the stream, what the transport has yet to deliver.
structure Answer (cap : Nat) where
  response : Bytes
  target : Destination
  rest : List (Segment UInt8 cap)

def Labels.copyResult (labels : Labels) : Except String Unit → Except String Unit
  | .error e => .error (labels.copy ++ e)
  | .ok () => .ok ()

def aimedAt (session : Session) (target : Destination) : Session :=
  { session with outbound := some ⟨target,target,none,""⟩ }

def serve (labels : Labels) (session : Session) (around : Circumstances) (failure : Option String) (answer : Answer cap) :
    Outcome :=
  match around.written with
  | .error e => .refusal (labels.write ++ e)
  | .ok () =>
    let called := some (aimedAt session answer.target,answer.target)
    match around.dispatched with
    | .error e => ⟨answer.response,called,[],.error e⟩
    | .ok () =>
      match around.stopped with
      | some (count,result) => ⟨answer.response,called,(text answer.rest).take count,labels.copyResult result⟩
      | none =>
        ⟨answer.response,called,text answer.rest,
          labels.copyResult (match failure with
            | some e => .error e
            | none => .ok ())⟩

def Circumstances.Carries (around : Circumstances) (n : Nat) : Prop :=
  around.written = .ok () ∧
    (n = 0 ∨ around.dispatched = .ok () ∧ ∀ count result, around.stopped = some (count,result) → n ≤ count)

theorem serve_answers (labels session failure) (answer : Answer cap) (written : around.written = .ok ()) :
    (serve labels session around failure answer).dispatch = some (aimedAt session answer.target,answer.target) ∧
      (serve labels session around failure answer).response = answer.response := by
  unfold serve
  rw [written]
  cases around.dispatched with
  | error e => exact ⟨rfl,rfl⟩
  | ok _ => cases around.stopped <;> exact ⟨rfl,rfl⟩

theorem serve_dispatched (labels session around failure) (answer : Answer cap) :
    (serve labels session around failure answer).dispatch.isSome = true ↔ around.written = .ok () := by
  cases written : around.written with
  | error e => simp [serve,Outcome.refusal,written]
  | ok _ => simp [(serve_answers labels session failure answer written).1]

theorem left_whole_iff (parts : extra ++ rest = body) : rest = body ↔ extra = [] := by
  rw [← parts]
  constructor
  · intro same
    have lengths := congrArg List.length same
    rw [List.length_append] at lengths
    exact List.eq_nil_of_length_eq_zero (by omega)
  · rintro rfl
    rfl

theorem left_cut_iff (parts : extra ++ rest = body) : rest.take count = body ↔ body.length ≤ count ∧ extra = [] := by
  constructor
  · intro same
    have copied := congrArg List.length same
    have lengths := congrArg List.length parts
    rw [List.length_take] at copied
    rw [List.length_append] at lengths
    exact ⟨by omega,List.eq_nil_of_length_eq_zero (by omega)⟩
  · rintro ⟨enough,none_taken⟩
    rw [(left_whole_iff parts).mpr none_taken]
    exact List.take_of_length_le enough

theorem serve_copies_iff (labels session around failure) (answer : Answer cap) (parts : extra ++ text answer.rest = body) :
    ((serve labels session around failure answer).dispatch = some (aimedAt session answer.target,answer.target) ∧
      (serve labels session around failure answer).copied = body) ↔ around.Carries body.length ∧ extra = [] := by
  cases written : around.written with
  | error e => simp [serve,Outcome.refusal,Circumstances.Carries,written]
  | ok _ =>
    cases dispatched : around.dispatched with
    | error e =>
      simp only [serve,Circumstances.Carries,written,dispatched,true_and,reduceCtorEq,false_and,or_false]
      constructor
      · rintro rfl
        exact ⟨rfl,(List.append_eq_nil_iff.mp parts).1⟩
      · rintro ⟨empty,-⟩
        exact (List.eq_nil_of_length_eq_zero empty).symm
    | ok _ =>
      cases stopped : around.stopped with
      | none =>
        simp only [serve,Circumstances.Carries,written,dispatched,stopped,true_and,reduceCtorEq,false_implies,implies_true,or_true]
        exact left_whole_iff parts
      | some stop =>
        obtain ⟨count,result⟩ := stop
        simp only [serve,Circumstances.Carries,written,dispatched,stopped,true_and,Option.some.injEq,Prod.mk.injEq,and_imp]
        refine (left_cut_iff parts).trans (and_congr_left fun _ => ?_)
        constructor
        · intro enough
          exact .inr (by rintro _ _ rfl rfl; exact enough)
        · -- A body without bytes is carried whatever the count.
          rintro (empty | enough)
          · omega
          · exact enough count result rfl rfl

end AstraCore.InboundLink
