import Mathlib.Data.List.Basic

namespace AstraCore.ByteStream
variable {α : Type} {cap : Nat}

-- What one read returns: something, and no more than the reader's buffer takes. An end of the stream
-- is not a segment but the end of the list.
abbrev Segment (α : Type) (cap : Nat) := {text : List α // 0 < text.length ∧ text.length ≤ cap}

def text (segments : List (Segment α cap)) : List α := (segments.map Subtype.val).flatten

@[simp] theorem text_nil : text ([] : List (Segment α cap)) = [] := rfl
@[simp] theorem text_cons (segment : Segment α cap) (rest) : text (segment :: rest) = segment.val ++ text rest := rfl

theorem text_exists (positive : 0 < cap) (stream) : ∃ segments : List (Segment α cap), text segments = stream := by
  induction stream with
  | nil => exact ⟨[],rfl⟩
  | cons x stream ih =>
    obtain ⟨segments,rfl⟩ := ih
    exact ⟨⟨[x],by simp; omega⟩ :: segments,rfl⟩

def Boundary : List (Segment α cap) → Nat → Prop
  | [],n => n = 0
  | segment :: rest,n => n = 0 ∨ segment.val.length ≤ n ∧ Boundary rest (n - segment.val.length)

instance decideBoundary : (segments : List (Segment α cap)) → (n : Nat) → Decidable (Boundary segments n)
  | [],n => inferInstanceAs (Decidable (n = 0))
  | segment :: rest,n =>
    have := decideBoundary rest (n - segment.val.length)
    inferInstanceAs (Decidable (n = 0 ∨ segment.val.length ≤ n ∧ Boundary rest (n - segment.val.length)))

@[simp] theorem boundary_zero (segments : List (Segment α cap)) : Boundary segments 0 := by
  cases segments with
  | nil => exact rfl
  | cons segment rest => exact .inl rfl

theorem boundary_cons (segment : Segment α cap) (rest n) : Boundary (segment :: rest) (segment.val.length + n) ↔ Boundary rest n := by
  constructor
  · rintro (zero | ⟨-,inner⟩)
    · omega
    · rwa [Nat.add_sub_cancel_left] at inner
  · intro inner
    refine .inr ⟨by omega,?_⟩
    rwa [Nat.add_sub_cancel_left]

theorem boundary_inside (segment : Segment α cap) (rest) (positive : 0 < n) (inside : n < segment.val.length) : ¬ Boundary (segment :: rest) n := by
  rintro (zero | ⟨whole,-⟩) <;> omega

theorem boundary_append (bounded : Boundary segments n) (more) : Boundary (segments ++ more) n := by
  induction segments generalizing n with
  | nil =>
    rw [show n = 0 from bounded]
    exact boundary_zero _
  | cons segment rest ih =>
    rcases bounded with zero | ⟨whole,inner⟩
    · exact .inl zero
    · exact .inr ⟨whole,ih inner⟩

theorem boundary_text (segments : List (Segment α cap)) : Boundary segments (text segments).length := by
  induction segments with
  | nil => exact rfl
  | cons segment rest ih =>
    rw [text_cons,List.length_append,boundary_cons]
    exact ih

def behind (segment : Segment α cap) (n : Nat) (longer : n < segment.val.length) : Segment α cap :=
  ⟨segment.val.drop n,by rw [List.length_drop]; have := segment.property.2; omega⟩

def readExact : (n : Nat) → List (Segment α cap) → Option ({front : List α // front.length = n} × List (Segment α cap))
  | 0,segments => some (⟨[],rfl⟩,segments)
  | _ + 1,[] => none
  | n + 1,segment :: rest =>
    if longer : n + 1 < segment.val.length then
      some (⟨segment.val.take (n + 1),List.length_take_of_le (by omega)⟩,behind segment (n + 1) longer :: rest)
    else
      (readExact (n + 1 - segment.val.length) rest).map fun (front,rest) =>
        (⟨segment.val ++ front.val,by rw [List.length_append,front.property]; omega⟩,rest)

structure Remains (segments rest : List (Segment α cap)) (n : Nat) : Prop where
  text : text rest = (text segments).drop n
  boundary : ∀ k, 0 < k → (Boundary rest k ↔ Boundary segments (n + k))

theorem remains_all : Remains segments segments 0 :=
  ⟨rfl,fun k _ => by rw [Nat.zero_add]⟩

theorem remains_behind : Remains (piece :: rest) (behind piece n longer :: rest) n := by
  have width : (behind piece n longer).val.length = piece.val.length - n := List.length_drop
  refine ⟨?_,?_⟩
  · rw [text_cons,text_cons,List.drop_append_of_le_length (by omega)]
    rfl
  · intro k positive
    by_cases inside : k < piece.val.length - n
    · exact iff_of_false (boundary_inside _ rest positive (by omega)) (boundary_inside piece rest (by omega) (by omega))
    · obtain ⟨j,rfl⟩ : ∃ j, k = piece.val.length - n + j := ⟨k - (piece.val.length - n),by omega⟩
      rw [← width,boundary_cons,width,show n + (piece.val.length - n + j) = piece.val.length + j by omega,boundary_cons]

theorem remains_cons (segment) (remains : Remains rest tail n) : Remains (segment :: rest) tail (segment.val.length + n) := by
  refine ⟨?_,?_⟩
  · rw [remains.text,text_cons,← List.drop_drop,List.drop_left]
  · intro k positive
    rw [remains.boundary k positive,Nat.add_assoc,boundary_cons]

theorem readExact_enough (segments : List (Segment α cap)) (n) (enough : n ≤ (text segments).length) :
    ∃ front rest, readExact n segments = some (front,rest) ∧ front.val = (text segments).take n ∧ Remains segments rest n := by
  induction segments generalizing n with
  | nil =>
    obtain rfl : n = 0 := Nat.le_zero.mp enough
    exact ⟨_,[],rfl,rfl,remains_all⟩
  | cons segment rest ih =>
    rw [text_cons,List.length_append] at enough
    cases n with
    | zero => exact ⟨_,segment :: rest,rfl,rfl,remains_all⟩
    | succ n =>
      by_cases longer : n + 1 < segment.val.length
      · refine ⟨_,_,dif_pos longer,?_,remains_behind⟩
        rw [text_cons,List.take_append_of_le_length (by omega)]
      · obtain ⟨front,tail,read,taken,remains⟩ := ih (n + 1 - segment.val.length) (by omega)
        have further := remains_cons segment remains
        rw [Nat.add_sub_cancel' (by omega)] at further
        refine ⟨⟨segment.val ++ front.val,by rw [List.length_append]; omega⟩,tail,?_,?_,further⟩
        · rw [readExact,dif_neg longer,read]
          rfl
        · change segment.val ++ front.val = _
          rw [taken,text_cons,List.take_append,List.take_of_length_le (by omega : segment.val.length ≤ n + 1)]

theorem readExact_short (segments : List (Segment α cap)) (n) (short : (text segments).length < n) : readExact n segments = none := by
  induction segments generalizing n with
  | nil =>
    cases n with
    | zero => simp at short
    | succ n => rfl
  | cons segment rest ih =>
    rw [text_cons,List.length_append] at short
    cases n with
    | zero => omega
    | succ n =>
      rw [readExact,dif_neg (by omega),ih _ (by omega)]
      rfl

theorem readExact_some (read : readExact n segments = some (front,rest)) : front.val = (text segments).take n ∧ Remains segments rest n := by
  by_cases enough : n ≤ (text segments).length
  · obtain ⟨front,rest,found,taken,remains⟩ := readExact_enough segments n enough
    cases read.symm.trans found
    exact ⟨taken,remains⟩
  · rw [readExact_short segments n (Nat.lt_of_not_le enough)] at read
    cases read

inductive Gathered (α : Type) (cap : Nat) where
  | accepted (buffer : List α) (rest : List (Segment α cap))
  | ended (buffer : List α)
  | tooLarge

def gather (accepts : List α → Bool) (limit : Nat) : List α → List (Segment α cap) → Gathered α cap
  | buffer,[] => .ended buffer
  | buffer,segment :: rest =>
    if accepts (buffer ++ segment.val) then .accepted (buffer ++ segment.val) rest
    else if limit < (buffer ++ segment.val).length then .tooLarge
    else gather accepts limit (buffer ++ segment.val) rest

theorem gather_accepted (gathered : gather accepts limit buffer segments = .accepted out rest) :
    accepts out = true ∧ out ++ text rest = buffer ++ text segments := by
  induction segments generalizing buffer with
  | nil => cases gathered
  | cons segment tail ih =>
    rw [gather] at gathered
    split at gathered
    · rename_i accepted
      cases gathered
      exact ⟨accepted,List.append_assoc ..⟩
    · split at gathered
      · cases gathered
      · rw [text_cons,← List.append_assoc]
        exact ih gathered

theorem gather_ended (gathered : gather accepts limit buffer segments = .ended out) :
    out = buffer ++ text segments ∧ (segments = [] ∨ accepts out = false) := by
  induction segments generalizing buffer with
  | nil =>
    cases gathered
    exact ⟨by simp,.inl rfl⟩
  | cons segment tail ih =>
    rw [gather] at gathered
    split at gathered
    · cases gathered
    · rename_i refused
      split at gathered
      · cases gathered
      · obtain ⟨rfl,last⟩ := ih gathered
        refine ⟨List.append_assoc ..,.inr ?_⟩
        rcases last with rfl | last
        · simpa using refused
        · exact last

-- The ends of segments that a reader with some elements in its buffer has to pass before it holds `size` of them.
def Passes (limit held size : Nat) (segments : List (Segment α cap)) : Prop :=
  ∀ k, 0 < k → held + k < size → Boundary segments k → held + k ≤ limit

theorem passes_cons (further : held + piece.val.length < size) : Passes limit held size (piece :: rest) ↔
      held + piece.val.length ≤ limit ∧ Passes limit (held + piece.val.length) size rest := by
  have positive := piece.property.1
  constructor
  · intro passes
    refine ⟨passes _ positive further ((boundary_cons piece rest 0).mpr (boundary_zero rest)),?_⟩
    intro k more short bounded
    have passed := passes _ (by omega) (by omega) ((boundary_cons piece rest k).mpr bounded)
    omega
  · rintro ⟨first,later⟩ k more short bounded
    by_cases inside : k < piece.val.length
    · exact absurd bounded (boundary_inside piece rest more inside)
    · obtain ⟨j,rfl⟩ : ∃ j, k = piece.val.length + j := ⟨k - piece.val.length,by omega⟩
      rcases Nat.eq_zero_or_pos j with rfl | positive
      · simpa using first
      · have passed := later j positive (by omega) ((boundary_cons piece rest j).mp bounded)
        omega

section
variable {segments : List (Segment α cap)} {buffer : List α} {accepts : List α → Bool}

theorem gather_passes (limit) (threshold : ∀ n ≤ (buffer ++ text segments).length, (accepts ((buffer ++ text segments).take n) = true ↔ size ≤ n))
    (pending : buffer.length < size) (enough : size ≤ (buffer ++ text segments).length) :
    (∃ out rest, gather accepts limit buffer segments = .accepted out rest) ↔ Passes limit buffer.length size segments := by
  induction segments generalizing buffer with
  | nil => simp at enough; omega
  | cons segment tail ih =>
    have same : buffer ++ text (segment :: tail) = (buffer ++ segment.val) ++ text tail := by simp
    have width : (buffer ++ segment.val).length = buffer.length + segment.val.length := List.length_append
    rw [same] at threshold enough
    have accepted := threshold (buffer ++ segment.val).length (by simp)
    rw [List.take_left] at accepted
    rw [gather]
    by_cases reached : size ≤ (buffer ++ segment.val).length
    · rw [if_pos (accepted.mpr reached)]
      refine iff_of_true ⟨_,_,rfl⟩ ?_
      intro k more short bounded
      exact absurd bounded (boundary_inside segment tail more (by omega))
    · rw [if_neg (fun held => reached (accepted.mp held)),passes_cons (by omega)]
      by_cases passed : limit < (buffer ++ segment.val).length
      · rw [if_pos passed]
        grind
      · rw [if_neg passed,ih threshold (by omega) enough,width]
        exact (and_iff_right (by omega)).symm

theorem gather_first (threshold : ∀ n ≤ (buffer ++ text segments).length, (accepts ((buffer ++ text segments).take n) = true ↔ size ≤ n))
    (pending : buffer.length < size) (stopped : gather accepts limit buffer segments = .accepted out rest) :
    out.length = size ↔ Boundary segments (size - buffer.length) := by
  induction segments generalizing buffer with
  | nil => cases stopped
  | cons segment tail ih =>
    have same : buffer ++ text (segment :: tail) = (buffer ++ segment.val) ++ text tail := by simp
    have width : (buffer ++ segment.val).length = buffer.length + segment.val.length := List.length_append
    rw [same] at threshold
    have accepted := threshold (buffer ++ segment.val).length (by simp)
    rw [List.take_left] at accepted
    rw [gather] at stopped
    split at stopped
    · rename_i held
      have reached := accepted.mp held
      obtain ⟨rfl,rfl⟩ := Gathered.accepted.inj stopped
      constructor
      · intro whole
        rw [show size - buffer.length = segment.val.length + 0 by omega,boundary_cons]
        exact boundary_zero tail
      · intro bounded
        by_contra other
        exact boundary_inside segment tail (by omega) (by omega) bounded
    · rename_i refused
      have short := Nat.lt_of_not_le fun reached => refused (accepted.mpr reached)
      split at stopped
      · cases stopped
      · rw [ih threshold short stopped,show size - buffer.length = segment.val.length + (size - (buffer ++ segment.val).length) by omega,boundary_cons]

end

end AstraCore.ByteStream
