import AstraCore.LossyUtf8
import Mathlib.Data.List.DropRight
import Mathlib.Data.List.Infix

namespace AstraCore.TextScan
open CheckedBytes LossyUtf8
open List (cons_append length_cons mem_cons mem_reverse not_mem_nil splitOn)

abbrev Text := List Char

section
variable (text : Text)

def Text.bytes : Bytes := text.flatMap String.utf8EncodeChar

def isWhitespace (c : Char) : Bool :=
  let n := c.toNat
  decide (9 ≤ n ∧ n ≤ 13) || n == 0x20 || n == 0x85 || n == 0xA0 || n == 0x1680 || decide (0x2000 ≤ n ∧ n ≤ 0x200A) ||
    n == 0x2028 || n == 0x2029 || n == 0x202F || n == 0x205F || n == 0x3000

def trim : Text := (text.dropWhile isWhitespace).rdropWhile isWhitespace

-- Two characters above ASCII have an ASCII letter in their lower case: the Kelvin sign and the I with a dot. The lower case
-- of the others is not looked at by a comparison with ASCII text, so they are left as they are.
def lowerChar (c : Char) : Text :=
  if 65 ≤ c.toNat ∧ c.toNat ≤ 90 then [Char.ofNat (c.toNat + 32)]
  else if c.toNat = 0x212A then ['k']
  else if c.toNat = 0x130 then ['i',Char.ofNat 0x307]
  else [c]

def toLowercase : Text := text.flatMap lowerChar

-- `lines`: a line ends with a line feed, in front of which one carriage return is dropped; an unfinished last line stays
-- as it is.
def linesLoop (line : Text) : Text → List Text
  | [] => if line = [] then [] else [line]
  | c :: rest =>
    if c = '\n' then (if line.getLast? = some '\r' then line.dropLast else line) :: linesLoop [] rest
    else linesLoop (line ++ [c]) rest

def lines : List Text := linesLoop [] text

-- The characters above ASCII whose upper case is made of ASCII letters alone; again the others are left as they are.
def upperChar (c : Char) : Text :=
  if 97 ≤ c.toNat ∧ c.toNat ≤ 122 then [Char.ofNat (c.toNat - 32)]
  else if c.toNat = 0xDF then ['S','S']
  else if c.toNat = 0x131 then ['I']
  else if c.toNat = 0x17F then ['S']
  else if c.toNat = 0xFB00 then ['F','F']
  else if c.toNat = 0xFB01 then ['F','I']
  else if c.toNat = 0xFB02 then ['F','L']
  else if c.toNat = 0xFB03 then ['F','F','I']
  else if c.toNat = 0xFB04 then ['F','F','L']
  else if c.toNat = 0xFB05 ∨ c.toNat = 0xFB06 then ['S','T']
  else [c]

def toUppercase : Text := text.flatMap upperChar

def words : List Text := (text.splitOnP isWhitespace).filter (· ≠ [])

end

def splitOnce [DecidableEq α] (mark : α) : List α → Option (List α × List α)
  | [] => none
  | c :: rest => if c = mark then some ([],rest) else (splitOnce mark rest).map fun (front,back) => (c :: front,back)

def position [DecidableEq α] (pattern : List α) : List α → Option Nat
  | [] => none
  | c :: rest => if pattern <+: c :: rest then some 0 else (position pattern rest).map (· + 1)

def headerEnd : Bytes := [13,10,13,10]

theorem lowerChar_length (c) : (lowerChar c).length ≤ 2 := by
  unfold lowerChar
  repeat' split
  all_goals simp

theorem toLowercase_length (text) : (toLowercase text).length ≤ 2 * text.length := by
  induction text with
  | nil => exact Nat.le_refl 0
  | cons c rest ih =>
    have first := lowerChar_length c
    rw [toLowercase] at ih ⊢
    rw [List.flatMap_cons,List.length_append,length_cons]
    omega

theorem linesLoop_length (line) (member : other ∈ linesLoop line text) : other.length ≤ line.length + text.length := by
  induction text generalizing line with
  | nil =>
    unfold linesLoop at member
    split at member
    · cases member
    · rw [List.mem_singleton.mp member]
      exact Nat.le_refl _
  | cons c rest ih =>
    rw [length_cons]
    unfold linesLoop at member
    split at member
    · rcases mem_cons.mp member with rfl | later
      · split
        · rw [List.length_dropLast]
          omega
        · omega
      · have bound := ih [] later
        rw [List.length_nil] at bound
        omega
    · have bound := ih (line ++ [c]) member
      rw [List.length_append,List.length_singleton] at bound
      omega

theorem lines_length (text) (member : line ∈ lines text) : line.length ≤ text.length := by
  have bound := linesLoop_length [] member
  rwa [List.length_nil,Nat.zero_add] at bound

theorem trim_append (value) (blank : ∀ c ∈ ending, isWhitespace c = true) : trim (value ++ ending) = trim value := by
  have last (text : Text) : (text ++ ending).rdropWhile isWhitespace = text.rdropWhile isWhitespace := by
    rw [List.rdropWhile,List.reverse_append,List.dropWhile_append_of_pos fun c inside => blank c (mem_reverse.mp inside)]
    rfl
  rw [trim,trim,List.dropWhile_append]
  split
  · rename_i empty
    rw [List.isEmpty_iff.mp empty,List.dropWhile_eq_nil_iff.mpr blank]
  · exact last _

theorem trim_kept (first : ∀ c ∈ text.head?, isWhitespace c = false) (last : ∀ c ∈ text.getLast?, isWhitespace c = false) : trim text = text := by
  have front : text.dropWhile isWhitespace = text := by
    cases text with
    | nil => rfl
    | cons c rest => exact List.dropWhile_cons_of_neg (by rw [first c rfl]; decide)
  rw [trim,front,List.rdropWhile]
  rw [← List.head?_reverse] at last
  cases shape : text.reverse with
  | nil => rw [List.reverse_eq_nil_iff.mp shape]; rfl
  | cons c rest =>
    rw [shape] at last
    rw [List.dropWhile_cons_of_neg (by rw [last c rfl]; decide),← shape,List.reverse_reverse]

theorem trim_ended (first : ∀ c ∈ text.head?, isWhitespace c = false) (last : ∀ c ∈ text.getLast?, isWhitespace c = false)
    (blank : ∀ c ∈ tail, isWhitespace c = true) : trim (text ++ tail) = text := by
  rw [trim_append text blank,trim_kept first last]

theorem trim_subset (text) : trim text ⊆ text :=
  fun _ inside => (List.dropWhile_suffix isWhitespace).subset ((List.rdropWhile_prefix isWhitespace _).subset inside)

theorem trim_head (text) : ∀ c ∈ (trim text).head?, isWhitespace c = false := by
  intro c found
  obtain ⟨more,shape⟩ := List.rdropWhile_prefix isWhitespace (text.dropWhile isWhitespace)
  have first : (text.dropWhile isWhitespace).head? = some c := by
    rw [trim] at found
    rw [← shape,List.head?_append,Option.mem_def.mp found,Option.some_or]
  have stops := List.head?_dropWhile_not isWhitespace text
  rw [first] at stops
  exact stops

theorem splitOnPPrepend_pieces (seen : Text) (clear : ∀ c ∈ seen, p c = false)
    (member : piece ∈ List.splitOnPPrepend p text seen) : ∀ c ∈ piece, p c = false := by
  induction text generalizing seen with
  | nil =>
    rw [List.splitOnPPrepend,List.mem_singleton] at member
    subst member
    exact fun c inside => clear c (mem_reverse.mp inside)
  | cons c rest ih =>
    rw [List.splitOnPPrepend_cons_eq_if] at member
    split at member
    · rcases mem_cons.mp member with rfl | later
      · exact fun c inside => clear c (mem_reverse.mp inside)
      · exact ih [] (by simp) later
    · rename_i other
      refine ih (c :: seen) ?_ member
      intro d inside
      rcases mem_cons.mp inside with rfl | earlier
      · simpa using other
      · exact clear d earlier

theorem splitOnP_pieces {p : Char → Bool} (member : piece ∈ List.splitOnP p text) : ∀ c ∈ piece, p c = false := by
  exact splitOnPPrepend_pieces [] (by simp) member

theorem words_solid (member : word ∈ words text) : ∀ c ∈ word, isWhitespace c = false :=
  splitOnP_pieces (List.mem_filter.mp member).1

theorem solid_of_all {text : Text} (all : text.all (fun c => !isWhitespace c) = true) : ∀ c ∈ text, isWhitespace c = false := by
  simpa using all

theorem words_first (present : word ≠ []) (solid : ∀ c ∈ word, isWhitespace c = false) (blank : isWhitespace c = true) (rest : Text) :
    words (word ++ c :: rest) = word :: words rest := by
  rw [words,List.splitOnP_append_cons_of_forall_mem solid c blank,List.filter_cons_of_pos (by simpa using present)]
  rfl

theorem splitOn_two (c) (text first second : Text) : List.splitOn c text = [first,second] ↔ text = first ++ c :: second ∧ c ∉ first ∧ c ∉ second := by
  constructor
  · intro parts
    have pieces : ∀ piece ∈ splitOn c text, c ∉ piece := by
      intro piece member inside
      simpa using splitOnP_pieces member c inside
    rw [parts] at pieces
    have whole : [c].intercalate (splitOn c text) = text := List.intercalate_splitOn c
    rw [parts] at whole
    exact ⟨by simpa using whole.symm,pieces first (by simp),pieces second (by simp)⟩
  · rintro ⟨rfl,one,two⟩
    rw [List.splitOn_append_cons_self,List.splitOn_eq_singleton one,List.splitOn_eq_singleton two]
    rfl

section
variable [DecidableEq α]

theorem splitOnce_none (fresh : mark ∉ text) : splitOnce (mark : α) text = none := by
  induction text with
  | nil => rfl
  | cons c rest ih =>
    rw [mem_cons,not_or] at fresh
    rw [splitOnce,if_neg (Ne.symm fresh.1),ih fresh.2]
    rfl

theorem splitOnce_front (fresh : mark ∉ front) (back : List α) : splitOnce mark (front ++ mark :: back) = some (front,back) := by
  induction front with
  | nil => exact if_pos rfl
  | cons c rest ih =>
    rw [mem_cons,not_or] at fresh
    rw [cons_append,splitOnce,if_neg (Ne.symm fresh.1),ih fresh.2]
    rfl

theorem splitOnce_absent {mark : α} (none_ : splitOnce mark text = none) : mark ∉ text := by
  intro present
  obtain ⟨front,back,rfl,fresh⟩ := List.eq_append_cons_of_mem present
  rw [splitOnce_front fresh] at none_
  cases none_

theorem splitOnce_parts {mark : α} (found : splitOnce mark text = some (front,back)) : text = front ++ mark :: back ∧ mark ∉ front := by
  by_cases present : mark ∈ text
  · obtain ⟨first,second,rfl,fresh⟩ := List.eq_append_cons_of_mem present
    rw [splitOnce_front fresh] at found
    obtain ⟨rfl,rfl⟩ := Prod.mk.inj (Option.some.inj found)
    exact ⟨rfl,fresh⟩
  · rw [splitOnce_none present] at found
    cases found

end

theorem ascii_encoded (small : b.toNat < 128) : b ∈ String.utf8EncodeChar c ↔ c.toNat = b.toNat := by
  have apart (n : Nat) (large : 128 ≤ n % 256) : b ≠ UInt8.ofNat n := by
    rintro rfl
    rw [UInt8.toNat_ofNat'] at small
    omega
  have scalar : c.val.toNat = c.toNat := rfl
  unfold String.utf8EncodeChar
  dsimp only
  split
  · rw [List.mem_singleton,← UInt8.toNat_inj,UInt8.toNat_ofNat']
    omega
  · split
    · simp only [mem_cons,not_mem_nil,or_false]
      refine iff_of_false ?_ (by omega)
      rintro (first | second)
      · exact apart _ (by omega) first
      · exact apart _ (by omega) second
    · split
      · simp only [mem_cons,not_mem_nil,or_false]
        refine iff_of_false ?_ (by omega)
        rintro (first | second | third)
        · exact apart _ (by omega) first
        · exact apart _ (by omega) second
        · exact apart _ (by omega) third
      · simp only [mem_cons,not_mem_nil,or_false]
        refine iff_of_false ?_ (by omega)
        rintro (first | second | third | fourth)
        · exact apart _ (by omega) first
        · exact apart _ (by omega) second
        · exact apart _ (by omega) third
        · exact apart _ (by omega) fourth

@[simp] theorem bytes_append (first second) : Text.bytes (first ++ second) = Text.bytes first ++ Text.bytes second :=
  List.flatMap_append

theorem bytes_eq_nil (empty : Text.bytes text = []) : text = [] := by
  have small := chars_le_bytes text
  rw [← Text.bytes,empty] at small
  exact List.length_eq_zero_iff.mp (Nat.le_zero.mp small)

theorem newline_bytes (text : Text) : (10 : UInt8) ∈ text.bytes ↔ '\n' ∈ text := by
  rw [Text.bytes,List.mem_flatMap]
  constructor
  · rintro ⟨c,inside,encoded⟩
    have scalar := (ascii_encoded (by decide)).mp encoded
    rwa [show c = '\n' from Char.toNat_inj.mp scalar] at inside
  · exact fun inside => ⟨'\n',inside,by decide⟩

theorem bytes_length (ascii : ∀ c ∈ text, c.toNat < 128) : (Text.bytes text).length = text.length := by
  induction text with
  | nil => rfl
  | cons c rest ih =>
    have one := Char.utf8Size_eq_one_iff.mpr (by
      have := ascii c (List.mem_cons_self ..)
      exact UInt32.le_iff_toNat_le.mpr (by change c.toNat ≤ 127; omega))
    rw [Text.bytes,List.flatMap_cons,List.length_append,String.length_utf8EncodeChar,← Text.bytes,
      ih fun d inside => ascii d (List.mem_cons_of_mem c inside),length_cons]
    omega

theorem position_bound [DecidableEq α] {pattern : List α} (found : position pattern data = some n) : n + pattern.length ≤ data.length := by
  induction data generalizing n with
  | nil => cases found
  | cons c rest ih =>
    rw [position] at found
    split at found
    · rename_i here
      cases Option.some.inj found
      rw [Nat.zero_add]
      exact here.length_le
    · obtain ⟨k,inner,rfl⟩ := Option.map_eq_some_iff.mp found
      have bound := ih inner
      rw [length_cons]
      omega

theorem position_append [DecidableEq α] {pattern : List α} (front rest) (found : position pattern front = some n) :
    position pattern (front ++ rest) = some n := by
  induction front generalizing n with
  | nil => cases found
  | cons c front ih =>
    have bound := position_bound found
    rw [position] at found
    rw [cons_append,position,← cons_append]
    split at found
    · rename_i here
      rw [if_pos (here.trans (List.prefix_append ..))]
      exact found
    · rename_i elsewhere
      obtain ⟨k,inner,rfl⟩ := Option.map_eq_some_iff.mp found
      have still : ¬ pattern <+: c :: front ++ rest := fun here =>
        elsewhere (List.prefix_of_prefix_length_le here (List.prefix_append ..) (by omega))
      rw [if_neg still,ih inner]
      rfl

theorem position_found [DecidableEq α] (present : pattern ≠ []) (front rest : List α) :
    ∃ n ≤ front.length, position pattern (front ++ (pattern ++ rest)) = some n := by
  induction front with
  | nil =>
    obtain ⟨c,more,rfl⟩ := List.exists_cons_of_ne_nil present
    refine ⟨0,Nat.le_refl 0,?_⟩
    rw [List.nil_append,cons_append,position,← cons_append,if_pos (List.prefix_append ..)]
  | cons c front ih =>
    obtain ⟨n,bound,found⟩ := ih
    rw [cons_append,position]
    split
    · exact ⟨0,Nat.zero_le _,rfl⟩
    · exact ⟨n + 1,by rw [length_cons]; omega,by rw [found]; rfl⟩

end AstraCore.TextScan
