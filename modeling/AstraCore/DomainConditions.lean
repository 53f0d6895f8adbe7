import AstraCore.RouterBuilder

namespace AstraCore.RouterBuilder
open Routing Dispatcher List

-- A text without one trailing dot, and a name without the dots in front.
def undotted (text : List Char) : List Char := if text.getLast? = some '.' then text.dropLast else text
def behindDots (name : List Char) : List Char := name.dropWhile (· == '.')

def Under (name domain : List Char) : Prop := domain = name ∨ '.' :: name <:+ domain

inductive Entry where
  | keyword (word : String)
  | regexp (pattern : String)
  | domain (name : String)
  | other (name : String)

section
variable (lib : Libraries)

def Libraries.folded (text : String) : List Char := undotted (lib.toLowercase text).toList

-- What an entry is said to mean.
def Libraries.Meets (domain : String) : Entry → Prop
  | .keyword word => lib.folded word <:+: lib.folded domain
  | .regexp pattern => ∃ isMatch, lib.regex pattern = some isMatch ∧ isMatch (String.ofList (lib.folded domain)) = true
  | .domain name => Under (behindDots (lib.folded name)) (lib.folded domain)
  | .other name => if ".".toList <+: name.toList then Under (behindDots (lib.folded name)) (lib.folded domain) else lib.folded domain = lib.folded name

def Undotted (text : List Char) : Prop := text.getLast? ≠ some '.'

def Libraries.Regular : Entry → Prop
  | .keyword word => Undotted (lib.toLowercase word).toList
  | .regexp pattern => (lib.regex pattern).isSome
  | .domain name => ".".toList <+: name.toList ∧ Undotted (lib.toLowercase name).toList
  | .other name => Undotted (if ".".toList <+: name.toList then (lib.toLowercase name).toList else lib.folded name)

-- What the code takes an entry for: the dots at the end stay, `domain:` without a dot in front is the whole name, and an
-- expression that does not compile takes every name.
def Whole (name domain : List Char) : Prop := domain = name ∨ domain ++ ['.'] = name ∨ domain = name.rdropWhile (· == '.')

-- The entry's own meaning, by its type: Plain 0, Regex 1, Domain 2, Full 3.
def Libraries.Holds (domain : String) (entry : GeoDomain) : Prop :=
  if entry.type = 0 then entry.value.toList <:+: domain.toList
  else if entry.type = 1 then ∃ isMatch, lib.regex entry.value = some isMatch ∧ isMatch domain = true
  else if entry.type = 2 then Under entry.value.toList domain.toList
  else domain = entry.value

end

end AstraCore.RouterBuilder
