/-
File patterns.

A pattern matches names: `?` stands for any character, `*` for any characters, `[…]` for one
character of a class and `[!…]` for one outside it.  Two stars are a segment of their own and
stand for any directories.
-/
import Stencil.Error

namespace Stencil

/-- A member of a character class: the characters from one to another. -/
structure CharSpan where
  first : Char
  last : Char
deriving DecidableEq, Repr

/-- Whether a span holds a character. -/
def CharSpan.holds (s : CharSpan) (c : Char) : Bool := s.first ≤ c && c ≤ s.last

/-- A part of a pattern. -/
inductive PatternPart where
  | char (c : Char)
  | anyChar
  | anyChars
  /-- Any directories. -/
  | anyDirectories
  /-- One character of a class, or one outside it. -/
  | oneOf (inside : Bool) (spans : List CharSpan)
deriving DecidableEq, Repr

/-- Whether a part stands for a character. -/
def PatternPart.holds (part : PatternPart) (c : Char) : Bool :=
  match part with
  | .char d => c == d
  | .anyChar => true
  | .oneOf inside spans => spans.any (·.holds c) == inside
  | .anyChars | .anyDirectories => false

/-- Whether a part stands for any number of characters. -/
def PatternPart.isSequence : PatternPart → Bool
  | .anyChars | .anyDirectories => true
  | _ => false

/-- Why a text is no pattern; the position counts characters. -/
inductive PatternFault where
  | tooManyStars (position : Nat)
  | starsInSegment (position : Nat)
  | badClass (position : Nat)
deriving DecidableEq, Repr

namespace PatternFault

/-- Where a fault was found. -/
def position : PatternFault → Nat
  | tooManyStars p | starsInSegment p | badClass p => p

/-- What is wrong. -/
def reason : PatternFault → String
  | tooManyStars _ => "wildcards are either regular `*` or recursive `**`"
  | starsInSegment _ => "recursive wildcards must form a single path component"
  | badClass _ => "invalid range pattern"

/-- The wording of a fault. -/
def message (f : PatternFault) : String :=
  "Pattern syntax error near position " ++ natText f.position ++ ": " ++ f.reason

end PatternFault

/-- A pattern. -/
abbrev Pattern := List PatternPart

namespace Pattern

/-- The spans of a class. -/
def spans : List Char → List CharSpan
  | a :: '-' :: b :: rest => ⟨a, b⟩ :: spans rest
  | a :: rest => ⟨a, a⟩ :: spans rest
  | [] => []

/-- The characters up to the first closing bracket. -/
def toBracket? : List Char → Option (List Char)
  | [] => none
  | c :: cs => if c = ']' then some [] else (toBracket? cs).map (c :: ·)

/-- The class behind an opening bracket, and the number of characters that it takes.  The first
character belongs to the class, whatever it is. -/
def charClass? : List Char → Option (PatternPart × Nat)
  | '!' :: c :: rest => do
    let more ← toBracket? rest
    some (.oneOf false (spans (c :: more)), more.length + 3)
  | '!' :: [] => none
  | c :: rest => do
    let more ← toBracket? rest
    some (.oneOf true (spans (c :: more)), more.length + 2)
  | [] => none

/-- Adds the part for two stars, unless one stands there already. -/
def addDirectories (read : Pattern) : Pattern :=
  match read with
  | .anyDirectories :: _ :: _ => read
  | _ => .anyDirectories :: read

/-- Reads the rest of a pattern.  `position` is the place of the rest, `previous` the character
in front of it, `skip` the number of characters that belong to what was just read, and `read`
the parts read so far, the last one first. -/
def readFrom (position : Nat) (previous : Option Char) (skip : Nat) (read : Pattern) :
    List Char → Except PatternFault Pattern
  | [] => .ok read.reverse
  | c :: cs =>
    let go (skip : Nat) (read : Pattern) := readFrom (position + 1) (some c) skip read cs
    if 0 < skip then go (skip - 1) read
    else
      match c with
      | '?' => go 0 (.anyChar :: read)
      | '*' =>
        match (c :: cs).takeWhile (· = '*') with
        | [_] => go 0 (.anyChars :: read)
        | [_, _] =>
          if previous.isSome ∧ previous ≠ some '/' then .error (.starsInSegment (position - 1))
          else
            match cs.drop 1 with
            | [] => go 1 (addDirectories read)
            | '/' :: _ => go 2 (addDirectories read)
            | _ => .error (.starsInSegment (position + 2))
        | _ => .error (.tooManyStars (position + 2))
      | '[' =>
        match charClass? cs with
        | some (part, length) => go length (part :: read)
        | none => .error (.badClass position)
      | c => go 0 (.char c :: read)

/-- Reads a pattern. -/
def ofText (text : String) : Except PatternFault Pattern := readFrom 0 none 0 [] text.toList

/-- Whether the ends of a text, the whole of it first, include one that `test` accepts. -/
def anyEnd (test : List Char → Bool) : List Char → Bool
  | [] => test []
  | c :: cs => test (c :: cs) || anyEnd test cs

/-- Whether a pattern matches a whole name. -/
def isMatch : Pattern → List Char → Bool
  | [], name => name.isEmpty
  | part :: rest, name =>
    if part.isSequence then anyEnd (isMatch rest) name
    else
      match name with
      | [] => false
      | c :: cs => part.holds c && isMatch rest cs

/-- Whether a segment stands for any directories. -/
def isDirectories (p : Pattern) : Bool := p.contains .anyDirectories

/-- The text that a pattern without special parts stands for. -/
def literal? : Pattern → Option (List Char)
  | [] => some []
  | .char c :: rest => (literal? rest).map (c :: ·)
  | _ :: _ => none

end Pattern

end Stencil
