/-
Parsing grammars.

A grammar gives every rule an expression and a mode.  Expressions are matched at one place of
the text, alternatives are tried in order, and repetition takes as much as it can.  The mode of
a rule decides two things: whether white space may stand between the parts of its expression,
and whether the rules inside it show up in the tree of a match.
-/
namespace Stencil

/-- An expression of a grammar with rules `ρ`. -/
inductive Peg (ρ : Type) where
  /-- The given characters. -/
  | literal (text : List Char)
  /-- A character between two others, both included. -/
  | range (first last : Char)
  /-- Any character. -/
  | anyChar
  /-- A character of white space. -/
  | space
  /-- The start of the text. -/
  | startOfText
  /-- The end of the text. -/
  | endOfText
  | rule (r : ρ)
  | seq (first second : Peg ρ)
  | alt (first second : Peg ρ)
  /-- As many repetitions as there are. -/
  | many (part : Peg ρ)
  | optional (part : Peg ρ)
  /-- Matches nothing, where the part would not match. -/
  | absent (part : Peg ρ)

namespace Peg

variable {ρ : Type}

/-- The given text. -/
def lit (text : String) : Peg ρ := literal text.toList

/-- Parts one after another. -/
def chain : List (Peg ρ) → Peg ρ
  | [] => literal []
  | [last] => last
  | first :: rest => seq first (chain rest)

/-- The first of several alternatives that matches. -/
def choice : List (Peg ρ) → Peg ρ
  | [] => absent (literal [])
  | [last] => last
  | first :: rest => alt first (choice rest)

/-- At least one repetition. -/
def repeated (part : Peg ρ) : Peg ρ := seq part (many part)

end Peg

/-- How a rule treats white space and the rules inside it. -/
inductive Mode where
  /-- White space may stand between parts if the rule was reached with that freedom. -/
  | inherit
  /-- As `inherit`, and the rule itself does not show up. -/
  | silent
  /-- No white space between parts, and no rules inside show up. -/
  | atomic
  /-- No white space between parts. -/
  | compound
  /-- White space may stand between parts. -/
  | free
deriving DecidableEq, Repr

/-- A grammar: the expression and the mode of every rule. -/
structure Grammar (ρ : Type) where
  body : ρ → Peg ρ
  mode : ρ → Mode

/-- What a rule matched: the text, and the rules inside that show up. -/
inductive Tree (ρ : Type) where
  | node (rule : ρ) (text : List Char) (children : List (Tree ρ))
deriving Inhabited

namespace Tree

variable {ρ : Type}

/-- The rule of a tree. -/
def rule : Tree ρ → ρ
  | node r _ _ => r

/-- The text of a tree. -/
def text : Tree ρ → List Char
  | node _ t _ => t

/-- The parts of a tree. -/
def children : Tree ρ → List (Tree ρ)
  | node _ _ cs => cs

end Tree

end Stencil
