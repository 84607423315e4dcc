/-
Matching a grammar.

The matcher keeps, besides the place it has reached, the furthest place at which a rule was
tried in vain: that is where a text that does not match is reported to be wrong.  A rule counts
only where its attempt is visible, that is, not inside an atomic rule, and inside `absent`
the rules that do match count instead.
-/
import Stencil.Grammar.Basic

namespace Stencil.Grammar

variable {ρ : Type}

/-- A place in the text: how many characters are in front of it, and those behind it. -/
structure Place where
  before : Nat
  rest : List Char

/-- Whether white space may stand between parts, and whether attempts are visible. -/
inductive Tightness where
  | free
  | tight
  | hidden
deriving DecidableEq

/-- The circumstances of a match. -/
structure Setting where
  tightness : Tightness
  /-- Whether the expression is one that must not match. -/
  negated : Bool

/-- A match: the place behind it and the trees of the rules that show up, last one first. -/
abbrev Match (ρ : Type) := Place × List (Tree ρ)

/-- The outcome of an attempt: the match, if there is one, and the furthest place at which a
rule was tried in vain so far. -/
abbrev Outcome (ρ : Type) := Option (Match ρ) × Nat

/-- Passes over given characters. -/
def Place.literal? (p : Place) : List Char → Option Place
  | [] => some p
  | c :: cs =>
    match p.rest with
    | d :: rest => if c = d then Place.literal? ⟨p.before + 1, rest⟩ cs else none
    | [] => none

/-- Passes over one character of a class. -/
def Place.char? (p : Place) (accepts : Char → Bool) : Option Place :=
  match p.rest with
  | c :: rest => if accepts c then some ⟨p.before + 1, rest⟩ else none
  | [] => none

/-- The white space that may stand between parts. -/
def isSpace (c : Char) : Bool := c = ' ' || c = '\t' || c = '\r' || c = '\n'

/-- Passes over white space, where it may stand between parts. -/
def Place.skip (p : Place) : Tightness → Place
  | .free =>
    let spaces := (p.rest.takeWhile isSpace).length
    ⟨p.before + spaces, p.rest.drop spaces⟩
  | _ => p

/-- The tightness inside a rule of the given mode. -/
def Tightness.inside (t : Tightness) : Mode → Tightness
  | .inherit | .silent => t
  | .atomic => .hidden
  | .compound => .tight
  | .free => .free

/-- The tightness under which a rule of the given mode is itself seen. -/
def Tightness.seen (t : Tightness) : Mode → Tightness
  | .inherit | .silent | .atomic => t
  | .compound => .tight
  | .free => .free

/-- The furthest place, given that a rule was tried at `place`. -/
def note (seen : Tightness) (counts : Bool) (place furthest : Nat) : Nat :=
  if counts ∧ seen ≠ .hidden then max place furthest else furthest

/-- A match without trees. -/
def bare (p : Option Place) (furthest : Nat) : Outcome ρ := (p.map fun p => (p, []), furthest)

mutual

/-- Matches an expression at a place; `fuel` bounds the depth of the attempt. -/
def attempt (g : Grammar ρ) : (fuel : Nat) → Setting → Peg ρ → Place → (furthest : Nat) →
    Outcome ρ
  | 0, _, _, _, furthest => (none, furthest)
  | fuel + 1, s, e, p, furthest =>
    match e with
    | .literal text => bare (p.literal? text) furthest
    | .range first last => bare (p.char? fun c => first ≤ c && c ≤ last) furthest
    | .anyChar => bare (p.char? fun _ => true) furthest
    | .space => bare (p.char? isSpace) furthest
    | .startOfText => bare (if p.before = 0 then some p else none) furthest
    | .endOfText => bare (if p.rest.isEmpty then some p else none) furthest
    | .seq first second =>
      match attempt g fuel s first p furthest with
      | (none, furthest) => (none, furthest)
      | (some (q, trees), furthest) =>
        match attempt g fuel s second (q.skip s.tightness) furthest with
        | (none, furthest) => (none, furthest)
        | (some (r, more), furthest) => (some (r, more ++ trees), furthest)
    | .alt first second =>
      match attempt g fuel s first p furthest with
      | (none, furthest) => attempt g fuel s second p furthest
      | found => found
    | .many part =>
      match attempt g fuel s part p furthest with
      | (none, furthest) => (some (p, []), furthest)
      | (some (q, trees), furthest) => repeatFrom g fuel s part q trees furthest
    | .optional part =>
      match attempt g fuel s part p furthest with
      | (none, furthest) => (some (p, []), furthest)
      | found => found
    | .absent part =>
      match attempt g fuel { s with negated := !s.negated } part p furthest with
      | (none, furthest) => (some (p, []), furthest)
      | (some _, furthest) => (none, furthest)
    | .rule r =>
      let mode := g.mode r
      if mode = .silent then attempt g fuel s (g.body r) p furthest
      else
        let seen := s.tightness.seen mode
        match attempt g fuel { s with tightness := s.tightness.inside mode } (g.body r) p
            furthest with
        | (none, furthest) => (none, note seen (!s.negated) p.before furthest)
        | (some (q, trees), furthest) =>
          let shown :=
            if seen = .hidden then trees
            else [.node r (p.rest.take (q.before - p.before)) trees.reverse]
          (some (q, shown), note seen s.negated p.before furthest)

/-- Matches an expression again and again, behind the matches so far. -/
def repeatFrom (g : Grammar ρ) : (fuel : Nat) → Setting → Peg ρ → Place →
    (found : List (Tree ρ)) → (furthest : Nat) → Outcome ρ
  | 0, _, _, p, found, furthest => (some (p, found), furthest)
  | fuel + 1, s, part, p, found, furthest =>
    match attempt g fuel s part (p.skip s.tightness) furthest with
    | (none, furthest) => (some (p, found), furthest)
    | (some (q, trees), furthest) => repeatFrom g fuel s part q (trees ++ found) furthest

end

/-- Matches a rule against a whole text: the tree, or the furthest place at which a rule was
tried in vain.  `depth` bounds how deep the attempts for one character go. -/
def parse (g : Grammar ρ) (depth : Nat) (start : ρ) (text : List Char) :
    Except Nat (Tree ρ) :=
  match attempt g (depth * (text.length + 1)) ⟨.free, false⟩ (.rule start) ⟨0, text⟩ 0 with
  | (some (_, [tree]), _) => .ok tree
  | (_, furthest) => .error furthest

end Stencil.Grammar
