-- The syntax of patterns: what is written, before it is given a meaning.

namespace RegionScan.Pattern

/-! ## Flags -/

/-- A switch that a pattern can set for the part that follows. -/
inductive Flag where
  | ignoreCase
  | multiLine
  | dotAll
  /-- Lazy and greedy repetition trade places. -/
  | swapGreed
  | unicode
  /-- A carriage return ends a line too. -/
  | crlf
  /-- Blanks and comments in the pattern mean nothing. -/
  | ignoreSpace
  deriving DecidableEq, Repr

/-- Which flags are put on and which are put off. -/
structure FlagChange where
  turnedOn : List Flag
  turnedOff : List Flag
  deriving Repr

namespace FlagChange

def nothing : FlagChange := ⟨[], []⟩

/-- What the change makes of a flag that was `before`. -/
def apply (change : FlagChange) (flag : Flag) (before : Bool) : Bool :=
  if change.turnedOn.contains flag then true
  else if change.turnedOff.contains flag then false
  else before

end FlagChange

/-! ## Literals, looks and classes -/

/-- A character that is written out. -/
structure Literal where
  char : Char
  /-- It was written as two hexadecimal digits, which outside Unicode stand for a byte. -/
  asByte : Bool
  deriving Repr

/-- An assertion about the text around a position, as written. -/
inductive Assertion where
  | caret
  | dollar
  | textStart
  | textEnd
  | wordEdge
  | notWordEdge
  | wordStart
  | wordEnd
  | wordStartHalf
  | wordEndHalf
  deriving DecidableEq, Repr

/-- The classes with a letter of their own. -/
inductive LetterClass where
  | digit
  | space
  | word
  deriving DecidableEq, Repr

/-- The classes with a name between colons. -/
inductive NamedClass where
  | alnum | alpha | ascii | blank | cntrl | digit | graph | lower | print | punct | space | upper
  | word | xdigit
  deriving DecidableEq, Repr

/-- How two parts of a bracketed class are combined. -/
inductive SetOperator where
  | intersection
  | difference
  | symmetricDifference
  deriving DecidableEq, Repr

/-- What stands between the brackets of a class. -/
inductive ClassSet where
  | literal (item : Literal)
  | range (first last : Literal)
  | named (kind : NamedClass) (negated : Bool)
  | letter (kind : LetterClass) (negated : Bool)
  | property (name : String) (negated : Bool)
  | bracket (negated : Bool) (set : ClassSet)
  | union (items : List ClassSet)
  | combine (operator : SetOperator) (left right : ClassSet)

/-! ## Patterns -/

inductive Ast where
  | empty
  | flags (change : FlagChange)
  | literal (item : Literal)
  | dot
  | assertion (kind : Assertion)
  | letter (kind : LetterClass) (negated : Bool)
  | property (name : String) (negated : Bool)
  | bracket (negated : Bool) (set : ClassSet)
  | repetition (least : Nat) (most : Option Nat) (greedy : Bool) (item : Ast)
  | group (change : FlagChange) (item : Ast)
  | sequence (items : List Ast)
  | choice (items : List Ast)

/-! ## Depth -/

mutual
/-- How deep the brackets, unions and operators of a class nest. -/
def ClassSet.depth : ClassSet → Nat
  | .bracket _ set => set.depth + 1
  | .union [] => 0
  | .union items => ClassSet.depths items + 1
  | .combine _ left right => max left.depth right.depth + 1
  | _ => 0

/-- The depth of the deepest item. -/
def ClassSet.depths : List ClassSet → Nat
  | [] => 0
  | item :: rest => max item.depth (ClassSet.depths rest)
end

mutual
/-- How deep the parts of a pattern nest. -/
def Ast.depth : Ast → Nat
  | .bracket _ set => set.depth + 1
  | .repetition _ _ _ item => item.depth + 1
  | .group _ item => item.depth + 1
  | .sequence items => Ast.depths items + 1
  | .choice items => Ast.depths items + 1
  | _ => 0

/-- The depth of the deepest item. -/
def Ast.depths : List Ast → Nat
  | [] => 0
  | item :: rest => max item.depth (Ast.depths rest)
end

/-- The deepest nesting a pattern may have. -/
def nestLimit : Nat := 250

end RegionScan.Pattern
