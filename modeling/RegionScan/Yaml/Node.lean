-- YAML documents as trees.

namespace RegionScan.Yaml

/-- How a scalar was written. Only a plain one can be a number, or a block scalar that is
tagged as one. -/
inductive Style where
  | plain
  | quoted
  | block (tag : Option String)
  deriving DecidableEq, Repr

inductive Node where
  | scalar (text : List Char) (style : Style)
  | sequence (items : List Node)
  | mapping (entries : List (Node × Node))

/-- A value that is left out. -/
def Node.missing : Node := .scalar [] .plain

namespace Node

/-! ## Whole numbers -/

def digitValue? (base : Nat) (c : Char) : Option Nat :=
  let value :=
    if c.isDigit then c.toNat - 0x30
    else if 'a' ≤ c && c ≤ 'f' then c.toNat - 0x61 + 10
    else if 'A' ≤ c && c ≤ 'F' then c.toNat - 0x41 + 10
    else base
  if value < base then some value else none

/-- The value of some digits; at least one is needed. -/
def digits? (base : Nat) (digits : List Char) : Option Nat := do
  guard (!digits.isEmpty)
  digits.foldlM (fun value c => do return value * base + (← digitValue? base c)) 0

/-- A whole number without a minus sign. A zero in front is not allowed, as the scalar is then
a text. -/
def natural? (text : List Char) : Option Nat :=
  let text := if text.head? == some '+' then text.drop 1 else text
  match text with
  | '0' :: 'x' :: digits => digits? 16 digits
  | '0' :: 'o' :: digits => digits? 8 digits
  | '0' :: 'b' :: digits => digits? 2 digits
  | ['0'] => some 0
  | '0' :: _ => none
  | digits => digits? 10 digits

/-- The number that a node stands for. -/
def toNat? : Node → Option Nat
  | .scalar text .plain => natural? text
  | .scalar text (.block tag) => if tag == some "!!int" then natural? text else none
  | _ => none

end Node

end RegionScan.Yaml
