-- Settings of a scanner, and reading them from YAML.
import RegionScan.Text
import RegionScan.Failure
import RegionScan.Yaml.Reader

namespace RegionScan

/-- How a scanner is set up. -/
structure Settings where
  /-- How many characters the window holds. -/
  capacity : Nat
  capacity_pos : 0 < capacity

namespace Settings

/-- Settings with a given capacity, which must not be zero. -/
def ofCapacity (capacity : Nat) : Except ScanError Settings :=
  if positive : 0 < capacity then .ok ⟨capacity, positive⟩ else .error .emptyWindow

def standardCapacity : Nat := 2000

/-- The settings where none are given. -/
def standard : Settings := ⟨standardCapacity, by decide⟩

/-! ## Text form -/

/-- The settings as YAML. -/
def render (settings : Settings) : String := s!"buffer_capacity: {settings.capacity}\n"

/-- The capacity among the entries of a mapping. Other keys mean nothing, and what is not
given has its standard value. A capacity that comes twice, or is not a number up to the largest
offset, is refused. -/
def capacityAmong (entries : List (Yaml.Node × Yaml.Node)) : Option Nat := do
  let keys ← entries.mapM fun entry =>
    match entry.1 with
    | .scalar text _ => some (String.ofList text)
    | _ => none
  match (keys.zip (entries.map Prod.snd)).filter fun entry => entry.1 == "buffer_capacity" with
  | [] => return standardCapacity
  | [(_, value)] =>
    let capacity ← value.toNat?
    guard (capacity ≤ maxOffset)
    return capacity
  | _ => failure

/-- The settings in a YAML text. A text without a document has the standard ones. -/
def read (text : String) : Except ScanError Settings :=
  match Yaml.Node.read? text with
  | some none => .ok standard
  | some (some (.mapping entries)) =>
    match capacityAmong entries with
    | some capacity => ofCapacity capacity
    | none => .error .malformedSettings
  | _ => .error .malformedSettings

end Settings

end RegionScan
