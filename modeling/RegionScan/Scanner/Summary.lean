-- A scanner on one line of text, for whoever looks into a scan that goes wrong.
import RegionScan.Scanner.Basic

namespace RegionScan

/-! ## Quoting -/

/-- A character inside quotes: quotes, backslashes and control characters are escaped. -/
def quotedChar (c : Char) : String :=
  match c with
  | '"' => "\\\""
  | '\\' => "\\\\"
  | '\n' => "\\n"
  | '\r' => "\\r"
  | '\t' => "\\t"
  | '\x00' => "\\0"
  | c =>
    if c.toNat < 0x20 || c.toNat == 0x7F then
      "\\u\x7b" ++ String.ofList (Nat.toDigits 16 c.toNat) ++ "\x7d"
    else String.singleton c

def quoted (text : String) : String := "\"" ++ String.join (text.toList.map quotedChar) ++ "\""

/-! ## Parts -/

def Token.summary : Token → String
  | undefined => "Undefined"
  | eof => "Eof"
  | whitespace => "Whitespace"
  | other tag => s!"Other({quoted tag})"

def listSummary (items : List String) : String := "[" ++ ", ".intercalate items ++ "]"

/-- A name and fields with their values. -/
def recordSummary (name : String) (fields : List (String × String)) : String :=
  let parts := fields.map fun field => if field.2.isEmpty then field.1 else s!"{field.1}: {field.2}"
  name ++ " \x7b " ++ ", ".intercalate parts ++ " \x7d"

def Frame.summary (range : Frame) : String :=
  recordSummary "ScanRange"
    [("offset", toString range.offset), ("range_end", toString range.rangeEnd),
     ("last_match_offset", toString range.lastMatch)]

/-! ## Scanners -/

/-- Where the scan stands, with saved ranges and open regions outermost first. Two dots at the
end say that this is not all. -/
def Scanner.summary (scanner : Scanner String) : String :=
  recordSummary "ScannerRange"
    [("offset", toString scanner.mark),
     ("range_end", toString scanner.rangeEnd),
     ("token_offset", toString scanner.tokenStart),
     ("window", s!"{scanner.window.start}..{scanner.window.stop}"),
     ("range_stack", listSummary (scanner.frames.reverse.map Frame.summary)),
     ("token", match scanner.token with
       | some token => s!"Some({token.summary})"
       | none => "None"),
     ("pending_sub_tokens", toString scanner.queue.length),
     ("begin_end_rules", listSummary (scanner.openRegions.reverse.map quoted)),
     ("..", "")]

end RegionScan
