import MiniPascal.Listing.Basic

/-!
# Listings as JSON

A listing is written to a file as a JSON array of its lines, one to a line of the file.
-/

namespace MiniPascal.Json

/-- A character inside a JSON string. -/
def escape (c : Char) : String :=
  if c = '"' then "\\\""
  else if c = '\\' then "\\\\"
  else if c = '\n' then "\\n"
  else if c = '\r' then "\\r"
  else if c = '\t' then "\\t"
  else if c.toNat = 8 then "\\b"
  else if c.toNat = 12 then "\\f"
  else if c.toNat < 16 then "\\u000" ++ String.ofList (Nat.toDigits 16 c.toNat)
  else if c.toNat < 32 then "\\u00" ++ String.ofList (Nat.toDigits 16 c.toNat)
  else c.toString

/-- A JSON string. -/
def string (s : String) : String :=
  "\"" ++ s.toList.foldl (fun acc c ↦ acc ++ escape c) "" ++ "\""

/-- A JSON array of strings, indented by two spaces. -/
def stringArray (items : List String) : String :=
  if items.isEmpty then "[]"
  else "[\n" ++ ",\n".intercalate (items.map fun s ↦ "  " ++ string s) ++ "\n]"

end MiniPascal.Json

namespace MiniPascal

/-- The listing as the content of a file. -/
def Listing.json (l : Listing) : String := Json.stringArray l.lines

end MiniPascal
