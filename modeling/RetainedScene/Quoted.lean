import RetainedScene.Quoted.Invisible

/-!
# Quoted text

Text between double quotes in which every character can be told from its neighbours: quotes and
backslashes are escaped, and so is whatever does not show.
-/

set_option autoImplicit false

namespace RetainedScene.Quoted

def hex (n : Nat) : String :=
  String.ofList (Nat.toDigits 16 n)

def escape (c : Char) : String :=
  match c with
  | '\x00' => "\\0"
  | '\t' => "\\t"
  | '\n' => "\\n"
  | '\r' => "\\r"
  | '"' => "\\\""
  | '\\' => "\\\\"
  | c => if isInvisible c then "\\u\x7b" ++ hex c.toNat ++ "\x7d" else c.toString

def quote (s : String) : String :=
  "\"" ++ String.join (s.toList.map escape) ++ "\""

end RetainedScene.Quoted
