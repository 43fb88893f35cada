import Mathlib.Init

/-!
# Core.Digest

The text of a SHA-256, and the blanks of a text.
-/

namespace PerpCarry

/-- `re.fullmatch(r"[0-9a-f]{64}", text)`. -/
def isDigest (text : String) : Bool :=
  text.toList.length = 64 ∧
    text.toList.all fun c => ('0' ≤ c ∧ c ≤ '9') ∨ ('a' ≤ c ∧ c ≤ 'f')

/-- `str.isspace`, for one character. -/
def isSpace (c : Char) : Bool :=
  c.toNat ∈ [9, 10, 11, 12, 13, 28, 29, 30, 31, 32, 133, 160, 5760, 8232, 8233, 8239, 8287, 12288] ∨
    (8192 ≤ c.toNat ∧ c.toNat ≤ 8202)

end PerpCarry
