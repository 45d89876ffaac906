/-!
# Blank characters

The characters with the Unicode property White_Space, and the tests and cuts that go by them.
-/

namespace GraphqlClient.Text

/-- First and last code points of the runs of White_Space characters, in order. -/
def blankRuns : List (Nat × Nat) :=
  [(0x09, 0x0D), (0x20, 0x20), (0x85, 0x85), (0xA0, 0xA0), (0x1680, 0x1680), (0x2000, 0x200A),
   (0x2028, 0x2029), (0x202F, 0x202F), (0x205F, 0x205F), (0x3000, 0x3000)]

/-- Whether a character has the property White_Space. -/
def isBlank (c : Char) : Bool :=
  blankRuns.any fun run => run.1 ≤ c.toNat && c.toNat ≤ run.2

/-- Drop the blank characters at the end. -/
def trimEnd (text : List Char) : List Char :=
  (text.reverse.dropWhile isBlank).reverse

/-- A last character that is not blank protects the text. -/
theorem trimEnd_append_singleton (text : List Char) (c : Char) (h : isBlank c = false) :
    trimEnd (text ++ [c]) = text ++ [c] := by
  simp [trimEnd, h]

/-- A blank last character is dropped. -/
theorem trimEnd_append_blank (text : List Char) (c : Char) (h : isBlank c = true) :
    trimEnd (text ++ [c]) = trimEnd text := by
  simp [trimEnd, h]

end GraphqlClient.Text
