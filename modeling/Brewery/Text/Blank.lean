import Brewery.Text.Basic

/-!
White space in the sense of the Unicode property `White_Space`: the one set by which lines
are trimmed, blank lines are told from code and directives are taken apart.
-/

namespace Brewery.Text

def isBlank (c : Char) : Bool :=
  let code := c.toNat
  (9 ≤ code && code ≤ 13) || code == 32 || code == 0x85 || code == 0xA0 || code == 0x1680 ||
    (0x2000 ≤ code && code ≤ 0x200A) || code == 0x2028 || code == 0x2029 || code == 0x202F ||
    code == 0x205F || code == 0x3000

def trimStart (text : Text) : Text := text.dropWhile isBlank

def trimEnd (text : Text) : Text := (text.reverse.dropWhile isBlank).reverse

def trim (text : Text) : Text := trimEnd (trimStart text)

/-- The white space a text begins with. -/
def indentation (text : Text) : Text := text.takeWhile isBlank

/-- The white space a text ends with. -/
def trailing (text : Text) : Text := (text.reverse.takeWhile isBlank).reverse

theorem indentation_append_trimStart (text : Text) :
    indentation text ++ trimStart text = text :=
  List.takeWhile_append_dropWhile

theorem trimEnd_append_trailing (text : Text) : trimEnd text ++ trailing text = text := by
  unfold trimEnd trailing
  rw [← List.reverse_append, List.takeWhile_append_dropWhile, List.reverse_reverse]

end Brewery.Text
