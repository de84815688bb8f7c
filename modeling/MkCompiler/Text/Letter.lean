/-!
# Letters

The letters that names in documents and messages are written with.
-/

namespace MkCompiler.Text

def isLetter (c : Char) : Bool :=
  ('a'.toNat ≤ c.toNat && c.toNat ≤ 'z'.toNat) || ('A'.toNat ≤ c.toNat && c.toNat ≤ 'Z'.toNat)

end MkCompiler.Text
