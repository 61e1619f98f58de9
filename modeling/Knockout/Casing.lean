namespace Knockout

/--
The lowercase of a character, as far as it holds ASCII letters: besides the capitals A to Z, the Kelvin
sign lowers to `k` and the dotted capital I to `i` and a combining dot. Any other character stands for itself,
so a lowered text equals an ASCII word exactly when its full lowercase does.
-/
def lowerAscii (c : Char) : List Char :=
  if c = '\u212A' then ['k'] else if c = '\u0130' then ['i', '\u0307'] else [c.toLower]

def lowered (word : String) : String :=
  String.ofList (word.toList.flatMap lowerAscii)

end Knockout
