import Knockout.WhiteSpace

namespace Knockout

structure Grid where
  headers : List String
  rows : List (List String)

namespace Grid

def widths (g : Grid) : List Nat :=
  g.rows.foldl (fun widths row => List.zipWith max widths (row.map String.length)) (g.headers.map String.length)

def pad (cell : String) (width : Nat) : List Char :=
  cell.toList ++ List.replicate (width - cell.length + 2) ' '

def line (widths : List Nat) (cells : List String) : String :=
  let text := (List.zipWith pad cells widths).flatten
  String.ofList (' ' :: ' ' :: (trimEnd text ++ ['\n']))

def text (g : Grid) : String :=
  let rule := g.widths.map fun width => String.ofList (List.replicate width '-')
  String.join ((g.headers :: rule :: g.rows).map (line g.widths))

end Grid

end Knockout
