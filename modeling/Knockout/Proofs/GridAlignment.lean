import Knockout.Grid
import Mathlib.Algebra.GroupWithZero.Nat
import Mathlib.Data.List.DropRight
import Mathlib.Data.List.Forall2

namespace Knockout

def IsBlankText (text : List Char) : Prop := ∀ c ∈ text, isWhiteSpace c = true

section Trimming

variable {a b : List Char}

theorem isBlankText_append : IsBlankText (a ++ b) ↔ IsBlankText a ∧ IsBlankText b := List.forall_mem_append

theorem isBlankText_replicate (n : Nat) : IsBlankText (List.replicate n ' ') := by
  intro c hc
  rw [List.eq_of_mem_replicate hc]
  decide

theorem isEmpty_dropWhile_reverse_iff : (b.reverse.dropWhile isWhiteSpace).isEmpty = true ↔ IsBlankText b := by
  rw [List.isEmpty_iff, List.dropWhile_eq_nil_iff]
  simp only [List.mem_reverse, IsBlankText]

theorem trimEnd_append_of_blank (h : IsBlankText b) : trimEnd (a ++ b) = trimEnd a := by
  rw [trimEnd, List.reverse_append, List.dropWhile_append, if_pos (isEmpty_dropWhile_reverse_iff.mpr h), trimEnd]

theorem trimEnd_append_of_not_blank (h : ¬ IsBlankText b) : trimEnd (a ++ b) = a ++ trimEnd b := by
  rw [trimEnd, List.reverse_append, List.dropWhile_append, if_neg (isEmpty_dropWhile_reverse_iff.not.mpr h),
    List.reverse_append, List.reverse_reverse, trimEnd]

theorem trimEnd_subset : trimEnd a ⊆ a := (List.rdropWhile_prefix isWhiteSpace a).subset

end Trimming

namespace Grid

def breadth (g : Grid) (i : Nat) : Nat :=
  ((g.headers :: g.rows).map fun row => (row.getD i "").length).max (by simp)

def start (g : Grid) (i : Nat) : Nat := 2 + ((List.range i).map fun j => g.breadth j + 2).sum

def written (g : Grid) : List (List String) :=
  g.headers :: ((List.range g.headers.length).map fun i => String.ofList (List.replicate (g.breadth i) '-')) :: g.rows

/--
The line shows the cells. As long as one that is not blank follows, a cell and spaces fill the place from the start of
its column to that of the next. The last one that is not blank ends the line, less the white space at its end.
-/
structure Shows (g : Grid) (cells : List String) (line : List Char) : Prop where
  margin : line.take 2 = [' ', ' ']
  inner : ∀ i cell, cells[i]? = some cell → (∃ later ∈ cells.drop (i + 1), ¬ IsBlankText later.toList) →
    (line.take (g.start (i + 1))).drop (g.start i) =
      cell.toList ++ List.replicate (g.start (i + 1) - (g.start i + cell.length)) ' '
  last : ∀ i cell, cells[i]? = some cell → ¬ IsBlankText cell.toList →
    (∀ later ∈ cells.drop (i + 1), IsBlankText later.toList) → line.drop (g.start i) = trimEnd cell.toList

def Fits (cells : List String) (widths : List Nat) : Prop :=
  List.Forall₂ (fun cell width => cell.length ≤ width) cells widths

section Fields

variable {cells : List String} {widths : List Nat}

theorem length_pad {cell : String} {width : Nat} (h : cell.length ≤ width) : (pad cell width).length = width + 2 := by
  rw [pad, List.length_append, List.length_replicate, String.length_toList]
  omega

theorem Fits.length_fields (h : Fits cells widths) :
    (List.zipWith pad cells widths).flatten.length = (widths.map (· + 2)).sum := by
  induction h with
  | nil => rfl
  | cons hle _ ih =>
    rw [List.zipWith_cons_cons, List.flatten_cons, List.length_append, length_pad hle, ih, List.map_cons, List.sum_cons]

theorem Fits.isBlank_fields (h : Fits cells widths) : IsBlankText (List.zipWith pad cells widths).flatten ↔
    ∀ cell ∈ cells, IsBlankText cell.toList := by
  induction h with
  | nil => simp [IsBlankText]
  | cons _ _ ih =>
    rw [List.zipWith_cons_cons, List.flatten_cons, isBlankText_append, ih, List.forall_mem_cons, pad,
      isBlankText_append]
    exact and_congr_left' (and_iff_left (isBlankText_replicate _))

theorem newline_not_mem_fields (h : ∀ cell ∈ cells, '\n' ∉ cell.toList) :
    '\n' ∉ (List.zipWith pad cells widths).flatten := by
  intro hm
  obtain ⟨field, hfield, hc⟩ := List.mem_flatten.mp hm
  obtain ⟨i, hi⟩ := List.mem_iff_getElem?.mp hfield
  obtain ⟨cell, width, hcell, -, rfl⟩ := List.getElem?_zipWith_eq_some.mp hi
  rcases List.mem_append.mp hc with hc | hc
  · exact h cell (List.mem_of_getElem? hcell) hc
  · exact absurd (List.eq_of_mem_replicate hc) (by decide)

theorem split_fields {i : Nat} {cell : String} {width : Nat} (hc : cells[i]? = some cell)
    (hw : widths[i]? = some width) :
    (List.zipWith pad cells widths).flatten = (List.zipWith pad (cells.take i) (widths.take i)).flatten ++
      (pad cell width ++ (List.zipWith pad (cells.drop (i + 1)) (widths.drop (i + 1))).flatten) := by
  have hfield : (List.zipWith pad cells widths)[i]? = some (pad cell width) := by
    simp [List.getElem?_zipWith, hc, hw]
  obtain ⟨hi, hfield⟩ := List.getElem?_eq_some_iff.mp hfield
  rw [← List.take_zipWith, ← List.drop_zipWith, ← hfield, ← List.flatten_cons, ← List.drop_eq_getElem_cons,
    ← List.flatten_append, List.take_append_drop]

end Fields

section Widths

variable {g : Grid}

theorem start_succ (i : Nat) : g.start (i + 1) = g.start i + (g.breadth i + 2) := by
  rw [start, start, List.range_succ, List.map_append, List.sum_append, List.map_singleton, List.sum_singleton,
    Nat.add_assoc]

theorem widen_eq {rows : List (List String)} {widths : List Nat} (h : ∀ row ∈ rows, row.length = widths.length) :
    rows.foldl (fun widths row => List.zipWith max widths (row.map String.length)) widths =
      (List.range widths.length).map fun i =>
        (rows.map fun row => (row.getD i "").length).foldl max (widths.getD i 0) := by
  induction rows generalizing widths with
  | nil =>
    apply List.ext_getElem (by simp)
    intro i hi _
    have hi : i < widths.length := hi
    simp [hi]
  | cons row rows ih =>
    obtain ⟨hrow, hrows⟩ := List.forall_mem_cons.mp h
    have hlength : (List.zipWith max widths (row.map String.length)).length = widths.length := by simp [hrow]
    rw [List.foldl_cons, ih (by rwa [hlength]), hlength]
    apply List.map_congr_left
    intro i hi
    have hi := List.mem_range.mp hi
    simp [hrow, hi]

variable (hrows : ∀ row ∈ g.rows, row.length = g.headers.length)
include hrows

theorem widths_eq : g.widths = (List.range g.headers.length).map g.breadth := by
  rw [widths, widen_eq (by simpa using hrows), List.length_map]
  apply List.map_congr_left
  intro i hi
  have hi := List.mem_range.mp hi
  have hheader : (g.headers.map String.length).getD i 0 = (g.headers.getD i "").length := by simp [hi]
  rw [hheader]
  rfl

theorem text_eq : g.text = String.join (g.written.map (line g.widths)) := by
  have hrule : g.widths.map (fun width => String.ofList (List.replicate width '-')) =
      (List.range g.headers.length).map fun i => String.ofList (List.replicate (g.breadth i) '-') := by
    rw [widths_eq hrows, List.map_map]
    rfl
  rw [text, hrule]
  rfl

theorem fits_row {row : List String} (h : row ∈ g.headers :: g.rows) : Fits row g.widths := by
  have hlength : row.length = g.headers.length := by
    rcases List.mem_cons.mp h with rfl | h
    · rfl
    · exact hrows row h
  rw [widths_eq hrows]
  apply List.forall₂_iff_get.mpr
  constructor
  · simpa using hlength
  · intro i hi _
    have hm : (row.getD i "").length ∈ (g.headers :: g.rows).map fun row => (row.getD i "").length :=
      List.mem_map_of_mem h
    have hle : (row.getD i "").length ≤ g.breadth i := List.le_max_of_mem hm
    simpa [hi] using hle

theorem fits_written {cells : List String} (h : cells ∈ g.written) : Fits cells g.widths := by
  rcases List.mem_cons.mp h with rfl | h
  · exact fits_row hrows List.mem_cons_self
  rcases List.mem_cons.mp h with rfl | h
  · rw [widths_eq hrows, Fits, List.forall₂_map_left_iff, List.forall₂_map_right_iff, List.forall₂_same]
    intro i _
    simp
  · exact fits_row hrows (List.mem_cons_of_mem _ h)

theorem start_eq {cells : List String} (h : Fits cells g.widths) {i : Nat} (hi : i ≤ g.headers.length) :
    g.start i = 2 + (List.zipWith pad (cells.take i) (g.widths.take i)).flatten.length := by
  have htake : Fits (cells.take i) (g.widths.take i) := List.forall₂_take i h
  rw [htake.length_fields, widths_eq hrows, ← List.map_take, List.take_range, Nat.min_eq_left hi, List.map_map]
  rfl

theorem exists_fields {cells : List String} (h : Fits cells g.widths) {i : Nat} {cell : String}
    (hc : cells[i]? = some cell) : ∃ before after,
      (List.zipWith pad cells g.widths).flatten = before ++ (pad cell (g.breadth i) ++ after) ∧
      ([' ', ' '] ++ before).length = g.start i ∧
      ([' ', ' '] ++ before ++ pad cell (g.breadth i)).length = g.start (i + 1) ∧
      (IsBlankText after ↔ ∀ later ∈ cells.drop (i + 1), IsBlankText later.toList) := by
  have hlength : cells.length = g.headers.length := by simpa [widths_eq hrows] using h.length_eq
  obtain ⟨hi, hcell⟩ := List.getElem?_eq_some_iff.mp hc
  have hw : g.widths[i]? = some (g.breadth i) := by simp [widths_eq hrows, ← hlength, hi]
  have hle : cell.length ≤ g.breadth i := by
    have hget := (List.forall₂_iff_get.mp h).2 i hi (h.length_eq ▸ hi)
    simpa [widths_eq hrows, hcell] using hget
  have hdrop : Fits (cells.drop (i + 1)) (g.widths.drop (i + 1)) := List.forall₂_drop (i + 1) h
  have hstart : ([' ', ' '] ++ (List.zipWith pad (cells.take i) (g.widths.take i)).flatten).length = g.start i := by
    rw [start_eq hrows h (by omega), List.length_append]
    rfl
  refine ⟨_, _, split_fields hc hw, hstart, ?_, hdrop.isBlank_fields⟩
  rw [List.length_append, hstart, length_pad hle, start_succ]

theorem shows_fields {cells : List String} (h : Fits cells g.widths) :
    g.Shows cells ([' ', ' '] ++ trimEnd (List.zipWith pad cells g.widths).flatten) := by
  constructor
  · rfl
  · intro i cell hc hlater
    obtain ⟨before, after, hfields, hstart, hnext, hafter⟩ := exists_fields hrows h hc
    have hblank : ¬ IsBlankText after := by
      rw [hafter]
      obtain ⟨later, hm, hl⟩ := hlater
      exact fun hall => hl (hall later hm)
    have hspaces : g.start (i + 1) - (g.start i + cell.length) = g.breadth i - cell.length + 2 := by
      rw [List.length_append, hstart, pad, List.length_append, List.length_replicate, String.length_toList] at hnext
      omega
    rw [hfields, ← List.append_assoc, trimEnd_append_of_not_blank hblank, ← List.append_assoc, ← List.append_assoc,
      List.take_left' hnext, List.drop_left' hstart, hspaces, pad]
  · intro i cell hc hcell hlater
    obtain ⟨before, after, hfields, hstart, -, hafter⟩ := exists_fields hrows h hc
    have hfield : ¬ IsBlankText (pad cell (g.breadth i)) := fun hp => hcell (isBlankText_append.mp hp).1
    rw [hfields, ← List.append_assoc, trimEnd_append_of_blank (hafter.mpr hlater), trimEnd_append_of_not_blank hfield,
      pad, trimEnd_append_of_blank (isBlankText_replicate _), ← List.append_assoc, List.drop_left' hstart]

end Widths

theorem newline_not_mem_written {g : Grid} (h : ∀ row ∈ g.headers :: g.rows, ∀ cell ∈ row, '\n' ∉ cell.toList)
    {cells : List String} (hm : cells ∈ g.written) : ∀ cell ∈ cells, '\n' ∉ cell.toList := by
  rcases List.mem_cons.mp hm with rfl | hm
  · exact h g.headers List.mem_cons_self
  rcases List.mem_cons.mp hm with rfl | hm
  · intro cell hcell hc
    obtain ⟨i, -, rfl⟩ := List.mem_map.mp hcell
    rw [String.toList_ofList] at hc
    exact absurd (List.eq_of_mem_replicate hc) (by decide)
  · exact h cells (List.mem_cons_of_mem _ hm)

/--
The text of a grid has two lines more than the grid has rows. On each the cells stand in full, in columns that are as
wide as their widest cells and two characters apart.
-/
theorem text_aligned (g : Grid) (hrows : ∀ row ∈ g.rows, row.length = g.headers.length)
    (hcells : ∀ row ∈ g.headers :: g.rows, ∀ cell ∈ row, '\n' ∉ cell.toList) :
    ∃ lines : List (List Char), g.text.toList = lines.flatMap (· ++ ['\n']) ∧ (∀ line ∈ lines, '\n' ∉ line) ∧
      lines.length = g.rows.length + 2 ∧ List.Forall₂ g.Shows g.written lines := by
  refine ⟨g.written.map fun cells => [' ', ' '] ++ trimEnd (List.zipWith pad cells g.widths).flatten, ?_, ?_, ?_, ?_⟩
  · rw [text_eq hrows, String.toList_join, List.flatMap_map, List.flatMap_map]
    simp [line]
  · intro line hline
    obtain ⟨cells, hm, rfl⟩ := List.mem_map.mp hline
    intro hc
    rcases List.mem_append.mp hc with hc | hc
    · exact absurd hc (by decide)
    · exact newline_not_mem_fields (newline_not_mem_written hcells hm) (trimEnd_subset hc)
  · simp [written]
  · rw [List.forall₂_map_right_iff, List.forall₂_same]
    exact fun cells hm => shows_fields hrows (fits_written hrows hm)

theorem text_aligned_of_two_columns :
    let g : Grid := ⟨["A", "LONGER"], [["wide cell", "x"], ["é ", "\t"]]⟩
    (∀ row ∈ g.rows, row.length = g.headers.length) ∧
    (∀ row ∈ g.headers :: g.rows, ∀ cell ∈ row, '\n' ∉ cell.toList) ∧
    ∃ lines : List (List Char), g.text.toList = lines.flatMap (· ++ ['\n']) ∧ (∀ line ∈ lines, '\n' ∉ line) ∧
      lines.length = 4 ∧ List.Forall₂ g.Shows g.written lines := by
  intro g
  have hrows : ∀ row ∈ g.rows, row.length = g.headers.length := by decide
  have hcells : ∀ row ∈ g.headers :: g.rows, ∀ cell ∈ row, '\n' ∉ cell.toList := by decide
  exact ⟨hrows, hcells, text_aligned g hrows hcells⟩

example : text ⟨["A", "LONGER"], [["wide cell", "x"]]⟩ =
    "  A          LONGER\n  ---------  ------\n  wide cell  x\n" := by decide +kernel

end Grid

end Knockout
