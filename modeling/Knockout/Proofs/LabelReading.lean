import Knockout.Proofs.GraphReading
import Mathlib.Data.List.Basic

namespace Knockout

namespace Dot

def Glyph.text : Glyph → List Char
  | code c => [c]
  | quoted text => '"' :: (text.flatMap escapeChar ++ ['"'])

def write (glyphs : List Glyph) : List Char := glyphs.flatMap Glyph.text

theorem write_append (a b : List Glyph) : write (a ++ b) = write a ++ write b := List.flatMap_append

theorem flatMap_escapeChar_shown (text : String) :
    (shown text).flatMap escapeChar = text.toList.flatMap escapeChar := by
  unfold shown
  induction text.toList with
  | nil => rfl
  | cons c text ih =>
    by_cases hreturn : c = '\r'
    · subst hreturn
      exact ih
    · rw [List.filter_cons_of_pos (by simpa using hreturn), List.flatMap_cons, List.flatMap_cons, ih]

theorem write_part (p : Part) : write p.glyphs = p.text.toList := by
  cases p with
  | code text => simp [write, Part.glyphs, Part.text, spell, List.flatMap_map, Glyph.text]
  | quoted text =>
    rw [Part.glyphs_quoted]
    simp [write, Part.text, Glyph.text, flatMap_escapeChar_shown, escape, toString]

theorem write_line (line : Line) : write line.glyphs = line.text.toList := by
  have hparts : write (line.flatMap Part.glyphs) = line.flatMap fun p => p.text.toList := by
    rw [write, List.flatMap_assoc]
    apply List.flatMap_congr
    exact fun p _ => write_part p
  rw [Line.glyphs, write_append, hparts]
  simp [Line.text, write, Glyph.text, List.flatMap_map]

theorem write_lines (lines : List Line) :
    write (lines.flatMap Line.glyphs) = (String.join (lines.map Line.text)).toList := by
  rw [String.toList_join, List.flatMap_map, write, List.flatMap_assoc]
  apply List.flatMap_congr
  exact fun line _ => write_line line

theorem scan_cons_isSome (mode : Mode) (c : Char) : ∃ next : Option Mode, ∀ rest,
    (scan mode (c :: rest)).isSome = next.any fun mode => (scan mode rest).isSome := by
  cases mode with
  | code =>
    by_cases hquote : c = '"'
    · exact ⟨some (.string []), fun rest => by simp [scan, hquote]⟩
    · exact ⟨some .code, fun rest => by simp [scan, hquote]⟩
  | string text =>
    by_cases hquote : c = '"'
    · exact ⟨some .code, fun rest => by simp [scan, hquote]⟩
    by_cases hslash : c = '\\'
    · exact ⟨some (.escape text), fun rest => by simp [scan, hslash]⟩
    by_cases hline : c = '\n'
    · exact ⟨none, fun rest => by simp [scan, hline]⟩
    · exact ⟨some (.string (text ++ [c])), fun rest => by simp [scan, hquote, hslash, hline]⟩
  | escape text =>
    cases hc : unescape? c with
    | none => exact ⟨none, fun rest => by simp [scan, hc]⟩
    | some d => exact ⟨some (.string (text ++ [d])), fun rest => by simp [scan, hc]⟩

theorem scan_line {mode : Mode} {line rest : List Char} (h : (scan mode (line ++ '\n' :: rest)).isSome) :
    (scan mode line).isSome ∧ (scan .code rest).isSome := by
  induction line generalizing mode with
  | nil =>
    cases mode with
    | code => simpa [scan] using h
    | string => simp [scan] at h
    | escape => simp [scan, unescape?] at h
  | cons c line ih =>
    obtain ⟨next, hnext⟩ := scan_cons_isSome mode c
    rw [List.cons_append, hnext] at h
    rw [hnext]
    obtain ⟨mode', rfl, hmode⟩ := (Option.any_eq_true _ _).mp h
    exact ih hmode

theorem scan_splitOn {text : List Char} (h : (scan .code text).isSome) :
    ∀ line ∈ text.splitOn '\n', (scan .code line).isSome := by
  have htext : ['\n'].intercalate (text.splitOn '\n') = text := List.intercalate_splitOn '\n'
  rw [← htext] at h
  generalize text.splitOn '\n' = lines at h ⊢
  induction lines with
  | nil => exact List.forall_mem_nil _
  | cons first lines ih =>
    cases lines with
    | nil => simpa using h
    | cons second lines =>
      rw [List.intercalate_cons_cons, List.append_assoc, List.singleton_append] at h
      obtain ⟨hfirst, hrest⟩ := scan_line h
      exact List.forall_mem_cons.mpr ⟨hfirst, ih hrest⟩

def keyBefore : List Char → List Char
  | '=' :: name => (name.takeWhile isWordChar).reverse
  | _ => []

def marked (code : List Char) : List Glyph → List (Glyph × Bool)
  | [] => []
  | .code c :: rest => (.code c, false) :: marked (if c = '\n' then [] else c :: code) rest
  | .quoted text :: rest => (.quoted text, keyBefore code = "label".toList) :: marked [] rest

def label? : Glyph × Bool → Option (List Char)
  | (.quoted text, true) => some text
  | _ => none

def blankLabel : Glyph × Bool → Glyph
  | (.quoted _, true) => .quoted []
  | (glyph, _) => glyph

def labels (glyphs : List Glyph) : List (List Char) := (marked [] glyphs).filterMap label?

def blanked (glyphs : List Glyph) : List Glyph := (marked [] glyphs).map blankLabel

def blank (text : String) : Option (List Char) :=
  (scan .code text.toList).map fun glyphs => write (blanked glyphs)

theorem marked_fst (code : List Char) (glyphs : List Glyph) : (marked code glyphs).map Prod.fst = glyphs := by
  induction glyphs generalizing code with
  | nil => rfl
  | cons glyph glyphs ih =>
    cases glyph with
    | code c => exact congrArg _ (ih _)
    | quoted text => exact congrArg _ (ih _)

theorem quoted_of_mem_labels {text : List Char} {glyphs : List Glyph} (h : text ∈ labels glyphs) :
    .quoted text ∈ glyphs := by
  obtain ⟨⟨glyph, isLabel⟩, hmem, hlabel⟩ := List.mem_filterMap.mp h
  have hfst : glyph ∈ (marked [] glyphs).map Prod.fst := List.mem_map_of_mem hmem
  rw [marked_fst] at hfst
  cases glyph with
  | code c => cases hlabel
  | quoted other =>
    cases isLabel with
    | false => cases hlabel
    | true =>
      obtain rfl := Option.some.inj hlabel
      exact hfst

theorem marked_line (code : List Char) (line rest : List Glyph) :
    marked code (line ++ .code '\n' :: rest) = marked code (line ++ [.code '\n']) ++ marked [] rest := by
  induction line generalizing code with
  | nil => rfl
  | cons glyph line ih =>
    cases glyph with
    | code c => exact congrArg _ (ih _)
    | quoted text => exact congrArg _ (ih _)

theorem marked_lines (lines : List Line) :
    marked [] (lines.flatMap Line.glyphs) = lines.flatMap fun line => marked [] line.glyphs := by
  induction lines with
  | nil => rfl
  | cons line lines ih =>
    rw [List.flatMap_cons, List.flatMap_cons, ← ih, Line.glyphs, List.append_assoc]
    exact marked_line [] _ _

theorem labels_lines (lines : List Line) :
    labels (lines.flatMap Line.glyphs) = lines.flatMap fun line => labels line.glyphs := by
  rw [labels, marked_lines, List.filterMap_flatMap]
  rfl

theorem blanked_lines (lines : List Line) :
    blanked (lines.flatMap Line.glyphs) = lines.flatMap fun line => blanked line.glyphs := by
  rw [blanked, marked_lines, List.map_flatMap]
  rfl

theorem marked_code (code : List Char) {text : List Char} (h : '\n' ∉ text) (rest : List Glyph) :
    marked code (text.map .code ++ rest) =
      text.map (fun c => (.code c, false)) ++ marked (text.reverse ++ code) rest := by
  induction text generalizing code with
  | nil => rfl
  | cons c text ih =>
    obtain ⟨hc, ht⟩ := not_or.mp (List.mem_cons.not.mp h)
    rw [List.map_cons, List.cons_append, marked, if_neg (Ne.symm hc), ih _ ht, List.reverse_cons, List.append_assoc]
    rfl

/-- The code stands on one line and ends where a label begins. -/
structure Introduces (code : String) : Prop where
  line : '\n' ∉ code.toList
  label : keyBefore code.toList.reverse = "label".toList

section Label

variable {code : String} (h : Introduces code) (text : String) (line : Line)

include h

theorem marked_label : marked [] (Line.glyphs (.code code :: .quoted text :: line)) =
    (spell code).map (fun glyph => (glyph, false)) ++ (.quoted (shown text), true) :: marked [] line.glyphs := by
  have hglyphs : Line.glyphs (.code code :: .quoted text :: line) =
      spell code ++ .quoted (shown text) :: line.glyphs := by
    simp [Line.glyphs, Part.glyphs, shown]
  rw [hglyphs, spell, marked_code [] h.line, List.append_nil, marked, h.label, List.map_map]
  rfl

theorem labels_label :
    labels (Line.glyphs (.code code :: .quoted text :: line)) = shown text :: labels line.glyphs := by
  rw [labels, marked_label h, List.filterMap_append]
  have hcode : ((spell code).map fun glyph => (glyph, false)).filterMap label? = [] := by
    simp [spell, List.filterMap_map, Function.comp_def, label?]
  rw [hcode]
  rfl

theorem blanked_label (other : String) : blanked (Line.glyphs (.code code :: .quoted text :: line)) =
    blanked (Line.glyphs (.code code :: .quoted other :: line)) := by
  rw [blanked, blanked, marked_label h, marked_label h, List.map_append, List.map_append]
  rfl

end Label

theorem introduces_node (n : NodeId) : Introduces s!"        {n.text} [label=" where
  line := by
    have hn : '\n' ∉ n.text.toList := fun hmem => absurd (n.isWordChar_text _ hmem) (by decide)
    simpa [toString] using hn
  label := by
    simp only [toString, String.toList_append, List.reverse_append]
    rfl

theorem introduces_title : Introduces "    label=" := ⟨by decide, rfl⟩

end Dot

def Statement.text? : Statement → Option String
  | team _ name _ => some name
  | game _ label => some label
  | link .. => none

def Statement.bare : Statement → Statement
  | team id _ fill => team id "" fill
  | game id _ => game id ""
  | link side target => link side target

def Cluster.bare (c : Cluster) : Cluster := { c with statements := c.statements.map Statement.bare }

def Graph.bare (g : Graph) : Graph :=
  { g with title := g.title.map fun _ => "", clusters := g.clusters.map Cluster.bare }

def Graph.texts (g : Graph) : List String :=
  g.title.toList ++ g.clusters.flatMap fun c => c.phase.displayName :: c.statements.filterMap Statement.text?

namespace Dot

theorem labels_eq_nil {lines : List Line} (h : ∀ line ∈ lines, ∀ p ∈ line, ∃ text, p = .code text) :
    labels (lines.flatMap Line.glyphs) = [] := by
  refine List.eq_nil_iff_forall_not_mem.mpr fun text htext => ?_
  obtain ⟨line, hline, hglyph⟩ := List.mem_flatMap.mp (quoted_of_mem_labels htext)
  rcases List.mem_append.mp hglyph with hpart | hend
  · obtain ⟨p, hp, hmem⟩ := List.mem_flatMap.mp hpart
    obtain ⟨code, rfl⟩ := h line hline p hp
    obtain ⟨c, -, hc⟩ := List.mem_map.mp hmem
    cases hc
  · cases List.mem_singleton.mp hend

theorem labels_append (a b : List Line) : labels ((a ++ b).flatMap Line.glyphs) =
    labels (a.flatMap Line.glyphs) ++ labels (b.flatMap Line.glyphs) := by
  rw [labels_lines, labels_lines, labels_lines, List.flatMap_append]

theorem blanked_append (a b : List Line) : blanked ((a ++ b).flatMap Line.glyphs) =
    blanked (a.flatMap Line.glyphs) ++ blanked (b.flatMap Line.glyphs) := by
  rw [blanked_lines, blanked_lines, blanked_lines, List.flatMap_append]

theorem labels_statement (s : Statement) : labels (Line.glyphs (statement s)) = s.text?.toList.map shown := by
  rcases s with ⟨n, name, _ | fill⟩ | ⟨n, label⟩ | ⟨side, game⟩
  · exact labels_label (introduces_node n) name _
  · refine (labels_label (introduces_node n) name _).trans ?_
    cases fill <;> rfl
  · exact labels_label (introduces_node n) label _
  · have hcode : ∀ line ∈ [statement (.link side game)], ∀ p ∈ line, ∃ text, p = .code text := by
      simp [statement]
    have hnil := labels_eq_nil hcode
    rwa [List.flatMap_singleton] at hnil

theorem blanked_statement (s : Statement) :
    blanked (Line.glyphs (statement s)) = blanked (Line.glyphs (statement s.bare)) := by
  rcases s with ⟨n, name, _ | fill⟩ | ⟨n, label⟩ | ⟨side, game⟩
  · exact blanked_label (introduces_node n) name _ ""
  · exact blanked_label (introduces_node n) name _ ""
  · exact blanked_label (introduces_node n) label _ ""
  · rfl

theorem labels_statements (l : List Statement) :
    labels ((l.map statement).flatMap Line.glyphs) = (l.filterMap Statement.text?).map shown := by
  rw [labels_lines, List.flatMap_map, List.map_filterMap]
  simp only [labels_statement]
  induction l with
  | nil => rfl
  | cons s l ih =>
    rw [List.flatMap_cons, ih, List.filterMap_cons]
    cases s.text? <;> rfl

theorem blanked_statements (l : List Statement) : blanked ((l.map statement).flatMap Line.glyphs) =
    blanked (((l.map Statement.bare).map statement).flatMap Line.glyphs) := by
  rw [blanked_lines, blanked_lines, List.flatMap_map, List.flatMap_map, List.flatMap_map]
  exact List.flatMap_congr fun s _ => blanked_statement s

theorem labels_rank (nodes : List NodeId) : labels ((rank nodes).flatMap Line.glyphs) = [] := by
  apply labels_eq_nil
  cases nodes <;> simp [rank]

theorem labels_cluster (c : Cluster) : labels ((cluster c).flatMap Line.glyphs) =
    (c.phase.displayName :: c.statements.filterMap Statement.text?).map shown := by
  have hopen : labels (([[], [.code s!"    subgraph cluster_{c.phase.key} \x7b"],
      [.code "        label=", .quoted c.phase.displayName, .code ";"]] : List Line).flatMap Line.glyphs) =
      [shown c.phase.displayName] := by
    cases c.phase <;> rfl
  have hclose : labels (([[.code "    \x7d"]] : List Line).flatMap Line.glyphs) = [] := rfl
  rw [cluster, labels_append, labels_append, labels_append, hopen, labels_statements, labels_rank, hclose,
    List.append_nil, List.append_nil]
  rfl

theorem labels_graph (g : Graph) : labels ((lines g).flatMap Line.glyphs) = g.texts.map shown := by
  have hopen : labels (([[.code "digraph bracket \x7b"], [.code s!"    rankdir={g.direction.keyword};"],
      [.code "    node [shape=box, style=", .quoted "rounded,filled", .code ", fillcolor=", .quoted "white",
        .code "];"]] : List Line).flatMap Line.glyphs) = [] := by
    cases g.direction <;> rfl
  have htitle : labels ((g.title.elim [] title).flatMap Line.glyphs) = g.title.toList.map shown := by
    cases g.title with
    | none => rfl
    | some name =>
      rw [Option.elim_some, title, labels_lines, List.flatMap_cons, labels_label introduces_title]
      rfl
  have hclusters : labels ((g.clusters.flatMap cluster).flatMap Line.glyphs) =
      (g.clusters.flatMap fun c => c.phase.displayName :: c.statements.filterMap Statement.text?).map shown := by
    rw [labels_lines, List.flatMap_assoc, List.map_flatMap]
    apply List.flatMap_congr
    intro c _
    rw [← labels_lines]
    exact labels_cluster c
  have hadvances : labels ((advances g.advances).flatMap Line.glyphs) = [] := by
    apply labels_eq_nil
    unfold advances
    split <;> simp [advance]
  have hclose : labels (([[.code "\x7d"]] : List Line).flatMap Line.glyphs) = [] := rfl
  rw [lines, labels_append, labels_append, labels_append, labels_append, hopen, htitle, hclusters, hadvances, hclose,
    List.nil_append, List.append_nil, List.append_nil, Graph.texts, List.map_append]

theorem blanked_cluster (c : Cluster) :
    blanked ((cluster c).flatMap Line.glyphs) = blanked ((cluster c.bare).flatMap Line.glyphs) := by
  have hnodes : c.bare.statements.filterMap Statement.teamNode? = c.statements.filterMap Statement.teamNode? := by
    change (c.statements.map Statement.bare).filterMap _ = _
    rw [List.filterMap_map]
    congr 1
    funext s
    cases s <;> rfl
  rw [cluster, cluster, hnodes]
  simp only [blanked_append]
  rw [blanked_statements]
  rfl

theorem blanked_graph (g : Graph) :
    blanked ((lines g).flatMap Line.glyphs) = blanked ((lines g.bare).flatMap Line.glyphs) := by
  have htitle : blanked ((g.title.elim [] title).flatMap Line.glyphs) =
      blanked ((g.bare.title.elim [] title).flatMap Line.glyphs) := by
    change _ = blanked (((g.title.map fun _ => "").elim [] title).flatMap Line.glyphs)
    cases g.title with
    | none => rfl
    | some name =>
      have hline := blanked_label introduces_title name [.code ";"] ""
      rw [Option.map_some, Option.elim_some, Option.elim_some, blanked_lines, blanked_lines]
      simp only [title, List.flatMap_cons, hline]
  have hclusters : blanked ((g.clusters.flatMap cluster).flatMap Line.glyphs) =
      blanked ((g.bare.clusters.flatMap cluster).flatMap Line.glyphs) := by
    change _ = blanked (((g.clusters.map Cluster.bare).flatMap cluster).flatMap Line.glyphs)
    rw [blanked_lines, blanked_lines, List.flatMap_map, List.flatMap_assoc, List.flatMap_assoc]
    apply List.flatMap_congr
    intro c _
    rw [← blanked_lines, ← blanked_lines]
    exact blanked_cluster c
  rw [lines, lines]
  simp only [blanked_append]
  rw [htitle, hclusters]
  rfl

end Dot

end Knockout
