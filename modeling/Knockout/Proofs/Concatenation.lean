import Knockout.Proofs.Acceptance
import Knockout.Proofs.BlockBoundaries
import Knockout.Proofs.Redeclarations
import Knockout.Proofs.Suspension

namespace Knockout

namespace Document

theorem read_nil : read [] = [] := by
  simp [read, Reader.items, Reader.itemsFrom]

theorem read_append {tokens more : List Token} {next : Token} (h : Settled tokens)
    (hb : startsBlock next more = true) :
    read (tokens ++ next :: more) = (read tokens).map (Step.before next) ++ read (next :: more) := by
  induction hn : tokens.length using Nat.strongRecOn generalizing tokens with
  | ind n ih =>
    cases tokens with
    | nil => rw [read_nil]; rfl
    | cons t rest =>
      rw [List.length_cons] at hn
      cases hr : block? t with
      | none =>
        have hrest := ih rest.length (by omega) h.tail rfl
        rw [List.cons_append, read_of_no_block hr, read_of_no_block hr, hrest, List.map_cons]
        rfl
      | some block =>
        have hblock := (part_block? hr).suspends hb h.tail
        have hlt : (block.run rest).rest.length < n := by
          have := block.rest_length rest
          omega
        have hrest := ih _ hlt (h.tail.suffix (block.rest_suffix rest)) rfl
        unfold Reader.Suspends at hblock
        rw [List.cons_append, read_of_block hr, read_of_block hr, hblock, hrest, List.map_cons, List.map_append,
          List.cons_append, List.append_assoc]
        rfl

def opensInfo (tokens : List Token) : Bool := !(Steps.infos (read tokens)).isEmpty

end Document

namespace Steps

section Before

variable (next : Token) (steps : List Step)

theorem declarations_before : declarations (steps.map (Step.before next)) = declarations steps := by
  rw [declarations, declarations, List.filterMap_map]
  congr 1
  funext step
  rcases step with _ | _ | ⟨_, _ | _⟩ | _ | _ <;> rfl

theorem infos_before : infos (steps.map (Step.before next)) = infos steps := by
  rw [infos_eq, infos_eq, declarations_before]

theorem teams_before : teams (steps.map (Step.before next)) = teams steps := by
  rw [teams_eq, teams_eq, declarations_before]

theorem phases_before : phases (steps.map (Step.before next)) = phases steps := by
  rw [phases_eq, phases_eq, declarations_before]

end Before

theorem infos_append (a b : List Step) : infos (a ++ b) = infos a ++ infos b := List.filterMap_append

theorem teams_append (a b : List Step) : teams (a ++ b) = teams a ++ teams b := List.flatMap_append

theorem phases_append (a b : List Step) : phases (a ++ b) = phases a ++ phases b := List.filterMap_append

end Steps

def remarks (diagnostics : List Diagnostic) : List (DiagnosticKind × String) :=
  (diagnostics.filter fun d => d.kind ≠ .redeclaredBlock).map fun d => (d.kind, d.description)

theorem remarks_singleton (cause : Cause) (text text' : String) (position position' : Position) :
    remarks [⟨cause, text, position⟩] = remarks [⟨cause, text', position'⟩] := by
  by_cases h : cause.kind = .redeclaredBlock
  · simp [remarks, Diagnostic.kind, h]
  · simp [remarks, Diagnostic.kind, Diagnostic.description, h]

theorem remarks_append (a b : List Diagnostic) : remarks (a ++ b) = remarks a ++ remarks b := by
  rw [remarks, List.filter_append, List.map_append]
  rfl

namespace Steps

theorem diagnosticsFrom_append (strictness : Strictness) (last : Position) (m : Memory) (a b : List Step) :
    diagnosticsFrom strictness last m (a ++ b) =
      diagnosticsFrom strictness last m a ++ diagnosticsFrom strictness last (a.foldl Memory.after m) b := by
  induction a generalizing m with
  | nil => rfl
  | cons step a ih => rw [List.cons_append, diagnosticsFrom, diagnosticsFrom, ih, List.append_assoc, List.foldl_cons]

theorem Memory.skipping_after {m m' : Memory} (h : m.skipping = m'.skipping) (step : Step) :
    (m.after step).skipping = (m'.after step).skipping := by
  rcases step with _ | _ | _ | _ | (_ | _ | _) <;> simp [Memory.after, h]

theorem Memory.after_before (next : Token) (m : Memory) (step : Step) :
    m.after (step.before next) = m.after step := by
  rcases step with _ | _ | ⟨_, _ | _⟩ | _ | _ <;> rfl

theorem remarks_declare (strictness : Strictness) (last : Position) (m : Memory) (d : Declaration) :
    remarks (diagnostics strictness last m (.declare d)) = [] := by
  cases d with
  | info keyword entries =>
    simp only [diagnostics]
    split <;> rfl
  | phase keyword fixtures =>
    simp only [diagnostics]
    split <;> rfl
  | teams => rfl

theorem remarks_diagnostics_congr {strictness : Strictness} {m m' : Memory} (h : m.skipping = m'.skipping)
    (last last' : Position) (step : Step) :
    remarks (diagnostics strictness last m step) = remarks (diagnostics strictness last' m' step) := by
  cases step with
  | take t => rfl
  | skip t context => simp only [diagnostics, h]
  | report cause found =>
    cases found with
    | none => exact remarks_singleton cause _ _ last last'
    | some t => rfl
  | ignore key => rfl
  | declare d => rw [remarks_declare, remarks_declare]

theorem remarks_diagnostics_before (strictness : Strictness) (last last' : Position) (m : Memory) (next : Token)
    (step : Step) :
    remarks (diagnostics strictness last m (step.before next)) = remarks (diagnostics strictness last' m step) := by
  rcases step with _ | _ | ⟨cause, _ | _⟩ | _ | _
  case report.none => exact remarks_singleton cause _ _ _ _
  all_goals exact remarks_diagnostics_congr rfl last last' _

theorem remarks_diagnosticsFrom_congr {strictness : Strictness} {m m' : Memory} (h : m.skipping = m'.skipping)
    (last last' : Position) (steps : List Step) :
    remarks (diagnosticsFrom strictness last m steps) = remarks (diagnosticsFrom strictness last' m' steps) := by
  induction steps generalizing m m' with
  | nil => rfl
  | cons step steps ih =>
    rw [diagnosticsFrom, diagnosticsFrom, remarks_append, remarks_append, remarks_diagnostics_congr h last last',
      ih (Memory.skipping_after h step)]

theorem remarks_diagnosticsFrom_before (strictness : Strictness) (last last' : Position) (m : Memory) (next : Token)
    (steps : List Step) :
    remarks (diagnosticsFrom strictness last m (steps.map (Step.before next))) =
      remarks (diagnosticsFrom strictness last' m steps) := by
  induction steps generalizing m with
  | nil => rfl
  | cons step steps ih =>
    rw [List.map_cons, diagnosticsFrom, diagnosticsFrom, remarks_append, remarks_append,
      remarks_diagnostics_before strictness last last', Memory.after_before, ih]

theorem remarks_diagnosticsFrom_block {tokens : List Token} {next : Token}
    (hb : Document.startsBlock next tokens = true) (strictness : Strictness) (last last' : Position) (m m' : Memory) :
    remarks (diagnosticsFrom strictness last m (Document.read (next :: tokens))) =
      remarks (diagnosticsFrom strictness last' m' (Document.read (next :: tokens))) := by
  obtain ⟨block, hr⟩ := Document.exists_block hb
  rw [Document.read_of_block hr, diagnosticsFrom, diagnosticsFrom, remarks_append, remarks_append]
  have hskip : (m.after (.take next)).skipping = (m'.after (.take next)).skipping := rfl
  exact congrArg _ (remarks_diagnosticsFrom_congr hskip last last' _)

end Steps

structure Concatenated (options : Options) (first second : List Token) (a b whole : Assembly) : Prop where
  teams : whole.tournament.teams = a.tournament.teams ++ b.tournament.teams
  info : whole.tournament.info = match options.redeclaration with
    | .lastWins => if Document.opensInfo second then b.tournament.info else a.tournament.info
    | .keepFirst => if Document.opensInfo first then a.tournament.info else b.tournament.info
    | .merge => a.tournament.info.union b.tournament.info
  fixtures (phase : String) : whole.tournament.bracket.find? phase = match options.redeclaration with
    | .lastWins => (b.tournament.bracket.find? phase).or (a.tournament.bracket.find? phase)
    | .keepFirst => (a.tournament.bracket.find? phase).or (b.tournament.bracket.find? phase)
    | .merge => Option.merge (· ++ ·) (a.tournament.bracket.find? phase) (b.tournament.bracket.find? phase)
  remarks : remarks whole.diagnostics = remarks a.diagnostics ++ remarks b.diagnostics

theorem assemble_append (options : Options) (first : List Token) (next : Token) (more : List Token)
    (h : Settled first) (hb : Document.startsBlock next more = true) :
    Concatenated options first (next :: more) (assemble options first) (assemble options (next :: more))
      (assemble options (first ++ next :: more)) := by
  obtain ⟨policy, strictness⟩ := options
  have hread := Document.read_append h hb
  constructor
  · simp only [assemble, Steps.tournament]
    rw [hread, Steps.teams_append, Steps.teams_before]
  · simp only [assemble, Steps.tournament]
    rw [hread, Steps.infos_append, Steps.infos_before, Steps.joinInfos_append]
    rfl
  · intro phase
    simp only [assemble, Steps.tournament]
    rw [hread, Steps.phases_append, Steps.phases_before, Steps.find?_joinPhases_append]
    cases policy <;> rfl
  · simp only [assemble]
    rw [hread, Steps.diagnosticsFrom_append, remarks_append]
    congr 1
    · exact Steps.remarks_diagnosticsFrom_before _ _ _ _ _ _
    · exact Steps.remarks_diagnosticsFrom_block hb _ _ _ _ _

theorem assemble_append_open_roster :
    let token (kind : TokenKind) (lexeme : String) : Token := ⟨kind, lexeme, ⟨1, 1, ⟨0, 0⟩⟩⟩
    let first := [token .reserved "equipos", token .openBrace "\x7b", token .reserved "equipo", token .colon ":",
      token .string "A", token .openBracket "[", token .reserved "jugador", token .colon ":", token .string "B"]
    let next := token .reserved "torneo"
    let more := [token .openBrace "\x7b", token .reserved "nombre", token .colon ":", token .string "Copa"]
    Settled first ∧ Document.startsBlock next more = true ∧
      Concatenated ⟨.merge, .strict⟩ first (next :: more) (assemble ⟨.merge, .strict⟩ first)
        (assemble ⟨.merge, .strict⟩ (next :: more)) (assemble ⟨.merge, .strict⟩ (first ++ next :: more)) := by
  intro token first next more
  have hs : Settled first := by
    rintro _ ⟨⟩
    decide
  have hb : Document.startsBlock next more = true := by decide
  exact ⟨hs, hb, assemble_append ⟨.merge, .strict⟩ first next more hs hb⟩

end Knockout
