import Knockout.Proofs.Acceptance
import Knockout.Proofs.PlainReading
import Mathlib.Data.List.Basic

namespace Knockout

namespace Reader

variable {α : Type}

def entered (turn : Token → List Token → Turn α) : List Token → List (Token × List Token)
  | [] => []
  | t :: rest =>
    match turn t rest with
    | .finish | .leave _ => []
    | .pass | .drop _ => entered turn rest
    | .enter item => (t, rest) :: entered turn (item.run rest).rest
termination_by tokens => tokens.length
decreasing_by
  · simp
  · exact Nat.lt_succ_of_le (item.rest_length rest)

theorem declarations_items {turn : Token → List Token → Turn α} {declared : Token → List Token → List Declaration}
    (h : ∀ t rest item, turn t rest = .enter item → declarations (item.run rest).steps = declared t rest)
    (unfinished : Option Cause) (tokens : List Token) :
    declarations ((items turn unfinished).run tokens).steps =
      (entered turn tokens).flatMap fun e => declared e.1 e.2 := by
  change declarations (itemsFrom turn unfinished tokens).steps = _
  fun_induction itemsFrom turn unfinished tokens with
  | case1 =>
    rw [declarations_reports, entered]
    rfl
  | case2 t rest ht =>
    rw [entered, ht]
    rfl
  | case3 t rest cause ht =>
    rw [declarations_reports, entered, ht]
    rfl
  | case4 t rest ht more ih =>
    rw [entered, ht]
    exact ih
  | case5 t rest item ht first more ih =>
    rw [entered, ht, declarations_take, declarations_append, ih, h t rest item ht]
    rfl
  | case6 t rest context ht more ih =>
    rw [entered, ht]
    exact ih

theorem Emits.declarations_eq_nil {r : Reader α} (h : r.Emits Step.IsPlain) (tokens : List Token) :
    declarations (r.run tokens).steps = [] := by
  refine List.filterMap_eq_nil_iff.mpr fun step hs => ?_
  cases step with
  | declare d => exact absurd rfl ((h tokens _ hs).2 d)
  | take | skip | report | ignore => rfl

end Reader

namespace Document

open Reader

variable {α : Type}

def inside? : List Token → Option (List Token)
  | t :: rest => if t.kind = .openBrace then some rest else none
  | [] => none

theorem declarations_semicolon (tokens : List Token) : declarations ((takeKind .semicolon).run tokens).steps = [] :=
  (brief_takeKind (n := 0) (by decide)).emits.plain.declarations_eq_nil tokens

theorem declarations_block (keyword : Token) (content : Reader (List α)) (last : List α → Reader Unit)
    {ds : List α → List Declaration} (h : ∀ xs tokens, declarations ((last xs).run tokens).steps = ds xs)
    (tokens : List Token) :
    declarations ((opened keyword >>= fun b => if b = true then
      content >>= fun xs => takeKind .semicolon >>= fun _ => last xs else pure ()).run tokens).steps =
        (inside? tokens).elim [] fun inner =>
          declarations (content.run inner).steps ++ ds (content.run inner).value := by
  have hopened : (opened keyword).run tokens = match tokens with
      | t :: rest =>
        if t.kind = .openBrace then ⟨true, [.take t], rest⟩
        else ⟨false, [.report (.missingOpener keyword.lexeme) (some t)], tokens⟩
      | [] => ⟨false, [.report (.missingOpener keyword.lexeme) none], []⟩ := by
    cases tokens with
    | nil => rfl
    | cons t rest => by_cases hk : t.kind = .openBrace <;> simp [opened, takeKind, takeIf, report, hk]
  rw [run_bind, declarations_append, hopened]
  cases tokens with
  | nil => rfl
  | cons t rest =>
    by_cases hk : t.kind = .openBrace
    · simp only [inside?, if_pos hk, Option.elim_some, if_true, run_bind, declarations_append,
        declarations_semicolon, h]
      rfl
    · simp only [inside?, if_neg hk]
      rfl

section Blocks

abbrev infoPairs : Reader (List (String × String)) := pairs .brace .info (labelled .brace)

abbrev teamList : Reader (List (Option Team)) :=
  list .brace .teams fun t => if t.isReserved "equipo" then some (team t) else none

def infoEntries (inner : List Token) : KeyMap String := .ofList (infoPairs.run inner).value

def teamEntries (inner : List Token) : List Team := (teamList.run inner).value.filterMap id

def phaseEntries (inner : List Token) : List (Token × List Fixture) :=
  (entered (listTurn .brace .bracket phaseItem) inner).map fun e => (e.1, ((fixtures e.1).run e.2).value)

def openedBlocks (tokens : List Token) : List (Token × List Token) :=
  (entered documentTurn tokens).filterMap fun e => (inside? e.2).map fun inner => (e.1, inner)

def declaredIn (t : Token) (inner : List Token) : List Declaration :=
  if t.isReserved "torneo" then [.info t (infoEntries inner)]
  else if t.isReserved "equipos" then [.teams (teamEntries inner)]
  else if t.isReserved "eliminacion" then (phaseEntries inner).map fun e => .phase e.1 e.2
  else []

theorem declarations_phase (keyword : Token) (rest : List Token) :
    declarations ((phase keyword).run rest).steps = [.phase keyword ((fixtures keyword).run rest).value] := by
  rw [phase_eq_bind, run_bind, declarations_append, (entry_fixtures (n := 0) keyword).plain.declarations_eq_nil]
  rfl

theorem declarations_phaseList (inner : List Token) :
    declarations (phaseList.run inner).steps = (phaseEntries inner).map fun e => .phase e.1 e.2 := by
  have hphase : ∀ t rest reader, listTurn .brace .bracket phaseItem t rest = .enter reader →
      declarations (reader.run rest).steps = [.phase t ((fixtures t).run rest).value] := by
    intro t rest reader ht
    obtain ⟨-, rfl⟩ := item_of_isPhaseKeyword (item_of_listTurn_eq_enter ht)
    exact declarations_phase t rest
  have hitems := declarations_items hphase (some (.unclosedList .brace .bracket)) inner
  rw [← List.map_eq_flatMap] at hitems
  rw [phaseEntries, List.map_map]
  exact hitems

theorem declarations_block? {t : Token} {block : Reader Unit} (h : block? t = some block) (tokens : List Token) :
    declarations (block.run tokens).steps = (inside? tokens).elim [] (declaredIn t) := by
  unfold declaredIn
  rcases block?_eq_some_iff.mp h with ⟨ht, rfl⟩ | ⟨ht, rfl⟩ | ⟨ht, rfl⟩
  · have hpairs (inner : List Token) : declarations (infoPairs.run inner).steps = [] :=
      (entry_labelled_pairs (n := 0) .brace .info).plain.declarations_eq_nil inner
    have hblock := declarations_block t infoPairs (fun entries => declare (.info t (.ofList entries)))
      (fun _ _ => rfl) tokens
    simp only [hpairs, List.nil_append] at hblock
    simp only [if_pos ht]
    exact hblock
  · have hlist (inner : List Token) : declarations (teamList.run inner).steps = [] :=
      (entry_teams (n := 0)).plain.declarations_eq_nil inner
    have hblock := declarations_block t teamList (fun teams => declare (.teams (teams.filterMap id)))
      (fun _ _ => rfl) tokens
    simp only [hlist, List.nil_append] at hblock
    simp only [Token.isReserved_eq_false ht (by decide : "equipos" ≠ "torneo"), if_pos ht]
    exact hblock
  · have hblock := declarations_block t phaseList (fun _ => pure ()) (fun _ _ => rfl) tokens
    simp only [declarations_phaseList, List.append_nil] at hblock
    simp only [Token.isReserved_eq_false ht (by decide : "eliminacion" ≠ "torneo"),
      Token.isReserved_eq_false ht (by decide : "eliminacion" ≠ "equipos"), if_pos ht]
    exact hblock

theorem declarations_read (tokens : List Token) :
    declarations (read tokens) = (openedBlocks tokens).flatMap fun b => declaredIn b.1 b.2 := by
  have hblock : ∀ t rest block, documentTurn t rest = .enter block →
      declarations (block.run rest).steps = (inside? rest).elim [] (declaredIn t) :=
    fun t rest block ht => declarations_block? (documentTurn_eq_enter_iff.mp ht) rest
  refine (declarations_items hblock none tokens).trans ?_
  rw [openedBlocks, List.filterMap_eq_flatMap_toList, List.flatMap_assoc]
  apply List.flatMap_congr
  intro e _
  cases inside? e.2 <;> simp

def infoMaps (tokens : List Token) : List (KeyMap String) :=
  ((openedBlocks tokens).filter fun b => b.1.isReserved "torneo").map fun b => infoEntries b.2

def phaseLists (tokens : List Token) : List (String × List Fixture) :=
  ((openedBlocks tokens).filter fun b => b.1.isReserved "eliminacion").flatMap fun b =>
    (phaseEntries b.2).map fun e => (e.1.lexeme, e.2)

theorem flatMap_filter {β : Type} (accepts : α → Bool) (f : α → List β) (l : List α) :
    (l.filter accepts).flatMap f = l.flatMap fun x => if accepts x then f x else [] := by
  induction l with
  | nil => rfl
  | cons x l ih => cases h : accepts x <;> simp [h, ih]

theorem infos_read (tokens : List Token) : Steps.infos (read tokens) = infoMaps tokens := by
  have hphases (ps : List (Token × List Fixture)) : Grammar.infos (ps.map fun e => .phase e.1 e.2) = [] := by
    rw [Grammar.infos, List.filterMap_map]
    exact List.filterMap_none _
  have hblock (b : Token × List Token) : Grammar.infos (declaredIn b.1 b.2) =
      if b.1.isReserved "torneo" then [infoEntries b.2] else [] := by
    unfold declaredIn
    split
    · rfl
    · split
      · rfl
      · split
        · exact hphases _
        · rfl
  rw [Steps.infos_eq, declarations_read, infoMaps, List.map_eq_flatMap, flatMap_filter, ← funext hblock]
  exact List.filterMap_flatMap

theorem phases_read (tokens : List Token) : Steps.phases (read tokens) = phaseLists tokens := by
  have hphases (ps : List (Token × List Fixture)) :
      Grammar.phases (ps.map fun e => .phase e.1 e.2) = ps.map fun e => (e.1.lexeme, e.2) := by
    rw [Grammar.phases, List.filterMap_map]
    exact List.filterMap_eq_map_iff_forall_eq_some.mpr fun _ _ => rfl
  have hblock (b : Token × List Token) : Grammar.phases (declaredIn b.1 b.2) =
      if b.1.isReserved "eliminacion" then (phaseEntries b.2).map fun e => (e.1.lexeme, e.2) else [] := by
    unfold declaredIn
    split
    case isTrue ht =>
      rw [Token.isReserved_eq_false ht (by decide)]
      rfl
    case isFalse =>
    split
    case isTrue ht =>
      rw [Token.isReserved_eq_false ht (by decide)]
      rfl
    case isFalse =>
    split
    case isTrue => exact hphases _
    case isFalse => rfl
  rw [Steps.phases_eq, declarations_read, phaseLists, flatMap_filter, ← funext hblock]
  exact List.filterMap_flatMap

end Blocks

end Document

end Knockout
