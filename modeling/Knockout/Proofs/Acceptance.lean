import Knockout.Assembly
import Knockout.Proofs.DocumentReading
import Knockout.Proofs.SourceCoverage

namespace Knockout

namespace Steps

theorem diagnosticsFrom_lenient_eq_nil_iff {last : Position} {m : Memory} (hm : m.skipping = false)
    {steps : List Step} :
    diagnosticsFrom .lenient last m steps = [] ↔ Silent steps := by
  induction steps generalizing m with
  | nil => simp [diagnosticsFrom]
  | cons step rest ih =>
    rw [diagnosticsFrom, List.append_eq_nil_iff]
    cases step with
    | take t => simp [diagnostics, ih (m := m.after (.take t)) rfl]
    | skip t context => simp [diagnostics, hm]
    | report cause found => cases found <;> simp [diagnostics]
    | ignore key => simp [diagnostics, ih (m := m.after (.ignore key)) hm]
    | declare d =>
      have ha : (m.after (.declare d)).skipping = false := by cases d <;> exact hm
      cases d <;> simp [diagnostics, ih ha]

theorem infos_eq (steps : List Step) : infos steps = Grammar.infos (declarations steps) := by
  rw [infos, Grammar.infos, declarations, List.filterMap_filterMap]
  congr 1
  funext step
  rcases step with _ | _ | _ | _ | (_ | _ | _) <;> rfl

theorem phases_eq (steps : List Step) : phases steps = Grammar.phases (declarations steps) := by
  rw [phases, Grammar.phases, declarations, List.filterMap_filterMap]
  congr 1
  funext step
  rcases step with _ | _ | _ | _ | (_ | _ | _) <;> rfl

theorem teams_eq (steps : List Step) : teams steps = Grammar.teams (declarations steps) := by
  rw [teams, Grammar.teams, declarations]
  induction steps with
  | nil => rfl
  | cons step rest ih =>
    rw [List.flatMap_cons, ih]
    rcases step with _ | _ | _ | _ | (_ | _ | _) <;> rfl

theorem joinInfos_lastWins (entries : List (KeyMap String)) :
    joinInfos .lastWins entries = entries.getLast?.getD .empty := by
  cases entries with
  | nil => rfl
  | cons first more =>
    rw [joinInfos, List.getLast?_cons, Option.getD_some]
    induction more generalizing first with
    | nil => rfl
    | cons next more ih =>
      rw [List.foldl_cons, List.getLast?_cons, Option.getD_some]
      exact ih next

theorem find?_joinPhases_lastWins (declared : List (String × List Fixture)) (key : String) :
    (joinPhases .lastWins declared).find? key = (declared.filter fun e => e.1 = key).getLast?.map Prod.snd :=
  KeyMap.find?_ofList declared key

theorem denotes_iff {steps : List Step} {t : Tournament} :
    Grammar.Denotes (declarations steps) t ↔ t = tournament .lastWins steps := by
  constructor
  · rintro ⟨hi, ht, hb⟩
    rw [← infos_eq, ← joinInfos_lastWins] at hi
    rw [← teams_eq] at ht
    have hbracket : t.bracket = joinPhases .lastWins (phases steps) := by
      apply KeyMap.ext_find?
      intro key
      rw [hb, find?_joinPhases_lastWins, phases_eq]
    rw [tournament, ← hi, ← ht, ← hbracket]
  · rintro rfl
    constructor
    · rw [← infos_eq, ← joinInfos_lastWins]
      rfl
    · rw [← teams_eq]
      rfl
    · intro key
      rw [← phases_eq]
      exact find?_joinPhases_lastWins _ key

end Steps

theorem scan_lexical (source : String) : Lexical (scan source).tokens := by
  intro t ht
  obtain ⟨piece, hp, hs⟩ := mem_tokens_iff.mp ht
  obtain ⟨after, -, hf⟩ := holds_of_mem hp
  have hspelled := hf.spells hs
  constructor
  · intro hk
    rw [hk] at hspelled
    exact hspelled.2.2.1
  · intro hk hm
    rw [hk] at hspelled
    refine hspelled.2.2 ?_
    rwa [lowered_eq_of_mem_reservedWords hm]

/--
A lenient reading of a source reports nothing exactly where the grammar derives its tokens, and then the tournament
is the one that the derivation denotes.
-/
theorem assemble_scan_grammar (source : String) :
    ((assemble ⟨.lastWins, .lenient⟩ (scan source).tokens).diagnostics = [] ↔
        ∃ ds, Grammar.Blocks (scan source).tokens ds) ∧
      ∀ ds, Grammar.Blocks (scan source).tokens ds → ∀ t,
        Grammar.Denotes ds t ↔ t = (assemble ⟨.lastWins, .lenient⟩ (scan source).tokens).tournament := by
  have hl := scan_lexical source
  constructor
  · have hs : (assemble ⟨.lastWins, .lenient⟩ (scan source).tokens).diagnostics = [] ↔
        Silent (Document.read (scan source).tokens) := Steps.diagnosticsFrom_lenient_eq_nil_iff rfl
    rw [hs]
    constructor
    · intro h
      exact ⟨_, (Grammar.blocks_iff hl).mpr ⟨h, rfl⟩⟩
    · rintro ⟨ds, hds⟩
      exact ((Grammar.blocks_iff hl).mp hds).1
  · intro ds hds t
    obtain ⟨-, rfl⟩ := (Grammar.blocks_iff hl).mp hds
    exact Steps.denotes_iff

end Knockout
