import Knockout.Proofs.DeclaredParts
import Knockout.Proofs.Redeclarations
import Mathlib.Data.List.Infix

namespace Knockout

namespace KeyMap

variable {α : Type}

theorem find?_foldl_union (maps : List (KeyMap α)) (m : KeyMap α) (key : String) :
    (maps.foldl .union m).find? key = ((maps.filterMap fun n => n.find? key).getLast?).or (m.find? key) := by
  induction maps generalizing m with
  | nil => rfl
  | cons n maps ih =>
    rw [List.foldl_cons, ih, find?_union, List.filterMap_cons]
    cases h : n.find? key with
    | none => rfl
    | some value =>
      dsimp only
      rw [List.getLast?_cons, Option.some_or]
      cases (maps.filterMap fun n => n.find? key).getLast? <;> rfl

def unionAll (maps : List (KeyMap α)) : KeyMap α := maps.foldl union empty

theorem find?_unionAll (maps : List (KeyMap α)) (key : String) :
    (unionAll maps).find? key = (maps.filterMap fun n => n.find? key).getLast? := by
  rw [unionAll, find?_foldl_union, find?_empty, Option.or_none]

theorem last_subset_unionAll (maps : List (KeyMap α)) :
    (maps.getLast?.getD empty).entries ⊆ (unionAll maps).entries := by
  rintro ⟨key, value⟩ h
  rw [mem_entries_iff] at h
  rw [mem_entries_iff, find?_unionAll]
  rcases List.eq_nil_or_concat maps with rfl | ⟨front, last, rfl⟩
  · cases h
  · rw [List.concat_eq_append, List.getLast?_concat, Option.getD_some] at h
    rw [List.concat_eq_append, List.filterMap_append, List.getLast?_append]
    simp [h]

theorem contains_unionAll_of_first {maps : List (KeyMap α)} {key : String}
    (h : (maps.head?.getD empty).contains key = true) : (unionAll maps).contains key = true := by
  unfold contains at h ⊢
  rw [find?_unionAll]
  cases maps with
  | nil => cases h
  | cons first more =>
    rw [List.head?_cons, Option.getD_some] at h
    obtain ⟨value, hfound⟩ := Option.isSome_iff_exists.mp h
    rw [List.filterMap_cons, hfound]
    simp [List.getLast?_cons]

end KeyMap

namespace Redeclaration

variable {α : Type} {join : α → α → α}

theorem settleAll_lastWins (declared : List α) : settleAll .lastWins join declared = declared.getLast? := by
  rcases List.eq_nil_or_concat declared with rfl | ⟨front, last, rfl⟩
  · rfl
  · rw [settleAll, List.concat_eq_append, List.foldl_append, List.getLast?_concat]
    rfl

theorem settleAll_keepFirst (declared : List α) : settleAll .keepFirst join declared = declared.head? := by
  cases declared with
  | nil => rfl
  | cons first more =>
    rw [settleAll, List.foldl_cons, none_settle, List.head?_cons]
    induction more with
    | nil => rfl
    | cons next more ih => exact ih

theorem settleAll_merge (first : α) (more : List α) :
    settleAll .merge join (first :: more) = some (more.foldl join first) := by
  rw [settleAll, List.foldl_cons, none_settle]
  induction more generalizing first with
  | nil => rfl
  | cons next more ih => exact ih (join first next)

theorem settleAll_merge_append (declared : List (List α)) :
    settleAll .merge (· ++ ·) declared = if declared = [] then none else some declared.flatten := by
  have hfoldl (first : List α) (more : List (List α)) : more.foldl (· ++ ·) first = (first :: more).flatten := by
    induction more generalizing first with
    | nil => simp
    | cons next more ih => simp [ih]
  cases declared with
  | nil => rfl
  | cons first more =>
    rw [settleAll_merge, hfoldl]
    rfl

theorem settleAll_merge_union (maps : List (KeyMap α)) :
    (settleAll .merge .union maps).getD .empty = KeyMap.unionAll maps := by
  cases maps with
  | nil => rfl
  | cons first more => rw [settleAll_merge, KeyMap.unionAll, List.foldl_cons, KeyMap.empty_union, Option.getD_some]

end Redeclaration

def declaredFor (tokens : List Token) (phase : String) : List (List Fixture) :=
  ((Document.phaseLists tokens).filter fun e => e.1 = phase).map Prod.snd

structure Compared (tokens : List Token) (last first merged : Assembly) : Prop where
  diagnostics : first.diagnostics = last.diagnostics ∧ merged.diagnostics = last.diagnostics
  teams : first.tournament.teams = last.tournament.teams ∧ merged.tournament.teams = last.tournament.teams
  phases (phase : String) :
    first.tournament.bracket.contains phase = last.tournament.bracket.contains phase ∧
      merged.tournament.bracket.contains phase = last.tournament.bracket.contains phase
  last_games (phase : String) : last.tournament.bracket.find? phase = (declaredFor tokens phase).getLast?
  first_games (phase : String) : first.tournament.bracket.find? phase = (declaredFor tokens phase).head?
  merged_games (phase : String) : merged.tournament.bracket.find? phase =
    if declaredFor tokens phase = [] then none else some (declaredFor tokens phase).flatten
  last_suffix {phase : String} {games whole : List Fixture} : last.tournament.bracket.find? phase = some games →
    merged.tournament.bracket.find? phase = some whole → games <:+ whole
  first_prefix {phase : String} {games whole : List Fixture} : first.tournament.bracket.find? phase = some games →
    merged.tournament.bracket.find? phase = some whole → games <+: whole
  last_info : last.tournament.info = (Document.infoMaps tokens).getLast?.getD .empty
  first_info : first.tournament.info = (Document.infoMaps tokens).head?.getD .empty
  merged_info : merged.tournament.info = .unionAll (Document.infoMaps tokens)
  merged_value (key : String) : merged.tournament.info.find? key =
    ((Document.infoMaps tokens).filterMap fun entries => entries.find? key).getLast?
  last_entries : last.tournament.info.entries ⊆ merged.tournament.info.entries
  first_keys (key : String) : first.tournament.info.contains key = true → merged.tournament.info.contains key = true

section Runs

variable (strictness : Strictness) (tokens : List Token)

theorem find?_bracket (policy : Redeclaration) (phase : String) :
    (assemble ⟨policy, strictness⟩ tokens).tournament.bracket.find? phase =
      policy.settleAll (· ++ ·) (declaredFor tokens phase) := by
  rw [declaredFor, ← Document.phases_read]
  exact Steps.find?_joinPhases policy _ phase

theorem info_eq (policy : Redeclaration) : (assemble ⟨policy, strictness⟩ tokens).tournament.info =
    (policy.settleAll .union (Document.infoMaps tokens)).getD .empty := by
  rw [← Document.infos_read]
  exact Steps.joinInfos_eq policy _

theorem games_lastWins (phase : String) : (assemble ⟨.lastWins, strictness⟩ tokens).tournament.bracket.find? phase =
    (declaredFor tokens phase).getLast? := by
  rw [find?_bracket, Redeclaration.settleAll_lastWins]

theorem games_keepFirst (phase : String) : (assemble ⟨.keepFirst, strictness⟩ tokens).tournament.bracket.find? phase =
    (declaredFor tokens phase).head? := by
  rw [find?_bracket, Redeclaration.settleAll_keepFirst]

theorem games_merge (phase : String) : (assemble ⟨.merge, strictness⟩ tokens).tournament.bracket.find? phase =
    if declaredFor tokens phase = [] then none else some (declaredFor tokens phase).flatten := by
  rw [find?_bracket, Redeclaration.settleAll_merge_append]

theorem info_lastWins : (assemble ⟨.lastWins, strictness⟩ tokens).tournament.info =
    (Document.infoMaps tokens).getLast?.getD .empty := by
  rw [info_eq, Redeclaration.settleAll_lastWins]

theorem info_keepFirst : (assemble ⟨.keepFirst, strictness⟩ tokens).tournament.info =
    (Document.infoMaps tokens).head?.getD .empty := by
  rw [info_eq, Redeclaration.settleAll_keepFirst]

theorem info_merge : (assemble ⟨.merge, strictness⟩ tokens).tournament.info =
    .unionAll (Document.infoMaps tokens) := by
  rw [info_eq, Redeclaration.settleAll_merge_union]

theorem contains_bracket (policy : Redeclaration) (phase : String) :
    (assemble ⟨policy, strictness⟩ tokens).tournament.bracket.contains phase =
      !(declaredFor tokens phase).isEmpty := by
  rw [KeyMap.contains, find?_bracket, Bool.eq_iff_iff, Bool.not_eq_true', Option.isSome_iff_ne_none, ne_eq,
    Redeclaration.settleAll_eq_none_iff, List.isEmpty_eq_false_iff]

variable {strictness tokens}

theorem eq_flatten_of_merge {phase : String} {whole : List Fixture}
    (h : (assemble ⟨.merge, strictness⟩ tokens).tournament.bracket.find? phase = some whole) :
    whole = (declaredFor tokens phase).flatten := by
  rw [games_merge] at h
  split at h
  · cases h
  · exact (Option.some.inj h).symm

theorem assemble_policies (strictness : Strictness) (tokens : List Token) :
    Compared tokens (assemble ⟨.lastWins, strictness⟩ tokens) (assemble ⟨.keepFirst, strictness⟩ tokens)
      (assemble ⟨.merge, strictness⟩ tokens) where
  diagnostics := ⟨rfl, rfl⟩
  teams := ⟨rfl, rfl⟩
  phases phase := by
    simp only [contains_bracket, and_self]
  last_games := games_lastWins strictness tokens
  first_games := games_keepFirst strictness tokens
  merged_games := games_merge strictness tokens
  last_suffix {phase games whole} hgames hwhole := by
    rw [games_lastWins] at hgames
    obtain ⟨front, hfront⟩ := List.getLast?_eq_some_iff.mp hgames
    rw [eq_flatten_of_merge hwhole, hfront, List.flatten_append, List.flatten_singleton]
    exact List.suffix_append _ _
  first_prefix {phase games whole} hgames hwhole := by
    rw [games_keepFirst] at hgames
    obtain ⟨more, hmore⟩ := List.head?_eq_some_iff.mp hgames
    rw [eq_flatten_of_merge hwhole, hmore, List.flatten_cons]
    exact List.prefix_append _ _
  last_info := info_lastWins strictness tokens
  first_info := info_keepFirst strictness tokens
  merged_info := info_merge strictness tokens
  merged_value key := by
    rw [info_merge, KeyMap.find?_unionAll]
  last_entries := by
    rw [info_lastWins, info_merge]
    exact KeyMap.last_subset_unionAll _
  first_keys key h := by
    rw [info_keepFirst] at h
    rw [info_merge]
    exact KeyMap.contains_unionAll_of_first h

end Runs

end Knockout
