import Knockout.Assembly
import Knockout.Proofs.MirroredDocument

namespace Knockout

def KeyMap.Mirrors {α β : Type} (V : α → β → Prop) (m : KeyMap α) (n : KeyMap β) : Prop :=
  List.Forall₂ (fun e f => e.1 = f.1 ∧ V e.2 f.2) m.entries n.entries

structure Tournament.Mirrors (lines : UInt32 → UInt32 → Prop) (a b : Tournament) : Prop where
  info : a.info = b.info
  teams : List.Forall₂ (Team.Mirrors lines) a.teams b.teams
  bracket : a.bracket.Mirrors (List.Forall₂ (Fixture.Mirrors lines)) b.bracket

inductive Diagnostic.Mirrors (same : Token → Token → Prop) (last last' : Position) : Diagnostic → Diagnostic → Prop
  | atEnd (cause : Cause) :
    Mirrors same last last' ⟨cause, "end of input", last⟩ ⟨cause, "end of input", last'⟩
  | atToken {t u : Token} (cause : Cause) : same t u → Mirrors same last last' (.ofToken t cause) (.ofToken u cause)
  | unexpected {t u : Token} (context : Context) : same t u →
    Mirrors same last last' (.ofToken t (.unexpected t.lexeme context)) (.ofToken u (.unexpected u.lexeme context))
  | invalid {t u : Token} (key : String) : same t u →
    Mirrors same last last' (.ofToken t (.invalidValue t.lexeme key)) (.ofToken u (.invalidValue u.lexeme key))

namespace KeyMap

variable {α β : Type} {V : α → β → Prop}

theorem insertEntry_rel {combine : α → α → α} {combine' : β → β → β} {key : String} {x : α} {y : β}
    {l : List (String × α)} {l' : List (String × β)} (hxy : V x y)
    (hcombine : ∀ a b, V a b → V (combine a x) (combine' b y))
    (h : List.Forall₂ (fun e f => e.1 = f.1 ∧ V e.2 f.2) l l') :
    List.Forall₂ (fun e f => e.1 = f.1 ∧ V e.2 f.2) (insertEntry combine key x l) (insertEntry combine' key y l') := by
  induction h with
  | nil => exact .cons ⟨rfl, hxy⟩ .nil
  | @cons e f rest rest' hef hrest ih =>
    obtain ⟨k, old⟩ := e
    obtain ⟨k', old'⟩ := f
    obtain ⟨rfl, hold⟩ : k = k' ∧ V old old' := hef
    simp only [insertEntry]
    split
    · exact .cons ⟨rfl, hxy⟩ (.cons ⟨rfl, hold⟩ hrest)
    split
    · exact .cons ⟨rfl, hcombine _ _ hold⟩ hrest
    · exact .cons ⟨rfl, hold⟩ ih

end KeyMap

namespace Steps

variable {same : Token → Token → Prop} {lines : UInt32 → UInt32 → Prop} {steps steps' : List Step}

theorem infos_mirrors (h : List.Forall₂ (Step.Mirrors same lines) steps steps') : infos steps = infos steps' := by
  rw [← List.forall₂_eq_eq_eq]
  refine List.rel_filterMap (R := Step.Mirrors same lines) (fun a b hab => ?_) h
  cases hab with
  | declare hd =>
    cases hd with
    | info => exact .some rfl
    | teams => exact .none
    | phase => exact .none
  | _ => exact .none

theorem teams_mirrors (h : List.Forall₂ (Step.Mirrors same lines) steps steps') :
    List.Forall₂ (Team.Mirrors lines) (teams steps) (teams steps') := by
  refine List.rel_flatMap (R := Step.Mirrors same lines) h fun a b hab => ?_
  cases hab with
  | declare hd =>
    cases hd with
    | info => exact .nil
    | teams ht => exact ht
    | phase => exact .nil
  | _ => exact .nil

theorem phases_mirrors (h : List.Forall₂ (Step.Mirrors same lines) steps steps') :
    List.Forall₂ (fun e f => e.1 = f.1 ∧ List.Forall₂ (Fixture.Mirrors lines) e.2 f.2) (phases steps)
      (phases steps') := by
  refine List.rel_filterMap (R := Step.Mirrors same lines) (fun a b hab => ?_) h
  cases hab with
  | declare hd =>
    cases hd with
    | info => exact .none
    | teams => exact .none
    | phase _ hl hf => exact .some ⟨hl, hf⟩
  | _ => exact .none

theorem joinPhases_mirrors (policy : Redeclaration) {a b : List (String × List Fixture)}
    (h : List.Forall₂ (fun e f => e.1 = f.1 ∧ List.Forall₂ (Fixture.Mirrors lines) e.2 f.2) a b) :
    (joinPhases policy a).Mirrors (List.Forall₂ (Fixture.Mirrors lines)) (joinPhases policy b) := by
  have hempty : KeyMap.Mirrors (List.Forall₂ (Fixture.Mirrors lines)) .empty .empty := .nil
  refine List.rel_foldl ?_ hempty h
  rintro m n hmn ⟨k, x⟩ ⟨k', y⟩ ⟨hk, hxy⟩
  obtain rfl : k = k' := hk
  refine KeyMap.insertEntry_rel hxy (fun old old' hold => ?_) hmn
  cases policy with
  | lastWins => exact hxy
  | keepFirst => exact hold
  | merge => exact List.rel_append hold hxy

theorem tournament_mirrors (policy : Redeclaration) (h : List.Forall₂ (Step.Mirrors same lines) steps steps') :
    (tournament policy steps).Mirrors lines (tournament policy steps') where
  info := by rw [tournament, tournament, infos_mirrors h]
  teams := teams_mirrors h
  bracket := joinPhases_mirrors policy (phases_mirrors h)

theorem after_mirrors (m : Memory) {a b : Step} (h : Step.Mirrors same lines a b) : m.after a = m.after b := by
  cases h with
  | declare hd =>
    cases hd with
    | info => rfl
    | teams => rfl
    | phase _ hl => simp only [Memory.after, hl]
  | _ => rfl

theorem diagnostics_mirrors (strictness : Strictness) (last last' : Position) (m : Memory) {a b : Step}
    (h : Step.Mirrors same lines a b) : List.Forall₂ (Diagnostic.Mirrors same last last')
      (diagnostics strictness last m a) (diagnostics strictness last' m b) := by
  cases h with
  | take => exact .nil
  | skip context ht =>
    simp only [diagnostics]
    split
    · exact .nil
    · exact .cons (.unexpected context ht) .nil
  | report cause hfound =>
    cases hfound with
    | none => exact .cons (.atEnd cause) .nil
    | some ht => exact .cons (.atToken cause ht) .nil
  | invalid key ht => exact .cons (.invalid key ht) .nil
  | ignore ht hl =>
    simp only [diagnostics, hl]
    split
    · exact .cons (.atToken _ ht) .nil
    · exact .nil
  | declare hd =>
    cases hd with
    | info entries ht hl =>
      simp only [diagnostics]
      split
      · exact .cons (.atToken _ ht) .nil
      · exact .nil
    | teams => exact .nil
    | phase ht hl =>
      simp only [diagnostics, hl]
      split
      · exact .cons (.atToken _ ht) .nil
      · exact .nil

theorem diagnosticsFrom_mirrors (strictness : Strictness) (last last' : Position) (m : Memory)
    (h : List.Forall₂ (Step.Mirrors same lines) steps steps') : List.Forall₂ (Diagnostic.Mirrors same last last')
      (diagnosticsFrom strictness last m steps) (diagnosticsFrom strictness last' m steps') := by
  induction h generalizing m with
  | nil => exact .nil
  | @cons a b steps steps' hab _ ih =>
    rw [diagnosticsFrom, diagnosticsFrom, ← after_mirrors m hab]
    exact List.rel_append (diagnostics_mirrors strictness last last' m hab) (ih _)

end Steps

theorem assemble_mirrors {same : Token → Token → Prop} {lines : UInt32 → UInt32 → Prop} (hm : Mirroring same lines)
    {tokens tokens' : List Token} (h : List.Forall₂ same tokens tokens') (options : Options) :
    (assemble options tokens).tournament.Mirrors lines (assemble options tokens').tournament ∧
      List.Forall₂ (Diagnostic.Mirrors same (Steps.lastPosition tokens) (Steps.lastPosition tokens'))
        (assemble options tokens).diagnostics (assemble options tokens').diagnostics :=
  have hsteps := Document.mirrors_read hm h
  ⟨Steps.tournament_mirrors options.redeclaration hsteps,
    Steps.diagnosticsFrom_mirrors options.strictness _ _ {} hsteps⟩

end Knockout
