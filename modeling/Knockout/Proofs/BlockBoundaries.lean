import Knockout.Assembly
import Knockout.Proofs.Interruption
import Knockout.Proofs.Turns

namespace Knockout

namespace Document

open Reader

variable {α : Type}

theorem staysAtBlocks_semicolon : (takeKind .semicolon).StaysAtBlocks := by
  intro t rest h
  simp [takeKind, takeIf, kind_of_startsBlock h]

theorem listTurn_yields (fence : Fence) (context : Context) {item : Token → Option (Reader α)}
    (h : ∀ t reader, item t = some reader → reader.HandsUp) : Yields (listTurn fence context item) where
  leaves hs := ⟨_, listTurn_eq_leave_iff.mpr ⟨rfl, hs⟩⟩
  stops := by
    intro t u rest remaining cause ht hc
    obtain ⟨he, hs⟩ := listTurn_eq_leave_iff.mp ht
    obtain rfl := Option.some.inj he
    exact ⟨(Option.some.inj hc).symm, hs⟩
  enters := by
    intro t rest reader ht
    exact h t reader (item_of_listTurn_eq_enter ht)

theorem handsUp_list (fence : Fence) (context : Context) {item : Token → Option (Reader α)}
    (h : ∀ t reader, item t = some reader → reader.HandsUp) : (list fence context item).HandsUp :=
  (listTurn_yields fence context h).handsUp_items _

theorem handsUp_pairs (fence : Fence) (context : Context) {valueOf : Token → Reader (Option α)}
    (h : ∀ key, (valueOf key).HandsUp) : (pairs fence context valueOf).HandsUp := by
  apply (handsUp_list fence context _).map
  intro key reader hr
  obtain ⟨-, hr⟩ := Option.ite_none_right_eq_some.mp hr
  rw [← Option.some.inj hr]
  apply (emits_takeIf_isLocal _).uninterrupted.bind_handsUp
  intro o
  split
  · exact h key
  · exact ((emits_report fun _ => rfl).bind fun _ => (emits_takeIf_isLocal _).map _).uninterrupted.handsUp

theorem phaseTurn_yields (keyword : Token) (fence : Option Fence) (h : ∀ t, (fixture t).HandsUp) :
    Yields (phaseTurn keyword fence) where
  leaves hs := ⟨_, phaseTurn_of_startsBlock keyword fence hs⟩
  stops := by
    intro t u rest remaining cause ht hc
    have hv := phaseTurn_view keyword fence t rest
    rw [ht] at hv
    cases hv with
    | leave _ h =>
      obtain ⟨hu, hb⟩ := hc
      obtain rfl := Option.some.inj hu
      refine ⟨rfl, ?_⟩
      simpa [Token.kind_of_isBlockKeyword hb, isPhaseKeyword_eq_false hb] using h
  enters := by
    intro t rest item ht
    obtain ⟨-, rfl⟩ := phaseTurn_eq_enter_iff.mp ht
    exact h t

variable {m n : Nat} {r : Reader α}

theorem Brief.uninterrupted (h : Brief m n r) : r.Uninterrupted := h.emits.uninterrupted

theorem Entry.handsUp {key : Option Token} (h : Entry key m n r) : r.HandsUp := by
  induction h with
  | brief h => exact h.uninterrupted.handsUp
  | after h _ ih => exact h.uninterrupted.bind_handsUp ih
  | map f _ ih => exact ih.map f
  | spare _ _ ih => exact ih
  | value => exact (emits_value _ _ _).uninterrupted.handsUp
  | ignored => exact ((emits_ignore trivial).bind fun _ => (emits_value _ _ _).map _).uninterrupted.handsUp
  | bracketed _ _ ih ih' =>
    apply (brief_takeKind (n := 0) (by decide)).uninterrupted.bind_handsUp
    intro o
    split
    · exact ih
    · exact ih'
  | list fence context _ ih => exact handsUp_list fence context ih
  | pairs fence context _ ih => exact handsUp_pairs fence context ih
  | fixtures keyword _ ih =>
    apply (brief_phaseFence (n := 0) keyword).uninterrupted.bind_handsUp
    exact fun fence => (phaseTurn_yields keyword fence ih).handsUp_items _

theorem Closing.handsUp {r : Reader Unit} (h : Closing m n r) : r.HandsUp ∧ r.StaysAtBlocks := by
  induction h with
  | result => exact ⟨(emits_pure ()).uninterrupted.handsUp, staysAtBlocks_pure ()⟩
  | declare d => exact ⟨handsUp_declare d, staysAtBlocks_declare d⟩
  | semicolon _ ih =>
    constructor
    · exact (brief_takeKind (n := 0) (by decide)).uninterrupted.bind_handsUp fun _ => ih.1
    · exact staysAtBlocks_semicolon.bind fun _ => ih.2

theorem Part.handsUp (h : Part m n r) : r.HandsUp := by
  induction h with
  | entry h => exact h.handsUp
  | after h _ ih => exact h.uninterrupted.bind_handsUp ih
  | list fence context _ ih => exact handsUp_list fence context ih
  | closed _ hlast ih => exact ih.bind (fun x => (hlast x).handsUp.1) fun x => (hlast x).handsUp.2

theorem read_of_block {t : Token} {block : Reader Unit} (h : block? t = some block) (rest : List Token) :
    read (t :: rest) = .take t :: ((block.run rest).steps ++ read (block.run rest).rest) := by
  change (itemsFrom documentTurn none (t :: rest)).steps = _
  have ht : documentTurn t rest = .enter block := by simp [documentTurn, h]
  simp only [itemsFrom, ht]
  rfl

theorem read_of_no_block {t : Token} (h : block? t = none) (rest : List Token) :
    read (t :: rest) = .skip t .document :: read rest := by
  change (itemsFrom documentTurn none (t :: rest)).steps = _
  have ht : documentTurn t rest = .drop .document := by simp [documentTurn, h]
  simp only [itemsFrom, ht]
  rfl

theorem read_resumes {tokens : List Token} {before after : List Step} {step : Step} {t : Token}
    (h : read tokens = before ++ step :: after) (hc : step.Stops t (consumed after)) :
    ∃ quiet rest, startsBlock t rest = true ∧ consumed quiet = [] ∧ after = quiet ++ read (t :: rest) := by
  induction hn : tokens.length using Nat.strongRecOn generalizing tokens before with
  | ind n ih =>
    cases tokens with
    | nil =>
      have he : read [] = [] := by simp [read, items, itemsFrom]
      rw [he] at h
      cases before <;> cases h
    | cons u tail =>
      cases hb : block? u with
      | none =>
        rw [read_of_no_block hb] at h
        cases before with
        | nil =>
          obtain ⟨rfl, -⟩ := List.cons.inj h
          exact hc.elim
        | cons first before => exact ih tail.length (by simp [← hn]) (List.cons.inj h).2 rfl
      | some block =>
        rw [read_of_block hb] at h
        cases before with
        | nil =>
          obtain ⟨rfl, -⟩ := List.cons.inj h
          exact hc.elim
        | cons first before =>
          rcases cons_of_append_eq (List.cons.inj h).2 with ⟨middle, hm, rfl⟩ | ⟨middle, -, hm⟩
          · rw [consumed_append, consumed_read] at hc
            obtain ⟨rest, hrest, hs, hquiet⟩ := (part_block? hb).handsUp _ _ _ _ _ hm hc
            exact ⟨middle, rest, hs, hquiet, by rw [hrest]⟩
          · have hlt : (block.run tail).rest.length < n := by
              have := block.rest_length tail
              rw [← hn, List.length_cons]
              omega
            exact ih (block.run tail).rest.length hlt hm rfl

end Document

/-- The steps of a reading that reaches the end of the tokens, whatever lists it leaves on the way. -/
structure ReadsThrough (steps : List Step) (tokens : List Token) : Prop where
  consumes : consumed steps = tokens
  resumes {before after : List Step} {step : Step} {t : Token} :
    steps = before ++ step :: after → step.Stops t (consumed after) →
      ∃ quiet rest block, Document.block? t = some block ∧ consumed quiet = [] ∧ after =
        quiet ++ .take t :: ((block.run rest).steps ++ Document.read (block.run rest).rest)

theorem read_readsThrough (tokens : List Token) : ReadsThrough (Document.read tokens) tokens where
  consumes := Document.consumed_read tokens
  resumes := by
    intro before after step t h hc
    obtain ⟨quiet, rest, hs, hquiet, rfl⟩ := Document.read_resumes h hc
    obtain ⟨block, hb⟩ := Document.exists_block hs
    exact ⟨quiet, rest, block, hb, hquiet, by rw [Document.read_of_block hb]⟩

structure Document.LoopsEnd : Prop where
  document (tokens : List Token) : Reader.Ends documentTurn tokens []
  list {α : Type} (fence : Fence) (context : Context) (item : Token → Option (Reader α)) (here : List Token) :
    Reader.Ends (listTurn fence context item) here ((Document.list fence context item).run here).rest
  phase (keyword : Token) (fence : Option Fence) (unfinished : Option Cause) (here : List Token) :
    Reader.Ends (phaseTurn keyword fence) here ((Reader.items (phaseTurn keyword fence) unfinished).run here).rest

theorem Document.loopsEnd : LoopsEnd where
  document tokens := by
    rw [← rest_documentTurn tokens]
    exact Reader.items_ends _ none tokens
  list fence context item here := by
    rw [list]
    exact Reader.items_ends _ _ here
  phase keyword fence unfinished here := Reader.items_ends _ unfinished here

/--
Every reading ends, at the end of the tokens, and so does every loop within it; and a list that stops at the start of
a block leaves the block to the document.
-/
theorem assemble_reads_through (options : Options) (tokens : List Token) :
    Document.LoopsEnd ∧ ∃ steps, ReadsThrough steps tokens ∧ assemble options tokens =
      ⟨Steps.tournament options.redeclaration steps,
        Steps.diagnosticsFrom options.strictness (Steps.lastPosition tokens) {} steps⟩ :=
  ⟨Document.loopsEnd, Document.read tokens, read_readsThrough tokens, rfl⟩

end Knockout
