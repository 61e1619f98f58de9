import Knockout.Proofs.Turns

/-!
How the readers of a document are put together: what holds of each way to do so holds, by induction, of every reader.
The two numbers tell the credit for reports before and after. A report costs one, and each token that is taken or
skipped gives three.
-/

namespace Knockout

def Cause.isLocal : Cause → Bool
  | missingColon _ | missingOpener _ | missingPhaseOpener _ | missingName _ | missingValue _ | invalidValue .. => true
  | _ => false

theorem Reader.bind_assoc {α β γ : Type} (r : Reader α) (f : α → Reader β) (g : β → Reader γ) :
    (r >>= f) >>= g = r >>= fun x => f x >>= g := by
  apply Reader.ext
  funext tokens
  simp

namespace Document

open Reader

inductive Brief : Nat → Nat → {α : Type} → Reader α → Prop
  | result {m n : Nat} {α : Type} (x : α) : n ≤ m → Brief m n (pure x)
  | take {n : Nat} {accepts : Token → Bool} : (∀ t, t.isBlockKeyword = true → accepts t = false) →
    Brief n n (takeIf accepts)
  | report {n : Nat} {cause : Cause} : cause.isLocal = true → Brief (n + 1) n (report cause)
  | bind {k m n : Nat} {α β : Type} {r : Reader α} {next : α → Reader β} : Brief k m r → (∀ x, Brief m n (next x)) →
    Brief k n (r >>= next)

/-- What declares nothing. It may be the value of a pair, read when the given key and the colon have been taken. -/
inductive Entry : Option Token → Nat → Nat → {α : Type} → Reader α → Prop
  | brief {m n : Nat} {α : Type} {r : Reader α} : Brief m n r → Entry none m n r
  | after {k m n : Nat} {α β : Type} {r : Reader α} {next : α → Reader β} : Brief k m r →
    (∀ x, Entry none m n (next x)) → Entry none k n (r >>= next)
  | map {key : Option Token} {m n : Nat} {α β : Type} {r : Reader α} (f : α → β) : Entry key m n r →
    Entry key m n (r >>= fun x => pure (f x))
  | spare {key : Option Token} {k m n : Nat} {α : Type} {r : Reader α} : Entry key m n r → m ≤ k → Entry key k n r
  | value {n : Nat} (fence : Fence) (accepts : Token → Bool) (key : Token) :
    Entry (some key) (n + 1) n (Document.value fence accepts key)
  | ignored {n : Nat} {α : Type} (fence : Fence) (accepts : Token → Bool) (key : Token) (f : Option String → α) :
    Entry (some key) (n + 2) n (ignore key >>= fun _ => Document.value fence accepts key >>= fun x => pure (f x))
  | bracketed {key : Option Token} {m n : Nat} {α : Type} {content other : Reader α} : Entry none (m + 3) n content →
    Entry key m n other → Entry key m n (takeKind .openBracket >>= fun o => if o.isSome = true then content else other)
  | list {n : Nat} {α : Type} (fence : Fence) (context : Context) {item : Token → Option (Reader α)} :
    (∀ t reader, item t = some reader → Entry none 3 0 reader) → Entry none (n + 1) n (Document.list fence context item)
  | pairs {n : Nat} {α : Type} (fence : Fence) (context : Context) {valueOf : Token → Reader (Option α)} :
    (∀ key, Entry (some key) 6 0 (valueOf key)) → Entry none (n + 1) n (Document.pairs fence context valueOf)
  | fixtures {n : Nat} (keyword : Token) : (∀ t, Entry none 3 0 (fixture t)) →
    Entry none (n + 1) n (phaseFence keyword >>= fun fence =>
      items (phaseTurn keyword fence) (fence.map (.unclosedPhase · keyword.lexeme)))

inductive Closing : Nat → Nat → Reader Unit → Prop
  | result {m n : Nat} : n ≤ m → Closing m n (pure ())
  | declare {n : Nat} (d : Declaration) : Closing (n + 1) n (Reader.declare d)
  | semicolon {m n : Nat} {r : Reader Unit} : Closing m n r → Closing m n (takeKind .semicolon >>= fun _ => r)

inductive Part : Nat → Nat → {α : Type} → Reader α → Prop
  | entry {m n : Nat} {α : Type} {r : Reader α} : Entry none m n r → Part m n r
  | after {k m n : Nat} {α β : Type} {r : Reader α} {next : α → Reader β} : Brief k m r → (∀ x, Part m n (next x)) →
    Part k n (r >>= next)
  | list {n : Nat} {α : Type} (fence : Fence) (context : Context) {item : Token → Option (Reader α)} :
    (∀ t reader, item t = some reader → Part 3 0 reader) → Part (n + 1) n (Document.list fence context item)
  | closed {k m n : Nat} {α : Type} {r : Reader α} {last : α → Reader Unit} : Part k m r →
    (∀ x, Closing m n (last x)) → Part k n (r >>= last)

variable {α β : Type} {n : Nat}

theorem Brief.map {m : Nat} {r : Reader α} (h : Brief m n r) (f : α → β) : Brief m n (r >>= fun x => pure (f x)) :=
  h.bind fun _ => .result _ (Nat.le_refl n)

theorem brief_takeKind {kind : TokenKind} (h : kind ≠ .reserved) : Brief n n (takeKind kind) := by
  apply Brief.take
  intro t ht
  rw [Token.kind_of_isBlockKeyword ht]
  exact decide_eq_false (Ne.symm h)

theorem brief_colonAfter (keyword : Token) : Brief (n + 1) n (colonAfter keyword) := by
  apply (brief_takeKind (by decide)).bind
  intro o
  split
  · exact .report rfl
  · exact .result () (by omega)

theorem brief_name (role : NameRole) : Brief (n + 1) n (name role) := by
  apply (Brief.take fun t ht => Token.isName_eq_false (Token.kind_of_isBlockKeyword ht)).bind
  intro o
  split
  · exact .result _ (by omega)
  · exact Brief.map (.report rfl) _

theorem brief_phaseFence (keyword : Token) : Brief (n + 1) n (phaseFence keyword) := by
  apply (brief_takeKind (by decide)).bind
  intro o
  split
  · exact .result _ (by omega)
  · apply (brief_takeKind (by decide)).bind
    intro o
    split
    · exact .result _ (by omega)
    · exact Brief.map (.report rfl) _

theorem brief_opened (keyword : Token) : Brief (n + 1) n (opened keyword) := by
  apply (brief_takeKind (by decide)).bind
  intro o
  split
  · exact .result _ (by omega)
  · exact Brief.map (.report rfl) _

theorem entry_bracketed {content : Reader (List α)} (h : Entry none (n + 1) n content) :
    Entry none n n (bracketed content) :=
  .bracketed (h.spare (by omega)) (.brief (.result [] (Nat.le_refl n)))

theorem entry_keyword_list (fence : Fence) (context : Context) {accepts : Token → Bool} {entry : Token → Reader α}
    (h : ∀ t, Entry none 3 0 (entry t)) :
    Entry none (n + 1) n (list fence context fun t => if accepts t then some (entry t) else none) := by
  apply Entry.list
  intro t reader hr
  obtain ⟨-, hr⟩ := Option.ite_none_right_eq_some.mp hr
  rw [← Option.some.inj hr]
  exact h t

theorem entry_labelled (fence : Fence) (key : Token) : Entry (some key) (n + 1) n (labelled fence key) :=
  (Entry.value _ _ _).map _

theorem entry_labelled_pairs (fence : Fence) (context : Context) :
    Entry none (n + 1) n (pairs fence context (labelled fence)) :=
  .pairs _ _ fun key => (entry_labelled fence key).spare (by omega)

theorem entry_player (keyword : Token) : Entry none (n + 2) n (player keyword) := by
  apply Entry.after (brief_colonAfter keyword)
  intro _
  apply Entry.after (brief_name _)
  intro _
  exact (entry_bracketed (entry_labelled_pairs _ _)).map _

theorem entry_players : Entry none (n + 1) n (list .bracket .roster fun t =>
    if t.isReserved "jugador" then some (player t) else none) :=
  entry_keyword_list _ _ fun t => (entry_player t).spare (by omega)

theorem entry_team (keyword : Token) : Entry none (n + 2) n (team keyword) := by
  apply Entry.after (brief_colonAfter keyword)
  intro _
  apply Entry.after (brief_name _)
  intro _
  exact (entry_bracketed entry_players).map _

theorem entry_teams : Entry none (n + 1) n (list .brace .teams fun t =>
    if t.isReserved "equipo" then some (team t) else none) :=
  entry_keyword_list _ _ fun t => (entry_team t).spare (by omega)

theorem entry_minute (key : Token) : Entry (some key) (n + 2) n (minute key) := by
  unfold minute
  split
  · exact (Entry.value _ _ _).spare (by omega)
  · exact .ignored _ _ _ fun _ => none

theorem entry_scorer (keyword : Token) : Entry none (n + 2) n (scorer keyword) := by
  apply Entry.after (brief_colonAfter keyword)
  intro _
  apply Entry.after (brief_name _)
  intro _
  apply (entry_bracketed _).map
  exact .pairs _ _ fun key => (entry_minute key).spare (by omega)

theorem entry_scorerItem {t : Token} {reader : Reader (Option Scorer)} (h : scorerItem t = some reader) :
    Entry none (n + 2) n reader := by
  unfold scorerItem at h
  split at h
  case isTrue =>
    obtain rfl := Option.some.inj h
    exact entry_scorer t
  case isFalse =>
    obtain ⟨-, h⟩ := Option.ite_none_right_eq_some.mp h
    obtain rfl := Option.some.inj h
    exact .brief (.result _ (by omega))

theorem entry_scorers (key : Token) : Entry (some key) (n + 1) n (scorers key) := by
  apply Entry.bracketed
  · apply Entry.map
    apply (Entry.list _ _ _).spare
    · omega
    · exact fun t reader hr => (entry_scorerItem hr).spare (by omega)
  · exact (Entry.value _ _ _).map _

theorem entry_fixtureAttribute (key : Token) : Entry (some key) (n + 2) n (fixtureAttribute key) := by
  unfold fixtureAttribute
  split
  · exact ((Entry.value _ _ _).map _).spare (by omega)
  · split
    · exact ((entry_scorers key).map _).spare (by omega)
    · exact .ignored _ _ _ fun _ => none

theorem entry_fixture (keyword : Token) : Entry none (n + 3) n (fixture keyword) := by
  apply Entry.after (brief_colonAfter keyword)
  intro _
  apply Entry.after (brief_name _)
  intro _
  apply Entry.after (brief_takeKind (by decide))
  intro _
  apply Entry.after (brief_name _)
  intro _
  apply (entry_bracketed _).map
  exact .pairs _ _ fun key => (entry_fixtureAttribute key).spare (by omega)

def fixtures (keyword : Token) : Reader (List Fixture) := do
  colonAfter keyword
  let fence ← phaseFence keyword
  let found ← items (phaseTurn keyword fence) (fence.map (.unclosedPhase · keyword.lexeme))
  return found.filterMap id

theorem phase_eq_bind (keyword : Token) :
    phase keyword = fixtures keyword >>= fun found => declare (.phase keyword found) := by
  apply Reader.ext
  funext tokens
  simp [phase, fixtures]

theorem entry_fixtures (keyword : Token) : Entry none (n + 2) n (fixtures keyword) := by
  apply Entry.after (brief_colonAfter keyword)
  intro _
  rw [← Reader.bind_assoc]
  exact (Entry.fixtures keyword entry_fixture).map _

theorem part_phase (keyword : Token) : Part (n + 3) n (phase keyword) := by
  rw [phase_eq_bind]
  exact .closed (.entry (entry_fixtures keyword)) fun _ => .declare _

theorem part_opened (keyword : Token) {content : Reader (List α)} (h : Part 2 1 content) {last : List α → Reader Unit}
    (hl : ∀ xs, Closing 1 0 (last xs)) :
    Part 3 0 (opened keyword >>= fun b => if b = true then
      content >>= fun xs => takeKind .semicolon >>= fun _ => last xs else pure ()) := by
  apply Part.after (brief_opened keyword)
  intro b
  split
  · exact h.closed fun xs => .semicolon (hl xs)
  · exact .entry (.brief (.result () (by omega)))

theorem part_block? {t : Token} {block : Reader Unit} (h : block? t = some block) : Part 3 0 block := by
  rcases block?_eq_some_iff.mp h with ⟨-, rfl⟩ | ⟨-, rfl⟩ | ⟨-, rfl⟩
  · exact part_opened t (.entry (entry_labelled_pairs _ _)) fun _ => .declare _
  · exact part_opened t (.entry entry_teams) fun _ => .declare _
  · have hphases : Part 2 1 phaseList := by
      apply Part.list
      intro t reader hr
      obtain ⟨-, rfl⟩ := item_of_isPhaseKeyword hr
      exact part_phase t
    exact part_opened t hphases fun _ => .result (by omega)

end Document

end Knockout
