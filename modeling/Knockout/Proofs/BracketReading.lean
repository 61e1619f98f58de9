import Knockout.Proofs.EntryReading

namespace Knockout.Grammar

open Reader Document

variable {α β : Type}

theorem accepts_optional_bind {kind : TokenKind} {next : Reader β} {tokens rest : List Token} {y : β}
    {ds : List Declaration} :
    (takeKind kind >>= fun _ => next).Accepts tokens y ds rest ↔
      ∃ marker tail, tokens = marker ++ tail ∧ AtMostOne kind marker ∧
        (marker = [] → ∀ t ∈ tail.head?, t.kind ≠ kind) ∧ next.Accepts tail y ds rest := by
  rw [accepts_takeKind_bind]
  constructor
  · rintro (⟨t, tail, rfl, ht, hn⟩ | ⟨ht, hn⟩)
    · exact ⟨[t], tail, rfl, .one ht, nofun, hn⟩
    · exact ⟨[], tokens, rfl, .none, fun _ => ht, hn⟩
  · rintro ⟨marker, tail, rfl, hm, ht, hn⟩
    cases hm with
    | none => exact .inr ⟨ht rfl, hn⟩
    | one hk => exact .inl ⟨_, tail, rfl, hk, hn⟩

theorem isReserved_iff_lexeme {t : Token} {word : String} (hl : t.IsLexical) (hk : t.isKey = true)
    (hw : word ∈ reservedWords) : t.isReserved word = true ↔ t.lexeme = word := by
  constructor
  · intro h
    simp_all [Token.isReserved]
  · rintro rfl
    have hi : t.kind ≠ .identifier := fun h => hl.2 h hw
    simp_all [Token.isReserved, Token.isKey]

inductive Scored : List Token → List Scorer → Prop
  | name {name : Token} : name.isName = true → Scored [name] [⟨name.lexeme, none⟩]
  | list {ts : List Token} {scorers : List Scorer} :
    Enclosed .bracket (Entries ScorerEntry) ts scorers → Scored ts scorers

theorem scorers_reads (key : Token) : Reads (scorers key) Scored id fun _ => [] where
  sound := by
    intro tokens x ds rest hl ha
    rcases accepts_takeKind_bind.mp ha with ⟨l, tail, rfl, hlk, ha⟩ | ⟨-, ha⟩
    · rw [lexical_cons] at hl
      obtain ⟨_, ss, rfl, ⟨hb, hr⟩, rfl, rfl⟩ := (scorerList_reads.map_pure (List.filterMap id)).sound hl.2 ha
      exact ⟨_, ss, rfl, .list (.mk hlk hb hr), by simp, rfl⟩
    · obtain ⟨name, tail, rfl, hn, ha⟩ := (value_takesOne .bracket Token.isName key).bind.mp ha
      obtain ⟨rfl, rfl, rfl⟩ := accepts_pure.mp ha
      exact ⟨[name], _, rfl, .name hn, rfl, rfl⟩
  complete := by
    intro ts ss rest hl hs hu
    cases hs with
    | @name name hn =>
      have hk : name.kind ≠ .openBracket := by
        rintro h
        simp [Token.isName, h] at hn
      refine accepts_takeKind_bind.mpr (.inr ⟨by simpa using hk, ?_⟩)
      exact (value_takesOne .bracket Token.isName key).bind.mpr ⟨name, rest, rfl, hn, accepts_pure.mpr ⟨rfl, rfl, rfl⟩⟩
    | list h =>
      obtain ⟨hlk, hb, hr⟩ := h
      refine accepts_takeKind_bind.mpr (.inl ⟨_, _, rfl, hlk, ?_⟩)
      have hc := (scorerList_reads.map_pure (List.filterMap id)).complete (lexical_cons.mp hl).2 (.mk hb hr) hu
      simpa using hc

theorem fixtureAttribute_reads {key colon : Token} (hl : key.IsLexical) (hk : key.isKey = true)
    (hc : colon.kind = .colon) :
    Reads (fixtureAttribute key) (fun ts a => AttributeEntry (key :: colon :: ts) a) id fun _ => [] := by
  have hresult := isReserved_iff_lexeme hl hk (show "resultado" ∈ reservedWords by decide)
  have hscorers := isReserved_iff_lexeme hl hk (show "goleadores" ∈ reservedWords by decide)
  unfold fixtureAttribute
  split
  case isTrue hr =>
    refine ((value_reads hk hc).map_pure _).image (fun p => some (.result p.2.lexeme)) ?_ (fun _ => rfl) fun _ => rfl
    rw [← hresult] at hr
    intro ts a
    constructor
    · rintro (⟨-, -, hv⟩ | ⟨hs, -, -⟩ | ⟨hs, -, -⟩ | ⟨-, hs, -⟩)
      · exact ⟨_, .mk hk hc hv, rfl⟩
      · exact absurd (Token.isReserved_unique hr hs) (by decide)
      · exact absurd (Token.isReserved_unique hr hs) (by decide)
      · simp [hr] at hs
    · rintro ⟨_, ⟨-, -, hv⟩, rfl⟩
      exact .result hr hc hv
  case isFalse hr =>
    rw [← hresult] at hr
    split
    case isTrue hs =>
      rw [← hscorers] at hs
      refine ((scorers_reads key).map_pure _).image (fun ss => some (.scorers ss)) ?_ (fun _ => rfl) fun _ => rfl
      intro ts a
      constructor
      · rintro (⟨hr', -, -⟩ | ⟨-, -, hn⟩ | ⟨-, -, he⟩ | ⟨-, -, hs', -⟩)
        · exact absurd hr' hr
        · exact ⟨_, .name hn, rfl⟩
        · exact ⟨_, .list he, rfl⟩
        · simp [hs] at hs'
      · rintro ⟨_, hn | he, rfl⟩
        · exact .scorer hs hc hn
        · exact .scorers hs hc he
    case isFalse hs =>
      rw [← hscorers] at hs
      refine (((value_reads hk hc).map_pure fun _ => none).ignore).image (fun _ => none) ?_ (fun _ => rfl) fun _ => rfl
      intro ts a
      constructor
      · rintro (⟨hr', -, -⟩ | ⟨hs', -, -⟩ | ⟨hs', -, -⟩ | ⟨-, -, -, -, hv⟩)
        · exact absurd hr' hr
        · exact absurd hs' hs
        · exact absurd hs' hs
        · exact ⟨_, .mk hk hc hv, rfl⟩
      · rintro ⟨_, ⟨-, -, hv⟩, rfl⟩
        exact .other hk (by simpa using hr) (by simpa using hs) hc hv

theorem AttributeEntry.keyed (ts : List Token) (a : Option FixtureAttribute) (h : AttributeEntry ts a) :
    ∃ key colon tail, ts = key :: colon :: tail ∧ key.isKey = true ∧ colon.kind = .colon := by
  rcases h with ⟨hk, hc, -⟩ | ⟨hk, hc, -⟩ | ⟨hk, hc, -⟩ | ⟨hk, -, -, hc, -⟩
  · exact ⟨_, _, _, rfl, Token.isKey_of_isReserved hk, hc⟩
  · exact ⟨_, _, _, rfl, Token.isKey_of_isReserved hk, hc⟩
  · exact ⟨_, _, _, rfl, Token.isKey_of_isReserved hk, hc⟩
  · exact ⟨_, _, _, rfl, hk, hc⟩

theorem lastResult?_eq (attributes : List (Option FixtureAttribute)) :
    lastResult? attributes = ((attributes.filterMap id).filterMap FixtureAttribute.result?).getLast? := by
  rw [lastResult?, List.filterMap_filterMap]
  congr 2
  funext a
  rcases a with _ | _ | _ <;> rfl

theorem allScorers_eq (attributes : List (Option FixtureAttribute)) :
    allScorers attributes = (attributes.filterMap id).flatMap FixtureAttribute.scorerList := by
  induction attributes with
  | nil => rfl
  | cons a rest ih =>
    rw [allScorers, List.flatMap_cons, ← allScorers, ih]
    rcases a with _ | _ | _ <;> rfl

theorem fixture_reads {keyword : Token} (hk : keyword.isReserved "partido" = true) :
    Reads (fixture keyword) (fun ts f => FixtureEntry (keyword :: ts) f) some fun _ => [] := by
  have hpairs : Reads (pairs .bracket .fixture fixtureAttribute) _ _ _ :=
    pairs_reads id AttributeEntry.keyed fun key colon hl hk hc => fixtureAttribute_reads hl hk hc
  have hattributes := bracketed_reads hpairs rfl
  constructor
  · intro tokens x ds rest hl ha
    obtain ⟨colon, tail, rfl, hc, ha⟩ := (colonAfter_takesOne keyword).bind.mp ha
    obtain ⟨home, tail, rfl, hh, ha⟩ := (name_takesOne .firstTeam).bind.mp ha
    obtain ⟨marker, tail, rfl, hm, -, ha⟩ := accepts_optional_bind.mp ha
    obtain ⟨away, tail, rfl, hw, ha⟩ := (name_takesOne .secondTeam).bind.mp ha
    simp only [lexical_cons, lexical_append] at hl
    obtain ⟨ts, attributes, rfl, hts, rfl, rfl⟩ := (hattributes.map_pure _).sound hl.2.2.2.2 ha
    refine ⟨colon :: home :: (marker ++ away :: ts), _, by simp, .mk hk hc hh hm hw hts, ?_, rfl⟩
    rw [lastResult?_eq, allScorers_eq]
    rfl
  · intro ts f rest hl hf hu
    obtain ⟨-, hc, hh, hm, hw, hts⟩ := hf
    simp only [lexical_cons, lexical_append] at hl
    refine (colonAfter_takesOne keyword).bind.mpr ⟨_, _, rfl, hc, ?_⟩
    refine (name_takesOne .firstTeam).bind.mpr ⟨_, _, rfl, hh, ?_⟩
    refine accepts_optional_bind.mpr ⟨_, _, List.append_assoc .., hm, fun _ => ?_, ?_⟩
    · intro t ht h
      cases ht
      simp [Token.isName, h] at hw
    · refine (name_takesOne .secondTeam).bind.mpr ⟨_, _, rfl, hw, ?_⟩
      rw [lastResult?_eq, allScorers_eq]
      exact (hattributes.map_pure _).complete hl.2.2.2.2 hts hu

theorem FixtureEntry.begins {ts : List Token} {f : Fixture} (h : FixtureEntry ts f) :
    ∃ t tail, ts = t :: tail ∧ t.isReserved "partido" = true := by
  obtain ⟨hk, -⟩ := h
  exact ⟨_, _, rfl, hk⟩

theorem accepts_phaseFence_bind {keyword : Token} {next : Option Fence → Reader β} {tokens rest : List Token} {y : β}
    {ds : List Declaration} :
    (phaseFence keyword >>= next).Accepts tokens y ds rest ↔
      ∃ (fence : Fence) (l : Token) (tail : List Token), tokens = l :: tail ∧ l.kind = fence.opener ∧
        (next (some fence)).Accepts tail y ds rest := by
  rw [accepts_bind]
  constructor
  · rintro ⟨x, d₁, middle, d₂, hf, hn, rfl⟩
    rcases accepts_takeKind_bind.mp hf with ⟨l, tail, rfl, hl, hf⟩ | ⟨-, hf⟩
    · obtain ⟨rfl, rfl, rfl⟩ := accepts_pure.mp hf
      exact ⟨.bracket, l, _, rfl, hl, hn⟩
    · rcases accepts_takeKind_bind.mp hf with ⟨l, tail, rfl, hl, hf⟩ | ⟨-, hf⟩
      · obtain ⟨rfl, rfl, rfl⟩ := accepts_pure.mp hf
        exact ⟨.brace, l, _, rfl, hl, hn⟩
      · exact absurd hf not_accepts_report_bind
  · rintro ⟨fence, l, tail, rfl, hl, hn⟩
    refine ⟨some fence, [], tail, ds, ?_, hn, rfl⟩
    cases fence with
    | bracket => exact accepts_takeKind_bind.mpr (.inl ⟨l, tail, rfl, hl, accepts_pure.mpr ⟨rfl, rfl, rfl⟩⟩)
    | brace =>
      have hb : l.kind ≠ .openBracket := by simp [hl, Fence.opener]
      refine accepts_takeKind_bind.mpr (.inr ⟨by simpa using hb, ?_⟩)
      exact accepts_takeKind_bind.mpr (.inl ⟨l, tail, rfl, hl, accepts_pure.mpr ⟨rfl, rfl, rfl⟩⟩)

theorem phaseTurn_chooses (keyword : Token) (fence : Fence) :
    Chooses (phaseTurn keyword (some fence)) fence.closer FixtureEntry some fun _ => [] where
  finish := phaseTurn_eq_finish_iff
  pass := phaseTurn_eq_pass_iff
  leave := by
    intro t rest h
    cases cause_of_phaseTurn h
  enter := by
    intro t rest item _ h
    obtain ⟨hk, rfl⟩ := phaseTurn_eq_enter_iff.mp h
    exact fixture_reads hk
  begins := by
    intro ts f rest _ hf
    obtain ⟨t, tail, rfl, hk⟩ := hf.begins
    refine ⟨t, tail, fixture t, rfl, phaseTurn_eq_enter_iff.mpr ⟨hk, rfl⟩, ?_⟩
    simp [Token.kind_of_isReserved hk]

theorem phase_reads {keyword : Token} {p : Phase} (hk : keyword.isReserved p.key = true) :
    Reads (phase keyword) (fun ts d => PhaseEntry (keyword :: ts) d) (fun _ => ()) fun d => [d] := by
  have hitems (fence : Fence) := items_reads (phaseTurn_chooses keyword fence) fence.closer_ne_openBracket
    (.unclosedPhase fence keyword.lexeme)
  constructor
  · intro tokens x ds rest hl ha
    obtain ⟨colon, tail, rfl, hc, ha⟩ := (colonAfter_takesOne keyword).bind.mp ha
    obtain ⟨fence, l, tail, rfl, hlk, ha⟩ := accepts_phaseFence_bind.mp ha
    obtain ⟨_, d₁, middle, d₂, hi, hd, rfl⟩ := accepts_bind.mp ha
    obtain ⟨rfl, rfl⟩ := accepts_declare.mp hd
    simp only [lexical_cons] at hl
    obtain ⟨_, fs, rfl, ⟨hb, hr⟩, rfl, rfl⟩ := (hitems fence).sound hl.2.2 hi
    exact ⟨_, _, rfl, .mk hk hc (.mk hlk hb hr), rfl, by simp⟩
  · rintro _ _ rest hl ⟨-, hc, hlk, hb, hr⟩ hu
    refine (colonAfter_takesOne keyword).bind.mpr ⟨_, _, rfl, hc, ?_⟩
    refine accepts_phaseFence_bind.mpr ⟨_, _, _, rfl, hlk, ?_⟩
    simp only [lexical_cons] at hl
    have hi := (hitems _).complete hl.2.2 (.mk hb hr) hu
    refine accepts_bind.mpr ⟨_, _, _, [.phase keyword _], hi, accepts_declare.mpr ⟨rfl, rfl⟩, ?_⟩
    simp

end Knockout.Grammar
