import Knockout.Proofs.BracketReading

namespace Knockout

theorem lowered_eq_of_mem_reservedWords {word : String} (h : word ∈ reservedWords) : lowered word = word := by
  have hall : ∀ word ∈ reservedWords, lowered word = word := by decide
  exact hall word h

namespace Grammar

open Reader Document

variable {α β : Type}

theorem isPhaseKeyword_iff {t : Token} (hl : t.IsLexical) :
    isPhaseKeyword t = true ↔ ∃ p : Phase, t.isReserved p.key = true := by
  simp only [isPhaseKeyword, Token.isReserved, Bool.and_eq_true, decide_eq_true_eq, Option.isSome_iff_exists]
  constructor
  · rintro ⟨hk, p, hp⟩
    refine ⟨p, hk, ?_⟩
    rw [Phase.key_of_ofName? hp, lowered_eq_of_mem_reservedWords (hl.1 hk)]
  · rintro ⟨p, hk, hp⟩
    exact ⟨hk, p, hp ▸ Phase.ofName?_key p⟩

theorem phases_reads :
    Reads (list .brace .bracket fun t => if isPhaseKeyword t then some (phase t) else none)
      (Closed .closeBrace (Entries PhaseEntry)) (List.map fun _ => ()) id := by
  refine (list_reads (fun _ => ()) (fun d => [d]) ?_ ?_).congr (fun _ _ _ => rfl) ?_
  · intro t reader hl hr
    split at hr
    case isTrue ht =>
      obtain ⟨p, hp⟩ := (isPhaseKeyword_iff hl).mp ht
      obtain rfl := Option.some.inj hr
      exact phase_reads hp
    case isFalse => cases hr
  · rintro _ _ rest hl ⟨hk, hc, -⟩
    refine ⟨_, _, phase _, rfl, if_pos ?_, by simp [Token.isKey_of_isReserved hk], ?_⟩
    · exact (isPhaseKeyword_iff (lexical_cons.mp hl).1).mpr ⟨_, hk⟩
    · simp [startsBlock, hc]
  · simp

structure ReadsBlock (r : Reader Unit) (keyword : Token) : Prop where
  sound {tokens : List Token} {x : Unit} {ds : List Declaration} {rest : List Token} :
    Lexical tokens → r.Accepts tokens x ds rest → ∃ ts, tokens = ts ++ rest ∧ Block (keyword :: ts) ds
  complete {ts : List Token} {ds : List Declaration} {rest : List Token} :
    Lexical ts → Block (keyword :: ts) ds → (∀ t ∈ rest.head?, t.kind = .reserved) → r.Accepts (ts ++ rest) () ds rest

theorem opened_takesOne (keyword : Token) : (opened keyword).TakesOne (·.kind = .openBrace) fun _ => true := by
  refine takesOne_of fun tokens x ds rest => ?_
  simp only [opened, accepts_takeKind_bind, Option.isSome_some, Option.isSome_none, accepts_pure,
    not_accepts_report_bind, Bool.false_eq_true, ↓reduceIte, and_false, or_false]

theorem AtMostOne.unopened {marker rest : List Token} (h : AtMostOne .semicolon marker)
    (hrest : ∀ t ∈ rest.head?, t.kind = .reserved) : Unopened (marker ++ rest) := by
  intro t ht
  cases h with
  | none => simp [hrest t ht]
  | one hk =>
    cases ht
    simp [hk]

theorem block_reads {keyword : Token} {content : Reader (List α)} {phrase : List Token → List β → Prop}
    {value : List β → List α} {declared : List β → List Declaration} {last : List α → Reader Unit}
    {made : List α → List Declaration} (h : Reads content (Closed .closeBrace phrase) value declared)
    (hlast : ∀ xs tokens x ds rest, (last xs).Accepts tokens x ds rest ↔ ds = made xs ∧ rest = tokens)
    (hblock : ∀ ts ds, Block (keyword :: ts) ds ↔ ∃ body stop ys, ts = body ++ stop ∧ Enclosed .brace phrase body ys ∧
      AtMostOne .semicolon stop ∧ ds = declared ys ++ made (value ys)) :
    ReadsBlock (opened keyword >>= fun b => if b = true then
      content >>= fun xs => takeKind .semicolon >>= fun _ => last xs else pure ()) keyword where
  sound := by
    intro tokens x ds rest hl ha
    obtain ⟨l, tail, rfl, hlk, ha⟩ := (opened_takesOne keyword).bind.mp ha
    obtain ⟨xs, d₁, middle, d₂, hc, hs, rfl⟩ := accepts_bind.mp ha
    obtain ⟨_, ys, rfl, ⟨hb, hr⟩, rfl, rfl⟩ := h.sound (lexical_cons.mp hl).2 hc
    obtain ⟨stop, tail, rfl, hstop, -, hd⟩ := accepts_optional_bind.mp hs
    obtain ⟨rfl, rfl⟩ := (hlast ..).mp hd
    exact ⟨l :: (_ ++ [_]) ++ stop, by simp, (hblock _ _).mpr ⟨_, stop, ys, rfl, .mk hlk hb hr, hstop, rfl⟩⟩
  complete := by
    intro ts ds rest hl hp hrest
    obtain ⟨_, stop, ys, rfl, ⟨hlk, hb, hr⟩, hs, rfl⟩ := (hblock _ _).mp hp
    simp only [lexical_append, lexical_cons] at hl
    rw [List.append_assoc]
    refine (opened_takesOne keyword).bind.mpr ⟨_, _, rfl, hlk, ?_⟩
    refine accepts_bind.mpr ⟨_, _, _, _, h.complete ?_ (.mk hb hr) (hs.unopened hrest), ?_, rfl⟩
    · simpa using hl.1.2
    · refine accepts_optional_bind.mpr ⟨stop, rest, rfl, hs, fun _ t ht => ?_, (hlast ..).mpr ⟨rfl, rfl⟩⟩
      simp [hrest t ht]

theorem infoBlock_reads {keyword : Token} (hk : keyword.isReserved "torneo" = true) :
    ReadsBlock (infoBlock keyword) keyword := by
  refine block_reads (labelled_reads .brace .info) (fun _ _ _ _ _ => accepts_declare) fun ts ds => ?_
  constructor
  · intro hb
    cases hb with
    | info _ he hc hs =>
      obtain rfl := collects_iff.mp hc
      exact ⟨_, _, _, rfl, he, hs, rfl⟩
    | teams hk' => exact absurd (Token.isReserved_unique hk hk') (by decide)
    | bracket hk' => exact absurd (Token.isReserved_unique hk hk') (by decide)
  · rintro ⟨_, _, _, rfl, he, hs, rfl⟩
    exact .info hk he (collects_iff.mpr rfl) hs

theorem teams_reads :
    Reads (list .brace .teams fun t => if t.isReserved "equipo" then some (team t) else none)
      (Closed .closeBrace (Entries TeamEntry)) (List.map some) fun _ => [] :=
  keyword_list_reads (by decide) (fun _ ht => team_reads ht) TeamEntry.begins

theorem teamsBlock_reads {keyword : Token} (hk : keyword.isReserved "equipos" = true) :
    ReadsBlock (teamsBlock keyword) keyword := by
  refine block_reads teams_reads (fun _ _ _ _ _ => accepts_declare) fun ts ds => ?_
  constructor
  · intro hb
    cases hb with
    | info hk' => exact absurd (Token.isReserved_unique hk hk') (by decide)
    | teams _ he hs => exact ⟨_, _, _, rfl, he, hs, by simp⟩
    | bracket hk' => exact absurd (Token.isReserved_unique hk hk') (by decide)
  · rintro ⟨_, _, _, rfl, he, hs, rfl⟩
    simpa using Block.teams hk he hs

theorem bracketBlock_reads {keyword : Token} (hk : keyword.isReserved "eliminacion" = true) :
    ReadsBlock (bracketBlock keyword) keyword := by
  have hlast (_ : List Unit) (tokens : List Token) (x : Unit) (ds : List Declaration) (rest : List Token) :
      (pure () : Reader Unit).Accepts tokens x ds rest ↔ ds = [] ∧ rest = tokens := by simp [accepts_pure]
  refine block_reads phases_reads hlast fun ts ds => ?_
  constructor
  · intro hb
    cases hb with
    | info hk' => exact absurd (Token.isReserved_unique hk hk') (by decide)
    | teams hk' => exact absurd (Token.isReserved_unique hk hk') (by decide)
    | bracket _ he hs => exact ⟨_, _, _, rfl, he, hs, by simp⟩
  · rintro ⟨_, _, _, rfl, he, hs, rfl⟩
    simpa using Block.bracket hk he hs

theorem block?_reads {t : Token} {r : Reader Unit} (h : block? t = some r) : ReadsBlock r t := by
  rcases block?_eq_some_iff.mp h with ⟨hk, rfl⟩ | ⟨hk, rfl⟩ | ⟨hk, rfl⟩
  · exact infoBlock_reads hk
  · exact teamsBlock_reads hk
  · exact bracketBlock_reads hk

theorem Block.begins {ts : List Token} {ds : List Declaration} (h : Block ts ds) :
    ∃ t tail r, ts = t :: tail ∧ block? t = some r ∧ t.kind = .reserved := by
  cases h with
  | info hk => exact ⟨_, _, _, rfl, block?_eq_some_iff.mpr (.inl ⟨hk, rfl⟩), Token.kind_of_isReserved hk⟩
  | teams hk => exact ⟨_, _, _, rfl, block?_eq_some_iff.mpr (.inr (.inl ⟨hk, rfl⟩)), Token.kind_of_isReserved hk⟩
  | bracket hk => exact ⟨_, _, _, rfl, block?_eq_some_iff.mpr (.inr (.inr ⟨hk, rfl⟩)), Token.kind_of_isReserved hk⟩

theorem Blocks.head_reserved {tokens : List Token} {ds : List Declaration} (h : Blocks tokens ds) :
    ∀ t ∈ tokens.head?, t.kind = .reserved := by
  cases h with
  | nil => nofun
  | block hb _ =>
    obtain ⟨t, tail, r, rfl, -, hk⟩ := hb.begins
    rintro _ ⟨⟩
    exact hk

theorem blocks_of_accepts {tokens rest : List Token} {xs : List Unit} {ds : List Declaration} (hl : Lexical tokens)
    (h : (items documentTurn none).Accepts tokens xs ds rest) : Blocks tokens ds := by
  induction hn : tokens.length using Nat.strongRecOn generalizing tokens xs ds with
  | ind n ih =>
    cases tokens with
    | nil =>
      obtain ⟨-, -, rfl, -⟩ := accepts_items_nil.mp h
      exact .nil
    | cons t tail =>
      rw [lexical_cons] at hl
      cases hb : block? t with
      | none =>
        have ht : documentTurn t tail = .drop .document := by simp [documentTurn, hb]
        exact absurd h (accepts_items_drop ht)
      | some r =>
        have ht : documentTurn t tail = .enter r := by simp [documentTurn, hb]
        obtain ⟨x, d, middle, xs, ds, hi, hm, rfl, rfl⟩ := (accepts_items_enter ht).mp h
        obtain ⟨ts, rfl, hp⟩ := (block?_reads hb).sound hl.2 hi
        have hlt : middle.length < n := by
          rw [← hn, List.length_cons, List.length_append]
          omega
        exact .block hp (ih middle.length hlt (lexical_append.mp hl.2).2 hm rfl)

theorem accepts_of_blocks {tokens : List Token} {ds : List Declaration} (hl : Lexical tokens) (h : Blocks tokens ds) :
    ∃ xs, (items documentTurn none).Accepts tokens xs ds [] := by
  induction h with
  | nil => exact ⟨[], accepts_items_nil.mpr ⟨rfl, rfl, rfl, rfl⟩⟩
  | @block ts rest _ _ hb hrest ih =>
    rw [lexical_append] at hl
    obtain ⟨xs, ha⟩ := ih hl.2
    obtain ⟨t, tail, r, rfl, hr, -⟩ := hb.begins
    have ht : documentTurn t (tail ++ rest) = .enter r := by simp [documentTurn, hr]
    have hi := (block?_reads hr).complete (lexical_cons.mp hl.1).2 hb hrest.head_reserved
    exact ⟨_, (accepts_items_enter ht).mpr ⟨_, _, _, _, _, hi, ha, rfl, rfl⟩⟩

theorem blocks_iff {tokens : List Token} {ds : List Declaration} (hl : Lexical tokens) :
    Blocks tokens ds ↔ Silent (read tokens) ∧ declarations (read tokens) = ds := by
  constructor
  · intro h
    obtain ⟨xs, -, -, hs, hd⟩ := accepts_of_blocks hl h
    exact ⟨hs, hd⟩
  · rintro ⟨hs, hd⟩
    exact blocks_of_accepts hl ⟨rfl, rfl, hs, hd⟩

end Grammar

end Knockout
