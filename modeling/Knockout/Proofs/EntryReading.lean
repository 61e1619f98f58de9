import Knockout.Proofs.GrammarReading

namespace Knockout.Grammar

open Reader Document

theorem lastValue?_eq (pairs : List (Token × Token)) (key : String) :
    lastValue? pairs key =
      ((pairs.map fun p => (p.1.lexeme, p.2.lexeme)).filter fun e => e.1 = key).getLast?.map Prod.snd := by
  simp [lastValue?, List.filter_map, List.getLast?_map, Function.comp_def]

theorem collects_iff {pairs : List (Token × Token)} {m : KeyMap String} :
    Collects pairs m ↔ m = .ofList (pairs.map fun p => (p.1.lexeme, p.2.lexeme)) := by
  constructor
  · intro h
    apply KeyMap.ext_find?
    intro key
    rw [h, lastValue?_eq, KeyMap.find?_ofList]
  · rintro rfl key
    rw [lastValue?_eq, KeyMap.find?_ofList]

theorem Pair.keyed (ts : List Token) (p : Token × Token) (h : Pair ts p) :
    ∃ key colon tail, ts = key :: colon :: tail ∧ key.isKey = true ∧ colon.kind = .colon := by
  obtain ⟨hk, hc, -⟩ := h
  exact ⟨_, _, _, rfl, hk, hc⟩

theorem Pair.key_eq {key colon : Token} {ts : List Token} {p : Token × Token} (h : Pair (key :: colon :: ts) p) :
    p.1 = key := by
  cases h
  rfl

theorem value_reads {fence : Fence} {key colon : Token} (hk : key.isKey = true) (hc : colon.kind = .colon) :
    Reads (Document.value fence Token.isValue key) (fun ts p => Pair (key :: colon :: ts) p)
      (fun p => some p.2.lexeme) fun _ => [] where
  sound := by
    intro tokens x ds rest _ ha
    obtain ⟨v, rfl, hv, rfl, rfl⟩ := (value_takesOne fence Token.isValue key ..).mp ha
    exact ⟨[v], (key, v), rfl, .mk hk hc hv, rfl, rfl⟩
  complete := by
    intro ts p rest _ hp _
    obtain ⟨-, -, hv⟩ := hp
    exact (value_takesOne fence Token.isValue key ..).mpr ⟨_, rfl, hv, rfl, rfl⟩

theorem labelled_reads (fence : Fence) (context : Context) :
    Reads (pairs fence context (labelled fence)) (Closed fence.closer (Entries Pair))
      (List.map fun p => (p.1.lexeme, p.2.lexeme)) fun _ => [] := by
  let f : Token × Token → Option (String × String) := fun p => some (p.1.lexeme, p.2.lexeme)
  have h : Reads (pairs fence context (labelled fence)) _ _ _ := pairs_reads f Pair.keyed fun key colon _ hk hc =>
    ((value_reads hk hc).map_pure _).congr (fun ts p hp => by rw [← hp.key_eq]; rfl) fun _ => rfl
  exact h.congr (fun _ ys _ => by simp [f]) fun _ => rfl

theorem attributes_reads (context : Context) :
    Reads (bracketed (pairs .bracket context (labelled .bracket))) (Optionally (Enclosed .bracket (Entries Pair)))
      (List.map fun p => (p.1.lexeme, p.2.lexeme)) fun _ => [] :=
  bracketed_reads (labelled_reads .bracket context) rfl

inductive Named {β : Type} (part : List Token → List β → Prop) : List Token → Token × List β → Prop
  | mk {colon name : Token} {ts : List Token} {ys : List β} :
    colon.kind = .colon → name.isName = true → part ts ys → Named part (colon :: name :: ts) (name, ys)

theorem named_reads {α β γ : Type} {keyword : Token} {role : NameRole} {content : Reader (List α)}
    {part : List Token → List β → Prop} {value : List β → List α} (h : Reads content part value fun _ => [])
    (f : Option String → List α → γ) :
    Reads (do
      colonAfter keyword
      let n ← Document.name role
      let xs ← content
      pure (f n xs)) (Named part) (fun y => f (some y.1.lexeme) (value y.2)) fun _ => [] where
  sound := by
    intro tokens x ds rest hl ha
    obtain ⟨colon, tail, rfl, hc, ha⟩ := (colonAfter_takesOne keyword).bind.mp ha
    obtain ⟨n, tail, rfl, hn, ha⟩ := (name_takesOne role).bind.mp ha
    simp only [lexical_cons] at hl
    obtain ⟨ts, ys, rfl, hts, rfl, rfl⟩ := (h.map_pure (f (some n.lexeme))).sound hl.2.2 ha
    exact ⟨colon :: n :: ts, (n, ys), rfl, .mk hc hn hts, rfl, rfl⟩
  complete := by
    intro ts p rest hl hp hu
    obtain ⟨hc, hn, hts⟩ := hp
    simp only [lexical_cons] at hl
    refine (colonAfter_takesOne keyword).bind.mpr ⟨_, _, rfl, hc, ?_⟩
    refine (name_takesOne role).bind.mpr ⟨_, _, rfl, hn, ?_⟩
    exact (h.map_pure (f _)).complete hl.2.2 hts hu

theorem player_reads {keyword : Token} (hk : keyword.isReserved "jugador" = true) :
    Reads (player keyword) (fun ts p => PlayerEntry (keyword :: ts) p) some fun _ => [] := by
  refine (named_reads (attributes_reads .player) _).image
    (fun y => ⟨y.1.lexeme, .ofList (y.2.map fun p => (p.1.lexeme, p.2.lexeme))⟩) ?_ (fun _ => rfl) fun _ => rfl
  intro ts p
  constructor
  · rintro ⟨-, hc, hn, hts, hm⟩
    obtain rfl := collects_iff.mp hm
    exact ⟨_, .mk hc hn hts, rfl⟩
  · rintro ⟨_, ⟨hc, hn, hts⟩, rfl⟩
    exact .mk hk hc hn hts (collects_iff.mpr rfl)

theorem keyword_list_reads {α β : Type} {fence : Fence} {context : Context} {word : String} {entry : Token → Reader α}
    {phrase : List Token → β → Prop} {value : β → α}
    (hword : word ≠ "torneo" ∧ word ≠ "equipos" ∧ word ≠ "eliminacion")
    (hentry : ∀ t, t.isReserved word = true → Reads (entry t) (fun ts y => phrase (t :: ts) y) value fun _ => [])
    (hbegins : ∀ ts y, phrase ts y → ∃ t tail, ts = t :: tail ∧ t.isReserved word = true) :
    Reads (list fence context fun t => if t.isReserved word then some (entry t) else none)
      (Closed fence.closer (Entries phrase)) (List.map value) fun _ => [] := by
  refine (list_reads value (fun _ => []) ?_ ?_).congr (fun _ _ _ => rfl) fun _ => by simp
  · intro t reader _ hr
    split at hr
    case isTrue ht =>
      obtain rfl := Option.some.inj hr
      exact hentry t ht
    case isFalse => cases hr
  · intro ts y rest _ hp
    obtain ⟨t, tail, rfl, ht⟩ := hbegins ts y hp
    refine ⟨t, tail, entry t, rfl, if_pos ht, by simp [Token.isKey_of_isReserved ht], ?_⟩
    exact startsBlock_eq_false (Token.isBlockKeyword_eq_false ht hword) _

theorem PlayerEntry.begins (ts : List Token) (p : Player) (h : PlayerEntry ts p) :
    ∃ t tail, ts = t :: tail ∧ t.isReserved "jugador" = true := by
  obtain ⟨hk, -⟩ := h
  exact ⟨_, _, rfl, hk⟩

theorem roster_reads :
    Reads (list .bracket .roster fun t => if t.isReserved "jugador" then some (player t) else none)
      (Closed .closeBracket (Entries PlayerEntry)) (List.map some) fun _ => [] :=
  keyword_list_reads (by decide) (fun _ ht => player_reads ht) PlayerEntry.begins

theorem team_reads {keyword : Token} (hk : keyword.isReserved "equipo" = true) :
    Reads (team keyword) (fun ts t => TeamEntry (keyword :: ts) t) some fun _ => [] := by
  refine (named_reads (bracketed_reads roster_reads rfl) _).image
    (fun y => ⟨y.1.lexeme, y.2, keyword.position.line⟩) ?_ (fun _ => ?_) fun _ => rfl
  · intro ts p
    constructor
    · rintro ⟨-, hc, hn, hts⟩
      exact ⟨_, .mk hc hn hts, rfl⟩
    · rintro ⟨_, ⟨hc, hn, hts⟩, rfl⟩
      exact .mk hk hc hn hts
  · simp

theorem TeamEntry.begins (ts : List Token) (t : Team) (h : TeamEntry ts t) :
    ∃ keyword tail, ts = keyword :: tail ∧ keyword.isReserved "equipo" = true := by
  obtain ⟨hk, -⟩ := h
  exact ⟨_, _, rfl, hk⟩

theorem lastValue?_eq_filterMap (pairs : List (Token × Token)) (key : String) :
    lastValue? pairs key = (pairs.filterMap fun p => if p.1.lexeme = key then some p.2.lexeme else none).getLast? := by
  rw [lastValue?, ← List.getLast?_map, ← List.filterMap_eq_filter, List.map_filterMap]
  congr 2
  funext p
  by_cases h : p.1.lexeme = key <;> simp [Option.guard, h]

theorem minute_reads {key colon : Token} (hk : key.isKey = true) (hc : colon.kind = .colon) :
    Reads (minute key) (fun ts p => Pair (key :: colon :: ts) p)
      (fun p => if p.1.lexeme = "minuto" then some p.2.lexeme else none) fun _ => [] := by
  by_cases h : key.lexeme = "minuto"
  · rw [minute, if_pos h]
    refine (value_reads hk hc).congr (fun ts p hp => ?_) fun _ => rfl
    rw [hp.key_eq, if_pos h]
  · rw [minute, if_neg h]
    refine (((value_reads hk hc).map_pure fun _ => none).ignore).congr (fun ts p hp => ?_) fun _ => rfl
    rw [hp.key_eq, if_neg h]

theorem scorer_reads {keyword : Token} (hk : keyword.isReserved "goleador" = true) :
    Reads (scorer keyword) (fun ts s => ScorerEntry (keyword :: ts) s) some fun _ => [] := by
  have hminutes : Reads (pairs .bracket .scorer minute) _ _ _ :=
    pairs_reads _ Pair.keyed fun key colon _ hk hc => minute_reads hk hc
  refine (named_reads (bracketed_reads hminutes rfl) _).image (fun y => ⟨y.1.lexeme, lastValue? y.2 "minuto"⟩) ?_
    (fun y => ?_) fun _ => rfl
  · intro ts s
    constructor
    · rintro (⟨-, hc, hn, hts⟩ | hn)
      · exact ⟨_, .mk hc hn hts, rfl⟩
      · rw [Token.isName_eq_false (Token.kind_of_isReserved hk)] at hn
        cases hn
    · rintro ⟨_, ⟨hc, hn, hts⟩, rfl⟩
      exact .labelled hk hc hn hts
  · rw [lastValue?_eq_filterMap]
    rfl

theorem scorerItem_reads {t : Token} {reader : Reader (Option Scorer)} (h : scorerItem t = some reader) :
    Reads reader (fun ts s => ScorerEntry (t :: ts) s) some fun _ => [] := by
  unfold scorerItem at h
  split at h
  case isTrue hk =>
    obtain rfl := Option.some.inj h
    exact scorer_reads hk
  case isFalse hk =>
    split at h
    case isFalse => cases h
    case isTrue hn =>
      obtain rfl := Option.some.inj h
      constructor
      · intro tokens x ds rest _ ha
        obtain ⟨rfl, rfl, rfl⟩ := accepts_pure.mp ha
        exact ⟨[], _, rfl, .name hn, rfl, rfl⟩
      · intro ts s rest _ hs _
        cases hs with
        | labelled hk' => exact absurd hk' hk
        | name => exact accepts_pure.mpr ⟨rfl, rfl, rfl⟩

theorem scorerList_reads :
    Reads (list .bracket .scorers scorerItem) (Closed .closeBracket (Entries ScorerEntry)) (List.map some)
      fun _ => [] := by
  refine (list_reads some (fun _ => []) (fun t reader _ h => scorerItem_reads h) ?_).congr (fun _ _ _ => rfl)
    fun _ => by simp
  intro ts s rest _ hs
  cases hs with
  | labelled hk =>
    refine ⟨_, _, _, rfl, if_pos hk, by simp [Token.isKey_of_isReserved hk], ?_⟩
    exact startsBlock_eq_false (Token.isBlockKeyword_eq_false hk (by decide)) _
  | @name t hn =>
    have hr (word : String) : t.isReserved word = false := by
      rw [← Bool.not_eq_true]
      intro h
      rw [Token.isName_eq_false (Token.kind_of_isReserved h)] at hn
      cases hn
    refine ⟨t, [], pure (some ⟨t.lexeme, none⟩), rfl, ?_, by simp [hn], ?_⟩
    · rw [scorerItem, if_neg (by simp [hr]), if_pos hn]
    · exact startsBlock_eq_false (by simp [Token.isBlockKeyword, hr]) _

end Knockout.Grammar
