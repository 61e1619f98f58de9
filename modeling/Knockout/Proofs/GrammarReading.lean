import Knockout.Proofs.CleanReading
import Knockout.Proofs.Grammar
import Knockout.Proofs.KeyLookups
import Knockout.Proofs.Turns

namespace Knockout

def Token.IsLexical (t : Token) : Prop :=
  (t.kind = .reserved → t.lexeme ∈ reservedWords) ∧ (t.kind = .identifier → t.lexeme ∉ reservedWords)

def Lexical (tokens : List Token) : Prop := ∀ t ∈ tokens, t.IsLexical

@[simp]
theorem lexical_nil : Lexical [] := List.forall_mem_nil _

@[simp]
theorem lexical_cons {t : Token} {ts : List Token} : Lexical (t :: ts) ↔ t.IsLexical ∧ Lexical ts :=
  List.forall_mem_cons

@[simp]
theorem lexical_append {a b : List Token} : Lexical (a ++ b) ↔ Lexical a ∧ Lexical b := List.forall_mem_append

namespace Reader

variable {α β : Type} {tokens rest : List Token} {ds : List Declaration}

def TakesOne (r : Reader α) (accepts : Token → Prop) (value : Token → α) : Prop :=
  ∀ tokens x ds rest, r.Accepts tokens x ds rest ↔ ∃ t, tokens = t :: rest ∧ accepts t ∧ x = value t ∧ ds = []

theorem takesOne_of {r : Reader α} {accepts : Token → Prop} {value : Token → α}
    (h : ∀ tokens x ds rest, r.Accepts tokens x ds rest ↔
      ∃ t tail, tokens = t :: tail ∧ accepts t ∧ x = value t ∧ ds = [] ∧ rest = tail) : r.TakesOne accepts value := by
  intro tokens x ds rest
  rw [h]
  constructor
  · rintro ⟨t, tail, rfl, ht, hx, hd, rfl⟩
    exact ⟨t, rfl, ht, hx, hd⟩
  · rintro ⟨t, rfl, ht, hx, hd⟩
    exact ⟨t, rest, rfl, ht, hx, hd, rfl⟩

theorem TakesOne.bind {r : Reader α} {accepts : Token → Prop} {value : Token → α} (h : r.TakesOne accepts value)
    {next : α → Reader β} {y : β} :
    (r >>= next).Accepts tokens y ds rest ↔
      ∃ t tail, tokens = t :: tail ∧ accepts t ∧ (next (value t)).Accepts tail y ds rest := by
  rw [accepts_bind]
  constructor
  · rintro ⟨x, d₁, middle, d₂, hr, hn, rfl⟩
    obtain ⟨t, rfl, ht, rfl, rfl⟩ := (h ..).mp hr
    exact ⟨t, middle, rfl, ht, hn⟩
  · rintro ⟨t, tail, rfl, ht, hn⟩
    exact ⟨value t, [], tail, ds, (h ..).mpr ⟨t, rfl, ht, rfl, rfl⟩, hn, rfl⟩

theorem not_accepts_report_bind {cause : Cause} {next : Unit → Reader β} {y : β} :
    ¬ (report cause >>= next).Accepts tokens y ds rest := by
  rw [accepts_bind]
  rintro ⟨x, d₁, middle, d₂, hr, -⟩
  exact accepts_report hr

theorem not_accepts_reportAt_bind {t : Token} {cause : Cause} {next : Unit → Reader β} {y : β} :
    ¬ (reportAt t cause >>= next).Accepts tokens y ds rest := by
  rw [accepts_bind]
  rintro ⟨x, d₁, middle, d₂, hr, -⟩
  exact accepts_reportAt hr

end Reader

namespace Document

open Reader

theorem colonAfter_takesOne (keyword : Token) : (colonAfter keyword).TakesOne (·.kind = .colon) fun _ => () := by
  refine takesOne_of fun tokens x ds rest => ?_
  simp only [colonAfter, accepts_takeKind_bind, Option.isNone_some, Option.isNone_none, accepts_pure,
    accepts_report, Bool.false_eq_true, ↓reduceIte, and_false, or_false]

theorem name_takesOne (role : NameRole) : (name role).TakesOne (·.isName = true) fun t => some t.lexeme := by
  refine takesOne_of fun tokens x ds rest => ?_
  simp only [name, accepts_takeIf_bind, accepts_pure, not_accepts_report_bind, and_false, or_false]

theorem value_takesOne (fence : Fence) (accepts : Token → Bool) (key : Token) :
    (value fence accepts key).TakesOne (accepts · = true) fun t => some t.lexeme := by
  refine takesOne_of fun tokens x ds rest => ?_
  simp only [value, accepts_takeIf_bind, accepts_pure, not_accepts_report_bind, not_accepts_reportAt_bind,
    exists_false, and_false, or_false]

end Document

namespace Grammar

open Reader Document

variable {α β : Type}

def Unopened (rest : List Token) : Prop := ∀ t ∈ rest.head?, t.kind ≠ .openBracket

/-- The reader accepts the phrases of the grammar, and of each it makes the value and the declarations given here. -/
structure Reads (r : Reader α) (phrase : List Token → β → Prop) (value : β → α) (declared : β → List Declaration) :
    Prop where
  sound {tokens : List Token} {x : α} {ds : List Declaration} {rest : List Token} :
    Lexical tokens → r.Accepts tokens x ds rest →
      ∃ ts y, tokens = ts ++ rest ∧ phrase ts y ∧ x = value y ∧ ds = declared y
  complete {ts : List Token} {y : β} {rest : List Token} :
    Lexical ts → phrase ts y → Unopened rest → r.Accepts (ts ++ rest) (value y) (declared y) rest

structure Chooses (turn : Token → List Token → Turn α) (closer : TokenKind) (phrase : List Token → β → Prop)
    (value : β → α) (declared : β → List Declaration) : Prop where
  finish {t : Token} {rest : List Token} : turn t rest = .finish ↔ t.kind = closer
  pass {t : Token} {rest : List Token} : turn t rest = .pass ↔ t.kind = .comma
  leave {t : Token} {rest : List Token} : turn t rest ≠ .leave none
  enter {t : Token} {rest : List Token} {item : Reader α} : t.IsLexical → turn t rest = .enter item →
    Reads item (fun ts y => phrase (t :: ts) y) value declared
  begins {ts : List Token} {y : β} (rest : List Token) : Lexical ts → phrase ts y →
    ∃ t tail item, ts = t :: tail ∧ turn t (tail ++ rest) = .enter item ∧ t.kind ≠ .openBracket

inductive Closed (closer : TokenKind) (content : List Token → α → Prop) : List Token → α → Prop
  | mk {r : Token} {body : List Token} {x : α} :
    content body x → r.kind = closer → Closed closer content (body ++ [r]) x

section Lists

variable {turn : Token → List Token → Turn α} {closer : TokenKind} {phrase : List Token → β → Prop} {value : β → α}
  {declared : β → List Declaration}

theorem Closed.sound_items (hc : Chooses turn closer phrase value declared) (cause : Cause) {tokens rest : List Token}
    {xs : List α} {ds : List Declaration} (hl : Lexical tokens)
    (h : (items turn (some cause)).Accepts tokens xs ds rest) :
    ∃ ts ys, tokens = ts ++ rest ∧ Closed closer (Entries phrase) ts ys ∧ xs = ys.map value ∧
      ds = ys.flatMap declared := by
  induction hn : tokens.length using Nat.strongRecOn generalizing tokens xs ds with
  | ind n ih =>
    cases tokens with
    | nil => simp [accepts_items_nil] at h
    | cons t tail =>
      rw [lexical_cons] at hl
      cases ht : turn t tail with
      | finish =>
        obtain ⟨rfl, rfl, rfl⟩ := (accepts_items_finish ht).mp h
        have hp : Closed closer (Entries phrase) ([] ++ [t]) [] := .mk .nil (hc.finish.mp ht)
        exact ⟨[t], [], rfl, hp, rfl, rfl⟩
      | leave c =>
        obtain ⟨rfl, -⟩ := (accepts_items_leave ht).mp h
        exact absurd ht hc.leave
      | pass =>
        obtain ⟨_, ys, rfl, ⟨hb, hr⟩, rfl, rfl⟩ :=
          ih tail.length (by simp [← hn]) hl.2 ((accepts_items_pass ht).mp h) rfl
        exact ⟨_, ys, rfl, .mk (.comma (hc.pass.mp ht) hb) hr, rfl, rfl⟩
      | drop context => exact absurd h (accepts_items_drop ht)
      | enter item =>
        obtain ⟨x, d, middle, xs, ds, hi, hm, rfl, rfl⟩ := (accepts_items_enter ht).mp h
        obtain ⟨as, y, rfl, hp, rfl, rfl⟩ := (hc.enter hl.1 ht).sound hl.2 hi
        have hlt : middle.length < n := by
          rw [← hn, List.length_cons, List.length_append]
          omega
        obtain ⟨_, ys, rfl, ⟨hb, hr⟩, rfl, rfl⟩ := ih middle.length hlt (lexical_append.mp hl.2).2 hm rfl
        refine ⟨_, y :: ys, ?_, .mk (.entry hp hb) hr, rfl, rfl⟩
        simp

theorem Entries.unopened (hc : Chooses turn closer phrase value declared) (hclose : closer ≠ .openBracket) {r : Token}
    (hr : r.kind = closer) {ts rest : List Token} {ys : List β} (hl : Lexical ts) (h : Entries phrase ts ys) :
    Unopened (ts ++ r :: rest) := by
  cases h with
  | nil => simpa [Unopened, hr] using hclose
  | comma ht _ => simp [Unopened, ht]
  | entry hp _ =>
    obtain ⟨t, tail, item, rfl, -, ht⟩ := hc.begins [] (lexical_append.mp hl).1 hp
    simpa [Unopened] using ht

theorem Entries.complete_items (hc : Chooses turn closer phrase value declared) (hclose : closer ≠ .openBracket)
    (unfinished : Option Cause) {r : Token} (hr : r.kind = closer) {ts : List Token} {ys : List β} (rest : List Token)
    (hl : Lexical ts) (h : Entries phrase ts ys) :
    (items turn unfinished).Accepts (ts ++ r :: rest) (ys.map value) (ys.flatMap declared) rest := by
  induction h with
  | nil => exact (accepts_items_finish (hc.finish.mpr hr)).mpr ⟨rfl, rfl, rfl⟩
  | comma ht _ ih => exact (accepts_items_pass (hc.pass.mpr ht)).mpr (ih (lexical_cons.mp hl).2)
  | @entry as bs y ys hp hb ih =>
    rw [lexical_append] at hl
    obtain ⟨t, tail, item, rfl, ht, -⟩ := hc.begins (bs ++ r :: rest) hl.1 hp
    rw [List.append_assoc, List.cons_append]
    refine (accepts_items_enter ht).mpr ⟨_, _, _, _, _, ?_, ih hl.2, rfl, rfl⟩
    rw [lexical_cons] at hl
    exact (hc.enter hl.1.1 ht).complete hl.1.2 hp (hb.unopened hc hclose hr hl.2)

theorem items_reads (hc : Chooses turn closer phrase value declared) (hclose : closer ≠ .openBracket) (cause : Cause) :
    Reads (items turn (some cause)) (Closed closer (Entries phrase)) (List.map value) (List.flatMap declared) where
  sound := Closed.sound_items hc cause
  complete := by
    rintro _ ys rest hl ⟨hb, hr⟩ -
    rw [List.append_assoc]
    exact hb.complete_items hc hclose _ hr rest (lexical_append.mp hl).1

end Lists

section Combinators

variable {phrase : List Token → β → Prop}

theorem Reads.map_pure {γ : Type} {r : Reader α} {value : β → α} {declared : β → List Declaration}
    (h : Reads r phrase value declared) (f : α → γ) :
    Reads (r >>= fun x => pure (f x)) phrase (fun y => f (value y)) declared where
  sound := by
    intro tokens z ds rest hl ha
    obtain ⟨x, d₁, middle, d₂, hr, hp, rfl⟩ := accepts_bind.mp ha
    obtain ⟨rfl, rfl, rfl⟩ := accepts_pure.mp hp
    obtain ⟨ts, y, rfl, hy, rfl, rfl⟩ := h.sound hl hr
    exact ⟨ts, y, rfl, hy, rfl, List.append_nil _⟩
  complete := by
    intro ts y rest hl hy hu
    refine accepts_bind.mpr ⟨_, _, _, [], h.complete hl hy hu, ?_, (List.append_nil _).symm⟩
    exact accepts_pure.mpr ⟨rfl, rfl, rfl⟩

theorem Reads.congr {r : Reader α} {value value' : β → α} {declared declared' : β → List Declaration}
    (h : Reads r phrase value declared) (hv : ∀ ts y, phrase ts y → value y = value' y)
    (hd : ∀ y, declared y = declared' y) : Reads r phrase value' declared' where
  sound := by
    intro tokens x ds rest hl ha
    obtain ⟨ts, y, rfl, hy, rfl, rfl⟩ := h.sound hl ha
    exact ⟨ts, y, rfl, hy, hv ts y hy, hd y⟩
  complete := by
    intro ts y rest hl hy hu
    rw [← hv ts y hy, ← hd]
    exact h.complete hl hy hu

theorem Reads.ignore {r : Reader α} {key : Token} {value : β → α} {declared : β → List Declaration}
    (h : Reads r phrase value declared) : Reads (Reader.ignore key >>= fun _ => r) phrase value declared where
  sound hl ha := h.sound hl (accepts_ignore_bind.mp ha)
  complete hl hy hu := accepts_ignore_bind.mpr (h.complete hl hy hu)

theorem Reads.image {γ : Type} {r : Reader α} {phrase' : List Token → γ → Prop} {value' : γ → α} {value : β → α}
    {declared' : γ → List Declaration} {declared : β → List Declaration} (h : Reads r phrase' value' declared')
    (g : γ → β) (hphrase : ∀ ts y, phrase ts y ↔ ∃ z, phrase' ts z ∧ y = g z) (hv : ∀ z, value' z = value (g z))
    (hd : ∀ z, declared' z = declared (g z)) : Reads r phrase value declared where
  sound := by
    intro tokens x ds rest hl ha
    obtain ⟨ts, z, rfl, hz, rfl, rfl⟩ := h.sound hl ha
    exact ⟨ts, g z, rfl, (hphrase _ _).mpr ⟨z, hz, rfl⟩, hv z, hd z⟩
  complete := by
    intro ts y rest hl hy hu
    obtain ⟨z, hz, rfl⟩ := (hphrase _ _).mp hy
    rw [← hv, ← hd]
    exact h.complete hl hz hu

theorem kind_of_begins {t : Token} (h : (t.isKey || t.isName) = true) :
    t.kind = .reserved ∨ t.kind = .identifier ∨ t.kind = .string := by
  simp only [Token.isKey, Token.isName, Bool.or_eq_true, decide_eq_true_eq] at h
  rcases h with (h | h) | h | h
  · exact .inl h
  · exact .inr (.inl h)
  · exact .inr (.inr h)
  · exact .inr (.inl h)

theorem list_reads {fence : Fence} {context : Context} {item : Token → Option (Reader α)} (value : β → α)
    (declared : β → List Declaration)
    (henter : ∀ t reader, t.IsLexical → item t = some reader →
      Reads reader (fun ts y => phrase (t :: ts) y) value declared)
    (hbegins : ∀ ts y rest, Lexical ts → phrase ts y → ∃ t tail reader, ts = t :: tail ∧ item t = some reader ∧
      (t.isKey || t.isName) = true ∧ startsBlock t (tail ++ rest) = false) :
    Reads (list fence context item) (Closed fence.closer (Entries phrase)) (List.map value)
      (List.flatMap declared) := by
  rw [list]
  refine items_reads ⟨listTurn_eq_finish_iff, listTurn_eq_pass_iff, ?_, ?_, ?_⟩ fence.closer_ne_openBracket _
  · intro t rest h
    cases (listTurn_eq_leave_iff.mp h).1
  · intro t rest reader hl h
    exact henter t reader hl (item_of_listTurn_eq_enter h)
  · intro ts y rest hl hp
    obtain ⟨t, tail, reader, rfl, ht, hk, hs⟩ := hbegins ts y rest hl hp
    have hkind := kind_of_begins hk
    refine ⟨t, tail, reader, rfl, listTurn_of_item ht ⟨?_, ?_⟩ hs, ?_⟩
    · cases fence <;> rcases hkind with h | h | h <;> simp [h, Fence.closer]
    · rcases hkind with h | h | h <;> simp [h]
    · rcases hkind with h | h | h <;> simp [h]

theorem pairs_reads {fence : Fence} {context : Context} {valueOf : Token → Reader (Option α)} (value : β → Option α)
    (hkey : ∀ ts y, phrase ts y → ∃ key colon tail, ts = key :: colon :: tail ∧ key.isKey = true ∧ colon.kind = .colon)
    (hvalue : ∀ key colon, key.IsLexical → key.isKey = true → colon.kind = .colon →
      Reads (valueOf key) (fun ts y => phrase (key :: colon :: ts) y) value fun _ => []) :
    Reads (pairs fence context valueOf) (Closed fence.closer (Entries phrase)) (List.filterMap value) fun _ => [] := by
  refine ((list_reads value (fun _ => []) ?_ ?_).map_pure (List.filterMap id)).congr (fun _ ys _ => ?_) fun ys => ?_
  · intro key reader hl hr
    by_cases hk : key.isKey = true
    · rw [if_pos hk] at hr
      obtain rfl := Option.some.inj hr
      constructor
      · intro tokens x ds rest hlt ha
        rcases accepts_takeKind_bind.mp ha with ⟨colon, tail, rfl, hc, hv⟩ | ⟨-, hv⟩
        · obtain ⟨ts, y, rfl, hy, rfl, rfl⟩ := (hvalue key colon hl hk hc).sound (lexical_cons.mp hlt).2 hv
          exact ⟨colon :: ts, y, rfl, hy, rfl, rfl⟩
        · exact absurd hv not_accepts_report_bind
      · intro ts y rest hlt hy hu
        obtain ⟨_, colon, tail, he, -, hc⟩ := hkey _ _ hy
        obtain ⟨rfl, rfl⟩ := List.cons.inj he
        have hv := (hvalue _ colon hl hk hc).complete (lexical_cons.mp hlt).2 hy hu
        exact accepts_takeKind_bind.mpr (.inl ⟨colon, _, rfl, hc, hv⟩)
    · rw [if_neg hk] at hr
      cases hr
  · intro ts y rest hl hy
    obtain ⟨key, colon, tail, rfl, hk, hc⟩ := hkey _ _ hy
    refine ⟨key, colon :: tail, _, rfl, if_pos hk, by simp [hk], ?_⟩
    simp [startsBlock, hc]
  · simp [List.filterMap_map]
  · simp

theorem bracketed_reads {content : Reader (List α)} {phrase : List Token → List β → Prop} {value : List β → List α}
    (h : Reads content (Closed .closeBracket phrase) value fun _ => []) (hnil : value [] = []) :
    Reads (bracketed content) (Optionally (Enclosed .bracket phrase)) value fun _ => [] where
  sound := by
    intro tokens xs ds rest hl ha
    rcases accepts_takeKind_bind.mp ha with ⟨l, tail, rfl, hlk, hv⟩ | ⟨-, hv⟩
    · obtain ⟨_, ys, rfl, ⟨hb, hr⟩, rfl, rfl⟩ := h.sound (lexical_cons.mp hl).2 hv
      exact ⟨_, ys, rfl, .present (.mk hlk hb hr), rfl, rfl⟩
    · obtain ⟨rfl, rfl, rfl⟩ := accepts_pure.mp hv
      exact ⟨[], [], rfl, .absent, hnil.symm, rfl⟩
  complete := by
    rintro ts ys rest hl hp hu
    cases hp with
    | absent => exact accepts_takeKind_bind.mpr (.inr ⟨hu, accepts_pure.mpr ⟨hnil, rfl, rfl⟩⟩)
    | present hp =>
      obtain ⟨hlk, hb, hr⟩ := hp
      exact accepts_takeKind_bind.mpr (.inl ⟨_, _, rfl, hlk, h.complete (lexical_cons.mp hl).2 (.mk hb hr) hu⟩)

end Combinators

end Grammar

end Knockout
