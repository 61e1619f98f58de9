import Knockout.Proofs.Concatenation
import Knockout.Proofs.DeclaredParts
import Knockout.Proofs.LineLocality
import Knockout.Proofs.Walks
import Knockout.Source

namespace Knockout

namespace Position

def StartsUpTo (a b : Position) : Prop := a.span.start ≤ b.span.start

def UpTo (a b : Position) : Prop := a.line < b.line ∨ a.line = b.line ∧ a.column ≤ b.column

structure Ordering (R : Position → Position → Prop) : Prop where
  refl : ∀ a, R a a
  ending : ∀ {a b : Position}, b.span.start ≤ b.span.stop → R a b →
    R a { b with span := ⟨b.span.stop, b.span.stop⟩ }

theorem ordering_startsUpTo : Ordering StartsUpTo where
  refl := fun a => Nat.le_refl a.span.start
  ending := fun hb hab => hab.trans hb

theorem ordering_upTo : Ordering UpTo where
  refl := fun a => .inr ⟨rfl, UInt32.le_refl a.column⟩
  ending := fun _ hab => hab

end Position

namespace Diagnostic

def Repeats (d : Diagnostic) (t : Token) : Prop := d.text = t.lexeme ∧ d.position = t.position

def StandsBehind (d : Diagnostic) (t : Token) : Prop :=
  d.text = "end of input" ∧ d.position = { t.position with span := ⟨t.position.span.stop, t.position.span.stop⟩ }

end Diagnostic

structure Located (R : Position → Position → Prop) (last : Position) (tokens : List Token) (ds : List Diagnostic) :
    Prop where
  each : ∀ d ∈ ds, d.kind.category = .syntactic ∧
    ((∃ t ∈ tokens, d.Repeats t) ∨ d.text = "end of input" ∧ d.position = last)
  ordered : ds.Pairwise fun d e => R d.position e.position

namespace Located

variable {R : Position → Position → Prop} {last : Position} {t : Token} {tokens : List Token}
  {ds : List Diagnostic} {cause : Cause}

theorem nil : Located R last tokens [] := ⟨nofun, .nil⟩

theorem later (h : Located R last tokens ds) : Located R last (t :: tokens) ds := by
  refine ⟨fun d hd => ⟨(h.each d hd).1, ?_⟩, h.ordered⟩
  apply (h.each d hd).2.imp_left
  rintro ⟨u, hu, hr⟩
  exact ⟨u, List.mem_cons_of_mem t hu, hr⟩

theorem here (hr : Position.Ordering R) (hc : cause.kind.category = .syntactic)
    (ht : ∀ u ∈ tokens, R t.position u.position) (hlast : R t.position last) (h : Located R last (t :: tokens) ds) :
    Located R last (t :: tokens) (.ofToken t cause :: ds) := by
  constructor
  · exact List.forall_mem_cons.mpr ⟨⟨hc, .inl ⟨t, List.mem_cons_self, rfl, rfl⟩⟩, h.each⟩
  · refine List.pairwise_cons.mpr ⟨fun d hd => ?_, h.ordered⟩
    change R t.position d.position
    rcases (h.each d hd).2 with ⟨u, hu, -, hp⟩ | ⟨-, hp⟩
    · rw [hp]
      rcases List.mem_cons.mp hu with rfl | hu
      · exact hr.refl _
      · exact ht u hu
    · rw [hp]
      exact hlast

theorem atEnd (hr : Position.Ordering R) (hc : cause.kind.category = .syntactic) (h : Located R last [] ds) :
    Located R last [] (⟨cause, "end of input", last⟩ :: ds) := by
  constructor
  · exact List.forall_mem_cons.mpr ⟨⟨hc, .inr ⟨rfl, rfl⟩⟩, h.each⟩
  · refine List.pairwise_cons.mpr ⟨fun d hd => ?_, h.ordered⟩
    rcases (h.each d hd).2 with ⟨u, hu, -⟩ | ⟨-, hp⟩
    · cases hu
    · rw [hp]
      exact hr.refl _

end Located

theorem Cause.category_of_isStructural {cause : Cause} (h : cause.isStructural = true) :
    cause.kind.category = .syntactic ∧ cause.kind ≠ .redeclaredBlock ∧ cause.kind ≠ .unexpectedToken := by
  simp only [isStructural, Bool.or_eq_true, decide_eq_true_eq] at h
  rcases h with (h | h) | h <;> rw [h] <;> decide

namespace Steps

variable {strictness : Strictness} {last : Position} {m : Memory}

/-- The reports but for those of redeclared blocks, which stand at a keyword that may be far behind. -/
def reports (strictness : Strictness) (last : Position) (m : Memory) (steps : List Step) : List Diagnostic :=
  (diagnosticsFrom strictness last m steps).filter fun d => d.kind ≠ .redeclaredBlock

theorem reports_cons (step : Step) (steps : List Step) : reports strictness last m (step :: steps) =
    ((diagnostics strictness last m step).filter fun d => d.kind ≠ .redeclaredBlock) ++
      reports strictness last (m.after step) steps := by
  rw [reports, diagnosticsFrom, List.filter_append]
  rfl

theorem reports_take (t : Token) (steps : List Step) :
    reports strictness last m (.take t :: steps) = reports strictness last { m with skipping := false } steps := rfl

theorem reports_silent {step : Step} (h : ∀ d ∈ diagnostics strictness last m step, d.kind = .redeclaredBlock)
    (steps : List Step) : reports strictness last m (step :: steps) = reports strictness last (m.after step) steps := by
  rw [reports_cons, List.filter_eq_nil_iff.mpr, List.nil_append]
  intro d hd
  simp [h d hd]

theorem reports_one {step : Step} {d : Diagnostic} (h : diagnostics strictness last m step = [d])
    (hd : d.kind ≠ .redeclaredBlock) (steps : List Step) :
    reports strictness last m (step :: steps) = d :: reports strictness last (m.after step) steps := by
  rw [reports_cons, h, List.filter_cons_of_pos (by simpa using hd)]
  rfl

theorem reports_report {cause : Cause} (h : cause.kind ≠ .redeclaredBlock) (found : Option Token) (steps : List Step) :
    reports strictness last m (.report cause found :: steps) =
      found.elim ⟨cause, "end of input", last⟩ (Diagnostic.ofToken · cause) :: reports strictness last m steps := by
  cases found with
  | none => exact reports_one (d := ⟨cause, "end of input", last⟩) rfl h steps
  | some t => exact reports_one (d := .ofToken t cause) rfl h steps

theorem redeclared_of_declare (d : Declaration) :
    ∀ e ∈ diagnostics strictness last m (.declare d), e.kind = .redeclaredBlock := by
  intro e he
  cases d with
  | info | phase =>
    simp only [diagnostics] at he
    split at he
    · obtain rfl := List.mem_singleton.mp he
      rfl
    · cases he
  | teams => cases he

theorem anchored_reports {R : Position → Position → Prop} (hr : Position.Ordering R)
    {tokens rest : List Token} {steps : List Step} (h : Walk tokens steps rest)
    (ho : tokens.Pairwise fun t u => R t.position u.position) (hl : ∀ t ∈ tokens, R t.position last) :
    Located R last tokens (reports strictness last m steps) := by
  induction h generalizing m with
  | nil => exact .nil
  | @take t tokens rest steps _ ih =>
    obtain ⟨-, ho⟩ := List.pairwise_cons.mp ho
    obtain ⟨-, hl⟩ := List.forall_mem_cons.mp hl
    rw [reports_take]
    exact (ih ho hl).later
  | @skip t context tokens rest steps _ ih =>
    obtain ⟨ht, ho⟩ := List.pairwise_cons.mp ho
    obtain ⟨htl, hl⟩ := List.forall_mem_cons.mp hl
    by_cases hs : m.skipping = true
    · rw [reports_silent (by simp [diagnostics, hs])]
      exact (ih ho hl).later
    · have hone : diagnostics strictness last m (.skip t context) = [.ofToken t (.unexpected t.lexeme context)] :=
        if_neg hs
      have hkind : DiagnosticKind.unexpectedToken ≠ .redeclaredBlock := by decide
      rw [reports_one hone hkind]
      exact .here hr rfl ht htl (ih ho hl).later
  | @report cause tokens rest steps hc _ ih =>
    obtain ⟨hsyntactic, hkind, -⟩ := Cause.category_of_isStructural hc
    cases tokens with
    | nil =>
      rw [List.head?_nil, reports_report hkind]
      exact .atEnd hr hsyntactic (ih ho hl)
    | cons t tokens =>
      rw [List.head?_cons, reports_report hkind]
      exact .here hr hsyntactic (List.pairwise_cons.mp ho).1 (hl t List.mem_cons_self) (ih ho hl)
  | @refuse cause t tokens rest steps hc _ ih =>
    obtain ⟨hsyntactic, hkind, -⟩ := Cause.category_of_isStructural hc
    obtain ⟨ht, ho⟩ := List.pairwise_cons.mp ho
    obtain ⟨htl, hl⟩ := List.forall_mem_cons.mp hl
    rw [reports_take, reports_report hkind]
    exact .here hr hsyntactic ht htl (ih ho hl).later
  | @ignore key colon tokens rest steps _ ih =>
    obtain ⟨hkey, ho⟩ := List.pairwise_cons.mp ho
    obtain ⟨htl, hl⟩ := List.forall_mem_cons.mp hl
    have hlater : Located R last (key :: colon :: tokens)
        (reports strictness last { m with skipping := false } steps) :=
      (ih (List.pairwise_cons.mp ho).2 (List.forall_mem_cons.mp hl).2).later.later
    rw [reports_take, reports_take]
    by_cases hs : strictness = .strict
    · have hone : diagnostics strictness last { m with skipping := false } (.ignore key) =
          [.ofToken key (.unknownAttribute key.lexeme)] := if_pos hs
      have hkind : DiagnosticKind.unknownAttribute ≠ .redeclaredBlock := by decide
      rw [reports_one hone hkind]
      exact .here hr rfl hkey htl hlater
    · rw [reports_silent (by simp [diagnostics, hs])]
      exact hlater
  | @declare d tokens rest steps _ ih =>
    rw [reports_silent (redeclared_of_declare d)]
    exact ih ho hl

end Steps

def Declaration.keyword? : Declaration → Option Token
  | info keyword _ | phase keyword _ => some keyword
  | teams _ => none

namespace Steps

theorem redeclared_at_keyword {strictness : Strictness} {last : Position} {m : Memory} {steps : List Step}
    (hr : ∀ cause found, .report cause found ∈ steps → cause.isStructural = true) {d : Diagnostic}
    (hd : d ∈ diagnosticsFrom strictness last m steps) (hk : d.kind = .redeclaredBlock) :
    ∃ declaration ∈ declarations steps, ∃ keyword ∈ declaration.keyword?, d.Repeats keyword := by
  induction steps generalizing m with
  | nil => cases hd
  | cons step steps ih =>
    rcases List.mem_append.mp hd with hd | hd
    · cases step with
      | take => cases hd
      | skip t context =>
        simp only [diagnostics] at hd
        split at hd
        · cases hd
        · obtain rfl := List.mem_singleton.mp hd
          cases hk
      | report cause found =>
        have hc := (Cause.category_of_isStructural (hr cause found List.mem_cons_self)).2.1
        cases found <;> obtain rfl := List.mem_singleton.mp hd <;> exact absurd hk hc
      | ignore key =>
        simp only [diagnostics] at hd
        split at hd
        · obtain rfl := List.mem_singleton.mp hd
          cases hk
        · cases hd
      | declare declaration =>
        refine ⟨declaration, List.mem_cons_self, ?_⟩
        cases declaration with
        | info keyword | phase keyword =>
          simp only [diagnostics] at hd
          split at hd
          · obtain rfl := List.mem_singleton.mp hd
            exact ⟨keyword, rfl, rfl, rfl⟩
          · cases hd
        | teams => cases hd
    · obtain ⟨declaration, hm, hkeyword⟩ := ih (fun cause found h => hr cause found (List.mem_cons_of_mem _ h)) hd
      refine ⟨declaration, ?_, hkeyword⟩
      rw [show step :: steps = [step] ++ steps from rfl, declarations_append]
      exact List.mem_append_right _ hm

end Steps

theorem Reader.entered_suffix {α : Type} {turn : Token → List Token → Turn α} {tokens : List Token}
    {e : Token × List Token} (h : e ∈ entered turn tokens) : e.1 :: e.2 <:+ tokens := by
  fun_induction entered turn tokens with
  | case1 => cases h
  | case2 | case3 => cases h
  | case4 t rest _ ih => exact (ih h).trans (List.suffix_cons t rest)
  | case5 t rest _ _ ih => exact (ih h).trans (List.suffix_cons t rest)
  | case6 t rest item _ ih =>
    rcases List.mem_cons.mp h with rfl | h
    · exact List.suffix_rfl
    · have hrest : (item.run rest).rest <:+ rest := ⟨_, item.accounts rest⟩
      exact ((ih h).trans hrest).trans (List.suffix_cons t rest)

namespace Document

theorem inside?_suffix {tokens inner : List Token} (h : inside? tokens = some inner) : inner <:+ tokens := by
  cases tokens with
  | nil => cases h
  | cons t rest =>
    obtain ⟨-, h⟩ := Option.ite_none_right_eq_some.mp h
    rw [← Option.some.inj h]
    exact List.suffix_cons t rest

theorem keyword_mem_declaredIn {t keyword : Token} {inner : List Token} {d : Declaration} (h : d ∈ declaredIn t inner)
    (hk : keyword ∈ d.keyword?) : keyword = t ∨ keyword ∈ inner := by
  unfold declaredIn at h
  split at h
  · obtain rfl := List.mem_singleton.mp h
    exact .inl (Option.some.inj hk).symm
  · split at h
    · obtain rfl := List.mem_singleton.mp h
      cases hk
    · split at h
      · obtain ⟨e, he, rfl⟩ := List.mem_map.mp h
        obtain ⟨entry, hm, rfl⟩ := List.mem_map.mp he
        obtain rfl := Option.some.inj hk
        exact .inr ((Reader.entered_suffix hm).subset List.mem_cons_self)
      · cases h

theorem keyword_mem_read {tokens : List Token} {d : Declaration} (h : d ∈ declarations (read tokens)) {keyword : Token}
    (hk : keyword ∈ d.keyword?) : keyword ∈ tokens := by
  rw [declarations_read] at h
  obtain ⟨b, hb, hd⟩ := List.mem_flatMap.mp h
  obtain ⟨⟨t, rest⟩, he, hb⟩ := List.mem_filterMap.mp hb
  obtain ⟨inner, hinner, rfl⟩ := Option.map_eq_some_iff.mp hb
  have hsuffix := Reader.entered_suffix he
  rcases keyword_mem_declaredIn hd hk with rfl | hm
  · exact hsuffix.subset List.mem_cons_self
  · exact hsuffix.subset (List.mem_cons_of_mem t ((inside?_suffix hinner).subset hm))

end Document

theorem tokens_startUpTo (text : String) :
    (scan text).tokens.Pairwise fun t u => t.position.StartsUpTo u.position := by
  apply (tokens_start text).imp
  intro t u hstart
  exact hstart.le

theorem tokens_upTo {text : String} (hl : text.length < 4294967296) :
    (scan text).tokens.Pairwise fun t u => t.position.UpTo u.position := by
  apply (tokens_precede hl).imp
  intro t u hbefore
  apply hbefore.imp_right
  rintro ⟨hline, hcolumn⟩
  exact ⟨hline, UInt32.le_of_lt hcolumn⟩

theorem Position.Ordering.lastPosition {R : Position → Position → Prop} (hr : Ordering R) (text : String)
    (ho : (scan text).tokens.Pairwise fun t u => R t.position u.position) :
    ∀ t ∈ (scan text).tokens, R t.position (Steps.lastPosition (scan text).tokens) := by
  intro t ht
  obtain ⟨before, last, htokens⟩ := List.eq_nil_or_concat' (scan text).tokens |>.resolve_left (List.ne_nil_of_mem ht)
  have hlast : Steps.lastPosition (scan text).tokens =
      { last.position with span := ⟨last.position.span.stop, last.position.span.stop⟩ } := by
    simp [Steps.lastPosition, htokens]
  have hproper := tokens_proper text last (by simp [htokens])
  rw [hlast]
  apply hr.ending hproper.le
  rw [htokens] at ho ht
  rcases List.mem_append.mp ht with ht | ht
  · exact (List.pairwise_append.mp ho).2.2 t ht last List.mem_cons_self
  · obtain rfl := List.mem_singleton.mp ht
    exact hr.refl _

theorem Position.Ordering.reports {R : Position → Position → Prop} (hr : Ordering R) (options : Options) (text : String)
    (ho : (scan text).tokens.Pairwise fun t u => R t.position u.position) :
    Located R (Steps.lastPosition (scan text).tokens) (scan text).tokens
      ((Source.read options text).syntactic.filter fun d => d.kind ≠ .redeclaredBlock) :=
  Steps.anchored_reports hr (Document.read_walk (scan text).tokens) ho (hr.lastPosition text ho)

/--
Every report of a source is a syntactic one and stands at a token of the source, or at the end of the input behind the
last token. But for redeclarations, the reports come in the order of their offsets, and in that of their lines and
columns where the source is not too long for these to be counted.
-/
theorem syntactic_anchored (options : Options) (text : String) :
    let source := Source.read options text
    let reports := source.syntactic.filter fun d => d.kind ≠ .redeclaredBlock
    (∀ d ∈ source.syntactic, d.kind.category = .syntactic ∧
      ((∃ t ∈ source.tokens, d.Repeats t) ∨ ∃ t ∈ source.tokens.getLast?, d.StandsBehind t)) ∧
    (reports.Pairwise fun d e => d.position.StartsUpTo e.position) ∧
    (text.length < 4294967296 → reports.Pairwise fun d e => d.position.UpTo e.position) := by
  have hstart := Position.ordering_startsUpTo.reports options text (tokens_startUpTo text)
  refine ⟨fun d hd => ?_, hstart.ordered, fun hl => ?order⟩
  case order => exact (Position.ordering_upTo.reports options text (tokens_upTo hl)).ordered
  by_cases hk : d.kind = .redeclaredBlock
  · have hwalk := Document.read_walk (scan text).tokens
    obtain ⟨declaration, hm, keyword, hkeyword, hrepeats⟩ :=
      Steps.redeclared_at_keyword (fun _ _ h => hwalk.isStructural h) hd hk
    rw [hk]
    exact ⟨rfl, .inl ⟨keyword, Document.keyword_mem_read hm hkeyword, hrepeats⟩⟩
  · have hreport := hstart.each d (List.mem_filter.mpr ⟨hd, by simpa using hk⟩)
    refine ⟨hreport.1, hreport.2.imp_right ?_⟩
    rintro ⟨htext, hposition⟩
    change ∃ t ∈ (scan text).tokens.getLast?, d.StandsBehind t
    cases hlast : (scan text).tokens.getLast? with
    | none =>
      change d ∈ Steps.diagnosticsFrom _ _ _ (Document.read (scan text).tokens) at hd
      rw [List.getLast?_eq_none_iff.mp hlast, Document.read_nil] at hd
      cases hd
    | some t => exact ⟨t, rfl, htext, hposition.trans (by simp [Steps.lastPosition, hlast])⟩

theorem tokens_beneath (lines : Nat) : (scan (String.ofList (List.replicate lines '\n') ++ "y")).tokens =
    [⟨.identifier, "y", ⟨1 + .ofNat lines, 1, ⟨lines, lines + 1⟩⟩⟩] := by
  induction lines with
  | zero => decide +kernel
  | succ lines ih =>
    have htext : String.ofList (List.replicate (lines + 1) '\n') ++ "y" =
        "" ++ "\n" ++ (String.ofList (List.replicate lines '\n') ++ "y") := by
      apply String.toList_inj.mp
      simp [List.replicate_succ]
    have hempty : (scan "").tokens = [] := by decide +kernel
    rw [htext, scan_lines _ (by decide +kernel), ih, hempty, UInt32.ofNat_add, ← add_assoc]
    rfl

theorem tokens_of_block_above (lines : Nat) :
    (scan ("\nx torneo\x7b\x7d" ++ "\n" ++ (String.ofList (List.replicate lines '\n') ++ "y"))).tokens =
      [⟨.identifier, "x", ⟨2, 1, ⟨1, 2⟩⟩⟩, ⟨.reserved, "torneo", ⟨2, 3, ⟨3, 9⟩⟩⟩,
        ⟨.openBrace, "\x7b", ⟨2, 9, ⟨9, 10⟩⟩⟩, ⟨.closeBrace, "\x7d", ⟨2, 10, ⟨10, 11⟩⟩⟩,
        ⟨.identifier, "y", ⟨1 + .ofNat lines + 2, 1, ⟨lines + 12, lines + 1 + 12⟩⟩⟩] := by
  have hblock : (scan "\nx torneo\x7b\x7d").tokens =
      [⟨.identifier, "x", ⟨2, 1, ⟨1, 2⟩⟩⟩, ⟨.reserved, "torneo", ⟨2, 3, ⟨3, 9⟩⟩⟩,
        ⟨.openBrace, "\x7b", ⟨2, 9, ⟨9, 10⟩⟩⟩, ⟨.closeBrace, "\x7d", ⟨2, 10, ⟨10, 11⟩⟩⟩] := by decide +kernel
  rw [scan_lines _ (by decide +kernel), tokens_beneath, hblock]
  rfl

theorem lines_wrap_around :
    let text := "\nx torneo\x7b\x7d" ++ "\n" ++ (String.ofList (List.replicate 4294967294 '\n') ++ "y")
    ¬ ((Source.read {} text).syntactic.filter fun d => d.kind ≠ .redeclaredBlock).Pairwise fun d e =>
      d.position.UpTo e.position := by
  intro text hordered
  have hsyntactic : (Source.read {} text).syntactic = (assemble {} (scan text).tokens).diagnostics := rfl
  rw [hsyntactic, tokens_of_block_above] at hordered
  revert hordered
  unfold Position.UpTo
  decide +kernel

end Knockout
