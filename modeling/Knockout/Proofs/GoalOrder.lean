import Knockout.Goal
import Knockout.Proofs.ScheduleOrder
import Knockout.Proofs.StableOrder
import Knockout.Proofs.WrittenScores

namespace Knockout

section Trim

variable {before core after : List Char}

theorem trim_append (hbefore : ∀ c ∈ before, isWhiteSpace c = true)
    (hafter : ∀ c ∈ after, isWhiteSpace c = true) (hne : core ≠ []) (hfirst : StopsBefore isWhiteSpace core)
    (hlast : StopsBefore isWhiteSpace core.reverse) :
    trim (before ++ core ++ after) = core := by
  have hstart : StopsBefore isWhiteSpace (core ++ after) := by
    obtain ⟨c, core, rfl⟩ := List.exists_cons_of_ne_nil hne
    exact hfirst
  have hend : ∀ c ∈ after.reverse, isWhiteSpace c = true := by
    intro c hc
    exact hafter c (List.mem_reverse.mp hc)
  rw [List.append_assoc, trim, dropWhile_append_of_stops hbefore hstart, trimEnd, List.reverse_append,
    dropWhile_append_of_stops hend hlast, List.reverse_reverse]

theorem exists_trim (text : List Char) : ∃ before after, text = before ++ trim text ++ after ∧
    (∀ c ∈ before, isWhiteSpace c = true) ∧ ∀ c ∈ after, isWhiteSpace c = true := by
  have hend (cs : List Char) : cs = trimEnd cs ++ (cs.reverse.takeWhile isWhiteSpace).reverse := by
    rw [trimEnd, ← List.reverse_append, List.takeWhile_append_dropWhile, List.reverse_reverse]
  refine ⟨text.takeWhile isWhiteSpace,
    ((text.dropWhile isWhiteSpace).reverse.takeWhile isWhiteSpace).reverse, ?_, ?_, ?_⟩
  · rw [List.append_assoc, trim, ← hend, List.takeWhile_append_dropWhile]
  · exact List.all_eq_true.mp List.all_takeWhile
  · intro c hc
    exact List.all_eq_true.mp List.all_takeWhile c (List.mem_reverse.mp hc)

end Trim

def IsSigned (n : Nat) (text : List Char) : Prop :=
  ∃ sign digits, text = sign ++ digits ∧ (sign = [] ∨ sign = ['+']) ∧ Score.IsNumeral n digits

def InMinute (minute : Option String) (n : Nat) : Prop :=
  ∃ text before core after, minute = some text ∧ text.toList = before ++ core ++ after ∧
    (∀ c ∈ before, isWhiteSpace c = true) ∧ IsSigned n core ∧ (∀ c ∈ after, isWhiteSpace c = true) ∧
    n < 4294967296

section Minutes

variable {n : Nat} {text : List Char}

theorem IsSigned.ne_nil (h : IsSigned n text) : text ≠ [] := by
  obtain ⟨sign, digits, rfl, -, hdigits⟩ := h
  exact List.append_ne_nil_of_right_ne_nil sign hdigits.ne_nil

theorem IsSigned.not_isWhiteSpace (h : IsSigned n text) : ∀ c ∈ text, isWhiteSpace c = false := by
  obtain ⟨sign, digits, rfl, hsign, hdigits⟩ := h
  intro c hc
  rcases List.mem_append.mp hc with hc | hc
  · rcases hsign with rfl | rfl
    · cases hc
    · obtain rfl := List.mem_singleton.mp hc
      decide
  · exact not_isWhiteSpace_of_isDigit (hdigits.isDigit c hc)

theorem IsSigned.trim_eq (h : IsSigned n text) {before after : List Char}
    (hbefore : ∀ c ∈ before, isWhiteSpace c = true) (hafter : ∀ c ∈ after, isWhiteSpace c = true) :
    trim (before ++ text ++ after) = text := by
  apply trim_append hbefore hafter h.ne_nil
  · intro c hc
    exact h.not_isWhiteSpace c (List.mem_of_mem_head? hc)
  · intro c hc
    exact h.not_isWhiteSpace c (List.mem_reverse.mp (List.mem_of_mem_head? hc))

theorem minuteValue?_eq_some_iff_trim (g : Goal) (n : Nat) : g.minuteValue? = some n ↔
    ∃ text, g.minute = some text ∧ IsSigned n (trim text.toList) ∧ n < 4294967296 := by
  unfold Goal.minuteValue?
  rw [Option.bind_eq_bind, Option.bind_eq_some_iff]
  refine exists_congr fun text => and_congr_right fun _ => ?_
  split
  case h_1 digits htext =>
    rw [htext, Score.readDecimal?_eq_some_iff_isNumeral]
    refine and_congr_left fun _ => ⟨fun h => ⟨['+'], digits, rfl, .inr rfl, h⟩, ?_⟩
    rintro ⟨sign, digits', he, rfl | rfl, h⟩
    · have hplus := h.isDigit '+' (by rw [← List.nil_append digits', ← he]; exact List.mem_cons_self)
      exact absurd hplus (by decide)
    · obtain ⟨-, rfl⟩ := List.cons.inj he
      exact h
  case h_2 hplus =>
    rw [Score.readDecimal?_eq_some_iff_isNumeral]
    refine and_congr_left fun _ => ⟨fun h => ⟨[], _, rfl, .inl rfl, h⟩, ?_⟩
    rintro ⟨sign, digits, he, rfl | rfl, h⟩
    · rwa [he]
    · exact absurd he (hplus digits)

theorem minuteValue?_eq_some_iff (g : Goal) (n : Nat) : g.minuteValue? = some n ↔ InMinute g.minute n := by
  rw [minuteValue?_eq_some_iff_trim]
  constructor
  · rintro ⟨text, hminute, hsigned, hn⟩
    obtain ⟨before, after, htext, hbefore, hafter⟩ := exists_trim text.toList
    exact ⟨text, before, _, after, hminute, htext, hbefore, hsigned, hafter, hn⟩
  · rintro ⟨text, before, core, after, hminute, htext, hbefore, hsigned, hafter, hn⟩
    refine ⟨text, hminute, ?_, hn⟩
    rwa [htext, hsigned.trim_eq hbefore hafter]

example : Goal.minuteValue? ⟨"P", "Z", some " +09\t", "final"⟩ = some 9 := by decide

example : Goal.minuteValue? ⟨"P", "Z", some "45+2", "final"⟩ = none := by decide

end Minutes

namespace Goal

variable {a b : Goal}

theorem before_iff : before a b = true ↔ a.player < b.player ∨
    a.player = b.player ∧ ∀ n, b.minuteValue? = some n → ∃ m ≤ n, a.minuteValue? = some m := by
  unfold before
  rw [Bool.or_eq_true, Bool.and_eq_true, decide_eq_true_eq, decide_eq_true_eq]
  refine or_congr_right (and_congr_right fun _ => ?_)
  cases a.minuteValue? <;> cases b.minuteValue? <;> simp

theorem ranks_before : Ranks before where
  trans a b c hab hbc := by
    rw [before_iff] at *
    rcases hab with hab | ⟨hab, hm⟩ <;> rcases hbc with hbc | ⟨hbc, hn⟩
    · exact .inl (String.lt_trans hab hbc)
    · exact .inl (hbc ▸ hab)
    · exact .inl (hab ▸ hbc)
    · refine .inr ⟨hab.trans hbc, fun k hk => ?_⟩
      obtain ⟨n, hnk, hb⟩ := hn k hk
      obtain ⟨m, hmn, ha⟩ := hm n hb
      exact ⟨m, hmn.trans hnk, ha⟩
  total a b := by
    rw [Bool.or_eq_true, before_iff, before_iff]
    rcases Std.lt_trichotomy a.player b.player with h | h | h
    · exact .inl (.inl h)
    · rcases ha : a.minuteValue? with _ | m <;> rcases hb : b.minuteValue? with _ | n
      · exact .inl (.inr ⟨h, by simp⟩)
      · exact .inr (.inr ⟨h.symm, by simp⟩)
      · exact .inl (.inr ⟨h, by simp⟩)
      · rcases Nat.le_total m n with hmn | hmn
        · exact .inl (.inr ⟨h, by simpa using hmn⟩)
        · exact .inr (.inr ⟨h.symm, by simpa using hmn⟩)
    · exact .inr (.inl h)

end Goal

def Scorer.Level (a b : Scorer) : Prop := a.player = b.player ∧ ∀ n, InMinute a.minute n ↔ InMinute b.minute n

namespace Goal

def scoring (g : Goal) : String × Scorer := (g.phase, ⟨g.player, g.minute⟩)

theorem tied_iff {a b : Goal} : Tied before a b = true ↔ a.scoring.2.Level b.scoring.2 := by
  have hlevel : a.scoring.2.Level b.scoring.2 ↔ a.player = b.player ∧ a.minuteValue? = b.minuteValue? := by
    rw [Option.ext_iff]
    simp only [minuteValue?_eq_some_iff]
    rfl
  rw [hlevel, Tied, before, before]
  by_cases hplayer : a.player = b.player
  · cases a.minuteValue? <;> cases b.minuteValue? <;> simp [hplayer, Nat.le_antisymm_iff]
  · have hasymm : ¬ (a.player < b.player ∧ b.player < a.player) := fun h => String.lt_asymm h.1 h.2
    simpa [hplayer, Ne.symm hplayer] using hasymm

def levels (g : Goal) (s : Scorer) : Bool := Tied before g ⟨s.player, g.club, s.minute, g.phase⟩

theorem level_of_levels {g : Goal} {s s' : Scorer} (h : g.levels s = true) (h' : g.levels s' = true) : s.Level s' := by
  have hle := ranks_before.le_of_tied g _ _ h h'
  have hle' := ranks_before.le_of_tied g _ _ h' h
  apply (tied_iff (a := ⟨s.player, g.club, s.minute, g.phase⟩) (b := ⟨s'.player, g.club, s'.minute, g.phase⟩)).mp
  rw [Tied, hle, hle', Bool.and_self]

end Goal

namespace Tournament

def scorings (t : Tournament) : List (String × Scorer) :=
  t.phases.flatMap fun e => e.2.flatMap fun f => f.scorers.map fun s => (e.1, s)

def Unlisted (t : Tournament) (player : String) : Prop :=
  ∀ team ∈ t.teams, ∀ p ∈ team.players, p.name ≠ player

def PlaysFor (t : Tournament) (player club : String) : Prop :=
  (∃ before team after, t.teams = before ++ team :: after ∧ team.name = club ∧
    (∃ p ∈ team.players, p.name = player) ∧ ∀ other ∈ before, ∀ p ∈ other.players, p.name ≠ player) ∨
  t.Unlisted player ∧ club = unknownClub

structure Chronicle (t : Tournament) (goals : List Goal) : Prop where
  complete : (goals.map Goal.scoring).Perm t.scorings
  clubs : ∀ g ∈ goals, t.PlaysFor g.player g.club
  ordered : goals.Pairwise fun a b => a.player < b.player ∨
    a.player = b.player ∧ ∀ n, InMinute b.minute n → ∃ m ≤ n, InMinute a.minute m
  stable (kept : Scorer → Bool) (hlevel : ∀ a b, kept a = true → kept b = true → a.Level b) :
    (goals.map Goal.scoring).filter (fun e => kept e.2) = t.scorings.filter fun e => kept e.2

theorem clubOf?_eq_some_iff {t : Tournament} {player club : String} : t.clubOf? player = some club ↔
    ∃ before team after, t.teams = before ++ team :: after ∧ team.name = club ∧
      (∃ p ∈ team.players, p.name = player) ∧ ∀ other ∈ before, ∀ p ∈ other.players, p.name ≠ player := by
  unfold clubOf?
  simp only [Option.map_eq_some_iff, List.find?_eq_some_iff_append, Team.lists, List.any_eq_true, Bool.not_eq_true',
    List.any_eq_false, decide_eq_true_eq]
  constructor
  · rintro ⟨team, ⟨hlists, before, after, hteams, hbefore⟩, hname⟩
    exact ⟨before, team, after, hteams, hname, hlists, hbefore⟩
  · rintro ⟨before, team, after, hteams, hname, hlists, hbefore⟩
    exact ⟨team, ⟨hlists, before, after, hteams, hbefore⟩, hname⟩

theorem clubOf?_eq_none_iff {t : Tournament} {player : String} : t.clubOf? player = none ↔ t.Unlisted player := by
  simp [clubOf?, Team.lists, Unlisted]

theorem playsFor_iff (t : Tournament) (player club : String) :
    t.PlaysFor player club ↔ club = (t.clubOf? player).getD unknownClub := by
  rw [PlaysFor, ← clubOf?_eq_some_iff, ← clubOf?_eq_none_iff]
  cases t.clubOf? player <;> simp [eq_comm]

def credited (t : Tournament) (e : String × Scorer) : Goal :=
  ⟨e.2.player, (t.clubOf? e.2.player).getD unknownClub, e.2.minute, e.1⟩

theorem goals_eq (t : Tournament) : t.goals = (t.scorings.map t.credited).mergeSort Goal.before := by
  have hgoals := t.flatMap_schedule_phases fun phase f => f.scorers.map fun s => t.credited (phase, s)
  rw [scorings, List.map_flatMap]
  simp only [List.map_flatMap, List.map_map]
  exact congrArg (List.mergeSort · Goal.before) hgoals

theorem map_scoring_credited (t : Tournament) : (t.scorings.map t.credited).map Goal.scoring = t.scorings := by
  rw [List.map_map]
  exact List.map_id t.scorings

theorem map_credited_scoring {t : Tournament} {goals : List Goal} (h : ∀ g ∈ goals, t.PlaysFor g.player g.club) :
    (goals.map Goal.scoring).map t.credited = goals := by
  rw [List.map_map]
  apply (List.map_congr_left fun g hg => ?_).trans (List.map_id goals)
  have hclub := (t.playsFor_iff _ _).mp (h g hg)
  exact congrArg (Goal.mk g.player · g.minute g.phase) hclub.symm

theorem pairwise_before_iff {goals : List Goal} : (goals.Pairwise fun a b => Goal.before a b = true) ↔
    goals.Pairwise fun a b => a.player < b.player ∨
      a.player = b.player ∧ ∀ n, InMinute b.minute n → ∃ m ≤ n, InMinute a.minute m := by
  simp only [Goal.before_iff, minuteValue?_eq_some_iff]

theorem club_of_mem_goals {t : Tournament} {g : Goal} (h : g ∈ t.goals) :
    g.club = (t.clubOf? g.player).getD unknownClub := by
  obtain ⟨p, -, hp⟩ := List.mem_flatMap.mp (List.mem_mergeSort.mp h)
  obtain ⟨s, -, rfl⟩ := List.mem_map.mp hp
  rfl

theorem chronicle_goals (t : Tournament) : t.Chronicle t.goals where
  complete := by
    have hperm := (List.mergeSort_perm (t.scorings.map t.credited) Goal.before).map Goal.scoring
    rwa [map_scoring_credited, ← goals_eq] at hperm
  clubs g hg := (t.playsFor_iff g.player g.club).mpr (club_of_mem_goals hg)
  ordered := by
    rw [goals_eq, ← pairwise_before_iff]
    exact List.pairwise_mergeSort Goal.ranks_before.trans Goal.ranks_before.total _
  stable kept hlevel := by
    have htied (a b : Goal) (ha : kept a.scoring.2 = true) (hb : kept b.scoring.2 = true) : Goal.before a b = true := by
      have hab := Goal.tied_iff.mpr (hlevel _ _ ha hb)
      rw [Tied, Bool.and_eq_true] at hab
      exact hab.1
    have hfilter : t.goals.filter (fun g => kept g.scoring.2) =
        (t.scorings.map t.credited).filter fun g => kept g.scoring.2 := by
      rw [goals_eq]
      exact Goal.ranks_before.filter_mergeSort htied _
    have hkept : (fun g : Goal => kept g.scoring.2) = (fun e => kept e.2) ∘ Goal.scoring := rfl
    rw [List.filter_map, ← hkept, hfilter, hkept, ← List.filter_map, map_scoring_credited]

theorem Chronicle.unique {t : Tournament} {goals goals' : List Goal} (h : t.Chronicle goals) (h' : t.Chronicle goals') :
    goals = goals' := by
  apply Goal.ranks_before.eq_of_filter (pairwise_before_iff.mpr h.ordered) (pairwise_before_iff.mpr h'.ordered)
  intro x
  have hscorings := (h.stable x.levels fun a b => Goal.level_of_levels).trans
    (h'.stable x.levels fun a b => Goal.level_of_levels).symm
  have hlevels : (fun e => x.levels e.2) ∘ Goal.scoring = Tied Goal.before x := rfl
  rw [List.filter_map, List.filter_map, hlevels] at hscorings
  rw [← map_credited_scoring fun g hg => h.clubs g (List.mem_filter.mp hg).1, hscorings]
  exact map_credited_scoring fun g hg => h'.clubs g (List.mem_filter.mp hg).1

theorem chronicle_iff_eq_goals (t : Tournament) (goals : List Goal) : t.Chronicle goals ↔ goals = t.goals := by
  constructor
  · intro h
    exact h.unique t.chronicle_goals
  · rintro rfl
    exact t.chronicle_goals

end Tournament

end Knockout
