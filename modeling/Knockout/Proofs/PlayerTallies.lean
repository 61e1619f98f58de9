import Knockout.Goal
import Knockout.Proofs.StableOrder
import Mathlib.Algebra.BigOperators.Group.List.Lemmas
import Mathlib.Data.List.Dedup
import Mathlib.Data.List.Sort
import Mathlib.Data.UInt

namespace Knockout

def Goal.isOf (player : String) (g : Goal) : Bool := g.player = player

theorem Goal.minutes_singleton (g : Goal) : [g].filterMap minute = g.minute.toList := by
  cases h : g.minute <;> simp [h]

namespace Tally

structure Covers (t : Tally) (goals : List Goal) : Prop where
  count : t.goals = .ofNat (goals.countP (Goal.isOf t.player))
  minutes : t.minutes = (goals.filter (Goal.isOf t.player)).filterMap Goal.minute
  club : (goals.find? (Goal.isOf t.player)).map Goal.club = some t.club

def opened (g : Goal) : Tally := ⟨g.player, g.club, 1, g.minute.toList⟩

def raised (t : Tally) (g : Goal) : Tally :=
  { t with goals := t.goals + 1, minutes := t.minutes ++ g.minute.toList }

section Covers

variable {t : Tally} {goals : List Goal} {g : Goal}

theorem covers_opened (h : g.player ∉ goals.map Goal.player) : (opened g).Covers (goals ++ [g]) := by
  have hnone : ∀ e ∈ goals, ¬ Goal.isOf g.player e = true := by
    intro e he hp
    apply h
    rw [← of_decide_eq_true hp]
    exact List.mem_map_of_mem he
  have hg : Goal.isOf g.player g = true := decide_eq_true rfl
  constructor
  · rw [opened, List.countP_append, List.countP_eq_zero.mpr hnone, List.countP_singleton, if_pos hg]
    rfl
  · rw [opened, List.filter_append, List.filter_eq_nil_iff.mpr hnone, List.filter_cons_of_pos hg,
      List.filter_nil, List.nil_append, Goal.minutes_singleton]
  · rw [opened, List.find?_append, List.find?_eq_none.mpr hnone, List.find?_singleton, if_pos hg]
    rfl

theorem Covers.raised (h : t.Covers goals) (hp : t.player = g.player) : (t.raised g).Covers (goals ++ [g]) := by
  have hg : Goal.isOf t.player g = true := decide_eq_true hp.symm
  constructor
  · rw [Tally.raised, List.countP_append, List.countP_singleton, if_pos hg, UInt32.ofNat_add, h.count]
    rfl
  · rw [Tally.raised, List.filter_append, List.filter_cons_of_pos hg, List.filter_nil, List.filterMap_append,
      Goal.minutes_singleton, h.minutes]
  · have hclub := h.club
    rw [Tally.raised, List.find?_append, Option.map_or, hclub, Option.some_or]

theorem Covers.of_other (h : t.Covers goals) (hp : t.player ≠ g.player) : t.Covers (goals ++ [g]) := by
  have hg : ¬ Goal.isOf t.player g = true := fun hg => hp (of_decide_eq_true hg).symm
  constructor
  · rw [List.countP_append, List.countP_singleton, if_neg hg, Nat.add_zero]
    exact h.count
  · rw [List.filter_append, List.filter_cons_of_neg hg, List.filter_nil, List.append_nil]
    exact h.minutes
  · rw [List.find?_append, Option.map_or, h.club, Option.some_or]

end Covers

section Credit

variable {tallies : List Tally} {g : Goal} {t : Tally}

theorem players_credit (g : Goal) (tallies : List Tally) : (credit g tallies).map player =
    if g.player ∈ tallies.map player then tallies.map player else tallies.map player ++ [g.player] := by
  induction tallies with
  | nil => rfl
  | cons first rest ih =>
    rw [credit]
    by_cases hp : first.player = g.player
    · rw [if_pos hp, List.map_cons, List.map_cons, if_pos (by rw [hp]; exact List.mem_cons_self)]
    · rw [if_neg hp, List.map_cons, List.map_cons, ih]
      by_cases hm : g.player ∈ rest.map player
      · rw [if_pos hm, if_pos (List.mem_cons_of_mem _ hm)]
      · have hm' : g.player ∉ first.player :: rest.map player := by simpa [Ne.symm hp] using hm
        rw [if_neg hm, if_neg hm', List.cons_append]

theorem mem_credit (hn : (tallies.map player).Nodup) (h : t ∈ credit g tallies) :
    t ∈ tallies ∧ t.player ≠ g.player ∨ g.player ∉ tallies.map player ∧ t = opened g ∨
      ∃ before ∈ tallies, before.player = g.player ∧ t = before.raised g := by
  induction tallies with
  | nil =>
    obtain rfl := List.mem_singleton.mp h
    exact .inr (.inl ⟨List.not_mem_nil, rfl⟩)
  | cons first rest ih =>
    obtain ⟨hfirst, hrest⟩ := List.nodup_cons.mp hn
    rw [credit] at h
    by_cases hp : first.player = g.player
    · rw [if_pos hp] at h
      rcases List.mem_cons.mp h with rfl | h
      · exact .inr (.inr ⟨first, List.mem_cons_self, hp, rfl⟩)
      · refine .inl ⟨List.mem_cons_of_mem _ h, fun ht => hfirst ?_⟩
        rw [hp, ← ht]
        exact List.mem_map_of_mem h
    · rw [if_neg hp] at h
      rcases List.mem_cons.mp h with rfl | h
      · exact .inl ⟨List.mem_cons_self, hp⟩
      · rcases ih hrest h with ⟨hm, ht⟩ | ⟨hm, ht⟩ | ⟨before, hm, hb, ht⟩
        · exact .inl ⟨List.mem_cons_of_mem _ hm, ht⟩
        · refine .inr (.inl ⟨?_, ht⟩)
          simpa [Ne.symm hp] using hm
        · exact .inr (.inr ⟨before, List.mem_cons_of_mem _ hm, hb, ht⟩)

end Credit

structure Keeps (goals : List Goal) (tallies : List Tally) : Prop where
  distinct : (tallies.map player).Nodup
  players (name : String) : name ∈ tallies.map player ↔ name ∈ goals.map Goal.player
  covers : ∀ t ∈ tallies, t.Covers goals

theorem Keeps.credit {goals : List Goal} {tallies : List Tally} (h : Keeps goals tallies) (g : Goal) :
    Keeps (goals ++ [g]) (credit g tallies) where
  distinct := by
    rw [players_credit]
    split
    case isTrue => exact h.distinct
    case isFalse hm => exact h.distinct.append (List.nodup_singleton _) (by simpa using hm)
  players name := by
    rw [players_credit, List.map_append, List.mem_append, ← h.players]
    split
    case isTrue hm =>
      constructor
      · exact .inl
      · rintro (hname | hname)
        · exact hname
        · obtain rfl := List.mem_singleton.mp hname
          exact hm
    case isFalse => exact List.mem_append
  covers t ht := by
    rcases mem_credit h.distinct ht with ⟨hm, hp⟩ | ⟨hm, rfl⟩ | ⟨before, hm, hp, rfl⟩
    · exact (h.covers t hm).of_other hp
    · apply covers_opened
      rwa [← h.players]
    · exact (h.covers before hm).raised hp

theorem keeps_foldl_credit (goals : List Goal) : Keeps goals (goals.foldl (fun tallies g => credit g tallies) []) := by
  induction goals using List.reverseRecOn with
  | nil => exact ⟨List.nodup_nil, fun _ => Iff.rfl, fun _ => nofun⟩
  | append_singleton goals g ih =>
    rw [List.foldl_append]
    exact ih.credit g

theorem keeps_ofGoals (goals : List Goal) : Keeps goals (ofGoals goals) := by
  have h := keeps_foldl_credit goals
  have hperm := List.mergeSort_perm (goals.foldl (fun tallies g => credit g tallies) []) ahead
  constructor
  · exact (hperm.map player).nodup_iff.mpr h.distinct
  · intro name
    rw [← h.players]
    exact (hperm.map player).mem_iff
  · exact fun t ht => h.covers t (hperm.mem_iff.mp ht)

def Precedes (a b : String × UInt32) : Prop := b.2 < a.2 ∨ a.2 = b.2 ∧ a.1 < b.1

instance : Std.Asymm Precedes where
  asymm a b hab hba := by
    rcases hab with hab | ⟨he, hab⟩
    · rcases hba with hba | ⟨he, -⟩
      · exact UInt32.lt_asymm hab hba
      · exact UInt32.ne_of_lt hab he
    · rcases hba with hba | ⟨-, hba⟩
      · exact UInt32.ne_of_lt hba he
      · exact String.lt_asymm hab hba

theorem ranks_ahead : Ranks ahead where
  trans a b c := by
    simp only [ahead, Bool.or_eq_true, Bool.and_eq_true, decide_eq_true_eq, UInt32.lt_iff_toNat_lt, ← UInt32.toNat_inj]
    rintro (hab | ⟨hab, hn⟩) (hbc | ⟨hbc, hn'⟩)
    · exact .inl (hbc.trans hab)
    · exact .inl (hbc ▸ hab)
    · exact .inl (hab ▸ hbc)
    · exact .inr ⟨hab.trans hbc, String.le_trans hn hn'⟩
  total a b := by
    simp only [ahead, Bool.or_eq_true, Bool.and_eq_true, decide_eq_true_eq, UInt32.lt_iff_toNat_lt, ← UInt32.toNat_inj]
    rcases Nat.lt_trichotomy a.goals.toNat b.goals.toNat with h | h | h
    · exact .inr (.inl h)
    · rcases String.le_total a.player b.player with hn | hn
      · exact .inl (.inr ⟨h, hn⟩)
      · exact .inr (.inr ⟨h.symm, hn⟩)
    · exact .inl (.inl h)

def figure (t : Tally) : String × UInt32 := (t.player, t.goals)

theorem precedes_of_ahead {a b : Tally} (h : ahead a b = true) (hne : a.player ≠ b.player) :
    Precedes a.figure b.figure := by
  simp only [ahead, Bool.or_eq_true, Bool.and_eq_true, decide_eq_true_eq] at h
  rcases h with h | ⟨h, hle⟩
  · exact .inl h
  · exact .inr ⟨h, Std.lt_of_le_of_ne hle hne⟩

theorem ordered_ofGoals (goals : List Goal) : ((ofGoals goals).map figure).Pairwise Precedes := by
  have hsorted := List.pairwise_mergeSort ranks_ahead.trans ranks_ahead.total
    (goals.foldl (fun tallies g => credit g tallies) [])
  have hdistinct := List.pairwise_map.mp (keeps_ofGoals goals).distinct
  apply List.pairwise_map.mpr
  apply (hsorted.and hdistinct).imp
  rintro a b ⟨hab, hne⟩
  exact precedes_of_ahead hab hne

end Tally

/--
One tally for each player, with the number of the player's goals, their minutes as they come, and the club of the
first of them; most goals come first, and of players with as many the one whose name is first.
-/
structure Tallied (goals : List Goal) (tallies : List Tally) : Prop where
  distinct : (tallies.map Tally.player).Nodup
  players (name : String) : name ∈ tallies.map Tally.player ↔ ∃ g ∈ goals, g.player = name
  counts : ∀ t ∈ tallies, t.goals.toNat = goals.countP fun g => g.player = t.player
  minutes : ∀ t ∈ tallies, t.minutes = (goals.filter fun g => g.player = t.player).filterMap Goal.minute
  clubs : ∀ t ∈ tallies, ∃ before first after, goals = before ++ first :: after ∧ first.player = t.player ∧
    first.club = t.club ∧ ∀ g ∈ before, g.player ≠ t.player
  total : (tallies.map fun t => t.goals.toNat).sum = goals.length
  ordered : tallies.Pairwise fun a b => b.goals < a.goals ∨ a.goals = b.goals ∧ a.player < b.player

namespace Tallied

variable {goals goals' : List Goal} {tallies tallies' : List Tally}

theorem figures_ordered (h : Tallied goals tallies) : (tallies.map Tally.figure).Pairwise Tally.Precedes :=
  List.pairwise_map.mpr h.ordered

theorem mem_figures_iff (h : Tallied goals tallies) (e : String × UInt32) : e ∈ tallies.map Tally.figure ↔
    (∃ g ∈ goals, g.player = e.1) ∧ e.2.toNat = goals.countP fun g => g.player = e.1 := by
  constructor
  · intro he
    obtain ⟨t, ht, rfl⟩ := List.mem_map.mp he
    exact ⟨(h.players t.player).mp (List.mem_map_of_mem ht), h.counts t ht⟩
  · rintro ⟨hplayer, hcount⟩
    obtain ⟨t, ht, he⟩ := List.mem_map.mp ((h.players e.1).mpr hplayer)
    refine List.mem_map.mpr ⟨t, ht, Prod.ext he ?_⟩
    apply UInt32.toNat_inj.mp
    rw [hcount, ← he]
    exact h.counts t ht

theorem figures_eq_of_perm (h : Tallied goals tallies) (h' : Tallied goals' tallies') (hp : goals.Perm goals') :
    tallies.map Tally.figure = tallies'.map Tally.figure := by
  apply h.figures_ordered.eq_of_mem_iff h'.figures_ordered
  intro e
  rw [h.mem_figures_iff, h'.mem_figures_iff, hp.countP_eq]
  simp only [hp.mem_iff]

end Tallied

theorem Tally.club_of_find? {goals : List Goal} {player club : String}
    (h : (goals.find? (Goal.isOf player)).map Goal.club = some club) :
    ∃ before first after, goals = before ++ first :: after ∧ first.player = player ∧ first.club = club ∧
      ∀ g ∈ before, g.player ≠ player := by
  obtain ⟨first, hfirst, hclub⟩ := Option.map_eq_some_iff.mp h
  obtain ⟨hp, before, after, hgoals, hbefore⟩ := List.find?_eq_some_iff_append.mp hfirst
  refine ⟨before, first, after, hgoals, of_decide_eq_true hp, hclub, fun g hg => ?_⟩
  simpa [Goal.isOf] using hbefore g hg

theorem Tally.sum_counts {goals : List Goal} {tallies : List Tally} (hn : (tallies.map player).Nodup)
    (hplayers : ∀ name, name ∈ tallies.map player ↔ name ∈ goals.map Goal.player) :
    (tallies.map fun t => goals.countP (Goal.isOf t.player)).sum = goals.length := by
  have hperm : (tallies.map player).Perm (goals.map Goal.player).dedup := by
    apply (List.perm_ext_iff_of_nodup hn (List.nodup_dedup _)).mpr
    intro name
    rw [hplayers, List.mem_dedup]
  have hcount (name : String) : (goals.map Goal.player).count name = goals.countP (Goal.isOf name) := by
    rw [List.count, List.countP_map]
    rfl
  have hsum := List.sum_map_count_dedup_eq_length (goals.map Goal.player)
  rw [← (hperm.map _).sum_eq, List.map_map, List.length_map] at hsum
  rw [← hsum]
  congr 2
  funext t
  exact (hcount t.player).symm

theorem tallied_ofGoals {goals : List Goal} (h : goals.length < 4294967296) : Tallied goals (Tally.ofGoals goals) := by
  have hkeeps := Tally.keeps_ofGoals goals
  have hcounts : ∀ t ∈ Tally.ofGoals goals, t.goals.toNat = goals.countP (Goal.isOf t.player) := by
    intro t ht
    rw [(hkeeps.covers t ht).count]
    apply UInt32.toNat_ofNat_of_lt'
    exact List.countP_le_length.trans_lt h
  constructor
  · exact hkeeps.distinct
  · intro name
    rw [hkeeps.players, List.mem_map]
  · exact hcounts
  · exact fun t ht => (hkeeps.covers t ht).minutes
  · exact fun t ht => Tally.club_of_find? (hkeeps.covers t ht).club
  · rw [List.map_congr_left hcounts]
    exact Tally.sum_counts hkeeps.distinct hkeeps.players
  · exact List.pairwise_map.mp (Tally.ordered_ofGoals goals)

theorem tallies_share_goals (goals : List Goal) (h : goals.length < 4294967296) :
    Tallied goals (Tally.ofGoals goals) ∧ ∀ goals', goals'.Perm goals →
      (Tally.ofGoals goals').map Tally.figure = (Tally.ofGoals goals).map Tally.figure := by
  have htallied := tallied_ofGoals h
  refine ⟨htallied, fun goals' hp => ?_⟩
  have htallied' : Tallied goals' (Tally.ofGoals goals') := by
    apply tallied_ofGoals
    rwa [hp.length_eq]
  exact htallied'.figures_eq_of_perm htallied hp

theorem tallies_share_goals_of_three_players :
    let goals : List Goal := [⟨"Eva", "B", some "12", "cuartos"⟩, ⟨"Cid", "C", none, "cuartos"⟩,
      ⟨"Eva", "D", none, "final"⟩, ⟨"Ana", "A", some "90+1", "final"⟩, ⟨"Cid", "C", some "7", "final"⟩]
    goals.length < 4294967296 ∧ Tallied goals (Tally.ofGoals goals) ∧ ∀ goals', goals'.Perm goals →
      (Tally.ofGoals goals').map Tally.figure = (Tally.ofGoals goals).map Tally.figure := by
  intro goals
  have h : goals.length < 4294967296 := by decide
  exact ⟨h, tallies_share_goals goals h⟩

example : (Tally.ofGoals [⟨"Eva", "B", some "12", "cuartos"⟩, ⟨"Cid", "C", none, "cuartos"⟩,
    ⟨"Eva", "D", none, "final"⟩]).map (fun t => (t.player, t.club, t.goals, t.minutes)) =
      [("Eva", "B", 2, ["12"]), ("Cid", "C", 1, [])] := by cbv

end Knockout
