import Knockout.Finding
import Mathlib.Algebra.BigOperators.Group.List.Basic
import Mathlib.Data.List.Nodup
import Mathlib.Data.UInt

namespace Knockout

def Phase.isMiscased (key : String) : Bool := (ofName? key).any fun p => key ≠ p.key

theorem Phase.isMiscased_key (p : Phase) : isMiscased p.key = false := by
  simp [isMiscased, ofName?_key]

theorem Phase.ofName?_eq_none_iff (key : String) :
    ofName? key = none ↔ (∀ p : Phase, key ≠ p.key) ∧ isMiscased key = false := by
  constructor
  · intro h
    refine ⟨?_, by simp [isMiscased, h]⟩
    rintro p rfl
    rw [ofName?_key] at h
    cases h
  · rintro ⟨hk, hm⟩
    cases h : ofName? key with
    | none => rfl
    | some p => simp [isMiscased, h, hk p] at hm

def Phase.place (key : String) : Nat := (all.find? fun p => p.key = key).elim 4 rank

def Phase.Precedes (a b : String) : Prop := place a < place b ∨ place a = place b ∧ a < b

theorem Phase.place_key (p : Phase) : place p.key = p.rank := by
  cases p <;> rfl

theorem Phase.place_of_ofName? {key : String} (h : ofName? key = none) : place key = 4 := by
  have hf : (all.find? fun p => p.key = key) = none := by
    refine List.find?_eq_none.mpr fun p _ hp => ((ofName?_eq_none_iff key).mp h).1 p ?_
    exact (of_decide_eq_true hp).symm
  rw [place, hf]
  rfl

theorem Phase.not_precedes_self (key : String) : ¬ Precedes key key := by
  rintro (h | ⟨-, h⟩)
  · exact Nat.lt_irrefl _ h
  · exact String.lt_irrefl _ h

theorem Phase.eq_of_rank_eq {p q : Phase} (h : p.rank = q.rank) : p = q := by
  have hp := ofRank?_rank p
  rw [h, ofRank?_rank] at hp
  exact (Option.some.inj hp).symm

theorem Phase.rank_lt_four (p : Phase) : p.rank < 4 := by
  cases p <;> decide

theorem perm_iff_of_perm_filter {α : Type} {l whole : List α} {accepts : α → Bool}
    (h : l.Perm (whole.filter accepts)) : l.Perm whole ↔ ∀ x ∈ whole, accepts x = true := by
  rw [← List.length_filter_eq_length_iff]
  constructor
  · intro hw
    rw [← h.length_eq, hw.length_eq]
  · intro hl
    rwa [List.filter_eq_self.mpr (List.length_filter_eq_length_iff.mp hl)] at h

namespace Tournament

def known (t : Tournament) : List (String × List Fixture) :=
  Phase.all.filterMap fun p => t.bracket.entries.find? fun e => e.1 = p.key

def others (t : Tournament) : List (String × List Fixture) :=
  t.bracket.entries.filter fun e => (Phase.ofName? e.1).isNone

def placed (e : String × List Fixture) : List Placed := e.2.mapIdx fun index fixture => ⟨e.1, index, fixture⟩

def games (t : Tournament) : List Placed := t.bracket.entries.flatMap placed

def credits (t : Tournament) (g : Placed) : List Goal :=
  g.fixture.scorers.map fun s => ⟨s.player, (t.clubOf? s.player).getD unknownClub, s.minute, g.phase⟩

theorem map_lookup_eq_find? {α : Type} (key : String) (l : List (String × α)) :
    (l.lookup key).map (fun value => (key, value)) = l.find? fun e => e.1 = key := by
  induction l with
  | nil => rfl
  | cons e l ih =>
    obtain ⟨k, value⟩ := e
    by_cases h : k = key
    · subst h
      simp
    · have hb : (key == k) = false := beq_eq_false_iff_ne.mpr (Ne.symm h)
      simp [List.lookup_cons, hb, h, ih]

theorem phases_eq_append (t : Tournament) : t.phases = t.known ++ t.others := by
  have hknown (p : Phase) : ((t.fixtures? p).map fun games => (p.key, games)) =
      t.bracket.entries.find? fun e => e.1 = p.key := map_lookup_eq_find? p.key t.bracket.entries
  simp only [phases, hknown]
  rfl

theorem keys_nodup {α : Type} (m : KeyMap α) : (m.entries.map Prod.fst).Nodup :=
  List.pairwise_map.mpr (m.ordered.imp String.ne_of_lt)

theorem mem_known_iff {t : Tournament} {e : String × List Fixture} :
    e ∈ t.known ↔ e ∈ t.bracket.entries ∧ ∃ p : Phase, e.1 = p.key := by
  rw [known, List.mem_filterMap]
  constructor
  · rintro ⟨p, -, hp⟩
    exact ⟨List.mem_of_find?_eq_some hp, p, by simpa using List.find?_some hp⟩
  · rintro ⟨he, p, hp⟩
    refine ⟨p, p.mem_all, ?_⟩
    cases hf : t.bracket.entries.find? fun e => e.1 = p.key with
    | none => simpa [hp] using List.find?_eq_none.mp hf e he
    | some e' =>
      have hk : e'.1 = p.key := by simpa using List.find?_some hf
      rw [List.inj_on_of_nodup_map (keys_nodup t.bracket) he (List.mem_of_find?_eq_some hf) (hp.trans hk.symm)]

theorem known_ordered (t : Tournament) : t.known.Pairwise fun a b => Phase.Precedes a.1 b.1 := by
  have hranks : Phase.all.Pairwise fun p q => p.rank < q.rank := by decide
  refine List.pairwise_filterMap.mpr (hranks.imp fun {p q} hr a ha b hb => .inl ?_)
  have hp : a.1 = p.key := by simpa using List.find?_some ha
  have hq : b.1 = q.key := by simpa using List.find?_some hb
  rwa [hp, hq, Phase.place_key, Phase.place_key]

theorem place_of_mem_others {t : Tournament} {e : String × List Fixture} (h : e ∈ t.others) :
    Phase.place e.1 = 4 :=
  Phase.place_of_ofName? (by simpa using (List.mem_filter.mp h).2)

theorem others_ordered (t : Tournament) : t.others.Pairwise fun a b => Phase.Precedes a.1 b.1 := by
  refine (t.bracket.ordered.filter _).imp_of_mem fun ha hb hlt => .inr ⟨?_, hlt⟩
  rw [place_of_mem_others ha, place_of_mem_others hb]

theorem phases_ordered (t : Tournament) : t.phases.Pairwise fun a b => Phase.Precedes a.1 b.1 := by
  rw [phases_eq_append, List.pairwise_append]
  refine ⟨t.known_ordered, t.others_ordered, fun a ha b hb => .inl ?_⟩
  obtain ⟨-, p, hp⟩ := mem_known_iff.mp ha
  rw [hp, Phase.place_key, place_of_mem_others hb]
  exact p.rank_lt_four

theorem phases_nodup (t : Tournament) : t.phases.Nodup := by
  refine t.phases_ordered.imp fun {a b} h => ?_
  rintro rfl
  exact Phase.not_precedes_self _ h

theorem phases_perm (t : Tournament) :
    t.phases.Perm (t.bracket.entries.filter fun e => !Phase.isMiscased e.1) := by
  refine (List.perm_ext_iff_of_nodup t.phases_nodup ((keys_nodup t.bracket).of_map.filter _)).mpr fun e => ?_
  rw [phases_eq_append, List.mem_append, mem_known_iff, others, List.mem_filter, List.mem_filter, ← and_or_left]
  refine and_congr_right fun _ => ?_
  rw [Option.isNone_iff_eq_none, Phase.ofName?_eq_none_iff, Bool.not_eq_true']
  constructor
  · rintro (⟨p, hp⟩ | ⟨-, hm⟩)
    · rw [hp, Phase.isMiscased_key]
    · exact hm
  · intro hm
    by_cases h : ∃ p : Phase, e.1 = p.key
    · exact .inl h
    · exact .inr ⟨fun p hp => h ⟨p, hp⟩, hm⟩

theorem phases_perm_entries_iff (t : Tournament) :
    t.phases.Perm t.bracket.entries ↔ ∀ e ∈ t.bracket.entries, Phase.isMiscased e.1 = false := by
  rw [perm_iff_of_perm_filter t.phases_perm]
  simp only [Bool.not_eq_true']

theorem phase_of_mem_placed {e : String × List Fixture} {g : Placed} (h : g ∈ placed e) : g.phase = e.1 := by
  obtain ⟨i, hi, rfl⟩ := List.mem_mapIdx.mp h
  rfl

theorem mem_schedule {t : Tournament} {g : Placed} :
    g ∈ t.schedule ↔ ∃ fixtures, (g.phase, fixtures) ∈ t.phases ∧ fixtures[g.index]? = some g.fixture := by
  rw [schedule, List.mem_flatMap]
  constructor
  · rintro ⟨⟨key, fixtures⟩, he, hg⟩
    obtain ⟨i, hi, rfl⟩ := List.mem_mapIdx.mp hg
    exact ⟨fixtures, he, List.getElem?_eq_getElem hi⟩
  · rintro ⟨fixtures, he, hf⟩
    obtain ⟨hi, hf⟩ := List.getElem?_eq_some_iff.mp hf
    exact ⟨_, he, List.mem_mapIdx.mpr ⟨g.index, hi, by rw [hf]⟩⟩

theorem filter_games (t : Tournament) (accepts : String → Bool) :
    t.games.filter (fun g => accepts g.phase) = (t.bracket.entries.filter fun e => accepts e.1).flatMap placed := by
  rw [games]
  induction t.bracket.entries with
  | nil => rfl
  | cons e l ih =>
    rw [List.flatMap_cons, List.filter_append, ih]
    cases h : accepts e.1 with
    | true =>
      have hself : (placed e).filter (fun g => accepts g.phase) = placed e := by
        refine List.filter_eq_self.mpr fun g hg => ?_
        rw [phase_of_mem_placed hg, h]
      rw [hself, List.filter_cons_of_pos (by simpa using h), List.flatMap_cons]
    | false =>
      have hnil : (placed e).filter (fun g => accepts g.phase) = [] := by
        refine List.filter_eq_nil_iff.mpr fun g hg => ?_
        rw [phase_of_mem_placed hg, h]
        exact Bool.false_ne_true
      rw [hnil, List.filter_cons_of_neg (by simp [h]), List.nil_append]

theorem schedule_perm (t : Tournament) : t.schedule.Perm (t.games.filter fun g => !Phase.isMiscased g.phase) := by
  rw [t.filter_games fun key => !Phase.isMiscased key]
  exact t.phases_perm.flatMap_right placed

theorem schedule_length_le (t : Tournament) : t.schedule.length ≤ t.games.length := by
  rw [t.schedule_perm.length_eq]
  exact List.length_filter_le _ _

theorem schedule_perm_games_iff (t : Tournament) :
    t.schedule.Perm t.games ↔ ∀ e ∈ t.bracket.entries, Phase.isMiscased e.1 = true → e.2 = [] := by
  rw [perm_iff_of_perm_filter t.schedule_perm]
  constructor
  · intro h e he hm
    cases hl : e.2 with
    | nil => rfl
    | cons fixture rest =>
      have hg : ⟨e.1, 0, fixture⟩ ∈ t.games := List.mem_flatMap.mpr ⟨e, he, by simp [placed, hl]⟩
      have := h _ hg
      simp [hm] at this
  · intro h g hg
    obtain ⟨e, he, hp⟩ := List.mem_flatMap.mp hg
    cases hm : Phase.isMiscased e.1 with
    | false =>
      rw [phase_of_mem_placed hp, hm]
      rfl
    | true => simp [placed, h e he hm] at hp

theorem goals_perm (t : Tournament) :
    t.goals.Perm ((t.games.filter fun g => !Phase.isMiscased g.phase).flatMap t.credits) :=
  (List.mergeSort_perm _ _).trans (t.schedule_perm.flatMap_right t.credits)

end Tournament

namespace Finding

def game? : Finding → Option Placed
  | pending g | drawn g => some g
  | unrosteredScorer .. | unrosteredTeam .. => none

def isUndecided (g : Placed) : Bool := g.fixture.verdict? = none || g.fixture.verdict? = some .draw

theorem games_all (t : Tournament) (goals : List Goal) :
    (all t goals).filterMap game? = t.schedule.filter isUndecided := by
  have hgame (g : Placed) : (ofGame? g).bind game? = if isUndecided g then some g else none := by
    unfold ofGame? isUndecided
    rcases g.fixture.verdict? with _ | _ | _ | _ <;> rfl
  have hplayers (players : List String) (count : String → Nat) :
      (players.map fun player => unrosteredScorer player (count player)).filterMap game? = [] := by
    simp [List.filterMap_map, game?, Function.comp_def]
  have hteams (teams : List String) : (teams.map unrosteredTeam).filterMap game? = [] := by
    simp [List.filterMap_map, game?, Function.comp_def]
  rw [all, List.filterMap_append, List.filterMap_append, hplayers, hteams, List.append_nil, List.append_nil,
    List.filterMap_filterMap]
  simp only [hgame]
  induction t.schedule with
  | nil => rfl
  | cons g rest ih => cases h : isUndecided g <;> simp [h, ih]

end Finding

namespace Standing

def playedIn (rows : List Row) : UInt32 := (rows.map Row.played).sum

theorem playedIn_update {change : Row → Row} {k : UInt32} (h : ∀ row, (change row).played = row.played + k)
    (team : String) (rows : List Row) : playedIn (update team change rows) = playedIn rows + k := by
  induction rows with
  | nil => simp [playedIn, update, h]
  | cons row rest ih =>
    unfold playedIn at ih
    unfold update
    split
    · simp only [playedIn, List.map_cons, List.sum_cons, h]
      rw [add_right_comm]
    · simp only [playedIn, List.map_cons, List.sum_cons, ih]
      rw [add_assoc]

theorem played_record (scored conceded : Nat) (row : Row) : (row.record scored conceded).played = row.played + 1 := by
  unfold Row.record
  split
  · rfl
  · split <;> rfl

theorem playedIn_enter (rows : List Row) (g : Placed) :
    playedIn (enter rows g) = playedIn rows + if g.fixture.score?.isSome then 2 else 0 := by
  have hreach (rank : Nat) (row : Row) : (row.reach rank).played = row.played + 0 := by simp [Row.reach]
  unfold enter
  cases hs : g.fixture.score? with
  | none => simp [playedIn_update (hreach _)]
  | some s =>
    simp only [playedIn_update (hreach _), playedIn_update (played_record _ _), Option.isSome_some, ↓reduceIte]
    rw [add_zero, add_zero, add_assoc]
    rfl

theorem playedIn_foldl_enter (rows : List Row) (games : List Placed) :
    playedIn (games.foldl enter rows) =
      playedIn rows + 2 * UInt32.ofNat (games.countP fun g => g.fixture.score?.isSome) := by
  induction games generalizing rows with
  | nil => simp
  | cons g rest ih =>
    rw [List.foldl_cons, ih, playedIn_enter, List.countP_cons]
    split
    · rw [UInt32.ofNat_add, UInt32.mul_add, add_assoc, add_comm (2 : UInt32)]
      rfl
    · rw [add_zero, Nat.add_zero]

theorem playedIn_rosters (teams : List Team) (rows : List Row) :
    playedIn (teams.foldl (fun rows team => update team.name id rows) rows) = playedIn rows := by
  induction teams generalizing rows with
  | nil => rfl
  | cons team rest ih =>
    rw [List.foldl_cons, ih, playedIn_update (k := 0) (fun row => by simp)]
    simp

end Standing

theorem Tournament.sum_played (t : Tournament) :
    (t.standings.map Standing.played).sum =
      2 * UInt32.ofNat
        ((t.games.filter fun g => !Phase.isMiscased g.phase).countP fun g => g.fixture.score?.isSome) := by
  have hrows : (t.standings.map Standing.played).sum = Standing.playedIn (Standing.rows t) := by
    rw [standings, ((List.mergeSort_perm _ Standing.ahead).map Standing.played).sum_eq, List.map_map]
    rfl
  rw [hrows, Standing.rows, Standing.playedIn_foldl_enter, Standing.playedIn_rosters, t.schedule_perm.countP_eq]
  simp [Standing.playedIn]

/--
What becomes of the entries of a bracket. A phase whose key is miscased is not visited, and so neither the table nor
the scorers nor the findings know of its matches; every other match reaches each of them once.
-/
structure Tournament.Visited (t : Tournament) : Prop where
  phases : t.phases.Perm (t.bracket.entries.filter fun e => !Phase.isMiscased e.1)
  ordered : t.phases.Pairwise fun a b => Phase.Precedes a.1 b.1
  all_phases : t.phases.Perm t.bracket.entries ↔ ∀ e ∈ t.bracket.entries, Phase.isMiscased e.1 = false
  schedule : t.schedule.Perm (t.games.filter fun g => !Phase.isMiscased g.phase)
  all_games : t.schedule.Perm t.games ↔ ∀ e ∈ t.bracket.entries, Phase.isMiscased e.1 = true → e.2 = []
  standings : (t.standings.map Standing.played).sum =
    2 * UInt32.ofNat ((t.games.filter fun g => !Phase.isMiscased g.phase).countP fun g => g.fixture.score?.isSome)
  scorers : t.goals.Perm ((t.games.filter fun g => !Phase.isMiscased g.phase).flatMap t.credits)
  findings (goals : List Goal) : ((Finding.all t goals).filterMap Finding.game?).Perm
    ((t.games.filter fun g => !Phase.isMiscased g.phase).filter Finding.isUndecided)

theorem tournament_visited (t : Tournament) : t.Visited where
  phases := t.phases_perm
  ordered := t.phases_ordered
  all_phases := t.phases_perm_entries_iff
  schedule := t.schedule_perm
  all_games := t.schedule_perm_games_iff
  standings := t.sum_played
  scorers := t.goals_perm
  findings := by
    intro goals
    rw [Finding.games_all]
    exact t.schedule_perm.filter _

example : (⟨.empty, [], .ofList [("Final", [⟨"A", "B", none, [], 1⟩])]⟩ : Tournament).phases = [] := by decide

end Knockout
