import Knockout.Proofs.StandingsReference

namespace Knockout

def Fixture.sides (f : Fixture) : List Outing :=
  f.score?.elim [] fun s => [⟨s.home, s.away⟩, ⟨s.away, s.home⟩]

theorem flatMap_ite_eq {names : List String} (hn : names.Nodup) (name : String) (o : Outing) :
    (names.flatMap fun n => if name = n then [o] else []) = if name ∈ names then [o] else [] := by
  induction names with
  | nil => simp
  | cons first names ih =>
    obtain ⟨hfirst, hnames⟩ := List.nodup_cons.mp hn
    rw [List.flatMap_cons, ih hnames]
    by_cases he : name = first
    · subst he
      rw [if_pos rfl, if_neg hfirst, if_pos List.mem_cons_self, List.append_nil]
    · simp [he]

section Outings

variable {names : List String} (hn : names.Nodup)

include hn

theorem Fixture.outings_perm {f : Fixture} (h : ∀ name, f.Features name → name ∈ names) :
    (names.flatMap f.outings).Perm f.sides := by
  unfold Fixture.sides
  cases hs : f.score? with
  | none =>
    have houtings : f.outings = fun _ => [] := by
      funext name
      rw [outings, hs, Option.elim_none]
    rw [houtings, List.flatMap_eq_nil_iff.mpr fun _ _ => rfl, Option.elim_none]
  | some s =>
    have houtings : f.outings = fun name => (if f.home = name then [⟨s.home, s.away⟩] else []) ++
        if f.away = name then [⟨s.away, s.home⟩] else [] := by
      funext name
      rw [outings, hs, Option.elim_some]
    have hperm := List.flatMap_append_perm names
      (fun name => if f.home = name then [(⟨s.home, s.away⟩ : Outing)] else [])
      fun name => if f.away = name then [⟨s.away, s.home⟩] else []
    rw [flatMap_ite_eq hn, flatMap_ite_eq hn, if_pos (h f.home (.inl rfl)), if_pos (h f.away (.inr rfl))] at hperm
    rw [houtings]
    exact hperm.symm

theorem outings_perm_sides {games : List Placed} (h : ∀ g ∈ games, ∀ name, g.fixture.Features name → name ∈ names) :
    (names.flatMap fun name => games.flatMap fun g => g.fixture.outings name).Perm
      (games.flatMap fun g => g.fixture.sides) := by
  induction games with
  | nil => simp
  | cons g games ih =>
    have hfirst := Fixture.outings_perm hn (h g List.mem_cons_self)
    have hrest := ih fun g' hg' => h g' (List.mem_cons_of_mem _ hg')
    simp only [List.flatMap_cons]
    exact (List.flatMap_append_perm names _ _).symm.trans (hfirst.append hrest)

end Outings

theorem countP_eq_sum {α : Type} (p : α → Bool) (l : List α) : l.countP p = (l.map fun a => (p a).toNat).sum := by
  induction l with
  | nil => rfl
  | cons a l ih =>
    rw [List.countP_cons, List.map_cons, List.sum_cons, ih, Nat.add_comm]
    cases p a <;> rfl

theorem Tournament.sum_figures (t : Tournament) (h : t.games.length < 2 ^ 30) {figure : Standing → Nat}
    {weight : Outing → Nat} (hf : ∀ s outings, s.Counts outings → figure s = (outings.map weight).sum) :
    (t.standings.map figure).sum = ((t.schedule.flatMap fun g => g.fixture.sides).map weight).sum := by
  have hentered := Standing.entered_rows t
  have hrows : (t.standings.map figure).sum = ((Standing.rows t).map fun row => figure row.finish).sum := by
    rw [standings, ((List.mergeSort_perm _ Standing.ahead).map figure).sum_eq, List.map_map]
    rfl
  have hfigures : ((Standing.rows t).map fun row => figure row.finish) =
      (Standing.rows t).map fun row =>
        ((t.schedule.flatMap fun g => g.fixture.outings row.team).map weight).sum := by
    apply List.map_congr_left
    intro row hrow
    rw [← t.outings_eq_schedule]
    exact hf _ _ (Standing.reflects_finish hentered h hrow).toCounts
  have hteams : ∀ g ∈ t.schedule, ∀ name, g.fixture.Features name → name ∈ (Standing.rows t).map Row.team :=
    fun g hg name hname => (hentered.teams name).mpr (.inr ⟨g, hg, hname⟩)
  have hperm := outings_perm_sides hentered.nodup hteams
  rw [hrows, hfigures, ← (hperm.map weight).sum_eq, List.map_flatMap, List.flatMap_def, List.sum_flatten, List.map_map,
    List.map_map]
  rfl

theorem Tournament.sum_standings (t : Tournament) (h : t.games.length < 2 ^ 30) {figure : Standing → UInt32}
    {counted : Outing → Bool} (hf : ∀ s outings, s.Counts outings → (figure s).toNat = outings.countP counted) :
    (t.standings.map fun s => (figure s).toNat).sum = (t.schedule.flatMap fun g => g.fixture.sides).countP counted := by
  rw [countP_eq_sum]
  apply t.sum_figures h
  intro s outings hs
  rw [hf s outings hs, countP_eq_sum]

structure Sided (games : List Placed) (sides : List Outing) : Prop where
  played : sides.countP (fun _ => true) + 2 * games.countP (fun g => g.fixture.verdict? = none) = 2 * games.length
  drawn : sides.countP Outing.isDrawn = 2 * games.countP fun g => g.fixture.verdict? = some .draw
  won : sides.countP Outing.isWon + games.countP (fun g => g.fixture.verdict? = none) +
    games.countP (fun g => g.fixture.verdict? = some .draw) = games.length
  lost : sides.countP Outing.isLost + games.countP (fun g => g.fixture.verdict? = none) +
    games.countP (fun g => g.fixture.verdict? = some .draw) = games.length

theorem sided_singleton (g : Placed) : Sided [g] g.fixture.sides := by
  unfold Fixture.sides
  cases hs : g.fixture.score? with
  | none =>
    have hv : g.fixture.verdict? = none := by rw [Fixture.verdict?, hs, Option.map_none]
    constructor <;> simp [hv]
  | some s =>
    have hv : g.fixture.verdict? = some s.verdict := by rw [Fixture.verdict?, hs, Option.map_some]
    rcases Nat.lt_trichotomy s.home s.away with hlt | he | hlt
    · have hverdict : s.verdict = .awayWin := by rw [Score.verdict, if_neg hlt.le.not_gt, if_pos hlt]
      constructor <;> simp [hv, hverdict, Outing.isDrawn, Outing.isWon, Outing.isLost, hlt, hlt.ne, hlt.ne', hlt.le]
    · have hverdict : s.verdict = .draw := by simp [Score.verdict, he]
      constructor <;> simp [hv, hverdict, Outing.isDrawn, Outing.isWon, Outing.isLost, he]
    · have hverdict : s.verdict = .homeWin := by rw [Score.verdict, if_pos hlt]
      constructor <;> simp [hv, hverdict, Outing.isDrawn, Outing.isWon, Outing.isLost, hlt, hlt.ne, hlt.ne', hlt.le]

theorem Sided.append {a b : List Placed} {xs ys : List Outing} (ha : Sided a xs) (hb : Sided b ys) :
    Sided (a ++ b) (xs ++ ys) := by
  obtain ⟨hplayed, hdrawn, hwon, hlost⟩ := ha
  obtain ⟨hplayed', hdrawn', hwon', hlost'⟩ := hb
  constructor
  · rw [List.countP_append, List.countP_append, List.length_append]
    omega
  · rw [List.countP_append, List.countP_append]
    omega
  · rw [List.countP_append, List.countP_append, List.countP_append, List.length_append]
    omega
  · rw [List.countP_append, List.countP_append, List.countP_append, List.length_append]
    omega

theorem sided_games (games : List Placed) : Sided games (games.flatMap fun g => g.fixture.sides) := by
  induction games with
  | nil => constructor <;> rfl
  | cons g games ih =>
    rw [List.flatMap_cons]
    exact (sided_singleton g).append ih

end Knockout
