import Knockout.Proofs.StandingsReference

namespace Knockout

def countUp? (n : UInt32) (more : Nat) : Option UInt32 :=
  if n.toNat + more < 4294967296 then some (n + .ofNat more) else none

def addGoals? (goals : UInt64) (more : Nat) : Option UInt64 :=
  if goals.toNat + more < 18446744073709551616 then some (goals + .ofNat more) else none

def signed? (n : UInt64) : Option Int64 :=
  if n.toNat < 9223372036854775808 then some n.toInt64 else none

def subtract? (a b : Int64) : Option Int64 :=
  if -9223372036854775808 ≤ a.toInt - b.toInt ∧ a.toInt - b.toInt < 9223372036854775808 then some (a - b) else none

namespace Row

def record? (scored conceded : Nat) (row : Row) : Option Row := do
  let played ← countUp? row.played 1
  let goalsFor ← addGoals? row.goalsFor scored
  let goalsAgainst ← addGoals? row.goalsAgainst conceded
  let counted := { row with played, goalsFor, goalsAgainst }
  if conceded < scored then
    return { counted with won := ← countUp? row.won 1, points := ← countUp? row.points 3 }
  else if scored < conceded then
    return { counted with lost := ← countUp? row.lost 1 }
  else
    return { counted with drawn := ← countUp? row.drawn 1, points := ← countUp? row.points 1 }

def finish? (row : Row) : Option Standing := do
  let goalDifference ← subtract? (← signed? row.goalsFor) (← signed? row.goalsAgainst)
  return { row.finish with goalDifference }

end Row

namespace Standing

def update? (team : String) (change : Row → Option Row) : List Row → Option (List Row)
  | [] => (change { team }).map fun row => [row]
  | row :: rest =>
    if row.team = team then (change row).map (· :: rest) else (update? team change rest).map (row :: ·)

def enter? (rows : List Row) (g : Placed) : Option (List Row) :=
  let rank := Phase.rankOf g.phase
  let rows := update g.fixture.away (.reach rank) (update g.fixture.home (.reach rank) rows)
  match g.fixture.score? with
  | none => some rows
  | some s => do
    let rows ← update? g.fixture.home (Row.record? s.home s.away) rows
    update? g.fixture.away (Row.record? s.away s.home) rows

def rows? (t : Tournament) : Option (List Row) :=
  t.schedule.foldlM enter? (t.teams.foldl (fun rows team => update team.name id rows) [])

end Standing

/-- The table in checked arithmetic: it breaks off where a number does not fit the word that is to hold it. -/
def Tournament.standings? (t : Tournament) : Option (List Standing) := do
  return (← (← Standing.rows? t).mapM Row.finish?).mergeSort Standing.ahead

theorem Outing.Bounded.of_append {n : Nat} {a b : List Outing} (h : Bounded n (a ++ b)) : Bounded n a where
  length := by
    have := h.length
    rw [List.length_append] at this
    omega
  points := by
    have := h.points
    rw [points_append] at this
    omega
  scored := by
    have := h.scored
    rw [scoredIn_append] at this
    omega
  conceded := by
    have := h.conceded
    rw [concededIn_append] at this
    omega

section Words

variable {more : Nat}

theorem countUp?_eq {n : UInt32} (h : n.toNat + more < 4294967296) : countUp? n more = some (n + .ofNat more) :=
  if_pos h

theorem addGoals?_eq {goals : UInt64} (h : goals.toNat + more < 18446744073709551616) :
    addGoals? goals more = some (addSaturating goals (.ofNat more)) := by
  have hlt : more < 18446744073709551616 := by omega
  have hmore : (UInt64.ofNat more).toNat = more := UInt64.toNat_ofNat_of_lt' hlt
  rw [addGoals?, if_pos h, addSaturating, hmore, if_pos h]

theorem signed?_eq {n : UInt64} (h : n.toNat < 9223372036854775808) : signed? n = some (toSigned n) := by
  rw [signed?, if_pos h, toSigned, if_pos h]

theorem toSigned_bounds (n : UInt64) : 0 ≤ (toSigned n).toInt ∧ (toSigned n).toInt < 9223372036854775808 := by
  by_cases h : n.toNat < 9223372036854775808
  · rw [toInt_toSigned h]
    omega
  · rw [toSigned, if_neg h]
    decide

theorem subtract?_toSigned (a b : UInt64) :
    subtract? (toSigned a) (toSigned b) = some (toSigned a - toSigned b) := by
  have ha := toSigned_bounds a
  have hb := toSigned_bounds b
  exact if_pos (by omega)

end Words

namespace Row

variable {row : Row} {outings : List Outing} {n : Nat}

theorem Tallies.record?_eq {scored conceded : Nat} (h : row.Tallies outings)
    (hb : Outing.Bounded n (outings ++ [⟨scored, conceded⟩])) (hn : n ≤ 2 ^ 30) :
    row.record? scored conceded = some (row.record scored conceded) := by
  have hlength : outings.length + 1 ≤ 2 * n := by
    simpa using hb.length
  have hpoints : Outing.points outings + Outing.points [⟨scored, conceded⟩] ≤ 3 * n := by
    rw [← Outing.points_append]
    exact hb.points
  have hscored : Outing.scoredIn outings + scored ≤ 2 * Score.limit * n := by
    simpa [Outing.scoredIn] using hb.scored
  have hconceded : Outing.concededIn outings + conceded ≤ 2 * Score.limit * n := by
    simpa [Outing.concededIn] using hb.conceded
  unfold Score.limit at hscored hconceded
  have hcounts := h.counts hb.of_append hn
  have hplayed : row.played.toNat = outings.length := hcounts.played
  have hwon : row.won.toNat ≤ outings.length := hcounts.won.trans_le List.countP_le_length
  have hdrawn : row.drawn.toNat ≤ outings.length := hcounts.drawn.trans_le List.countP_le_length
  have hlost : row.lost.toNat ≤ outings.length := hcounts.lost.trans_le List.countP_le_length
  have hfor : row.goalsFor.toNat = Outing.scoredIn outings := hcounts.goalsFor
  have hagainst : row.goalsAgainst.toNat = Outing.concededIn outings := hcounts.goalsAgainst
  have htotal : row.points.toNat = Outing.points outings := hcounts.points
  have hcount {k : UInt32} (hk : k.toNat ≤ outings.length) : countUp? k 1 = some (k + 1) := by
    apply countUp?_eq
    omega
  have haward {more : Nat} (hm : more ≤ Outing.points [⟨scored, conceded⟩]) :
      countUp? row.points more = some (row.points + .ofNat more) := by
    apply countUp?_eq
    omega
  have hgoalsFor : addGoals? row.goalsFor scored = some (addSaturating row.goalsFor (.ofNat scored)) := by
    apply addGoals?_eq
    omega
  have hgoalsAgainst : addGoals? row.goalsAgainst conceded =
      some (addSaturating row.goalsAgainst (.ofNat conceded)) := by
    apply addGoals?_eq
    omega
  unfold Row.record? Row.record
  rw [hcount hplayed.le, hgoalsFor, hgoalsAgainst]
  split
  case isTrue hw =>
    rw [hcount hwon, haward (by simp [Outing.points, Outing.isWon, hw])]
    rfl
  case isFalse hw =>
  split
  case isTrue hl =>
    rw [hcount hlost]
    rfl
  case isFalse hl =>
    obtain rfl : scored = conceded := Nat.le_antisymm (Nat.not_lt.mp hw) (Nat.not_lt.mp hl)
    rw [hcount hdrawn, haward (by simp [Outing.points, Outing.isDrawn])]
    rfl

theorem Tallies.finish?_eq (h : row.Tallies outings) (hb : Outing.Bounded n outings) (hn : n ≤ 2 ^ 30) :
    row.finish? = some row.finish := by
  have hscored := hb.scored
  have hconceded := hb.conceded
  unfold Score.limit at hscored hconceded
  have hcounts := h.counts hb hn
  have hfor : row.goalsFor.toNat = Outing.scoredIn outings := hcounts.goalsFor
  have hagainst : row.goalsAgainst.toNat = Outing.concededIn outings := hcounts.goalsAgainst
  unfold finish?
  rw [signed?_eq (by omega), signed?_eq (by omega)]
  simp only [Option.bind_eq_bind, Option.bind_some]
  rw [subtract?_toSigned]
  rfl

end Row

theorem Fixture.outings_of_score? {f : Fixture} {s : Score} (h : f.score? = some s) (team : String) :
    f.outings team = (if f.home = team then [⟨s.home, s.away⟩] else []) ++
      if f.away = team then [⟨s.away, s.home⟩] else [] := by
  rw [outings, h, Option.elim_some]

namespace Standing

theorem update?_eq {rows : List Row} {team : String} {change? : Row → Option Row} {change : Row → Row}
    (h : change? (rowOf rows team) = some (change (rowOf rows team))) :
    update? team change? rows = some (update team change rows) := by
  induction rows with
  | nil =>
    have hrow : change? { team } = some (change { team }) := h
    rw [update?, hrow]
    rfl
  | cons row rows ih =>
    unfold update? update
    by_cases hr : row.team = team
    · have hrow : rowOf (row :: rows) team = row := by simp [rowOf, hr]
      rw [hrow] at h
      rw [if_pos hr, if_pos hr, h]
      rfl
    · have hrow : rowOf (row :: rows) team = rowOf rows team := by simp [rowOf, hr]
      rw [hrow] at h
      rw [if_neg hr, if_neg hr, ih h]
      rfl

theorem Entered.enter?_eq {teams : List Team} {games : List Placed} {rows : List Row} (h : Entered teams games rows)
    (g : Placed) (hn : games.length < 2 ^ 30) : enter? rows g = some (enter rows g) := by
  have hreach (name : String) := tallies_reach (tallies_reach (h.tallies name) g.fixture.home (Phase.rankOf g.phase))
    g.fixture.away (Phase.rankOf g.phase)
  have hbound (name : String) : Outing.Bounded (games.length + 1)
      ((games.flatMap fun g => g.fixture.outings name) ++ g.fixture.outings name) := by
    have := bounded_outings (games ++ [g]) name
    rwa [List.flatMap_append, List.flatMap_singleton, List.length_append] at this
  cases hs : g.fixture.score? with
  | none => simp only [enter?, enter, hs]
  | some s =>
    obtain ⟨hh, ha⟩ := g.fixture.lt_limit_of_score? hs
    have hhome := hbound g.fixture.home
    rw [Fixture.outings_of_score? hs, if_pos rfl, ← List.append_assoc] at hhome
    have haway := hbound g.fixture.away
    rw [Fixture.outings_of_score? hs, if_pos rfl, ← List.append_assoc] at haway
    have hfirst := (hreach g.fixture.home).record?_eq hhome.of_append hn
    have hsecond := (tallies_record (hreach g.fixture.away) g.fixture.home hh ha).record?_eq haway hn
    simp only [enter?, enter, hs, update?_eq hfirst, Option.bind_eq_bind, Option.bind_some]
    exact update?_eq hsecond

theorem Entered.foldlM_enter? {teams : List Team} {rows : List Row} (h : Entered teams [] rows) (games : List Placed)
    (hn : games.length ≤ 2 ^ 30) : games.foldlM enter? rows = some (games.foldl enter rows) := by
  induction games using List.reverseRecOn with
  | nil => rfl
  | append_singleton games g ih =>
    rw [List.length_append, List.length_singleton] at hn
    rw [List.foldlM_append, List.foldl_append, ih (by omega)]
    have hstep := (h.foldl_enter games).enter?_eq g (by omega)
    simp only [Option.bind_eq_bind, Option.bind_some, List.foldlM_cons, List.foldlM_nil, hstep]
    rfl

theorem rows?_eq (t : Tournament) (hn : t.games.length ≤ 2 ^ 30) : rows? t = some (rows t) := by
  apply (entered_rosters t.teams).foldlM_enter?
  exact t.schedule_length_le.trans hn

theorem finish?_eq_of_mem {t : Tournament} (hn : t.games.length ≤ 2 ^ 30) {row : Row} (hrow : row ∈ rows t) :
    row.finish? = some row.finish := by
  apply ((entered_rows t).tallies_of_mem hrow).finish?_eq (bounded_outings t.schedule row.team)
  exact t.schedule_length_le.trans hn

end Standing

theorem mapM_eq_some_map {α β : Type} {f? : α → Option β} {f : α → β} {l : List α}
    (h : ∀ a ∈ l, f? a = some (f a)) : l.mapM f? = some (l.map f) := by
  induction l with
  | nil => rfl
  | cons a l ih =>
    rw [List.mapM_cons, h a List.mem_cons_self, ih fun b hb => h b (List.mem_cons_of_mem a hb)]
    rfl

theorem standings_reckoned (t : Tournament) :
    (t.games.length ≤ 2 ^ 30 → t.standings? = some t.standings ∧
      ∀ s ∈ t.standings, s.goalDifference.toInt = (s.goalsFor.toNat : Int) - s.goalsAgainst.toNat) ∧
    ∀ row : Row, subtract? (toSigned row.goalsFor) (toSigned row.goalsAgainst) = some row.finish.goalDifference := by
  refine ⟨fun hn => ⟨?_, ?_⟩, fun row => subtract?_toSigned row.goalsFor row.goalsAgainst⟩
  · unfold Tournament.standings? Tournament.standings
    rw [Standing.rows?_eq t hn]
    simp only [Option.bind_eq_bind, Option.bind_some, mapM_eq_some_map fun row => Standing.finish?_eq_of_mem hn]
    rfl
  · intro s hs
    have hcounts := Standing.counts_of_mem hn hs
    rw [hcounts.goalDifference, hcounts.goalsFor, hcounts.goalsAgainst]

theorem standings_reckoned_of_largest_scores :
    let t : Tournament := ⟨.empty, [], .ofList [("cuartos", [⟨"A", "B", some "2147483647-0", [], 2⟩,
      ⟨"A", "A", some "2147483647-2147483646", [], 3⟩])]⟩
    t.games.length ≤ 2 ^ 30 ∧ t.standings? = some t.standings ∧
      ∀ s ∈ t.standings, s.goalDifference.toInt = (s.goalsFor.toNat : Int) - s.goalsAgainst.toNat := by
  intro t
  have h : t.games.length ≤ 2 ^ 30 := by decide
  exact ⟨h, (standings_reckoned t).1 h⟩

end Knockout
