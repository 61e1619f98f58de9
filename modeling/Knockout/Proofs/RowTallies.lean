import Knockout.Standing
import Mathlib.Data.List.Basic
import Mathlib.Data.UInt

namespace Knockout

structure Outing where
  scored : Nat
  conceded : Nat
deriving DecidableEq

namespace Outing

def isWon (o : Outing) : Bool := o.conceded < o.scored

def isDrawn (o : Outing) : Bool := o.scored = o.conceded

def isLost (o : Outing) : Bool := o.scored < o.conceded

def points (outings : List Outing) : Nat := 3 * outings.countP isWon + outings.countP isDrawn

def scoredIn (outings : List Outing) : Nat := (outings.map scored).sum

def concededIn (outings : List Outing) : Nat := (outings.map conceded).sum

variable {a b : List Outing} {m n : Nat}

theorem points_append : points (a ++ b) = points a + points b := by
  simp only [points, List.countP_append]
  omega

theorem scoredIn_append : scoredIn (a ++ b) = scoredIn a + scoredIn b := by
  simp [scoredIn]

theorem concededIn_append : concededIn (a ++ b) = concededIn a + concededIn b := by
  simp [concededIn]

structure Bounded (n : Nat) (outings : List Outing) : Prop where
  length : outings.length ≤ 2 * n
  points : points outings ≤ 3 * n
  scored : scoredIn outings ≤ 2 * Score.limit * n
  conceded : concededIn outings ≤ 2 * Score.limit * n

theorem bounded_nil (n : Nat) : Bounded n [] :=
  ⟨Nat.zero_le _, Nat.zero_le _, Nat.zero_le _, Nat.zero_le _⟩

theorem Bounded.append (ha : Bounded m a) (hb : Bounded n b) : Bounded (m + n) (a ++ b) where
  length := by
    have := ha.length
    have := hb.length
    rw [List.length_append]
    omega
  points := by
    have := ha.points
    have := hb.points
    rw [points_append]
    omega
  scored := by
    rw [scoredIn_append, Nat.mul_add]
    exact Nat.add_le_add ha.scored hb.scored
  conceded := by
    rw [concededIn_append, Nat.mul_add]
    exact Nat.add_le_add ha.conceded hb.conceded

end Outing

theorem Score.lt_limit_of_readGoals? {text rest : List Char} {n : Nat} (h : readGoals? text = some (n, rest)) :
    n < limit := by
  obtain ⟨m, hm, he⟩ := Option.map_eq_some_iff.mp h
  obtain ⟨rfl, -⟩ := Prod.mk.inj he
  obtain ⟨⟨-, -, hlt⟩, rfl⟩ := (readDecimal?_eq_some_iff _ _ _).mp hm
  exact hlt

theorem Score.lt_limit_of_parse? {text : String} {s : Score} (h : parse? text = some s) :
    s.home < limit ∧ s.away < limit := by
  obtain ⟨rest, hhome, haway⟩ := (parse?_eq_some_iff_sides text s).mp h
  exact ⟨lt_limit_of_readGoals? hhome, lt_limit_of_readGoals? haway⟩

theorem Fixture.lt_limit_of_score? {f : Fixture} {s : Score} (h : f.score? = some s) :
    s.home < Score.limit ∧ s.away < Score.limit := by
  obtain ⟨text, -, ht⟩ := Option.bind_eq_some_iff.mp h
  exact Score.lt_limit_of_parse? ht

def Fixture.outings (f : Fixture) (team : String) : List Outing :=
  f.score?.elim [] fun s =>
    (if f.home = team then [⟨s.home, s.away⟩] else []) ++ if f.away = team then [⟨s.away, s.home⟩] else []

theorem Fixture.bounded_outings (f : Fixture) (team : String) : Outing.Bounded 1 (f.outings team) := by
  unfold outings
  cases hs : f.score? with
  | none => exact Outing.bounded_nil 1
  | some s =>
    obtain ⟨hh, ha⟩ := lt_limit_of_score? hs
    simp only [Option.elim_some]
    constructor
    · split <;> split <;> simp
    · split <;> split <;> simp [Outing.points, Outing.isWon, Outing.isDrawn, List.countP_cons] <;> grind
    · split <;> split <;> simp [Outing.scoredIn] <;> omega
    · split <;> split <;> simp [Outing.concededIn] <;> omega

theorem bounded_outings (games : List Placed) (team : String) :
    Outing.Bounded games.length (games.flatMap fun g => g.fixture.outings team) := by
  induction games with
  | nil => exact Outing.bounded_nil 0
  | cons g games ih =>
    rw [List.flatMap_cons, List.length_cons, Nat.add_comm]
    exact (g.fixture.bounded_outings team).append ih

theorem toNat_addSaturating (a b : UInt64) :
    (addSaturating a b).toNat = min (a.toNat + b.toNat) 18446744073709551615 := by
  unfold addSaturating
  split
  case isTrue h =>
    rw [UInt64.toNat_add, Nat.mod_eq_of_lt h]
    omega
  case isFalse h =>
    rw [Nat.min_eq_right (by omega)]
    rfl

namespace Row

structure Tallies (row : Row) (outings : List Outing) : Prop where
  played : row.played = .ofNat outings.length
  won : row.won = .ofNat (outings.countP Outing.isWon)
  drawn : row.drawn = .ofNat (outings.countP Outing.isDrawn)
  lost : row.lost = .ofNat (outings.countP Outing.isLost)
  goalsFor : row.goalsFor.toNat = min (Outing.scoredIn outings) 18446744073709551615
  goalsAgainst : row.goalsAgainst.toNat = min (Outing.concededIn outings) 18446744073709551615
  points : row.points = .ofNat (Outing.points outings)

theorem tallies_nil (team : String) : Tallies { team } [] :=
  ⟨rfl, rfl, rfl, rfl, rfl, rfl, rfl⟩

variable {row : Row} {outings : List Outing}

theorem Tallies.reach (h : row.Tallies outings) (rank : Nat) : (row.reach rank).Tallies outings :=
  ⟨h.played, h.won, h.drawn, h.lost, h.goalsFor, h.goalsAgainst, h.points⟩

theorem toNat_addSaturating_ofNat {goals : UInt64} {total more : Nat}
    (h : goals.toNat = min total 18446744073709551615) (hm : more < Score.limit) :
    (addSaturating goals (.ofNat more)).toNat = min (total + more) 18446744073709551615 := by
  have hmore : (UInt64.ofNat more).toNat = more :=
    UInt64.toNat_ofNat_of_lt' (hm.trans (by decide))
  rw [toNat_addSaturating, h, hmore]
  omega

theorem Tallies.record (h : row.Tallies outings) {scored conceded : Nat} (hs : scored < Score.limit)
    (hc : conceded < Score.limit) : (row.record scored conceded).Tallies (outings ++ [⟨scored, conceded⟩]) := by
  have hplayed : row.played + 1 = .ofNat (outings ++ [(⟨scored, conceded⟩ : Outing)]).length := by
    rw [h.played, List.length_append, UInt32.ofNat_add]
    rfl
  have hfor : (addSaturating row.goalsFor (.ofNat scored)).toNat =
      min (Outing.scoredIn (outings ++ [⟨scored, conceded⟩])) 18446744073709551615 := by
    rw [toNat_addSaturating_ofNat h.goalsFor hs, Outing.scoredIn_append]
    rfl
  have hagainst : (addSaturating row.goalsAgainst (.ofNat conceded)).toNat =
      min (Outing.concededIn (outings ++ [⟨scored, conceded⟩])) 18446744073709551615 := by
    rw [toNat_addSaturating_ofNat h.goalsAgainst hc, Outing.concededIn_append]
    rfl
  have hpoints {n : Nat} (hn : Outing.points [⟨scored, conceded⟩] = n) :
      row.points + .ofNat n = .ofNat (Outing.points (outings ++ [⟨scored, conceded⟩])) := by
    rw [Outing.points_append, UInt32.ofNat_add, h.points, hn]
  unfold Row.record
  split
  case isTrue hwon =>
    have hw : Outing.isWon ⟨scored, conceded⟩ = true := decide_eq_true hwon
    have hd : Outing.isDrawn ⟨scored, conceded⟩ = false := decide_eq_false hwon.ne'
    have hl : Outing.isLost ⟨scored, conceded⟩ = false := decide_eq_false hwon.le.not_gt
    exact ⟨hplayed, by simp [hw, h.won], by simp [hd, h.drawn], by simp [hl, h.lost], hfor, hagainst,
      hpoints (by simp [Outing.points, hw, hd])⟩
  case isFalse hwon =>
  have hw : Outing.isWon ⟨scored, conceded⟩ = false := decide_eq_false hwon
  split
  case isTrue hlost =>
    have hd : Outing.isDrawn ⟨scored, conceded⟩ = false := decide_eq_false hlost.ne
    have hl : Outing.isLost ⟨scored, conceded⟩ = true := decide_eq_true hlost
    refine ⟨hplayed, by simp [hw, h.won], by simp [hd, h.drawn], by simp [hl, h.lost], hfor, hagainst, ?_⟩
    simpa using hpoints (show Outing.points [⟨scored, conceded⟩] = 0 by simp [Outing.points, hw, hd])
  case isFalse hlost =>
    have hd : Outing.isDrawn ⟨scored, conceded⟩ = true :=
      decide_eq_true (Nat.le_antisymm (Nat.not_lt.mp hwon) (Nat.not_lt.mp hlost))
    have hl : Outing.isLost ⟨scored, conceded⟩ = false := decide_eq_false hlost
    exact ⟨hplayed, by simp [hw, h.won], by simp [hd, h.drawn], by simp [hl, h.lost], hfor, hagainst,
      hpoints (by simp [Outing.points, hw, hd])⟩

end Row

theorem toInt_toSigned {n : UInt64} (h : n.toNat < 9223372036854775808) : (toSigned n).toInt = n.toNat := by
  rw [toSigned, if_pos h]
  change n.toBitVec.toInt = _
  rw [BitVec.toInt_eq_toNat_of_lt]
  · rfl
  · change 2 * n.toNat < 2 ^ 64
    omega

theorem toInt_sub_toSigned {a b : UInt64} (ha : a.toNat < 9223372036854775808) (hb : b.toNat < 9223372036854775808) :
    (toSigned a - toSigned b).toInt = (a.toNat : Int) - b.toNat := by
  rw [Int64.toInt_sub, toInt_toSigned ha, toInt_toSigned hb]
  apply Int.bmod_eq_of_le
  · omega
  · omega

structure Standing.Counts (s : Standing) (outings : List Outing) : Prop where
  played : s.played.toNat = outings.length
  won : s.won.toNat = outings.countP Outing.isWon
  drawn : s.drawn.toNat = outings.countP Outing.isDrawn
  lost : s.lost.toNat = outings.countP Outing.isLost
  goalsFor : s.goalsFor.toNat = Outing.scoredIn outings
  goalsAgainst : s.goalsAgainst.toNat = Outing.concededIn outings
  goalDifference : s.goalDifference.toInt = (Outing.scoredIn outings : Int) - Outing.concededIn outings
  points : s.points.toNat = Outing.points outings

theorem Row.Tallies.counts {row : Row} {outings : List Outing} {n : Nat} (h : row.Tallies outings)
    (hb : Outing.Bounded n outings) (hn : n ≤ 2 ^ 30) : row.finish.Counts outings := by
  have hlength : outings.length < 4294967296 := by
    have := hb.length
    omega
  have hcount (p : Outing → Bool) : (UInt32.ofNat (outings.countP p)).toNat = outings.countP p :=
    UInt32.toNat_ofNat_of_lt' (List.countP_le_length.trans_lt hlength)
  have hfor : row.goalsFor.toNat = Outing.scoredIn outings ∧ Outing.scoredIn outings < 9223372036854775808 := by
    have := hb.scored
    rw [h.goalsFor]
    unfold Score.limit at this
    omega
  have hagainst : row.goalsAgainst.toNat = Outing.concededIn outings ∧
      Outing.concededIn outings < 9223372036854775808 := by
    have := hb.conceded
    rw [h.goalsAgainst]
    unfold Score.limit at this
    omega
  have hpoints : Outing.points outings < 4294967296 := by
    have := hb.points
    omega
  constructor
  · change row.played.toNat = _
    rw [h.played, UInt32.toNat_ofNat_of_lt' hlength]
  · change row.won.toNat = _
    rw [h.won, hcount]
  · change row.drawn.toNat = _
    rw [h.drawn, hcount]
  · change row.lost.toNat = _
    rw [h.lost, hcount]
  · exact hfor.1
  · exact hagainst.1
  · change (toSigned row.goalsFor - toSigned row.goalsAgainst).toInt = _
    rw [toInt_sub_toSigned (by omega) (by omega), hfor.1, hagainst.1]
  · change row.points.toNat = _
    rw [h.points, UInt32.toNat_ofNat_of_lt' hpoints]

end Knockout
