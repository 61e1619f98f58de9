import Knockout.Graph
import Knockout.Proofs.Visits

namespace Knockout

def Fixture.Won (f : Fixture) (slot : Slot) : Prop :=
  ∃ s, f.score? = some s ∧ (slot = .home ∧ s.away < s.home ∨ slot = .away ∧ s.home < s.away)

theorem Advance.winner?_eq_some_iff {f : Fixture} {slot : Slot} : winner? f = some slot ↔ f.Won slot := by
  unfold winner? Fixture.verdict? Fixture.Won Score.verdict
  cases f.score? with
  | none => simp
  | some s =>
    by_cases hhome : s.away < s.home
    · simp [hhome, hhome.le.not_gt, eq_comm]
    · by_cases haway : s.home < s.away
      · simp [hhome, haway, eq_comm]
      · simp [hhome, haway]

theorem Fixture.Won.unique {f : Fixture} {a b : Slot} (ha : f.Won a) (hb : f.Won b) : a = b :=
  Option.some.inj ((Advance.winner?_eq_some_iff.mpr ha).symm.trans (Advance.winner?_eq_some_iff.mpr hb))

theorem nearest_of_mem_zip_tail {l : List Phase} (h : l.Pairwise fun p q => p.rank < q.rank) {p q : Phase}
    (hpq : (p, q) ∈ l.zip l.tail) :
    p ∈ l ∧ q ∈ l ∧ p.rank < q.rank ∧ ∀ r ∈ l, ¬ (p.rank < r.rank ∧ r.rank < q.rank) := by
  induction l with
  | nil => cases hpq
  | cons a l ih =>
    obtain ⟨ha, hl⟩ := List.pairwise_cons.mp h
    cases l with
    | nil => cases hpq
    | cons b l =>
      rcases List.mem_cons.mp hpq with he | hpq
      · obtain ⟨rfl, rfl⟩ := Prod.mk.inj he
        refine ⟨List.mem_cons_self, List.mem_cons_of_mem _ List.mem_cons_self, ha _ List.mem_cons_self, ?_⟩
        rintro r hr ⟨hpr, hrq⟩
        rcases List.mem_cons.mp hr with rfl | hr
        · omega
        rcases List.mem_cons.mp hr with rfl | hr
        · omega
        · have := (List.pairwise_cons.mp hl).1 r hr
          omega
      · obtain ⟨hp, hq, hlt, hnear⟩ := ih hl hpq
        refine ⟨List.mem_cons_of_mem _ hp, List.mem_cons_of_mem _ hq, hlt, ?_⟩
        rintro r hr ⟨hpr, hrq⟩
        rcases List.mem_cons.mp hr with rfl | hr
        · have := ha p hp
          omega
        · exact hnear r hr ⟨hpr, hrq⟩

theorem mem_zip_tail_of_nearest {l : List Phase} (h : l.Pairwise fun p q => p.rank < q.rank) {p q : Phase}
    (hp : p ∈ l) (hq : q ∈ l) (hlt : p.rank < q.rank) (hnear : ∀ r ∈ l, ¬ (p.rank < r.rank ∧ r.rank < q.rank)) :
    (p, q) ∈ l.zip l.tail := by
  induction l with
  | nil => cases hp
  | cons a l ih =>
    obtain ⟨ha, hl⟩ := List.pairwise_cons.mp h
    have hle : a.rank ≤ p.rank := by
      rcases List.mem_cons.mp hp with rfl | hp
      · exact Nat.le_refl _
      · exact (ha p hp).le
    have hql : q ∈ l := by
      rcases List.mem_cons.mp hq with rfl | hq
      · exact absurd hle hlt.not_ge
      · exact hq
    cases l with
    | nil => cases hql
    | cons b l =>
      rcases List.mem_cons.mp hp with rfl | hp
      · -- Behind the first phase the second one is the nearest.
        rcases List.mem_cons.mp hql with rfl | hq
        · exact List.mem_cons_self
        · have hb := (List.pairwise_cons.mp hl).1
          exact absurd ⟨ha b List.mem_cons_self, hb q hq⟩ (hnear b (List.mem_cons_of_mem _ List.mem_cons_self))
      · exact List.mem_cons_of_mem _ (ih hl hp hql fun r hr => hnear r (List.mem_cons_of_mem _ hr))

theorem pairwise_zip_tail {l : List Phase} (h : l.Pairwise fun p q => p.rank < q.rank) :
    (l.zip l.tail).Pairwise fun a b => a.1.rank < b.1.rank := by
  induction l with
  | nil => exact .nil
  | cons a l ih =>
    obtain ⟨ha, hl⟩ := List.pairwise_cons.mp h
    cases l with
    | nil => exact .nil
    | cons b l =>
      refine List.pairwise_cons.mpr ⟨fun e he => ?_, ih hl⟩
      exact ha e.1 (List.of_mem_zip he).1

namespace Tournament

variable {t : Tournament}

def Has (t : Tournament) (p : Phase) : Prop := t.bracket.contains p.key = true

structure Next (t : Tournament) (p q : Phase) : Prop where
  here : t.Has p
  there : t.Has q
  later : p.rank < q.rank
  nearest : ∀ r, t.Has r → ¬ (p.rank < r.rank ∧ r.rank < q.rank)

theorem mem_knownPhases {p : Phase} : p ∈ t.knownPhases ↔ t.Has p := by
  simp [knownPhases, Has, p.mem_all]

theorem knownPhases_ordered (t : Tournament) : t.knownPhases.Pairwise fun p q => p.rank < q.rank :=
  List.Pairwise.filter _ (by decide)

theorem next_iff {p q : Phase} : (p, q) ∈ t.knownPhases.zip t.knownPhases.tail ↔ t.Next p q := by
  constructor
  · intro h
    obtain ⟨hp, hq, hlt, hnear⟩ := nearest_of_mem_zip_tail t.knownPhases_ordered h
    exact ⟨mem_knownPhases.mp hp, mem_knownPhases.mp hq, hlt, fun r hr => hnear r (mem_knownPhases.mpr hr)⟩
  · rintro ⟨hp, hq, hlt, hnear⟩
    exact mem_zip_tail_of_nearest t.knownPhases_ordered (mem_knownPhases.mpr hp) (mem_knownPhases.mpr hq) hlt
      fun r hr => hnear r (mem_knownPhases.mp hr)

theorem Next.unique {p p' q : Phase} (h : t.Next p q) (h' : t.Next p' q) : p = p' := by
  apply Phase.eq_of_rank_eq
  have := h.nearest p' h'.here
  have := h'.nearest p h.here
  have := h.later
  have := h'.later
  omega

inductive Advances (t : Tournament) : NodeId → NodeId → Prop
  | intro {p next : Phase} {i : Nat} {slot : Slot} {f : Fixture} : t.Next p next → (t.fixtures p)[i]? = some f →
    f.Won slot → i / 2 < (t.fixtures next).length →
    Advances t ⟨p, i, slot⟩ ⟨next, i / 2, if i % 2 = 0 then .home else .away⟩

theorem advances_iff {winner target : NodeId} : t.Advances winner target ↔ ∃ next f, t.Next winner.phase next ∧
    (t.fixtures winner.phase)[winner.index]? = some f ∧ f.Won winner.slot ∧
    winner.index / 2 < (t.fixtures next).length ∧
    target = ⟨next, winner.index / 2, if winner.index % 2 = 0 then .home else .away⟩ := by
  constructor
  · rintro ⟨hnext, hf, hwon, hlt⟩
    exact ⟨_, _, hnext, hf, hwon, hlt, rfl⟩
  · rintro ⟨next, f, hnext, hf, hwon, hlt, rfl⟩
    exact .intro hnext hf hwon hlt

theorem Advances.unique {a b target : NodeId} (ha : t.Advances a target) (hb : t.Advances b target) : a = b := by
  obtain ⟨p, i, slot⟩ := a
  obtain ⟨q, j, other⟩ := b
  obtain ⟨next, f, hnext, hf, hwon, -, rfl⟩ := advances_iff.mp ha
  obtain ⟨next', f', hnext', hf', hwon', -, he⟩ := advances_iff.mp hb
  obtain ⟨rfl, hhalf, hside⟩ := NodeId.mk.inj he
  obtain rfl : p = q := hnext.unique hnext'
  obtain rfl : i = j := by
    dsimp only at hhalf hside
    have hparity : i % 2 = 0 ↔ j % 2 = 0 := by
      split at hside <;> split at hside <;> simp_all
    omega
  obtain rfl : f = f' := Option.some.inj (hf.symm.trans hf')
  rw [show slot = other from hwon.unique hwon']

end Tournament

def NodeId.Precedes (a b : NodeId) : Prop := a.phase.rank < b.phase.rank ∨ a.phase = b.phase ∧ a.index < b.index

theorem NodeId.not_precedes_self (n : NodeId) : ¬ n.Precedes n := by
  rintro (h | ⟨-, h⟩)
  · exact Nat.lt_irrefl _ h
  · exact Nat.lt_irrefl _ h

namespace Advance

variable {t : Tournament} {p next : Phase} {games i : Nat} {f : Fixture} {a : Advance}

theorem ofFixture?_eq_some_iff : ofFixture? p next games i f = some a ↔ ∃ slot, f.Won slot ∧ i / 2 < games ∧
    a = ⟨⟨p, i, slot⟩, ⟨next, i / 2, if i % 2 = 0 then .home else .away⟩⟩ := by
  simp only [ofFixture?, Option.bind_eq_bind, Option.bind_eq_some_iff, winner?_eq_some_iff]
  refine exists_congr fun slot => and_congr_right fun _ => ?_
  split
  case isTrue h => simp [h, eq_comm]
  case isFalse h => simp [h]

theorem mem_between_iff : a ∈ between t p next ↔ ∃ i f, (t.fixtures p)[i]? = some f ∧
    ofFixture? p next (t.fixtures next).length i f = some a := by
  rw [between, List.mem_filterMap]
  simp only [id, exists_eq_right, List.mem_iff_getElem?, List.getElem?_mapIdx, Option.map_eq_some_iff]

theorem between_ordered (t : Tournament) (p next : Phase) :
    (between t p next).Pairwise fun a b => a.winner.phase = b.winner.phase ∧ a.winner.index < b.winner.index := by
  refine List.pairwise_filterMap.mpr (List.pairwise_iff_getElem.mpr fun i j hi hj hij a ha b hb => ?_)
  rw [List.getElem_mapIdx] at ha hb
  obtain ⟨_, -, -, rfl⟩ := ofFixture?_eq_some_iff.mp ha
  obtain ⟨_, -, -, rfl⟩ := ofFixture?_eq_some_iff.mp hb
  exact ⟨rfl, hij⟩

theorem phase_of_mem_between (h : a ∈ between t p next) : a.winner.phase = p := by
  obtain ⟨i, f, -, hf⟩ := mem_between_iff.mp h
  obtain ⟨slot, -, -, rfl⟩ := ofFixture?_eq_some_iff.mp hf
  rfl

end Advance

namespace Tournament

variable {t : Tournament} {direction : Direction}

theorem graph_advances : (t.graph direction).advances =
    (t.knownPhases.zip t.knownPhases.tail).flatMap fun e => Advance.between t e.1 e.2 := rfl

theorem mem_advances_iff {a : Advance} : a ∈ (t.graph direction).advances ↔ t.Advances a.winner a.target := by
  rw [graph_advances, List.mem_flatMap, advances_iff]
  constructor
  · rintro ⟨⟨p, next⟩, he, ha⟩
    obtain ⟨i, f, hf, hsome⟩ := Advance.mem_between_iff.mp ha
    obtain ⟨slot, hwon, hlt, rfl⟩ := Advance.ofFixture?_eq_some_iff.mp hsome
    exact ⟨next, f, next_iff.mp he, hf, hwon, hlt, rfl⟩
  · rintro ⟨next, f, hnext, hf, hwon, hlt, htarget⟩
    refine ⟨(a.winner.phase, next), next_iff.mpr hnext, Advance.mem_between_iff.mpr ⟨_, f, hf, ?_⟩⟩
    refine Advance.ofFixture?_eq_some_iff.mpr ⟨_, hwon, hlt, ?_⟩
    rw [← htarget]

theorem advances_ordered (t : Tournament) (direction : Direction) :
    (t.graph direction).advances.Pairwise fun a b => a.winner.Precedes b.winner := by
  rw [graph_advances]
  refine List.pairwise_flatMap.mpr ⟨fun e _ => (Advance.between_ordered t e.1 e.2).imp .inr, ?_⟩
  refine (pairwise_zip_tail t.knownPhases_ordered).imp fun {e e'} hlt a ha b hb => .inl ?_
  rwa [Advance.phase_of_mem_between ha, Advance.phase_of_mem_between hb]

theorem targets_nodup (t : Tournament) (direction : Direction) :
    ((t.graph direction).advances.map Advance.target).Nodup := by
  refine List.pairwise_map.mpr ((t.advances_ordered direction).imp_of_mem fun {a b} ha hb hlt htarget => ?_)
  have hb' := mem_advances_iff.mp hb
  rw [← htarget] at hb'
  have hwinner : a.winner = b.winner := (mem_advances_iff.mp ha).unique hb'
  rw [hwinner] at hlt
  exact NodeId.not_precedes_self _ hlt

end Tournament

end Knockout
