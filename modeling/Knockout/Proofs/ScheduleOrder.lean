import Knockout.Proofs.Visits

namespace Knockout

theorem pairwise_idxOf {α : Type} [BEq α] [LawfulBEq α] {l : List α} (h : l.Nodup) :
    l.Pairwise fun a b => l.idxOf a < l.idxOf b := by
  apply List.pairwise_iff_getElem.mpr
  intro i j hi hj hij
  rwa [h.idxOf_getElem, h.idxOf_getElem]

theorem pairwise_idxOf_eraseDups {α : Type} [BEq α] [LawfulBEq α] (l : List α) (p : α → Bool) :
    (l.filter p).eraseDups.Pairwise fun a b => l.idxOf a < l.idxOf b := by
  induction l generalizing p with
  | nil => simp
  | cons first l ih =>
    have htail (q : α → Bool) (hq : ∀ x, q x = true → x ≠ first) :
        (l.filter q).eraseDups.Pairwise fun a b => (first :: l).idxOf a < (first :: l).idxOf b := by
      refine (ih q).imp_of_mem fun {a b} ha hb hab => ?_
      have ha := hq a (List.mem_filter.mp (List.mem_eraseDups.mp ha)).2
      have hb := hq b (List.mem_filter.mp (List.mem_eraseDups.mp hb)).2
      rw [List.idxOf_cons_ne l ha.symm, List.idxOf_cons_ne l hb.symm]
      exact Nat.succ_lt_succ hab
    by_cases hp : p first = true
    · rw [List.filter_cons_of_pos hp, List.eraseDups_cons, List.filter_filter]
      have hne (x : α) (hx : (!x == first && p x) = true) : x ≠ first := by
        rw [Bool.and_eq_true, Bool.not_eq_true', beq_eq_false_iff_ne] at hx
        exact hx.1
      refine List.pairwise_cons.mpr ⟨fun b hb => ?_, htail _ hne⟩
      have hb := hne b (List.mem_filter.mp (List.mem_eraseDups.mp hb)).2
      rw [List.idxOf_cons_self, List.idxOf_cons_ne l hb.symm]
      exact Nat.succ_pos _
    · rw [List.filter_cons_of_neg hp]
      refine htail p fun x hx he => hp ?_
      rwa [← he]

def Placed.Precedes (keys : List String) (a b : Placed) : Prop :=
  keys.idxOf a.phase < keys.idxOf b.phase ∨ a.phase = b.phase ∧ a.index < b.index

instance (keys : List String) : Std.Asymm (Placed.Precedes keys) where
  asymm a b h h' := by
    have hplace (he : a.phase = b.phase) : keys.idxOf a.phase = keys.idxOf b.phase := by rw [he]
    rcases h with h | ⟨he, h⟩
    · rcases h' with h' | ⟨he, -⟩
      · omega
      · have := hplace he.symm
        omega
    · rcases h' with h' | ⟨-, h'⟩
      · have := hplace he
        omega
      · omega

namespace Tournament

def contenders (t : Tournament) : List String :=
  t.phases.flatMap fun e => e.2.flatMap fun f => [f.home, f.away]

def keys (t : Tournament) : List String := t.phases.map Prod.fst

theorem keys_ordered (t : Tournament) : t.phases.Pairwise fun a b => t.keys.idxOf a.1 < t.keys.idxOf b.1 := by
  have hn : t.keys.Nodup := by
    refine List.pairwise_map.mpr (t.phases_ordered.imp fun {a b} h he => ?_)
    rw [he] at h
    exact Phase.not_precedes_self _ h
  have hkeys := pairwise_idxOf hn
  rwa [keys, List.pairwise_map] at hkeys

theorem schedule_ordered (t : Tournament) : t.schedule.Pairwise (Placed.Precedes t.keys) := by
  refine List.pairwise_flatMap.mpr ⟨fun e _ => ?_, ?_⟩
  · refine List.pairwise_iff_getElem.mpr fun i j hi hj hij => ?_
    rw [List.getElem_mapIdx, List.getElem_mapIdx]
    exact .inr ⟨rfl, hij⟩
  · refine t.keys_ordered.imp fun {a b} hlt x hx y hy => .inl ?_
    rwa [phase_of_mem_placed hx, phase_of_mem_placed hy]

theorem map_fixture_placed (e : String × List Fixture) : (placed e).map Placed.fixture = e.2 := by
  apply List.ext_getElem
  · simp [placed]
  · intro i _ _
    simp [placed]

theorem flatMap_schedule_phases {α : Type} (t : Tournament) (f : String → Fixture → List α) :
    (t.schedule.flatMap fun g => f g.phase g.fixture) = t.phases.flatMap fun e => e.2.flatMap (f e.1) := by
  rw [schedule, List.flatMap_assoc]
  congr 1
  funext e
  have hphase : (placed e).map (fun g => f g.phase g.fixture) = (placed e).map fun g => f e.1 g.fixture := by
    apply List.map_congr_left
    intro g hg
    rw [phase_of_mem_placed hg]
  conv_rhs => rw [← map_fixture_placed e, List.flatMap_map, List.flatMap_def, ← hphase]
  rfl

theorem flatMap_schedule {α : Type} (t : Tournament) (f : Fixture → List α) :
    (t.schedule.flatMap fun g => f g.fixture) = t.phases.flatMap fun e => e.2.flatMap f :=
  t.flatMap_schedule_phases fun _ => f

theorem exists_scheduled (t : Tournament) (holds : String → Fixture → Prop) :
    (∃ g ∈ t.schedule, holds g.phase g.fixture) ↔ ∃ e ∈ t.phases, ∃ f ∈ e.2, holds e.1 f := by
  constructor
  · rintro ⟨g, hg, h⟩
    obtain ⟨fixtures, he, hf⟩ := mem_schedule.mp hg
    exact ⟨_, he, g.fixture, List.mem_of_getElem? hf, h⟩
  · rintro ⟨e, he, f, hf, h⟩
    obtain ⟨i, hi⟩ := List.mem_iff_getElem?.mp hf
    exact ⟨⟨e.1, i, f⟩, mem_schedule.mpr ⟨e.2, he, hi⟩, h⟩

end Tournament

end Knockout
