import Knockout.Casing

namespace Knockout

inductive Phase where
  | quarterfinal
  | semifinal
  | final
deriving DecidableEq, Repr

namespace Phase

def all : List Phase := [quarterfinal, semifinal, final]

def key : Phase → String
  | quarterfinal => "cuartos"
  | semifinal => "semifinal"
  | final => "final"

def displayName : Phase → String
  | quarterfinal => "Cuartos"
  | semifinal => "Semifinal"
  | final => "Final"

def rank : Phase → Nat
  | quarterfinal => 1
  | semifinal => 2
  | final => 3

def ofRank? (rank : Nat) : Option Phase :=
  all.find? fun p => p.rank = rank

def next? (p : Phase) : Option Phase :=
  ofRank? (p.rank + 1)

def ofName? (name : String) : Option Phase :=
  all.find? fun p => p.key = lowered name

def rankOf (name : String) : Nat :=
  (ofName? name).elim 0 rank

theorem mem_all (p : Phase) : p ∈ all := by
  cases p <;> decide

theorem ofRank?_rank (p : Phase) : ofRank? p.rank = some p := by
  cases p <;> rfl

theorem rank_pos (p : Phase) : 0 < p.rank := by
  cases p <;> decide

theorem ofName?_key (p : Phase) : ofName? p.key = some p := by
  cases p <;> rfl

theorem key_of_ofName? {name : String} {p : Phase} (h : ofName? name = some p) : p.key = lowered name := by
  simpa using List.find?_some h

end Phase

end Knockout
