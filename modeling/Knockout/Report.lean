import Knockout.Finding
import Knockout.Log

namespace Knockout

structure Report where
  standings : List Standing
  goals : List Goal
  findings : List Finding

namespace Report

def withFindings (r : Report) (t : Tournament) : Report :=
  { r with findings := Finding.all t r.goals }

def warnings (r : Report) : List Finding :=
  r.findings.filter fun f => f.severity = .warning

def log (r : Report) : List LogLine :=
  [⟨.debug, .standings, s!"computed standings for {r.standings.length} team(s)"⟩,
    ⟨.debug, .scorers, s!"collected {r.goals.length} scorer event(s)"⟩,
    ⟨.debug, .findings, s!"extracted {r.findings.length} finding(s)"⟩]

end Report

def Tournament.report (t : Tournament) : Report :=
  (Report.mk t.standings t.goals []).withFindings t

end Knockout
