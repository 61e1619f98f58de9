import Knockout.Proofs.FileSystemLaws
import Knockout.Shell

namespace Knockout

def Note.line? : Note → Option LogLine
  | log line => some line
  | _ => none

namespace Request

def shown (r : Request) : Request :=
  match r.command with
  | .bracket _ topDown => { r with command := .bracket none topDown, format := .text }
  | _ => r

variable (host : Host) {State File : Type} (fs : FileSystem State File)

def outcome (r : Request) (before : State) : Answer × State := (fs.perform (Shell.run host r)).run before

def configured? (r : Request) (before : State) : Option Settings :=
  match r.settings with
  | none => some {}
  | some path => ((fs.readText before path).bind host.settings).toOption

def loaded? (r : Request) (before : State) : Option (Settings × Source) := do
  let settings ← r.configured? host fs before
  let text ← (fs.readText before r.file).toOption
  return (settings, Source.read settings.options text)

inductive Fails (r : Request) (before : State) : Prop
  | settings {path : String} {e : Fault} : r.settings = some path → fs.readText before path = .error e → Fails r before
  | invalid {path text : String} {e : Fault} : r.settings = some path → fs.readText before path = .ok text →
    host.settings text = .error e → Fails r before
  | source {e : Fault} : fs.readText before r.file = .error e → Fails r before
  | out {path : String} {topDown : Bool} {e : Fault} : r.command = .bracket (some path) topDown →
    (fs.write before path (r.shown.outcome host fs before).1.stdout.toUTF8).1 = .error e → Fails r before

def FindsProblems (r : Request) (before : State) : Prop :=
  ∃ settings s, r.loaded? host fs before = some (settings, s) ∧ s.diagnostics ≠ []

structure Conducted (r : Request) (before : State) (answer : Answer) (after : State) : Prop where
  exit_one : answer.exit = 1 ↔ r.Fails host fs before ∨ r.command = .check ∧ r.FindsProblems host fs before
  exit_zero : answer.exit = 0 ↔ ¬ (r.Fails host fs before ∨ r.command = .check ∧ r.FindsProblems host fs before)
  independent (format : Format) (quiet : Bool) (verbosity : Nat) :
    ({ r with format, quiet, verbosity }.outcome host fs before).1.exit = answer.exit
  failed : r.Fails host fs before → answer.stdout = "" ∧ fs.Unchanged before after
  kept : (∀ path topDown, r.command ≠ .bracket (some path) topDown) → fs.Unchanged before after
  written {path : String} {topDown : Bool} : r.command = .bracket (some path) topDown → ¬ r.Fails host fs before →
    fs.Written before path (r.shown.outcome host fs before).1.stdout.toUTF8 after
  reread {path text : String} {topDown : Bool} : r.command = .bracket (some path) topDown → ¬ r.Fails host fs before →
    fs.readText after path = .ok text → text = (r.shown.outcome host fs before).1.stdout
  quiet : r.quiet = true → answer.stderr host r = String.join
    (answer.notes.mapIdx fun moment note => note.line?.elim "" (host.record (.ofVerbosity r.verbosity) moment))

def drawing (settings : Settings) (s : Source) (topDown : Bool) : String :=
  (s.tournament.graph (if topDown then .topBottom else settings.direction)).dot

variable {host fs} {r : Request} {before after : State} {settings : Settings} {s : Source}

theorem loaded?_eq_some_iff : r.loaded? host fs before = some (settings, s) ↔
    r.configured? host fs before = some settings ∧
      ∃ text, fs.readText before r.file = .ok text ∧ s = Source.read settings.options text := by
  unfold loaded?
  cases r.configured? host fs before with
  | none => simp
  | some found =>
    cases fs.readText before r.file with
    | error e => simp [Except.toOption]
    | ok text =>
      simp only [Except.toOption, Option.bind_eq_bind, Option.bind_some, Option.pure_def, Option.some.injEq,
        Prod.mk.injEq, Except.ok.injEq, exists_eq_left']
      constructor
      · rintro ⟨rfl, rfl⟩
        exact ⟨rfl, rfl⟩
      · rintro ⟨rfl, rfl⟩
        exact ⟨rfl, rfl⟩

theorem of_configured (h : r.configured? host fs before = some settings) : r.settings = none ∧ settings = {} ∨
    ∃ path text, r.settings = some path ∧ fs.readText before path = .ok text ∧ host.settings text = .ok settings := by
  unfold configured? at h
  cases hp : r.settings with
  | none =>
    rw [hp] at h
    exact .inl ⟨rfl, (Option.some.inj h).symm⟩
  | some path =>
    rw [hp] at h
    dsimp only at h
    cases hr : fs.readText before path with
    | error e =>
      rw [hr] at h
      cases h
    | ok text =>
      rw [hr] at h
      dsimp only [Except.bind] at h
      cases hd : host.settings text with
      | error e =>
        rw [hd] at h
        cases h
      | ok found =>
        rw [hd] at h
        obtain rfl := Option.some.inj h
        exact .inr ⟨path, text, rfl, hr, hd⟩

theorem of_unconfigured (h : r.configured? host fs before = none) : ∃ path, r.settings = some path ∧
    ((∃ e, fs.readText before path = .error e) ∨
      ∃ text e, fs.readText before path = .ok text ∧ host.settings text = .error e) := by
  unfold configured? at h
  cases hp : r.settings with
  | none =>
    rw [hp] at h
    cases h
  | some path =>
    refine ⟨path, rfl, ?_⟩
    rw [hp] at h
    dsimp only at h
    cases hr : fs.readText before path with
    | error e => exact .inl ⟨e, rfl⟩
    | ok text =>
      rw [hr] at h
      dsimp only [Except.bind] at h
      cases hd : host.settings text with
      | error e => exact .inr ⟨text, e, rfl, hd⟩
      | ok found =>
        rw [hd] at h
        cases h

theorem perform_read {α : Type} (path : String) (next : Except Fault String → Session α) :
    (fs.perform (.read path next)).run before = (fs.perform (next (fs.readText before path))).run before := rfl

theorem perform_write {α : Type} (path text : String) (next : Except Fault Unit → Session α) :
    (fs.perform (.write path text next)).run before =
      (fs.perform (next (fs.write before path text.toUTF8).1)).run (fs.write before path text.toUTF8).2 := rfl

theorem outcome_of_path {path : String} (hp : r.settings = some path) : r.outcome host fs before =
    match fs.readText before path with
    | .error e => (.fail [] (.unreadable path e), before)
    | .ok text =>
      match host.settings text with
      | .error e => (.fail [] (.invalidSettings path e), before)
      | .ok settings => (fs.perform (Shell.readSource r
          [.log ⟨.debug, .settings, s!"loaded config from {path}: {settings.logText}"⟩] settings)).run before := by
  unfold outcome Shell.run
  rw [hp]
  dsimp only
  rw [perform_read]
  cases fs.readText before path with
  | error e => rfl
  | ok text =>
    dsimp only
    cases host.settings text with
    | error e => rfl
    | ok settings => rfl

theorem outcome_of_unconfigured (h : r.configured? host fs before = none) :
    ∃ notes f, r.outcome host fs before = (.fail notes f, before) := by
  obtain ⟨path, hp, ⟨e, hr⟩ | ⟨text, e, hr, hd⟩⟩ := of_unconfigured h
  · rw [outcome_of_path hp, hr]
    exact ⟨_, _, rfl⟩
  · rw [outcome_of_path hp, hr]
    dsimp only
    rw [hd]
    exact ⟨_, _, rfl⟩

theorem outcome_of_configured (h : r.configured? host fs before = some settings) :
    ∃ notes, r.outcome host fs before = (fs.perform (Shell.readSource r notes settings)).run before := by
  obtain ⟨hp, rfl⟩ | ⟨path, text, hp, hr, hd⟩ := of_configured h
  · unfold outcome Shell.run
    rw [hp]
    exact ⟨_, rfl⟩
  · rw [outcome_of_path hp, hr]
    dsimp only
    rw [hd]
    exact ⟨_, rfl⟩

theorem outcome_of_unloaded (h : r.loaded? host fs before = none) :
    ∃ notes f, r.outcome host fs before = (.fail notes f, before) := by
  cases hc : r.configured? host fs before with
  | none => exact outcome_of_unconfigured hc
  | some settings =>
    obtain ⟨notes, ho⟩ := outcome_of_configured hc
    rw [ho, Shell.readSource, perform_read]
    cases hr : fs.readText before r.file with
    | error e => exact ⟨_, _, rfl⟩
    | ok text =>
      have hs := loaded?_eq_some_iff.mpr ⟨hc, text, hr, rfl⟩
      rw [h] at hs
      cases hs

theorem outcome_of_loaded (h : r.loaded? host fs before = some (settings, s)) :
    ∃ notes, r.outcome host fs before = (fs.perform (Shell.answer r settings notes s)).run before := by
  obtain ⟨hc, text, hr, rfl⟩ := loaded?_eq_some_iff.mp h
  obtain ⟨notes, ho⟩ := outcome_of_configured hc
  rw [ho, Shell.readSource, perform_read, hr]
  exact ⟨_, rfl⟩

section Answers

variable {path : String} {topDown : Bool} {notes : List Note}

theorem answer_eq_of_bracket {out : Option String} (hc : r.command = .bracket out topDown) :
    ∃ notes' g, g.dot = drawing settings s topDown ∧
      Shell.answer r settings notes s = Shell.drawBracket r out notes' g := by
  unfold Shell.answer
  rw [hc]
  exact ⟨_, _, rfl, rfl⟩

theorem outcome_of_out (h : r.loaded? host fs before = some (settings, s))
    (hc : r.command = .bracket (some path) topDown) :
    let written := fs.write before path (drawing settings s topDown).toUTF8
    (∀ e, written.1 = .error e → ∃ notes f, r.outcome host fs before = (.fail notes f, written.2)) ∧
      (written.1 = .ok () → ∃ answer, r.outcome host fs before = (answer, written.2) ∧ answer.exit = 0) := by
  obtain ⟨notes, ho⟩ := outcome_of_loaded h
  obtain ⟨notes', g, hg, ha⟩ := @answer_eq_of_bracket r settings s topDown notes _ hc
  rw [ho, ha, Shell.drawBracket, perform_write, hg]
  constructor
  · intro e he
    rw [he]
    exact ⟨_, _, rfl⟩
  · intro hok
    rw [hok]
    exact ⟨_, rfl, rfl⟩

theorem outcome_shown (h : r.loaded? host fs before = some (settings, s))
    (hc : ∀ path topDown, r.command ≠ .bracket (some path) topDown) :
    ∃ answer, r.outcome host fs before = (answer, before) ∧
      answer.exit = if r.command = .check ∧ s.hasErrors = true then 1 else 0 := by
  obtain ⟨notes, ho⟩ := outcome_of_loaded h
  rw [ho]
  unfold Shell.answer
  cases hr : r.command with
  | bracket out topDown =>
    cases out with
    | none => exact ⟨_, rfl, rfl⟩
    | some path => exact absurd hr (hc path topDown)
  | check =>
    refine ⟨_, rfl, ?_⟩
    simp
  | tokens => exact ⟨_, rfl, rfl⟩
  | model => exact ⟨_, rfl, rfl⟩
  | stats => exact ⟨_, rfl, rfl⟩
  | report => exact ⟨_, rfl, rfl⟩

theorem loaded?_shown (r : Request) (before : State) : r.shown.loaded? host fs before = r.loaded? host fs before := by
  unfold shown
  split <;> rfl

theorem stdout_shown (h : r.loaded? host fs before = some (settings, s)) {out : Option String}
    (hc : r.command = .bracket out topDown) :
    (r.shown.outcome host fs before).1.stdout = drawing settings s topDown := by
  have hs : r.shown = { r with command := .bracket none topDown, format := .text } := by
    unfold shown
    rw [hc]
  rw [← loaded?_shown, hs] at h
  obtain ⟨notes, ho⟩ := outcome_of_loaded h
  rw [hs, ho]
  rfl

end Answers

theorem fails_of_unloaded (h : r.loaded? host fs before = none) : r.Fails host fs before := by
  cases hc : r.configured? host fs before with
  | none =>
    obtain ⟨path, hp, ⟨e, hr⟩ | ⟨text, e, hr, hd⟩⟩ := of_unconfigured hc
    · exact .settings hp hr
    · exact .invalid hp hr hd
  | some settings =>
    cases hr : fs.readText before r.file with
    | error e => exact .source hr
    | ok text =>
      have hs := loaded?_eq_some_iff.mpr ⟨hc, text, hr, rfl⟩
      rw [h] at hs
      cases hs

theorem readable_of_configured {path : String} (hc : r.configured? host fs before = some settings)
    (hp : r.settings = some path) : ∃ text, fs.readText before path = .ok text ∧ host.settings text = .ok settings := by
  obtain ⟨hnone, -⟩ | ⟨path', text, hp', hr, hd⟩ := of_configured hc
  · cases hp.symm.trans hnone
  · obtain rfl := Option.some.inj (hp.symm.trans hp')
    exact ⟨text, hr, hd⟩

theorem fails_iff_of_loaded (h : r.loaded? host fs before = some (settings, s)) : r.Fails host fs before ↔
    ∃ path topDown e, r.command = .bracket (some path) topDown ∧
      (fs.write before path (drawing settings s topDown).toUTF8).1 = .error e := by
  obtain ⟨hc, text, hr, -⟩ := loaded?_eq_some_iff.mp h
  constructor
  · intro hf
    cases hf with
    | settings hp hread =>
      obtain ⟨found, hfound, -⟩ := readable_of_configured hc hp
      cases hfound.symm.trans hread
    | invalid hp hread hinvalid =>
      obtain ⟨found, hfound, hvalid⟩ := readable_of_configured hc hp
      obtain rfl := Except.ok.inj (hfound.symm.trans hread)
      cases hvalid.symm.trans hinvalid
    | source hread => cases hr.symm.trans hread
    | out hcommand hwrite =>
      rw [stdout_shown h hcommand] at hwrite
      exact ⟨_, _, _, hcommand, hwrite⟩
  · rintro ⟨path, topDown, e, hcommand, hwrite⟩
    rw [← stdout_shown h hcommand] at hwrite
    exact .out hcommand hwrite

theorem outcome_of_fails (hfs : fs.Lawful) (h : r.Fails host fs before) :
    ∃ notes f after, r.outcome host fs before = (.fail notes f, after) ∧ fs.Unchanged before after := by
  cases hl : r.loaded? host fs before with
  | none =>
    obtain ⟨notes, f, ho⟩ := outcome_of_unloaded hl
    exact ⟨notes, f, before, ho, fun file => rfl⟩
  | some loaded =>
    obtain ⟨path, topDown, e, hc, hw⟩ := (fails_iff_of_loaded hl).mp h
    obtain ⟨notes, f, ho⟩ := (outcome_of_out hl hc).1 e hw
    exact ⟨notes, f, _, ho, hfs.write_error (Prod.ext hw rfl)⟩

theorem outcome_written (hfs : fs.Lawful) (hl : r.loaded? host fs before = some (settings, s))
    (hf : ¬ r.Fails host fs before) {path : String} {topDown : Bool} (hc : r.command = .bracket (some path) topDown) :
    ∃ answer after, r.outcome host fs before = (answer, after) ∧ answer.exit = 0 ∧
      fs.Written before path (drawing settings s topDown).toUTF8 after := by
  cases hw : (fs.write before path (drawing settings s topDown).toUTF8).1 with
  | error e => exact absurd ((fails_iff_of_loaded hl).mpr ⟨_, _, _, hc, hw⟩) hf
  | ok done =>
    obtain ⟨answer, ho, hexit⟩ := (outcome_of_out hl hc).2 hw
    exact ⟨answer, _, ho, hexit, hfs.write_ok (Prod.ext hw rfl)⟩

theorem loaded?_of_not_fails (h : ¬ r.Fails host fs before) :
    ∃ settings s, r.loaded? host fs before = some (settings, s) := by
  cases hl : r.loaded? host fs before with
  | none => exact absurd (fails_of_unloaded hl) h
  | some loaded => exact ⟨_, _, rfl⟩

theorem exit_of_not_fails (hfs : fs.Lawful) (hl : r.loaded? host fs before = some (settings, s))
    (h : ¬ r.Fails host fs before) :
    (r.outcome host fs before).1.exit = if r.command = .check ∧ s.hasErrors = true then 1 else 0 := by
  by_cases hc : ∃ path topDown, r.command = .bracket (some path) topDown
  · obtain ⟨path, topDown, hc⟩ := hc
    obtain ⟨answer, after, ho, hexit, -⟩ := outcome_written hfs hl h hc
    rw [ho, hexit, hc, if_neg (by simp)]
  · obtain ⟨answer, ho, hexit⟩ := outcome_shown hl fun path topDown he => hc ⟨path, topDown, he⟩
    rw [ho, hexit]

theorem exit_eq (hfs : fs.Lawful) (r : Request) (before : State) :
    let fails := r.Fails host fs before ∨ r.command = .check ∧ r.FindsProblems host fs before
    (r.outcome host fs before).1.exit = 1 ∧ fails ∨ (r.outcome host fs before).1.exit = 0 ∧ ¬ fails := by
  by_cases hf : r.Fails host fs before
  · obtain ⟨notes, f, after, ho, -⟩ := outcome_of_fails hfs hf
    rw [ho]
    exact .inl ⟨rfl, .inl hf⟩
  obtain ⟨settings, s, hl⟩ := loaded?_of_not_fails hf
  have hproblems : r.FindsProblems host fs before ↔ s.hasErrors = true := by
    unfold FindsProblems
    rw [hl]
    simp [Source.hasErrors, and_assoc]
  dsimp only
  rw [exit_of_not_fails hfs hl hf, hproblems]
  by_cases hc : r.command = .check ∧ s.hasErrors = true
  · rw [if_pos hc]
    exact .inl ⟨rfl, .inr hc⟩
  · rw [if_neg hc]
    exact .inr ⟨rfl, not_or.mpr ⟨hf, hc⟩⟩

theorem fails_iff_of_same {r' : Request} (hl : r'.loaded? host fs before = r.loaded? host fs before)
    (hc : r'.command = r.command) : r'.Fails host fs before ↔ r.Fails host fs before := by
  cases h : r.loaded? host fs before with
  | none => exact iff_of_true (fails_of_unloaded (hl.trans h)) (fails_of_unloaded h)
  | some loaded => rw [fails_iff_of_loaded (hl.trans h), fails_iff_of_loaded h, hc]

theorem exit_of_same (hfs : fs.Lawful) {r' : Request} (hl : r'.loaded? host fs before = r.loaded? host fs before)
    (hc : r'.command = r.command) : (r'.outcome host fs before).1.exit = (r.outcome host fs before).1.exit := by
  have hproblems : r'.FindsProblems host fs before ↔ r.FindsProblems host fs before := by
    unfold FindsProblems
    rw [hl]
  have hsame : r'.Fails host fs before ∨ r'.command = .check ∧ r'.FindsProblems host fs before ↔
      r.Fails host fs before ∨ r.command = .check ∧ r.FindsProblems host fs before := by
    rw [fails_iff_of_same hl hc, hc, hproblems]
  rcases exit_eq hfs r before with ⟨he, h⟩ | ⟨he, h⟩
  · rcases exit_eq hfs r' before with ⟨he', -⟩ | ⟨-, h'⟩
    · rw [he, he']
    · exact absurd (hsame.mpr h) h'
  · rcases exit_eq hfs r' before with ⟨-, h'⟩ | ⟨he', -⟩
    · exact absurd (hsame.mp h') h
    · rw [he, he']

theorem text_of_quiet (h : r.quiet = true) (moment : Nat) (note : Note) :
    note.text host r moment = note.line?.elim "" (host.record (.ofVerbosity r.verbosity) moment) := by
  cases note with
  | log line => rfl
  | problems count => exact if_pos h
  | failure f => exact if_pos h

end Request

end Knockout
