/-
How the command line ends. Without settings, an invocation whose numbers are doubles prints its
result, or reports what is wrong in a line of its own; it ends abnormally only where a number that
is written takes more than 28 digits.
Main statements: `execute_spec`, `run_accepted`.
-/
import GeoPattern.CommandLine.Run
import GeoPattern.Proofs.Layout.Refusal
import GeoPattern.Proofs.Layout.Report

namespace GeoPattern

open Node

/-! ## Without settings -/

/-- No variable is set. -/
def Environment.unset : Environment := ⟨none, none, none, none⟩

/-- What is set where nothing is. -/
def Settings.standard : Settings where
  explicit := false
  file := defaultFile
  root := .object []
  pattern := Catalogue.defaultPattern
  levelName := defaultLevel
  level := .warning

/-- There is no settings file under the name that is looked for. -/
def FileTree.HasNoSettings (tree : FileTree) : Prop :=
  tree.entry (Path.ofText Settings.defaultFile) = .error .missing

instance (tree : FileTree) : Decidable tree.HasNoSettings := inferInstanceAs (Decidable (_ = _))

theorem exists_resolve_defaultPattern :
    ∃ r, Formatter.resolve (some Catalogue.defaultPattern) = .ok r ∧ r.2 = false := by
  decide +kernel

theorem load_unset {tree : FileTree} (h : tree.HasNoSettings) :
    Settings.load tree .unset none = .ok .standard := by
  have hroot : Settings.readRoot tree Settings.defaultFile false = .ok (.object []) := by
    unfold Settings.readRoot
    rw [h]
    rfl
  have hpattern : Settings.checkPattern (.object []) = .ok Catalogue.defaultPattern := by
    obtain ⟨r, hr, -⟩ := exists_resolve_defaultPattern
    unfold Settings.checkPattern
    rw [show Settings.patternOf (.object []) = .string Catalogue.defaultPattern from rfl]
    dsimp only
    rw [hr]
  have hlevel : Settings.checkLevel (.object []) = .ok (Settings.defaultLevel, .warning) := by
    decide +kernel
  have hoverride : Settings.override .unset (.object []) = .ok (.object []) := rfl
  unfold Settings.load
  simp only [bind, Except.bind]
  rw [show Settings.fileName none .unset = Settings.defaultFile from rfl,
    show Settings.isExplicit none .unset = false from rfl, hroot]
  dsimp only
  rw [hoverride]
  dsimp only
  rw [hlevel]
  dsimp only
  rw [hpattern]
  rfl

/-- Without settings, warnings and above are logged on the console, and the pattern decides how the
application starts. -/
theorem start_unset {tree : FileTree} (h : tree.HasNoSettings) (pattern : Option Text) :
    ∃ records : List LogRecord, (∀ r ∈ records, r.level = .debug) ∧
      App.start tree .unset none pattern = ⟨some ⟨App.loggerName, .warning, none⟩, records, tree,
        match Formatter.resolve
          (some ((Environment.nonEmpty pattern).getD Catalogue.defaultPattern)) with
        | .ok (formatter, canned) =>
          .ok ⟨.standard, ⟨App.loggerName, .warning, none⟩, formatter, canned⟩
        | .error e =>
          .error (.pattern e ((Environment.nonEmpty pattern).getD Catalogue.defaultPattern))⟩ := by
  have hfile : App.logFileName? .standard = .ok none := rfl
  unfold App.start
  rw [load_unset h]
  dsimp only
  rw [hfile]
  dsimp only
  rw [show Logger.setUp App.loggerName Settings.standard.level none tree
    = .ok (⟨App.loggerName, .warning, none⟩, tree) from rfl]
  dsimp only
  rw [show Settings.standard.pattern = Catalogue.defaultPattern from rfl]
  rcases Formatter.resolve (some ((Environment.nonEmpty pattern).getD Catalogue.defaultPattern))
    with e | ⟨formatter, - | -⟩
  · exact ⟨_, by simp [App.compileRecords], rfl⟩
  · exact ⟨_, by simp [App.compileRecords], rfl⟩
  · exact ⟨_, by simp [App.compileRecords], rfl⟩

/-! ## The log -/

/-- A text of whole lines. -/
def Text.IsLines (t : Text) : Prop := t = [] ∨ ∃ front, t = front ++ [.char '\n']

namespace Logger

variable {logger : Logger} {stamp : Text} {records : List LogRecord}

/-- The console shows whole lines. -/
theorem isLines_consoleText (logger : Logger) (stamp : Text) (records : List LogRecord) :
    (logger.consoleText stamp records).IsLines := by
  unfold consoleText
  rcases List.eq_nil_or_concat (records.filter (logger.accepts logger.level ·.level)) with
    h | ⟨front, r, h⟩
  · exact .inl (by rw [h]; rfl)
  · refine .inr ⟨front.flatMap (fun r => line [stamp, r.level.name, r.message]) ++
      List.intercalate (Text.lit " - ") [stamp, r.level.name, r.message], ?_⟩
    rw [h, List.concat_eq_append, List.flatMap_append, List.append_assoc]
    simp [line]

/-- Nothing below the level of the logger is shown. -/
theorem consoleText_of_below (hl : logger.level ≠ .notset)
    (h : ∀ r ∈ records, r.level.severity < logger.level.severity) :
    logger.consoleText stamp records = [] := by
  have hnone : records.filter (logger.accepts logger.level ·.level) = [] := by
    rw [List.filter_eq_nil_iff]
    intro r hr haccepts
    have hlt := h r hr
    simp only [accepts, effectiveLevel, if_neg hl, Bool.and_eq_true, decide_eq_true_eq] at haccepts
    omega
  unfold consoleText
  rw [hnone]
  rfl

end Logger

namespace CommandLine

/-! ## What a command gives -/

/-- The command that formats a location. -/
def Command.ofLocation (location : Location) : Command :=
  .format (location.latitude.map .real) (location.longitude.map .real)
    (location.elevation.map .real)

/-- What a command gives with a formatter: its line, or what is wrong. -/
def Command.answer (f : Formatter) : Command → Except Problem Text
  | .format latitude longitude elevation =>
    (f.formatMeasures latitude longitude elevation).mapError .format
  | .parse text => ((f.parse text).map locationLine).mapError .read

/-- The pattern of an invocation: its own, or else the default. -/
def Invocation.wanted (i : Invocation) : Text :=
  (Environment.nonEmpty i.pattern).getD Catalogue.defaultPattern

/-- What an invocation gives where nothing is set. -/
def Invocation.answer (i : Invocation) : Except Problem Text :=
  match Formatter.resolve (some i.wanted) with
  | .ok (f, _) => i.command.answer f
  | .error e => .error (.pattern e i.wanted)

theorem perform_eq (app : App) (command : Command) :
    (perform app command).1 = command.answer app.formatter := by
  cases command with
  | format latitude longitude elevation =>
    unfold perform App.format Command.answer
    dsimp only
    rcases app.formatter.formatMeasures latitude longitude elevation with e | text <;> rfl
  | parse text =>
    unfold perform App.parse Command.answer
    dsimp only
    rcases app.formatter.parse text with e | location <;> rfl

/-- A command that succeeds leaves no warning. -/
theorem quiet_of_perform {app : App} {command : Command} {line : Text}
    (h : (perform app command).1 = .ok line) :
    ∀ r ∈ (perform app command).2, r.level.severity < Level.warning.severity := by
  cases command with
  | format latitude longitude elevation =>
    unfold perform App.format at h ⊢
    dsimp only at h ⊢
    rcases hf : app.formatter.formatMeasures latitude longitude elevation with e | text
    · rw [hf] at h
      cases h
    · simp [App.timed, Timing.opening, Timing.closing, Level.severity]
  | parse text =>
    unfold perform App.parse at h ⊢
    dsimp only at h ⊢
    rcases hp : app.formatter.parse text with e | location
    · rw [hp] at h
      cases h
    · simp [App.timed, Timing.opening, Timing.closing, Level.severity]

/-! ## How a run ends -/

/-- A run prints a line, and nothing else. -/
structure Run.Prints (r : Run) (line : Text) : Prop where
  ending : r.ending = .ok 0
  output : r.output = line ++ [.char '\n']
  errors : r.errors = []

/-- A run reports what is wrong in a line of its own, behind the log. -/
structure Run.Reports (r : Run) (message : Text) : Prop where
  ending : r.ending = .ok 1
  output : r.output = []
  errors : ∃ log : Text, log.IsLines ∧
    r.errors = log ++ Text.lit "location-format: " ++ message ++ [.char '\n']

/-- A run without settings does what its answer calls for, and leaves the files as they are. -/
theorem execute_spec {tree : FileTree} (h : tree.HasNoSettings) (stamp : Text) {i : Invocation}
    (hconfig : i.config = none) :
    (execute stamp tree .unset i).tree = tree ∧
      match i.answer with
      | .ok line => (execute stamp tree .unset i).Prints line
      | .error problem =>
        if problem.isReported then (execute stamp tree .unset i).Reports problem.message
        else (execute stamp tree .unset i).ending = .error problem := by
  obtain ⟨records, hdebug, hstart⟩ := start_unset h i.pattern
  have hquiet : ∀ r ∈ records, r.level.severity < Level.warning.severity := by
    intro r hr
    rw [hdebug r hr]
    decide
  unfold execute Invocation.answer
  rw [hconfig, hstart]
  dsimp only
  rw [show (Environment.nonEmpty i.pattern).getD Catalogue.defaultPattern = i.wanted from rfl]
  rcases Formatter.resolve (some i.wanted) with e | ⟨f, canned⟩
  · exact ⟨rfl, rfl, rfl, _, Logger.isLines_consoleText _ _ _, rfl⟩
  · dsimp only
    generalize happ : App.mk .standard ⟨App.loggerName, .warning, none⟩ f canned = app
    have hf : f = app.formatter := by rw [← happ]
    rw [hf, ← perform_eq]
    rcases hp : (perform app i.command).1 with problem | line
    · dsimp only
      split
      · exact ⟨rfl, rfl, rfl, _, Logger.isLines_consoleText _ _ _, rfl⟩
      · exact ⟨rfl, rfl⟩
    · refine ⟨rfl, rfl, rfl, ?_⟩
      apply Logger.consoleText_of_below (by decide)
      intro r hr
      rcases List.mem_append.1 hr with hr | hr
      · exact hquiet r hr
      · exact quiet_of_perform hp r hr

/-! ## Accepted invocations -/

theorem exists_ofPattern_of_resolve {t : Text} {f : Formatter} {canned : Bool}
    (h : Formatter.resolve (some t) = .ok (f, canned)) :
    ∃ pattern, Formatter.ofPattern pattern = .ok f := by
  unfold Formatter.resolve at h
  dsimp only at h
  rcases hn : Formatter.named? t with - | g
  · rw [hn] at h
    rcases ht : Formatter.ofPattern t with e | g
    · simp only [ht, bind, Except.bind] at h
      cases h
    · simp only [ht, bind, Except.bind] at h
      cases h
      exact ⟨t, ht⟩
  · rw [hn] at h
    cases h
    obtain ⟨pattern, -, hp⟩ := Option.bind_eq_some_iff.1 hn
    rcases hg : Formatter.ofPattern pattern with e | g
    · rw [hg] at hp
      cases hp
    · rw [hg] at hp
      cases hp
      exact ⟨pattern, hg⟩

/-- Doubles are taken as they are. -/
theorem answer_ofLocation (f : Formatter) (location : Location) :
    (Command.ofLocation location).answer f = (f.format location).mapError .format := by
  have hmeasures : Location.ofMeasures (location.latitude.map .real)
      (location.longitude.map .real) (location.elevation.map .real) = .ok location := by
    obtain ⟨latitude, longitude, elevation⟩ := location
    cases latitude <;> cases longitude <;> cases elevation <;> rfl
  unfold Command.ofLocation Command.answer Formatter.formatMeasures
  dsimp only
  rw [hmeasures]

/-- A number that the invocation writes takes more digits than there are. -/
def Invocation.Overflows (i : Invocation) : Prop :=
  ∃ location f canned, i.command = .ofLocation location ∧
    Formatter.resolve (some i.wanted) = .ok (f, canned) ∧
      f.format location = .error (.arithmetic .precision) ∧ Crowded f.body location

theorem Invocation.Overflows.answer_eq {i : Invocation} (h : i.Overflows) :
    i.answer = .error (.format (.arithmetic .precision)) := by
  obtain ⟨location, f, canned, hc, hr, ht, -⟩ := h
  unfold Invocation.answer
  rw [hr]
  dsimp only
  rw [hc, answer_ofLocation, ht]
  rfl

/-- The user is told what is wrong, unless a number takes too many digits. -/
theorem answer_eq_error {i : Invocation}
    (hcommand : (∃ location, i.command = .ofLocation location) ∨ ∃ text, i.command = .parse text)
    {problem : Problem} (h : i.answer = .error problem) :
    problem.isReported = true ∨ problem = .format (.arithmetic .precision) ∧ i.Overflows := by
  unfold Invocation.answer at h
  rcases hr : Formatter.resolve (some i.wanted) with e | ⟨f, canned⟩
  · rw [hr] at h
    cases h
    exact .inl rfl
  rw [hr] at h
  dsimp only at h
  obtain ⟨pattern, hf⟩ := exists_ofPattern_of_resolve hr
  rcases hcommand with ⟨location, hc⟩ | ⟨text, hc⟩
  · rw [hc, answer_ofLocation] at h
    rcases ht : f.format location with e | text
    · rw [ht] at h
      cases h
      rcases format_eq_error hf ht with hexpected | ⟨rfl, hcrowded⟩
      · exact .inl hexpected
      · exact .inr ⟨rfl, location, f, canned, hc, hr, ht, hcrowded⟩
    · rw [ht] at h
      cases h
  · rw [hc] at h
    unfold Command.answer at h
    dsimp only at h
    rcases hp : f.parse text with e | location
    · rw [hp] at h
      cases h
      exact .inl (Formatter.isExpected_of_parse hf hp)
    · rw [hp] at h
      cases h

/-- Without settings, an accepted invocation prints its result, or reports what is wrong; it ends
abnormally only if a number that it writes takes more than 28 digits. -/
theorem run_accepted {arguments : List Text} {i : Invocation}
    (hi : invocation arguments = .ok i) (hconfig : i.config = none)
    (hcommand : (∃ location, i.command = .ofLocation location) ∨ ∃ text, i.command = .parse text)
    {tree : FileTree} (htree : tree.HasNoSettings) (stamp : Text) :
    ∃ r, run stamp tree .unset arguments = .run r ∧ r.tree = tree ∧
      ((∃ line, i.answer = .ok line ∧ r.Prints line) ∨
        (∃ problem, i.answer = .error problem ∧ r.Reports problem.message) ∨
        i.Overflows ∧ r.ending = .error (.format (.arithmetic .precision))) := by
  obtain ⟨hfiles, hspec⟩ := execute_spec htree stamp hconfig
  refine ⟨execute stamp tree .unset i, ?_, hfiles, ?_⟩
  · unfold run
    rw [hi]
  rcases ha : i.answer with problem | line
  · rw [ha] at hspec
    dsimp only at hspec
    rcases answer_eq_error hcommand ha with hreported | ⟨rfl, hoverflows⟩
    · rw [if_pos hreported] at hspec
      exact .inr (.inl ⟨problem, rfl, hspec⟩)
    · exact .inr (.inr ⟨hoverflows, hspec⟩)
  · rw [ha] at hspec
    exact .inl ⟨line, rfl, hspec⟩

/-- A latitude in degrees is written with a pattern of the caller. -/
theorem run_accepted_latitude :
    ∃ i, invocation [Text.lit "--pattern", Text.lit "D.D", Text.lit "format", Text.lit "--lat",
        Text.lit "12.5"] = .ok i ∧
      i.config = none ∧ i.command = .ofLocation (.ofLatitude (.ofRatio false 25 2)) ∧
      FileTree.HasNoSettings ⟨Text.lit "/", [], []⟩ ∧ i.answer = .ok (Text.lit "12.5") ∧
      ∃ r, run (Text.lit "0") ⟨Text.lit "/", [], []⟩ .unset [Text.lit "--pattern", Text.lit "D.D",
          Text.lit "format", Text.lit "--lat", Text.lit "12.5"] = .run r ∧
        r.tree = ⟨Text.lit "/", [], []⟩ ∧ r.Prints (Text.lit "12.5") := by
  obtain ⟨i, hi, hconfig, hcommand, ha⟩ : ∃ i, invocation [Text.lit "--pattern", Text.lit "D.D",
      Text.lit "format", Text.lit "--lat", Text.lit "12.5"] = .ok i ∧ i.config = none ∧
        i.command = .ofLocation (.ofLatitude (.ofRatio false 25 2)) ∧
          i.answer = .ok (Text.lit "12.5") := by
    decide +kernel
  have htree : FileTree.HasNoSettings ⟨Text.lit "/", [], []⟩ := by decide +kernel
  obtain ⟨r, hr, hfiles, hspec⟩ :=
    run_accepted hi hconfig (.inl ⟨_, hcommand⟩) htree (Text.lit "0")
  refine ⟨i, hi, hconfig, hcommand, htree, ha, r, hr, hfiles, ?_⟩
  -- the answer is a line, so neither of the other two endings is left
  rcases hspec with ⟨line, hline, hprints⟩ | ⟨problem, hproblem, -⟩ | ⟨hoverflows, -⟩
  · obtain rfl := Except.ok.inj (ha.symm.trans hline)
    exact hprints
  · rw [ha] at hproblem
    cases hproblem
  · have hrefused := hoverflows.answer_eq
    rw [ha] at hrefused
    cases hrefused

/-- A latitude of thirty digits takes more of them with a fraction digit; nothing is printed and
nothing is reported. -/
theorem run_overflow :
    ∃ i r, invocation [Text.lit "--pattern", Text.lit "D.D", Text.lit "format", Text.lit "--lat",
        Text.lit "1e30"] = .ok i ∧
      i.config = none ∧ i.command = .ofLocation (.ofLatitude (.ofRatio false (10 ^ 30) 1)) ∧
      FileTree.HasNoSettings ⟨Text.lit "/", [], []⟩ ∧
      run (Text.lit "0") ⟨Text.lit "/", [], []⟩ .unset [Text.lit "--pattern", Text.lit "D.D",
          Text.lit "format", Text.lit "--lat", Text.lit "1e30"] = .run r ∧
      r.ending = .error (.format (.arithmetic .precision)) ∧
      ¬ ((∃ line, r.Prints line) ∨ ∃ message, r.Reports message) := by
  obtain ⟨i, hi, hconfig, hcommand, ha⟩ : ∃ i, invocation [Text.lit "--pattern", Text.lit "D.D",
      Text.lit "format", Text.lit "--lat", Text.lit "1e30"] = .ok i ∧ i.config = none ∧
        i.command = .ofLocation (.ofLatitude (.ofRatio false (10 ^ 30) 1)) ∧
          i.answer = .error (.format (.arithmetic .precision)) := by
    decide +kernel
  have htree : FileTree.HasNoSettings ⟨Text.lit "/", [], []⟩ := by decide +kernel
  obtain ⟨-, hspec⟩ := execute_spec htree (Text.lit "0") hconfig
  rw [ha] at hspec
  dsimp only at hspec
  rw [if_neg (by decide)] at hspec
  refine ⟨i, _, hi, hconfig, hcommand, htree, ?_, hspec, ?_⟩
  · unfold run
    rw [hi]
  · rintro (⟨line, h⟩ | ⟨message, h⟩)
    · have := hspec.symm.trans h.ending
      cases this
    · have := hspec.symm.trans h.ending
      cases this

end CommandLine

end GeoPattern
