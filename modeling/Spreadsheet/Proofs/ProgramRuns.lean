import Spreadsheet.Main
import Spreadsheet.Proofs.ScriptRuns
import Spreadsheet.Proofs.WrittenFiles

/-! Runs of the program: each works on a sheet with cells, delivers the table of the sheet that the
script leaves, and touches no file but the one that it was asked to write. -/
namespace Spreadsheet

/-! Settings and options. -/

namespace Settings

/-- A sheet of this size has a cell, and there is a filter. -/
structure Usable (s : Settings) : Prop where
  width : 0 < s.width
  height : 0 < s.height
  logFilter : s.logFilter ≠ ""

variable {disk : Disk} {s : Settings} {warnings : List SettingsWarning}

theorem usable_builtIn : builtIn.Usable := ⟨by decide, by decide, by decide⟩

/-- What a file says is passed over if it is of no use. -/
theorem Usable.override (usable : s.Usable) (path : String) (f : SettingsFile) :
    (s.override path f).1.Usable := by
  obtain ⟨width?, height?, logFilter?⟩ := f
  refine ⟨?_, ?_, ?_⟩
  · rcases width? with _ | _ | n
    · exact usable.width
    · exact usable.width
    · exact Nat.succ_pos n
  · rcases height? with _ | _ | n
    · exact usable.height
    · exact usable.height
    · exact Nat.succ_pos n
  · cases logFilter? with
    | none => exact usable.logFilter
    | some text =>
      simp only [Settings.override, Option.map_some]
      cases trimmed : Text.trim text.toList with
      | nil => exact usable.logFilter
      | cons c rest => simp

theorem usable_ofText (path content : String) : (ofText path content).1.Usable := by
  unfold ofText
  split
  · exact usable_builtIn
  · split
    · exact usable_builtIn
    · exact usable_builtIn.override path _

theorem usable_of_load {requested : Option String} {userFile : String}
    (loaded : load disk requested userFile = .ok (s, warnings)) : s.Usable := by
  unfold load at loaded
  dsimp only at loaded
  split at loaded
  · obtain rfl := congrArg Prod.fst (Except.ok.inj loaded)
    exact usable_ofText ..
  · cases loaded
    exact usable_builtIn
  · split at loaded
    · cases loaded
    · cases loaded
      exact usable_builtIn

end Settings

namespace CommandLine

variable {disk : Disk} {o p : Options} {arguments : List String} {configHome stdin csv : String}

/-- Sizes that are asked for are not zero. -/
structure Options.Positive (o : Options) : Prop where
  width : ∀ n ∈ o.width, 0 < n
  height : ∀ n ∈ o.height, 0 < n

theorem positive_of_size {option text : String} {n : Nat} (read : size option text = .ok n) :
    0 < n := by
  unfold size at read
  split at read
  · cases read
    exact Nat.succ_pos _
  · cases read

theorem Options.Positive.readArguments (positive : o.Positive)
    (read : CommandLine.readArguments o arguments = .ok (.run p)) : p.Positive := by
  fun_induction CommandLine.readArguments o arguments with
  | case1 o =>
    cases read
    exact positive
  | case14 o text rest ih =>
    obtain ⟨n, sized, read⟩ := bind_eq_ok.mp read
    exact ih n ⟨by simpa using positive_of_size sized, positive.height⟩ read
  | case16 o text rest ih =>
    obtain ⟨n, sized, read⟩ := bind_eq_ok.mp read
    exact ih n ⟨positive.width, by simpa using positive_of_size sized⟩ read
  | case6 | case7 | case8 | case11 | case12 | case19 =>
    rename_i ih
    exact ih ⟨positive.width, positive.height⟩ read
  | _ => cases read

theorem positive_of_request (asked : request arguments = .ok (.run o)) : o.Positive :=
  Options.Positive.readArguments ⟨by simp [Options.none], by simp [Options.none]⟩ asked

theorem usable_of_settings {s : Settings} {warnings : List SettingsWarning}
    (given : settings disk configHome o = .ok (s, warnings)) : s.Usable := by
  unfold settings at given
  split at given
  · cases given
    exact Settings.usable_builtIn
  · exact Settings.usable_of_load given

/-! What a run computes. -/

/-- The sheet on which a script begins. A size among the options goes before that of the
settings. -/
def Options.blankSheet (o : Options) (s : Settings) : Sheet :=
  Sheet.ofSize (o.width.getD s.width) (o.height.getD s.height)

/-- With these settings the whole script goes well, and this is the sheet that it leaves. -/
structure Computed (disk : Disk) (configHome stdin : String) (o : Options) (s : Settings)
    (script : String) (sheet : Sheet) : Prop where
  settings : ∃ warnings, settings disk configHome o = .ok (s, warnings)
  text : scriptText disk stdin o = .ok script
  ran : (o.blankSheet s).runScript script = (sheet, none)

section computed
variable {s : Settings} {script : String} {sheet : Sheet}

theorem Computed.blankSheet_nonempty (computed : Computed disk configHome stdin o s script sheet)
    (asked : request arguments = .ok (.run o)) :
    0 < (o.blankSheet s).width ∧ 0 < (o.blankSheet s).height := by
  have positive := positive_of_request asked
  obtain ⟨warnings, given⟩ := computed.settings
  have usable := usable_of_settings given
  have size {asked : Option Nat} {usual : Nat} (fit : ∀ n ∈ asked, 0 < n) (otherwise : 0 < usual) :
      0 < asked.getD usual := by
    cases asked with
    | none => exact otherwise
    | some n => exact fit n rfl
  refine ⟨?_, size positive.height usable.height⟩
  rw [Options.blankSheet, Sheet.width_ofSize]
  exact size positive.width usable.width

/-- Whatever holds of sheets that calls lead to holds of the sheet whose table is delivered. -/
theorem Computed.reachable (computed : Computed disk configHome stdin o s script sheet)
    (returns : (o.blankSheet s).ScriptReturns script) : sheet.Reachable := by
  have fresh : (o.blankSheet s).Reachable := .ofSize (returns 0 (Nat.zero_le _))
  have reached := fresh.runLines returns
  rw [← Sheet.runScript, computed.ran] at reached
  exact reached

theorem values_eq_ok : values disk stdin o s = .ok csv ↔ ∃ script sheet,
    scriptText disk stdin o = .ok script ∧ (o.blankSheet s).runScript script = (sheet, none) ∧
      sheet.toCsv = csv := by
  unfold values
  rw [bind_eq_ok]
  refine exists_congr fun script => ?_
  dsimp only
  rw [← Options.blankSheet]
  rcases (o.blankSheet s).runScript script with ⟨sheet, _ | e⟩
  · simp [pure_eq_ok]
  · simp [throw_ne_ok]

end computed

/-! What a run leaves behind. -/

section delivery
variable {t : FileTree} {report : Report}

/-- The files, with the one that the run reports. -/
def Report.leaves (report : Report) (t : FileTree) : Except FileError FileTree :=
  match report.written with
  | none => .ok t
  | some (path, text) => t.write path text

/-- The table is printed if no file is asked for. Else it is read in this file, and what was read
before anywhere is read there still, unless it was in this very file. -/
structure Delivered (before after : FileTree) (o : Options) (report : Report) (csv : String) :
    Prop where
  printed : o.output = none → report.stdout = csv ∧ after = before
  exported : ∀ path ∈ o.output, report.stdout = "" ∧ after.read path = .ok csv ∧
    ∀ other old, before.read other = .ok old → after.read other = .ok old ∨
      after.read other = .ok csv ∧ before.read path = .ok old

/-- A run that can deliver prints the table, or exports it and prints nothing. -/
theorem deliver_cases (good : deliver disk o csv = .ok report) : report.code = 0 ∧
    ((o.output = none ∧ report.stdout = csv ∧ report.written = none) ∨
      ∃ path, o.output = some path ∧ disk.write path = .ok () ∧ report.stdout = "" ∧
        report.written = some (path, csv)) := by
  unfold deliver at good
  split at good
  · rename_i none
    cases good
    exact ⟨rfl, .inl ⟨none, rfl, rfl⟩⟩
  · rename_i path asked
    obtain ⟨⟨⟩, writable, good⟩ := bind_eq_ok.mp good
    cases pure_eq_ok.mp good
    exact ⟨rfl, .inr ⟨path, asked, mapError_eq_ok.mp writable, rfl, rfl⟩⟩

theorem exists_deliver (writable : ∀ path ∈ o.output, disk.write path = .ok ()) (csv : String) :
    ∃ report, deliver disk o csv = .ok report := by
  unfold deliver
  cases asked : o.output with
  | none => exact ⟨_, rfl⟩
  | some path =>
    have good : (disk.write path).mapError (RunError.unwritable path) = .ok () :=
      mapError_eq_ok.mpr (writable path asked)
    dsimp only
    rw [good]
    exact ⟨_, rfl⟩

/-- A run fails, or it helps, or it delivers what it has computed. -/
theorem run_cases (ran : run disk configHome stdin arguments = report) :
    (report.code ≠ 0 ∧ report.stdout = "" ∧ report.written = none) ∨
    (request arguments = .ok .help ∧ report = ⟨0, "", usage, none⟩) ∨
    ∃ o s script sheet delivered message, request arguments = .ok (.run o) ∧
      Computed disk configHome stdin o s script sheet ∧
      deliver disk o sheet.toCsv = .ok delivered ∧
      report = { delivered with stderr := message } := by
  unfold run at ran
  split at ran
  · subst ran
    exact .inl ⟨one_ne_zero, rfl, rfl⟩
  · rename_i asked
    subst ran
    exact .inr (.inl ⟨asked, rfl⟩)
  · rename_i o asked
    unfold execute at ran
    split at ran
    · subst ran
      exact .inl ⟨one_ne_zero, rfl, rfl⟩
    · rename_i s warnings given
      dsimp only at ran
      split at ran
      · subst ran
        exact .inl ⟨one_ne_zero, rfl, rfl⟩
      · rename_i delivered good
        obtain ⟨csv, computed, good⟩ := bind_eq_ok.mp good
        obtain ⟨script, sheet, text, went, rfl⟩ := values_eq_ok.mp computed
        exact .inr (.inr ⟨o, s, script, sheet, delivered, _, asked, ⟨⟨warnings, given⟩, text, went⟩,
          good, ran.symm⟩)

/-- A run goes well if its script does and the file can be written. -/
theorem code_eq_zero_iff (asked : request arguments = .ok (.run o)) :
    (run disk configHome stdin arguments).code = 0 ↔
      (∃ s script sheet, Computed disk configHome stdin o s script sheet) ∧
        ∀ path ∈ o.output, disk.write path = .ok () := by
  constructor
  · intro fine
    rcases run_cases rfl with ⟨code, -, -⟩ | ⟨help, -⟩ |
      ⟨o', s, script, sheet, delivered, message, asked', computed, delivery, -⟩
    · exact absurd fine code
    · rw [help] at asked
      cases asked
    · obtain rfl : o = o' := by simpa [asked] using asked'
      refine ⟨⟨s, script, sheet, computed⟩, fun path output => ?_⟩
      obtain ⟨-, ⟨none, -⟩ | ⟨path', output', writable, -⟩⟩ := deliver_cases delivery
      · rw [none] at output
        cases output
      · obtain rfl : path' = path := Option.some.inj (output'.symm.trans output)
        exact writable
  · rintro ⟨⟨s, script, sheet, ⟨warnings, given⟩, text, went⟩, writable⟩
    have computed : values disk stdin o s = .ok sheet.toCsv :=
      values_eq_ok.mpr ⟨script, sheet, text, went, rfl⟩
    obtain ⟨report, delivery⟩ := exists_deliver writable sheet.toCsv
    simp [run, asked, execute, given, computed, delivery, (deliver_cases delivery).1]

theorem exists_write_of_disk {path : String} (writable : t.disk.write path = .ok ())
    (text : String) : ∃ u, t.write path text = .ok u := by
  cases written : t.write path "" with
  | error e => simp [FileTree.disk, written, Except.map] at writable
  | ok u => exact FileTree.exists_write written text

theorem delivered_of_deliver (good : deliver t.disk o csv = .ok report) :
    ∃ after, report.leaves t = .ok after ∧ Delivered t after o report csv := by
  rcases (deliver_cases good).2 with ⟨none, printed, unwritten⟩ |
    ⟨path, output, writable, quiet, exported⟩
  · exact ⟨t, by simp [Report.leaves, unwritten], fun _ => ⟨printed, rfl⟩, by simp [none]⟩
  · obtain ⟨after, written⟩ := exists_write_of_disk writable csv
    refine ⟨after, by simpa [Report.leaves, exported] using written, by simp [output], ?_⟩
    intro path' output'
    obtain rfl : path = path' := Option.some.inj (output.symm.trans output')
    exact ⟨quiet, FileTree.read_write written, fun other old => FileTree.read_of_write written⟩

/-- A run that fails prints and changes nothing; what a run reports to be written can be, and then
the table of the sheet has been delivered. -/
theorem exists_leaves_of_run (ran : run t.disk configHome stdin arguments = report) :
    ∃ after, report.leaves t = .ok after ∧ (report.code ≠ 0 → report.stdout = "" ∧ after = t) ∧
      ∀ o, request arguments = .ok (.run o) → report.code = 0 → ∃ s script sheet,
        Computed t.disk configHome stdin o s script sheet ∧
          Delivered t after o report sheet.toCsv := by
  rcases run_cases ran with ⟨code, quiet, none⟩ | ⟨help, rfl⟩ |
    ⟨o, s, script, sheet, delivered, message, asked, computed, delivery, rfl⟩
  · refine ⟨t, by simp [Report.leaves, none], fun _ => ⟨quiet, rfl⟩, fun _ _ fine => ?_⟩
    exact absurd fine code
  · refine ⟨t, rfl, fun failed => absurd rfl failed, fun o asked => ?_⟩
    rw [help] at asked
    cases asked
  · obtain ⟨after, leaves, printed, exported⟩ := delivered_of_deliver delivery
    refine ⟨after, leaves, fun failed => absurd (deliver_cases delivery).1 failed, ?_⟩
    intro o' asked' _
    obtain rfl : o = o' := by simpa [asked] using asked'
    exact ⟨s, script, sheet, computed, printed, exported⟩

example : run (FileTree.ofFiles ["home"] [("a.toml", "sheet.width = 0x2")]).disk "" "A1 =1+1"
    ["-c", "a.toml", "--height", "1", "-o", "b.csv"] =
      ⟨0, "", "Exported to b.csv\n", some ("b.csv", "2,\n")⟩ := by
  decide +kernel

end delivery

/-! What a run looks at. -/

theorem settings_congr {d e : Disk}
    (reads : ∀ path ∈ o.reads configHome, d.read path = e.read path) :
    settings d configHome o = settings e configHome o := by
  unfold settings
  cases skipped : o.noConfig with
  | true => rfl
  | false =>
    have same := reads (o.config.getD (userSettings configHome)) (by simp [Options.reads, skipped])
    simp only [Settings.load, same]

theorem scriptText_congr {d e : Disk}
    (reads : ∀ path ∈ o.reads configHome, d.read path = e.read path) :
    scriptText d stdin o = scriptText e stdin o := by
  unfold scriptText
  cases named : o.scriptFile with
  | none => rfl
  | some path =>
    have same := reads path (by simp [Options.reads, named])
    simp only [same]

theorem deliver_congr {d e : Disk} (writes : ∀ path ∈ o.output, d.write path = e.write path) :
    deliver d o csv = deliver e o csv := by
  unfold deliver
  cases asked : o.output with
  | none => rfl
  | some path => simp only [writes path asked]

/-- Files that the options do not name make no difference. -/
theorem execute_congr {d e : Disk}
    (reads : ∀ path ∈ o.reads configHome, d.read path = e.read path)
    (writes : ∀ path ∈ o.output, d.write path = e.write path) :
    execute d configHome stdin o = execute e configHome stdin o := by
  have delivered : deliver d o = deliver e o := funext fun _ => deliver_congr writes
  simp only [execute, values, settings_congr reads, scriptText_congr reads, delivered]

/-- So it is enough to read beforehand the files that they name. -/
theorem run_diskOf (asked : request arguments = .ok (.run o)) (d : Disk)
    {writing : Except FileError Unit} (writes : ∀ path ∈ o.output, d.write path = writing) :
    run (diskOf ((o.reads configHome).map fun path => (path, d.read path)) writing)
      configHome stdin arguments = run d configHome stdin arguments := by
  simp only [run, asked]
  refine execute_congr (fun path named => ?_) fun path output => (writes path output).symm
  have found : (o.reads configHome).find? (· == path) = some path := by
    have there : ((o.reads configHome).find? (· == path)).isSome :=
      List.find?_isSome.mpr ⟨path, named, BEq.rfl⟩
    obtain ⟨other, found⟩ := Option.isSome_iff_exists.mp there
    obtain rfl : other = path := by simpa using List.find?_some found
    exact found
  simp [diskOf, List.find?_map, Function.comp_def, found]

end CommandLine
end Spreadsheet
