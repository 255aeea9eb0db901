import Plinth.Model.Miniflux

/-! # What the setup keeps of the settings -/

namespace Plinth.Miniflux

open Python Exception

variable {line key value : List Char} {dictionary dictionary' : Settings}

/-! ## A line -/

def reading (line : List Char) : List Char × List Char :=
  (line.takeWhile (· ≠ '='),
    Text.strip (((line.dropWhile (· ≠ '=')).drop 1).takeWhile (· ≠ '=')))

theorem takeWhile_free (free : '=' ∉ value) : value.takeWhile (· ≠ '=') = value := by
  rw [List.takeWhile_eq_self_iff]
  intro c member
  rw [decide_eq_true_eq]
  rintro rfl
  exact free member

theorem takeWhile_key (free : '=' ∉ key) (rest : List Char) :
    (key ++ '=' :: rest).takeWhile (· ≠ '=') = key := by
  have letters : ∀ c ∈ key, decide (c ≠ '=') = true := by
    intro c member
    rw [decide_eq_true_eq]
    rintro rfl
    exact free member
  rw [List.takeWhile_append_of_pos letters]
  simp

theorem dropWhile_key (free : '=' ∉ key) (rest : List Char) :
    ((key ++ '=' :: rest).dropWhile (· ≠ '=')).drop 1 = rest := by
  have letters : ∀ c ∈ key, decide (c ≠ '=') = true := by
    intro c member
    rw [decide_eq_true_eq]
    rintro rfl
    exact free member
  rw [List.dropWhile_append_of_pos letters]
  simp

theorem not_mem_takeWhile (s : List Char) : '=' ∉ s.takeWhile (· ≠ '=') := by
  intro member
  have passed := List.mem_takeWhile_imp member
  exact absurd passed (by decide)

theorem splitOn_head (s : List Char) : (s.splitOn '=')[0]? = some (s.takeWhile (· ≠ '=')) := by
  by_cases equals : '=' ∈ s
  · obtain ⟨key, rest, rfl, free⟩ := List.eq_append_cons_of_mem equals
    rw [List.splitOn_append_cons_self_of_not_mem free, takeWhile_key free]
    rfl
  · rw [List.splitOn_eq_singleton equals, takeWhile_free equals]
    rfl

theorem reading_eq (free : '=' ∉ key) (rest : List Char) :
    reading (key ++ '=' :: rest) = (key, Text.strip (rest.takeWhile (· ≠ '='))) := by
  rw [reading, takeWhile_key free, dropWhile_key free]

theorem assignment_eq (free : '=' ∉ key) (rest : List Char) :
    assignment (key ++ '=' :: rest) = (key, Text.strip rest) := by
  rw [assignment, takeWhile_key free, dropWhile_key free]

theorem not_mem_reading (line : List Char) : '=' ∉ (reading line).2 := by
  rw [reading, Text.mem_strip (by decide)]
  exact not_mem_takeWhile _

theorem readLine_eq (equals : '=' ∈ line) (dictionary : Settings) :
    readLine dictionary line = .ok (dictionary.set (reading line).1 (reading line).2) := by
  obtain ⟨key, rest, rfl, free⟩ := List.eq_append_cons_of_mem equals
  have pieces : (key ++ '=' :: rest).splitOn '=' = key :: rest.splitOn '=' :=
    List.splitOn_append_cons_self_of_not_mem free rest
  have value : (key :: rest.splitOn '=')[1]? = some (rest.takeWhile (· ≠ '=')) := splitOn_head rest
  rw [readLine, pieces, item, item, value, reading_eq free]
  rfl

theorem equals_of_readLine (read : readLine dictionary line = .ok dictionary') : '=' ∈ line := by
  by_contra absent
  rw [readLine, List.splitOn_eq_singleton absent] at read
  cases read

theorem reading_eq_assignment (equals : '=' ∈ line) (free : '=' ∉ (assignment line).2) :
    reading line = assignment line := by
  obtain ⟨key, rest, rfl, first⟩ := List.eq_append_cons_of_mem equals
  rw [assignment_eq first, Text.mem_strip (by decide)] at free
  rw [reading_eq first, assignment_eq first, takeWhile_free free]

/-! ## The lines of a file -/

theorem foldlM_readLine {lines : List (List Char)} (equals : ∀ line ∈ lines, '=' ∈ line)
    (dictionary : Settings) :
    lines.foldlM readLine dictionary = .ok (dictionary.update (lines.map reading)) := by
  induction lines generalizing dictionary with
  | nil => rfl
  | cons line lines ih =>
    rw [List.forall_mem_cons] at equals
    rw [List.foldlM_cons, readLine_eq equals.1]
    exact ih equals.2 _

theorem equals_of_foldlM {lines : List (List Char)}
    (read : lines.foldlM readLine dictionary = .ok dictionary') : ∀ line ∈ lines, '=' ∈ line := by
  induction lines generalizing dictionary with
  | nil =>
    intro line member
    cases member
  | cons line lines ih =>
    rw [List.foldlM_cons] at read
    cases first : readLine dictionary line with
    | error raised =>
      rw [first] at read
      cases read
    | ok next =>
      rw [first] at read
      exact List.forall_mem_cons.mpr ⟨equals_of_readLine first, ih read⟩

theorem envFileToDict_eq {envVars : List Char} (isEnvFile : IsEnvFile envVars) :
    envFileToDict envVars = .ok (OrderedDict.ofEntries ((settingLines envVars).map reading)) :=
  foldlM_readLine isEnvFile OrderedDict.empty

theorem get?_ofEntries_map {read : List Char → List Char × List Char}
    (keyed : ∀ line, (read line).1 = line.takeWhile (· ≠ '=')) (lines : List (List Char))
    (key : List Char) : (OrderedDict.ofEntries (lines.map read)).get? key =
      (lines.reverse.find? fun line => line.takeWhile (· ≠ '=') = key).map fun line => (read line).2 := by
  rw [OrderedDict.get?_ofEntries, ← List.map_reverse]
  generalize lines.reverse = reversed
  induction reversed with
  | nil => rfl
  | cons line reversed ih =>
    rw [List.map_cons, List.findSome?_cons, List.find?_cons, keyed]
    by_cases same : line.takeWhile (· ≠ '=') = key
    · simp only [same, if_true, decide_true, Option.map_some]
    · simp only [same, if_false, decide_false, ih]

theorem read_together {envVars : List Char} (isEnvFile : IsEnvFile envVars)
    (found : (meaning envVars).get? key = some value) : ∃ line, '=' ∈ line ∧
      value = (assignment line).2 ∧
      (OrderedDict.ofEntries ((settingLines envVars).map reading)).get? key =
        some (reading line).2 := by
  rw [meaning, get?_ofEntries_map fun _ => rfl] at found
  rw [get?_ofEntries_map fun _ => rfl]
  obtain ⟨line, last, rfl⟩ := Option.map_eq_some_iff.mp found
  have member := List.mem_reverse.mp (List.mem_of_find?_eq_some last)
  exact ⟨line, isEnvFile line member, rfl, by rw [last]; rfl⟩

/-! ## What can be written -/

structure Writable (setting : List Char × List Char) : Prop where
  key : IsKey setting.1
  value : IsStripped setting.2
  free : '=' ∉ setting.2

theorem isSetting_iff (key rest : List Char) :
    isSetting (key ++ '=' :: rest) = true ↔ (Text.lstrip key).head? ≠ some '#' := by
  rw [isSetting, Text.strip_append (by decide)]
  cases Text.lstrip key with
  | nil =>
    rw [List.nil_append, Text.startswith_single]
    simp
  | cons c start =>
    rw [List.cons_append, Text.startswith_single, BEq.comm]
    simp

theorem writable_reading {envVars : List Char} (isEnvFile : IsEnvFile envVars)
    (member : line ∈ settingLines envVars) : Writable (reading line) := by
  obtain ⟨listed, setting⟩ := List.mem_filter.mp member
  have noBreak := Text.noBreak_of_mem_lines listed
  obtain ⟨key, rest, rfl, free⟩ := List.eq_append_cons_of_mem (isEnvFile line member)
  rw [List.forall_mem_append, List.forall_mem_cons] at noBreak
  rw [isSetting_iff] at setting
  have value := not_mem_reading (key ++ '=' :: rest)
  rw [reading_eq free] at value ⊢
  have short : ∀ c ∈ Text.strip (rest.takeWhile (· ≠ '=')), Text.isLineBreak c = false := by
    intro c inside
    exact noBreak.2.2 c (List.takeWhile_sublist _ |>.subset ((Text.strip_sublist _).subset inside))
  exact ⟨⟨free, noBreak.1, setting⟩, ⟨Text.strip_strip _, short⟩, value⟩

theorem writable_of_read {envVars : List Char} (read : envFileToDict envVars = .ok dictionary) :
    ∀ setting ∈ dictionary.entries, Writable setting := by
  have isEnvFile : IsEnvFile envVars := equals_of_foldlM read
  rw [envFileToDict_eq isEnvFile] at read
  cases read
  intro setting member
  rcases OrderedDict.mem_entries_update member with none | read
  · cases none
  · obtain ⟨line, listed, rfl⟩ := List.mem_map.mp read
    exact writable_reading isEnvFile listed

theorem settingLines_dictToEnvFile (writable : ∀ setting ∈ dictionary.entries, Writable setting) :
    settingLines (dictToEnvFile dictionary) =
      dictionary.entries.map fun setting => setting.1 ++ '=' :: setting.2 := by
  have whole : ∀ line ∈ dictionary.entries.map fun setting => setting.1 ++ '=' :: setting.2,
      line ≠ [] ∧ ∀ c ∈ line, Text.isLineBreak c = false := by
    rw [List.forall_mem_map]
    intro setting member
    refine ⟨List.append_ne_nil_of_right_ne_nil _ (List.cons_ne_nil _ _), ?_⟩
    rw [List.forall_mem_append, List.forall_mem_cons]
    exact ⟨(writable setting member).key.2.1, by decide, (writable setting member).value.2⟩
  rw [settingLines, dictToEnvFile, Text.lines_intercalate whole, List.filter_eq_self,
    List.forall_mem_map]
  intro setting member
  exact (isSetting_iff _ _).mpr (writable setting member).key.2.2

theorem envFileToDict_dictToEnvFile
    (writable : ∀ setting ∈ dictionary.entries, Writable setting) :
    envFileToDict (dictToEnvFile dictionary) = .ok dictionary := by
  have lines := settingLines_dictToEnvFile writable
  have isEnvFile : IsEnvFile (dictToEnvFile dictionary) := by
    rw [IsEnvFile, lines, List.forall_mem_map]
    intro setting member
    exact List.mem_append_right _ List.mem_cons_self
  have same : (dictionary.entries.map fun setting => setting.1 ++ '=' :: setting.2).map reading =
      dictionary.entries := by
    rw [List.map_map]
    conv_rhs => rw [← List.map_id dictionary.entries]
    apply List.map_congr_left
    intro setting member
    have fits := writable setting member
    rw [Function.comp_apply, reading_eq fits.key.1, takeWhile_free fits.free, fits.value.1]
    rfl
  rw [envFileToDict_eq isEnvFile, lines, same]
  exact congrArg Except.ok (OrderedDict.ext (OrderedDict.entries_ofEntries dictionary.nodup))

theorem round_trip_iff (stripped : ∀ setting ∈ dictionary.entries, IsStripped setting.2) :
    RoundTrip dictionary ↔ ∀ setting ∈ dictionary.entries, IsKey setting.1 ∧ '=' ∉ setting.2 := by
  constructor
  · rintro ⟨back, read, same⟩ setting member
    have found := (dictionary.get?_eq_some_iff setting.1 setting.2).mpr member
    rw [← same, back.get?_eq_some_iff] at found
    have fits := writable_of_read read setting found
    exact ⟨fits.key, fits.free⟩
  · intro fits
    have writable : ∀ setting ∈ dictionary.entries, Writable setting := by
      intro setting member
      exact ⟨(fits setting member).1, stripped setting member, (fits setting member).2⟩
    exact ⟨dictionary, envFileToDict_dictToEnvFile writable, fun _ => rfl⟩

/-! ## The setup -/

theorem writable_static : ∀ setting ∈ STATIC_SETTINGS, Writable setting := by
  have checked : STATIC_SETTINGS.all (fun setting =>
      !setting.1.contains '=' && setting.1.all (fun c => !Text.isLineBreak c) &&
        (Text.lstrip setting.1).head? != some '#' && Text.strip setting.2 == setting.2 &&
        setting.2.all (fun c => !Text.isLineBreak c) && !setting.2.contains '=') = true := by
    decide +kernel
  rw [List.all_eq_true] at checked
  intro setting member
  obtain ⟨⟨⟨⟨⟨free, noBreak⟩, key⟩, stripped⟩, noBreak'⟩, free'⟩ := by
    simpa only [Bool.and_eq_true] using checked setting member
  have letters {s : List Char} (all : s.all (fun c => !Text.isLineBreak c) = true) :
      ∀ c ∈ s, Text.isLineBreak c = false := by
    intro c inside
    have passed := List.all_eq_true.mp all c inside
    rwa [Bool.not_eq_true'] at passed
  exact ⟨⟨by simpa using free, letters noBreak, by simpa using key⟩,
    ⟨by simpa using stripped, letters noBreak'⟩, by simpa using free'⟩

theorem writable_update (writable : ∀ setting ∈ dictionary.entries, Writable setting) :
    ∀ setting ∈ (dictionary.update STATIC_SETTINGS).entries, Writable setting := by
  intro setting member
  rcases OrderedDict.mem_entries_update member with old | static
  · exact writable setting old
  · exact writable_static setting static

theorem get?_static {setting : List Char × List Char} (member : setting ∈ STATIC_SETTINGS)
    (dictionary : Settings) :
    (dictionary.update STATIC_SETTINGS).get? setting.1 = some setting.2 := by
  have distinct : (STATIC_SETTINGS.map Prod.fst).Nodup := by decide +kernel
  exact OrderedDict.get?_update_of_mem distinct member dictionary

theorem get?_other {key : List Char} (other : key ∉ staticKeys) (dictionary : Settings) :
    (dictionary.update STATIC_SETTINGS).get? key = dictionary.get? key :=
  OrderedDict.get?_update_of_not_mem other dictionary

theorem existingSettings_eq (file : VarsFile) :
    existingSettings file = envFileToDict (readText file) := by
  rw [existingSettings, isNonEmptyFile]
  by_cases empty : file.getD [] = []
  · rw [readText, empty]
    rfl
  · rw [if_pos (decide_eq_true empty)]

theorem preSetup_eq {file : VarsFile} (read : envFileToDict (readText file) = .ok dictionary) :
    preSetup file = .ok (dictToEnvFile (dictionary.update STATIC_SETTINGS)) := by
  rw [preSetup, existingSettings_eq, read]
  rfl

theorem readText_dictToEnvFile (writable : ∀ setting ∈ dictionary.entries, Writable setting) :
    readText (some (dictToEnvFile dictionary)) = dictToEnvFile dictionary := by
  rw [readText, Option.getD_some, Text.universalNewlines_eq_iff, dictToEnvFile]
  apply Text.not_mem_intercalate (by decide)
  rw [List.forall_mem_map]
  intro setting member inside
  have fits := writable setting member
  rcases List.mem_append.mp inside with inKey | inValue
  · exact absurd (fits.key.2.1 '\r' inKey) (by decide)
  · rcases List.mem_cons.mp inValue with same | inValue
    · exact absurd same (by decide)
    · exact absurd (fits.value.2 '\r' inValue) (by decide)

theorem sameText_iff {file : VarsFile} (isEnvFile : IsEnvFile (readText file)) :
    Survives file ↔ ∀ key value, key ∉ staticKeys →
      (meaning (readText file)).get? key = some value → '=' ∉ value := by
  have read := envFileToDict_eq isEnvFile
  have written := preSetup_eq read
  have writable := writable_update (writable_of_read read)
  have back := envFileToDict_dictToEnvFile writable
  have text := readText_dictToEnvFile writable
  rw [← text] at back
  constructor
  · rintro ⟨written', back', set, read', kept, -, -⟩ key value other found
    rw [written] at set
    cases set
    rw [back] at read'
    cases read'
    have held := kept key value other found
    obtain ⟨line, equals, rfl, last⟩ := read_together isEnvFile found
    rw [get?_other other, last, Option.some_inj] at held
    rw [← held]
    exact not_mem_reading line
  · intro free
    refine ⟨_, _, written, back, ?_, fun setting member => get?_static member _, ?_⟩
    · intro key value other found
      have single := free key value other found
      obtain ⟨line, equals, rfl, last⟩ := read_together isEnvFile found
      rw [get?_other other, last, reading_eq_assignment equals single]
    · rw [preSetup_eq back, OrderedDict.update_eq_self fun setting member => get?_static member _]

/-- The settings survive if none has an equals sign in its value, and a dictionary is read back if
moreover its keys are the keys of lines. -/
theorem pre_setup_iff (file : VarsFile) (dictionary : Settings)
    (isEnvFile : IsEnvFile (readText file))
    (stripped : ∀ setting ∈ dictionary.entries, IsStripped setting.2) :
    (Survives file ↔ ∀ key value, key ∉ staticKeys →
      (meaning (readText file)).get? key = some value → '=' ∉ value) ∧
    (RoundTrip dictionary ↔
      ∀ setting ∈ dictionary.entries, IsKey setting.1 ∧ '=' ∉ setting.2) :=
  ⟨sameText_iff isEnvFile, round_trip_iff stripped⟩

theorem isEnvFile_of_all {envVars : List Char}
    (equals : (settingLines envVars).all (fun line => line.contains '=') = true) :
    IsEnvFile envVars := by
  intro line member
  simpa using List.all_eq_true.mp equals line member

def exampleFile : VarsFile :=
  some "DATABASE_URL=user=miniflux\nLOG_LEVEL=info".toList

theorem database_url_cut : ¬ ∀ file, IsEnvFile (readText file) → Survives file := by
  have isEnvFile : IsEnvFile (readText exampleFile) := isEnvFile_of_all (by decide +kernel)
  intro survives
  have free := (sameText_iff isEnvFile).mp (survives exampleFile isEnvFile) "DATABASE_URL".toList
    "user=miniflux".toList (by decide +kernel) (by decide +kernel)
  exact free (by decide +kernel)

def plainFile : VarsFile :=
  some "# one\n\nLOG_LEVEL=info\nPORT=1".toList

theorem plain_file_survives : Survives plainFile := by
  have isEnvFile : IsEnvFile (readText plainFile) := isEnvFile_of_all (by decide +kernel)
  have values : (meaning (readText plainFile)).entries.all (fun setting => !setting.2.contains '=') =
      true := by
    decide +kernel
  apply (pre_setup_iff plainFile OrderedDict.empty isEnvFile (by rintro _ ⟨⟩)).1.mpr
  intro key value _ found
  rw [OrderedDict.get?_eq_some_iff] at found
  simpa using List.all_eq_true.mp values (key, value) found

end Plinth.Miniflux
