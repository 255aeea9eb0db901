import Mathlib.Data.List.Perm.Basic
import Plinth.Lib.Effect
import Plinth.Model.PageKite

/-! # Services of PageKite that are added and removed -/

namespace Plinth.PageKite

open Effect Python Runs

/-! ## Lines -/

theorem mem_serviceParams (param : Param) : param ∈ serviceParams := by
  cases param <;> simp [serviceParams]

theorem free_lineStart : '\n' ∉ lineStart := by decide

theorem not_mem_convert {service : Service} {c : Char} (other : c ≠ ':')
    (banned : ∀ param, c ∉ service.get param) : c ∉ convertServiceToString service := by
  intro member
  simp only [convertServiceToString, serviceParams, List.map_cons, List.map_nil,
    List.intercalate_cons_cons, List.intercalate_singleton, List.mem_append, List.mem_singleton]
    at member
  have protocol := banned .protocol
  have kitename := banned .kitename
  have backendHost := banned .backendHost
  have backendPort := banned .backendPort
  have secret := banned .secret
  tauto

theorem newline_not_mem {service : Service} (free : Free service) :
    '\n' ∉ convertServiceToString service :=
  not_mem_convert (by decide) fun param member => (free param _ member).2.1 rfl

theorem fields_serviceLine {service : Service} (free : Free service) :
    fields (serviceLine service) = some service := by
  have starts : lineStart.isPrefixOf (serviceLine service) = true :=
    List.isPrefixOf_iff_prefix.mpr ⟨_, (List.append_assoc _ _ _).symm⟩
  have body : ((serviceLine service).drop lineStart.length).takeWhile (· ≠ '\n') =
      convertServiceToString service := by
    rw [serviceLine, List.append_assoc, List.drop_left, List.takeWhile_append_of_pos]
    · simp
    · intro c member
      have other : c ≠ '\n' := by
        rintro rfl
        exact newline_not_mem free member
      simp [other]
  have split : (convertServiceToString service).splitOn ':' = serviceParams.map service.get := by
    apply List.splitOn_intercalate
    · intro piece member
      obtain ⟨param, -, rfl⟩ := List.mem_map.mp member
      intro colon
      exact (free param _ colon).1 rfl
    · simp [serviceParams]
  rw [fields, if_pos starts, body, split]
  rfl

theorem prefix_append_newline {word line : List Char} (free : '\n' ∉ word) :
    word <+: line ++ ['\n'] ↔ word <+: line := by
  rw [List.prefix_concat_iff, or_iff_right]
  rintro rfl
  exact free (List.mem_append_right _ (List.mem_singleton_self _))

theorem takeWhile_append_newline (s : List Char) :
    (s ++ ['\n']).takeWhile (· ≠ '\n') = s.takeWhile (· ≠ '\n') := by
  induction s with
  | nil => rfl
  | cons c s ih => simp only [List.cons_append, List.takeWhile_cons, ih]

theorem fields_append_newline (line : List Char) : fields (line ++ ['\n']) = fields line := by
  have starts : lineStart <+: line ++ ['\n'] ↔ lineStart <+: line :=
    prefix_append_newline free_lineStart
  simp only [fields, List.isPrefixOf_iff_prefix, starts]
  by_cases begun : lineStart <+: line
  · rw [if_pos begun, if_pos begun, List.drop_append_of_le_length begun.length_le,
      takeWhile_append_newline]
  · rw [if_neg begun, if_neg begun]

theorem fields_newline : fields ['\n'] = none :=
  fields_append_newline []

/-! ## Texts -/

theorem filterMap_fields (line : List Char) (lines : List (List Char)) :
    (line :: lines).filterMap fields = (fields line).toList ++ lines.filterMap fields := by
  rw [List.filterMap_cons]
  cases fields line <;> rfl

open Text in
theorem servicesOf_append (text rest : List Char) :
    servicesOf (text ++ '\n' :: rest) = servicesOf text ++ servicesOf rest := by
  have isLines := isLines_readlines text
  rw [← flatten_readlines text]
  generalize readlines text = lines at isLines
  induction isLines with
  | nil => simp [servicesOf, readlines, fields_newline]
  | @last line free nonempty =>
    rw [List.flatten_singleton, servicesOf, readlines_cons free, servicesOf,
      readlines_last free nonempty, filterMap_fields, filterMap_fields, fields_append_newline,
      List.filterMap_nil, List.append_nil, servicesOf]
  | @cons line free lines later ih =>
    have split (rest : List Char) : servicesOf (((line ++ ['\n']) :: lines).flatten ++ rest) =
        (fields line).toList ++ servicesOf (lines.flatten ++ rest) := by
      rw [List.flatten_cons, List.append_assoc, List.append_assoc, List.singleton_append,
        servicesOf, readlines_cons free, filterMap_fields, fields_append_newline, servicesOf]
    have whole := split []
    rw [List.append_nil, List.append_nil] at whole
    rw [split, ih, whole, List.append_assoc]

theorem serviceLine_eq (service : Service) :
    serviceLine service = (lineStart ++ convertServiceToString service) ++ '\n' :: [] := rfl

theorem newline_not_mem_line {service : Service} (free : Free service) :
    '\n' ∉ lineStart ++ convertServiceToString service := by
  rw [List.mem_append, not_or]
  exact ⟨free_lineStart, newline_not_mem free⟩

theorem readlines_serviceLine {service : Service} (free : Free service) :
    Text.readlines (serviceLine service) = [serviceLine service] := by
  rw [serviceLine_eq, Text.readlines_cons (newline_not_mem_line free)]
  rfl

theorem servicesOf_serviceLine {service : Service} (free : Free service) :
    servicesOf (serviceLine service) = [service] := by
  rw [servicesOf, readlines_serviceLine free, filterMap_fields, fields_serviceLine free]
  rfl

/-! ## Files that the calls have written -/

def Supported (service : Service) : Prop :=
  ∃ path, getAugeasServicefilePath service.protocol = .ok path

def Written (line : List Char) : Prop :=
  serviceOn <+: line → ∃ service, Free service ∧ Supported service ∧ line = serviceLine service

structure Tidy (text : List Char) : Prop where
  noReturn : '\r' ∉ text
  written : ∀ line ∈ Text.readlines text, Written line

theorem of_mem_servicesOf {text : List Char} (tidy : Tidy text) {service : Service}
    (member : service ∈ servicesOf text) :
    Free service ∧ Supported service ∧ serviceLine service ∈ Text.readlines text := by
  obtain ⟨line, inside, found⟩ := List.mem_filterMap.mp member
  have starts : lineStart <+: line := by
    unfold fields at found
    split at found
    · exact List.isPrefixOf_iff_prefix.mp ‹_›
    · cases found
  have begins : serviceOn <+: line := (by decide : serviceOn <+: lineStart).trans starts
  obtain ⟨service', free, supported, rfl⟩ := tidy.written line inside begins
  rw [fields_serviceLine free, Option.some.injEq] at found
  subst found
  exact ⟨free, supported, inside⟩

open Text in
theorem written_append {text rest : List Char} (before : ∀ line ∈ readlines text, Written line)
    (after : ∀ line ∈ readlines rest, Written line) :
    ∀ line ∈ readlines (text ++ '\n' :: rest), Written line := by
  have ended (line : List Char) (free : '\n' ∉ line) (written : Written line) :
      Written (line ++ ['\n']) := by
    intro starts
    obtain ⟨service, -, -, rfl⟩ :=
      written ((prefix_append_newline (by decide)).mp starts)
    exact absurd (List.mem_append_right _ (List.mem_singleton_self _)) free
  have isLines := isLines_readlines text
  rw [← flatten_readlines text]
  generalize readlines text = lines at isLines before
  induction isLines with
  | nil =>
    rw [List.flatten_nil, List.nil_append]
    rw [show '\n' :: rest = [] ++ '\n' :: rest from rfl, readlines_cons List.not_mem_nil]
    intro line member
    obtain rfl | member := List.mem_cons.mp member
    · exact ended [] List.not_mem_nil fun starts => absurd starts (by decide)
    · exact after line member
  | @last line free nonempty =>
    rw [List.flatten_singleton, readlines_cons free]
    intro line' member
    obtain rfl | member := List.mem_cons.mp member
    · exact ended line free (before line (List.mem_singleton_self line))
    · exact after line' member
  | @cons line free lines later ih =>
    rw [List.flatten_cons, List.append_assoc, List.append_assoc, List.singleton_append,
      readlines_cons free]
    intro line' member
    obtain rfl | member := List.mem_cons.mp member
    · exact before _ List.mem_cons_self
    · exact ih (fun line member => before line (List.mem_cons_of_mem _ member)) line' member

theorem tidy_append {text : List Char} (tidy : Tidy text) {service : Service}
    (free : Free service) (supported : Supported service) :
    Tidy (text ++ '\n' :: serviceLine service) where
  noReturn := by
    have line : '\r' ∉ serviceLine service := by
      simp only [serviceLine, List.mem_append, List.mem_singleton, not_or]
      refine ⟨⟨by decide, ?_⟩, by decide⟩
      exact not_mem_convert (by decide) fun param member => (free param _ member).2.2 rfl
    simp [tidy.noReturn, line]
  written := by
    refine written_append tidy.written fun line member => ?_
    rw [readlines_serviceLine free, List.mem_singleton] at member
    exact fun _ => ⟨service, free, supported, member⟩

/-! ## Directories -/

def key (service : Service) : List Char × List Char :=
  (service.protocol, service.kitename)

structure Sound (directory : Directory) : Prop where
  paths : ∀ entry ∈ directory.entries, entry.1.all isPlain = true ∧ entry.1.getLast? ≠ some '/'
  texts : ∀ entry ∈ directory.entries, Tidy entry.2
  distinct : ((services directory).map key).Nodup

section Directories

variable {directory : Directory} {service : Service} {path text : List Char}

theorem services_set (directory : Directory) (path : List Char) : ∃ rest,
    (services directory).Perm (servicesOf ((directory.get? path).getD []) ++ rest) ∧
      ∀ text, (services (directory.set path text)).Perm (servicesOf text ++ rest) := by
  obtain ⟨rest, before, after⟩ := OrderedDict.flatMap_set_perm servicesOf directory path
  refine ⟨rest, ?_, after⟩
  cases found : directory.get? path with
  | none =>
    rw [found] at before
    exact before
  | some text =>
    rw [found] at before
    exact before

theorem Sound.tidy (sound : Sound directory) (path : List Char) :
    Tidy ((directory.get? path).getD []) := by
  cases found : directory.get? path with
  | none =>
    refine ⟨List.not_mem_nil, fun line member => ?_⟩
    cases member
  | some text => exact sound.texts _ ((OrderedDict.get?_eq_some_iff directory path text).mp found)

theorem Sound.set (sound : Sound directory)
    (plain : path.all isPlain = true ∧ path.getLast? ≠ some '/') (tidy : Tidy text)
    (distinct : ((services (directory.set path text)).map key).Nodup) :
    Sound (directory.set path text) where
  paths := by
    intro entry member
    obtain rfl | member := OrderedDict.mem_entries_set member
    · exact plain
    · exact sound.paths entry member
  texts := by
    intro entry member
    obtain rfl | member := OrderedDict.mem_entries_set member
    · exact tidy
    · exact sound.texts entry member
  distinct := distinct

theorem mem_services_of_mem_nodes {node : Node} (member : node ∈ nodes directory) :
    ∃ text, (node.path, text) ∈ directory.entries ∧ node.service ∈ servicesOf text := by
  obtain ⟨entry, inside, member⟩ := List.mem_flatMap.mp member
  obtain ⟨found, indexed, rfl⟩ := List.mem_map.mp member
  exact ⟨entry.2, inside, List.fst_mem_of_mem_zipIdx indexed⟩

theorem map_service_nodes (directory : Directory) :
    (nodes directory).map Node.service = services directory := by
  rw [nodes, services, List.map_flatMap]
  congr 1
  funext entry
  rw [List.map_map]
  exact List.zipIdx_map_fst 0 _

/-! ## Paths of Augeas -/

theorem digits_free {c : Char} (other : c.isDigit = false) (n : Nat) : c ∉ digits n := by
  intro member
  have digit := Nat.isDigit_of_mem_toDigits (by decide) (by decide) member
  rw [other] at digit
  cases digit

theorem rstrip_slash (last : path.getLast? ≠ some '/') :
    Text.rstripChars ['/'] (path ++ ['/']) = path := by
  rw [Text.rstripChars, List.rdropWhile_concat_pos _ _ _ (by simp)]
  apply List.rdropWhile_eq_self_iff.mpr
  intro nonempty slash
  rw [List.getLast?_eq_some_getLast nonempty] at last
  exact last (congrArg some (by simpa using slash))

theorem serviceOn_eq : serviceOn = 's' :: "ervice_on".toList := by decide

theorem convert_augPath {rest : List Char} (last : path.getLast? ≠ some '/')
    (free : 's' ∉ rest) :
    convertAugeasPathToFilepath ("/files".toList ++ (path ++ '/' :: serviceOn ++ rest)) = path := by
  have split : path ++ '/' :: serviceOn ++ rest = (path ++ ['/']) ++ (serviceOn ++ rest) := by
    simp
  have found : Text.rfind serviceOn ((path ++ ['/']) ++ (serviceOn ++ rest)) =
      some (path ++ ['/']).length := by
    rw [serviceOn_eq]
    refine Text.rfind_append (path ++ ['/']) ?_
    rw [List.mem_append, not_or]
    exact ⟨by decide, free⟩
  have nonzero : (path ++ ['/']).length ≠ 0 := by simp
  rw [split, convertAugeasPathToFilepath, Text.removeprefix_append, found]
  dsimp only
  rw [if_pos nonzero, List.take_left, rstrip_slash last]

theorem convert_node (augeas : Augeas) {node : Node}
    (plain : node.path.all isPlain = true) (last : node.path.getLast? ≠ some '/') :
    convertAugeasPathToFilepath (node.augPath augeas) = node.path := by
  have numbered : 's' ∉ digits node.number := digits_free (by decide) _
  rw [Node.augPath, if_pos plain, List.append_assoc]
  refine convert_augPath last ?_
  split <;> simp [numbered]

/-! ## Paths of new services -/

theorem join_of_open {rest : List Char} (nonempty : path ≠ []) (last : path.getLast? ≠ some '/')
    (relative : rest.head? ≠ some '/') : Os.join path rest = path ++ '/' :: rest := by
  rw [Os.join, if_neg relative, if_neg (not_or.mpr ⟨nonempty, last⟩)]

theorem servicefile_plain {protocol relpath : List Char} (plain : protocol.all isPlain = true)
    (found : servicefile protocol = .ok relpath) :
    relpath.all isPlain = true ∧ relpath.head? ≠ some '/' ∧ relpath.getLast? = some 'c' := by
  unfold servicefile at found
  split at found
  · rename_i name port split
    cases found
    have pieces : ∀ piece ∈ [name, port], piece.all isPlain = true ∧ '/' ∉ piece := by
      intro piece member
      rw [← split] at member
      refine ⟨List.all_eq_true.mpr fun c inside => ?_, Text.not_mem_of_mem_splitOn member⟩
      exact List.all_eq_true.mp plain c (Text.mem_of_mem_splitOn member inside)
    obtain ⟨namePlain, -⟩ := pieces name (by simp)
    obtain ⟨portPlain, free⟩ := pieces port (by simp)
    refine ⟨?_, ?_, ?_⟩
    · rw [List.all_append, List.all_append, List.all_cons, portPlain, namePlain]
      decide
    · cases port with
      | nil =>
        intro slash
        exact absurd (Option.some.inj slash) (by decide)
      | cons c port =>
        rw [List.mem_cons, not_or] at free
        intro slash
        exact free.1 (Option.some.inj slash).symm
    · rw [List.getLast?_append]
      rfl
  · split at found
    · cases found
      decide
    · split at found
      · cases found
        decide
      · cases found

theorem all_join {directory rest : List Char} (plain : directory.all isPlain = true)
    (plain' : rest.all isPlain = true) : (directory ++ '/' :: rest).all isPlain = true := by
  have slash : isPlain '/' = true := by decide
  rw [List.all_append, List.all_cons, plain, plain', slash]
  rfl

theorem getLast?_join {rest : List Char} {c : Char} (last : rest.getLast? = some c)
    (directory : List Char) : (directory ++ '/' :: rest).getLast? = some c := by
  rw [List.getLast?_append, List.getLast?_cons, last]
  rfl

def root (relpath : List Char) : List Char :=
  "/etc/pagekite.d".toList ++ '/' :: relpath

theorem confPath_eq : confPath = "/files".toList ++ "/etc/pagekite.d".toList := by decide

theorem getNewServicePath_eq (augeas : Augeas) (directory : Directory)
    (plain : service.protocol.all isPlain = true) (supported : Supported service) :
    ∃ augpath path, getNewServicePath augeas directory service.protocol = .ok augpath ∧
      convertAugeasPathToFilepath augpath = path ∧ path.all isPlain = true ∧
        path.getLast? ≠ some '/' := by
  obtain ⟨augpath, found⟩ := supported
  have parts := found
  unfold getAugeasServicefilePath at parts
  split at parts
  · obtain ⟨relpath, file, same⟩ := ok_of_bind parts
    obtain ⟨relPlain, relative, last⟩ := servicefile_plain plain file
    have inner : Os.join confPath relpath = confPath ++ '/' :: relpath :=
      join_of_open (by decide) (by decide) relative
    have ends : (confPath ++ '/' :: relpath).getLast? = some 'c' := getLast?_join last confPath
    have nonempty : confPath ++ '/' :: relpath ≠ [] :=
      List.append_ne_nil_of_right_ne_nil _ (List.cons_ne_nil _ _)
    have outer : Os.join (confPath ++ '/' :: relpath) serviceOn =
        "/files".toList ++ (root relpath ++ '/' :: serviceOn) := by
      have closed : (confPath ++ '/' :: relpath).getLast? ≠ some '/' := by
        rw [ends]
        decide
      have relative : serviceOn.head? ≠ some '/' := by decide
      have nested (files directory word : List Char) :
          (files ++ directory ++ '/' :: relpath) ++ '/' :: word =
            files ++ ((directory ++ '/' :: relpath) ++ '/' :: word) := by
        simp only [List.append_assoc, List.cons_append]
      rw [join_of_open nonempty closed relative, confPath_eq]
      exact nested _ _ _
    have whole : augpath = "/files".toList ++ (root relpath ++ '/' :: serviceOn) := by
      rw [← outer, ← inner]
      exact (Except.ok.inj same).symm
    have rootPlain : (root relpath).all isPlain = true := all_join (by decide) relPlain
    have files : ("/files".toList).all isPlain = true := by decide
    have on : serviceOn.all isPlain = true := by decide
    have wholePlain : augpath.all isPlain = true := by
      rw [whole, List.all_append, files, all_join rootPlain on]
      rfl
    have rootLast : (root relpath).getLast? ≠ some '/' := by
      have ends : (root relpath).getLast? = some 'c' := getLast?_join last _
      rw [ends]
      decide
    have numbered (n : Nat) : Os.join augpath (digits n) =
        "/files".toList ++ (root relpath ++ '/' :: serviceOn ++ '/' :: digits n) := by
      have relative : (digits n).head? ≠ some '/' := fun head =>
        digits_free (by decide) n (List.mem_of_mem_head? head)
      have closed : ("/files".toList ++ (root relpath ++ '/' :: serviceOn)).getLast? ≠
          some '/' := by
        have ends : serviceOn.getLast? = some 'n' := by decide
        rw [← List.append_assoc, getLast?_join ends]
        decide
      have present : "/files".toList ++ (root relpath ++ '/' :: serviceOn) ≠ [] :=
        List.append_ne_nil_of_right_ne_nil _
          (List.append_ne_nil_of_right_ne_nil _ (List.cons_ne_nil _ _))
      rw [whole, join_of_open present closed relative, List.append_assoc]
    refine ⟨_, root relpath, bind_of_ok found (bind_of_ok (if_pos wholePlain) rfl), ?_, rootPlain,
      rootLast⟩
    rw [numbered]
    refine convert_augPath rootLast ?_
    rw [List.mem_cons, not_or]
    exact ⟨by decide, digits_free (by decide) _⟩
  · cases parts

/-! ## A line that is deleted -/

theorem dropLine_of_find {service : Service} {lines : List (List Char)} {line : List Char}
    (found : lines.find? (holds service) = some line) :
    ∃ before after, lines = before ++ line :: after ∧
      dropLine service lines = some (before ++ after) := by
  induction lines with
  | nil => cases found
  | cons first lines ih =>
    rw [dropLine]
    by_cases taken : holds service first = true
    · rw [List.find?_cons_of_pos taken] at found
      cases found
      exact ⟨[], lines, rfl, if_pos taken⟩
    · rw [List.find?_cons_of_neg taken] at found
      obtain ⟨before, after, rfl, dropped⟩ := ih found
      refine ⟨first :: before, after, rfl, ?_⟩
      rw [if_neg taken, dropped]
      rfl

theorem dropLine_of_first (tidy : Tidy text) (free : Free service)
    (first : (Text.readlines text).find? (holds service) = some (serviceLine service)) :
    ∃ lines, dropLine service (Text.readlines (Text.universalNewlines text)) = some lines ∧
      Tidy lines.flatten ∧ (servicesOf text).Perm (service :: servicesOf lines.flatten) := by
  obtain ⟨before, after, split, dropped⟩ := dropLine_of_find first
  have isLines := Text.isLines_readlines text
  rw [split] at isLines
  have lines : Text.readlines (before ++ after).flatten = before ++ after :=
    isLines.remove.readlines_flatten
  refine ⟨before ++ after, ?_, ⟨?_, ?_⟩, ?_⟩
  · rw [(Text.universalNewlines_eq_iff text).mpr tidy.noReturn]
    exact dropped
  · intro member
    apply tidy.noReturn
    rw [← Text.flatten_readlines text, split]
    simp only [List.flatten_append, List.flatten_cons, List.mem_append] at member ⊢
    tauto
  · intro line member
    rw [lines] at member
    apply tidy.written line
    rw [split]
    simp only [List.mem_append, List.mem_cons] at member ⊢
    tauto
  · rw [servicesOf, split, servicesOf, lines, List.filterMap_append, filterMap_fields,
      fields_serviceLine free, List.filterMap_append]
    exact List.perm_middle

/-! ## Steps -/

instance : DecidablePred Supported := fun service =>
  decidable_of_iff ((getAugeasServicefilePath service.protocol).toOption.isSome = true) (by
    unfold Supported
    cases getAugeasServicefilePath service.protocol with
    | error e => simp [Except.toOption]
    | ok path => simp [Except.toOption])

def expected (services : List Service) : Event → List Service
  | .add service _ =>
    if key service ∉ services.map key ∧ Supported service then service :: services else services
  | .remove service _ => services.erase service

def Leads (directory : Directory) (service : Service) : Prop :=
  ∀ entry ∈ directory.entries, serviceLine service ∈ Text.readlines entry.2 →
    (Text.readlines entry.2).find? (holds service) = some (serviceLine service)

instance (directory : Directory) (service : Service) : Decidable (Leads directory service) :=
  inferInstanceAs (Decidable (∀ entry ∈ directory.entries, _))

def Unquoted (service : Service) (keys : List Param) : Prop :=
  ∀ param ∈ keys, '\'' ∉ service.get param

/-- No parameter that is looked up has a quote, a protocol has no letter that means something in a
path, and what is removed comes before other services that have its parameters. -/
def Meets (directory : Directory) : Event → Prop
  | .add service _ => Unquoted service [.protocol, .kitename] ∧
      service.protocol.all (fun c => isPlain c && c != '.') = true
  | .remove service _ => Unquoted service serviceParams ∧ Leads directory service

instance (service : Service) (keys : List Param) : Decidable (Unquoted service keys) :=
  inferInstanceAs (Decidable (∀ param ∈ keys, _))

instance (directory : Directory) : DecidablePred (Meets directory)
  | .add _ _ => inferInstanceAs (Decidable (_ ∧ _))
  | .remove _ _ => inferInstanceAs (Decidable (_ ∧ _))

theorem existing_of_unquoted (augeas : Augeas) (directory : Directory) {keys : List Param}
    (unquoted : Unquoted service keys) :
    getExistingServicePaths augeas directory service keys =
      .ok (((nodes directory).filter fun node =>
        keys.all fun param => node.service.get param = service.get param).map
          (Node.augPath augeas)) := by
  refine if_pos (List.all_eq_true.mpr fun param member => ?_)
  exact decide_eq_true (unquoted param member)

theorem eq_of_get {service' : Service}
    (same : ∀ param ∈ serviceParams, service'.get param = service.get param) :
    service' = service := by
  have protocol := same .protocol (mem_serviceParams _)
  have kitename := same .kitename (mem_serviceParams _)
  have backendHost := same .backendHost (mem_serviceParams _)
  have backendPort := same .backendPort (mem_serviceParams _)
  have secret := same .secret (mem_serviceParams _)
  cases service
  cases service'
  simp only [Service.get] at protocol kitename backendHost backendPort secret
  subst protocol kitename backendHost backendPort secret
  rfl

theorem existing_iff (augeas : Augeas) (directory : Directory)
    (unquoted : Unquoted service [.protocol, .kitename]) :
    ∃ paths, getExistingServicePaths augeas directory service [.protocol, .kitename] = .ok paths ∧
      (paths ≠ [] ↔ key service ∈ (services directory).map key) := by
  refine ⟨_, existing_of_unquoted augeas directory unquoted, ?_⟩
  rw [ne_eq, List.map_eq_nil_iff, List.filter_eq_nil_iff, ← map_service_nodes, List.map_map,
    List.mem_map]
  push Not
  refine exists_congr fun node => and_congr_right fun _ => ?_
  rw [List.all_eq_true]
  simp only [List.forall_mem_cons, Function.comp_apply, key, Prod.mk.injEq, Service.get,
    List.not_mem_nil, false_implies, implies_true, and_true]
  exact ⟨fun same => ⟨of_decide_eq_true same.1, of_decide_eq_true same.2⟩,
    fun same => ⟨decide_eq_true same.1, decide_eq_true same.2⟩⟩

theorem addService_of_taken (augeas : Augeas)
    (unquoted : Unquoted service [.protocol, .kitename])
    (taken : key service ∈ (services directory).map key) :
    addService augeas service directory = .error alreadyExists := by
  obtain ⟨paths, lookup, exist⟩ := existing_iff augeas directory unquoted
  unfold addService
  rw [lookup]
  exact if_pos (exist.mpr taken)

theorem addService_of_new (augeas : Augeas)
    (unquoted : Unquoted service [.protocol, .kitename])
    (new : key service ∉ (services directory).map key) :
    addService augeas service directory =
      (getNewServicePath augeas directory service.protocol).map fun augpath =>
        directory.set (convertAugeasPathToFilepath augpath)
          ((directory.get? (convertAugeasPathToFilepath augpath)).getD [] ++
            '\n' :: serviceLine service) := by
  obtain ⟨paths, lookup, exist⟩ := existing_iff augeas directory unquoted
  unfold addService
  rw [lookup]
  refine (if_neg fun found => new (exist.mp found)).trans ?_
  cases getNewServicePath augeas directory service.protocol <;> rfl

theorem step_add (augeas : Augeas) (sound : Sound directory) (free : Free service)
    (meets : Meets directory (.add service free)) :
    Sound (step augeas directory (.add service free)) ∧
      (services (step augeas directory (.add service free))).Perm
        (expected (services directory) (.add service free)) := by
  obtain ⟨unquoted, protocol⟩ := meets
  have plain : service.protocol.all isPlain = true := by
    rw [List.all_eq_true] at protocol ⊢
    intro c member
    exact (Bool.and_eq_true_iff.mp (protocol c member)).1
  rw [step, expected]
  by_cases taken : key service ∈ (services directory).map key
  · rw [addService_of_taken augeas unquoted taken, if_neg fun new => new.1 taken]
    exact ⟨sound, .refl _⟩
  · rw [addService_of_new augeas unquoted taken]
    by_cases supported : Supported service
    · obtain ⟨augpath, path, found, converted, pathPlain, last⟩ :=
        getNewServicePath_eq augeas directory plain supported
      rw [found, if_pos ⟨taken, supported⟩]
      show Sound (directory.set _ _) ∧ (services (directory.set _ _)).Perm _
      rw [converted]
      obtain ⟨rest, before, after⟩ := services_set directory path
      have added : (services (directory.set path
          ((directory.get? path).getD [] ++ '\n' :: serviceLine service))).Perm
            (service :: services directory) := by
        refine (after _).trans ?_
        rw [servicesOf_append, servicesOf_serviceLine free, List.append_assoc]
        exact List.perm_middle.trans (before.symm.cons service)
      refine ⟨sound.set ⟨pathPlain, last⟩ (tidy_append (sound.tidy path) free supported) ?_, added⟩
      rw [(added.map key).nodup_iff, List.map_cons, List.nodup_cons]
      exact ⟨taken, sound.distinct⟩
    · have refused : ∃ e, getNewServicePath augeas directory service.protocol = .error e := by
        cases found : getAugeasServicefilePath service.protocol with
        | error e => exact ⟨e, bind_of_error found⟩
        | ok path => exact absurd ⟨path, found⟩ supported
      obtain ⟨e, failed⟩ := refused
      rw [failed, if_neg fun new => supported new.2]
      exact ⟨sound, .refl _⟩

theorem step_remove (augeas : Augeas) (sound : Sound directory) (free : Free service)
    (meets : Meets directory (.remove service free)) :
    Sound (step augeas directory (.remove service free)) ∧
      (services (step augeas directory (.remove service free))).Perm
        (expected (services directory) (.remove service free)) := by
  obtain ⟨unquoted, leads⟩ := meets
  have lookup := existing_of_unquoted augeas directory unquoted
  have removed : removeService augeas service directory = removeFrom service directory
      (((nodes directory).filter fun node =>
        serviceParams.all fun param => node.service.get param = service.get param).map
          (Node.augPath augeas)) := by
    rw [removeService, lookup]
    rfl
  rw [step, expected, removed]
  cases found : (nodes directory).filter fun node =>
      serviceParams.all fun param => node.service.get param = service.get param with
  | nil =>
    have absent : service ∉ services directory := by
      intro member
      rw [← map_service_nodes] at member
      obtain ⟨node, inside, rfl⟩ := List.mem_map.mp member
      have kept := List.filter_eq_nil_iff.mp found node inside
      simp at kept
    rw [List.erase_of_not_mem absent]
    exact ⟨sound, .refl _⟩
  | cons node others =>
    have member : node ∈ node :: others := List.mem_cons_self
    rw [← found, List.mem_filter, List.all_eq_true] at member
    have same : node.service = service :=
      eq_of_get fun param inside => of_decide_eq_true (member.2 param inside)
    obtain ⟨text, inside, present⟩ := mem_services_of_mem_nodes member.1
    rw [same] at present
    have tidy := sound.texts _ inside
    obtain ⟨pathPlain, last⟩ := sound.paths _ inside
    obtain ⟨free', -, line⟩ := of_mem_servicesOf tidy present
    obtain ⟨lines, dropped, tidy', fewer⟩ := dropLine_of_first tidy free (leads _ inside line)
    have stored := (OrderedDict.get?_eq_some_iff directory node.path text).mpr inside
    have result : removeFrom service directory ((node :: others).map (Node.augPath augeas)) =
        .ok (directory.set node.path lines.flatten) := by
      rw [List.map_cons, removeFrom, convert_node augeas pathPlain last, stored]
      simp only [dropped]
    rw [result]
    show Sound (directory.set _ _) ∧ (services (directory.set _ _)).Perm _
    obtain ⟨rest, before, after⟩ := services_set directory node.path
    rw [stored] at before
    have whole : (services directory).Perm
        (service :: services (directory.set node.path lines.flatten)) :=
      before.trans ((fewer.append_right rest).trans (((after _).symm).cons service))
    have erased := whole.erase service
    rw [List.erase_cons_head] at erased
    refine ⟨sound.set ⟨pathPlain, last⟩ tidy' ?_, erased.symm⟩
    have distinct := (whole.map key).nodup_iff.mp sound.distinct
    rw [List.map_cons, List.nodup_cons] at distinct
    exact distinct.2

end Directories

/-! ## Runs -/

theorem expected_perm {before after : List Service} (same : before.Perm after) (event : Event) :
    (expected before event).Perm (expected after event) := by
  cases event with
  | add service free =>
    have known : key service ∉ before.map key ↔ key service ∉ after.map key :=
      not_congr (same.map key).mem_iff
    rw [expected, expected]
    by_cases added : key service ∉ before.map key ∧ Supported service
    · rw [if_pos added, if_pos ⟨known.mp added.1, added.2⟩]
      exact same.cons service
    · rw [if_neg added, if_neg fun again => added ⟨known.mpr again.1, again.2⟩]
      exact same
  | remove service free => exact same.erase service

theorem foldl_expected_perm (events : List Event) {before after : List Service}
    (same : before.Perm after) :
    (events.foldl expected before).Perm (events.foldl expected after) := by
  induction events generalizing before after with
  | nil => exact same
  | cons event events ih => exact ih (expected_perm same event)

theorem step_expected (augeas : Augeas) {directory : Directory} (sound : Sound directory)
    (event : Event) (meets : Meets directory event) :
    Sound (step augeas directory event) ∧
      (services (step augeas directory event)).Perm (expected (services directory) event) := by
  cases event with
  | add service free => exact step_add augeas sound free meets
  | remove service free => exact step_remove augeas sound free meets

theorem services_run (augeas : Augeas) (events : List Event) {start : Directory}
    (sound : Sound start) (meets : Throughout (step augeas) Meets start events) :
    Sound (run (step augeas) start events) ∧
      (services (run (step augeas) start events)).Perm
        (events.foldl expected (services start)) := by
  induction events generalizing start with
  | nil => exact ⟨sound, .refl _⟩
  | cons event events ih =>
    obtain ⟨now, later⟩ := meets
    obtain ⟨sound', stepped⟩ := step_expected augeas sound event now
    obtain ⟨sound'', rest⟩ := ih sound' later
    exact ⟨sound'', rest.trans (foldl_expected_perm events stepped)⟩

/-! ## The form to delete a service -/

def Expressible (service : Service) : Prop :=
  ∃ protocol ∈ choices, ∃ frontendPort ≤ 65535, ∃ backendPort ≤ 65535, ∃ subdomains,
    service = convertFormdataToService protocol frontendPort backendPort subdomains

section Forms

variable {protocol : List Char} {frontendPort backendPort : Nat} {subdomains : Bool}

theorem letters_of_choice (choice : protocol ∈ choices) {c : Char} (member : c ∈ protocol) :
    c.isAlpha = true := by
  have letters : choices.all fun protocol => protocol.all Char.isAlpha := by decide
  exact List.all_eq_true.mp (List.all_eq_true.mp letters protocol choice) c member

theorem digits_cons (n : Nat) : ∃ c rest, digits n = c :: rest ∧ c.isDigit = true := by
  cases found : digits n with
  | nil => exact absurd found (Nat.toDigits_ne_nil)
  | cons c rest =>
    have member : c ∈ digits n := by
      rw [found]
      exact List.mem_cons_self
    exact ⟨c, rest, rfl, Nat.isDigit_of_mem_toDigits (by decide) (by decide) member⟩

theorem digits_not_inside (choice : protocol ∈ choices) (n : Nat) : ¬ digits n <:+: protocol := by
  intro inside
  obtain ⟨c, rest, split, digit⟩ := digits_cons n
  have member : c ∈ protocol := by
    apply inside.subset
    rw [split]
    exact List.mem_cons_self
  have letter : c.isAlpha = true := letters_of_choice choice member
  delta Char.isAlpha at letter
  delta Char.isUpper Char.isLower at letter
  delta Char.isDigit at digit
  simp only [Bool.or_eq_true, Bool.and_eq_true, decide_eq_true_eq, ge_iff_le,
    UInt32.le_iff_toNat_le] at letter digit
  have low : 'A'.val.toNat = 65 := rfl
  have low' : 'a'.val.toNat = 97 := rfl
  have high : '9'.val.toNat = 57 := rfl
  omega

theorem convert_protocol (choice : protocol ∈ choices) :
    (convertFormdataToService protocol frontendPort backendPort subdomains).protocol =
      protocol ++ '/' :: digits frontendPort :=
  if_neg (digits_not_inside choice frontendPort)

theorem free_convert (choice : protocol ∈ choices) :
    Free (convertFormdataToService protocol frontendPort backendPort subdomains) := by
  intro param c member
  have digit {n : Nat} (inside : c ∈ digits n) : c ≠ ':' ∧ c ≠ '\n' ∧ c ≠ '\r' := by
    refine ⟨?_, ?_, ?_⟩ <;> rintro rfl <;> exact digits_free (by decide) n inside
  cases param with
  | protocol =>
    rw [Service.get, convert_protocol choice, List.mem_append, List.mem_cons] at member
    rcases member with letter | rfl | inside
    · have alpha := letters_of_choice choice letter
      refine ⟨?_, ?_, ?_⟩ <;> rintro rfl <;> exact absurd alpha (by decide)
    · decide
    · exact digit inside
  | kitename =>
    have plain : (if subdomains then "*.".toList ++ kiteName else kiteName).all fun c =>
        c != ':' && c != '\n' && c != '\r' := by
      cases subdomains <;> decide
    have other := List.all_eq_true.mp plain c member
    simpa [and_assoc] using other
  | backendHost =>
    have plain : backendHost.all fun c => c != ':' && c != '\n' && c != '\r' := by decide
    have other := List.all_eq_true.mp plain c member
    simpa [and_assoc] using other
  | backendPort => exact digit member
  | secret =>
    have plain : kiteSecret.all fun c => c != ':' && c != '\n' && c != '\r' := by decide
    have other := List.all_eq_true.mp plain c member
    simpa [and_assoc] using other

theorem splitOn_slash {front back : List Char} (free : '/' ∉ front) (free' : '/' ∉ back) :
    (front ++ '/' :: back).splitOn '/' = [front, back] := by
  have pieces : ∀ piece ∈ [front, back], '/' ∉ piece := by
    intro piece member
    simp only [List.mem_cons, List.not_mem_nil, or_false] at member
    obtain rfl | rfl := member
    · exact free
    · exact free'
  have joined : ['/'].intercalate [front, back] = front ++ '/' :: back := by
    rw [List.intercalate_cons_cons, List.intercalate_singleton, List.append_assoc]
    rfl
  rw [← joined]
  exact List.splitOn_intercalate '/' pieces (List.cons_ne_nil _ _)

theorem slash_not_mem_choice (choice : protocol ∈ choices) : '/' ∉ protocol := by
  intro member
  exact absurd (letters_of_choice choice member) (by decide)

theorem shownAs_convert (choice : protocol ∈ choices) :
    shownAs (convertFormdataToService protocol frontendPort backendPort subdomains) =
      .ok ⟨{ convertFormdataToService protocol frontendPort backendPort subdomains with
        protocol := protocol }, some (digits frontendPort), subdomains⟩ := by
  have starts : Text.startswith (if subdomains then "*.".toList ++ kiteName else kiteName)
      "*.".toList = subdomains := by
    cases subdomains <;> decide
  have split : (convertFormdataToService protocol frontendPort backendPort
      subdomains).protocol.splitOn '/' = [protocol, digits frontendPort] := by
    rw [convert_protocol choice]
    exact splitOn_slash (slash_not_mem_choice choice) (digits_free (by decide) _)
  rw [shownAs, split]
  dsimp only
  rw [convertFormdataToService, starts]

theorem port_digits (form : Fields) {n : Nat} (bound : n ≤ 65535) :
    form.port (digits n) = some n := by
  rw [Fields.port, form.decimal]
  show (if (0 : Int) ≤ n ∧ (n : Int) ≤ 65535 then some (n : Int).toNat else none) = some n
  rw [if_pos ⟨Int.natCast_nonneg n, by omega⟩, Int.toNat_natCast]

theorem port_le {form : Fields} {text : List Char} {n : Nat} (read : form.port text = some n) :
    n ≤ 65535 := by
  unfold Fields.port at read
  split at read
  · split at read
    · cases read
      omega
    · cases read
  · cases read

theorem deleteForm_expressible {form : Fields} {shown : Shown} {service : Service}
    (made : deleteForm form shown = some service) : Free service ∧ Expressible service := by
  unfold deleteForm at made
  split at made
  · cases made
  · rename_i choice
    rw [not_not] at choice
    simp only [Option.bind_eq_bind, Option.bind_eq_some_iff, Option.pure_def,
      Option.some.injEq] at made
    obtain ⟨frontendText, -, frontendPort, frontend, backendPort, backend, rfl⟩ := made
    exact ⟨free_convert choice, _, choice, frontendPort, port_le frontend, backendPort,
      port_le backend, shown.subdomains, rfl⟩

theorem deleteForm_convert (form : Fields) (choice : protocol ∈ choices)
    (frontend : frontendPort ≤ 65535) (backend : backendPort ≤ 65535) {shown : Shown}
    (displayed : shownAs (convertFormdataToService protocol frontendPort backendPort
      subdomains) = .ok shown) :
    deleteForm form shown =
      some (convertFormdataToService protocol frontendPort backendPort subdomains) := by
  rw [shownAs_convert choice] at displayed
  have same := Except.ok.inj displayed
  subst same
  unfold deleteForm
  rw [if_neg (not_not.mpr choice)]
  have frontendRead := port_digits form frontend
  have backendRead := port_digits form backend
  simp only [Option.bind_eq_bind, Option.bind_some, frontendRead, convertFormdataToService,
    backendRead, Option.pure_def]

theorem deleteForm_eq_iff (form : Fields) {service : Service} {shown : Shown}
    (displayed : shownAs service = .ok shown) :
    deleteForm form shown = some service ↔ Expressible service := by
  constructor
  · exact fun made => (deleteForm_expressible made).2
  · rintro ⟨protocol, choice, frontendPort, frontend, backendPort, backend, subdomains, rfl⟩
    exact deleteForm_convert form choice frontend backend displayed

end Forms

/-! ## A service that is shown -/

section Shown

variable {directory : Directory} {service : Service} {shown : Shown}

theorem not_perm_erase (distinct : (services directory).Nodup) {left : List Service}
    (present : service ∈ left) : ¬ left.Perm ((services directory).erase service) := by
  intro same
  exact absurd (same.mem_iff.mp present) (List.Nodup.not_mem_erase distinct)

theorem submitDelete_iff (augeas : Augeas) (form : Fields) (sound : Sound directory)
    (member : service ∈ services directory) (displayed : shownAs service = .ok shown)
    (meets : ∀ asked free, deleteForm form shown = some asked →
      Meets directory (.remove asked free)) :
    (services (submitDelete augeas form directory shown)).Perm
        ((services directory).erase service) ↔ Expressible service := by
  have distinct := List.Nodup.of_map _ sound.distinct
  rw [← deleteForm_eq_iff form displayed]
  cases made : deleteForm form shown with
  | none =>
    rw [submitDelete, made]
    constructor
    · exact fun same => absurd same (not_perm_erase distinct member)
    · intro absent
      cases absent
  | some asked =>
    obtain ⟨free, -⟩ := deleteForm_expressible made
    obtain ⟨-, removed⟩ := step_remove augeas sound free (meets asked free made)
    have submitted : submitDelete augeas form directory shown =
        step augeas directory (.remove asked free) := by
      rw [submitDelete, made, step]
    rw [submitted, Option.some.injEq]
    constructor
    · intro same
      by_contra other
      have kept : service ∈ (services directory).erase asked :=
        (List.mem_erase_of_ne fun same => other same.symm).mpr member
      exact not_perm_erase distinct (removed.mem_iff.mpr kept) same
    · rintro rfl
      exact removed

theorem supported_of_member (sound : Sound directory) (member : service ∈ services directory) :
    Supported service := by
  obtain ⟨entry, inside, found⟩ := List.mem_flatMap.mp member
  exact (of_mem_servicesOf (sound.texts entry inside) found).2.1

theorem shownAs_of_supported (supported : Supported service) :
    ∃ shown, shownAs service = .ok shown := by
  obtain ⟨path, found⟩ := supported
  unfold getAugeasServicefilePath at found
  split at found
  · obtain ⟨relpath, file, -⟩ := ok_of_bind found
    rw [shownAs]
    unfold servicefile at file
    split at file
    · rename_i name port split
      rw [split]
      exact ⟨_, rfl⟩
    · split at file
      · rename_i http
        rw [http]
        exact ⟨_, rfl⟩
      · split at file
        · rename_i https
          rw [https]
          exact ⟨_, rfl⟩
        · cases file
  · cases found

theorem customServices_returns (sound : Sound directory) :
    ∃ all, customServices directory = .ok all := by
  refine mapM_returns_iff.mpr fun service member => ?_
  exact shownAs_of_supported (supported_of_member sound (List.mem_filter.mp member).1)

theorem mem_customServices {all : List Shown} (listed : customServices directory = .ok all) :
    shown ∈ all ↔ ∃ service ∈ services directory, service ∉ predefinedServices ∧
      shownAs service = .ok shown := by
  rw [mem_mapM_iff listed]
  simp only [List.mem_filter, decide_eq_true_eq, and_assoc]

end Shown

theorem sound_empty : Sound OrderedDict.empty where
  paths := fun _ member => absurd member List.not_mem_nil
  texts := fun _ member => absurd member List.not_mem_nil
  distinct := List.nodup_nil

/-- The services in the files are those added and not removed, and the form to delete a service
that is shown deletes that one and no other exactly if the form to add one can make it, as long as
nothing is quoted and what is removed comes before other lines with all its parameters. -/
theorem services_exact_and_removable (augeas : Augeas) (form : Fields) (start : Directory)
    (sound : Sound start) (events : List Event)
    (meets : Throughout (step augeas) Meets start events) :
    (services (run (step augeas) start events)).Perm (events.foldl expected (services start)) ∧
      ∃ all, customServices (run (step augeas) start events) = .ok all ∧
        ∀ service ∈ services (run (step augeas) start events), service ∉ predefinedServices →
          ∃ shown ∈ all, shownAs service = .ok shown ∧
            ((∀ asked free, deleteForm form shown = some asked →
                Meets (run (step augeas) start events) (.remove asked free)) →
              ((services (submitDelete augeas form (run (step augeas) start events) shown)).Perm
                ((services (run (step augeas) start events)).erase service) ↔
                  Expressible service)) := by
  obtain ⟨reached, exact'⟩ := services_run augeas events sound meets
  refine ⟨exact', ?_⟩
  obtain ⟨all, listed⟩ := customServices_returns reached
  refine ⟨all, listed, fun service member custom => ?_⟩
  obtain ⟨shown, displayed⟩ := shownAs_of_supported (supported_of_member reached member)
  have present : shown ∈ all :=
    (mem_customServices listed).mpr ⟨service, member, custom, displayed⟩
  exact ⟨shown, present, displayed, submitDelete_iff augeas form reached member displayed⟩

def plainAugeas : Augeas where
  evaluate := fun _ _ => .ok []
  escape := id

def decimalFields : Fields where
  integer := fun text =>
    if text ≠ [] ∧ text.all Char.isDigit then some (Nat.ofDigitChars 10 text 0 : Nat) else none
  decimal := by
    intro n
    have all : (digits n).all Char.isDigit := List.all_eq_true.mpr fun c member =>
      Nat.isDigit_of_mem_toDigits (by decide) (by decide) member
    rw [if_pos ⟨Nat.toDigits_ne_nil, all⟩, digits, Nat.ofDigitChars_ten_toDigits]
    rfl

def wildService : Service :=
  ⟨"raw/2222".toList, "*.@kitename".toList, "localhost".toList, "22".toList,
    "@kitesecret".toList⟩

def kiteService : Service :=
  { wildService with kitename := "@kitename".toList }

def httpService : Service :=
  { wildService with protocol := "http".toList }

theorem free_of_all {service : Service} (plain : serviceParams.all fun param =>
    (service.get param).all fun c => c != ':' && c != '\n' && c != '\r') : Free service := by
  intro param c member
  have each := List.all_eq_true.mp plain param (mem_serviceParams param)
  simpa [and_assoc] using List.all_eq_true.mp each c member

theorem free_wild : Free wildService := free_of_all (by decide)

theorem free_kite : Free kiteService := free_of_all (by decide)

theorem free_http : Free httpService := free_of_all (by decide)

theorem services_exact_after_removal :
    (services (run (step plainAugeas) OrderedDict.empty
        [.add kiteService free_kite, .add wildService free_wild,
          .remove kiteService free_kite])).Perm [wildService] :=
  (services_exact_and_removable plainAugeas decimalFields OrderedDict.empty sound_empty
    [.add kiteService free_kite, .add wildService free_wild, .remove kiteService free_kite]
    (by decide +kernel)).1.trans (by decide +kernel)

theorem removal_takes_another :
    (key kiteService ≠ key wildService ∧
      services (run (step plainAugeas) OrderedDict.empty
        [.add wildService free_wild, .add kiteService free_kite,
          .remove kiteService free_kite]) = [kiteService]) ∧
    let directory := run (step plainAugeas) OrderedDict.empty [.add httpService free_http]
    let shown : Shown := ⟨httpService, none, true⟩
    (customServices directory).toOption = some [shown] ∧
      services (submitDelete plainAugeas decimalFields directory shown) = [httpService] := by
  exact ⟨⟨by decide, by decide +kernel⟩, by decide +kernel, by decide +kernel⟩

end Plinth.PageKite
