import Plinth.Lib.Runs
import Plinth.Model.Apache

/-! # Setting up a domain again -/

namespace Plinth.Apache.Sites

open Effect Python Exception

variable {outcomes : Command → Outcome} {domain : String} {s s' : System}

/-! ## Commands that return -/

theorem state_of_run {command : Command} {error : Exception} {change partly : System → System}
    (returned : (run outcomes command error change partly).exec s = (.ok (), s')) :
    s' = change s := by
  unfold run at returned
  split at returned
  · exact (congrArg Prod.snd returned).symm
  · cases returned
  · cases returned

theorem state_of_writeText {text : String}
    (returned : (writeText outcomes domain text).exec s = (.ok (), s')) :
    s' = s.setFile domain (some (.file text)) := by
  obtain ⟨_, _, looked, returned⟩ := returns_of_bind returned
  cases looked
  split at returned
  · cases returned
  · exact state_of_run returned

theorem state_of_a2en {kind : Kind} {name : String}
    (returned : (a2en outcomes kind name).exec s = (.ok (), s')) :
    s' = s.setEnabled kind name true := by
  obtain ⟨_, _, looked, returned⟩ := returns_of_bind returned
  cases looked
  split at returned
  · cases returned
  · exact state_of_run returned

structure Enables (kind : Kind) (name : String) (s s' : System) : Prop where
  sitesAvailable : s'.sitesAvailable = s.sitesAvailable
  enabled : s'.enabled = (s.setEnabled kind name true).enabled

theorem enables_of_enable {kind : Kind} {name : String} (other : kind ≠ .module)
    (returned : (enable outcomes name kind).exec s = (.ok (), s')) : Enables kind name s s' := by
  obtain ⟨required, between, first, returned⟩ := returns_of_bind returned
  cases returned
  obtain ⟨isEnabled, _, asked, first⟩ := returns_of_bind first
  cases asked
  rw [if_neg fun both => other both.2] at first
  obtain ⟨_, _, ran, first⟩ := returns_of_bind first
  cases first
  rw [state_of_a2en ran]
  exact ⟨rfl, rfl⟩

theorem keeps_serviceReload :
    Keeps (fun s => (s.sitesAvailable, s.enabled)) (serviceReload outcomes) := by
  unfold serviceReload
  split
  · exact keeps_modify fun _ => rfl
  · exact keeps_pure ()

theorem keeps_leave : Keeps (fun s => (s.sitesAvailable, s.enabled)) (leave outcomes) := by
  apply keeps_get.bind
  intro s
  split
  · exact keeps_serviceReload
  · split
    · exact keeps_serviceReload
    · exact keeps_pure ()

theorem returned_of_webserverChange {body : Action Unit}
    (returned : (webserverChange outcomes body).exec s = (.ok (), s')) :
    ∃ between, body.exec { s with actionsRequired := [] } = (.ok (), between) ∧
      s'.sitesAvailable = between.sitesAvailable ∧ s'.enabled = between.enabled := by
  obtain ⟨_, _, opened, returned⟩ := returns_of_bind returned
  cases opened
  rw [exec_tryFinally] at returned
  generalize ran : body.exec { s with actionsRequired := [] } = outcome at returned
  obtain ⟨result, between⟩ := outcome
  have same : _ = (between.sitesAvailable, between.enabled) :=
    (keeps_leave : Keeps _ (leave outcomes)) between
  dsimp only at returned
  generalize (leave outcomes).exec between = left at returned same
  obtain ⟨e | u, after⟩ := left
  · cases returned
  · cases returned
    exact ⟨between, rfl, congrArg Prod.fst same, congrArg Prod.snd same⟩

/-! ## Setting up a domain -/

def SetUp (domain : String) (s : System) : Prop :=
  isFile s domain = true ∧ s.enabled .site domain = true

theorem exec_domainSetup_of_isFile (plain : '/' ∉ domain.toList) (file : isFile s domain = true) :
    (domainSetup outcomes domain).exec s = (.ok (), s) := by
  rw [domainSetup, if_neg plain, exec_bind, exec_get]
  dsimp only
  rw [if_pos file]
  rfl

theorem setUp_of_domainSetup (new : isFile s domain = false)
    (returned : (domainSetup outcomes domain).exec s = (.ok (), s')) : SetUp domain s' := by
  unfold domainSetup at returned
  split at returned
  · cases returned
  · obtain ⟨_, _, looked, returned⟩ := returns_of_bind returned
    cases looked
    rw [if_neg (by simp [new])] at returned
    obtain ⟨_, written, wrote, returned⟩ := returns_of_bind returned
    obtain ⟨between, ran, sites, enabled⟩ := returned_of_webserverChange returned
    obtain ⟨_, _, config, site⟩ := returns_of_bind ran
    have first := enables_of_enable (by decide) config
    have second := enables_of_enable (by decide) site
    constructor
    · rw [isFile, sites, second.sitesAvailable, first.sitesAvailable, state_of_writeText wrote]
      simp [System.setFile]
    · rw [enabled, second.enabled]
      simp [System.setEnabled]

/-! ## Attempts -/

def Converges (s : System) : Attempt → Prop
  | .domainSetup domain outcomes =>
    ∀ s', (domainSetup outcomes domain).exec s = (.ok (), s') → SetUp domain s'
  | .domainRemove _ _ => True

def NotHalfDone (s : System) : Attempt → Prop
  | .domainSetup domain _ =>
    '/' ∉ domain.toList → isFile s domain = true → s.enabled .site domain = true
  | .domainRemove _ _ => True

theorem converges_iff (s : System) (attempt : Attempt) :
    Converges s attempt ↔ NotHalfDone s attempt := by
  cases attempt with
  | domainSetup domain outcomes =>
    constructor
    · intro converges plain file
      exact (converges s (exec_domainSetup_of_isFile plain file)).2
    · intro whole s' returned
      cases file : isFile s domain with
      | false => exact setUp_of_domainSetup file returned
      | true =>
        by_cases plain : '/' ∈ domain.toList
        · rw [domainSetup, if_pos plain] at returned
          cases returned
        · rw [exec_domainSetup_of_isFile plain file] at returned
          cases returned
          exact ⟨file, whole plain file⟩
  | domainRemove domain outcomes => exact Iff.rfl

/-- Each call that returns in a run leaves its domain set up exactly when no call meets a file
whose site is not enabled. -/
theorem domain_setup_converges_iff (s : System) (attempts : List Attempt) :
    Runs.Throughout step Converges s attempts ↔ Runs.Throughout step NotHalfDone s attempts := by
  rw [Runs.throughout_iff, Runs.throughout_iff]
  exact forall₃_congr fun before attempt after => imp_congr_right fun _ =>
    converges_iff _ attempt

def noSites : System where
  sitesAvailable := fun _ => none
  enabled := fun _ _ => false
  loaded := fun _ _ => false
  actionsRequired := []

def siteFails : Command → Outcome
  | .a2en .site _ => .fails false
  | _ => .succeeds

theorem second_attempt_does_nothing : ¬ Runs.Throughout step Converges noSites
    [.domainSetup "example.org" siteFails, .domainSetup "example.org" fun _ => .succeeds] := by
  rintro ⟨-, converges, -⟩
  have file : isFile (step noSites (.domainSetup "example.org" siteFails)) "example.org" = true := by
    decide
  have setUp := converges _ (exec_domainSetup_of_isFile (by decide) file)
  have disabled : (step noSites (.domainSetup "example.org" siteFails)).enabled .site "example.org" =
      false := by
    decide
  rw [SetUp, disabled] at setUp
  cases setUp.2

end Plinth.Apache.Sites

/-! ## The user of a web site -/

namespace Plinth.Apache.UserWebSites

open Python

variable {user directory url t : List Char}

theorem slash_not_mem_of_valid (valid : isValidUserName user = true) : '/' ∉ user := by
  simp only [isValidUserName, decide_eq_true_eq] at valid
  exact of_decide_eq_true (List.all_eq_true.mp valid.2.2 '/' (by simp))

theorem validUser_nil : validUser [] = some [] := by
  decide +kernel

theorem validUser_eq_some_iff {found : List Char} :
    validUser user = some found ↔ isValidUserName user = true ∧ user = found := by
  unfold validUser
  split <;> simp_all

/-! ## Directories -/

def IsHome (start : List Char) : Prop :=
  start = "/home/".toList ∨ start = "home/".toList

theorem find_cons_of_ne {c d : Char} (ne : c ≠ d) (word t : List Char) :
    Text.find (c :: word) (d :: t) = (Text.find (c :: word) t).map (· + 1) := by
  rw [Text.find, if_neg]
  simp [ne]

theorem find_cons_self (c : Char) (word t : List Char) :
    Text.find (c :: word) (c :: t) =
      if word <+: t then some 0 else (Text.find (c :: word) t).map (· + 1) := by
  rw [Text.find]
  simp

theorem publicHtml_eq :
    publicHtml = ['p', 'u', 'b', 'l', 'i', 'c', '_', 'h', 't', 'm', 'l'] := rfl

theorem find_marker_of_relative (t : List Char) :
    Text.find ('/' :: publicHtml) ('h' :: 'o' :: 'm' :: 'e' :: '/' :: t) =
      if publicHtml <+: t then some 4
      else (Text.find ('/' :: publicHtml) t).map (· + 5) := by
  rw [find_cons_of_ne (by decide), find_cons_of_ne (by decide), find_cons_of_ne (by decide),
    find_cons_of_ne (by decide), find_cons_self]
  split
  · rfl
  · simp only [Option.map_map]
    rfl

theorem find_marker_of_home {start : List Char} (home : IsHome start) (t : List Char) :
    Text.find ('/' :: publicHtml) (start ++ t) =
      if publicHtml <+: t then some (start.length - 1)
      else (Text.find ('/' :: publicHtml) t).map (· + start.length) := by
  rcases home with rfl | rfl
  · have apart : ¬ publicHtml <+: 'h' :: 'o' :: 'm' :: 'e' :: '/' :: t := by
      rw [publicHtml_eq]
      intro starts
      exact absurd (List.cons_prefix_cons.mp starts).1 (by decide)
    simp only [String.reduceToList, List.cons_append, List.nil_append]
    rw [find_cons_self, if_neg apart, find_marker_of_relative]
    split
    · rfl
    · simp only [Option.map_map]
      rfl
  · simp only [String.reduceToList, List.cons_append, List.nil_append]
    exact find_marker_of_relative t

theorem userOfUwsDirectory_of_home {start : List Char} (home : IsHome start) (t : List Char) :
    userOfUwsDirectory (start ++ t) =
      (Text.find ('/' :: publicHtml) (start ++ t)).bind fun posEnd =>
        validUser (slice (start ++ t) start.length posEnd) := by
  have found : userStart (start ++ t) = some start.length := by
    unfold userStart
    rcases home with rfl | rfl
    · rw [if_pos]
      · rfl
      · simp [Text.startswith]
    · rw [if_neg, if_pos]
      · rfl
      · simp [Text.startswith]
      · simp [Text.startswith]
  rw [userOfUwsDirectory, found]
  rfl

theorem userOfUwsDirectory_of_missing {start : List Char} (home : IsHome start)
    (missing : publicHtml <+: t) : userOfUwsDirectory (start ++ t) = some [] := by
  rw [userOfUwsDirectory_of_home home, find_marker_of_home home, if_pos missing]
  have nothing : slice (start ++ t) start.length (start.length - 1) = [] := by
    rw [slice, List.drop_eq_nil_iff, List.length_take]
    omega
  rw [Option.bind_some, nothing, validUser_nil]

theorem find_marker_append (absent : '/' ∉ user) (rest : List Char) :
    Text.find ('/' :: publicHtml) (user ++ '/' :: publicHtml ++ rest) = some user.length := by
  induction user with
  | nil =>
    rw [List.nil_append, List.cons_append, find_cons_self, if_pos (List.prefix_append _ _)]
    rfl
  | cons c user ih =>
    rw [List.mem_cons, not_or] at absent
    rw [List.cons_append, List.cons_append, find_cons_of_ne absent.1, ih absent.2]
    rfl

theorem marker_of_find {posEnd : Nat} (found : Text.find ('/' :: publicHtml) t = some posEnd) :
    ∃ rest, t = t.take posEnd ++ '/' :: publicHtml ++ rest := by
  induction t generalizing posEnd with
  | nil => cases found
  | cons c t ih =>
    rw [Text.find] at found
    split at found
    · rename_i starts
      cases found
      obtain ⟨rest, same⟩ := List.isPrefixOf_iff_prefix.mp starts
      exact ⟨rest, same.symm⟩
    · obtain ⟨posEnd, marked, rfl⟩ := Option.map_eq_some_iff.mp found
      obtain ⟨rest, same⟩ := ih marked
      refine ⟨rest, ?_⟩
      rw [List.take_succ_cons, List.cons_append, List.cons_append, ← same]

theorem userOfUwsDirectory_eq_some_iff {start : List Char} (home : IsHome start)
    (present : ¬ publicHtml <+: t) : userOfUwsDirectory (start ++ t) = some user ↔
      isValidUserName user = true ∧ ∃ rest, t = user ++ '/' :: publicHtml ++ rest := by
  rw [userOfUwsDirectory_of_home home, find_marker_of_home home, if_neg present]
  have sliced : ∀ posEnd, slice (start ++ t) start.length (posEnd + start.length) =
      t.take posEnd := by
    intro posEnd
    rw [slice, Nat.add_comm, List.take_length_add_append, List.drop_left]
  constructor
  · intro decoded
    obtain ⟨_, found, decoded⟩ := Option.bind_eq_some_iff.mp decoded
    obtain ⟨posEnd, marked, rfl⟩ := Option.map_eq_some_iff.mp found
    rw [sliced] at decoded
    obtain ⟨valid, rfl⟩ := validUser_eq_some_iff.mp decoded
    exact ⟨valid, marker_of_find marked⟩
  · rintro ⟨valid, rest, rfl⟩
    rw [find_marker_append (slash_not_mem_of_valid valid), Option.map_some, Option.bind_some,
      sliced, List.append_assoc, List.take_left]
    exact validUser_eq_some_iff.mpr ⟨valid, rfl⟩

theorem home_of_decoded (decoded : userOfUwsDirectory directory = some user) :
    ∃ start t, IsHome start ∧ directory = start ++ t := by
  obtain ⟨posIni, chosen, -⟩ := Option.bind_eq_some_iff.mp decoded
  unfold userStart at chosen
  split at chosen
  · rename_i starts
    obtain ⟨t, rfl⟩ := List.isPrefixOf_iff_prefix.mp starts
    exact ⟨_, t, .inl rfl, rfl⟩
  · split at chosen
    · rename_i starts
      obtain ⟨t, rfl⟩ := List.isPrefixOf_iff_prefix.mp starts
      exact ⟨_, t, .inr rfl, rfl⟩
    · cases chosen

/-! ## URLs -/

theorem find_single_of_not_mem {c : Char} {s : List Char} (absent : c ∉ s) :
    Text.find [c] s = none := by
  induction s with
  | nil => rfl
  | cons d s ih =>
    rw [List.mem_cons, not_or] at absent
    rw [find_cons_of_ne absent.1, ih absent.2]
    rfl

def EndsPart (rest : List Char) : Prop :=
  rest = [] ∨ ∃ more, rest = '/' :: more

theorem userOfUwsUrl_eq {start rest : List Char} (untouched : '~' ∉ start) (plain : '/' ∉ user)
    (ends : EndsPart rest) :
    userOfUwsUrl (start ++ '~' :: (user ++ rest)) = validUser user := by
  have sliced : slice (start ++ '~' :: (user ++ rest)) (start.length + 1)
      (start.length + 1 + user.length) = user := by
    have whole : start ++ '~' :: (user ++ rest) = start ++ ['~'] ++ user ++ rest := by simp
    have length : start.length + 1 + user.length = (start ++ ['~'] ++ user).length := by
      simp [Nat.add_assoc, Nat.add_comm user.length]
    have before : start.length + 1 = (start ++ ['~']).length := by simp
    rw [slice, whole, length, List.take_left, before, List.drop_left]
  unfold userOfUwsUrl
  rw [Text.find_single_append untouched]
  simp only [Option.bind_eq_bind, Option.bind_some, List.drop_left]
  rcases ends with rfl | ⟨more, rfl⟩
  · rw [List.append_nil] at sliced ⊢
    rw [find_cons_of_ne (by decide), find_single_of_not_mem plain]
    simp only [Option.map_none, List.length_append, List.length_cons]
    rw [← Nat.add_assoc, Nat.add_right_comm, sliced]
  · rw [find_cons_of_ne (by decide), Text.find_single_append plain]
    simp only [Option.map_some]
    rw [← Nat.add_assoc, Nat.add_right_comm, sliced]

theorem exists_part (url : List Char) : '~' ∉ url ∨ ∃ start user rest,
    url = start ++ '~' :: (user ++ rest) ∧ '~' ∉ start ∧ '/' ∉ user ∧ EndsPart rest := by
  by_cases tilde : '~' ∈ url
  · right
    obtain ⟨start, t, rfl, untouched⟩ := List.eq_append_cons_of_mem tilde
    by_cases slash : '/' ∈ t
    · obtain ⟨user, more, rfl, plain⟩ := List.eq_append_cons_of_mem slash
      exact ⟨start, user, _, rfl, untouched, plain, .inr ⟨more, rfl⟩⟩
    · exact ⟨start, t, [], by rw [List.append_nil], untouched, slash, .inl rfl⟩
  · exact .inl tilde

/-! ## Web sites -/

def IsUser (user : List Char) : Prop :=
  user ≠ [] ∧ isValidUserName user = true

def IsUwsDirectory (user directory : List Char) : Prop :=
  IsUser user ∧ ∃ start rest, IsHome start ∧ EndsPart rest ∧
    directory = start ++ (user ++ '/' :: publicHtml ++ rest)

def IsUwsUrl (user url : List Char) : Prop :=
  IsUser user ∧ ∃ start rest, '~' ∉ start ∧ EndsPart rest ∧ url = start ++ '~' :: (user ++ rest)

def HasStrayMarker (directory : List Char) : Prop :=
  ∃ start t, IsHome start ∧ directory = start ++ t ∧ (publicHtml <+: t ∨
    ∃ user rest, isValidUserName user = true ∧ t = user ++ '/' :: publicHtml ++ rest ∧
      (user = [] ∨ ¬ EndsPart rest))

def LacksUser (url : List Char) : Prop :=
  ∃ start rest, '~' ∉ start ∧ EndsPart rest ∧ url = start ++ '~' :: rest

theorem prefix_append_slash_iff (user rest : List Char) :
    publicHtml <+: user ++ '/' :: rest ↔ publicHtml <+: user := by
  have plain : '/' ∉ publicHtml := by
    rw [publicHtml_eq]
    decide
  constructor
  · intro starts
    have slash : user ++ ['/'] <+: user ++ '/' :: rest := ⟨rest, by simp⟩
    rcases List.prefix_or_prefix_of_prefix starts slash with short | long
    · rcases List.prefix_concat_iff.mp short with same | short
      · exact absurd (same ▸ List.mem_append_right user (List.mem_singleton_self '/')) plain
      · exact short
    · exact absurd (long.subset (List.mem_append_right user (List.mem_singleton_self '/'))) plain
  · exact fun starts => starts.trans (List.prefix_append _ _)

theorem directory_decodes_iff (isUser : IsUser user) :
    userOfUwsDirectory (uwsDirectoryOfUser user) = some user ↔ ¬ publicHtml <+: user := by
  have whole : uwsDirectoryOfUser user = "/home/".toList ++ (user ++ '/' :: publicHtml) := by
    rw [uwsDirectoryOfUser, List.append_assoc]
  have starts_iff := prefix_append_slash_iff user publicHtml
  rw [whole]
  by_cases missing : publicHtml <+: user ++ '/' :: publicHtml
  · rw [userOfUwsDirectory_of_missing (.inl rfl) missing]
    refine iff_of_false ?_ (not_not.mpr (starts_iff.mp missing))
    rw [Option.some.injEq]
    exact isUser.1.symm
  · rw [userOfUwsDirectory_eq_some_iff (.inl rfl) missing, ← starts_iff]
    refine iff_of_true ⟨isUser.2, [], ?_⟩ missing
    rw [List.append_nil]

theorem url_decodes (isUser : IsUser user) : userOfUwsUrl (uwsUrlOfUser user) = some user := by
  have whole : uwsUrlOfUser user = ['/'] ++ '~' :: (user ++ ['/']) := by
    simp [uwsUrlOfUser]
  rw [whole, userOfUwsUrl_eq (by decide) (slash_not_mem_of_valid isUser.2) (.inr ⟨[], rfl⟩)]
  exact validUser_eq_some_iff.mpr ⟨isUser.2, rfl⟩

theorem other_directory_iff (other : ∀ user, ¬ IsUwsDirectory user directory) :
    userOfUwsDirectory directory = none ↔ ¬ HasStrayMarker directory := by
  constructor
  · rintro undecoded ⟨start, t, home, rfl, stray⟩
    by_cases missing : publicHtml <+: t
    · rw [userOfUwsDirectory_of_missing home missing] at undecoded
      cases undecoded
    · obtain ⟨user, rest, valid, split, -⟩ := stray.resolve_left missing
      rw [(userOfUwsDirectory_eq_some_iff home missing).mpr ⟨valid, rest, split⟩] at undecoded
      cases undecoded
  · intro clean
    cases decoded : userOfUwsDirectory directory with
    | none => rfl
    | some user =>
      obtain ⟨start, t, home, rfl⟩ := home_of_decoded decoded
      by_cases missing : publicHtml <+: t
      · exact absurd ⟨start, t, home, rfl, .inl missing⟩ clean
      · obtain ⟨valid, rest, rfl⟩ := (userOfUwsDirectory_eq_some_iff home missing).mp decoded
        by_cases stray : user = [] ∨ ¬ EndsPart rest
        · exact absurd ⟨start, _, home, rfl, .inr ⟨user, rest, valid, rfl, stray⟩⟩ clean
        · rw [not_or, not_not] at stray
          exact absurd ⟨⟨stray.1, valid⟩, start, rest, home, stray.2, rfl⟩ (other user)

theorem other_url_iff (other : ∀ user, ¬ IsUwsUrl user url) :
    userOfUwsUrl url = none ↔ ¬ LacksUser url := by
  constructor
  · rintro undecoded ⟨start, rest, untouched, ends, rfl⟩
    have decoded : userOfUwsUrl (start ++ '~' :: ([] ++ rest)) = validUser [] :=
      userOfUwsUrl_eq untouched List.not_mem_nil ends
    rw [List.nil_append, undecoded, validUser_nil] at decoded
    cases decoded
  · intro named
    rcases exists_part url with absent | ⟨start, user, rest, rfl, untouched, plain, ends⟩
    · unfold userOfUwsUrl
      rw [find_single_of_not_mem absent]
      rfl
    · rw [userOfUwsUrl_eq untouched plain ends, validUser, if_neg]
      intro valid
      have given : user ≠ [] := by
        rintro rfl
        exact named ⟨start, rest, untouched, ends, rfl⟩
      exact other user ⟨⟨given, valid⟩, start, rest, untouched, ends, rfl⟩

/-- The names of web sites are decoded exactly up to the markers in the wrong place and the names
that are missing. -/
theorem web_sites_decode_iff (user directory url : List Char) :
    (IsUser user →
      (userOfUwsDirectory (uwsDirectoryOfUser user) = some user ↔ ¬ publicHtml <+: user)) ∧
    (IsUser user → userOfUwsUrl (uwsUrlOfUser user) = some user) ∧
    ((∀ user, ¬ IsUwsDirectory user directory) →
      (userOfUwsDirectory directory = none ↔ ¬ HasStrayMarker directory)) ∧
    ((∀ user, ¬ IsUwsUrl user url) → (userOfUwsUrl url = none ↔ ¬ LacksUser url)) :=
  ⟨directory_decodes_iff, url_decodes, other_directory_iff, other_url_iff⟩

theorem public_html_is_nobody : IsUser publicHtml ∧
    userOfUwsDirectory (uwsDirectoryOfUser publicHtml) = some [] ∧
    userOfUwsDirectory (uwsDirectoryOfUser publicHtml) ≠ some publicHtml := by
  have decoded : userOfUwsDirectory (uwsDirectoryOfUser publicHtml) = some [] := by decide +kernel
  refine ⟨⟨by decide +kernel, by decide +kernel⟩, decoded, ?_⟩
  rw [decoded]
  decide

end Plinth.Apache.UserWebSites
