import Plinth.Model.Gitweb.Create

/-! # Repositories that are created as a whole -/

namespace Plinth.Gitweb

open Effect Python

/-! ## Steps -/

section Steps

variable {env : Environment}

def Environment.Runs (env : Environment) (command : Command) : Prop :=
  env.commandFails command = none

def Environment.Works (env : Environment) (operation : Operation) : Prop :=
  env.operationFails operation = false

def Raised.Caught (raised : Raised) : Prop :=
  raised = .calledProcessError ∨ raised = .osError

theorem run_then {command : Command} (runs : env.Runs command) (rest : Unit → Call) (repos : Repos) :
    (run env command >>= rest).exec repos = (rest ()).exec repos := by
  rw [exec_bind, run, runs]
  rfl

theorem run_fails {command : Command} (fails : ¬ env.Runs command) : ∃ raised : Raised,
    raised.Caught ∧ ∀ (rest : Unit → Call) (repos : Repos),
      (run env command >>= rest).exec repos = (.error raised, repos) := by
  rw [Environment.Runs] at fails
  cases how : env.commandFails command with
  | none => exact absurd how fails
  | some ran =>
    cases ran with
    | true =>
      refine ⟨.calledProcessError, .inl rfl, ?_⟩
      intro rest repos
      rw [exec_bind, run, how]
      rfl
    | false =>
      refine ⟨.osError, .inr rfl, ?_⟩
      intro rest repos
      rw [exec_bind, run, how]
      rfl

theorem attempt_then {operation : Operation} (works : env.Works operation) (rest : Unit → Call)
    (repos : Repos) : (attempt env operation >>= rest).exec repos = (rest ()).exec repos := by
  rw [Environment.Works] at works
  have no : ¬ env.operationFails operation = true := by simp [works]
  rw [attempt, when_of_not no, exec_bind]
  rfl

theorem attempt_fails {operation : Operation} (fails : ¬ env.Works operation) (rest : Unit → Call)
    (repos : Repos) : (attempt env operation >>= rest).exec repos = (.error .osError, repos) := by
  rw [Environment.Works, Bool.not_eq_false] at fails
  rw [attempt, when_of fails, exec_bind]
  rfl

end Steps

/-! ## One directory -/

def holding (repos : Repos) (repo : String) (directory : Directory) : Repos :=
  Function.update repos repo (some directory)

section Holding

variable (repos : Repos) (repo : String) (directory : Directory)

@[simp] theorem holding_same : holding repos repo directory repo = some directory :=
  Function.update_self ..

@[simp] theorem update_holding (entry : Option Directory) :
    Function.update (holding repos repo directory) repo entry = Function.update repos repo entry :=
  Function.update_idem ..

@[simp] theorem exec_change (f : Directory → Directory) :
    (change repo f).exec (holding repos repo directory) =
      (.ok (), holding repos repo (f directory)) := by
  rw [change, exec_modify, holding_same, update_holding]
  rfl

theorem change_then (f : Directory → Directory) (rest : Unit → Call) :
    (change repo f >>= rest).exec (holding repos repo directory) =
      (rest ()).exec (holding repos repo (f directory)) := by
  rw [exec_bind, exec_change]

end Holding

/-! ## The texts -/

section Texts

variable (env : Environment) (request : Request)

def Settable (directory : Directory) : Prop :=
  (∀ text, directory.owner = some text → env.parses (ConfigParser.readLines text).2 = true) ∧
    ConfigParser.Accepts request.owner

structure Writable (directory : Directory) : Prop where
  openDescription : env.Works .openDescription
  encodes : env.encodes request.description = true
  settable : Settable env request directory
  openConfig : env.Works .openConfig
  encodesUtf8 : env.encodesUtf8 request.owner = true

def Refused (directory directory' : Directory) : Prop :=
  env.Works .openDescription ∧
    ((¬ env.encodes request.description = true ∧
        directory' = { directory with description := some [] }) ∨
      (env.encodes request.description = true ∧ ¬ Settable env request directory ∧
        directory' = { directory with description := some request.description }) ∨
      (env.encodes request.description = true ∧ Settable env request directory ∧
        env.Works .openConfig ∧ ¬ env.encodesUtf8 request.owner = true ∧
        directory' = { directory with description := some request.description, owner := none }))

def Directory.written (directory : Directory) : Directory :=
  { directory with
    description := some request.description
    owner := some (ConfigParser.writeValue request.owner) }

def KeptTexts : Prop :=
  '\r' ∉ request.description ∧ ConfigParser.Kept request.owner

def setTexts (repo : String) (rest : Unit → Call) : Call := do
  setRepoDescription env repo request.description
  setRepoOwner env repo request.owner
  rest ()

variable {env} {request} {repos : Repos} {repo : String} {directory : Directory}

theorem setRepoDescription_unencoded (works : env.Works .openDescription)
    (encodes : ¬ env.encodes request.description = true) (rest : Unit → Call) :
    (setTexts env request repo rest).exec (holding repos repo directory) =
      (.error .valueError, holding repos repo { directory with description := some [] }) := by
  have ran : (setRepoDescription env repo request.description).exec (holding repos repo directory) =
      (.error .valueError, holding repos repo { directory with description := some [] }) := by
    rw [setRepoDescription, attempt_then works, if_neg encodes, change_then]
    rfl
  rw [setTexts, exec_bind, ran]

theorem setRepoDescription_then (works : env.Works .openDescription)
    (encodes : env.encodes request.description = true) (rest : Unit → Call) :
    (setTexts env request repo rest).exec (holding repos repo directory) =
      (do
        setRepoOwner env repo request.owner
        rest ()).exec
        (holding repos repo { directory with description := some request.description }) := by
  have ran : (setRepoDescription env repo request.description).exec (holding repos repo directory) =
      (.ok (), holding repos repo { directory with description := some request.description }) := by
    rw [setRepoDescription, attempt_then works, if_pos encodes, exec_change]
  rw [setTexts, exec_bind, ran]

theorem readConfig_exec : (readConfig env repo).exec (holding repos repo directory) =
    (match directory.owner with
      | none => .ok ()
      | some text =>
        if ¬ env.parses (ConfigParser.readLines text).2 then .error .parsingError else .ok (),
      holding repos repo directory) := by
  rw [readConfig, exec_bind, exec_get]
  dsimp only
  rw [holding_same, Option.bind_some]
  cases directory.owner with
  | none => rfl
  | some text =>
    dsimp only
    split <;> rfl

theorem setRepoOwner_unsettable (unsettable : ¬ Settable env request directory) :
    ∃ raised : Raised, ¬ raised.Caught ∧ ∀ rest : Unit → Call,
      (setRepoOwner env repo request.owner >>= rest).exec (holding repos repo directory) =
        (.error raised, holding repos repo directory) := by
  have refused : ConfigParser.Accepts request.owner →
      ∃ text, directory.owner = some text ∧ ¬ env.parses (ConfigParser.readLines text).2 = true := by
    intro accepts
    by_contra readable
    apply unsettable
    refine ⟨?_, accepts⟩
    intro text there
    by_contra parses
    exact readable ⟨text, there, parses⟩
  by_cases readable : ∃ text, directory.owner = some text ∧
      ¬ env.parses (ConfigParser.readLines text).2 = true
  · obtain ⟨text, there, parses⟩ := readable
    refine ⟨.parsingError, by simp [Raised.Caught], ?_⟩
    intro rest
    rw [setRepoOwner, bind_assoc, exec_bind, readConfig_exec, there]
    dsimp only
    rw [if_pos parses]
  · have accepts : ¬ ConfigParser.Accepts request.owner := fun accepts => readable (refused accepts)
    refine ⟨.valueError, by simp [Raised.Caught], ?_⟩
    intro rest
    have read : (match directory.owner with
        | none => Except.ok ()
        | some text =>
          if ¬ env.parses (ConfigParser.readLines text).2 then .error .parsingError
          else .ok () : Except Raised Unit) = .ok () := by
      cases there : directory.owner with
      | none => rfl
      | some text =>
        dsimp only
        rw [if_neg fun parses => readable ⟨text, there, parses⟩]
    rw [setRepoOwner, bind_assoc, exec_bind, readConfig_exec, read]
    dsimp only
    rw [if_pos accepts]
    rfl

theorem setRepoOwner_settable (settable : Settable env request directory) (rest : Unit → Call) :
    (setRepoOwner env repo request.owner >>= rest).exec (holding repos repo directory) =
      ((do
        attempt env .openConfig
        if env.encodesUtf8 request.owner then
          change repo fun directory =>
            { directory with owner := some (ConfigParser.writeValue request.owner) }
        else
          change repo fun directory => { directory with owner := none }
          throw .valueError) >>= rest).exec (holding repos repo directory) := by
  have read : (match directory.owner with
      | none => Except.ok ()
      | some text =>
        if ¬ env.parses (ConfigParser.readLines text).2 then .error .parsingError
        else .ok () : Except Raised Unit) = .ok () := by
    cases there : directory.owner with
    | none => rfl
    | some text =>
      dsimp only
      rw [if_neg fun parses => parses (settable.1 text there)]
  rw [setRepoOwner, bind_assoc, exec_bind, readConfig_exec, read]
  dsimp only
  rw [if_neg fun accepts => accepts settable.2]

theorem Writable.not_refused (writable : Writable env request directory) (other : Directory) :
    ¬ Refused env request directory other := by
  simp [Refused, writable.encodes, writable.settable, writable.encodesUtf8]

theorem setTexts_cases (rest : Unit → Call) :
    (Writable env request directory ∧
      (setTexts env request repo rest).exec (holding repos repo directory) =
        (rest ()).exec (holding repos repo (directory.written request))) ∨
    (∃ raised directory', ¬ Writable env request directory ∧ raised.Caught ∧
      (∀ other, ¬ Refused env request directory other) ∧
      (setTexts env request repo rest).exec (holding repos repo directory) =
        (.error raised, holding repos repo directory')) ∨
    ∃ raised directory', ¬ Writable env request directory ∧ ¬ raised.Caught ∧
      (∀ other, Refused env request directory other ↔ other = directory') ∧
      (setTexts env request repo rest).exec (holding repos repo directory) =
        (.error raised, holding repos repo directory') := by
  have valueError : ¬ Raised.valueError.Caught := by simp [Raised.Caught]
  by_cases opens : env.Works .openDescription
  · by_cases encodes : env.encodes request.description = true
    · rw [setRepoDescription_then opens encodes]
      generalize described : { directory with description := some request.description } = directory'
      have same : Settable env request directory ↔ Settable env request directory' := by
        rw [← described]
        rfl
      by_cases settable : Settable env request directory
      · rw [setRepoOwner_settable (same.mp settable)]
        by_cases openConfig : env.Works .openConfig
        · by_cases encodesUtf8 : env.encodesUtf8 request.owner = true
          · apply Or.inl
            refine ⟨⟨opens, encodes, settable, openConfig, encodesUtf8⟩, ?_⟩
            rw [bind_assoc, attempt_then openConfig, if_pos encodesUtf8, change_then, ← described]
            rfl
          · apply Or.inr ∘ Or.inr
            refine ⟨.valueError, { directory' with owner := none },
              fun writable => encodesUtf8 writable.encodesUtf8, valueError, ?_, ?_⟩
            · intro other
              rw [← described]
              simp [Refused, opens, encodes, settable, openConfig, encodesUtf8]
            · rw [bind_assoc, attempt_then openConfig, if_neg encodesUtf8, bind_assoc, change_then]
              rfl
        · apply Or.inr ∘ Or.inl
          refine ⟨.osError, directory', fun writable => openConfig writable.openConfig, .inr rfl, ?_, ?_⟩
          · simp [Refused, opens, encodes, settable, openConfig]
          · rw [bind_assoc, attempt_fails openConfig]
      · obtain ⟨raised, uncaught, ran⟩ := setRepoOwner_unsettable (mt same.mpr settable)
        apply Or.inr ∘ Or.inr
        refine ⟨raised, directory', fun writable => settable writable.settable, uncaught, ?_, ran rest⟩
        intro other
        rw [← described]
        simp [Refused, opens, encodes, settable]
    · apply Or.inr ∘ Or.inr
      refine ⟨.valueError, { directory with description := some [] },
        fun writable => encodes writable.encodes, valueError, ?_,
        setRepoDescription_unencoded opens encodes rest⟩
      intro other
      simp [Refused, opens, encodes]
  · apply Or.inr ∘ Or.inl
    refine ⟨.osError, directory, fun writable => opens writable.openDescription, .inr rfl, ?_, ?_⟩
    · simp [Refused, opens]
    · rw [setTexts, setRepoDescription, bind_assoc, attempt_fails opens]

end Texts

/-! ## All or nothing -/

def IsRequested (env : Environment) (request : Request) (directory : Directory) : Prop :=
  directory.content.isSome = true ∧
    getRepoDescription directory = request.description ∧
    getRepoOwner env directory = some request.owner ∧
    directory.isPrivate = request.isPrivate

def AllOrNothing (env : Environment) (request : Request) (inTwoCalls : Bool) (repos : Repos) :
    Prop :=
  match (create env request inTwoCalls).exec repos with
  | (.error _, repos') => repos' request.repo = repos request.repo
  | (.ok _, repos') => ∃ directory, repos' request.repo = some directory ∧
      IsRequested env request directory

section Create

variable (env : Environment) (request : Request)

def Ownable : Prop :=
  request.keepOwnership = false → env.Runs .chown

def Markable : Prop :=
  request.isPrivate = true → env.Works .touchPrivate

def Directory.chowned (directory : Directory) : Directory :=
  if request.keepOwnership then directory else { directory with owned := true }

def CreatesNew : Prop :=
  env.Runs .gitInit → Ownable env request →
    (∀ directory', ¬ Refused env request (emptyDirectory.initialized.chowned request) directory') ∧
    (Writable env request (emptyDirectory.initialized.chowned request) → Markable env request →
      KeptTexts request)

def CreatesAgain (directory : Directory) : Prop :=
  env.Runs .gitInit ∧ Ownable env request ∧
    (Refused env request (directory.initialized.chowned request) directory ∨
      (Writable env request (directory.initialized.chowned request) ∧ Markable env request ∧
        KeptTexts request ∧ (directory.isPrivate = true → request.isPrivate = true)))

variable {env} {request} {repos : Repos} {repo : String} {directory : Directory}

theorem chown_then (ownable : Ownable env request) (rest : Unit → Call) :
    (chown env repo request.keepOwnership >>= rest).exec (holding repos repo directory) =
      (rest ()).exec (holding repos repo (directory.chowned request)) := by
  rw [chown, Directory.chowned]
  cases keep : request.keepOwnership with
  | true =>
    rw [when_of_not (by simp), if_pos rfl]
    rfl
  | false =>
    rw [when_of (by simp), bind_assoc, run_then (ownable keep), change_then]
    rfl

theorem chown_fails (unownable : ¬ Ownable env request) : ∃ raised : Raised, raised.Caught ∧
    ∀ (rest : Unit → Call) (repos : Repos),
      (chown env repo request.keepOwnership >>= rest).exec repos = (.error raised, repos) := by
  rw [Ownable, not_forall] at unownable
  obtain ⟨keep, fails⟩ := unownable
  obtain ⟨raised, caught, ran⟩ := run_fails fails
  refine ⟨raised, caught, ?_⟩
  intro rest repos
  rw [chown, keep, when_of (by simp), bind_assoc, ran]

theorem setPrivate_exec (markable : Markable env request) :
    (Effect.when request.isPrivate (setPrivate env repo)).exec (holding repos repo directory) =
      (.ok (), holding repos repo
        { directory with isPrivate := request.isPrivate || directory.isPrivate }) := by
  cases marked : request.isPrivate with
  | true =>
    rw [when_of rfl, setPrivate, attempt_then (markable marked), exec_change]
    rfl
  | false =>
    rw [when_of_not (by simp)]
    rfl

theorem setPrivate_fails (unmarkable : ¬ Markable env request) :
    (Effect.when request.isPrivate (setPrivate env repo)).exec repos = (.error .osError, repos) := by
  rw [Markable, not_forall] at unmarkable
  obtain ⟨marked, fails⟩ := unmarkable
  rw [when_of marked, setPrivate, attempt_fails fails]

variable (env request directory) in
theorem kept_iff (isPrivate : Bool) :
    (getRepoDescription { directory.written request with isPrivate := isPrivate } =
        request.description ∧
      getRepoOwner env { directory.written request with isPrivate := isPrivate } =
        some request.owner) ↔ KeptTexts request := by
  have description : getRepoDescription { directory.written request with isPrivate := isPrivate } =
      Text.universalNewlines request.description := rfl
  have owner : getRepoOwner env { directory.written request with isPrivate := isPrivate } =
      if ¬ env.parses (ConfigParser.readLines (ConfigParser.writeValue request.owner)).2 then none
      else ConfigParser.readValue (ConfigParser.writeValue request.owner) := rfl
  rw [description, owner, Text.universalNewlines_eq_iff, KeptTexts,
    ← ConfigParser.readValue_writeValue_iff]
  apply and_congr_right
  intro _
  constructor
  · intro read
    split at read
    · cases read
    · exact read
  · intro read
    have unread := ConfigParser.unread_writeValue (ConfigParser.noReturn_of_read read)
    rw [unread, if_neg (not_not.mpr env.parsesNothing), read]

/-! ## Empty repositories -/

def createBody (env : Environment) (request : Request) (repo : String) : Call := do
  gitInit env repo
  chown env repo request.keepOwnership
  setTexts env request repo fun _ => Effect.when request.isPrivate (setPrivate env repo)

def cleanUp (repo : String) (raised : Raised) : Call := do
  Effect.when (raised = .calledProcessError ∨ raised = .osError) (rmtree repo)
  throw raised

theorem createEmpty_eq : createEmpty env repo request.description request.owner request.isPrivate
    request.keepOwnership = tryCatch (createBody env request repo) (cleanUp repo) := rfl

theorem cleanUp_caught {raised : Raised} (caught : raised.Caught) :
    (cleanUp repo raised).exec repos = (.error raised, Function.update repos repo none) := by
  have caught' : raised = .calledProcessError ∨ raised = .osError := caught
  rw [cleanUp, when_of caught', rmtree, exec_bind, exec_modify]
  rfl

theorem cleanUp_uncaught {raised : Raised} (uncaught : ¬ raised.Caught) :
    (cleanUp repo raised).exec repos = (.error raised, repos) := by
  have uncaught' : ¬ (raised = .calledProcessError ∨ raised = .osError) := uncaught
  rw [cleanUp, when_of_not uncaught']
  rfl

theorem gitInit_then (runs : env.Runs .gitInit) (rest : Unit → Call) :
    (gitInit env repo >>= rest).exec repos =
      (rest ()).exec (holding repos repo ((repos repo).getD emptyDirectory).initialized) := by
  rw [gitInit, bind_assoc, run_then runs, exec_bind, exec_modify]
  rfl

theorem gitInit_fails (fails : ¬ env.Runs .gitInit) : ∃ raised : Raised, raised.Caught ∧
    ∀ rest : Unit → Call, (gitInit env repo >>= rest).exec repos = (.error raised, repos) := by
  obtain ⟨raised, caught, ran⟩ := run_fails fails
  refine ⟨raised, caught, ?_⟩
  intro rest
  rw [gitInit, bind_assoc, ran]

inductive Created (env : Environment) (request : Request) (before : Option Directory) :
    Except Raised Unit → Option Directory → Prop
  | removed {raised : Raised} (caught : raised.Caught)
      (early : env.Runs .gitInit → Ownable env request →
        (∀ other, ¬ Refused env request
          (((before.getD emptyDirectory).initialized).chowned request) other) ∧
        ¬ (Writable env request (((before.getD emptyDirectory).initialized).chowned request) ∧
          Markable env request)) :
      Created env request before (.error raised) none
  | refused {raised : Raised} {left : Directory} (runs : env.Runs .gitInit)
      (ownable : Ownable env request)
      (unwritable : ¬ Writable env request
        (((before.getD emptyDirectory).initialized).chowned request))
      (leaves : ∀ other, Refused env request
        (((before.getD emptyDirectory).initialized).chowned request) other ↔ other = left) :
      Created env request before (.error raised) (some left)
  | created (runs : env.Runs .gitInit) (ownable : Ownable env request)
      (writable : Writable env request
        (((before.getD emptyDirectory).initialized).chowned request))
      (markable : Markable env request) :
      Created env request before (.ok ()) (some
        { (((before.getD emptyDirectory).initialized).chowned request).written request with
          isPrivate := request.isPrivate ||
            ((((before.getD emptyDirectory).initialized).chowned request).written request).isPrivate })

theorem createEmpty_created (env : Environment) (request : Request) (repo : String)
    (repos : Repos) : ∃ result repos',
      (createEmpty env repo request.description request.owner request.isPrivate
        request.keepOwnership).exec repos = (result, repos') ∧
      Created env request (repos repo) result (repos' repo) := by
  have none : ∀ repos : Repos, Function.update repos repo none repo = none :=
    fun repos => Function.update_self ..
  rw [createEmpty_eq, exec_tryCatch, createBody]
  by_cases runs : env.Runs .gitInit
  · rw [gitInit_then runs]
    by_cases ownable : Ownable env request
    · rw [chown_then ownable]
      rcases setTexts_cases fun _ => Effect.when request.isPrivate (setPrivate env repo) with
        ⟨writable, ran⟩ | ⟨raised, left, unwritable, caught, notRefused, ran⟩ |
        ⟨raised, left, unwritable, uncaught, leaves, ran⟩
      · rw [ran]
        by_cases markable : Markable env request
        · rw [setPrivate_exec markable]
          refine ⟨_, _, rfl, ?_⟩
          rw [holding_same]
          exact .created runs ownable writable markable
        · rw [setPrivate_fails markable]
          dsimp only
          rw [cleanUp_caught (.inr rfl)]
          refine ⟨_, _, rfl, ?_⟩
          rw [none]
          exact .removed (.inr rfl) fun _ _ => ⟨writable.not_refused, fun both => markable both.2⟩
      · rw [ran]
        dsimp only
        rw [cleanUp_caught caught]
        refine ⟨_, _, rfl, ?_⟩
        rw [none]
        exact .removed caught fun _ _ => ⟨notRefused, fun both => unwritable both.1⟩
      · rw [ran]
        dsimp only
        rw [cleanUp_uncaught uncaught]
        refine ⟨_, _, rfl, ?_⟩
        rw [holding_same]
        exact .refused runs ownable unwritable leaves
    · obtain ⟨raised, caught, ran⟩ := chown_fails ownable
      rw [ran]
      dsimp only
      rw [cleanUp_caught caught]
      refine ⟨_, _, rfl, ?_⟩
      rw [none]
      exact .removed caught fun _ ownable' => absurd ownable' ownable
  · obtain ⟨raised, caught, ran⟩ := gitInit_fails runs
    rw [ran]
    dsimp only
    rw [cleanUp_caught caught]
    refine ⟨_, _, rfl, ?_⟩
    rw [none]
    exact .removed caught fun runs' => absurd runs' runs

theorem chowned_isPrivate : (directory.chowned request).isPrivate = directory.isPrivate := by
  rw [Directory.chowned]
  split <;> rfl

theorem chowned_content : (directory.chowned request).content = directory.content := by
  rw [Directory.chowned]
  split <;> rfl

theorem chowned_owner : (directory.chowned request).owner = directory.owner := by
  rw [Directory.chowned]
  split <;> rfl

variable (env request) in
theorem isRequested_iff (content : directory.content.isSome = true) (isPrivate : Bool) :
    IsRequested env request { directory.written request with isPrivate := isPrivate } ↔
      KeptTexts request ∧ isPrivate = request.isPrivate := by
  have written : ({ directory.written request with isPrivate := isPrivate } : Directory).content =
      directory.content := rfl
  rw [← kept_iff env request directory isPrivate, IsRequested, written]
  simp only [content, true_and, and_assoc]

theorem createsNew_iff {result : Except Raised Unit} {after : Option Directory}
    (created : Created env request none result after) :
    (match result with
      | .error _ => after = none
      | .ok _ => ∃ directory, after = some directory ∧ IsRequested env request directory) ↔
      CreatesNew env request := by
  have content : (emptyDirectory.initialized.chowned request).content.isSome = true := by
    rw [chowned_content]
    rfl
  have notPrivate : (emptyDirectory.initialized.chowned request).isPrivate = false := by
    rw [chowned_isPrivate]
    rfl
  cases created with
  | removed caught early =>
    refine iff_of_true rfl ?_
    intro runs ownable
    obtain ⟨notRefused, notDone⟩ := early runs ownable
    exact ⟨notRefused, fun writable markable => absurd ⟨writable, markable⟩ notDone⟩
  | refused runs ownable unwritable leaves =>
    apply iff_of_false
    · exact fun same => by cases same
    · intro creates
      exact (creates runs ownable).1 _ ((leaves _).mpr rfl)
  | created runs ownable writable markable =>
    have marked : (request.isPrivate || ((emptyDirectory.initialized.chowned request).written
        request).isPrivate) = request.isPrivate := by
      show (request.isPrivate || (emptyDirectory.initialized.chowned request).isPrivate) = _
      rw [notPrivate, Bool.or_false]
    have requested := isRequested_iff env request content request.isPrivate
    simp only [Option.getD_none, Option.some.injEq, exists_eq_left', marked]
    rw [requested]
    constructor
    · rintro ⟨kept, _⟩ _ _
      exact ⟨writable.not_refused, fun _ _ => kept⟩
    · intro creates
      exact ⟨(creates runs ownable).2 writable markable, rfl⟩

theorem createsAgain_iff {result : Except Raised Unit} {after : Option Directory}
    (created : Created env request (some directory) result after) :
    (match result with
      | .error _ => after = some directory
      | .ok _ => ∃ directory, after = some directory ∧ IsRequested env request directory) ↔
      CreatesAgain env request directory := by
  have content : (directory.initialized.chowned request).content.isSome = true := by
    rw [chowned_content]
    rfl
  have isPrivate : (directory.initialized.chowned request).isPrivate = directory.isPrivate := by
    rw [chowned_isPrivate]
    rfl
  cases created with
  | removed caught early =>
    apply iff_of_false
    · exact fun same => by cases same
    · rintro ⟨runs, ownable, refused | ⟨writable, markable, _⟩⟩
      · exact (early runs ownable).1 directory refused
      · exact (early runs ownable).2 ⟨writable, markable⟩
  | refused runs ownable unwritable leaves =>
    dsimp only
    rw [Option.some.injEq]
    constructor
    · intro same
      exact ⟨runs, ownable, .inl ((leaves directory).mpr same.symm)⟩
    · rintro ⟨_, _, refused | ⟨writable, _⟩⟩
      · exact ((leaves directory).mp refused).symm
      · exact absurd writable unwritable
  | created runs ownable writable markable =>
    have marked : (request.isPrivate || ((directory.initialized.chowned request).written
        request).isPrivate) = (request.isPrivate || directory.isPrivate) := by
      show (request.isPrivate || (directory.initialized.chowned request).isPrivate) = _
      rw [isPrivate]
    have requested := isRequested_iff env request content (request.isPrivate || directory.isPrivate)
    simp only [Option.getD_some, Option.some.injEq, exists_eq_left', marked]
    rw [requested]
    have same : (request.isPrivate || directory.isPrivate) = request.isPrivate ↔
        (directory.isPrivate = true → request.isPrivate = true) := by
      cases request.isPrivate <;> cases directory.isPrivate <;> simp
    rw [same]
    constructor
    · rintro ⟨kept, private_⟩
      exact ⟨runs, ownable, .inr ⟨writable, markable, kept, private_⟩⟩
    · rintro ⟨_, _, refused | ⟨_, _, kept, private_⟩⟩
      · exact absurd refused (writable.not_refused directory)
      · exact ⟨kept, private_⟩

end Create

/-! ## Clones -/

section Clone

variable (env : Environment) (request : Request)

def Preparable : Prop :=
  env.Works .mkdir ∧ Markable env request ∧ env.Works .writeStatus

/-- `git clone` is run to its end, and its status removed. -/
structure Reports (url : Url) : Prop where
  credential : url.hasCredentials = true → env.Runs .gitCredential
  popen : env.Works .popen
  progressDecodes : env.progressDecodes = true
  unlinkStatus : env.Works .unlinkStatus

structure Finishes : Prop where
  move : env.Works .move
  removeTemp : env.Works .removeTemp
  ownable : Ownable env request
  writable : Writable env request emptyDirectory

/-- Once the directory is prepared, nothing fails but `git clone`, and the texts are kept. -/
def Clones (url : Url) : Prop :=
  Preparable env request → Reports env url ∧
    (env.cloned.isSome = true → Finishes env request ∧ KeptTexts request)

def prepared : Directory :=
  { emptyDirectory with isPrivate := request.isPrivate, cloneProgress := true }

variable {env} {request} {repos : Repos} {url : Url} {directory : Directory}

theorem update_of_none {repo : String} (free : repos repo = none) :
    Function.update repos repo none = repos := by
  rw [← free]
  exact Function.update_eq_self repo repos

theorem prepare_exists (there : (repos (addSuffix url.name)).isSome = true) (isPrivate : Bool) :
    (prepareCloneRepo env url isPrivate).exec repos = (.error .osError, repos) := by
  rw [prepareCloneRepo]
  by_cases works : env.Works .mkdir
  · rw [attempt_then works, exec_bind, exec_get]
    dsimp only
    rw [if_pos there]
    rfl
  · rw [attempt_fails works]

def prepareBody (env : Environment) (request : Request) (repo : String) : Call := do
  Effect.when request.isPrivate (setPrivate env repo)
  attempt env .writeStatus
  change repo fun directory => { directory with cloneProgress := true }

def prepareCleanUp (repo : String) (raised : Raised) : Call := do
  Effect.when (raised = .osError) (rmtree repo)
  throw raised

theorem prepare_eq (works : env.Works .mkdir) (free : repos (addSuffix url.name) = none) :
    (prepareCloneRepo env url request.isPrivate).exec repos =
      (tryCatch (prepareBody env request (addSuffix url.name))
        (prepareCleanUp (addSuffix url.name))).exec
        (holding repos (addSuffix url.name) emptyDirectory) := by
  rw [prepareCloneRepo, attempt_then works, exec_bind, exec_get]
  dsimp only
  rw [free, if_neg (by simp), exec_bind, exec_modify]
  rfl

theorem prepareCleanUp_exec (repo : String) :
    (prepareCleanUp repo .osError).exec repos =
      (.error .osError, Function.update repos repo none) := by
  rw [prepareCleanUp, when_of rfl, rmtree, exec_bind, exec_modify]
  rfl

variable (request) in
theorem prepare_new (free : repos (addSuffix url.name) = none) :
    (Preparable env request ∧ (prepareCloneRepo env url request.isPrivate).exec repos =
      (.ok (), holding repos (addSuffix url.name) (prepared request))) ∨
    (¬ Preparable env request ∧ (prepareCloneRepo env url request.isPrivate).exec repos =
      (.error .osError, repos)) := by
  by_cases works : env.Works .mkdir
  · rw [prepare_eq works free, exec_tryCatch, prepareBody]
    by_cases markable : Markable env request
    · rw [exec_bind, setPrivate_exec markable]
      dsimp only
      by_cases writes : env.Works .writeStatus
      · rw [attempt_then writes, exec_change]
        apply Or.inl
        refine ⟨⟨works, markable, writes⟩, ?_⟩
        simp [prepared, emptyDirectory]
      · rw [attempt_fails writes]
        dsimp only
        rw [prepareCleanUp_exec, update_holding, update_of_none free]
        exact .inr ⟨fun preparable => writes preparable.2.2, rfl⟩
    · rw [exec_bind, setPrivate_fails markable]
      dsimp only
      rw [prepareCleanUp_exec, update_holding, update_of_none free]
      exact .inr ⟨fun preparable => markable preparable.2.1, rfl⟩
  · rw [prepareCloneRepo, attempt_fails works]
    exact .inr ⟨fun preparable => works preparable.1, rfl⟩

theorem credentials_then (runs : url.hasCredentials = true → env.Runs .gitCredential)
    (rest : Unit → Call) :
    (setupGitCredentials env url >>= rest).exec repos = (rest ()).exec repos := by
  rw [setupGitCredentials]
  by_cases has : url.hasCredentials = true
  · rw [when_of has, run_then (runs has)]
  · rw [when_of_not has]
    rfl

theorem credentials_fails (fails : ¬ (url.hasCredentials = true → env.Runs .gitCredential)) :
    ∃ raised : Raised, ∀ (rest : Unit → Call) (repos : Repos),
      (setupGitCredentials env url >>= rest).exec repos = (.error raised, repos) := by
  rw [not_forall] at fails
  obtain ⟨has, fails⟩ := fails
  obtain ⟨raised, _, ran⟩ := run_fails fails
  refine ⟨raised, ?_⟩
  intro rest repos
  rw [setupGitCredentials, when_of has, ran]

theorem set_temp_then {repo : String} (rest : Unit → Call) :
    ((modify fun repos => Function.update repos repo
      (some { (repos repo).getD emptyDirectory with temp := env.cloned }) : Call) >>= rest).exec
        (holding repos repo directory) =
      (rest ()).exec (holding repos repo { directory with temp := env.cloned }) := by
  rw [exec_bind, exec_modify, holding_same, update_holding]
  rfl

def cloneEnd (env : Environment) (repo : String) : Call := do
  if env.cloned = none then
    rmtree repo
    throw .runtimeError

theorem report_reports {repo : String} (reports : Reports env url)
    (cloning : directory.cloneProgress = true) (rest : Unit → Call) :
    (cloneWithProgressReport env url repo >>= rest).exec (holding repos repo directory) =
      (cloneEnd env repo >>= rest).exec (holding repos repo
        { directory with temp := env.cloned, cloneProgress := false }) := by
  have status : ¬ (holding repos repo { directory with temp := env.cloned } repo).map
      Directory.cloneProgress ≠ some true := by
    simp [cloning]
  rw [cloneWithProgressReport, bind_assoc, credentials_then reports.credential, bind_assoc,
    attempt_then reports.popen, bind_assoc, set_temp_then,
    if_neg (not_not.mpr reports.progressDecodes)]
  dsimp only
  rw [bind_assoc, attempt_then reports.unlinkStatus, bind_assoc, exec_bind, exec_get]
  dsimp only
  rw [if_neg status, bind_assoc, change_then]
  rfl

theorem report_then {repo : String} (reports : Reports env url) {content : List String}
    (cloned : env.cloned = some content) (cloning : directory.cloneProgress = true)
    (rest : Unit → Call) :
    (cloneWithProgressReport env url repo >>= rest).exec (holding repos repo directory) =
      (rest ()).exec (holding repos repo
        { directory with temp := some content, cloneProgress := false }) := by
  rw [report_reports reports cloning, cloneEnd, cloned, if_neg (by simp)]
  rfl

theorem report_removes {repo : String} (reports : Reports env url)
    (failed : env.cloned = none) (cloning : directory.cloneProgress = true)
    (rest : Unit → Call) :
    (cloneWithProgressReport env url repo >>= rest).exec (holding repos repo directory) =
      (.error .runtimeError, Function.update repos repo none) := by
  rw [report_reports reports cloning, cloneEnd, if_pos failed, bind_assoc, rmtree, exec_bind,
    exec_modify, update_holding]
  rfl

theorem report_leaves {repo : String} (fails : ¬ Reports env url) (directory : Directory)
    (rest : Unit → Call) : ∃ raised directory',
    (cloneWithProgressReport env url repo >>= rest).exec (holding repos repo directory) =
      (.error raised, holding repos repo directory') := by
  rw [cloneWithProgressReport, bind_assoc]
  by_cases credential : url.hasCredentials = true → env.Runs .gitCredential
  · rw [credentials_then credential, bind_assoc]
    by_cases popen : env.Works .popen
    · rw [attempt_then popen, bind_assoc, set_temp_then]
      by_cases decodes : env.progressDecodes = true
      · have unlinkFails : ¬ env.Works .unlinkStatus :=
          fun unlink => fails ⟨credential, popen, decodes, unlink⟩
        rw [if_neg (not_not.mpr decodes)]
        dsimp only
        rw [bind_assoc, attempt_fails unlinkFails]
        exact ⟨.osError, _, rfl⟩
      · rw [if_pos decodes]
        exact ⟨.valueError, _, rfl⟩
    · rw [attempt_fails popen]
      exact ⟨.osError, directory, rfl⟩
  · obtain ⟨raised, ran⟩ := credentials_fails credential
    rw [ran]
    exact ⟨raised, directory, rfl⟩

theorem writable_of_owner {directory' : Directory} (same : directory.owner = directory'.owner) :
    Writable env request directory ↔ Writable env request directory' := by
  have settable : Settable env request directory ↔ Settable env request directory' := by
    rw [Settable, Settable, same]
  constructor
  · rintro ⟨opens, encodes, sets, openConfig, encodesUtf8⟩
    exact ⟨opens, encodes, settable.mp sets, openConfig, encodesUtf8⟩
  · rintro ⟨opens, encodes, sets, openConfig, encodesUtf8⟩
    exact ⟨opens, encodes, settable.mpr sets, openConfig, encodesUtf8⟩

variable (request) in
def Directory.finished (directory : Directory) (content : List String) : Directory :=
  (({ { directory with temp := some content, cloneProgress := false }.moved with
      temp := none } : Directory).chowned request).written request

variable (request repos) in
theorem clone_finishes (reports : Reports env url) {content : List String}
    (cloned : env.cloned = some content) (cloning : directory.cloneProgress = true) :
    (Finishes env request ∧
      (cloneRepo env url request.description request.owner request.keepOwnership).exec
          (holding repos (addSuffix url.name) directory) =
        (.ok (), holding repos (addSuffix url.name) (directory.finished request content))) ∨
    (¬ Finishes env request ∧ ∃ raised directory',
      (cloneRepo env url request.description request.owner request.keepOwnership).exec
          (holding repos (addSuffix url.name) directory) =
        (.error raised, holding repos (addSuffix url.name) directory')) := by
  have texts : (do
      setRepoDescription env (addSuffix url.name) request.description
      setRepoOwner env (addSuffix url.name) request.owner : Call) =
      setTexts env request (addSuffix url.name) fun _ => pure () := by
    simp [setTexts]
  rw [cloneRepo, report_then reports cloned cloning]
  by_cases move : env.Works .move
  · rw [attempt_then move, change_then]
    by_cases removeTemp : env.Works .removeTemp
    · rw [attempt_then removeTemp, change_then]
      by_cases ownable : Ownable env request
      · rw [chown_then ownable, texts]
        have owner : ∀ directory : Directory, directory.owner = none →
            (Writable env request directory ↔ Writable env request emptyDirectory) :=
          fun directory none => writable_of_owner none
        rcases setTexts_cases fun _ => pure () with
          ⟨writable, ran⟩ | ⟨raised, left, unwritable, _, _, ran⟩ |
          ⟨raised, left, unwritable, _, _, ran⟩
        · rw [ran]
          exact .inl ⟨⟨move, removeTemp, ownable, (owner _ chowned_owner).mp writable⟩, rfl⟩
        · rw [ran]
          exact .inr ⟨fun finishes => unwritable ((owner _ chowned_owner).mpr finishes.writable), raised, left, rfl⟩
        · rw [ran]
          exact .inr ⟨fun finishes => unwritable ((owner _ chowned_owner).mpr finishes.writable), raised, left, rfl⟩
      · obtain ⟨raised, _, ran⟩ := chown_fails ownable
        rw [ran]
        exact .inr ⟨fun finishes => ownable finishes.ownable, raised, _, rfl⟩
    · rw [attempt_fails removeTemp]
      exact .inr ⟨fun finishes => removeTemp finishes.removeTemp, .osError, _, rfl⟩
  · rw [attempt_fails move]
    exact .inr ⟨fun finishes => move finishes.move, .osError, _, rfl⟩

variable (request repos) in
theorem clone_removes (reports : Reports env url) (failed : env.cloned = none)
    (cloning : directory.cloneProgress = true) :
    (cloneRepo env url request.description request.owner request.keepOwnership).exec
        (holding repos (addSuffix url.name) directory) =
      (.error .runtimeError, Function.update repos (addSuffix url.name) none) := by
  rw [cloneRepo, report_removes reports failed cloning]

variable (request repos) in
theorem clone_leaves (fails : ¬ Reports env url) (directory : Directory) :
    ∃ raised directory',
      (cloneRepo env url request.description request.owner request.keepOwnership).exec
          (holding repos (addSuffix url.name) directory) =
        (.error raised, holding repos (addSuffix url.name) directory') := by
  rw [cloneRepo]
  exact report_leaves fails directory _

theorem create_url (inTwoCalls : Bool) (fromUrl : request.source = .url url) :
    create env request inTwoCalls = (prepareCloneRepo env url request.isPrivate >>= fun _ =>
      cloneRepo env url request.description request.owner request.keepOwnership) := by
  cases inTwoCalls <;> simp [create, createRepo, fromUrl, Effect.when]

theorem finished_requested_iff (content : List String) :
    IsRequested env request ((prepared request).finished request content) ↔
      KeptTexts request := by
  have hasContent : ((({ { (prepared request) with temp := some content, cloneProgress := false }.moved
      with temp := none } : Directory)).chowned request).content.isSome = true := by
    rw [chowned_content]
    rfl
  have isPrivate : ((({ { (prepared request) with temp := some content, cloneProgress := false }.moved
      with temp := none } : Directory)).chowned request).isPrivate = request.isPrivate := by
    rw [chowned_isPrivate]
    rfl
  have requested := isRequested_iff env request hasContent request.isPrivate
  rw [← isPrivate] at requested
  apply Iff.trans requested
  simp [isPrivate]

variable (repos) in
theorem clones_iff (preparable : Preparable env request) :
    (match (cloneRepo env url request.description request.owner request.keepOwnership).exec
        (holding repos (addSuffix url.name) (prepared request)) with
      | (.error _, repos') => repos' (addSuffix url.name) = none
      | (.ok _, repos') => ∃ directory, repos' (addSuffix url.name) = some directory ∧
          IsRequested env request directory) ↔ Clones env request url := by
  have cloning : (prepared request).cloneProgress = true := rfl
  by_cases reports : Reports env url
  · cases cloned : env.cloned with
    | none =>
      have failed : ¬ env.cloned.isSome = true := by simp [cloned]
      rw [clone_removes request repos reports cloned cloning]
      dsimp only
      rw [Function.update_self]
      refine iff_of_true rfl ?_
      intro _
      exact ⟨reports, fun some => absurd some failed⟩
    | some content =>
      have isSome : env.cloned.isSome = true := by simp [cloned]
      rcases clone_finishes request repos reports cloned cloning with
        ⟨finishes, ran⟩ | ⟨notFinishes, raised, left, ran⟩
      · rw [ran]
        simp only [holding_same, Option.some.injEq, exists_eq_left']
        rw [finished_requested_iff]
        constructor
        · intro kept _
          exact ⟨reports, fun _ => ⟨finishes, kept⟩⟩
        · intro clones
          exact ((clones preparable).2 isSome).2
      · rw [ran]
        dsimp only
        rw [holding_same]
        apply iff_of_false
        · exact fun same => by cases same
        · intro clones
          exact notFinishes ((clones preparable).2 isSome).1
  · obtain ⟨raised, left, ran⟩ := clone_leaves request repos reports (prepared request)
    rw [ran]
    dsimp only
    rw [holding_same]
    apply iff_of_false
    · exact fun same => by cases same
    · intro clones
      exact reports (clones preparable).1

/-- A creation is all or nothing exactly in these cases. -/
theorem create_all_or_nothing_iff (env : Environment) (request : Request) (inTwoCalls : Bool)
    (repos : Repos) : AllOrNothing env request inTwoCalls repos ↔
      match request.source, repos request.repo with
      | .name _, none => CreatesNew env request
      | .name _, some directory => CreatesAgain env request directory
      | .url url, none => Clones env request url
      | .url _, some _ => True := by
  cases source : request.source with
  | name name =>
    have repo : request.repo = addSuffix name := by rw [Request.repo, source]
    have call : create env request inTwoCalls = createEmpty env (addSuffix name)
        request.description request.owner request.isPrivate request.keepOwnership := by
      cases inTwoCalls <;> simp only [create, createRepo, source]
    obtain ⟨result, repos', ran, created⟩ := createEmpty_created env request (addSuffix name) repos
    rw [AllOrNothing, call, ran, repo]
    cases before : repos (addSuffix name) with
    | none =>
      rw [before] at created
      cases result <;> exact createsNew_iff created
    | some directory =>
      rw [before] at created
      cases result <;> exact createsAgain_iff created
  | url url =>
    have repo : request.repo = addSuffix url.name := by rw [Request.repo, source]
    rw [AllOrNothing, create_url inTwoCalls source, repo, exec_bind]
    cases before : repos (addSuffix url.name) with
    | some directory =>
      have there : (repos (addSuffix url.name)).isSome = true := by simp [before]
      rw [prepare_exists there]
      dsimp only
      rw [before]
      exact iff_of_true rfl trivial
    | none =>
      rcases prepare_new request before with ⟨preparable, ran⟩ | ⟨unpreparable, ran⟩
      · rw [ran]
        exact clones_iff repos preparable
      · rw [ran]
        dsimp only
        rw [before]
        exact iff_of_true rfl fun preparable => absurd preparable unpreparable

end Clone

/-! ## An owner that is refused -/

def working : Environment where
  commandFails _ := none
  operationFails _ := false
  encodes _ := true
  encodesUtf8 _ := true
  parses _ := true
  parsesNothing := rfl
  progressDecodes := true
  cloned := none

def refusedRequest : Request where
  source := .name "secret"
  description := []
  owner := ['%']
  keepOwnership := false
  isPrivate := true

theorem private_repository_left_unmarked :
    ¬ ∀ env request inTwoCalls repos, AllOrNothing env request inTwoCalls repos := by
  intro all
  have nothing : ((create working refusedRequest false).exec fun _ => none).2 "secret.git" = none :=
    all working refusedRequest false fun _ => none
  have left : (((create working refusedRequest false).exec fun _ => none).2 "secret.git").map
      Directory.isPrivate = some false := rfl
  rw [nothing] at left
  cases left

end Plinth.Gitweb
