import Plinth.Lib.Path
import Plinth.Lib.Python.Text

/-!
# Paths of the operating system

What programs use of `os.path`, on the characters of a path.
-/

namespace Python.Os

def basename (path : List Char) : List Char :=
  (path.splitOn '/').getLast (List.splitOn_ne_nil '/' path)

/-- `os.path.join` of two paths -/
def join (path rest : List Char) : List Char :=
  if rest.head? = some '/' then rest
  else if path = [] ∨ path.getLast? = some '/' then path ++ rest
  else path ++ '/' :: rest

/-! ## Normal forms -/

def initialSlashes : List Char → List Char
  | '/' :: '/' :: '/' :: _ => ['/']
  | '/' :: '/' :: _ => ['/', '/']
  | '/' :: _ => ['/']
  | _ => []

def normpathStep (absolute : Bool) (components : List (List Char)) (component : List Char) :
    List (List Char) :=
  if component = [] ∨ component = ['.'] then components
  else if component ≠ ['.', '.'] ∨ (absolute = false ∧ components = []) ∨
      components.getLast? = some ['.', '.'] then components ++ [component]
  else components.dropLast

def normpath (path : List Char) : List Char :=
  let slashes := initialSlashes path
  let components := (path.splitOn '/').foldl (normpathStep (slashes ≠ [])) []
  match slashes ++ ['/'].intercalate components with
  | [] => ['.']
  | normalised => normalised

theorem initialSlashes_append_slash {path : List Char} (nonempty : path ≠ [])
    (open_ : path.getLast? ≠ some '/') : initialSlashes (path ++ ['/']) = initialSlashes path := by
  match path with
  | [] => exact absurd rfl nonempty
  | [a] =>
    have first : a ≠ '/' := by simpa using open_
    simp [initialSlashes, first]
  | [a, b] =>
    have second : b ≠ '/' := by simpa using open_
    by_cases first : a = '/'
    · simp [initialSlashes, first, second]
    · simp [initialSlashes, first]
  | a :: b :: c :: rest =>
    by_cases first : a = '/'
    · by_cases second : b = '/'
      · by_cases third : c = '/'
        · simp [initialSlashes, first, second, third]
        · simp [initialSlashes, first, second, third]
      · simp [initialSlashes, first, second]
    · simp [initialSlashes, first]

theorem normpath_append_slash {path : List Char} (nonempty : path ≠ [])
    (open_ : path.getLast? ≠ some '/') : normpath (path ++ ['/']) = normpath path := by
  have components : (path ++ ['/']).splitOn '/' = path.splitOn '/' ++ [[]] :=
    List.splitOn_append_cons_self path []
  rw [normpath, initialSlashes_append_slash nonempty open_, components, List.foldl_append]
  rfl

/-! ## Relative paths -/

def names (path : List Char) : List (List Char) :=
  (path.splitOn '/').filter (· ≠ [])

def abspath (cwd path : List Char) : List Char :=
  normpath (join cwd path)

def commonLength : List (List Char) → List (List Char) → Nat
  | a :: l, b :: l' => if a = b then commonLength l l' + 1 else 0
  | _, _ => 0

/-- `os.path.relpath`, if there is a path -/
def relpath (cwd path start : List Char) : Option (List Char) :=
  if path = [] then none
  else
    let startList := names (abspath cwd start)
    let pathList := names (abspath cwd path)
    let i := commonLength startList pathList
    match List.replicate (startList.length - i) ['.', '.'] ++ pathList.drop i with
    | [] => some ['.']
    | first :: rest => some (rest.foldl join first)

/-! ## Paths below the root -/

def Proper (name : List Char) : Prop :=
  Path.IsName '.' name ∧ '/' ∉ name

theorem normpathStep_absolute {resolved : List (List Char)} (proper : ∀ name ∈ resolved, Proper name)
    (segment : List Char) :
    normpathStep true resolved segment = Path.resolveStep '.' resolved segment := by
  unfold normpathStep Path.resolveStep
  split
  · rfl
  have last : resolved.getLast? ≠ some ['.', '.'] := by
    intro up
    exact (proper _ (List.mem_of_getLast? up)).1.2.2 rfl
  by_cases up : segment = ['.', '.']
  · simp [up, last]
  · simp [up]

theorem proper_resolveStep {resolved : List (List Char)} (proper : ∀ name ∈ resolved, Proper name)
    {segment : List Char} (free : '/' ∉ segment) :
    ∀ name ∈ Path.resolveStep '.' resolved segment, Proper name := by
  unfold Path.resolveStep
  split
  · exact proper
  split
  · exact fun name member => proper name (List.mem_of_mem_dropLast member)
  · rename_i here up
    intro name member
    obtain member | member := List.mem_append.mp member
    · exact proper name member
    · obtain rfl := List.mem_singleton.mp member
      exact ⟨⟨fun empty => here (.inl empty), fun dot => here (.inr dot), up⟩, free⟩

theorem resolve_absolute {segments : List (List Char)} (free : ∀ segment ∈ segments, '/' ∉ segment)
    {resolved : List (List Char)} (proper : ∀ name ∈ resolved, Proper name) :
    segments.foldl (normpathStep true) resolved = segments.foldl (Path.resolveStep '.') resolved ∧
      ∀ name ∈ segments.foldl (Path.resolveStep '.') resolved, Proper name := by
  induction segments generalizing resolved with
  | nil => exact ⟨rfl, proper⟩
  | cons segment segments ih =>
    obtain ⟨here, free⟩ := List.forall_mem_cons.mp free
    rw [List.foldl_cons, List.foldl_cons, normpathStep_absolute proper]
    exact ih free (proper_resolveStep proper here)

theorem proper_components (path : List Char) :
    ∀ name ∈ Path.components '/' '.' path, Proper name :=
  (resolve_absolute (fun _ => Text.not_mem_of_mem_splitOn) fun _ member =>
    absurd member List.not_mem_nil).2

theorem initialSlashes_cases {path : List Char} (absolute : path.head? = some '/') :
    initialSlashes path = ['/'] ∨ initialSlashes path = ['/', '/'] := by
  unfold initialSlashes
  split
  · exact .inl rfl
  · exact .inr rfl
  · exact .inl rfl
  · rename_i other
    obtain ⟨rest, rfl⟩ := List.head?_eq_some_iff.mp absolute
    exact absurd rfl (other rest)

theorem initialSlashes_eq_nil_iff (path : List Char) :
    initialSlashes path = [] ↔ path.head? ≠ some '/' := by
  constructor
  · intro relative absolute
    rcases initialSlashes_cases absolute with one | two
    · rw [relative] at one
      cases one
    · rw [relative] at two
      cases two
  · intro relative
    cases path with
    | nil => rfl
    | cons c rest =>
      have first : c ≠ '/' := by simpa using relative
      simp [initialSlashes, first]

theorem splitOn_intercalate_names {names : List (List Char)} (proper : ∀ name ∈ names, Proper name) :
    (['/'].intercalate names).splitOn '/' = if names = [] then [[]] else names := by
  split
  · rename_i none
    subst none
    rfl
  · rename_i some
    exact List.splitOn_intercalate '/' (fun name member => (proper name member).2) some

theorem names_cons_slash (path : List Char) : names ('/' :: path) = names path := by
  have split : ('/' :: path).splitOn '/' = [] :: path.splitOn '/' :=
    List.splitOn_append_cons_self [] path
  rw [names, split]
  rfl

theorem names_intercalate {segments : List (List Char)} (proper : ∀ name ∈ segments, Proper name) :
    names (['/'].intercalate segments) = segments := by
  rw [names, splitOn_intercalate_names proper]
  split
  · rename_i none
    rw [none]
    rfl
  · exact List.filter_eq_self.mpr fun name member => decide_eq_true (proper name member).1.1

theorem names_normpath {path : List Char} (absolute : path.head? = some '/') :
    names (normpath path) = Path.components '/' '.' path := by
  have resolved : (path.splitOn '/').foldl (normpathStep true) [] = Path.components '/' '.' path :=
    (resolve_absolute (fun _ => Text.not_mem_of_mem_splitOn) fun _ member =>
      absurd member List.not_mem_nil).1
  have proper := names_intercalate (proper_components path)
  unfold normpath
  obtain one | two := initialSlashes_cases absolute
  · rw [one]
    dsimp only
    rw [show decide (['/'] ≠ []) = true from rfl, resolved]
    exact (names_cons_slash _).trans proper
  · rw [two]
    dsimp only
    rw [show decide (['/', '/'] ≠ []) = true from rfl, resolved]
    exact (names_cons_slash _).trans ((names_cons_slash _).trans proper)

theorem foldl_join {first : List Char} (nonempty : first ≠ []) (open_ : first.getLast? ≠ some '/')
    {rest : List (List Char)} (proper : ∀ name ∈ rest, Proper name) :
    rest.foldl join first = ['/'].intercalate (first :: rest) := by
  induction rest generalizing first with
  | nil => simp
  | cons name rest ih =>
    obtain ⟨⟨⟨named, -⟩, free⟩, proper⟩ := List.forall_mem_cons.mp proper
    have relative : name.head? ≠ some '/' := by
      intro slash
      exact free (List.mem_of_mem_head? slash)
    have joined : join first name = first ++ '/' :: name := by
      rw [join, if_neg relative, if_neg (by simp [nonempty, open_])]
    have last : (first ++ '/' :: name).getLast? ≠ some '/' := by
      intro slash
      have member : (first ++ '/' :: name).getLast? = name.getLast? := by
        cases name with
        | nil => exact absurd rfl named
        | cons c name => rw [List.getLast?_append_cons, List.getLast?_cons_cons]
      rw [member] at slash
      exact free (List.mem_of_getLast? slash)
    rw [List.foldl_cons, joined, ih (by simp) last proper]
    cases rest <;> simp [List.intercalate_cons_cons]

theorem components_intercalate {segments : List (List Char)}
    (proper : ∀ name ∈ segments, Proper name) :
    Path.components '/' '.' (['/'].intercalate segments) = segments := by
  have grown (resolved : List (List Char)) (segments : List (List Char))
      (proper : ∀ name ∈ segments, Proper name) :
      segments.foldl (Path.resolveStep '.') resolved = resolved ++ segments := by
    induction segments generalizing resolved with
    | nil => simp
    | cons name segments ih =>
      obtain ⟨⟨⟨nonempty, notDot, notUp⟩, -⟩, proper⟩ := List.forall_mem_cons.mp proper
      rw [List.foldl_cons, ih _ proper]
      simp [Path.resolveStep, nonempty, notDot, notUp]
  rw [Path.components, splitOn_intercalate_names proper]
  split
  · rename_i none
    rw [none]
    rfl
  · rw [grown [] segments proper, List.nil_append]

theorem components_relpath {cwd path relative : List Char} (absolute : cwd.head? = some '/')
    (found : relpath cwd path ['/'] = some relative) :
    Path.components '/' '.' relative = Path.components '/' '.' (join cwd path) := by
  have whole : (join cwd path).head? = some '/' := by
    unfold join
    split
    · assumption
    · obtain ⟨rest, rfl⟩ := List.head?_eq_some_iff.mp absolute
      split <;> rfl
  have root : names (abspath cwd ['/']) = [] := rfl
  have proper := proper_components (join cwd path)
  unfold relpath at found
  rw [root, abspath, names_normpath whole] at found
  simp only [commonLength, List.length_nil, Nat.sub_zero, List.replicate_zero, List.nil_append,
    List.drop_zero] at found
  split at found
  · cases found
  split at found
  · rename_i none
    cases found
    rw [none]
    rfl
  · rename_i first rest some
    cases found
    rw [some] at proper ⊢
    obtain ⟨named, proper'⟩ := List.forall_mem_cons.mp proper
    have open_ : first.getLast? ≠ Option.some '/' :=
      fun slash => named.2 (List.mem_of_getLast? slash)
    rw [foldl_join named.1.1 open_ proper', components_intercalate proper]

end Python.Os
