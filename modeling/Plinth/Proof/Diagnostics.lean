import Plinth.Model.Diagnostics

/-! # Results of diagnostics after a restart -/

namespace Plinth.Diagnostics

open Python Exception Effect
open DiagnosticCheck (Result)

/-! ## Lists and members one by one -/

attribute [grind =] encode encodeElements encodeMembers decode decodeElements decodeMembers

theorem encodeElements_eq (elements : List Data) :
    encodeElements elements = elements.mapM encode := by
  induction elements with
  | nil => rfl
  | cons value rest ih =>
    rw [encodeElements, List.mapM_cons, ih]

theorem decodeElements_eq (elements : List Json) :
    decodeElements elements = elements.mapM decode := by
  induction elements with
  | nil => rfl
  | cons element rest ih =>
    rw [decodeElements, List.mapM_cons, ih]

theorem encodeMembers_eq (members : List (String × Data)) :
    encodeMembers members = members.mapM encodeMember := by
  induction members with
  | nil => rfl
  | cons entry rest ih =>
    rw [encodeMembers, List.mapM_cons, encodeMember, ih]
    cases encode entry.2 <;> rfl

theorem decodeMembers_eq (members : List (String × Json)) :
    decodeMembers members = members.mapM decodeMember := by
  induction members with
  | nil => rfl
  | cons entry rest ih =>
    rw [decodeMembers, List.mapM_cons, decodeMember, ih]
    cases decode entry.2 <;> rfl

theorem uniqueKeys_of_nodup {members : List (String × Data)}
    (nodup : (members.map Prod.fst).Nodup) : uniqueKeys members = members :=
  foldl_setEntry_of_nodup [] members nodup

/-! ## One check -/

@[simp] theorem encode_optionData (s : Option String) : encode (optionData s) = .ok (optionJson s) := by
  cases s <;> rfl

@[simp] theorem decode_optionJson (s : Option String) : decode (optionJson s) = .ok (optionData s) := by
  cases s <;> rfl

theorem encode_parameterData {parameter : Parameter}
    (short : ∀ n, parameter = .int n → tooLong n = false) :
    encode (parameterData parameter) = .ok (parameterJson parameter) := by
  cases parameter with
  | int n => rw [parameterData, encode, if_neg (by rw [short n rfl]; decide), parameterJson]
  | str s => rfl
  | bool b => rfl
  | none => rfl

theorem decode_parameterJson {parameter : Parameter}
    (short : ∀ n, parameter = .int n → tooLong n = false) :
    decode (parameterJson parameter) = .ok (parameterData parameter) := by
  cases parameter with
  | int n => rw [parameterJson, decode, if_neg (by rw [short n rfl]; decide), parameterData]
  | str s => rfl
  | bool b => rfl
  | none => rfl

theorem short_of_encode {parameter : Parameter} {document : Json}
    (encoded : encode (parameterData parameter) = .ok document) :
    ∀ n, parameter = .int n → tooLong n = false := by
  rintro n rfl
  rw [parameterData, encode] at encoded
  split at encoded
  · cases encoded
  · rename_i short
    simpa using short

theorem encodeMembers_parameters {check : Check} (printable : Printable check) :
    encodeMembers (parametersData check) = .ok (check.parameters.entries.map fun parameter =>
      (parameter.1, parameterJson parameter.2)) := by
  rw [encodeMembers_eq, parametersData, mapM_map]
  apply mapM_of_ok
  intro parameter listed
  rw [encodeMember, encode_parameterData (printable parameter listed)]
  rfl

theorem decodeMembers_parameters {check : Check} (printable : Printable check) :
    decodeMembers (check.parameters.entries.map fun parameter =>
      (parameter.1, parameterJson parameter.2)) = .ok (parametersData check) := by
  rw [decodeMembers_eq, mapM_map, parametersData]
  apply mapM_of_ok
  intro parameter listed
  rw [decodeMember, decode_parameterJson (printable parameter listed)]
  rfl

theorem encode_checkData {check : Check} (printable : Printable check) :
    encode (checkData check) = .ok (checkJson check) := by
  have parameters : encode (.dict (parametersData check)) =
      .ok (.obj (check.parameters.entries.map fun parameter =>
        (parameter.1, parameterJson parameter.2))) := by
    rw [encode, encodeMembers_parameters printable]
    rfl
  rw [checkData, encode, parameters, encode_optionData]
  rfl

theorem printable_of_encode {check : Check} {document : Json}
    (encoded : encode (checkData check) = .ok document) : Printable check := by
  rw [checkData, encode] at encoded
  obtain ⟨_, _, encoded⟩ := ok_of_bind encoded
  obtain ⟨_, _, encoded⟩ := ok_of_bind encoded
  obtain ⟨_, _, encoded⟩ := ok_of_bind encoded
  obtain ⟨_, parameters, _⟩ := ok_of_bind encoded
  rw [encode] at parameters
  obtain ⟨documents, members, _⟩ := ok_of_bind parameters
  rw [encodeMembers_eq, parametersData, mapM_map] at members
  intro parameter listed
  obtain ⟨entry, written⟩ := mapM_returns_iff.mp ⟨documents, members⟩ parameter listed
  rw [encodeMember] at written
  cases document : encode (parameterData parameter.2) with
  | error e =>
    rw [document] at written
    cases written
  | ok json => exact short_of_encode document

def readCheck (check : Check) (parameters : Data) : Data :=
  .check (.str check.checkId) (.str check.description) (.str (resultValue check.result))
    parameters (optionData check.componentId)

theorem decode_checkJson {check : Check} (printable : Printable check) :
    decode (checkJson check) = (fromDict (parametersData check)).map (readCheck check) := by
  have keys : ((parametersData check).map Prod.fst).Nodup := by
    rw [parametersData, List.map_map]
    exact check.parameters.nodup
  have parameters : decode (.obj (check.parameters.entries.map fun parameter =>
      (parameter.1, parameterJson parameter.2))) = fromDict (parametersData check) := by
    rw [decode, decodeMembers_parameters printable]
    exact congrArg fromDict (uniqueKeys_of_nodup keys)
  rw [checkJson, decode, decodeMembers, decode, decodeMembers, decode, decodeMembers, decode,
    decodeMembers, parameters]
  cases fromDict (parametersData check) with
  | error e => rfl
  | ok value =>
    rw [decodeMembers, decode_optionJson, decodeMembers, decode, decodeMembers]
    rfl

theorem isTag_member_iff (check : Check) :
    isTag (member "__class__" (parametersData check)) = true ↔ Tagged check := by
  have found : member "__class__" (parametersData check) =
      (check.parameters.get? "__class__").map parameterData := by
    rw [member, parametersData, List.find?_map, OrderedDict.get?, Option.map_map, Option.map_map]
    rfl
  rw [found, Tagged, ← OrderedDict.get?_eq_some_iff]
  cases check.parameters.get? "__class__" with
  | none => simp [isTag]
  | some parameter =>
    cases parameter with
    | str s => simp [parameterData, isTag]
    | int n => simp [parameterData, isTag]
    | bool b => simp [parameterData, isTag]
    | none => simp [parameterData, isTag]

theorem fromDict_eq_dict_iff (members : List (String × Data)) :
    fromDict members = .ok (.dict members) ↔ ¬ isTag (member "__class__" members) = true := by
  unfold fromDict
  split
  · rename_i tagged
    refine iff_of_false (fun read => ?_) (not_not_intro tagged)
    obtain ⟨_, _, read⟩ := ok_of_bind read
    obtain ⟨_, _, read⟩ := ok_of_bind read
    obtain ⟨_, _, read⟩ := ok_of_bind read
    obtain ⟨_, _, read⟩ := ok_of_bind read
    cases read
  · rename_i untagged
    exact iff_of_true rfl untagged

theorem decode_checkJson_iff {check : Check} (printable : Printable check) :
    decode (checkJson check) = .ok (checkData check) ↔ ¬ Tagged check := by
  rw [decode_checkJson printable, ← isTag_member_iff, ← fromDict_eq_dict_iff]
  cases fromDict (parametersData check) with
  | error e => exact iff_of_false nofun nofun
  | ok value =>
    constructor
    · intro same
      have fields := Except.ok.inj same
      rw [readCheck, checkData, Data.check.injEq] at fields
      rw [fields.2.2.2.1]
    · intro same
      rw [Except.ok.inj same]
      rfl

/-! ## All results -/

def resultsWith (appId : String) (outcome : Except String (List Check)) (diagnosis : List Data) :
    List (String × Data) :=
  [("id", .str appId), ("diagnosis", .list diagnosis), ("exception", optionData (raised outcome)),
    ("show_repair", .bool (showRepair outcome))]

def appJson (appId : String) (outcome : Except String (List Check)) : Json :=
  .obj [("id", .str appId), ("diagnosis", .arr ((checks outcome).map checkJson)),
    ("exception", optionJson (raised outcome)), ("show_repair", .bool (showRepair outcome))]

def runJson (diagnosed : Diagnosed) : Json :=
  .obj (diagnosed.entries.map fun app => (app.1, appJson app.1 app.2))

def AllPrintable (diagnosed : Diagnosed) : Prop :=
  ∀ app ∈ diagnosed.entries, ∀ check ∈ checks app.2, Printable check

theorem encode_appResults {outcome : Except String (List Check)} (appId : String)
    (printable : ∀ check ∈ checks outcome, Printable check) :
    encode (.dict (appResults appId outcome)) = .ok (appJson appId outcome) := by
  have diagnosis : encode (.list ((checks outcome).map checkData)) =
      .ok (.arr ((checks outcome).map checkJson)) := by
    rw [encode, encodeElements_eq, mapM_map]
    exact bind_of_ok (mapM_of_ok fun check listed => encode_checkData (printable check listed)) rfl
  rw [appResults, encode, encodeMembers, encode, encodeMembers, diagnosis, encodeMembers,
    encode_optionData, encodeMembers, encode, encodeMembers]
  rfl

theorem encode_runResults {diagnosed : Diagnosed} (printable : AllPrintable diagnosed) :
    encode (runResults diagnosed) = .ok (runJson diagnosed) := by
  rw [runResults, encode, encodeMembers_eq, mapM_map]
  refine bind_of_ok (mapM_of_ok fun app listed => ?_) rfl
  rw [encodeMember, encode_appResults app.1 (printable app listed)]
  rfl

theorem allPrintable_of_store {diagnosed : Diagnosed} {text : String}
    (stored : store diagnosed = .ok text) : AllPrintable diagnosed := by
  intro app listed check inChecks
  rw [store, dumps] at stored
  cases encoded : encode (runResults diagnosed) with
  | error e =>
    rw [encoded] at stored
    cases stored
  | ok document =>
    rw [runResults, encode] at encoded
    obtain ⟨documents, members, _⟩ := ok_of_bind encoded
    rw [encodeMembers_eq, mapM_map] at members
    obtain ⟨entry, written⟩ := mapM_returns_iff.mp ⟨documents, members⟩ app listed
    rw [encodeMember] at written
    cases results : encode (.dict (appResults app.1 app.2)) with
    | error e =>
      rw [results] at written
      cases written
    | ok json =>
      rw [encode, appResults, encodeMembers] at results
      obtain ⟨_, results, _⟩ := ok_of_bind results
      obtain ⟨_, _, results⟩ := ok_of_bind results
      obtain ⟨_, results, _⟩ := ok_of_bind results
      rw [encodeMembers] at results
      obtain ⟨_, diagnosis, _⟩ := ok_of_bind results
      rw [encode] at diagnosis
      obtain ⟨elements, diagnosis, _⟩ := ok_of_bind diagnosis
      rw [encodeElements_eq, mapM_map] at diagnosis
      obtain ⟨written, encodedCheck⟩ :=
        mapM_returns_iff.mp ⟨elements, diagnosis⟩ check inChecks
      exact printable_of_encode encodedCheck

theorem store_of_allPrintable {diagnosed : Diagnosed} (printable : AllPrintable diagnosed) :
    store diagnosed = .ok (Json.dumps (runJson diagnosed)) := by
  rw [store, dumps, encode_runResults printable]
  rfl

theorem fromDict_of_dict {members : List (String × Data)}
    (dicts : ∀ entry ∈ members, ∃ results, entry.2 = .dict results) :
    fromDict members = .ok (.dict members) := by
  apply (fromDict_eq_dict_iff members).mpr
  rw [member]
  cases found : members.find? (·.1 = "__class__") with
  | none => exact nofun
  | some entry =>
    obtain ⟨results, isDict⟩ := dicts entry (List.mem_of_find?_eq_some found)
    rw [Option.map_some, isDict]
    exact nofun

theorem decode_appJson (appId : String) (outcome : Except String (List Check)) :
    decode (appJson appId outcome) =
      ((checks outcome).mapM fun check => decode (checkJson check)).map fun diagnosis =>
        .dict (resultsWith appId outcome diagnosis) := by
  rw [appJson, decode, decodeMembers, decode, decodeMembers, decode, decodeElements_eq, mapM_map]
  cases (checks outcome).mapM fun check => decode (checkJson check) with
  | error e => rfl
  | ok diagnosis =>
    rw [decodeMembers, decode_optionJson, decodeMembers, decode, decodeMembers]
    rfl

def readApp (app : String × Except String (List Check)) : Except Exception (String × Data) :=
  ((checks app.2).mapM fun check => decode (checkJson check)).map fun diagnosis =>
    (app.1, .dict (resultsWith app.1 app.2 diagnosis))

theorem keys_of_readApps {l : List (String × Except String (List Check))}
    {apps : List (String × Data)} (read : l.mapM readApp = .ok apps) :
    apps.map Prod.fst = l.map Prod.fst := by
  induction l generalizing apps with
  | nil =>
    cases read
    rfl
  | cons app l ih =>
    rw [List.mapM_cons] at read
    obtain ⟨first, found, read⟩ := ok_of_bind read
    obtain ⟨rest, later, read⟩ := ok_of_bind read
    cases read
    rw [readApp] at found
    cases diagnosis : (checks app.2).mapM fun check => decode (checkJson check) with
    | error e =>
      rw [diagnosis] at found
      cases found
    | ok values =>
      rw [diagnosis] at found
      cases found
      rw [List.map_cons, List.map_cons, ih later]

theorem dicts_of_readApps {l : List (String × Except String (List Check))}
    {apps : List (String × Data)} (read : l.mapM readApp = .ok apps) :
    ∀ entry ∈ apps, ∃ results, entry.2 = .dict results := by
  intro entry listed
  obtain ⟨app, _, found⟩ := (mem_mapM_iff read entry).mp listed
  rw [readApp] at found
  cases diagnosis : (checks app.2).mapM fun check => decode (checkJson check) with
  | error e =>
    rw [diagnosis] at found
    cases found
  | ok values =>
    rw [diagnosis] at found
    cases found
    exact ⟨_, rfl⟩

theorem decode_runJson (diagnosed : Diagnosed) :
    decode (runJson diagnosed) = (diagnosed.entries.mapM readApp).map .dict := by
  have each : (fun app : String × Except String (List Check) =>
      decodeMember (app.1, appJson app.1 app.2)) = readApp := by
    funext app
    rw [decodeMember, decode_appJson, readApp]
    cases (checks app.2).mapM fun check => decode (checkJson check) <;> rfl
  rw [runJson, decode, decodeMembers_eq, mapM_map, each]
  cases read : diagnosed.entries.mapM readApp with
  | error e => rfl
  | ok apps =>
    have nodup : (apps.map Prod.fst).Nodup := keys_of_readApps read ▸ diagnosed.nodup
    change fromDict (uniqueKeys apps) = _
    rw [uniqueKeys_of_nodup nodup, fromDict_of_dict (dicts_of_readApps read)]
    rfl

/-! ## Names -/

theorem appName_returns_iff (registry : Registry) (appId : String) :
    (∃ name, appName registry appId = .ok name) ↔ Registered registry appId := by
  unfold appName Registered
  cases found : registry appId with
  | none => exact iff_of_false (fun ⟨name, named⟩ => by cases named) (by simp)
  | some app =>
    cases hasInfo : app.info with
    | none => exact iff_of_false (fun ⟨name, named⟩ => by simp [hasInfo] at named) (by simp [hasInfo])
    | some info => exact iff_of_true ⟨_, by simp [hasInfo]; rfl⟩ ⟨app, info, rfl, hasInfo⟩

theorem addName_resultsWith (registry : Registry) (appId : String)
    (outcome : Except String (List Check)) (diagnosis : List Data) :
    addName registry (appId, .dict (resultsWith appId outcome diagnosis)) =
      (appName registry appId).map fun name =>
        (appId, .dict (resultsWith appId outcome diagnosis ++ [("name", .str name)])) := by
  rw [addName]
  cases appName registry appId <;> rfl

theorem getResults_memory (registry : Registry) (results : Results) (stored : Option String) :
    getResults registry (some results) stored =
      (addNames registry results.results).map fun named => { results with results := named } := by
  change (addNames registry results.results >>= _) = _
  cases addNames registry results.results <;> rfl

theorem getResults_stored {diagnosed : Diagnosed} (registry : Registry) :
    getResults registry none (some (Json.dumps (runJson diagnosed))) =
      decode (runJson diagnosed) >>= fun data =>
        (addNames registry data).map fun named => ⟨named, 100, none⟩ := by
  have read : loads (Json.dumps (runJson diagnosed)) = decode (runJson diagnosed) := by
    rw [loads, Json.loads_dumps]
  rw [getResults, latest, Option.getD_some, read]
  cases decode (runJson diagnosed) with
  | error e => rfl
  | ok data =>
    change (addNames registry data >>= _) = (addNames registry data).map _
    cases addNames registry data <;> rfl

/-! ## Before and after a restart -/

theorem addNames_runResults {registry : Registry} {diagnosed : Diagnosed}
    (registered : ∀ app ∈ diagnosed.entries, Registered registry app.1) :
    ∃ named, addNames registry (runResults diagnosed) = .ok named := by
  have each : ∀ app ∈ diagnosed.entries, ∃ entry,
      addName registry (app.1, .dict (appResults app.1 app.2)) = .ok entry := by
    intro app listed
    obtain ⟨name, found⟩ := (appName_returns_iff registry app.1).mpr (registered app listed)
    change ∃ entry, addName registry (app.1, .dict (resultsWith app.1 app.2 _)) = .ok entry
    rw [addName_resultsWith, found]
    exact ⟨_, rfl⟩
  obtain ⟨apps, named⟩ := mapM_returns_iff.mpr each
  refine ⟨.dict apps, ?_⟩
  rw [runResults, addNames, mapM_map]
  exact bind_of_ok named rfl

theorem checks_of_named {registry : Registry} {l : List (String × Except String (List Check))}
    {apps named : List (String × Data)} (read : l.mapM readApp = .ok apps)
    (readNamed : apps.mapM (addName registry) = .ok named)
    (ownNamed : (l.mapM fun app => addName registry (app.1, .dict (appResults app.1 app.2))) =
      .ok named) :
    ∀ app ∈ l, Registered registry app.1 ∧
      ∀ check ∈ checks app.2, decode (checkJson check) = .ok (checkData check) := by
  induction l generalizing apps named with
  | nil => exact nofun
  | cons app l ih =>
    rw [List.mapM_cons] at read ownNamed
    obtain ⟨entry, first, read⟩ := ok_of_bind read
    obtain ⟨rest, later, read⟩ := ok_of_bind read
    cases read
    rw [List.mapM_cons] at readNamed
    obtain ⟨firstNamed, named₁, readNamed⟩ := ok_of_bind readNamed
    obtain ⟨restNamed, named₂, readNamed⟩ := ok_of_bind readNamed
    cases readNamed
    obtain ⟨own₁, ownFirst, ownNamed⟩ := ok_of_bind ownNamed
    obtain ⟨own₂, ownRest, ownNamed⟩ := ok_of_bind ownNamed
    obtain ⟨rfl, rfl⟩ := List.cons.inj (Except.ok.inj ownNamed)
    refine List.forall_mem_cons.mpr ⟨?_, ih later named₂ ownRest⟩
    rw [readApp] at first
    cases diagnosis : (checks app.2).mapM fun check => decode (checkJson check) with
    | error e =>
      rw [diagnosis] at first
      cases first
    | ok values =>
      rw [diagnosis] at first
      cases first
      have same := named₁.trans ownFirst.symm
      change addName registry (app.1, .dict (resultsWith app.1 app.2 values)) =
        addName registry (app.1, .dict (resultsWith app.1 app.2
          ((checks app.2).map checkData))) at same
      rw [addName_resultsWith, addName_resultsWith] at same
      rw [addName_resultsWith] at named₁
      cases found : appName registry app.1 with
      | error e =>
        rw [found] at named₁
        cases named₁
      | ok name =>
        rw [found] at same
        have equal : values = (checks app.2).map checkData := by
          simpa [Except.map, resultsWith] using same
        refine ⟨(appName_returns_iff registry app.1).mp ⟨name, found⟩, ?_⟩
        exact mapM_eq_map_iff.mp (diagnosis.trans (congrArg _ equal))

theorem all_of_survives {registry : Registry} {diagnosed : Diagnosed}
    (survives : Survives registry diagnosed) : ∀ app ∈ diagnosed.entries, Registered registry app.1 ∧
      ∀ check ∈ checks app.2, Printable check ∧ ¬ Tagged check := by
  obtain ⟨text, before, after, stored, given, given', same⟩ := survives
  have printable := allPrintable_of_store stored
  rw [store_of_allPrintable printable] at stored
  cases stored
  rw [getResults_memory] at given
  rw [getResults_stored, decode_runJson] at given'
  cases read : diagnosed.entries.mapM readApp with
  | error e =>
    rw [read] at given'
    cases given'
  | ok apps =>
    rw [read] at given'
    have own : addNames registry (current diagnosed).results =
        (diagnosed.entries.mapM fun app =>
          addName registry (app.1, .dict (appResults app.1 app.2))) >>= fun named =>
            pure (.dict named) := by
      rw [current, runResults, addNames, mapM_map]
    have readBack : addNames registry (.dict apps) =
        apps.mapM (addName registry) >>= fun named => pure (.dict named) := by
      rw [addNames]
    rw [own] at given
    change (addNames registry (.dict apps)).map _ = _ at given'
    rw [readBack] at given'
    cases ownNamed : diagnosed.entries.mapM fun app =>
        addName registry (app.1, .dict (appResults app.1 app.2)) with
    | error e =>
      rw [ownNamed] at given
      cases given
    | ok named =>
      cases readNamed : apps.mapM (addName registry) with
      | error e =>
        rw [readNamed] at given'
        cases given'
      | ok named' =>
        rw [ownNamed] at given
        rw [readNamed] at given'
        cases given
        cases given'
        have equal : named' = named := Data.dict.inj same
        rw [← equal] at ownNamed
        intro app listed
        obtain ⟨registered, same⟩ := checks_of_named read readNamed ownNamed app listed
        refine ⟨registered, fun check inChecks => ?_⟩
        have short := printable app listed check inChecks
        exact ⟨short, (decode_checkJson_iff short).mp (same check inChecks)⟩

/-- The results are the same after a restart exactly if the apps are still registered, the integers
can be printed, and no parameters are taken for a check. -/
theorem results_survive_iff (registry : Registry) (diagnosed : Diagnosed) :
    Survives registry diagnosed ↔ ∀ app ∈ diagnosed.entries, Registered registry app.1 ∧
      ∀ check ∈ checks app.2, Printable check ∧ ¬ Tagged check := by
  constructor
  · exact all_of_survives
  · intro all
    have printable : AllPrintable diagnosed :=
      fun app listed check inChecks => ((all app listed).2 check inChecks).1
    have read : decode (runJson diagnosed) = .ok (runResults diagnosed) := by
      have each : diagnosed.entries.mapM readApp = .ok (diagnosed.entries.map fun app =>
          (app.1, .dict (appResults app.1 app.2))) := by
        apply mapM_of_ok
        intro app listed
        have same : ((checks app.2).mapM fun check => decode (checkJson check)) =
            .ok ((checks app.2).map checkData) := by
          apply mapM_of_ok
          intro check inChecks
          obtain ⟨short, untagged⟩ := (all app listed).2 check inChecks
          exact (decode_checkJson_iff short).mpr untagged
        rw [readApp, same]
        rfl
      rw [decode_runJson, each]
      rfl
    obtain ⟨named, found⟩ := addNames_runResults fun app listed => (all app listed).1
    refine ⟨_, { current diagnosed with results := named }, ⟨named, 100, none⟩,
      store_of_allPrintable printable, ?_, ?_, rfl⟩
    · rw [getResults_memory, current, found]
      rfl
    · rw [getResults_stored]
      refine bind_of_ok read ?_
      rw [found]
      rfl

def taggedCheck : Check where
  checkId := "check"
  description := "description"
  result := .passed
  parameters := ⟨[("__class__", .str "DiagnosticCheck")], by simp⟩
  componentId := none

def taggedRun : Diagnosed :=
  ⟨[("app", .ok [taggedCheck])], by simp⟩

def oneApp : Registry := fun _ => some ⟨some ⟨some "App"⟩⟩

theorem tagged_run_lost : ¬ Survives oneApp taggedRun := by
  intro survives
  have untagged := ((all_of_survives survives _ List.mem_cons_self).2 taggedCheck
    List.mem_cons_self).2
  exact untagged List.mem_cons_self

end Plinth.Diagnostics
