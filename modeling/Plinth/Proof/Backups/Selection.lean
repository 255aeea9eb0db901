import Plinth.Model.Backups.Selection

/-! # The apps of a scheduled backup -/

namespace Plinth.Backups

open Effect

def Schedule.selectedComponents (self : Schedule) (apps : Apps) : List BackupRestore :=
  (getAllComponentsForBackup apps).filter (·.appId ∉ self.unselectedApps)

/-! ## Finding the components -/

theorem componentForBackup_eq_some {app : InstalledApp} {component : BackupRestore}
    (found : componentForBackup app = some component) :
    getBackupRestoreComponent app = .ok component := by
  unfold componentForBackup at found
  split at found
  · cases found
  · split at found
    · rename_i same
      cases found
      exact same
    · cases found

theorem appId_of_found {app : InstalledApp} {component : BackupRestore}
    (found : getBackupRestoreComponent app = .ok component) : component.appId = app.appId := by
  unfold getBackupRestoreComponent at found
  split at found
  · rename_i first searched
    cases found
    obtain ⟨entry, member, read⟩ := List.exists_of_findSome?_eq_some searched
    cases entry with
    | backupRestore component =>
      cases read
      exact app.own _ member
    | other => cases read
  · cases found

theorem mem_selectedAppIds {self : Schedule} {apps : Apps} {appId : String} :
    appId ∈ self.selectedAppIds apps ↔
      ∃ component ∈ getAllComponentsForBackup apps,
        component.appId = appId ∧ appId ∉ self.unselectedApps := by
  simp only [Schedule.selectedAppIds, List.mem_filter, List.mem_map, decide_eq_true_eq]
  constructor
  · rintro ⟨⟨component, member, same⟩, selected⟩
    exact ⟨component, member, same, selected⟩
  · rintro ⟨component, member, same, selected⟩
    exact ⟨⟨component, member, same⟩, selected⟩

theorem componentsInOrder_eq (wanted : String → Prop) [DecidablePred wanted]
    (list : List InstalledApp) (nodup : (list.map (·.appId)).Nodup) (appIds : List String)
    (selected : ∀ app ∈ list, app.appId ∈ appIds ↔
      ∃ component, componentForBackup app = some component ∧ wanted component.appId) :
    (list.filter (·.appId ∈ appIds)).mapM getBackupRestoreComponent =
      .ok ((list.filterMap componentForBackup).filter fun component => wanted component.appId) := by
  induction list with
  | nil => rfl
  | cons app list ih =>
    have rest := ih (List.nodup_cons.mp nodup).2
      fun other member => selected other (List.mem_cons_of_mem _ member)
    have here := selected app List.mem_cons_self
    by_cases member : app.appId ∈ appIds
    · obtain ⟨component, found, isWanted⟩ := here.mp member
      rw [List.filter_cons_of_pos (by simpa using member), List.mapM_cons,
        List.filterMap_cons_some found, List.filter_cons_of_pos (by simpa using isWanted)]
      apply bind_of_ok (componentForBackup_eq_some found)
      exact bind_of_ok rest rfl
    · rw [List.filter_cons_of_neg (by simpa using member), rest]
      cases found : componentForBackup app with
      | none => rw [List.filterMap_cons_none found]
      | some component =>
        have unwanted : ¬ wanted component.appId :=
          fun isWanted => member (here.mpr ⟨component, found, isWanted⟩)
        rw [List.filterMap_cons_some found, List.filter_cons_of_neg (by simpa using unwanted)]

theorem appId_inj {apps : Apps} {app app' : InstalledApp} (member : app ∈ apps.list)
    (member' : app' ∈ apps.list) (same : app.appId = app'.appId) : app = app' :=
  List.inj_on_of_nodup_map apps.nodup member member' same

theorem getComponentsInOrder_selected (self : Schedule) (apps : Apps) :
    getComponentsInOrder apps (self.selectedAppIds apps) = .ok (self.selectedComponents apps) := by
  apply componentsInOrder_eq (fun appId => appId ∉ self.unselectedApps) apps.list apps.nodup
  intro app member
  rw [mem_selectedAppIds]
  constructor
  · rintro ⟨component, listed, same, selected⟩
    obtain ⟨other, member', found⟩ := List.mem_filterMap.mp listed
    have owner := appId_of_found (componentForBackup_eq_some found)
    obtain rfl : other = app := appId_inj member' member (owner.symm.trans same)
    exact ⟨component, found, same ▸ selected⟩
  · rintro ⟨component, found, selected⟩
    have owner := appId_of_found (componentForBackup_eq_some found)
    exact ⟨component, List.mem_filterMap.mpr ⟨app, member, found⟩, owner, owner ▸ selected⟩

theorem selectedAppIds_eq_nil_iff (self : Schedule) (apps : Apps) :
    self.selectedAppIds apps = [] ↔ self.selectedComponents apps = [] := by
  rw [Schedule.selectedAppIds, Schedule.selectedComponents, List.filter_map, List.map_eq_nil_iff]
  rfl

theorem componentsOf_scheduled (self : Schedule) (apps : Apps) :
    componentsOf apps (some (self.selectedAppIds apps)) =
      .ok (if self.selectedComponents apps = [] then getAllComponentsForBackup apps
        else self.selectedComponents apps) := by
  cases ids : self.selectedAppIds apps with
  | nil =>
    rw [if_pos ((selectedAppIds_eq_nil_iff self apps).mp ids)]
    rfl
  | cons appId rest =>
    have some : self.selectedComponents apps ≠ [] := by
      rw [Ne, ← selectedAppIds_eq_nil_iff, ids]
      exact List.cons_ne_nil appId rest
    rw [if_neg some, ← getComponentsInOrder_selected, ids]
    rfl

theorem createScheduledArchive_eq (self : Schedule) (env : Environment) (apps : Apps)
    (target : Target) (name comment : String) :
    self.createScheduledArchive env apps target name comment =
      backupApps env (if self.selectedComponents apps = [] then getAllComponentsForBackup apps
        else self.selectedComponents apps) (some (target.getArchivePath name))
        target.encryptionPassphrase (some comment) := by
  unfold Schedule.createScheduledArchive Target.createArchive backupSelectedApps
  rw [componentsOf_scheduled]
  rfl

/-! ## What can be seen of the components -/

def refusing : Environment where
  fault _ := none
  runSetup _ s := (none, s)
  hook _ _ _ s := (none, s)
  handler packet _ s := (if packet.components = [] then none else some "refused", s)

theorem runHooks_refusing (hook : String) (components : List BackupRestore) (packet : Packet)
    (s : System) : (runHooks refusing hook components packet).exec s = (.ok packet, s) := by
  unfold runHooks
  induction components with
  | nil => rfl
  | cons component rest ih =>
    rw [List.foldlM_cons, exec_bind]
    exact ih

theorem runOperation_refusing {packet : Packet} (some : packet.components ≠ [])
    (passphrase : Option String) (s : System) :
    (runOperation refusing packet passphrase).exec s = (.error (.handler "refused"), s) := by
  have refused : (refusing.handler packet passphrase s).1 = .some "refused" := if_neg some
  unfold runOperation
  rw [exec_bind, runHooks_refusing]
  dsimp only
  rw [exec_bind, foreign, exec_bind, exec_get]
  dsimp only
  rw [refused]
  rfl

theorem backupApps_refusing {components : List BackupRestore} (some : components ≠ [])
    (path passphrase comment : Option String) (s : System) :
    ((backupApps refusing components path passphrase comment).exec s).1 ≠ .ok () := by
  intro returned
  have ran : (backupApps refusing components path passphrase comment).exec s =
      (.ok (), ((backupApps refusing components path passphrase comment).exec s).2) :=
    Prod.ext returned rfl
  obtain ⟨_, s₁, -, ran⟩ := returns_of_bind ran
  obtain ⟨originalState, s₂, -, ran⟩ := returns_of_bind ran
  rw [exec_tryFinally, runOperation_refusing some] at ran
  dsimp only at ran
  split at ran <;> cases ran

/-- A scheduled backup. What it does is to back up the selected apps, in every environment and
from every state, exactly when an app is selected or there is nothing to back up at all. -/
theorem scheduled_backup_iff (self : Schedule) (apps : Apps) (target : Target)
    (name comment : String) :
    (∀ env s, (self.createScheduledArchive env apps target name comment).exec s =
      (backupApps env (self.selectedComponents apps) (some (target.getArchivePath name))
        target.encryptionPassphrase (some comment)).exec s) ↔
    (∃ component ∈ getAllComponentsForBackup apps, component.appId ∉ self.unselectedApps) ∨
      getAllComponentsForBackup apps = [] := by
  have none_iff : self.selectedComponents apps = [] ↔
      ¬ ∃ component ∈ getAllComponentsForBackup apps, component.appId ∉ self.unselectedApps := by
    simp [Schedule.selectedComponents, List.filter_eq_nil_iff]
  constructor
  · intro same
    by_cases selected : self.selectedComponents apps = []
    · refine .inr ?_
      by_contra some
      have differs := same refusing ⟨fun _ => false, fun _ => false⟩
      rw [createScheduledArchive_eq, if_pos selected, selected] at differs
      apply backupApps_refusing some _ _ _ _ (congrArg Prod.fst differs)
    · rw [none_iff, not_not] at selected
      exact .inl selected
  · intro condition env s
    rw [createScheduledArchive_eq]
    split
    · rename_i selected
      obtain some | empty := condition
      · exact absurd some (none_iff.mp selected)
      · rw [selected, empty]
    · rfl

def oneApp : Apps where
  list := [{
    appId := "wiki"
    needsSetup := false
    components := [.backupRestore ⟨"wiki", ⟨[], []⟩, ⟨["/var/lib/wiki"], []⟩, ⟨[], []⟩, [], []⟩]
    own := by simp }]
  nodup := by simp

def unselecting : Schedule := ⟨"root", true, 5, 3, 3, 2, ["wiki"]⟩

theorem unselected_app_is_backed_up :
    ¬ ∀ (self : Schedule) (apps : Apps) (target : Target) (name comment : String) env s,
      (self.createScheduledArchive env apps target name comment).exec s =
        (backupApps env (self.selectedComponents apps) (some (target.getArchivePath name))
          target.encryptionPassphrase (some comment)).exec s := by
  intro all
  have selected : unselecting.selectedComponents oneApp = [] := rfl
  have same := all unselecting oneApp ⟨"/var/lib/freedombox/borgbackup", none⟩ "scheduled" ""
    refusing ⟨fun _ => false, fun _ => false⟩
  rw [createScheduledArchive_eq, if_pos selected, selected] at same
  have some : getAllComponentsForBackup oneApp ≠ [] := List.cons_ne_nil _ _
  exact backupApps_refusing some _ _ _ _ (congrArg Prod.fst same)

end Plinth.Backups
