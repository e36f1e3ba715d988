import LinkShortener.Roles.Passes

/-!
# Loads

* `loadFromYaml_eq_ok`, `loadFile_eq_ok`: when a load returns.
* `LoadDone`, `load_done`: what holds after one that did. `LoadDone.untouched`: what it kept of the rows that were there.
* `loadFile_error`: what one that did not return leaves.
-/

namespace LinkShortener.Roles

open Upserts

/-! ## A load that returns -/

namespace Document

variable (doc : Document)

/-- The entries of the section on permissions, if there are any. -/
def permissionDefs : List PermissionDef := (doc.permissions.getD none).getD []

def roleDefs : List RoleDef := (doc.roles.getD none).getD []

/-- A document whose sections are lists that name no name twice. -/
structure Proper : Prop where
  permissions : doc.permissions ≠ some none
  roles : doc.roles ≠ some none
  permissionNames : (doc.permissionDefs.map (·.name)).Nodup
  roleNames : (doc.roleDefs.map (·.name)).Nodup

end Document

section Loads

theorem firstRepeated_eq_none {seen names : List String} :
    firstRepeated seen names = none ↔ names.Nodup ∧ ∀ n ∈ names, n ∉ seen := by
  induction names generalizing seen with
  | nil => simp [firstRepeated]
  | cons name names ih =>
    unfold firstRepeated
    split
    · rename_i hseen
      simp [hseen]
    · rename_i hseen
      rw [ih, List.nodup_cons, List.forall_mem_cons]
      constructor
      · rintro ⟨hnodup, hnew⟩
        refine ⟨⟨fun hmem => hnew name hmem List.mem_cons_self, hnodup⟩, hseen, ?_⟩
        exact fun n hn hmem => hnew n hn (List.mem_cons_of_mem _ hmem)
      · rintro ⟨⟨hname, hnodup⟩, -, hnew⟩
        refine ⟨hnodup, fun n hn hmem => ?_⟩
        rcases List.mem_cons.mp hmem with rfl | hmem
        · exact hname hn
        · exact hnew n hn hmem

theorem refuseDuplicateNames_eq_ok {doc : Document} : refuseDuplicateNames doc = .ok () ↔
    (doc.permissionDefs.map (·.name)).Nodup ∧ (doc.roleDefs.map (·.name)).Nodup := by
  have hnone : ∀ {names : List String}, firstRepeated [] names = none ↔ names.Nodup := by
    intro names
    simp [firstRepeated_eq_none]
  rw [← hnone, ← hnone]
  unfold refuseDuplicateNames Document.permissionDefs Document.roleDefs
  split
  · rename_i name hname
    simp [hname]
  · rename_i hname
    split
    · rename_i name hrole
      simp [hrole]
    · rename_i hrole
      simp [hname, hrole]

/-- A section that is missing is an empty one; one that is null is none. -/
theorem getD_some_nil {α : Type} {entry : Entry (List α)} {entries : List α} :
    entry.getD (some []) = some entries ↔ entry ≠ some none ∧ entries = (entry.getD none).getD [] := by
  rcases entry with - | - | given
  · simp [eq_comm]
  · simp
  · simp [eq_comm]

variable {draw : Nat → String} {upd : Bool} {schema : Schema} {doc : Document} {s s' : Session}

theorem flush_eq_ok : s.flush schema = .ok s' ↔ Sound schema s.pending ∧ s' = .clean s.committed s.pending s.drawn := by
  unfold Session.flush
  split
  · rename_i hsound
    simp [hsound, eq_comm]
  · rename_i hsound
    simp [hsound]

theorem commit_eq_ok : s.commit schema = .ok s' ↔ Sound schema s.pending ∧ s' = .clean s.pending s.pending s.drawn := by
  unfold Session.commit Session.flush
  split
  · rename_i e he
    split at he
    · cases he
    · rename_i hsound
      simp [hsound]
  · rename_i s₁ hs₁
    split at hs₁
    · rename_i hsound
      cases hs₁
      simp [hsound, eq_comm, Session.clean]
    · cases hs₁

/-- **When a load returns.** -/
theorem loadFromYaml_eq_ok {summary : LoadSummary} : loadFromYaml draw upd schema doc s = .ok (summary, s') ↔
    doc.Proper ∧ ∃ p, doc.permissionDefs.foldl (upsertPermission draw upd) ⟨s, .empty⟩ = p ∧
      Sound schema p.session.pending ∧
      upsertRoles draw upd ⟨.clean p.session.committed p.session.pending p.session.drawn, p.summary⟩ doc.roleDefs =
        .ok ⟨s', summary⟩ := by
  constructor
  · intro h
    unfold loadFromYaml at h
    split at h
    · cases h
    · rename_i hduplicates
      obtain ⟨hpermissionNames, hroleNames⟩ := refuseDuplicateNames_eq_ok.mp hduplicates
      split at h
      · cases h
      · rename_i permissionDefs hsection
        obtain ⟨hpermissions, rfl⟩ := getD_some_nil.mp hsection
        dsimp only at h
        split at h
        · cases h
        · rename_i s₁ hflush
          obtain ⟨hsound, rfl⟩ := flush_eq_ok.mp hflush
          split at h
          · cases h
          · rename_i roleDefs hsection
            obtain ⟨hroles, rfl⟩ := getD_some_nil.mp hsection
            split at h
            · cases h
            · rename_i p' hp'
              cases h
              exact ⟨⟨hpermissions, hroles, hpermissionNames, hroleNames⟩, _, rfl, hsound, hp'⟩
  · rintro ⟨hproper, p, rfl, hsound, hroles⟩
    have hflush := flush_eq_ok.mpr ⟨hsound, rfl⟩
    unfold loadFromYaml
    rw [refuseDuplicateNames_eq_ok.mpr ⟨hproper.permissionNames, hproper.roleNames⟩]
    dsimp only
    rw [getD_some_nil.mpr ⟨hproper.permissions, rfl⟩]
    dsimp only
    rw [show (doc.permissions.getD none).getD [] = doc.permissionDefs from rfl, hflush]
    dsimp only
    rw [getD_some_nil.mpr ⟨hproper.roles, rfl⟩]
    dsimp only
    rw [show (doc.roles.getD none).getD [] = doc.roleDefs from rfl, hroles]

end Loads

/-- The permissions of a document leave the roles as they were. -/
theorem PermissionsDone.pending_roles {draw : Nat → String} {upd : Bool} {t : Tables} {n : Nat} {s : Session}
    {defs ds : List PermissionDef} (h : PermissionsDone draw upd defs (.clean t t n) ds s) :
    s.pending.roles = t.roles := by
  show s.objects.roles ++ s.newRoles = t.roles
  rw [h.roles, h.newRoles, List.append_nil]
  rfl

/-- **What holds after a load that returned.** `s₀` is the session before its flush, `s` the one it leaves. -/
structure LoadDone (draw : Nat → String) (upd : Bool) (schema : Schema) (doc : Document) (t : Tables) (n : Nat)
    (s₀ s : Session) : Prop where
  proper : doc.Proper
  permissions : PermissionsDone draw upd doc.permissionDefs (.clean t t n) doc.permissionDefs s₀
  sound : Sound schema s₀.pending
  roles : RolesDone draw upd (.clean t s₀.pending s₀.drawn) doc.roleDefs s

section Done

variable {draw : Nat → String} {upd : Bool} {schema : Schema} {doc : Document} {t : Tables} {n : Nat} {s₀ s : Session}

variable (draw upd n) in
/-- The permissions of a document, from its first to its last. -/
theorem permissions_all (ht : Sound schema t) (hproper : doc.Proper) :
    PermissionsDone draw upd doc.permissionDefs (.clean t t n) doc.permissionDefs
      (doc.permissionDefs.foldl (upsertPermission draw upd) ⟨.clean t t n, .empty⟩).session := by
  have hstart : PermissionsDone draw upd doc.permissionDefs (.clean t t n) [] (Pass.mk (.clean t t n) .empty).session :=
    ⟨done_nil t.permissions n, rfl, rfl, rfl, rfl⟩
  exact permissions_done (.clean t t n) ht.permissionIds hstart (fun _ hd => hd) hproper.permissionNames

/-- The roles of a document, from its first to its last. -/
theorem roles_all (ht : Sound schema t) (hproper : doc.Proper) {committed : Tables} {summary summary' : LoadSummary}
    (hok : upsertRoles draw upd ⟨.clean committed t n, summary⟩ doc.roleDefs = .ok ⟨s, summary'⟩) :
    RolesDone draw upd (.clean committed t n) doc.roleDefs s := by
  have hstart : RolesDone draw upd (.clean committed t n) [] (.clean committed t n) :=
    ⟨done_nil t.roles n, by rintro _ ⟨⟩, rfl, rfl, rfl, rfl⟩
  exact roles_done (.clean committed t n) ht hstart hproper.roleNames hok

theorem load_done (ht : Sound schema t) {summary : LoadSummary}
    (h : loadFromYaml draw upd schema doc (.clean t t n) = .ok (summary, s)) :
    ∃ s₀, LoadDone draw upd schema doc t n s₀ s := by
  obtain ⟨hproper, p, rfl, hsound, hok⟩ := loadFromYaml_eq_ok.mp h
  have hpermissions := permissions_all draw upd n ht hproper
  rw [hpermissions.committed] at hok
  exact ⟨_, hproper, hpermissions, hsound, roles_all hsound hproper hok⟩

variable (h : LoadDone draw upd schema doc t n s₀ s)
include h

theorem LoadDone.pending_permissions : s.pending.permissions = s₀.pending.permissions := by
  show s.objects.permissions ++ s.newPermissions = _
  rw [h.roles.permissions, h.roles.newPermissions, List.append_nil]
  rfl

/-- Everything is loaded. -/
theorem LoadDone.loaded : Loaded upd doc.permissionDefs doc.roleDefs s.pending where
  permissions := h.pending_permissions ▸ h.permissions.done.settled
  roles := fun d hd => ⟨h.roles.checked d hd, h.pending_permissions ▸ h.roles.done.settled d hd⟩

/-- A load that may not update leaves permissions alone, and roles but for their being system roles. -/
theorem LoadDone.untouched (hupd : upd = false) : (∀ p ∈ t.permissions, p ∈ s.pending.permissions) ∧
    ∀ r ∈ t.roles, ∃ r' ∈ s.pending.roles, r.Untouched r' := by
  subst hupd
  constructor
  · intro p hp
    obtain ⟨p', hp', hkept⟩ := exists_right_of_mem h.permissions.done.kept hp
    rw [h.pending_permissions, ← hkept.eq]
    exact List.mem_append_left _ hp'
  · intro r hr
    have hstart : r ∈ s₀.pending.roles := h.permissions.pending_roles.symm ▸ hr
    obtain ⟨r', hr', hkept⟩ := exists_right_of_mem h.roles.done.kept hstart
    exact ⟨r', List.mem_append_left _ hr', hkept.untouched⟩

end Done

/-! ## A load that is refused -/

section Refused

variable (draw : Nat → String) (upd : Bool) (schema : Schema)

/-- The session that a step leaves, whether it raised or not. -/
def sessionLeft {α : Type} (session : α → Session) : Except (LoadError × Session) α → Session
  | .error (_, s) => s
  | .ok a => session a

theorem regrant_committed (p : Pass) (d : RoleDef) (row : RoleModel) :
    (sessionLeft Pass.session (regrant p d row)).committed = p.session.committed := by
  unfold regrant
  dsimp only
  split
  · rfl
  · rfl

/-- Nothing is committed on the way. -/
theorem upsertRole_committed (p : Pass) (d : RoleDef) :
    (sessionLeft Pass.session (upsertRole draw upd p d)).committed = p.session.committed := by
  unfold upsertRole
  split
  · rfl
  · split
    · rfl
    · split
      · split
        · exact regrant_committed _ _ _
        · split
          · rfl
          · rfl
      · dsimp only
        split
        · rfl
        · rfl

theorem upsertRoles_committed (p : Pass) (defs : List RoleDef) :
    (sessionLeft Pass.session (upsertRoles draw upd p defs)).committed = p.session.committed := by
  induction defs generalizing p with
  | nil => rfl
  | cons d defs ih =>
    have hstep := upsertRole_committed draw upd p d
    unfold upsertRoles
    split
    · rename_i e he
      rwa [he] at hstep
    · rename_i p₁ hp₁
      rw [hp₁] at hstep
      exact (ih p₁).trans hstep

theorem upsertPermissions_committed (p : Pass) (defs : List PermissionDef) :
    (defs.foldl (upsertPermission draw upd) p).session.committed = p.session.committed := by
  induction defs generalizing p with
  | nil => rfl
  | cons d defs ih =>
    rw [List.foldl_cons, ih]
    exact (upsertPermission_frame draw upd p d).1

theorem flush_committed (s : Session) : (sessionLeft id (s.flush schema)).committed = s.committed := by
  unfold Session.flush
  split
  · rfl
  · rfl

/-- **A load commits nothing**, whether it raises or not. -/
theorem loadFromYaml_committed (doc : Document) (s : Session) :
    (sessionLeft Prod.snd (loadFromYaml draw upd schema doc s)).committed = s.committed := by
  unfold loadFromYaml
  split
  · rfl
  · split
    · rfl
    · rename_i permissionDefs _
      have hpermissions := upsertPermissions_committed draw upd ⟨s, .empty⟩ permissionDefs
      have hflush := flush_committed schema (permissionDefs.foldl (upsertPermission draw upd) ⟨s, .empty⟩).session
      dsimp only
      split
      · rename_i e he
        rw [he] at hflush
        exact hflush.trans hpermissions
      · rename_i s₁ hs₁
        rw [hs₁] at hflush
        have hs : s₁.committed = s.committed := hflush.trans hpermissions
        split
        · exact hs
        · rename_i roleDefs _
          have hroles := upsertRoles_committed draw upd
            ⟨s₁, (permissionDefs.foldl (upsertPermission draw upd) ⟨s, .empty⟩).summary⟩ roleDefs
          split
          · rename_i e he
            rw [he] at hroles
            exact hroles.trans hs
          · rename_i p hp
            rw [hp] at hroles
            exact hroles.trans hs

end Refused

/-! ## Files -/

section Files

variable {draw : Nat → String} {upd : Bool} {schema : Schema} {doc : Document} {t t' : Tables} {n : Nat}

theorem loadFile_eq_ok {summary : LoadSummary} : loadFile draw upd schema doc t n = (t', .ok summary) ↔
    ∃ s, loadFromYaml draw upd schema doc (.clean t t n) = .ok (summary, s) ∧ Sound schema s.pending ∧
      t' = s.pending := by
  unfold loadFile
  split
  · rename_i e s he
    simp [he]
  · rename_i summary' s hload
    rw [hload]
    split
    · rename_i e s' he
      simp only [Prod.mk.injEq, Except.ok.injEq, reduceCtorEq, and_false, false_iff]
      rintro ⟨s₁, ⟨-, rfl⟩, hsound, -⟩
      rw [commit_eq_ok.mpr ⟨hsound, rfl⟩] at he
      cases he
    · rename_i s' hcommit
      obtain ⟨hsound, rfl⟩ := commit_eq_ok.mp hcommit
      constructor
      · rintro ⟨⟩
        exact ⟨s, rfl, hsound, rfl⟩
      · rintro ⟨s₁, hs₁, -, rfl⟩
        cases hs₁
        rfl

/-- A commit that is refused does nothing. -/
theorem commit_error {s s' : Session} {e : LoadError} (h : s.commit schema = .error (e, s')) : s' = s := by
  unfold Session.commit Session.flush at h
  split at h
  · rename_i e' he
    split at he
    · cases he
    · cases he
      cases h
      rfl
  · cases h

/-- **A file that is refused leaves the tables as they were.** -/
theorem loadFile_error {e : LoadError} (h : (loadFile draw upd schema doc t n).2 = .error e) :
    (loadFile draw upd schema doc t n).1 = t := by
  have hcommitted := loadFromYaml_committed draw upd schema doc (.clean t t n)
  unfold loadFile at h ⊢
  cases hload : loadFromYaml draw upd schema doc (.clean t t n) with
  | error raised =>
    rwa [hload] at hcommitted
  | ok loaded =>
    obtain ⟨summary, s⟩ := loaded
    rw [hload] at hcommitted h
    cases hcommit : s.commit schema with
    | error raised =>
      dsimp only
      rw [hcommit]
      exact (congrArg Session.committed (commit_error hcommit)).trans hcommitted
    | ok s₁ =>
      dsimp only at h
      rw [hcommit] at h
      cases h

end Files

end LinkShortener.Roles
