import LinkShortener.Roles.Loads

/-!
# Loading a file twice is loading it once

* `upsertPermissions_loaded`, `upsertRoles_loaded`: where everything is loaded, a pass changes nothing and has nothing to
  report but the roles it left alone. `load_again`: neither has a load.
* `Document.Valid`, `Uuids`: a document that loads, and the identifiers it takes. `load_valid`: it does load.
* `load_is_idempotent`: the result.
-/

namespace LinkShortener.Roles

open Upserts

/-! ## A pass over what is loaded -/

section Again

variable {draw : Nat → String} {upd : Bool} {schema : Schema}

theorem upsertPermission_loaded {p : Pass} {d : PermissionDef}
    (hsame : p.session.objects.permissions = p.session.flushed.permissions)
    (hids : (p.session.flushed.permissions.map (·.id)).Nodup)
    (hnames : (p.session.flushed.permissions.map (·.name)).Nodup)
    (h : ∃ row ∈ p.session.flushed.permissions, d.Settled upd row) : upsertPermission draw upd p d = p := by
  obtain ⟨row, hrow, hsettled⟩ := h
  unfold upsertPermission
  rw [find?_name hnames hrow hsettled.name]
  cases upd with
  | false => rfl
  | true =>
    have hrows : modify (·.id) row.id d.assign p.session.objects.permissions = p.session.objects.permissions := by
      rw [hsame]
      exact map_modify_eq_self hids hrow (hsettled.assigned rfl)
    simp only [if_true, Session.modifyPermission, hrows]

theorem upsertPermissions_loaded {s : Session} {summary : LoadSummary} {defs : List PermissionDef}
    (hsame : s.objects.permissions = s.flushed.permissions) (hids : (s.flushed.permissions.map (·.id)).Nodup)
    (hnames : (s.flushed.permissions.map (·.name)).Nodup)
    (h : ∀ d ∈ defs, ∃ row ∈ s.flushed.permissions, d.Settled upd row) :
    defs.foldl (upsertPermission draw upd) ⟨s, summary⟩ = ⟨s, summary⟩ := by
  induction defs with
  | nil => rfl
  | cons d defs ih =>
    rw [List.foldl_cons, upsertPermission_loaded hsame hids hnames (h d List.mem_cons_self)]
    exact ih fun d' hd' => h d' (List.mem_cons_of_mem _ hd')

variable {committed t : Tables} {drawn : Nat}

theorem roleOf_clean (ht : Sound schema t) {row : RoleModel} (hrow : row ∈ t.roles) :
    (Session.clean committed t drawn).roleOf row = row := by
  have hfind : t.roles.find? (fun r => decide (r.id = row.id)) = some row := find?_name ht.roleIds hrow rfl
  simp only [Session.roleOf, Session.clean, hfind, Option.getD_some]

theorem modifyRole_clean (ht : Sound schema t) {row : RoleModel} (hrow : row ∈ t.roles) {f : RoleModel → RoleModel}
    (hf : f row = row) : (Session.clean committed t drawn).modifyRole row.id f = .clean committed t drawn := by
  have hrows : modify (·.id) row.id f t.roles = t.roles := map_modify_eq_self ht.roleIds hrow hf
  simp only [Session.modifyRole, Session.clean, hrows]

/-- What a role is to grant it grants: nothing is replaced, and nothing is reported. -/
theorem regrant_loaded (ht : Sound schema t) {d : RoleDef} {row : RoleModel} (hrow : row ∈ t.roles)
    (h : d.Settled true t.permissions row) (summary : LoadSummary) :
    regrant ⟨.clean committed t drawn, summary⟩ d row = .ok ⟨.clean committed t drawn, summary⟩ := by
  obtain ⟨names, hnames, hknown, hgrants⟩ := h.grants rfl
  have hfound : findPermissions t (d.permissions.getD (some [])) =
      .ok (t.permissions.filter fun p => decide (p.name ∈ names)) :=
    findPermissions_eq_ok.mpr ⟨names, hnames, hknown, rfl⟩
  have hsame : (t.permissions.filter fun p => decide (p.id ∈ row.permissions)) =
      t.permissions.filter fun p => decide (p.name ∈ names) := by
    apply List.filter_congr
    intro p hp
    rw [decide_eq_decide]
    exact hgrants p hp
  have hkeeps : row.setPermissions ((t.permissions.filter fun p => decide (p.name ∈ names)).map (·.id)) = row := by
    apply RoleModel.setPermissions_eq_self
    intro id
    rw [← hsame, List.mem_map]
    constructor
    · intro hid
      obtain ⟨p, hp, rfl⟩ := List.mem_map.mp ((ht.grants row hrow).2 id hid)
      exact ⟨p, List.mem_filter.mpr ⟨hp, decide_eq_true hid⟩, rfl⟩
    · rintro ⟨p, hp, rfl⟩
      exact of_decide_eq_true (List.mem_filter.mp hp).2
  unfold regrant
  simp only [roleOf_clean ht hrow]
  have hflushed : (Session.clean committed t drawn).flushed = t := rfl
  have hgranted : (Session.clean committed t drawn).grantedBy row =
      ((t.permissions.filter fun p => decide (p.name ∈ names)).map (·.name)).insertionSort (· ≤ ·) := by
    rw [← hsame]
    rfl
  have hsession : ((Session.clean committed t drawn).modifyRole row.id fun r =>
      r.setPermissions ((t.permissions.filter fun p => decide (p.name ∈ names)).map (·.id))) = .clean committed t drawn :=
    modifyRole_clean ht hrow hkeeps
  rw [hflushed, hfound, hgranted]
  simp only [hsession, ne_eq, not_true_eq_false, if_false]

variable (draw committed drawn)

/-- The roles a pass leaves alone are all it reports of roles that are loaded. -/
theorem upsertRole_loaded (ht : Sound schema t) {d : RoleDef} (hchecked : d.Checked)
    (h : ∃ r ∈ t.roles, d.Settled upd t.permissions r) (summary : LoadSummary) :
    ∃ left, upsertRole draw upd ⟨.clean committed t drawn, summary⟩ d =
      .ok ⟨.clean committed t drawn, { summary with rolesLeftAlone := left }⟩ := by
  obtain ⟨row, hrow, hsettled⟩ := h
  have hfind : (Session.clean committed t drawn).flushed.roles.find? (fun r => decide (r.name = d.name)) = some row :=
    find?_name ht.roleNames hrow hsettled.name
  unfold upsertRole
  simp only [hchecked.name, hchecked.description, hfind, roleOf_clean ht hrow]
  cases upd with
  | true =>
    refine ⟨summary.rolesLeftAlone, ?_⟩
    simp only [if_true, modifyRole_clean ht hrow (hsettled.assigned rfl)]
    exact regrant_loaded ht hrow hsettled summary
  | false =>
    refine ⟨summary.rolesLeftAlone ++ [d.name], ?_⟩
    have hleft : (d.isSystem.getD false && !row.isSystem) = false := by
      cases hflag : d.isSystem with
      | none => rfl
      | some flag =>
        cases flag with
        | false => rfl
        | true => simp [hsettled.isSystem rfl hflag]
    simp only [Bool.false_eq_true, if_false, hleft]

theorem upsertRoles_loaded (ht : Sound schema t) {defs : List RoleDef}
    (h : ∀ d ∈ defs, d.Checked ∧ ∃ r ∈ t.roles, d.Settled upd t.permissions r) (summary : LoadSummary) :
    ∃ left, upsertRoles draw upd ⟨.clean committed t drawn, summary⟩ defs =
      .ok ⟨.clean committed t drawn, { summary with rolesLeftAlone := left }⟩ := by
  induction defs generalizing summary with
  | nil => exact ⟨summary.rolesLeftAlone, rfl⟩
  | cons d defs ih =>
    obtain ⟨hchecked, hrole⟩ := h d List.mem_cons_self
    obtain ⟨left, hstep⟩ := upsertRole_loaded draw committed drawn ht hchecked hrole summary
    obtain ⟨left', hrest⟩ := ih (fun d' hd' => h d' (List.mem_cons_of_mem _ hd')) { summary with rolesLeftAlone := left }
    refine ⟨left', ?_⟩
    simp only [upsertRoles, hstep]
    exact hrest

end Again

/-! ## The next load -/

/-- A summary of a load that did nothing. -/
structure LoadSummary.Quiet (summary : LoadSummary) : Prop where
  permissionsCreated : summary.permissionsCreated = []
  rolesCreated : summary.rolesCreated = []
  rolesReprotected : summary.rolesReprotected = []
  rolesRegranted : summary.rolesRegranted = []

/-- **A load of what is loaded.** It flushes what the session holds, and does nothing else. -/
theorem load_again (draw : Nat → String) {upd : Bool} {schema : Schema} {doc : Document} {s : Session}
    (hproper : doc.Proper) (hobjects : s.objects.permissions = s.flushed.permissions) (hnew : s.newPermissions = [])
    (hsound : Sound schema s.pending) (h : Loaded upd doc.permissionDefs doc.roleDefs s.pending) :
    ∃ summary, loadFromYaml draw upd schema doc s = .ok (summary, .clean s.committed s.pending s.drawn) ∧
      summary.Quiet := by
  have hpending : s.pending.permissions = s.flushed.permissions := by
    show s.objects.permissions ++ s.newPermissions = _
    rw [hobjects, hnew, List.append_nil]
  have hpermissions : doc.permissionDefs.foldl (upsertPermission draw upd) ⟨s, .empty⟩ = ⟨s, .empty⟩ := by
    apply upsertPermissions_loaded hobjects
    · exact hpending ▸ hsound.permissionIds
    · exact hpending ▸ hsound.permissionNames
    · exact hpending ▸ h.permissions
  obtain ⟨left, hroles⟩ := upsertRoles_loaded draw s.committed s.drawn hsound h.roles .empty
  exact ⟨_, loadFromYaml_eq_ok.mpr ⟨hproper, _, hpermissions, hsound, hroles⟩, rfl, rfl, rfl, rfl⟩

/-! ## A document that loads -/

/-- A permission as a document may describe it. -/
structure PermissionDef.Valid (schema : Schema) (d : PermissionDef) : Prop where
  resource : ∃ text, d.resource = some (some text)
  action : ∃ text, d.action = some (some text)
  names : schema.holds 100 (some d.name)
  descriptions : schema.holds 255 (d.description.getD none)
  resources : schema.holds 50 (d.resource.getD none)
  actions : schema.holds 50 (d.action.getD none)

/-- A role as a document may describe it, over the names of the permissions there are. -/
structure RoleDef.Valid (known : List String) (d : RoleDef) : Prop where
  checked : d.Checked
  permissions : d.permissions ≠ some none
  grants : ∀ name ∈ (d.permissions.getD none).getD [], name ∈ known

/-- **A valid document**: what its roles grant is in the table or in the document. -/
structure Document.Valid (schema : Schema) (t : Tables) (doc : Document) : Prop extends doc.Proper where
  permissionDefs : ∀ d ∈ doc.permissionDefs, d.Valid schema
  roleDefs : ∀ d ∈ doc.roleDefs, d.Valid (t.permissions.map (·.name) ++ doc.permissionDefs.map (·.name))

/-- Identifiers that no row has. -/
structure Uuids (t : Tables) where
  draw : Nat → String
  injective : Function.Injective draw
  permissions : ∀ n, draw n ∉ t.permissions.map (·.id)
  roles : ∀ n, draw n ∉ t.roles.map (·.id)

section Valid

variable {schema : Schema} {upd : Bool} {doc : Document} {t : Tables} {n : Nat} {s₀ s : Session}

theorem PermissionDef.Valid.assign {d : PermissionDef} (h : d.Valid schema) {p : PermissionModel} (hp : p.Fits schema) :
    (d.assign p).Fits schema := by
  obtain ⟨resource, hresource⟩ := h.resource
  obtain ⟨action, haction⟩ := h.action
  refine ⟨?_, ?_, h.names, ?_, ?_, ?_⟩
  · simp [PermissionDef.assign, hresource]
  · simp [PermissionDef.assign, haction]
  · have hdescription := h.descriptions
    unfold PermissionDef.assign
    cases hd : d.description with
    | none => exact hp.descriptions
    | some text => rwa [hd] at hdescription
  · simpa [PermissionDef.assign, hresource] using h.resources
  · simpa [PermissionDef.assign, haction] using h.actions

theorem PermissionDef.Valid.build {d : PermissionDef} (h : d.Valid schema) (id : String) :
    (d.build id).Fits schema := by
  obtain ⟨resource, hresource⟩ := h.resource
  obtain ⟨action, haction⟩ := h.action
  refine ⟨?_, ?_, h.names, h.descriptions, h.resources, h.actions⟩
  · simp [PermissionDef.build, PermissionDef.assign, hresource]
  · simp [PermissionDef.build, PermissionDef.assign, haction]

theorem PermissionModel.Kept.fits {defs : List PermissionDef} (hdefs : ∀ d ∈ defs, d.Valid schema)
    {p p' : PermissionModel} (h : p.Kept upd defs p') (hp : p.Fits schema) : p'.Fits schema := by
  induction h with
  | refl => exact hp
  | tail _ hstep ih =>
    cases hstep with
    | update _ mem => exact (hdefs _ mem).assign ih

/-- The first flush goes through. -/
theorem PermissionsDone.sound {ids : Uuids t} (ht : Sound schema t) (hdoc : doc.Valid schema t)
    (h : PermissionsDone ids.draw upd doc.permissionDefs (.clean t t n) doc.permissionDefs s) :
    Sound schema s.pending := by
  have hroles := h.pending_roles
  refine ⟨?_, ?_, ?_, ?_, ?_, ?_, ?_⟩
  · exact h.done.ids_nodup ht.permissionIds ids.injective ids.permissions
  · exact h.done.names_nodup ht.permissionNames
  · refine h.done.forall_mem ht.permissionFits (fun p p' hkept hp => hkept.fits hdoc.permissionDefs hp) ?_
    rintro d hd _ ⟨id, rfl⟩
    exact (hdoc.permissionDefs d hd).build id
  · exact hroles ▸ ht.roleIds
  · exact hroles ▸ ht.roleNames
  · exact hroles ▸ ht.roleFits
  · intro r hr
    rw [hroles] at hr
    refine ⟨(ht.grants r hr).1, fun id hid => ?_⟩
    show id ∈ (s.objects.permissions ++ s.newPermissions).map (·.id)
    rw [List.map_append]
    exact List.mem_append_left _ (h.done.ids_eq ▸ (ht.grants r hr).2 id hid)

/-- What the database accepts of a role: it fits, and grants permissions that are there, each of them once. -/
structure RoleModel.Storable (schema : Schema) (t : Tables) (r : RoleModel) : Prop where
  fits : r.Fits schema
  nodup : r.permissions.Nodup
  known : ∀ id ∈ r.permissions, id ∈ t.permissions.map (·.id)

theorem RoleDef.Checked.name_length {d : RoleDef} (h : d.Checked) : d.name.length ≤ 50 := by
  obtain ⟨-, hlength⟩ := check_bind_eq_ok.mp h.name
  exact (of_decide_eq_true (require_eq_ok.mp hlength)).2

theorem RoleDef.Checked.description_length {d : RoleDef} (h : d.Checked) {text : String}
    (ht : d.description = some (some text)) : text.length ≤ 255 := by
  have hdescription := h.description
  rw [ht] at hdescription
  exact of_decide_eq_true (require_eq_ok.mp hdescription)

/-- The checks of a role see to it that it fits. -/
theorem RoleDef.Checked.assign {d : RoleDef} (h : d.Checked) {r : RoleModel} (hr : schema.holds 255 r.description) :
    (d.assign r).Fits schema := by
  constructor
  · intro _ name hname
    cases hname
    exact h.name_length
  · unfold RoleDef.assign
    cases hd : d.description with
    | none => exact hr
    | some text =>
      intro _ text' htext
      cases htext
      exact h.description_length hd

/-- Permissions that were found are there, each of them once. -/
theorem findPermissions_ids (hids : (t.permissions.map (·.id)).Nodup) {names : Option (List String)}
    {found : List PermissionModel} (h : findPermissions t names = .ok found) :
    (found.map (·.id)).Nodup ∧ ∀ id ∈ found.map (·.id), id ∈ t.permissions.map (·.id) := by
  obtain ⟨ns, -, -, rfl⟩ := findPermissions_eq_ok.mp h
  have hsublist := (List.filter_sublist (p := fun p => decide (p.name ∈ ns)) (l := t.permissions)).map (·.id)
  exact ⟨hids.sublist hsublist, fun id hid => hsublist.subset hid⟩

theorem RoleModel.storable_setPermissions {r : RoleModel} {ids : List String} (hfits : r.Fits schema)
    (hnodup : r.permissions.Nodup) (hids : ids.Nodup) (hknown : ∀ id ∈ ids, id ∈ t.permissions.map (·.id)) :
    (r.setPermissions ids).Storable schema t := by
  refine ⟨⟨hfits.names, hfits.descriptions⟩, ?_, fun id hid => hknown id (RoleModel.mem_setPermissions.mp hid)⟩
  refine List.nodup_append.mpr ⟨hnodup.filter _, hids.filter _, ?_⟩
  rintro id hid _ hid' rfl
  exact of_decide_eq_true (List.mem_filter.mp hid').2 (List.mem_filter.mp hid).1

theorem RoleModel.Kept.storable (hids : (t.permissions.map (·.id)).Nodup) {r r' : RoleModel} (h : r.Kept upd t r')
    (hr : r.Storable schema t) : r'.Storable schema t := by
  induction h with
  | refl => exact hr
  | tail _ hstep ih =>
    cases hstep with
    | update _ checked granted =>
      obtain ⟨hnodup, hknown⟩ := findPermissions_ids hids granted
      exact RoleModel.storable_setPermissions (checked.assign ih.fits.descriptions) ih.nodup hnodup hknown
    | protect _ => exact ⟨⟨ih.fits.names, ih.fits.descriptions⟩, ih.nodup, ih.known⟩

theorem RoleDef.Makes.storable (hids : (t.permissions.map (·.id)).Nodup) {d : RoleDef} {r : RoleModel}
    (h : d.Makes t r) :
    r.Storable schema t := by
  obtain ⟨id, found, hchecked, hfound, rfl⟩ := h
  obtain ⟨hnodup, hknown⟩ := findPermissions_ids hids hfound
  exact RoleModel.storable_setPermissions (hchecked.assign nofun) List.nodup_nil hnodup hknown

/-- The commit goes through. -/
theorem LoadDone.sound_pending {ids : Uuids t} (h : LoadDone ids.draw upd schema doc t n s₀ s) :
    Sound schema s.pending := by
  have hstorable : ∀ r ∈ s.pending.roles, r.Storable schema s₀.pending := by
    refine h.roles.done.forall_mem ?_ (fun r r' hkept hr => hkept.storable h.sound.permissionIds hr) ?_
    · intro r hr
      exact ⟨h.sound.roleFits r hr, (h.sound.grants r hr).1, (h.sound.grants r hr).2⟩
    · intro d _ r hmakes
      exact hmakes.storable h.sound.permissionIds
  refine ⟨?_, ?_, ?_, ?_, ?_, ?_, ?_⟩
  · exact h.pending_permissions ▸ h.sound.permissionIds
  · exact h.pending_permissions ▸ h.sound.permissionNames
  · exact h.pending_permissions ▸ h.sound.permissionFits
  · exact h.roles.done.ids_nodup h.sound.roleIds ids.injective fun k => h.permissions.pending_roles ▸ ids.roles k
  · exact h.roles.done.names_nodup h.sound.roleNames
  · exact fun r hr => (hstorable r hr).fits
  · rw [h.pending_permissions]
    exact fun r hr => ⟨(hstorable r hr).nodup, (hstorable r hr).known⟩

/-- A role is not refused that passes its checks and whose permissions are found. -/
theorem upsertRole_ok (draw : Nat → String) (upd : Bool) (p : Pass) {d : RoleDef} (hchecked : d.Checked)
    {found : List PermissionModel}
    (hfound : findPermissions p.session.flushed (d.permissions.getD (some [])) = .ok found) :
    ∃ p', upsertRole draw upd p d = .ok p' ∧ p'.session.flushed = p.session.flushed := by
  unfold upsertRole
  rw [hchecked.name, hchecked.description]
  dsimp only
  split
  · rename_i row _
    cases upd with
    | true =>
      unfold regrant
      have hflushed : (p.session.modifyRole row.id d.assign).flushed = p.session.flushed := rfl
      simp only [if_true, hflushed, hfound]
      exact ⟨_, rfl, rfl⟩
    | false =>
      simp only [Bool.false_eq_true, if_false]
      split
      · exact ⟨_, rfl, rfl⟩
      · exact ⟨_, rfl, rfl⟩
  · rw [hfound]
    exact ⟨_, rfl, rfl⟩

theorem upsertRoles_ok (draw : Nat → String) (upd : Bool) (p : Pass) {defs : List RoleDef} (h : ∀ d ∈ defs, d.Checked ∧
    ∃ found, findPermissions p.session.flushed (d.permissions.getD (some [])) = .ok found) :
    ∃ p', upsertRoles draw upd p defs = .ok p' := by
  induction defs generalizing p with
  | nil => exact ⟨p, rfl⟩
  | cons d defs ih =>
    obtain ⟨hchecked, found, hfound⟩ := h d List.mem_cons_self
    obtain ⟨p₁, hstep, hflushed⟩ := upsertRole_ok draw upd p hchecked hfound
    obtain ⟨p', hrest⟩ := ih p₁ fun d' hd' => hflushed ▸ h d' (List.mem_cons_of_mem _ hd')
    refine ⟨p', ?_⟩
    simp only [upsertRoles, hstep]
    exact hrest

/-- The permissions of the table and of the document are there when the roles look them up. -/
theorem PermissionsDone.known {draw : Nat → String} {defs : List PermissionDef}
    (h : PermissionsDone draw upd defs (.clean t t n) defs s) {name : String}
    (hname : name ∈ t.permissions.map (·.name) ++ defs.map (·.name)) : name ∈ s.pending.permissions.map (·.name) := by
  rcases List.mem_append.mp hname with hname | hname
  · show name ∈ (s.objects.permissions ++ s.newPermissions).map (·.name)
    rw [List.map_append]
    exact List.mem_append_left _ (h.done.names_eq ▸ hname)
  · obtain ⟨d, hd, rfl⟩ := List.mem_map.mp hname
    obtain ⟨p, hp, hsettled⟩ := h.done.settled d hd
    exact List.mem_map.mpr ⟨p, hp, hsettled.name⟩

/-- **A valid document loads.** -/
theorem load_valid (ht : Sound schema t) (hdoc : doc.Valid schema t) (ids : Uuids t) (upd : Bool) (n : Nat) :
    ∃ t' summary, loadFile ids.draw upd schema doc t n = (t', .ok summary) := by
  have hpermissions := permissions_all ids.draw upd n ht hdoc.toProper
  have hsound := hpermissions.sound ht hdoc
  generalize hp : doc.permissionDefs.foldl (upsertPermission ids.draw upd) ⟨.clean t t n, .empty⟩ = p
    at hpermissions hsound
  have hroles : ∀ d ∈ doc.roleDefs, d.Checked ∧
      ∃ found, findPermissions p.session.pending (d.permissions.getD (some [])) = .ok found := by
    intro d hd
    have hvalid := hdoc.roleDefs d hd
    refine ⟨hvalid.checked, _, findPermissions_eq_ok.mpr ⟨_, getD_some_nil.mpr ⟨hvalid.permissions, rfl⟩, ?_, rfl⟩⟩
    exact fun name hname => hpermissions.known (hvalid.grants name hname)
  obtain ⟨⟨s, summary⟩, hok⟩ := upsertRoles_ok ids.draw upd
    ⟨.clean p.session.committed p.session.pending p.session.drawn, p.summary⟩ hroles
  have hload := loadFromYaml_eq_ok.mpr ⟨hdoc.toProper, p, hp, hsound, hok⟩
  obtain ⟨s₀, hdone⟩ := load_done ht hload
  exact ⟨_, summary, loadFile_eq_ok.mpr ⟨s, hload, hdone.sound_pending, rfl⟩⟩

end Valid

/-! ## The result -/

/-- Tables that a database keeps. -/
structure Database (schema : Schema) where
  tables : Tables
  sound : Sound schema tables

theorem pending_clean (committed t : Tables) (n : Nat) : (Session.clean committed t n).pending = t := by
  simp [Session.pending, Session.clean]

section Loads

variable {draw : Nat → String} {upd : Bool} {schema : Schema} {doc : Document} {t t' : Tables} {n : Nat}
  (hsound : Sound schema t)
include hsound

/-- A file that was loaded, once more. -/
theorem loadFile_again {summary : LoadSummary} (h : loadFile draw upd schema doc t n = (t', .ok summary))
    (draw' : Nat → String) (n' : Nat) :
    ∃ summary', loadFile draw' upd schema doc t' n' = (t', .ok summary') ∧ summary'.Quiet := by
  obtain ⟨s, hload, hpending, rfl⟩ := loadFile_eq_ok.mp h
  obtain ⟨s₀, hdone⟩ := load_done hsound hload
  have hclean := pending_clean s.pending s.pending n'
  obtain ⟨summary', hagain, hquiet⟩ := load_again draw' (s := .clean s.pending s.pending n') hdone.proper rfl rfl
    (hclean.symm ▸ hpending) (hclean.symm ▸ hdone.loaded)
  rw [hclean] at hagain
  exact ⟨summary', loadFile_eq_ok.mpr ⟨_, hagain, hclean.symm ▸ hpending, hclean.symm⟩, hquiet⟩

/-- A second pass in a session that can be committed after the first. -/
theorem loadFromYaml_again {s s₁ : Session} {summary : LoadSummary}
    (hload : loadFromYaml draw upd schema doc (.clean t t n) = .ok (summary, s₁)) (hcommit : s₁.commit schema = .ok s) :
    ∃ summary' s₂, loadFromYaml draw upd schema doc s₁ = .ok (summary', s₂) ∧ summary'.Quiet ∧
      s₂.commit schema = .ok s := by
  obtain ⟨hpending, rfl⟩ := commit_eq_ok.mp hcommit
  obtain ⟨s₀, hdone⟩ := load_done hsound hload
  have hobjects : s₁.objects.permissions = s₁.flushed.permissions := by
    rw [hdone.roles.permissions, hdone.roles.flushed]
  obtain ⟨summary', hagain, hquiet⟩ :=
    load_again draw hdone.proper hobjects hdone.roles.newPermissions hpending hdone.loaded
  refine ⟨summary', _, hagain, hquiet, commit_eq_ok.mpr ?_⟩
  rw [pending_clean]
  exact ⟨hpending, rfl⟩

/-- What was there is there after a load that may not update, whether it raised or not. -/
theorem loadFile_untouched (hupd : upd = false) {r : Except LoadError LoadSummary}
    (h : loadFile draw upd schema doc t n = (t', r)) : (∀ permission ∈ t.permissions, permission ∈ t'.permissions) ∧
      ∀ role ∈ t.roles, ∃ role' ∈ t'.roles, role.Untouched role' := by
  cases r with
  | error e =>
    have ht : t' = t := by
      rw [← loadFile_error (congrArg Prod.snd h), h]
    rw [ht]
    exact ⟨fun p hp => hp, fun r hr => ⟨r, hr, rfl, rfl, rfl, rfl, fun h => h⟩⟩
  | ok summary =>
    obtain ⟨s, hload, -, rfl⟩ := loadFile_eq_ok.mp h
    obtain ⟨s₀, hdone⟩ := load_done hsound hload
    exact hdone.untouched hupd

end Loads

/-- **Loading a role file is idempotent and does not touch what exists.** A valid document loads. After a load that
returned the next one, with whatever identifiers, leaves the tables as they are and reports nothing that it created,
regranted or reprotected; so does a second pass in the same session. A load that may not update leaves every permission
and every role that was there, but for its being a system role. A load that raised leaves the tables as they were. -/
theorem load_is_idempotent (schema : Schema) (db : Database schema) (doc : Document) (updateExisting : Bool) (n : Nat) :
    (doc.Valid schema db.tables → ∀ ids : Uuids db.tables,
      ∃ t summary, loadFile ids.draw updateExisting schema doc db.tables n = (t, .ok summary)) ∧
    ∀ draw,
      (∀ t summary, loadFile draw updateExisting schema doc db.tables n = (t, .ok summary) → ∀ draw' n',
        ∃ summary', loadFile draw' updateExisting schema doc t n' = (t, .ok summary') ∧ summary'.Quiet) ∧
      (∀ s₁ summary s, loadFromYaml draw updateExisting schema doc (.clean db.tables db.tables n) = .ok (summary, s₁) →
        s₁.commit schema = .ok s →
          ∃ summary' s₂, loadFromYaml draw updateExisting schema doc s₁ = .ok (summary', s₂) ∧ summary'.Quiet ∧
            s₂.commit schema = .ok s) ∧
      (updateExisting = false → ∀ t r, loadFile draw updateExisting schema doc db.tables n = (t, r) →
        (∀ permission ∈ db.tables.permissions, permission ∈ t.permissions) ∧
          ∀ role ∈ db.tables.roles, ∃ role' ∈ t.roles, role.Untouched role') ∧
      ∀ t e, loadFile draw updateExisting schema doc db.tables n = (t, .error e) → t = db.tables := by
  refine ⟨fun hdoc ids => load_valid db.sound hdoc ids updateExisting n, fun draw => ⟨?_, ?_, ?_, ?_⟩⟩
  · intro t summary hload
    exact loadFile_again db.sound hload
  · intro s₁ summary s hload hcommit
    exact loadFromYaml_again db.sound hload hcommit
  · intro hupd t r hload
    exact loadFile_untouched db.sound hupd hload
  · intro t e hload
    rw [← loadFile_error (congrArg Prod.snd hload), hload]

/-- A table in which `user` is not a system role any more. -/
def seededTables : Tables where
  permissions := [⟨"p1", "link:create", none, some "link", some "create"⟩]
  roles := [⟨"r1", "user", some "Signed in", false, []⟩]

/-- A document that makes `user` a system role again and adds a role of its own. -/
def seedDocument : Document where
  permissions := some (some [⟨"link:create", some (some "Create links"), some (some "link"), some (some "create")⟩,
    ⟨"link:delete", none, some (some "link"), some (some "delete")⟩])
  roles := some (some [⟨"user", none, some true, some (some ["link:create"])⟩,
    ⟨"ops", none, none, some (some ["link:create", "link:delete"])⟩])

/-- Identifiers that grow. -/
def seedIds : Uuids seededTables where
  draw n := String.ofList (List.replicate (n + 3) 'x')
  injective := by
    intro n m h
    simpa using congrArg (fun text => text.toList.length) h
  permissions := by
    intro n h
    have hid : String.ofList (List.replicate (n + 3) 'x') = "p1" := by simpa [seededTables] using h
    simpa using congrArg (fun text => text.toList.length) hid
  roles := by
    intro n h
    have hid : String.ofList (List.replicate (n + 3) 'x') = "r1" := by simpa [seededTables] using h
    simpa using congrArg (fun text => text.toList.length) hid

theorem seedDocument_valid : seedDocument.Valid ⟨true⟩ seededTables := by
  refine ⟨⟨by decide, by decide, by decide, by decide⟩, ?_, ?_⟩
  · rw [show seedDocument.permissionDefs = [⟨"link:create", some (some "Create links"), some (some "link"),
      some (some "create")⟩, ⟨"link:delete", none, some (some "link"), some (some "delete")⟩] from rfl]
    rintro d hd
    rcases List.mem_pair.mp hd with rfl | rfl
    · exact ⟨⟨_, rfl⟩, ⟨_, rfl⟩, by decide, by decide, by decide, by decide⟩
    · exact ⟨⟨_, rfl⟩, ⟨_, rfl⟩, by decide, by decide, by decide, by decide⟩
  · rw [show seedDocument.roleDefs = [⟨"user", none, some true, some (some ["link:create"])⟩,
      ⟨"ops", none, none, some (some ["link:create", "link:delete"])⟩] from rfl]
    rintro d hd
    rcases List.mem_pair.mp hd with rfl | rfl
    · exact ⟨⟨by decide, by decide⟩, by decide, by decide⟩
    · exact ⟨⟨by decide, by decide⟩, by decide, by decide⟩

/-- The seed loads, and loading it again changes nothing. -/
theorem load_seed_twice : ∃ t summary summary',
    loadFile seedIds.draw false ⟨true⟩ seedDocument seededTables 0 = (t, .ok summary) ∧
      loadFile seedIds.draw false ⟨true⟩ seedDocument t 0 = (t, .ok summary') ∧ summary'.Quiet := by
  obtain ⟨hvalid, hany⟩ := load_is_idempotent ⟨true⟩ ⟨seededTables, by decide⟩ seedDocument false 0
  obtain ⟨t, summary, hload⟩ := hvalid seedDocument_valid seedIds
  obtain ⟨summary', hagain, hquiet⟩ := (hany seedIds.draw).1 t summary hload seedIds.draw 0
  exact ⟨t, summary, summary', hload, hagain, hquiet⟩

end LinkShortener.Roles
