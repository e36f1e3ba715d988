import LinkShortener.Roles.Loader
import Mathlib.Logic.Relation

/-!
# What a pass leaves

* `PermissionDef.Settled`, `RoleDef.Settled`: a row says what the document asks of it. `Loaded`: every entry of a document
  has such a row.
* `PermissionModel.Kept`, `RoleModel.Kept`: how far a pass may change a row that was there.
* `permissions_done`, `roles_done`: a pass that returns has loaded everything, by the rules of `Upserts`.
-/

namespace LinkShortener.Roles

open Upserts

/-! ## What a document asks for -/

section Settled

variable (upd : Bool)

/-- A permission is there, and says what the document says if it may be updated. -/
structure PermissionDef.Settled (d : PermissionDef) (p : PermissionModel) : Prop where
  name : p.name = d.name
  assigned : upd = true → d.assign p = p

/-- A role is there. If it may be updated it says what the document says and grants what the document names; if not, it is
a system role where the document says so. -/
structure RoleDef.Settled (permissions : List PermissionModel) (d : RoleDef) (r : RoleModel) : Prop where
  name : r.name = d.name
  isSystem : upd = false → d.isSystem = some true → r.isSystem = true
  assigned : upd = true → d.assign r = r
  grants : upd = true → ∃ names, d.permissions.getD (some []) = some names ∧
    (∀ n ∈ names, n ∈ permissions.map (·.name)) ∧ ∀ p ∈ permissions, p.id ∈ r.permissions ↔ p.name ∈ names

/-- A role has a name and a description that a role may have. -/
structure RoleDef.Checked (d : RoleDef) : Prop where
  name : requireValidRoleName d.name = .ok ()
  description : requireValidRoleDescription (d.description.getD none) = .ok ()

/-- **Everything a document asks for is there.** -/
structure Loaded (permissionDefs : List PermissionDef) (roleDefs : List RoleDef) (t : Tables) : Prop where
  permissions : ∀ d ∈ permissionDefs, ∃ p ∈ t.permissions, d.Settled upd p
  roles : ∀ d ∈ roleDefs, d.Checked ∧ ∃ r ∈ t.roles, d.Settled upd t.permissions r

end Settled

section Assign

theorem PermissionDef.assign_assign (d : PermissionDef) (p : PermissionModel) : d.assign (d.assign p) = d.assign p := by
  obtain ⟨name, description, resource, action⟩ := d
  simp only [PermissionDef.assign]
  cases description <;> cases resource <;> cases action <;> rfl

theorem RoleDef.assign_assign (d : RoleDef) (r : RoleModel) : d.assign (d.assign r) = d.assign r := by
  obtain ⟨name, description, isSystem, permissions⟩ := d
  simp only [RoleDef.assign]
  cases description <;> cases isSystem <;> rfl

theorem RoleModel.mem_setPermissions {r : RoleModel} {ids : List String} {id : String} :
    id ∈ (r.setPermissions ids).permissions ↔ id ∈ ids := by
  simp only [RoleModel.setPermissions, List.mem_append, List.mem_filter, decide_eq_true_eq]
  tauto

/-- A role that grants these permissions keeps them as they are. -/
theorem RoleModel.setPermissions_eq_self {r : RoleModel} {ids : List String} (h : ∀ id, id ∈ r.permissions ↔ id ∈ ids) :
    r.setPermissions ids = r := by
  have hkept : r.permissions.filter (fun id => decide (id ∈ ids)) = r.permissions :=
    List.filter_eq_self.mpr fun id hid => decide_eq_true ((h id).mp hid)
  have hnew : ids.filter (fun id => decide (id ∉ r.permissions)) = [] :=
    List.filter_eq_nil_iff.mpr fun id hid hnot => of_decide_eq_true hnot ((h id).mpr hid)
  rw [RoleModel.setPermissions, hkept, hnew, List.append_nil]

end Assign

theorem refuseUnknownPermissions_eq_ok {names : List String} {found : List PermissionModel} :
    refuseUnknownPermissions names found = .ok () ↔ ∀ n ∈ names, n ∈ found.map (·.name) := by
  simp [refuseUnknownPermissions, List.filter_eq_nil_iff]

/-- The permissions are found that are named, and each name has one. -/
theorem findPermissions_eq_ok {t : Tables} {names : Option (List String)} {found : List PermissionModel} :
    findPermissions t names = .ok found ↔ ∃ ns, names = some ns ∧ (∀ n ∈ ns, n ∈ t.permissions.map (·.name)) ∧
      found = t.permissions.filter fun p => decide (p.name ∈ ns) := by
  have hfound : ∀ {ns : List String}, (∀ n ∈ ns, n ∈ (t.permissions.filter fun p => decide (p.name ∈ ns)).map (·.name)) ↔
      ∀ n ∈ ns, n ∈ t.permissions.map (·.name) := by
    intro ns
    refine forall₂_congr fun n hn => ?_
    simp only [List.mem_map, List.mem_filter, decide_eq_true_eq]
    refine ⟨fun ⟨p, ⟨hp, _⟩, hname⟩ => ⟨p, hp, hname⟩, fun ⟨p, hp, hname⟩ => ⟨p, ⟨hp, ?_⟩, hname⟩⟩
    rwa [hname]
  unfold findPermissions
  cases names with
  | none => simp
  | some ns =>
    dsimp only
    cases hrefuse : refuseUnknownPermissions ns (t.permissions.filter fun p => decide (p.name ∈ ns)) with
    | error e =>
      refine ⟨nofun, ?_⟩
      rintro ⟨ns', hns, hknown, -⟩
      cases hns
      rw [refuseUnknownPermissions_eq_ok.mpr (hfound.mpr hknown)] at hrefuse
      cases hrefuse
    | ok u =>
      have hknown := hfound.mp (refuseUnknownPermissions_eq_ok.mp hrefuse)
      constructor
      · rintro ⟨⟩
        exact ⟨ns, rfl, hknown, rfl⟩
      · rintro ⟨ns', hns, -, rfl⟩
        cases hns
        rfl

/-! ## A pass that returns -/

section Kept

variable (upd : Bool)

/-- A permission that may be updated, with an entry of the document assigned to it. -/
inductive PermissionModel.Rewritten (defs : List PermissionDef) : PermissionModel → PermissionModel → Prop
  | update {p : PermissionModel} {d : PermissionDef} (allowed : upd = true) (mem : d ∈ defs) :
      Rewritten defs p (d.assign p)

/-- A role that may be updated, with an entry of the document assigned to it, or one that may not and is marked as a
system role. -/
inductive RoleModel.Rewritten (t : Tables) : RoleModel → RoleModel → Prop
  | update {r : RoleModel} {d : RoleDef} {found : List PermissionModel} (allowed : upd = true) (checked : d.Checked)
      (granted : findPermissions t (d.permissions.getD (some [])) = .ok found) :
      Rewritten t r ((d.assign r).setPermissions (found.map (·.id)))
  | protect {r : RoleModel} (refused : upd = false) : Rewritten t r { r with isSystem := true }

/-- What becomes of a permission. -/
abbrev PermissionModel.Kept (defs : List PermissionDef) := Relation.ReflTransGen (PermissionModel.Rewritten upd defs)

/-- What becomes of a role. -/
abbrev RoleModel.Kept (t : Tables) := Relation.ReflTransGen (RoleModel.Rewritten upd t)

/-- A role that is left alone, except that it may become a system role. -/
structure RoleModel.Untouched (r r' : RoleModel) : Prop where
  id : r'.id = r.id
  name : r'.name = r.name
  description : r'.description = r.description
  permissions : r'.permissions = r.permissions
  isSystem : r.isSystem = true → r'.isSystem = true

variable {upd}

theorem PermissionModel.Kept.eq {defs : List PermissionDef} {p p' : PermissionModel} (h : p.Kept false defs p') :
    p' = p := by
  induction h with
  | refl => rfl
  | tail _ hstep _ =>
    cases hstep with
    | update allowed _ => cases allowed

theorem RoleModel.Kept.untouched {t : Tables} {r r' : RoleModel} (h : r.Kept false t r') : r.Untouched r' := by
  induction h with
  | refl => exact ⟨rfl, rfl, rfl, rfl, fun h => h⟩
  | tail _ hstep ih =>
    cases hstep with
    | update allowed _ _ => cases allowed
    | protect _ => exact ⟨ih.id, ih.name, ih.description, ih.permissions, fun _ => rfl⟩

end Kept

/-! ## Rows that are added -/

/-- A permission as an entry of the document makes it. -/
def PermissionDef.Makes (d : PermissionDef) (p : PermissionModel) : Prop := ∃ id, p = d.build id

/-- A role as an entry of the document makes it, over the permissions that are there. -/
def RoleDef.Makes (t : Tables) (d : RoleDef) (r : RoleModel) : Prop :=
  ∃ id found, d.Checked ∧ findPermissions t (d.permissions.getD (some [])) = .ok found ∧
    r = (d.build id).setPermissions (found.map (·.id))

theorem PermissionDef.Makes.settled {upd : Bool} {d : PermissionDef} {p : PermissionModel} (h : d.Makes p) :
    d.Settled upd p := by
  obtain ⟨id, rfl⟩ := h
  exact ⟨rfl, fun _ => d.assign_assign _⟩

/-- A role that is asked to grant the permissions that were found grants those that were named. -/
theorem mem_setPermissions_found {t : Tables} (hids : (t.permissions.map (·.id)).Nodup) {names : List String}
    {r : RoleModel} : ∀ p ∈ t.permissions,
      p.id ∈ (r.setPermissions ((t.permissions.filter fun p => decide (p.name ∈ names)).map (·.id))).permissions ↔
        p.name ∈ names := by
  intro p hp
  rw [RoleModel.mem_setPermissions, List.mem_map]
  constructor
  · rintro ⟨q, hq, hid⟩
    obtain ⟨hq, hname⟩ := List.mem_filter.mp hq
    rw [← eq_of_key hids hq hp hid]
    exact of_decide_eq_true hname
  · intro hname
    exact ⟨p, List.mem_filter.mpr ⟨hp, decide_eq_true hname⟩, rfl⟩

/-- A role with everything assigned is settled. -/
theorem settled_assigned {upd : Bool} {t : Tables} (hids : (t.permissions.map (·.id)).Nodup) {d : RoleDef}
    {found : List PermissionModel} (hfound : findPermissions t (d.permissions.getD (some [])) = .ok found)
    (r : RoleModel) : d.Settled upd t.permissions ((d.assign r).setPermissions (found.map (·.id))) := by
  obtain ⟨names, hnames, hknown, rfl⟩ := findPermissions_eq_ok.mp hfound
  refine ⟨rfl, ?_, ?_, ?_⟩
  · intro _ hsystem
    show d.isSystem.getD r.isSystem = true
    rw [hsystem, Option.getD_some]
  · intro _
    show (d.assign (d.assign r)).setPermissions _ = _
    rw [d.assign_assign]
  · intro _
    exact ⟨names, hnames, hknown, mem_setPermissions_found hids⟩

theorem RoleDef.Makes.settled {upd : Bool} {t : Tables} (hids : (t.permissions.map (·.id)).Nodup) {d : RoleDef}
    {r : RoleModel} (h : d.Makes t r) : d.Settled upd t.permissions r := by
  obtain ⟨id, found, -, hfound, rfl⟩ := h
  exact settled_assigned hids hfound _

/-! ## The permissions of a document -/

section Permissions

variable (draw : Nat → String) (upd : Bool)

def permissionState (s : Session) : State PermissionModel :=
  ⟨s.flushed.permissions, s.objects.permissions, s.newPermissions, s.drawn⟩

/-- What holds after some permissions of a document, in a session that began with nothing to flush. -/
structure PermissionsDone (defs : List PermissionDef) (start : Session) (ds : List PermissionDef) (s : Session) :
    Prop where
  done : Done (·.id) (·.name) draw (PermissionDef.Settled upd) PermissionDef.Makes (PermissionModel.Kept upd defs)
    start.flushed.permissions start.drawn ds (permissionState s)
  committed : s.committed = start.committed
  flushed : s.flushed = start.flushed
  roles : s.objects.roles = start.flushed.roles
  newRoles : s.newRoles = []

variable {draw upd} {defs : List PermissionDef}

theorem upsertPermission_step (p : Pass) {d : PermissionDef} (hd : d ∈ defs) :
    Step (·.id) (·.name) (·.name) draw (PermissionDef.Settled upd) PermissionDef.Makes (PermissionModel.Kept upd defs)
      (permissionState p.session) d (permissionState (upsertPermission draw upd p d).session) := by
  unfold upsertPermission
  cases hfind : p.session.flushed.permissions.find? fun row => decide (row.name = d.name) with
  | some row =>
    have hrow := List.mem_of_find?_eq_some hfind
    have hname : row.name = d.name := by simpa using List.find?_some hfind
    cases upd with
    | true =>
      refine .change hrow hname (fun _ => rfl) (fun y _ _ => ?_) (fun y => ?_)
      · exact ⟨rfl, fun _ => d.assign_assign y⟩
      · exact .single (.update rfl hd)
    | false =>
      simp only [Bool.false_eq_true, if_false]
      exact .keep hrow hname fun y hy _ => ⟨hy, nofun⟩
  | none =>
    refine .add ?_ rfl ⟨_, rfl⟩
    intro y hy he
    simpa [he] using List.find?_eq_none.mp hfind y hy

variable (draw upd) in
/-- The rest of the session is not touched. -/
theorem upsertPermission_frame (p : Pass) (d : PermissionDef) :
    (upsertPermission draw upd p d).session.committed = p.session.committed ∧
      (upsertPermission draw upd p d).session.flushed = p.session.flushed ∧
      (upsertPermission draw upd p d).session.objects.roles = p.session.objects.roles ∧
      (upsertPermission draw upd p d).session.newRoles = p.session.newRoles := by
  unfold upsertPermission
  split
  · split
    · exact ⟨rfl, rfl, rfl, rfl⟩
    · exact ⟨rfl, rfl, rfl, rfl⟩
  · exact ⟨rfl, rfl, rfl, rfl⟩

/-- **The permissions of a document, one after the other.** -/
theorem permissions_done (start : Session) (hids : (start.flushed.permissions.map (·.id)).Nodup)
    {ds rest : List PermissionDef} {p : Pass} (h : PermissionsDone draw upd defs start ds p.session)
    (hdefs : ∀ d ∈ rest, d ∈ defs) (hnames : ((ds ++ rest).map (·.name)).Nodup) :
    PermissionsDone draw upd defs start (ds ++ rest) (rest.foldl (upsertPermission draw upd) p).session := by
  induction rest generalizing ds p with
  | nil => rwa [List.append_nil]
  | cons d rest ih =>
    rw [List.append_cons] at hnames ⊢
    obtain ⟨hcommitted, hflushed, hroles, hnewRoles⟩ := upsertPermission_frame draw upd p d
    refine ih ⟨?_, hcommitted.trans h.committed, hflushed.trans h.flushed, hroles.trans h.roles,
      hnewRoles.trans h.newRoles⟩ (fun d' hd' => hdefs d' (List.mem_cons_of_mem _ hd')) hnames
    exact h.done.step hids (fun _ _ hsettled => hsettled.name) (fun _ _ hmakes => hmakes.settled) (new_of_nodup hnames)
      (upsertPermission_step p (hdefs d List.mem_cons_self))

end Permissions

/-! ## The roles of a document -/

section Roles

variable (draw : Nat → String) (upd : Bool)

def roleState (s : Session) : State RoleModel := ⟨s.flushed.roles, s.objects.roles, s.newRoles, s.drawn⟩

/-- What holds after some roles of a document. -/
structure RolesDone (start : Session) (ds : List RoleDef) (s : Session) : Prop where
  done : Done (·.id) (·.name) draw (RoleDef.Settled upd start.flushed.permissions) (RoleDef.Makes start.flushed)
    (RoleModel.Kept upd start.flushed) start.flushed.roles start.drawn ds (roleState s)
  checked : ∀ d ∈ ds, d.Checked
  committed : s.committed = start.committed
  flushed : s.flushed = start.flushed
  permissions : s.objects.permissions = start.flushed.permissions
  newPermissions : s.newPermissions = []

variable {draw upd} {schema : Schema}

/-- What one role does to a session, besides its own row. -/
structure RoleFrame (s s' : Session) : Prop where
  committed : s'.committed = s.committed
  flushed : s'.flushed = s.flushed
  permissions : s'.objects.permissions = s.objects.permissions
  newPermissions : s'.newPermissions = s.newPermissions

/-- Replacing the permissions of a role, when it goes through. -/
theorem regrant_ok {p p' : Pass} {d : RoleDef} {row : RoleModel} (h : regrant p d row = .ok p') :
    ∃ found, findPermissions p.session.flushed (d.permissions.getD (some [])) = .ok found ∧
      p'.session = p.session.modifyRole row.id fun r => r.setPermissions (found.map (·.id)) := by
  unfold regrant at h
  dsimp only at h
  split at h
  · cases h
  · rename_i found hfound
    cases h
    exact ⟨found, hfound, rfl⟩

/-- A role that goes through was checked. -/
theorem upsertRole_checked {p p' : Pass} {d : RoleDef} (h : upsertRole draw upd p d = .ok p') :
    d.Checked := by
  unfold upsertRole at h
  split at h
  · cases h
  · rename_i hname
    split at h
    · cases h
    · rename_i hdescription
      exact ⟨hname, hdescription⟩

/-- **One role that goes through**: the row it has is rewritten, or it gets one. -/
theorem upsertRole_step {start : Session} (ht : Sound schema start.flushed) {ds : List RoleDef} {p p' : Pass}
    {d : RoleDef} (h : RolesDone draw upd start ds p.session) (hok : upsertRole draw upd p d = .ok p') :
    Step (·.id) (·.name) (·.name) draw (RoleDef.Settled upd start.flushed.permissions) (RoleDef.Makes start.flushed)
        (RoleModel.Kept upd start.flushed) (roleState p.session) d (roleState p'.session) ∧
      RoleFrame p.session p'.session := by
  have hchecked := upsertRole_checked hok
  unfold upsertRole at hok
  rw [hchecked.name, hchecked.description] at hok
  dsimp only at hok
  cases hfind : p.session.flushed.roles.find? fun row => decide (row.name = d.name) with
  | some row =>
    rw [hfind] at hok
    have hrow := List.mem_of_find?_eq_some hfind
    have hrowName : row.name = d.name := by simpa using List.find?_some hfind
    cases upd with
    | true =>
      obtain ⟨found, hfound, hsession⟩ := regrant_ok hok
      have hboth : p'.session = p.session.modifyRole row.id fun r => (d.assign r).setPermissions (found.map (·.id)) := by
        rw [hsession]
        simp only [Session.modifyRole]
        rw [modify_modify (f := d.assign) fun _ => rfl]
      rw [hboth]
      have hfound' : findPermissions start.flushed (d.permissions.getD (some [])) = .ok found := h.flushed ▸ hfound
      refine ⟨.change hrow hrowName (fun _ => rfl) (fun y _ _ => ?_) (fun _ => ?_), rfl, rfl, rfl, rfl⟩
      · exact settled_assigned ht.permissionIds hfound' y
      · exact .single (.update rfl hchecked hfound')
    | false =>
      -- The object of the row is the one under its identifier.
      have hobject : ∀ y, y.name = d.name → y ∈ p.session.objects.roles → p.session.roleOf row = y := by
        intro y hy hmem
        have hid := h.done.id_eq ht.roleNames (h.flushed ▸ hrow) hmem (hy.trans hrowName.symm)
        have hids : (p.session.objects.roles.map (·.id)).Nodup := h.done.ids_eq ▸ ht.roleIds
        unfold Session.roleOf
        rw [find?_name hids hmem hid]
        rfl
      simp only [Bool.false_eq_true, if_false] at hok
      split at hok
      · cases hok
        refine ⟨.change hrow hrowName (fun _ => rfl) (fun y hy _ => ?_) (fun y => ?_), rfl, rfl, rfl, rfl⟩
        · exact ⟨hy, fun _ _ => rfl, nofun, nofun⟩
        · exact .single (.protect rfl)
      · rename_i hleave
        cases hok
        refine ⟨.keep hrow hrowName fun y hy hmem => ⟨hy, fun _ hsystem => ?_, nofun, nofun⟩, rfl, rfl, rfl, rfl⟩
        rw [hobject y hy hmem, hsystem] at hleave
        simpa using hleave
  | none =>
    rw [hfind] at hok
    dsimp only at hok
    split at hok
    · cases hok
    · rename_i found hfound
      cases hok
      refine ⟨.add ?_ rfl ⟨_, found, hchecked, h.flushed ▸ hfound, rfl⟩, rfl, rfl, rfl, rfl⟩
      intro y hy he
      simpa [he] using List.find?_eq_none.mp hfind y hy

/-- **The roles of a document, one after the other.** -/
theorem roles_done (start : Session) (ht : Sound schema start.flushed) {ds defs : List RoleDef} {p p' : Pass}
    (h : RolesDone draw upd start ds p.session) (hnames : ((ds ++ defs).map (·.name)).Nodup)
    (hok : upsertRoles draw upd p defs = .ok p') : RolesDone draw upd start (ds ++ defs) p'.session := by
  induction defs generalizing ds p with
  | nil =>
    cases hok
    rwa [List.append_nil]
  | cons d defs ih =>
    rw [List.append_cons] at hnames ⊢
    unfold upsertRoles at hok
    split at hok
    · cases hok
    · rename_i p₁ hstep
      obtain ⟨hone, hframe⟩ := upsertRole_step ht h hstep
      refine ih ⟨?_, ?_, hframe.committed.trans h.committed, hframe.flushed.trans h.flushed,
        hframe.permissions.trans h.permissions, hframe.newPermissions.trans h.newPermissions⟩ hnames hok
      · exact h.done.step ht.roleIds (fun _ _ hsettled => hsettled.name)
          (fun _ _ hmakes => hmakes.settled ht.permissionIds) (new_of_nodup hnames) hone
      · intro d' hd'
        rcases List.mem_append.mp hd' with hd' | hd'
        · exact h.checked d' hd'
        · rw [List.mem_singleton.mp hd']
          exact upsertRole_checked hstep

end Roles

end LinkShortener.Roles
