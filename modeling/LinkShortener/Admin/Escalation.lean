import LinkShortener.Lib.Run
import LinkShortener.Admin.Effects

/-!
# No privilege escalation

Permissions reach accounts through roles, and five use cases edit accounts and roles independently. Whatever the order
of requests, people who hold neither a permission `p` nor `admin:all` cannot make an account hold `p` that did not
hold it before (`no_escalation`): every path from an account through a role to `p` was there at the start.

* `World`: the database with the accounts created so far; `step` is one request that goes through.
* `Powerless`: the actor of a request holds neither `p` nor `admin:all`, and no role with the default name carries `p`.
* `execute_no_gain`: the step lemma.
-/

namespace LinkShortener.Admin

open Db Runs

/-! ## Runs of requests -/

/-- The database, and the accounts created since the start. -/
structure World where
  db : Db
  created : List Uuid

/-- The operations that create an account. -/
def Operation.creates : Operation → Bool
  | .register .. | .createUser .. => true
  | _ => false

/-- **One request that goes through.** The UUID it draws names no account and no role. -/
def step (svc : Services) (w : World) (q : Request) : Option World :=
  if w.db.users.get q.fresh = none ∧ w.db.roles.get q.fresh = none then
    match execute svc w.db q with
    | .ok db' => some ⟨db', if q.operation.creates then q.fresh :: w.created else w.created⟩
    | .error _ => none
  else none

section Escalation

variable {svc : Services} {p : String}

/-- The actor holds neither `p` nor `admin:all`, and no role with the default name carries `p`. -/
def Powerless (svc : Services) (p : String) (w : World) (q : Request) : Prop :=
  ¬ ActorHolds w.db q.actor p ∧ ¬ ActorHolds w.db q.actor adminAll ∧
    ∀ row ∈ w.db.roles.rows, row.name = svc.defaultRoleName → ¬ w.db.Carries row.id p

instance (svc : Services) (p : String) (w : World) (q : Request) : Decidable (Powerless svc p w q) :=
  inferInstanceAs (Decidable (_ ∧ _ ∧ ∀ row ∈ w.db.roles.rows, _))

/-! ## The step lemma -/

section Step

variable {db db' : Db} {actor : Option Uuid}

/-- A stored role that has the default name does not carry `p`. -/
theorem default_lacks (hd : ∀ row ∈ db.roles.rows, row.name = svc.defaultRoleName → ¬ db.Carries row.id p) {role : Role}
    (hs : Stored db role) (hn : role.name = svc.defaultRoleName) : ¬ db.Carries role.id p := by
  obtain ⟨row, hrow, he⟩ := hs
  obtain ⟨hmem, hkey⟩ := Rows.get_eq_some.mp hrow
  rw [← hkey]
  refine hd row hmem ?_
  rw [← hn, he, toRole_name]

/-- Roles whose permissions the actor holds do not carry what the actor lacks. -/
theorem granted_lacks (hp : ¬ ActorHolds db actor p) (ha : ¬ ActorHolds db actor adminAll) {roles : List Role}
    (hs : ∀ role ∈ roles, Stored db role)
    (hg : ActorHolds db actor adminAll ∨ ∀ role ∈ roles, ∀ p ∈ role.permissions, ActorHolds db actor p) :
    ∀ role ∈ roles, ¬ db.Carries role.id p := by
  intro role hrole hc
  rcases hg with hg | hg
  · exact ha hg
  · exact hp (hg role hrole p ((hs role hrole).permissions.mpr hc))

/-- An account that wears only roles without `p` does not hold `p`; the others hold it as before. -/
theorem no_gain_of_wears {id : Uuid} {roles : List Role}
    (hw : ∀ a r, db'.Wears a r ↔ if a = id then ∃ role ∈ roles, role.id = r else db.Wears a r)
    (hc : ∀ r p, db'.Carries r p ↔ db.Carries r p) (hl : ∀ role ∈ roles, ¬ db.Carries role.id p) :
    (∀ a, db'.Holds a p → db.Holds a p) ∧ ¬ db'.Holds id p := by
  have hid : ¬ db'.Holds id p := by
    intro h
    obtain ⟨r, hw', hc'⟩ := holds_iff.mp h
    rw [hw, if_pos rfl] at hw'
    obtain ⟨role, hrole, rfl⟩ := hw'
    exact hl role hrole ((hc _ _).mp hc')
  refine ⟨fun a h => ?_, hid⟩
  obtain ⟨r, hw', hc'⟩ := holds_iff.mp h
  by_cases ha : a = id
  · exact absurd (ha ▸ h) hid
  · rw [hw, if_neg ha] at hw'
    exact holds_iff.mpr ⟨r, hw', (hc r p).mp hc'⟩

theorem Keeps.no_gain (h : Keeps db db') (a : Uuid) (ha : db'.Holds a p) : db.Holds a p := by
  obtain ⟨r, hw, hc⟩ := holds_iff.mp ha
  exact holds_iff.mpr ⟨r, ((h.wears a r).mp hw).1, (h.carries r p).mp hc⟩

theorem Redefines.no_gain {id : Uuid} {permissions : List String} (h : Redefines db db' id permissions)
    (hp : p ∉ permissions) (a : Uuid) (ha : db'.Holds a p) : db.Holds a p := by
  obtain ⟨r, hw, hc⟩ := holds_iff.mp ha
  rw [h.carries] at hc
  split at hc
  · exact absurd hc hp
  · exact holds_iff.mpr ⟨r, (h.wears a r).mp hw, hc⟩

/-- **Nobody gains `p`** by a request of somebody who holds neither `p` nor `admin:all`, nor is an account created that
holds it. -/
theorem execute_no_gain {w : World} {q : Request} (hq : Powerless svc p w q) (h : execute svc w.db q = .ok db') :
    (∀ a, db'.Holds a p → w.db.Holds a p) ∧
      (w.db.users.get q.fresh = none → q.operation.creates = true → ¬ db'.Holds q.fresh p) := by
  obtain ⟨hp, ha, hd⟩ := hq
  have nobody : w.db.users.get q.fresh = none → ¬ w.db.Holds q.fresh p := by
    intro hn hh
    obtain ⟨r, hw, -⟩ := holds_iff.mp hh
    exact (w.db.userRoles_fk hw).1 hn
  unfold execute at h
  cases hop : q.operation with
  | register email password token =>
    rw [hop] at h
    rcases register_ok h with rfl | ⟨role, row, hrole, -, -, hwears, hcarries⟩
    · exact ⟨fun _ h => h, fun hn _ => nobody hn⟩
    · obtain ⟨hs, hname⟩ := getByName_stored hrole
      have hlacks : ∀ role' ∈ [role], ¬ w.db.Carries role'.id p := by simpa using default_lacks hd hs hname
      have hgain := no_gain_of_wears (fun a r => by simpa using hwears a r) hcarries hlacks
      exact ⟨hgain.1, fun _ _ => hgain.2⟩
  | verifyEmail token =>
    rw [hop] at h
    exact ⟨(verifyEmail_ok h).2.no_gain, by simp [Operation.creates]⟩
  | cleanUnverifiedAccounts =>
    rw [hop] at h
    cases h
    exact ⟨(cleanUnverifiedAccounts_spec _ svc q.now).2.no_gain, by simp [Operation.creates]⟩
  | createUser email password roleNames isActive =>
    rw [hop] at h
    obtain ⟨roles, row, hs, hgrant, -, -, -, hwears, hcarries⟩ := createUser_ok h
    have hl : ∀ role ∈ roles, ¬ w.db.Carries role.id p := by
      rcases hgrant with ⟨role, hrole, rfl⟩ | hgrant
      · simpa using default_lacks hd (getByName_stored hrole).1 (getByName_stored hrole).2
      · exact granted_lacks hp ha hs hgrant
    have := no_gain_of_wears hwears hcarries hl
    exact ⟨this.1, fun _ _ => this.2⟩
  | updateUserRoles userId roleNames =>
    rw [hop] at h
    obtain ⟨roles, -, hs, hgrant, -, -, hre⟩ := updateUserRoles_ok h
    exact ⟨(no_gain_of_wears hre.wears hre.carries (granted_lacks hp ha hs hgrant)).1, by simp [Operation.creates]⟩
  | deleteUser userId =>
    rw [hop] at h
    rw [bind_eq_ok] at h
    obtain ⟨deleted, hdel, h⟩ := h
    refine ⟨?_, by simp [Operation.creates]⟩
    split at h <;> rw [pure_eq_ok] at h <;> subst h
    · exact (deleteUser_ok hdel).2.2.2.no_gain
    · exact fun _ h => h
  | deactivateUser userId =>
    rw [hop] at h
    exact ⟨(deactivateUser_ok h).2.2.2.no_gain, by simp [Operation.creates]⟩
  | activateUser userId =>
    rw [hop] at h
    exact ⟨(activateUser_ok h).2.2.no_gain, by simp [Operation.creates]⟩
  | confirmUserEmail userId =>
    rw [hop] at h
    exact ⟨(confirmUserEmail_ok h).2.no_gain, by simp [Operation.creates]⟩
  | createRole name description permissionNames =>
    rw [hop] at h
    obtain ⟨hgrant, permissions, hiff, hre⟩ := createRole_ok h
    refine ⟨hre.no_gain fun hmem => ?_, by simp [Operation.creates]⟩
    rcases hgrant with hgrant | hgrant
    · exact ha hgrant
    · exact hp (hgrant p ((hiff p).mp hmem))
  | updateRolePermissions roleName permissionNames =>
    rw [hop] at h
    obtain ⟨role, permissions, -, hgrant, -, hiff, hre⟩ := updateRolePermissions_ok h
    refine ⟨hre.no_gain fun hmem => ?_, by simp [Operation.creates]⟩
    rcases hgrant with hgrant | hgrant
    · exact ha hgrant
    · exact hp (hgrant p ((hiff p).mp hmem))
  | deleteRole roleName =>
    -- An account left bare falls back to a role with the default name.
    rw [hop] at h
    obtain ⟨doomed, -, -, -, hwears, hcarries⟩ := deleteRole_ok h
    refine ⟨fun a hh => ?_, by simp [Operation.creates]⟩
    obtain ⟨r, hw, hc⟩ := holds_iff.mp hh
    obtain ⟨hc, hne⟩ := (hcarries r p).mp hc
    rcases (hwears a r).mp hw with ⟨hw, -⟩ | ⟨-, -, fallback, ⟨hfb, -⟩, rfl⟩
    · exact holds_iff.mpr ⟨r, hw, hc⟩
    · obtain ⟨⟨row, hrow, he⟩, hname⟩ := getByName_stored hfb
      simp only [Db.deleteRole, Rows.get_filter, Option.filter_eq_some_iff] at hrow
      obtain ⟨hmem, hkey⟩ := Rows.get_eq_some.mp hrow.1
      refine absurd hc ?_
      rw [← hkey]
      exact hd row hmem (by rw [← hname, he, toRole_name])

end Step

/-! ## Whole runs -/

/-- **No escalation.** In every run of requests that go through, whose actors hold neither `p` nor `admin:all` when
they act and in which no role with the default name carries `p`, an account that did not hold `p` at the start does
not hold it at the end, and neither does an account created on the way. -/
theorem no_escalation {w w' : World} {qs : List Request} (h₀ : w.created = [])
    (hq : Meets (step svc) (Powerless svc p) w qs) (h : run (step svc) w qs = some w') :
    (∀ a, ¬ w.db.Holds a p → ¬ w'.db.Holds a p) ∧ ∀ a ∈ w'.created, ¬ w'.db.Holds a p := by
  have hinv : (∀ a, w'.db.Holds a p → w.db.Holds a p) ∧ ∀ a ∈ w'.created, ¬ w'.db.Holds a p := by
    refine run_inv_of_meets (I := fun v => (∀ a, v.db.Holds a p → w.db.Holds a p) ∧
      ∀ a ∈ v.created, ¬ v.db.Holds a p) ?_ hq h ⟨fun _ h => h, by simp [h₀]⟩
    rintro v q v' hpow hstep ⟨hold, hcreated⟩
    unfold step at hstep
    split at hstep
    · rename_i hfresh
      split at hstep
      · rename_i db' hexec
        cases hstep
        obtain ⟨hgain, hnew⟩ := execute_no_gain hpow hexec
        refine ⟨fun a ha => hold a (hgain a ha), fun a ha hh => ?_⟩
        split at ha
        · rename_i hc
          rcases List.mem_cons.mp ha with rfl | ha
          · exact hnew hfresh.1 hc hh
          · exact hcreated a ha (hgain a hh)
        · exact hcreated a ha (hgain a hh)
      · simp at hstep
    · simp at hstep
  exact ⟨fun a hn hh => hn (hinv.1 a hh), hinv.2⟩

/-- A service whose default role is `user`, and that takes every address and password. -/
def plainServices : Services where
  defaultRoleName := "user"
  parseEmail := .ok
  hashPassword := .ok
  tokenDigest := id
  verificationTtl := 24
  unverifiedTtl := 48

def userRole : Role := ⟨1, "user", none, true, ["link:create"]⟩

def adminRole : Role := ⟨2, "admin", none, true, ["admin:all"]⟩

def auditorRole : Role := ⟨3, "auditor", none, false, ["audit:view"]⟩

def managerRole : Role := ⟨4, "manager", none, false, ["admin:manage_users", "admin:manage_roles", "link:create"]⟩

/-- An administrator (20), an auditor (21) and a manager of users and roles (22). -/
def office : Db :=
  .seed ["link:create", "admin:all", "audit:view", "admin:manage_users", "admin:manage_roles"]
    [userRole, adminRole, auditorRole, managerRole]
    [⟨20, "a@x", "h", [adminRole], true, true, 0⟩, ⟨21, "b@x", "h", [auditorRole], true, true, 0⟩,
      ⟨22, "c@x", "h", [managerRole], true, true, 0⟩]

/-- The manager makes an account and a role, assigns it, deletes the auditors' role and makes one of that name. -/
def managerAtWork : List Request :=
  [⟨some 22, .createUser "d@x" "pw" ["manager"] true, 1, 30⟩, ⟨some 22, .createRole "ops" none ["link:create"], 2, 31⟩,
    ⟨some 22, .updateUserRoles 30 ["ops", "user"], 3, 32⟩, ⟨some 22, .deleteRole "auditor", 4, 33⟩,
    ⟨some 22, .createRole "auditor" none ["admin:manage_users"], 5, 34⟩, ⟨none, .register "e@x" "pw" "t", 6, 35⟩]

theorem no_escalation_office : ∃ w', run (step plainServices) ⟨office, []⟩ managerAtWork = some w' ∧
    w'.created = [35, 30] ∧ ¬ w'.db.Holds 22 "audit:view" ∧ ¬ w'.db.Holds 30 "audit:view" := by
  have hrun : ((run (step plainServices) ⟨office, []⟩ managerAtWork).map (·.created)) = some [35, 30] := by
    decide +kernel
  obtain ⟨w', h, hc⟩ := Option.map_eq_some_iff.mp hrun
  obtain ⟨hold, hnew⟩ := no_escalation (p := "audit:view") rfl (by decide +kernel) h
  exact ⟨w', h, hc, hold 22 (by decide +kernel), hnew 30 (by simp [hc])⟩

end Escalation

end LinkShortener.Admin
