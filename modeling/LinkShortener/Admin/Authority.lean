import LinkShortener.Admin.Escalation

/-!
# Taking authority away

Nobody acts on an account that holds authority they do not hold themselves. The rule is asked per account; the two use
cases that act on a role reach every account that wears it without asking (`authority_taken`).

`authority_kept_iff` says exactly when an operation that goes through leaves everybody's authority alone: always for
the use cases on accounts, and for the two on a role when every other account that wears it has what the actor lacks
from elsewhere (`LeavesAuthority`).
-/

namespace LinkShortener.Admin

open Db

/-- The administrative use cases that the rule is about. -/
def Operation.administrative : Operation → Bool
  | .updateUserRoles .. | .deleteUser _ | .deactivateUser _ | .activateUser _ | .createUser .. | .createRole ..
  | .updateRolePermissions .. | .deleteRole _ => true
  | _ => false

/-- Every other account with a privileged permission that the actor does not hold is there afterwards, is as active as
before, and holds it. -/
def AuthorityKept (db db' : Db) (actor : Option Uuid) : Prop :=
  ∀ a q, actor ≠ some a → db.Holds a q → isPrivileged q = true → ¬ ActorHolds db actor q →
    db'.users.get a ≠ none ∧ (db'.users.get a).map (·.isActive) = (db.users.get a).map (·.isActive) ∧ db'.Holds a q

/-- **The condition.** For the operations on a role: what another account has from the role and the actor lacks, it
has from another role too, or from the role it falls back to. -/
def LeavesAuthority (svc : Services) (db : Db) (actor : Option Uuid) : Operation → Prop
  | .updateRolePermissions roleName _ => ∀ role, db.getByName roleName = some role → ∀ a q, actor ≠ some a →
      db.Wears a role.id → db.Carries role.id q → isPrivileged q = true → ¬ ActorHolds db actor q →
      ∃ r, r ≠ role.id ∧ db.Wears a r ∧ db.Carries r q
  | .deleteRole roleName => ∀ role, db.getByName roleName = some role → ∀ a q, actor ≠ some a →
      db.Wears a role.id → db.Carries role.id q → isPrivileged q = true → ¬ ActorHolds db actor q →
      (∃ r, r ≠ role.id ∧ db.Wears a r ∧ db.Carries r q) ∨
        (∀ r, db.Wears a r → r = role.id) ∧ ∃ fallback, Fallback svc db role.id fallback ∧ db.Carries fallback.id q
  | _ => True

section Authority

variable {svc : Services} {db db' : Db} {actor : Option Uuid} {id : Uuid}

/-! ## Operations on accounts -/

/-- An operation whose effect on other accounts is none keeps their authority, if it may act on the one it changes. -/
theorem kept_of_acts (id : Uuid) (hs : ¬ ActorHolds db actor adminAll)
    (hact : ActorHolds db actor adminAll ∨ ∀ p, db.Holds id p → isPrivileged p = true → ActorHolds db actor p)
    (hu : ∀ a, a ≠ id → db'.users.get a = db.users.get a) (hw : ∀ a r, a ≠ id → (db'.Wears a r ↔ db.Wears a r))
    (hc : ∀ r p, db'.Carries r p ↔ db.Carries r p) : AuthorityKept db db' actor := by
  intro a q _ hh hpriv hlack
  have hne : a ≠ id := by
    rintro rfl
    rcases hact with hact | hact
    · exact hs hact
    · exact hlack (hact q hh hpriv)
  obtain ⟨r, hwear, hcarry⟩ := holds_iff.mp hh
  rw [hu a hne]
  exact ⟨(db.userRoles_fk hwear).1, rfl, holds_iff.mpr ⟨r, (hw a r hne).mpr hwear, (hc r q).mpr hcarry⟩⟩

/-- An account that does not exist yet holds nothing anybody could take away. -/
theorem kept_of_new (hnew : db.users.get id = none) (hu : ∀ a, a ≠ id → db'.users.get a = db.users.get a)
    (hw : ∀ a r, a ≠ id → (db'.Wears a r ↔ db.Wears a r)) (hc : ∀ r p, db'.Carries r p ↔ db.Carries r p) :
    AuthorityKept db db' actor := by
  intro a q _ hh _ _
  obtain ⟨r, hwear, hcarry⟩ := holds_iff.mp hh
  have hne : a ≠ id := by
    rintro rfl
    exact (db.userRoles_fk hwear).1 hnew
  rw [hu a hne]
  exact ⟨(db.userRoles_fk hwear).1, rfl, holds_iff.mpr ⟨r, (hw a r hne).mpr hwear, (hc r q).mpr hcarry⟩⟩

/-! ## Operations on roles -/

/-- A new role changes nobody. -/
theorem kept_of_newRole {permissions : List String} (hnew : db.roles.get id = none)
    (h : Redefines db db' id permissions) : AuthorityKept db db' actor := by
  intro a q _ hh _ _
  obtain ⟨r, hwear, hcarry⟩ := holds_iff.mp hh
  have hne : r ≠ id := by
    rintro rfl
    exact (db.userRoles_fk hwear).2 hnew
  rw [h.users]
  refine ⟨(db.userRoles_fk hwear).1, rfl, holds_iff.mpr ⟨r, (h.wears a r).mpr hwear, ?_⟩⟩
  rw [h.carries, if_neg hne]
  exact hcarry

/-- What the actor lacks cannot be among the permissions they give a role. -/
theorem not_granted (hs : ¬ ActorHolds db actor adminAll) {names : List String}
    (hg : ActorHolds db actor adminAll ∨ ∀ p ∈ names, ActorHolds db actor p) {q : String}
    (hlack : ¬ ActorHolds db actor q) : q ∉ names := by
  rcases hg with hg | hg
  · exact absurd hg hs
  · exact fun hmem => hlack (hg q hmem)

theorem updateRolePermissions_kept_iff (hs : ¬ ActorHolds db actor adminAll) {roleName : String}
    {permissionNames : List String} (h : updateRolePermissions db actor roleName permissionNames = .ok db') :
    AuthorityKept db db' actor ↔ LeavesAuthority svc db actor (.updateRolePermissions roleName permissionNames) := by
  obtain ⟨role, permissions, hrole, hgrant, -, hiff, hre⟩ := updateRolePermissions_ok h
  have lost : ∀ {q}, ¬ ActorHolds db actor q → q ∉ permissions := fun hlack hmem =>
    not_granted hs hgrant hlack ((hiff _).mp hmem)
  constructor
  · intro hkept role' hrole' a q hne hwear hcarry hpriv hlack
    rw [hrole] at hrole'
    cases hrole'
    obtain ⟨r, hw, hc⟩ := holds_iff.mp (hkept a q hne (holds_iff.mpr ⟨_, hwear, hcarry⟩) hpriv hlack).2.2
    rw [hre.carries] at hc
    split at hc
    · exact absurd hc (lost hlack)
    · rename_i hr
      exact ⟨r, hr, (hre.wears a r).mp hw, hc⟩
  · intro hsafe a q hne hh hpriv hlack
    obtain ⟨r, hwear, hcarry⟩ := holds_iff.mp hh
    rw [hre.users]
    refine ⟨(db.userRoles_fk hwear).1, rfl, ?_⟩
    -- The role that carries `q` now: the same one, or the one the condition gives.
    obtain ⟨r', hr', hwear', hcarry'⟩ : ∃ r', r' ≠ role.id ∧ db.Wears a r' ∧ db.Carries r' q := by
      by_cases hr : r = role.id
      · subst hr
        exact hsafe role hrole a q hne hwear hcarry hpriv hlack
      · exact ⟨r, hr, hwear, hcarry⟩
    refine holds_iff.mpr ⟨r', (hre.wears a r').mpr hwear', ?_⟩
    rw [hre.carries, if_neg hr']
    exact hcarry'

/-- The fallback role is not the one that goes. -/
theorem Fallback.ne {doomed : Uuid} {fallback : Role} (h : Fallback svc db doomed fallback) : fallback.id ≠ doomed := by
  have hex := (getByName_stored h.1).1.exists
  rintro rfl
  obtain ⟨row, hrow⟩ := Option.ne_none_iff_exists'.mp hex
  simp only [Db.deleteRole, Rows.get_filter, Option.filter_eq_some_iff, decide_eq_true_eq] at hrow
  exact hrow.2 (Rows.key_of_get hrow.1)

theorem deleteRole_kept_iff {roleName : String} (h : deleteRole db svc roleName = .ok db') :
    AuthorityKept db db' actor ↔ LeavesAuthority svc db actor (.deleteRole roleName) := by
  obtain ⟨doomed, hdoomed, -, husers, hwears, hcarries⟩ := deleteRole_ok h
  constructor
  · intro hkept role' hrole' a q hne hwear hcarry hpriv hlack
    rw [hdoomed] at hrole'
    cases hrole'
    obtain ⟨r, hw, hc⟩ := holds_iff.mp (hkept a q hne (holds_iff.mpr ⟨_, hwear, hcarry⟩) hpriv hlack).2.2
    have hc' := ((hcarries r q).mp hc).1
    rcases (hwears a r).mp hw with ⟨hw, hr⟩ | ⟨-, honly, fallback, hfb, rfl⟩
    · exact .inl ⟨r, hr, hw, hc'⟩
    · exact .inr ⟨honly, fallback, hfb, hc'⟩
  · intro hsafe a q hne hh hpriv hlack
    obtain ⟨r, hwear, hcarry⟩ := holds_iff.mp hh
    rw [husers]
    refine ⟨(db.userRoles_fk hwear).1, rfl, ?_⟩
    have other : ∀ r', r' ≠ doomed.id → db.Wears a r' → db.Carries r' q → db'.Holds a q := fun r' hr' hw' hc' =>
      holds_iff.mpr ⟨r', (hwears a r').mpr (.inl ⟨hw', hr'⟩), (hcarries r' q).mpr ⟨hc', hr'⟩⟩
    by_cases hr : r = doomed.id
    · subst hr
      rcases hsafe doomed hdoomed a q hne hwear hcarry hpriv hlack with
        ⟨r', hr', hw', hc'⟩ | ⟨honly, fallback, hfb, hc'⟩
      · exact other r' hr' hw' hc'
      · refine holds_iff.mpr ⟨fallback.id, (hwears a _).mpr (.inr ⟨hwear, honly, fallback, hfb, rfl⟩), ?_⟩
        exact (hcarries _ q).mpr ⟨hc', hfb.ne⟩
    · exact other r hr hwear hcarry

/-! ## All operations -/

/-- **When authority stays.** For every administrative operation that goes through and whose actor does not hold
`admin:all`. -/
theorem authority_kept_iff {q : Request} (hop : q.operation.administrative = true)
    (hfresh : db.users.get q.fresh = none ∧ db.roles.get q.fresh = none) (hs : ¬ ActorHolds db q.actor adminAll)
    (h : execute svc db q = .ok db') :
    AuthorityKept db db' q.actor ↔ LeavesAuthority svc db q.actor q.operation := by
  unfold execute at h
  cases hq : q.operation with
  | register email password token => simp [hq, Operation.administrative] at hop
  | verifyEmail token => simp [hq, Operation.administrative] at hop
  | cleanUnverifiedAccounts => simp [hq, Operation.administrative] at hop
  | confirmUserEmail userId => simp [hq, Operation.administrative] at hop
  | createUser email password roleNames isActive =>
    rw [hq] at h
    obtain ⟨roles, row, -, -, -, -, husers, hwears, hcarries⟩ := createUser_ok h
    refine iff_of_true (kept_of_new hfresh.1 ?_ ?_ hcarries) trivial
    · intro a ha
      rw [husers, if_neg ha]
    · intro a r ha
      rw [hwears, if_neg ha]
  | updateUserRoles userId roleNames =>
    rw [hq] at h
    obtain ⟨roles, -, -, -, hact, -, hre⟩ := updateUserRoles_ok h
    refine iff_of_true (kept_of_acts userId hs hact (fun a _ => hre.users a) ?_ hre.carries) trivial
    intro a r ha
    rw [hre.wears, if_neg ha]
  | deleteUser userId =>
    rw [hq, bind_eq_ok] at h
    obtain ⟨deleted, hdel, h⟩ := h
    refine iff_of_true ?_ trivial
    split at h <;> rw [pure_eq_ok] at h <;> subst h
    · obtain ⟨hact, -, husers, hkeeps⟩ := deleteUser_ok hdel
      have hne : ∀ a, a ≠ userId → _ = db.users.get a := fun a ha => (husers a).trans (if_neg ha)
      exact kept_of_acts _ hs hact hne (hkeeps.wears_of_ne hne) hkeeps.carries
    · intro a q' _ hh _ _
      obtain ⟨r, hwear, -⟩ := holds_iff.mp hh
      exact ⟨(db.userRoles_fk hwear).1, rfl, hh⟩
  | deactivateUser userId =>
    rw [hq] at h
    obtain ⟨hact, -, ⟨row, -, husers⟩, hkeeps⟩ := deactivateUser_ok h
    have hne : ∀ a, a ≠ userId → db'.users.get a = db.users.get a := fun a ha => (husers a).trans (if_neg ha)
    exact iff_of_true (kept_of_acts _ hs hact hne (hkeeps.wears_of_ne hne) hkeeps.carries) trivial
  | activateUser userId =>
    rw [hq] at h
    obtain ⟨hact, ⟨row, -, husers⟩, hkeeps⟩ := activateUser_ok h
    have hne : ∀ a, a ≠ userId → db'.users.get a = db.users.get a := fun a ha => (husers a).trans (if_neg ha)
    exact iff_of_true (kept_of_acts _ hs hact hne (hkeeps.wears_of_ne hne) hkeeps.carries) trivial
  | createRole name description permissionNames =>
    rw [hq] at h
    obtain ⟨-, permissions, -, hre⟩ := createRole_ok h
    exact iff_of_true (kept_of_newRole hfresh.2 hre) trivial
  | updateRolePermissions roleName permissionNames =>
    rw [hq] at h
    exact updateRolePermissions_kept_iff hs h
  | deleteRole roleName =>
    rw [hq] at h
    exact deleteRole_kept_iff h

/-- The manager takes the right to manage roles out of their own role. -/
def managerNarrowsOwn : Request := ⟨some 22, .updateRolePermissions "manager" ["admin:manage_users"], 1, 40⟩

theorem authority_kept_office : ∃ db', execute plainServices office managerNarrowsOwn = .ok db' ∧
    AuthorityKept office db' (some 22) := by
  cases h : execute plainServices office managerNarrowsOwn with
  | error e =>
    have hok : (execute plainServices office managerNarrowsOwn).isOk = true := by decide +kernel
    simp [h, Except.isOk, Except.toBool] at hok
  | ok db' =>
    refine ⟨db', rfl, (authority_kept_iff (q := managerNarrowsOwn) rfl (by decide +kernel) (by decide +kernel) h).mpr ?_⟩
    intro role hrole a q hne hwear hcarry hpriv hlack
    have hid : role.id = 4 := by
      have hname : (office.getByName "manager").map (·.id) = some 4 := by decide +kernel
      rw [hrole] at hname
      simpa using hname
    have honly : ∀ e ∈ office.userRoles, e.2 = 4 → e.1 = 22 := by decide +kernel
    have ha : a = 22 := honly (a, role.id) hwear hid
    exact absurd (by rw [ha]; rfl) hne

/-- The manager, who does not hold `audit:view`, empties the auditors' role of it. -/
def managerStripsAuditors : Request := ⟨some 22, .updateRolePermissions "auditor" ["link:create"], 1, 40⟩

/-- **Authority taken away** from the auditor by somebody who does not hold it. -/
theorem authority_taken : ∃ db', execute plainServices office managerStripsAuditors = .ok db' ∧
    ¬ ActorHolds office (some 22) adminAll ∧ ¬ ActorHolds office (some 22) "audit:view" ∧
    isPrivileged "audit:view" = true ∧ office.Holds 21 "audit:view" ∧ ¬ db'.Holds 21 "audit:view" ∧
    ¬ AuthorityKept office db' (some 22) := by
  cases h : execute plainServices office managerStripsAuditors with
  | error e =>
    have hok : (execute plainServices office managerStripsAuditors).isOk = true := by decide +kernel
    simp [h, Except.isOk, Except.toBool] at hok
  | ok db' =>
    have hlost : ¬ db'.Holds 21 "audit:view" := by
      have hgone : ((execute plainServices office managerStripsAuditors).toOption.any fun db' =>
          decide (db'.Holds 21 "audit:view")) = false := by decide +kernel
      rw [h] at hgone
      simpa [Except.toOption] using hgone
    have hlack : ¬ ActorHolds office (some 22) "audit:view" := by decide +kernel
    have hheld : office.Holds 21 "audit:view" := by decide +kernel
    have hpriv : isPrivileged "audit:view" = true := by decide +kernel
    refine ⟨db', rfl, by decide +kernel, hlack, hpriv, hheld, hlost, fun hkept => hlost ?_⟩
    exact (hkept 21 "audit:view" (by simp) hheld hpriv hlack).2.2

end Authority

end LinkShortener.Admin
