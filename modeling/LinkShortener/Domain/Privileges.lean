import Mathlib.Data.List.Dedup
import Mathlib.Data.List.Sort
import LinkShortener.Domain.Errors

/-!
# Accounts, roles and what they may do

The entities `Role` and `User`, and the policies over them: nobody confers what they do not hold
(`requireMayConfer`), nobody acts on an account that holds authority they do not (`requireMayActOn`), the last
administrator stays (`requireNotLastAdministrator`), and nobody wears `guest` (`requireRolesAreAssignable`).

Each check has one lemma that says when it lets through.
-/

namespace LinkShortener

/-! ## Entities -/

/-- A named collection of permissions, each known by its name. -/
structure Role where
  id : Uuid
  name : String
  description : Option String
  isSystem : Bool
  permissions : List String
  deriving DecidableEq, Repr

/-- An account with its roles. -/
structure User where
  id : Uuid
  email : String
  passwordHash : String
  roles : List Role
  isActive : Bool
  emailVerified : Bool
  createdAt : Instant
  deriving DecidableEq, Repr

def Role.hasPermission (role : Role) (p : String) : Bool := decide (p ∈ role.permissions)

def User.hasPermission (user : User) (p : String) : Bool := user.roles.any (·.hasPermission p)

/-- `admin:all`, the unrestricted administrative permission. -/
def adminAll : String := "admin:all"

/-- The role an unauthenticated caller acts under. -/
def guestRoleName : String := "guest"

/-! ## Checks -/

/-- A refusal, or nothing. -/
abbrev Check := Except DomainError Unit

/-- Refuse unless the condition holds. -/
def require (c : Bool) (e : DomainError) : Check := if c then .ok () else .error e

@[simp] theorem require_eq_ok {c : Bool} {e : DomainError} : require c e = .ok () ↔ c = true := by
  cases c <;> simp [require]

/-- A check that is asked only in some cases. -/
def onlyIf (c : Bool) (check : Check) : Check := if c then check else .ok ()

/-- A sequence of steps goes through when each of them does. -/
theorem bind_eq_ok {α β : Type} {x : Except DomainError α} {f : α → Except DomainError β} {b : β} :
    (x >>= f) = .ok b ↔ ∃ a, x = .ok a ∧ f a = .ok b := by
  cases x with
  | error e => simp [bind, Except.bind]
  | ok a => simp [bind, Except.bind]

theorem check_bind_eq_ok {β : Type} {x : Check} {f : Unit → Except DomainError β} {b : β} :
    (x >>= f) = .ok b ↔ x = .ok () ∧ f () = .ok b := by
  cases x with
  | error e => simp [bind, Except.bind]
  | ok a => simp [bind, Except.bind]

/-- What a list of steps gives, one of the steps gives. -/
theorem mapM_ok_mem {α β : Type} {f : α → Except DomainError β} {xs : List α} {ys : List β} (h : xs.mapM f = .ok ys)
    {y : β} (hy : y ∈ ys) : ∃ x ∈ xs, f x = .ok y := by
  induction xs generalizing ys with
  | nil =>
    cases h
    cases hy
  | cons x xs ih =>
    rw [List.mapM_cons] at h
    obtain ⟨y', hx, h⟩ := bind_eq_ok.mp h
    obtain ⟨ys', hxs, h⟩ := bind_eq_ok.mp h
    cases h
    rcases List.mem_cons.mp hy with rfl | hy
    · exact ⟨x, List.mem_cons_self, hx⟩
    · obtain ⟨x', hx', hf⟩ := ih hxs hy
      exact ⟨x', List.mem_cons_of_mem x hx', hf⟩

/-- A list of steps fails at one of them. -/
theorem mapM_error {α β : Type} {f : α → Except DomainError β} {xs : List α} {e : DomainError}
    (h : xs.mapM f = .error e) : ∃ x ∈ xs, f x = .error e := by
  induction xs with
  | nil => cases h
  | cons x xs ih =>
    rw [List.mapM_cons] at h
    cases hx : f x with
    | error e' =>
      rw [hx] at h
      cases h
      exact ⟨x, List.mem_cons_self, hx⟩
    | ok y =>
      rw [hx] at h
      cases hxs : xs.mapM f with
      | error e' =>
        rw [hxs] at h
        cases h
        obtain ⟨x', hx', he⟩ := ih hxs
        exact ⟨x', List.mem_cons_of_mem x hx', he⟩
      | ok ys =>
        rw [hxs] at h
        cases h

/-- A list of steps that all go through goes through. -/
theorem mapM_total {α β : Type} {f : α → Except DomainError β} {xs : List α} (h : ∀ x ∈ xs, ∃ y, f x = .ok y) :
    ∃ ys, xs.mapM f = .ok ys := by
  cases hxs : xs.mapM f with
  | ok ys => exact ⟨ys, rfl⟩
  | error e =>
    obtain ⟨x, hx, he⟩ := mapM_error hxs
    obtain ⟨y, hy⟩ := h x hx
    rw [hy] at he
    cases he

/-- What a list of steps gives agrees with what it was given wherever each step does. -/
theorem mapM_ok_map {α β γ : Type} {f : α → Except DomainError β} {xs : List α} {ys : List β} (h : xs.mapM f = .ok ys)
    {p : β → γ} {r : α → γ} (hf : ∀ x y, f x = .ok y → p y = r x) : ys.map p = xs.map r := by
  induction xs generalizing ys with
  | nil =>
    cases h
    rfl
  | cons x xs ih =>
    rw [List.mapM_cons] at h
    obtain ⟨y, hx, h⟩ := bind_eq_ok.mp h
    obtain ⟨ys', hxs, h⟩ := bind_eq_ok.mp h
    cases h
    rw [List.map_cons, List.map_cons, hf x y hx, ih hxs]

theorem pure_eq_ok {α : Type} {a b : α} : (pure a : Except DomainError α) = .ok b ↔ a = b := by
  simp [pure, Except.pure]

/-- Every permission an account holds through its roles; an anonymous caller holds none. -/
def permissionsHeldBy : Option User → List String
  | none => []
  | some user => user.roles.flatMap (·.permissions)

/-- Whether the account holds `admin:all`. -/
def isSuperuser : Option User → Bool
  | none => false
  | some user => user.hasPermission adminAll

/-- The names, sorted and without repeats. -/
def sortedSet (names : List String) : List String := names.dedup.insertionSort (· ≤ ·)

@[simp] theorem sortedSet_eq_nil {names : List String} : sortedSet names = [] ↔ names = [] := by
  rw [← List.length_eq_zero_iff, sortedSet, List.length_insertionSort, List.length_eq_zero_iff, List.dedup_eq_nil]

/-- An actor may hand out exactly what they hold. -/
def requireMayConfer (actor : Option User) (permissions : List String) : Check :=
  if isSuperuser actor then .ok () else
    let exceeded := sortedSet (permissions.filter fun p => decide (p ∉ permissionsHeldBy actor))
    require exceeded.isEmpty
      (.permissionDenied "You cannot grant permissions you do not hold yourself: " exceeded)

/-- Resources whose every permission is authority over the service. -/
def privilegedResources : List String := ["admin", "audit", "logs"]

/-- A permission that is authority rather than use: by its resource, or by reaching past its holder's own rows. -/
def isPrivileged (permission : String) : Bool :=
  let resource := permission.toList.takeWhile (· ≠ ':')
  let action := (permission.toList.dropWhile (· ≠ ':')).drop 1
  decide (String.ofList resource ∈ privilegedResources) || "_any".toList.isSuffixOf action

/-- An actor may act on an account whose authority they hold themselves. -/
def requireMayActOn (actor target : Option User) : Check :=
  if isSuperuser actor then .ok () else
    match target with
    | none => .ok ()
    | some user =>
      let exceeded := sortedSet ((permissionsHeldBy (some user)).filter fun p =>
        isPrivileged p && decide (p ∉ permissionsHeldBy actor))
      require exceeded.isEmpty
        (.permissionDenied "You cannot act on an account holding permissions you do not hold yourself: " exceeded)

/-- Somebody must be left. -/
def requireNotLastAdministrator (remaining : Nat) : Check :=
  require (decide (0 < remaining)) (.plain "This would leave the system without an administrator" "FORBIDDEN")

/-- No account wears `guest`; the first one that is asked for is named. -/
def requireRolesAreAssignable : List Role → Check
  | [] => .ok ()
  | role :: roles =>
    if role.name = guestRoleName then .error (.roleNotAssignable role.name) else requireRolesAreAssignable roles

/-- A role the service owns is not changed. -/
def Role.ensureMayBeChanged (role : Role) : Check := require (!role.isSystem) (.roleIsSystem role.name)

/-- A role's name is letters, digits, hyphen and underscore, 2 to 50 of them. -/
def requireValidRoleName (name : String) : Check := do
  require (name.toList.all (fun c => c.isAlphanum || c = '_' || c = '-') && !name.toList.isEmpty)
    (.validation "A role name must be letters, digits, hyphen or underscore" "name")
  require (decide (2 ≤ name.length ∧ name.length ≤ 50))
    (.validation "A role name must be 2 to 50 characters long" "name")

/-- A role's description is at most 255 characters. -/
def requireValidRoleDescription : Option String → Check
  | none => .ok ()
  | some description =>
    require (decide (description.length ≤ 255))
      (.validation "A role description must be at most 255 characters long" "description")

/-! ## When a check lets through -/

section Checks

variable {actor : Option User}

theorem isSuperuser_iff : isSuperuser actor = true ↔ adminAll ∈ permissionsHeldBy actor := by
  cases actor with
  | none => simp [isSuperuser, permissionsHeldBy]
  | some user => simp [isSuperuser, permissionsHeldBy, User.hasPermission, Role.hasPermission]

theorem requireMayConfer_eq_ok {permissions : List String} :
    requireMayConfer actor permissions = .ok () ↔
      isSuperuser actor = true ∨ ∀ p ∈ permissions, p ∈ permissionsHeldBy actor := by
  unfold requireMayConfer
  split
  · simp [*]
  · simp [*, List.filter_eq_nil_iff]

theorem requireMayActOn_eq_ok {user : User} :
    requireMayActOn actor (some user) = .ok () ↔ isSuperuser actor = true ∨
      ∀ p ∈ permissionsHeldBy (some user), isPrivileged p = true → p ∈ permissionsHeldBy actor := by
  unfold requireMayActOn
  split
  · simp [*]
  · simp [*, List.filter_eq_nil_iff]

theorem requireNotLastAdministrator_eq_ok {remaining : Nat} :
    requireNotLastAdministrator remaining = .ok () ↔ 0 < remaining := by
  simp [requireNotLastAdministrator]

theorem requireRolesAreAssignable_eq_ok {roles : List Role} :
    requireRolesAreAssignable roles = .ok () ↔ ∀ role ∈ roles, role.name ≠ guestRoleName := by
  induction roles with
  | nil => simp [requireRolesAreAssignable]
  | cons role roles ih =>
    rw [requireRolesAreAssignable, List.forall_mem_cons]
    split
    · simp [*]
    · simp [*]

theorem ensureMayBeChanged_eq_ok {role : Role} : role.ensureMayBeChanged = .ok () ↔ role.isSystem = false := by
  simp [Role.ensureMayBeChanged]

end Checks

end LinkShortener
