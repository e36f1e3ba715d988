import LinkShortener.Accounts.Invariant

/-!
# The administrator set under any interleaving

An operation that may take `admin:all` away first asks whether it does, and only then takes the lock on the
administrator set and counts the administrators that remain. The question is asked without the lock, and what it was
answered can change before the operation commits.

* `AdminVia`: an active account that holds `admin:all` through a role.
* `guardHolds`: the guard's question, asked again when the operation commits, still has an answer that lets it through;
  and no account is moved between roles with `admin:all` while somebody else holds the lock.
* `administrator_survives`: in every run that meets this, and in which each `save` finds the account as it was read,
  an administrator remains after every commit.
* `administrator_lost`: the last administrator is moved onto a role while that role loses `admin:all`.
-/

namespace LinkShortener.Accounts

open ReadCommitted Transactions

/-! ## Administrators -/

namespace Snapshot

variable {sn : Snapshot} {u r : Uuid}

theorem mem_rolesOf : r ∈ sn.rolesOf u ↔ .wears u r ∈ sn.keys ∧ sn.has (.wears u r) = true ∧ sn.has (.role r) = true := by
  simp only [rolesOf, List.mem_filterMap]
  constructor
  · rintro ⟨k, hk, h⟩
    cases k with
    | wears u' r' =>
      simp only at h
      split at h
      · rename_i hc
        obtain ⟨rfl, h₁, h₂⟩ := hc
        cases h
        exact ⟨hk, h₁, h₂⟩
      · cases h
    | _ => cases h
  · rintro ⟨hk, h₁, h₂⟩
    exact ⟨_, hk, by simp [h₁, h₂]⟩

theorem mem_permissionsOf {q : String} :
    q ∈ sn.permissionsOf r ↔ .grants r q ∈ sn.keys ∧ sn.has (.grants r q) = true := by
  simp only [permissionsOf, List.mem_filterMap]
  constructor
  · rintro ⟨k, hk, h⟩
    cases k with
    | grants r' q' =>
      simp only at h
      split at h
      · rename_i hc
        obtain ⟨rfl, h₁⟩ := hc
        cases h
        exact ⟨hk, h₁⟩
      · cases h
    | _ => cases h
  · rintro ⟨hk, h₁⟩
    exact ⟨_, hk, by simp [h₁]⟩

/-- The role grants `admin:all`. -/
def carriesAdmin (sn : Snapshot) (r : Uuid) : Bool := decide (adminAll ∈ sn.permissionsOf r)

/-- Some role of the account grants `admin:all`. -/
def keepsAdmin (sn : Snapshot) (u : Uuid) : Bool := (sn.rolesOf u).any sn.carriesAdmin

/-- `is_administrator`. -/
def isAdministrator (sn : Snapshot) (u : Uuid) : Bool := sn.has (.user u) && sn.keepsAdmin u

end Snapshot

/-- The account `u` is active and holds `admin:all` through the role `r`. -/
structure AdminVia (sn : Snapshot) (u r : Uuid) : Prop where
  active : ∃ a, sn.row (.user u) = some a ∧ a.isActive = true
  wears : sn.has (.wears u r) = true
  role : sn.has (.role r) = true
  grants : sn.has (.grants r adminAll) = true

/-- Some administrator is left without the excluded user or role. -/
def AdminApart (sn : Snapshot) (x : Option Excluded) : Prop :=
  ∃ u r, AdminVia sn u r ∧ x ≠ some (.user u) ∧ x ≠ some (.role r)

/-- A count that is not zero has counted somebody. -/
theorem adminApart_of_count {sn : Snapshot} {x : Option Excluded}
    (h : 0 < sn.countActiveWithPermission adminAll x) : AdminApart sn x := by
  obtain ⟨k, hk⟩ := List.exists_mem_of_length_pos h
  obtain ⟨-, hk⟩ := List.mem_filter.mp hk
  cases k with
  | user u =>
    simp only [Snapshot.holdsApart, Bool.and_eq_true, decide_eq_true_eq, Option.any_eq_true, List.any_eq_true] at hk
    obtain ⟨⟨hactive, hu⟩, r, hr, hxr, hq⟩ := hk
    obtain ⟨-, hwears, hrole⟩ := Snapshot.mem_rolesOf.mp hr
    obtain ⟨-, hgrants⟩ := Snapshot.mem_permissionsOf.mp hq
    exact ⟨u, r, ⟨hactive, hwears, hrole, hgrants⟩, hu, hxr⟩
  | _ => cases hk

section Committed

variable {T : Type} {S : Store T Value} {u r : Uuid}

theorem mem_keys_of_has {k : Key} (h : (committedNow S).has k = true) : k ∈ S.keys := by
  obtain ⟨v, hv⟩ := Option.isSome_iff_exists.mp h
  exact Store.mem_keys_of_committed hv

theorem AdminVia.carriesAdmin (h : AdminVia (committedNow S) u r) : (committedNow S).carriesAdmin r = true := by
  rw [Snapshot.carriesAdmin, decide_eq_true_eq, Snapshot.mem_permissionsOf]
  exact ⟨mem_keys_of_has h.grants, h.grants⟩

theorem AdminVia.isAdministrator (h : AdminVia (committedNow S) u r) : (committedNow S).isAdministrator u = true := by
  obtain ⟨a, ha, -⟩ := h.active
  have hr : r ∈ (committedNow S).rolesOf u := Snapshot.mem_rolesOf.mpr ⟨mem_keys_of_has h.wears, h.wears, h.role⟩
  rw [Snapshot.isAdministrator, Snapshot.keepsAdmin, Bool.and_eq_true, List.any_eq_true]
  exact ⟨by simp [Snapshot.has, ha], r, hr, h.carriesAdmin⟩

/-- An administrator is counted. -/
theorem count_of_adminVia (h : AdminVia (committedNow S) u r) :
    0 < (committedNow S).countActiveWithPermission adminAll none := by
  obtain ⟨a, ha, hactive⟩ := h.active
  have hk : Key.user u ∈ S.keys := mem_keys_of_has (by simp [Snapshot.has, ha])
  have hr : r ∈ (committedNow S).rolesOf u := Snapshot.mem_rolesOf.mpr ⟨mem_keys_of_has h.wears, h.wears, h.role⟩
  have hq : adminAll ∈ (committedNow S).permissionsOf r :=
    Snapshot.mem_permissionsOf.mpr ⟨mem_keys_of_has h.grants, h.grants⟩
  apply List.length_pos_of_mem (a := Key.user u)
  refine List.mem_filter.mpr ⟨hk, ?_⟩
  simp only [Snapshot.holdsApart, Bool.and_eq_true, Option.any_eq_true, List.any_eq_true]
  exact ⟨⟨⟨a, ha, hactive⟩, by simp⟩, r, hr, by simp, by simpa using hq⟩

end Committed

/-! ## The condition -/

section Condition

variable {T : Type} [DecidableEq T]

/-- **The condition on a commit**: the question that decides whether the lock is needed, asked again of the committed
state, is answered no, or the transaction has the lock and counted without the user or role it changes. An account
that keeps `admin:all` through its new roles is moved only while nobody holds the lock. -/
def guardHolds (s : System T) : Event T → Bool
  | .next t =>
    let now := committedNow s.store
    let p := s.procs t
    match p.pc, p.op with
    | .committing, .updateUserRoles u _ =>
      !now.isAdministrator u || decide (p.counted = some (.user u)) ||
        decide (s.locks () = none) && (seenBy s.store t).keepsAdmin u
    | .committing, .deactivateUser u | .committing, .deleteUser u =>
      !now.isAdministrator u || decide (p.counted = some (.user u))
    | .committing, .deleteRole _ => p.role.all fun r => !now.carriesAdmin r || decide (p.counted = some (.role r))
    | .committing, .updateRolePermissions _ permissions =>
      decide (adminAll ∈ permissions) ||
        p.role.all fun r => !now.carriesAdmin r || decide (p.counted = some (.role r))
    | _, _ => true
  | .fail _ => true

end Condition

/-! ## What an operation spares -/

/-- The operation leaves alone what makes `u` an administrator through `r`. -/
def Proc.Spares (p : Proc) (u r : Uuid) : Prop :=
  match p.op with
  | .updateUserRoles u' _ | .deactivateUser u' | .deleteUser u' => u' ≠ u
  | .deleteRole _ => p.role ≠ some r
  | .updateRolePermissions _ permissions => adminAll ∈ permissions ∨ p.role ≠ some r
  | _ => True

section Commit

variable {T : Type} [DecidableEq T] {s : System T} {t : T} {u r : Uuid}

/-- A row that was there and that the operation may not remove is there after its commit. -/
theorem has_commit (hi : Inv s) {k : Key} (h : (committedNow s.store).has k = true)
    (hmay : ¬ (s.procs t).May k (s.store.committed k) none) : (committedNow (s.store.commit t)).has k = true := by
  rcases hi.written.committed t k with hw | hsame
  · cases hv : (s.store.commit t).committed k with
    | none =>
      rw [hv] at hw
      exact absurd hw.2 hmay
    | some v => simp [committedNow, Snapshot.has, hv]
  · simpa [committedNow, Snapshot.has, hsame] using h

/-- **A commit keeps the administrators its operation spares.** -/
theorem adminVia_commit (hi : Inv s) (hsp : (s.procs t).Spares u r) (hv : AdminVia (committedNow s.store) u r) :
    AdminVia (committedNow (s.store.commit t)) u r := by
  unfold Proc.Spares at hsp
  refine ⟨?_, ?_, ?_, ?_⟩
  · obtain ⟨a, ha, hactive⟩ := hv.active
    have hc : s.store.committed (.user u) = some a := ha
    rcases hi.written.committed t (.user u) with hw | hsame
    · have hmay := hw.2
      rw [hc] at hmay
      cases hb : (s.store.commit t).committed (.user u) with
      | none =>
        rw [hb] at hmay
        have hop : (s.procs t).op = .deleteUser u := hmay
        rw [hop] at hsp
        exact absurd rfl hsp
      | some b =>
        rw [hb] at hmay
        refine ⟨b, hb, ?_⟩
        rcases hmay.active with hsame | ⟨-, htrue⟩ | ⟨hop, -⟩
        · rw [hsame]
          exact hactive
        · exact htrue
        · rw [hop] at hsp
          exact absurd rfl hsp
    · exact ⟨a, hsame.trans hc, hactive⟩
  · refine has_commit hi hv.wears ?_
    simp only [Proc.May]
    split <;> simp_all
  · refine has_commit hi hv.role ?_
    simp only [Proc.May]
    split <;> simp_all
  · refine has_commit hi hv.grants ?_
    simp only [Proc.May]
    split
    · rename_i hop
      rw [hop] at hsp
      exact hsp
    · rename_i name permissions hop
      rw [hop] at hsp
      rintro ⟨hrole, hgrant⟩
      rcases hsp with hmem | hne
      · cases hgrant hmem
      · exact hne hrole
    · exact id

/-- After a commit the committed rows are those the transaction saw. -/
theorem row_commit (S : Store T Value) (t : T) (k : Key) :
    (committedNow (S.commit t)).row k = (seenBy S t).row k := by
  show (S.commit t).committed k = S.view t k
  rw [Store.committed_commit]
  rfl

end Commit

/-! ## The guard, statement by statement -/

/-- The administrators are counted next. -/
def Pc.counts : Pc → Bool
  | .counting _ | .countingRole _ => true
  | _ => false

/-- What a statement has to do with the guard. -/
inductive GuardStep (sn : Snapshot) (p : Proc) : Act → Prop
  | plain {p' : Proc} : p'.counted = p.counted → p'.pc.counts = false → GuardStep sn p (.goto p')
  | write {k : Key} {v : Option (Value k)} {p' : Proc} : p'.counted = p.counted → p'.pc.counts = false →
      GuardStep sn p (.write k v p')
  | lock {p' : Proc} : p'.counted = p.counted → GuardStep sn p (.lock () p')
  | count {p' : Proc} {x : Excluded} : p.pc.counts = true → p.pc.late = false →
      0 < sn.countActiveWithPermission adminAll (some x) → p'.counted = some x → p'.pc.counts = false →
      GuardStep sn p (.goto p')
  | commit : p.pc = .committing → GuardStep sn p (.commit p.done)
  | rollback : GuardStep sn p (.rollback p.done)

section Guard

variable {defaultRoleName : String} {sn : Snapshot} {p : Proc} {a : Act}

theorem guardStep_at (pc : Pc) (h : pc.counts = false) : GuardStep sn p (.goto (p.at_ pc)) := .plain rfl h

theorem guarded_counts (p : Proc) (roles : List Role) : (guarded p roles).counts = false := by
  unfold guarded
  split <;> rfl

theorem guardStep_account (u : Uuid) : GuardStep sn p (nextOnAccount sn p u p.pc) := by
  cases hpc : p.pc with
  | inspecting roles load =>
    simp only [nextOnAccount]
    split
    · exact guardStep_at _ (guarded_counts p roles)
    · exact guardStep_at _ rfl
    · split
      · exact guardStep_at _ rfl
      · exact guardStep_at _ (guarded_counts p roles)
  | locking roles => exact .lock rfl
  | counting roles =>
    simp only [nextOnAccount]
    split
    · rename_i hpos
      exact .count (by rw [hpc]; rfl) (by rw [hpc]; rfl) hpos rfl (guarded_counts p roles)
    · exact .rollback
  | loading roles load =>
    simp only [nextOnAccount]
    split
    · exact .rollback
    · exact guardStep_at _ rfl
    · unfold change
      split
      · split
        · exact guardStep_at _ rfl
        · exact .rollback
      · split
        · exact guardStep_at _ rfl
        · exact .rollback
      · split
        · exact .rollback
        · exact guardStep_at _ rfl
      · exact guardStep_at _ rfl
  | gettingUser =>
    simp only [nextOnAccount]
    split
    · exact guardStep_at _ rfl
    · exact .rollback
  | gettingRoles => exact guardStep_at _ rfl
  | recordingLogin =>
    simp only [nextOnAccount]
    split
    · exact .write rfl rfl
    · exact guardStep_at _ rfl
  | _ => exact .rollback

theorem guardStep_role (name : String) : GuardStep sn p (nextOnRole sn p name p.pc) := by
  cases hpc : p.pc with
  | findingRole half =>
    simp only [nextOnRole]
    split
    · exact guardStep_at _ rfl
    · exact guardStep_at _ rfl
    · split
      · exact guardStep_at _ rfl
      · exact guardStep_at _ rfl
  | lockingRole role => exact .lock rfl
  | countingRole role =>
    simp only [nextOnRole]
    split
    · rename_i hpos
      exact .count (by rw [hpc]; rfl) (by rw [hpc]; rfl) hpos rfl rfl
    · exact .rollback
  | listingWearers role => exact guardStep_at _ rfl
  | findingAgain wearers half =>
    simp only [nextOnRole]
    split
    · exact .rollback
    · exact guardStep_at _ rfl
    · split
      · exact .rollback
      · exact .plain rfl rfl
  | gettingRole role wearers =>
    simp only [nextOnRole]
    split
    · exact guardStep_at _ rfl
    · exact guardStep_at _ rfl
  | gettingGrants role row wearers =>
    simp only [nextOnRole]
    split
    · exact guardStep_at _ rfl
    · exact guardStep_at _ rfl
  | gettingUsers role grants wearers => exact guardStep_at _ rfl
  | _ => exact .rollback

theorem guardStep_shared (h : nextShared defaultRoleName sn p p.pc = some a) : GuardStep sn p a := by
  cases hpc : p.pc with
  | resolving names half found =>
    rw [hpc] at h
    cases names with
    | nil =>
      simp only [nextShared] at h
      split at h <;> cases h
      · exact .rollback
      · exact guardStep_at _ rfl
    | cons name names =>
      simp only [nextShared] at h
      split at h <;> cases h
      · exact .rollback
      · exact guardStep_at _ rfl
      · exact guardStep_at _ rfl
  | saving save =>
    rw [hpc] at h
    cases h
    exact guardStep_at _ rfl
  | syncing save row =>
    rw [hpc] at h
    cases h
    exact guardStep_at _ rfl
  | attaching save row reread left =>
    rw [hpc] at h
    cases left with
    | nil =>
      cases h
      exact guardStep_at _ rfl
    | cons r left =>
      simp only [nextShared] at h
      split at h
      · cases h
        exact guardStep_at _ rfl
      · split at h <;> cases h
        · exact guardStep_at _ rfl
        · exact .rollback
  | flushing todo rest =>
    rw [hpc] at h
    cases todo with
    | nil =>
      cases h
      refine guardStep_at _ ?_
      cases rest <;> rfl
    | cons w todo =>
      simp only [nextShared] at h
      split at h <;> cases h
      · exact .rollback
      · exact .write rfl rfl
  | findingDefault wearers half =>
    rw [hpc] at h
    cases wearers with
    | nil =>
      cases h
      exact guardStep_at _ rfl
    | cons u wearers =>
      simp only [nextShared] at h
      split at h
      · cases h
        exact guardStep_at _ rfl
      · cases h
        exact guardStep_at _ rfl
      · split at h <;> cases h
        · exact guardStep_at _ rfl
        · exact guardStep_at _ rfl
  | puttingBack fallback wearers load =>
    rw [hpc] at h
    cases wearers with
    | nil =>
      cases h
      exact guardStep_at _ rfl
    | cons u wearers =>
      simp only [nextShared] at h
      split at h
      · cases h
        exact guardStep_at _ rfl
      · cases h
        exact guardStep_at _ rfl
      · split at h <;> cases h
        · exact guardStep_at _ rfl
        · exact guardStep_at _ rfl
  | reloading fallback u wearers load =>
    rw [hpc] at h
    simp only [nextShared] at h
    split at h <;> cases h
    · exact guardStep_at _ rfl
    · exact guardStep_at _ rfl
    · exact guardStep_at _ rfl
  | committing =>
    rw [hpc] at h
    cases h
    exact .commit hpc
  | _ =>
    rw [hpc] at h
    cases h

theorem guardStep_next (h : next defaultRoleName sn p = some a) : GuardStep sn p a := by
  rcases next_cases h with hs | ⟨u, -, rfl⟩ | ⟨name, -, rfl⟩
  · exact guardStep_shared hs
  · exact guardStep_account u
  · exact guardStep_role name

end Guard

/-! ## The invariant -/

section Invariant

variable {T : Type} [DecidableEq T] {s s' : System T} {t : T} {defaultRoleName : String}

/-- Who counted has the lock, and what was counted is still there. -/
structure AdminInv (s : System T) : Prop extends Inv s where
  admin : AdminApart (committedNow s.store) none
  holder : ∀ t, (s.procs t).pc.counts = true → s.locks () = some t
  counted : ∀ t x, (s.procs t).counted = some x → s.locks () = some t ∧ AdminApart (committedNow s.store) (some x)

/-- The condition on a step. -/
def guardedStep (s : System T) (e : Event T) : Bool := current s e && guardHolds s e

/-- A transaction that commits without the lock, while somebody else has it, spares every administrator. -/
theorem spares_of_guardHolds (hpc : (s.procs t).pc = .committing) (hg : guardHolds s (.next t) = true)
    (hcounted : (s.procs t).counted = none) (hlock : s.locks () ≠ none) {u r : Uuid}
    (hv : AdminVia (committedNow s.store) u r) : (s.procs t).Spares u r := by
  have hu := hv.isAdministrator
  have hr := hv.carriesAdmin
  unfold Proc.Spares
  cases hop : (s.procs t).op with
  | updateUserRoles u' names =>
    rintro rfl
    simp [guardHolds, hpc, hop, hcounted, hlock, hu] at hg
  | deactivateUser u' =>
    rintro rfl
    simp [guardHolds, hpc, hop, hcounted, hu] at hg
  | deleteUser u' =>
    rintro rfl
    simp [guardHolds, hpc, hop, hcounted, hu] at hg
  | deleteRole name =>
    intro hrole
    simp [guardHolds, hpc, hop, hcounted, hrole, hr] at hg
  | updateRolePermissions name permissions =>
    by_cases hmem : adminAll ∈ permissions
    · exact .inl hmem
    · refine .inr ?_
      intro hrole
      simp [guardHolds, hpc, hop, hcounted, hrole, hr, hmem] at hg
  | _ => trivial

/-- An administrator that the operation spares remains. -/
theorem admin_of_spared (hi : Inv s) {u r : Uuid} (hv : AdminVia (committedNow s.store) u r)
    (hsp : (s.procs t).Spares u r) : AdminApart (committedNow (s.store.commit t)) none :=
  ⟨u, r, adminVia_commit hi hsp hv, by simp, by simp⟩

/-- An administrator was counted without the user or role that the operation changes. -/
theorem admin_of_counted (hi : AdminInv s) {x : Excluded} (hx : (s.procs t).counted = some x)
    (hsp : ∀ u r, x ≠ .user u → x ≠ .role r → (s.procs t).Spares u r) :
    AdminApart (committedNow (s.store.commit t)) none := by
  obtain ⟨-, u, r, hv, hu, hr⟩ := hi.counted t x hx
  exact admin_of_spared hi.toInv hv (hsp u r (fun h => hu (congrArg some h)) (fun h => hr (congrArg some h)))

/-- An active account whose new roles grant `admin:all` is an administrator after the commit. -/
theorem admin_of_keepsAdmin (hi : Inv s) {u r : Uuid} {names : List String}
    (hop : (s.procs t).op = .updateUserRoles u names) (hv : AdminVia (committedNow s.store) u r)
    (hkeeps : (seenBy s.store t).keepsAdmin u = true) : AdminApart (committedNow (s.store.commit t)) none := by
  obtain ⟨r', hr', hcarries⟩ := List.any_eq_true.mp hkeeps
  obtain ⟨-, hwears, hrole⟩ := Snapshot.mem_rolesOf.mp hr'
  obtain ⟨-, hgrants⟩ := Snapshot.mem_permissionsOf.mp (of_decide_eq_true hcarries)
  have hhas : ∀ {k}, (seenBy s.store t).has k = true → (committedNow (s.store.commit t)).has k = true := by
    intro k h
    simpa only [Snapshot.has, row_commit] using h
  refine ⟨u, r', ⟨?_, hhas hwears, hhas hrole, hhas hgrants⟩, by simp, by simp⟩
  obtain ⟨a, ha, hactive⟩ := hv.active
  have hc : s.store.committed (.user u) = some a := ha
  rcases hi.written.committed t (.user u) with hw | hsame
  · have hmay := hw.2
    rw [hc] at hmay
    cases hb : (s.store.commit t).committed (.user u) with
    | none =>
      rw [hb] at hmay
      have hdel : (s.procs t).op = .deleteUser u := hmay
      rw [hop] at hdel
      cases hdel
    | some b =>
      rw [hb] at hmay
      have hsame : b.isActive = a.isActive := by
        rcases hmay.active with h | ⟨h, -⟩ | ⟨h, -⟩
        · exact h
        · rw [hop] at h
          cases h
        · rw [hop] at h
          cases h
      exact ⟨b, hb, by rw [hsame, hactive]⟩
  · exact ⟨a, hsame.trans hc, hactive⟩

/-- **A commit whose guard holds leaves an administrator.** -/
theorem admin_of_guardHolds (hi : AdminInv s) (hpc : (s.procs t).pc = .committing)
    (hg : guardHolds s (.next t) = true) : AdminApart (committedNow (s.store.commit t)) none := by
  obtain ⟨u, r, hv, -, -⟩ := hi.admin
  have hadmin := hv.isAdministrator
  have hcarries := hv.carriesAdmin
  cases hop : (s.procs t).op with
  | updateUserRoles u' names =>
    by_cases hu : u' = u
    · subst hu
      simp only [guardHolds, hpc, hop, hadmin, Bool.not_true, Bool.false_or, Bool.or_eq_true, Bool.and_eq_true,
        decide_eq_true_eq] at hg
      rcases hg with hcounted | ⟨-, hkeeps⟩
      · refine admin_of_counted hi hcounted ?_
        intro u₂ r₂ hne _
        simpa [Proc.Spares, hop] using hne
      · exact admin_of_keepsAdmin hi.toInv hop hv hkeeps
    · exact admin_of_spared hi.toInv hv (by simpa [Proc.Spares, hop] using hu)
  | deactivateUser u' =>
    by_cases hu : u' = u
    · subst hu
      simp only [guardHolds, hpc, hop, hadmin, Bool.not_true, Bool.false_or, decide_eq_true_eq] at hg
      refine admin_of_counted hi hg ?_
      intro u₂ r₂ hne _
      simpa [Proc.Spares, hop] using hne
    · exact admin_of_spared hi.toInv hv (by simpa [Proc.Spares, hop] using hu)
  | deleteUser u' =>
    by_cases hu : u' = u
    · subst hu
      simp only [guardHolds, hpc, hop, hadmin, Bool.not_true, Bool.false_or, decide_eq_true_eq] at hg
      refine admin_of_counted hi hg ?_
      intro u₂ r₂ hne _
      simpa [Proc.Spares, hop] using hne
    · exact admin_of_spared hi.toInv hv (by simpa [Proc.Spares, hop] using hu)
  | deleteRole name =>
    by_cases hr : (s.procs t).role = some r
    · simp only [guardHolds, hpc, hop, hr, Option.all_some, hcarries, Bool.not_true, Bool.false_or,
        decide_eq_true_eq] at hg
      refine admin_of_counted hi hg ?_
      intro u₂ r₂ _ hne
      simpa [Proc.Spares, hop, hr] using hne
    · exact admin_of_spared hi.toInv hv (by simpa [Proc.Spares, hop] using hr)
  | updateRolePermissions name permissions =>
    by_cases hmem : adminAll ∈ permissions
    · exact admin_of_spared hi.toInv hv (by simpa [Proc.Spares, hop] using .inl hmem)
    · by_cases hr : (s.procs t).role = some r
      · simp only [guardHolds, hpc, hop, hr, hmem, decide_false, Option.all_some, hcarries, Bool.not_true,
          Bool.false_or, decide_eq_true_eq] at hg
        refine admin_of_counted hi hg ?_
        intro u₂ r₂ _ hne
        simpa [Proc.Spares, hop, hr, hmem] using hne
      · exact admin_of_spared hi.toInv hv (by simpa [Proc.Spares, hop] using .inr hr)
  | _ => exact admin_of_spared hi.toInv hv (by simp [Proc.Spares, hop])

/-- A step that neither commits nor counts leaves the administrators as they are. -/
theorem AdminInv.quiet (hi : AdminInv s) (hi' : Inv s')
    (hcommitted : ∀ k, s'.store.committed k = s.store.committed k)
    (hother : ∀ t', t' ≠ t → s'.procs t' = s.procs t')
    (hlocks : ∀ t', t' ≠ t → s.locks () = some t' → s'.locks () = some t')
    (hself : (s'.procs t).pc.counts = true → s'.locks () = some t)
    (hcounted : ∀ x, (s'.procs t).counted = some x → s'.locks () = some t ∧
      AdminApart (committedNow s.store) (some x)) : AdminInv s' := by
  have hapart : ∀ {x}, AdminApart (committedNow s.store) x → AdminApart (committedNow s'.store) x := by
    rintro x ⟨u, r, ⟨⟨a, ha, hactive⟩, hwears, hrole, hgrants⟩, hu, hr⟩
    have hrow : ∀ k, (committedNow s'.store).row k = (committedNow s.store).row k := hcommitted
    refine ⟨u, r, ⟨⟨a, (hrow _).trans ha, hactive⟩, ?_, ?_, ?_⟩, hu, hr⟩
    · simpa only [Snapshot.has, hrow] using hwears
    · simpa only [Snapshot.has, hrow] using hrole
    · simpa only [Snapshot.has, hrow] using hgrants
  refine ⟨hi', hapart hi.admin, ?_, ?_⟩
  · intro t' h
    by_cases ht : t' = t
    · subst ht
      exact hself h
    · rw [hother t' ht] at h
      exact hlocks t' ht (hi.holder t' h)
  · intro t' x h
    by_cases ht : t' = t
    · subst ht
      exact ⟨(hcounted x h).1, hapart (hcounted x h).2⟩
    · rw [hother t' ht] at h
      obtain ⟨hl, hx⟩ := hi.counted t' x h
      exact ⟨hlocks t' ht hl, hapart hx⟩

/-- A transaction that has not written sees what is committed. -/
theorem seenBy_of_early (hi : Inv s) (hearly : (s.procs t).pc.late = false) :
    seenBy s.store t = committedNow s.store := by
  have hrow : s.store.view t = s.store.committed := by
    funext k
    apply Store.view_of_clean
    cases hd : s.store.dirtyBy t k with
    | none => rfl
    | some w =>
      have hlate := (hi.written t k w hd).1
      rw [hearly] at hlate
      cases hlate
  simp only [seenBy, committedNow, hrow]

/-- The commit of a transaction whose guard holds. -/
theorem AdminInv.commit (hi : AdminInv s) (hi' : Inv s') (hpc : (s.procs t).pc = .committing)
    (hg : guardHolds s (.next t) = true) (h : Transactions.act s t (.commit (s.procs t).done) = some s') :
    AdminInv s' := by
  have hother : ∀ t', t' ≠ t → s'.procs t' = s.procs t' := fun t' ht => act_procs_ne h ht
  have hself : s'.procs t = (s.procs t).done := act_procs_self h
  have hstore : s'.store = s.store.commit t := by
    cases h
    rfl
  have hadmin := admin_of_guardHolds hi hpc hg
  rw [← hstore] at hadmin
  refine ⟨hi', hadmin, ?_, ?_⟩
  · intro t' h'
    have ht : t' ≠ t := by
      rintro rfl
      rw [hself] at h'
      cases h'
    rw [hother t' ht] at h'
    exact act_locks_ne h ht (hi.holder t' h')
  · intro t' x h'
    have ht : t' ≠ t := by
      rintro rfl
      rw [hself] at h'
      cases h'
    rw [hother t' ht] at h'
    obtain ⟨hl, u, r, hv, hu, hr⟩ := hi.counted t' x h'
    -- somebody else holds the lock, so this transaction did not count
    have hnone : (s.procs t).counted = none := by
      cases hx : (s.procs t).counted with
      | none => rfl
      | some y =>
        have hl' := (hi.counted t y hx).1
        rw [hl] at hl'
        exact absurd (Option.some.inj hl') ht
    have hsp := spares_of_guardHolds hpc hg hnone (by rw [hl]; simp) hv
    refine ⟨act_locks_ne h ht hl, u, r, ?_, hu, hr⟩
    rw [hstore]
    exact adminVia_commit hi.toInv hsp hv

/-- The end of a transaction without a commit. -/
theorem AdminInv.rollback (hi : AdminInv s) (hi' : Inv s')
    (h : Transactions.act s t (.rollback (s.procs t).done) = some s') : AdminInv s' := by
  have hself : s'.procs t = (s.procs t).done := act_procs_self h
  refine hi.quiet hi' ?_ (fun t' ht => act_procs_ne h ht) (fun t' ht hl => act_locks_ne h ht hl) ?_ ?_
  · intro k
    cases h
    exact Store.committed_abort t k
  · rw [hself]
    intro hc
    cases hc
  · rw [hself]
    intro x hx
    cases hx

/-- **Step lemma.** -/
theorem step_adminInv {e : Event T} (hc : guardedStep s e = true) (h : step defaultRoleName s e = some s')
    (hi : AdminInv s) : AdminInv s' := by
  rw [guardedStep, Bool.and_eq_true] at hc
  obtain ⟨hcur, hg⟩ := hc
  obtain ⟨hi', -⟩ := step_inv hcur h hi.toInv
  cases e with
  | fail t =>
    simp only [step] at h
    split at h
    · cases h
    · exact hi.rollback hi' h
  | next t =>
    obtain ⟨a, ha, hact⟩ := Option.bind_eq_some_iff.mp h
    have hother : ∀ t', t' ≠ t → s'.procs t' = s.procs t' := fun t' ht => act_procs_ne hact ht
    have hlocks : ∀ t', t' ≠ t → s.locks () = some t' → s'.locks () = some t' :=
      fun t' ht hl => act_locks_ne hact ht hl
    have hself := act_procs_self hact
    cases guardStep_next ha with
    | @plain p' hcounted hcounts =>
      have hs : s'.locks = s.locks ∧ ∀ k, s'.store.committed k = s.store.committed k := by
        cases hact
        exact ⟨rfl, fun _ => rfl⟩
      refine hi.quiet hi' hs.2 hother hlocks ?_ ?_
      · rw [hself]
        intro hp
        rw [show (Action.goto p' : Act).point = p' from rfl, hcounts] at hp
        cases hp
      · rw [hself, hs.1]
        intro x hx
        exact hi.counted t x (hcounted.symm.trans hx)
    | @write k v p' hcounted hcounts =>
      have hs : s'.locks = s.locks ∧ ∀ k, s'.store.committed k = s.store.committed k := by
        obtain ⟨-, rfl⟩ := act_write_some hact
        exact ⟨rfl, Store.committed_put v⟩
      refine hi.quiet hi' hs.2 hother hlocks ?_ ?_
      · rw [hself]
        intro hp
        rw [show (Action.write k v p' : Act).point = p' from rfl, hcounts] at hp
        cases hp
      · rw [hself, hs.1]
        intro x hx
        exact hi.counted t x (hcounted.symm.trans hx)
    | @lock p' hcounted =>
      have hs : s'.locks () = some t ∧ ∀ k, s'.store.committed k = s.store.committed k := by
        refine ⟨act_lock hact, ?_⟩
        obtain ⟨-, rfl⟩ := act_lock_some hact
        exact fun _ => rfl
      refine hi.quiet hi' hs.2 hother hlocks (fun _ => hs.1) ?_
      rw [hself]
      intro x hx
      exact ⟨hs.1, (hi.counted t x (hcounted.symm.trans hx)).2⟩
    | @count p' x hcounts hearly hpos hcounted hnot =>
      have hs : s'.locks = s.locks ∧ ∀ k, s'.store.committed k = s.store.committed k := by
        cases hact
        exact ⟨rfl, fun _ => rfl⟩
      rw [seenBy_of_early hi.toInv hearly] at hpos
      refine hi.quiet hi' hs.2 hother hlocks ?_ ?_
      · rw [hself]
        intro hp
        rw [show (Action.goto p' : Act).point = p' from rfl, hnot] at hp
        cases hp
      · rw [hself, hs.1]
        intro y hy
        cases hcounted.symm.trans hy
        exact ⟨hi.holder t hcounts, adminApart_of_count hpos⟩
    | commit hpc => exact hi.commit hi' hpc hg hact
    | rollback => exact hi.rollback hi' hact

/-- **An administrator survives any interleaving** in which each `save` finds the account as it was read, and the guard
of each operation still lets it through when it commits. -/
theorem administrator_survives {s₀ : System T} {es : List (Event T)} (h₀ : AtRest s₀)
    (hadmin : 0 < (committedNow s₀.store).countActiveWithPermission adminAll none)
    (hmeets : Runs.Meets (step defaultRoleName) (guardedStep · · = true) s₀ es)
    (hrun : Runs.run (step defaultRoleName) s₀ es = some s) :
    0 < (committedNow s.store).countActiveWithPermission adminAll none := by
  have hstart : AdminInv s₀ := by
    have hbegin : ∀ t, (s₀.procs t).counted = none ∧ (s₀.procs t).pc.counts = false := by
      intro t
      obtain ⟨op, hop⟩ := h₀.2.2 t
      rw [hop]
      cases op <;> exact ⟨rfl, rfl⟩
    refine ⟨Inv.atRest h₀, adminApart_of_count hadmin, ?_, ?_⟩
    · intro t h
      rw [(hbegin t).2] at h
      cases h
    · intro t x h
      rw [(hbegin t).1] at h
      cases h
  have hend := Runs.run_inv_of_meets (I := AdminInv) step_adminInv hmeets hrun hstart
  obtain ⟨u, r, hv, -, -⟩ := hend.admin
  exact count_of_adminVia hv

end Invariant

/-! ## Two administrators, and one -/

/-- Accounts `1` and `2`, a role that each of them may wear and a second one, both granting `admin:all`. -/
def office (wears : List (Uuid × Uuid)) (first second : Operation) : System (Fin 2) where
  store := Store.load ([.user 1, .user 2, .role 7, .role 8, .grants 7 adminAll, .grants 8 adminAll, .wears 1 7,
      .wears 2 7] : List Key) (by decide) fun k => match k with
    | .user _ => some ⟨"hash", true, true, none⟩
    | .role r => some ⟨if r = 7 then "chief" else "deputy", none, false⟩
    | .wears u r => if (u, r) ∈ wears then some () else none
    | .grants _ _ => some ()
  locks := fun _ => none
  mem := ()
  procs := fun t => if t.val = 0 then .begin first else .begin second

theorem office_atRest (wears : List (Uuid × Uuid)) (first second : Operation) :
    AtRest (office wears first second) := by
  refine ⟨?_, rfl, ?_⟩
  · intro t k
    exact Store.dirtyBy_load t k
  · intro t
    simp only [office]
    split
    · exact ⟨first, rfl⟩
    · exact ⟨second, rfl⟩

/-- Two administrators are deactivated at once: both guards find an administrator, one takes the lock, and the other
is refused by its count. -/
theorem administrator_survives_deactivations :
    ∃ s, Runs.run (step "user") (office [(1, 7), (2, 7)] (.deactivateUser 1) (.deactivateUser 2))
        (statements 0 4 ++ statements 1 3 ++ statements 0 11 ++ statements 1 2) = some s ∧
      s.store.committed (.user 1) = some ⟨"hash", false, true, none⟩ ∧ (s.procs 1).pc = .ended ∧
      0 < (committedNow s.store).countActiveWithPermission adminAll none := by
  have hrun : ((Runs.run (step "user") (office [(1, 7), (2, 7)] (.deactivateUser 1) (.deactivateUser 2))
      (statements 0 4 ++ statements 1 3 ++ statements 0 11 ++ statements 1 2)).map fun s =>
        (s.store.committed (.user 1), (s.procs 1).pc)) = some (some ⟨"hash", false, true, none⟩, .ended) := by
    decide +kernel
  obtain ⟨s, hs, hp⟩ := Option.map_eq_some_iff.mp hrun
  simp only [Prod.mk.injEq] at hp
  exact ⟨s, hs, hp.1, hp.2, administrator_survives (office_atRest _ _ _) (by decide +kernel) (by decide +kernel) hs⟩

/-- **The last administrator is lost**: while `deputy` loses `admin:all` under the lock, having counted the account
through `chief`, the account is moved from `chief` to `deputy` without the lock, for `deputy` granted `admin:all` when
it was read. -/
theorem administrator_lost :
    ∃ s, AtRest (office [(1, 7)] (.updateUserRoles 1 ["deputy"]) (.updateRolePermissions "deputy" [])) ∧
      0 < (committedNow (office [(1, 7)] (.updateUserRoles 1 ["deputy"])
        (.updateRolePermissions "deputy" [])).store).countActiveWithPermission adminAll none ∧
      Runs.run (step "user") (office [(1, 7)] (.updateUserRoles 1 ["deputy"]) (.updateRolePermissions "deputy" []))
        (statements 1 4 ++ statements 0 17 ++ statements 1 8) = some s ∧
      (s.procs 0).pc = .ended ∧ (s.procs 1).pc = .ended ∧
      (committedNow s.store).countActiveWithPermission adminAll none = 0 := by
  have hrun : ((Runs.run (step "user")
      (office [(1, 7)] (.updateUserRoles 1 ["deputy"]) (.updateRolePermissions "deputy" []))
      (statements 1 4 ++ statements 0 17 ++ statements 1 8)).map fun s =>
        ((s.procs 0).pc, (s.procs 1).pc, (committedNow s.store).countActiveWithPermission adminAll none)) =
      some (.ended, .ended, 0) := by decide +kernel
  obtain ⟨s, hs, hp⟩ := Option.map_eq_some_iff.mp hrun
  simp only [Prod.mk.injEq] at hp
  exact ⟨s, office_atRest _ _ _, by decide +kernel, hs, hp.1, hp.2.1, hp.2.2⟩

end LinkShortener.Accounts
