import LinkShortener.Accounts.Model

/-!
# What a transaction may write

* `Operation.Changes`, `Proc.May`: what the operation of a transaction is about, as a relation between the committed
  and the uncommitted version of a row.
* `current`: a `save` finds the account as it was read, in everything the operation is not about.
* `Inv`: every transaction has written only what it may, and only what it may is waiting to be flushed. Every step
  that meets `current` keeps it (`step_inv`).
-/

namespace LinkShortener.Accounts

open ReadCommitted Transactions

/-! ## What an operation is about -/

namespace Operation

def aboutPassword : Operation → Bool
  | .changePassword _ _ | .resetPassword _ _ => true
  | _ => false

def aboutActive : Operation → Bool
  | .activateUser _ | .deactivateUser _ => true
  | _ => false

def aboutVerified : Operation → Bool
  | .verifyEmail _ => true
  | _ => false

/-- The row agrees with the account that was read in everything the operation is not about. -/
def untouched (op : Operation) (read row : Account) : Bool :=
  (op.aboutPassword || decide (row.passwordHash = read.passwordHash)) &&
    (op.aboutActive || decide (row.isActive = read.isActive)) &&
    (op.aboutVerified || decide (row.emailVerified = read.emailVerified))

/-- The roles agree with those that were read, unless the operation is about them. An account that is put back on
the default role after its role was deleted has no role. -/
def rolesUntouched (op : Operation) (read roles : List Uuid) : Bool :=
  match op with
  | .updateUserRoles _ _ => true
  | .deleteRole _ => roles.isEmpty
  | _ => roles.all (· ∈ read) && read.all (· ∈ roles)

/-- What an operation may change in the row of `u`. -/
structure Changes (op : Operation) (u : Uuid) (a b : Account) : Prop where
  password : b.passwordHash = a.passwordHash ∨ ∃ hash, op = .changePassword u hash ∨ op = .resetPassword u hash
  active : b.isActive = a.isActive ∨ op = .activateUser u ∧ b.isActive = true ∨
    op = .deactivateUser u ∧ b.isActive = false
  verified : b.emailVerified = a.emailVerified ∨ op = .verifyEmail u ∧ b.emailVerified = true

theorem Changes.trans {op : Operation} {u : Uuid} {a b c : Account} (h₁ : op.Changes u a b) (h₂ : op.Changes u b c) :
    op.Changes u a c := by
  refine ⟨?_, ?_, ?_⟩
  · rcases h₂.password with h | h
    · rw [h]
      exact h₁.password
    · exact .inr h
  · rcases h₂.active with h | h
    · rw [h]
      exact h₁.active
    · exact .inr h
  · rcases h₂.verified with h | h
    · rw [h]
      exact h₁.verified
    · exact .inr h

end Operation

/-! ## What a transaction may write -/

/-- The transaction may have uncommitted writes. -/
def Pc.late : Pc → Bool
  | .saving _ | .syncing _ _ | .attaching _ _ _ _ | .flushing _ _ | .findingDefault _ _ | .puttingBack _ _ _
  | .reloading _ _ _ _ | .committing => true
  | _ => false

namespace Proc

/-- The versions of a row that the operation may put in the place of the committed one. -/
def May (p : Proc) : (k : Key) → Option (Value k) → Option (Value k) → Prop
  | .user u, some a, some b => p.op.Changes u a b
  | .user _, none, some _ => False
  | .user u, _, none => p.op = .deleteUser u
  | .wears u r, _, w => match p.op with
    | .updateUserRoles u' _ | .deleteUser u' => u' = u
    | .deleteRole _ => w = some () ∨ p.role = some r
    | _ => False
  | .role r, _, w => match p.op with
    | .deleteRole _ => p.role = some r
    | .updateRolePermissions _ _ => p.role = some r ∧ w ≠ none
    | _ => False
  | .grants r q, _, w => match p.op with
    | .deleteRole _ => p.role = some r
    | .updateRolePermissions _ permissions => p.role = some r ∧ (q ∈ permissions → w = some ())
    | _ => False

/-- The writes the operation may flush. -/
def Allows (p : Proc) : Write → Prop
  | .updateUser u δ => ∀ a, p.op.Changes u a (δ.apply a)
  | .insertUser _ _ => False
  | .unwear u r => match p.op with
    | .updateUserRoles u' _ | .deleteUser u' => u' = u
    | .deleteRole _ => p.role = some r
    | _ => False
  | .wear u _ => match p.op with
    | .updateUserRoles u' _ => u' = u
    | .deleteRole _ => True
    | _ => False
  | .deleteUser u => p.op = .deleteUser u
  | .updateRole r _ | .insertRole r _ => match p.op with
    | .updateRolePermissions _ _ => p.role = some r
    | _ => False
  | .ungrant r q => match p.op with
    | .deleteRole _ => p.role = some r
    | .updateRolePermissions _ permissions => p.role = some r ∧ q ∉ permissions
    | _ => False
  | .grant r q => match p.op with
    | .updateRolePermissions _ permissions => p.role = some r ∧ q ∈ permissions
    | _ => False
  | .deleteRole r => match p.op with
    | .deleteRole _ => p.role = some r
    | _ => False

/-- What is saved is the account that was read, with what the operation sets. -/
def Saves (p : Proc) (save : Save) : Prop :=
  match p.op with
  | .updateUserRoles u _ => save.u = u ∧ save.account = save.was.account ∧ save.rest = .commit
  | .deleteRole _ => save.account = save.was.account
  | op => op.target = some save.u ∧ save.account = op.set save.was.account ∧ save.roles = save.was.roles ∧
      save.rest = .commit

def DeletesRole (p : Proc) : Prop := ∃ name, p.op = .deleteRole name

/-- What holds of a transaction at the point it has reached. -/
def Ok (p : Proc) : Prop :=
  match p.pc with
  | .saving save => p.Saves save
  | .syncing save row => p.Saves save ∧ ∃ a, row = some a ∧ p.op.untouched save.was.account a = true
  | .attaching save row reread _ => p.Saves save ∧ (∃ a, row = some a ∧ p.op.untouched save.was.account a = true) ∧
      p.op.rolesUntouched save.was.roles reread = true
  | .flushing todo rest => (∀ w ∈ todo, p.Allows w) ∧ (rest = .commit ∨ p.DeletesRole)
  | .gettingUser | .gettingRoles => ∃ u, p.op = .deleteUser u
  | .gettingRole role _ | .gettingGrants role _ _ => p.role = some role.id
  | .gettingUsers role _ _ => p.role = some role.id ∧ p.DeletesRole
  | .findingDefault _ _ | .puttingBack _ _ _ | .reloading _ _ _ _ => p.DeletesRole
  | _ => True

/-- What a transaction may have written so far. -/
def Wrote (p : Proc) (k : Key) (c w : Option (Value k)) : Prop := p.pc.late = true ∧ p.May k c w

end Proc

/-! ## The condition -/

section Condition

variable {T : Type} [DecidableEq T]

/-- **The condition on a step**: when `save` reads the account again, it is still there and has not changed since it
was read, but for what the operation is about. -/
def current (s : System T) : Event T → Bool
  | .next t =>
    match (s.procs t).pc with
    | .saving save => ((seenBy s.store t).row (.user save.u)).any ((s.procs t).op.untouched save.was.account)
    | .syncing save _ => (s.procs t).op.rolesUntouched save.was.roles ((seenBy s.store t).rolesOf save.u)
    | _ => true
  | .fail _ => true

end Condition

/-! ## The flush of a saved account -/

section Flush

variable {p : Proc} {save : Save}

theorem changed_getD {α : Type} [DecidableEq α] (new old x : α) :
    (changed new old).getD x = if new = old then x else new := by
  unfold changed
  split <;> rfl

/-- The columns a save writes are those its operation is about. -/
theorem allows_updateUser (hs : p.Saves save) {row : Account} (hu : p.op.untouched save.was.account row = true) :
    p.Allows (.updateUser save.u (.between save.account row)) := by
  intro a
  simp only [Operation.untouched, Bool.and_eq_true, Bool.or_eq_true, decide_eq_true_eq] at hu
  obtain ⟨⟨hpw, hac⟩, hve⟩ := hu
  unfold Proc.Saves at hs
  refine ⟨?_, ?_, ?_⟩
  · simp only [Delta.apply, Delta.between, changed_getD]
    split
    · exact .inl rfl
    · rename_i hne
      cases hop : p.op <;> simp_all [Operation.aboutPassword, Operation.set, Operation.target]
  · simp only [Delta.apply, Delta.between, changed_getD]
    split
    · exact .inl rfl
    · rename_i hne
      cases hop : p.op <;> simp_all [Operation.aboutActive, Operation.set, Operation.target]
  · simp only [Delta.apply, Delta.between, changed_getD]
    split
    · exact .inl rfl
    · rename_i hne
      cases hop : p.op <;> simp_all [Operation.aboutVerified, Operation.set, Operation.target]

/-- **The flush of a save** writes what the operation is about. -/
theorem allows_saveWrites (hs : p.Saves save) {row : Account} (hu : p.op.untouched save.was.account row = true)
    {roles reread : List Uuid} (hr : p.op.rolesUntouched save.was.roles reread = true)
    (hroles : roles = save.roles ∨ p.DeletesRole) :
    ∀ w ∈ saveWrites save.u save.account roles (some row) reread, p.Allows w := by
  intro w hw
  simp only [saveWrites, List.mem_append, List.mem_map, List.mem_filter, decide_eq_true_eq] at hw
  rcases hw with (hw | ⟨r, ⟨hmem, hnot⟩, rfl⟩) | ⟨r, ⟨hmem, hnot⟩, rfl⟩
  · split at hw
    · cases hw
    · rw [List.mem_singleton] at hw
      rw [hw]
      exact allows_updateUser hs hu
  · unfold Proc.Saves at hs
    cases hop : p.op <;>
      simp_all [Proc.Allows, Operation.rolesUntouched, Proc.DeletesRole]
  · unfold Proc.Saves at hs
    cases hop : p.op <;>
      simp_all [Proc.Allows, Operation.rolesUntouched, Proc.DeletesRole]

/-- The flush of a saved role writes that role. -/
theorem allows_saveRoleWrites {role : Role} {name : String} {permissions : List String} {row : Option RoleRow}
    {reread : List String} (hop : p.op = .updateRolePermissions name permissions) (hrole : p.role = some role.id) :
    ∀ w ∈ saveRoleWrites role permissions.dedup row reread, p.Allows w := by
  intro w hw
  simp only [saveRoleWrites, List.mem_append, List.mem_map, List.mem_filter, decide_eq_true_eq] at hw
  rcases hw with (hw | ⟨q, ⟨hmem, hnot⟩, rfl⟩) | ⟨q, ⟨hmem, hnot⟩, rfl⟩
  · split at hw
    · split at hw
      · cases hw
      · rw [List.mem_singleton] at hw
        rw [hw]
        simpa [Proc.Allows, hop] using hrole
    · rw [List.mem_singleton] at hw
      rw [hw]
      simpa [Proc.Allows, hop] using hrole
  · have hq : q ∉ permissions := by simpa using hnot
    simpa [Proc.Allows, hop] using ⟨hrole, hq⟩
  · have hq : q ∈ permissions := by simpa using hmem
    simpa [Proc.Allows, hop] using ⟨hrole, hq⟩

end Flush

/-! ## One statement of a flush -/

section Effect

variable {T : Type} [DecidableEq T] {s : System T} {t : T} {p : Proc}

theorem cascade_key {sn : Snapshot} {hangs : Key → Bool} {k : Key} {c : Change} (h : cascade sn hangs k = some c) :
    (hangs c.key = true ∨ c.key = k) ∧ c.value = none := by
  unfold cascade at h
  split at h
  · rename_i k' hk
    cases h
    have hk' := List.find?_some hk
    simp only [Bool.and_eq_true] at hk'
    exact ⟨.inl hk'.1, rfl⟩
  · split at h
    · cases h
      exact ⟨.inr rfl, rfl⟩
    · cases h

/-- The version of an account that the transaction sees is one that it may have written, or the committed one. -/
theorem changes_of_seen (hw : Written Proc.Wrote s) {u : Uuid} {a b : Account}
    (hseen : (seenBy s.store t).row (.user u) = some a) (h : (s.procs t).op.Changes u a b) :
    (s.procs t).May (.user u) (s.store.committed (.user u)) (some b) := by
  cases hd : s.store.dirtyBy t (.user u) with
  | none =>
    have hc : s.store.committed (.user u) = some a := by
      rw [← Store.view_of_clean hd]
      exact hseen
    rw [hc]
    exact h
  | some w =>
    have hwa : w = some a := by
      rw [← Store.view_of_dirtyBy hd]
      exact hseen
    have hmay := (hw t _ w hd).2
    rw [hwa] at hmay
    cases hc : s.store.committed (.user u) with
    | none =>
      rw [hc] at hmay
      exact hmay.elim
    | some c =>
      rw [hc] at hmay
      exact hmay.trans h

/-- **A statement of a flush** writes what the transaction may write. -/
theorem may_of_effect (hw : Written Proc.Wrote s) {w : Write} {c : Change} (ha : (s.procs t).Allows w)
    (h : w.effect (seenBy s.store t) = some c) :
    (s.procs t).May c.key (s.store.committed c.key) c.value := by
  cases w with
  | updateUser u δ =>
    obtain ⟨a, hseen, rfl⟩ := Option.map_eq_some_iff.mp h
    exact changes_of_seen hw hseen (ha a)
  | insertUser u a => exact ha.elim
  | unwear u r =>
    simp only [Write.effect] at h
    split at h
    · cases h
      simp only [Proc.Allows] at ha
      simp only [Proc.May]
      split at ha <;> simp_all
    · cases h
  | wear u r =>
    simp only [Write.effect] at h
    split at h
    · cases h
      simp only [Proc.Allows] at ha
      simp only [Proc.May]
      split at ha <;> simp_all
    · cases h
  | deleteUser u =>
    obtain ⟨hk, hv⟩ := cascade_key h
    obtain ⟨k, v, last⟩ := c
    simp only at hk hv ⊢
    rw [hv]
    have hop : (s.procs t).op = .deleteUser u := ha
    cases k <;> simp_all [Proc.May, Key.hangsOnUser]
  | updateRole r row =>
    simp only [Write.effect] at h
    split at h
    · cases h
      simp only [Proc.Allows] at ha
      simp only [Proc.May]
      split at ha <;> simp_all
    · cases h
  | insertRole r row =>
    simp only [Write.effect] at h
    split at h
    · cases h
      simp only [Proc.Allows] at ha
      simp only [Proc.May]
      split at ha <;> simp_all
    · cases h
  | ungrant r q =>
    simp only [Write.effect] at h
    split at h
    · cases h
      simp only [Proc.Allows] at ha
      simp only [Proc.May]
      split at ha <;> simp_all
    · cases h
  | grant r q =>
    simp only [Write.effect] at h
    split at h
    · cases h
      simp only [Proc.Allows] at ha
      simp only [Proc.May]
      split at ha <;> simp_all
    · cases h
  | deleteRole r =>
    obtain ⟨hk, hv⟩ := cascade_key h
    obtain ⟨k, v, last⟩ := c
    simp only at hk hv ⊢
    rw [hv]
    simp only [Proc.Allows] at ha
    split at ha
    · rename_i name hop
      cases k <;> simp_all [Proc.May, Key.hangsOnRole]
    · exact ha.elim

end Effect

/-! ## One step -/

/-- A statement is one of those all operations share, one about an account, or one about a role. -/
theorem next_cases {defaultRoleName : String} {sn : Snapshot} {p : Proc} {a : Act}
    (h : next defaultRoleName sn p = some a) :
    nextShared defaultRoleName sn p p.pc = some a ∨
      (∃ u, p.op.target = some u ∧ nextOnAccount sn p u p.pc = a) ∨
      ∃ name, p.op.roleName = some name ∧ nextOnRole sn p name p.pc = a := by
  unfold next at h
  split at h
  · cases h
  · have h' := Option.some.inj h
    cases hs : nextShared defaultRoleName sn p p.pc with
    | some b =>
      rw [hs, Option.getD_some] at h'
      exact .inl (congrArg some h')
    | none =>
      rw [hs, Option.getD_none] at h'
      cases hop : p.op <;> rw [hop] at h' <;> simp_all [Operation.target, Operation.roleName]

section Step

variable {T : Type} [DecidableEq T] {s s' : System T} {t : T} {p : Proc} {a : Act} {defaultRoleName : String}

/-- The action keeps what every transaction may have written, leads to a point where all is in order, and stays in
its operation. -/
def Fine (s : System T) (t : T) (a : Act) : Prop :=
  Allowed Proc.Wrote s t a ∧ a.point.Ok ∧ a.point.op = (s.procs t).op

omit [DecidableEq T] in
theorem fine_done (hp : s.procs t = p) : Fine s t (.rollback p.done) := by
  refine ⟨trivial, trivial, ?_⟩
  rw [hp]
  rfl

theorem wrote_of_wrote {p p' : Proc} (hop : p'.op = p.op) (hrole : p.pc.late = true → p'.role = p.role)
    (hlate : p.pc.late = true → p'.pc.late = true) {k : Key} {c w : Option (Value k)} (h : p.Wrote k c w) :
    p'.Wrote k c w := by
  refine ⟨hlate h.1, ?_⟩
  have hmay := h.2
  have hr := hrole h.1
  obtain ⟨op, counted, role, pc⟩ := p
  obtain ⟨op', counted', role', pc'⟩ := p'
  simp only at hop hr
  subst hop hr
  exact hmay

omit [DecidableEq T] in
theorem fine_goto (hp : s.procs t = p) {p' : Proc} (hop : p'.op = p.op)
    (hrole : p.pc.late = true → p'.role = p.role) (hlate : p.pc.late = true → p'.pc.late = true) (hok : p'.Ok) :
    Fine s t (.goto p') := by
  refine ⟨?_, hok, ?_⟩
  · intro k c w h
    rw [hp] at h
    exact wrote_of_wrote hop hrole hlate h
  · rw [hp]
    exact hop

omit [DecidableEq T] in
/-- A step inside an operation that has not written yet. -/
theorem fine_early (hp : s.procs t = p) {pc : Pc} (hearly : p.pc.late = false) (hok : (p.at_ pc).Ok) :
    Fine s t (.goto (p.at_ pc)) := by
  refine fine_goto hp rfl (fun _ => rfl) ?_ hok
  intro h
  rw [hearly] at h
  cases h

omit [DecidableEq T] in
/-- A step inside an operation that may have written. -/
theorem fine_late (hp : s.procs t = p) {pc : Pc} (hlate : pc.late = true) (hok : (p.at_ pc).Ok) :
    Fine s t (.goto (p.at_ pc)) :=
  fine_goto hp rfl (fun _ => rfl) (fun _ => hlate) hok

omit [DecidableEq T] in
theorem fine_write (hp : s.procs t = p) {pc : Pc} (hlate : pc.late = true) {k : Key} {v : Option (Value k)}
    (hmay : p.May k (s.store.committed k) v) (hok : (p.at_ pc).Ok) : Fine s t (.write k v (p.at_ pc)) := by
  refine ⟨⟨?_, hlate, ?_⟩, hok, ?_⟩
  · intro k c w h
    rw [hp] at h
    refine wrote_of_wrote ?_ ?_ ?_ h
    · rfl
    · exact fun _ => rfl
    · exact fun _ => hlate
  · cases k <;> exact hmay
  · rw [hp]
    rfl

omit [DecidableEq T] in
/-- The account that was read is saved with what the operation sets. -/
theorem fine_change (hp : s.procs t = p) {u : Uuid} {roles : List Role} {e : Entity} {load : Load}
    (hpc : p.pc = .loading roles load) (hu : p.op.target = some u) : Fine s t (change p u roles e) := by
  have hearly : p.pc.late = false := by rw [hpc]; rfl
  unfold change
  split
  · split
    · exact fine_early hp hearly trivial
    · exact fine_done hp
  · rename_i hop
    split
    · refine fine_early hp hearly ?_
      simp only [Proc.Ok, Proc.at_, Proc.Saves, hop, and_true]
      rw [← hop, hu]
    · exact fine_done hp
  · rename_i u' names hop
    split
    · exact fine_done hp
    · refine fine_early hp hearly ?_
      simp only [Proc.Ok, Proc.at_, Proc.Saves, hop, and_true]
      rw [hop] at hu
      exact (Option.some.inj hu).symm
  · refine fine_early hp hearly ?_
    simp only [Proc.Ok, Proc.at_]
    unfold Proc.Saves
    split
    · simp_all
    · rename_i hop
      rw [hop] at hu
      cases hu
    · exact ⟨hu, rfl, rfl, rfl⟩

theorem fine_account (hw : Written Proc.Wrote s) (hp : s.procs t = p) (hok : p.Ok) {u : Uuid}
    (hu : p.op.target = some u) :
    Fine s t (nextOnAccount (seenBy s.store t) p u p.pc) := by
  have hguarded : ∀ roles, (p.at_ (guarded p roles)).Ok := by
    intro roles
    unfold guarded
    split
    · rename_i u hop
      exact ⟨u, hop⟩
    · trivial
  cases hpc : p.pc with
  | inspecting roles load =>
    have hearly : p.pc.late = false := by rw [hpc]; rfl
    simp only [nextOnAccount]
    split
    · exact fine_early hp hearly (hguarded roles)
    · exact fine_early hp hearly trivial
    · split
      · exact fine_early hp hearly trivial
      · exact fine_early hp hearly (hguarded roles)
  | locking roles =>
    refine ⟨?_, trivial, by rw [hp]; rfl⟩
    intro k c w h
    rw [hp] at h
    simp [Proc.Wrote, hpc, Pc.late] at h
  | counting roles =>
    simp only [nextOnAccount]
    split
    · refine fine_goto hp rfl (fun _ => rfl) ?_ (hguarded roles)
      rw [hpc]
      intro h
      cases h
    · exact fine_done hp
  | loading roles load =>
    simp only [nextOnAccount]
    split
    · exact fine_done hp
    · exact fine_early hp (by rw [hpc]; rfl) trivial
    · exact fine_change hp hpc hu
  | gettingUser =>
    simp only [nextOnAccount]
    unfold Proc.Ok at hok
    rw [hpc] at hok
    split
    · exact fine_early hp (by rw [hpc]; rfl) hok
    · exact fine_done hp
  | gettingRoles =>
    simp only [nextOnAccount]
    refine fine_late hp rfl ⟨?_, .inl rfl⟩
    unfold Proc.Ok at hok
    rw [hpc] at hok
    obtain ⟨u', hop⟩ := hok
    have hu' : u' = u := by
      rw [hop] at hu
      exact Option.some.inj hu
    intro w hmem
    rcases List.mem_append.mp hmem with hmem | hmem
    · obtain ⟨r, -, rfl⟩ := List.mem_map.mp hmem
      simpa [Proc.Allows, Proc.at_, hop] using hu'
    · rw [List.mem_singleton] at hmem
      simpa [Proc.Allows, Proc.at_, hop, hmem] using hu'
  | recordingLogin =>
    simp only [nextOnAccount]
    split
    · rename_i a when_ hseen hop
      refine fine_write hp rfl ?_ trivial
      rw [← hp]
      refine changes_of_seen hw hseen ⟨.inl rfl, .inl rfl, .inl rfl⟩
    · exact fine_late hp rfl trivial
  | _ => exact fine_done hp

theorem fine_role (hp : s.procs t = p) (hok : p.Ok) {name : String} (hname : p.op.roleName = some name) :
    Fine s t (nextOnRole (seenBy s.store t) p name p.pc) := by
  unfold Proc.Ok at hok
  cases hpc : p.pc with
  | findingRole half =>
    have hearly : p.pc.late = false := by rw [hpc]; rfl
    simp only [nextOnRole]
    split
    · exact fine_early hp hearly trivial
    · exact fine_early hp hearly trivial
    · split
      · exact fine_early hp hearly trivial
      · exact fine_early hp hearly trivial
  | lockingRole role =>
    refine ⟨?_, trivial, by rw [hp]; rfl⟩
    intro k c w h
    rw [hp] at h
    simp [Proc.Wrote, hpc, Pc.late] at h
  | countingRole role =>
    simp only [nextOnRole]
    split
    · refine fine_goto hp rfl (fun _ => rfl) ?_ trivial
      rw [hpc]
      intro h
      cases h
    · exact fine_done hp
  | listingWearers role => exact fine_early hp (by rw [hpc]; rfl) trivial
  | findingAgain wearers half =>
    simp only [nextOnRole]
    split
    · exact fine_done hp
    · exact fine_early hp (by rw [hpc]; rfl) trivial
    · split
      · exact fine_done hp
      · refine fine_goto hp rfl ?_ ?_ rfl <;>
        · rw [hpc]
          intro h
          cases h
  | gettingRole role wearers =>
    have hearly : p.pc.late = false := by rw [hpc]; rfl
    rw [hpc] at hok
    simp only [nextOnRole]
    split
    · rename_i name' _ hop
      exact fine_early hp hearly ⟨name', hop⟩
    · exact fine_early hp hearly hok
  | gettingGrants role row wearers =>
    have hearly : p.pc.late = false := by rw [hpc]; rfl
    rw [hpc] at hok
    simp only [nextOnRole]
    split
    · rename_i name' permissions hop
      exact fine_early hp hearly ⟨allows_saveRoleWrites hop hok, .inl rfl⟩
    · rename_i hop
      refine fine_early hp hearly ⟨hok, ?_⟩
      -- an operation on a role that does not set permissions deletes it
      cases hop' : p.op with
      | deleteRole name' => exact ⟨name', hop'⟩
      | updateRolePermissions name' permissions => exact absurd hop' (hop name' permissions)
      | _ =>
        rw [hop'] at hname
        cases hname
  | gettingUsers role grants wearers =>
    rw [hpc] at hok
    obtain ⟨hrole, name', hop⟩ := hok
    refine fine_late hp rfl ⟨?_, .inr ⟨name', hop⟩⟩
    intro w hmem
    simp only [List.mem_append, List.mem_map, List.mem_singleton] at hmem
    rcases hmem with (⟨q, -, rfl⟩ | ⟨u, -, rfl⟩) | rfl <;> simpa [Proc.Allows, Proc.at_, hop] using hrole
  | _ => exact fine_done hp

/-- The roles of a saved account are looked up one by one before anything is flushed. -/
theorem fine_attaching (hp : s.procs t = p) {save : Save} {row : Option Account} {reread left : List Uuid}
    (hs : p.Saves save) (hrow : ∃ a, row = some a ∧ p.op.untouched save.was.account a = true)
    (hr : p.op.rolesUntouched save.was.roles reread = true)
    (h : nextShared defaultRoleName (seenBy s.store t) p (.attaching save row reread left) = some a) : Fine s t a := by
  obtain ⟨account, rfl, ha⟩ := hrow
  have hrest : save.rest = .commit ∨ p.DeletesRole := by
    unfold Proc.Saves at hs
    cases hop : p.op with
    | deleteRole name => exact .inr ⟨name, hop⟩
    | updateUserRoles u names => rw [hop] at hs; exact .inl hs.2.2
    | _ => rw [hop] at hs; exact .inl hs.2.2.2
  cases left with
  | nil =>
    cases h
    exact fine_late hp rfl ⟨allows_saveWrites hs ha hr (.inl rfl), hrest⟩
  | cons r left =>
    simp only [nextShared] at h
    split at h
    · cases h
      exact fine_late hp rfl ⟨hs, ⟨account, rfl, ha⟩, hr⟩
    · split at h <;> cases h
      · rename_i fallback wearers hback
        have hdel : p.DeletesRole := by
          rcases hrest with hc | hd
          · rw [hback] at hc
            cases hc
          · exact hd
        exact fine_late hp rfl ⟨allows_saveWrites hs ha hr (.inr hdel), .inr hdel⟩
      · exact fine_done hp

/-- One write of a flush, or the end of it. -/
theorem fine_flushing (hw : Written Proc.Wrote s) (hp : s.procs t = p) {todo : List Write} {rest : Rest}
    (hallows : ∀ w ∈ todo, p.Allows w) (hrest : rest = .commit ∨ p.DeletesRole)
    (h : nextShared defaultRoleName (seenBy s.store t) p (.flushing todo rest) = some a) : Fine s t a := by
  cases todo with
  | nil =>
    cases h
    have hlate : rest.pc.late = true := by cases rest <;> rfl
    refine fine_late hp hlate ?_
    cases rest with
    | commit => trivial
    | findDefault wearers =>
      rcases hrest with hc | hd
      · cases hc
      · exact hd
    | putBack fallback wearers =>
      rcases hrest with hc | hd
      · cases hc
      · exact hd
  | cons w todo =>
    simp only [nextShared] at h
    split at h <;> cases h
    · exact fine_done hp
    · rename_i c hc
      refine fine_write hp rfl ?_ ⟨?_, hrest⟩
      · rw [← hp]
        refine may_of_effect hw ?_ hc
        rw [hp]
        exact hallows w List.mem_cons_self
      · intro w' hmem
        split at hmem
        · exact hallows w' (List.mem_cons_of_mem w hmem)
        · exact hallows w' hmem

theorem fine_shared (hw : Written Proc.Wrote s) (hp : s.procs t = p) (hok : p.Ok) (hcur : current s (.next t) = true)
    (h : nextShared defaultRoleName (seenBy s.store t) p p.pc = some a) : Fine s t a := by
  unfold Proc.Ok at hok
  cases hpc : p.pc with
  | resolving names half found =>
    have hearly : p.pc.late = false := by rw [hpc]; rfl
    rw [hpc] at h
    cases names with
    | nil =>
      simp only [nextShared] at h
      split at h <;> cases h
      · exact fine_done hp
      · exact fine_early hp hearly trivial
    | cons name names =>
      simp only [nextShared] at h
      split at h <;> cases h
      · exact fine_done hp
      · exact fine_early hp hearly trivial
      · exact fine_early hp hearly trivial
  | saving save =>
    rw [hpc] at h hok
    cases h
    refine fine_late hp rfl ⟨hok, ?_⟩
    simpa [current, hp, hpc, Proc.at_, Option.any_eq_true] using hcur
  | syncing save row =>
    rw [hpc] at h hok
    cases h
    obtain ⟨hs, a, rfl, ha⟩ := hok
    refine fine_late hp rfl ⟨hs, ⟨a, rfl, ha⟩, ?_⟩
    simpa [current, hp, hpc, Proc.at_] using hcur
  | attaching save row reread left =>
    rw [hpc] at h hok
    obtain ⟨hs, hrow, hr⟩ := hok
    exact fine_attaching hp hs hrow hr h
  | flushing todo rest =>
    rw [hpc] at h hok
    exact fine_flushing hw hp hok.1 hok.2 h
  | findingDefault wearers half =>
    rw [hpc] at h hok
    cases wearers with
    | nil =>
      cases h
      exact fine_late hp rfl trivial
    | cons u wearers =>
      simp only [nextShared] at h
      split at h
      · cases h
        exact fine_late hp rfl trivial
      · cases h
        exact fine_late hp rfl hok
      · split at h <;> cases h
        · exact fine_late hp rfl trivial
        · exact fine_late hp rfl hok
  | puttingBack fallback wearers load =>
    rw [hpc] at h hok
    cases wearers with
    | nil =>
      cases h
      exact fine_late hp rfl trivial
    | cons u wearers =>
      simp only [nextShared] at h
      split at h
      · cases h
        exact fine_late hp rfl hok
      · cases h
        exact fine_late hp rfl hok
      · split at h <;> cases h
        · exact fine_late hp rfl hok
        · exact fine_late hp rfl hok
  | reloading fallback u wearers load =>
    rw [hpc] at h hok
    simp only [nextShared] at h
    split at h <;> cases h
    · exact fine_late hp rfl hok
    · exact fine_late hp rfl hok
    · refine fine_late hp rfl ?_
      obtain ⟨name, hop⟩ := hok
      simp [Proc.Ok, Proc.at_, Proc.Saves, hop]
  | committing =>
    rw [hpc] at h
    cases h
    exact ⟨trivial, trivial, by rw [hp]; rfl⟩
  | _ =>
    rw [hpc] at h
    cases h

/-! ## The invariant -/

/-- Every transaction has written what it may, and is where it should be. -/
structure Inv (s : System T) : Prop where
  written : Written Proc.Wrote s
  ok : ∀ t, (s.procs t).Ok

/-- At rest nothing has been written. -/
theorem Inv.atRest (h : AtRest s) : Inv s := by
  obtain ⟨hclean, -, hbegin⟩ := h
  refine ⟨.of_clean hclean, ?_⟩
  intro t
  obtain ⟨op, hop⟩ := hbegin t
  rw [hop]
  cases op <;> trivial

theorem Inv.act (hi : Inv s) (hf : Fine s t a) (h : Transactions.act s t a = some s') : Inv s' := by
  refine ⟨hi.written.act hf.1 h, ?_⟩
  intro t'
  by_cases ht : t' = t
  · subst ht
    rw [act_procs_self h]
    exact hf.2.1
  · rw [act_procs_ne h ht]
    exact hi.ok t'

theorem step_fine (hi : Inv s) (hcur : current s (.next t) = true)
    (h : next defaultRoleName (seenBy s.store t) (s.procs t) = some a) : Fine s t a := by
  rcases next_cases h with hs | ⟨u, hu, rfl⟩ | ⟨name, hname, rfl⟩
  · exact fine_shared hi.written rfl (hi.ok t) hcur hs
  · exact fine_account hi.written rfl (hi.ok t) hu
  · exact fine_role rfl (hi.ok t) hname

/-- Whose step it is. -/
def Event.actor : Event T → T
  | .next t | .fail t => t

/-- A step is one action of its transaction. -/
theorem step_act {e : Event T} (h : step defaultRoleName s e = some s') :
    ∃ a, Transactions.act s e.actor a = some s' ∧
      (e = .next e.actor ∧ next defaultRoleName (seenBy s.store e.actor) (s.procs e.actor) = some a ∨
        a = .rollback (s.procs e.actor).done) := by
  cases e with
  | next t =>
    obtain ⟨a, ha, hact⟩ := Option.bind_eq_some_iff.mp h
    exact ⟨a, hact, .inl ⟨rfl, ha⟩⟩
  | fail t =>
    simp only [step] at h
    split at h
    · cases h
    · exact ⟨_, h, .inr rfl⟩

/-- **Step lemma**: a step that meets the condition keeps the invariant, and every transaction its operation. -/
theorem step_inv {e : Event T} (hcur : current s e = true) (h : step defaultRoleName s e = some s') (hi : Inv s) :
    Inv s' ∧ ∀ t, (s'.procs t).op = (s.procs t).op := by
  obtain ⟨a, hact, ha⟩ := step_act h
  have hf : Fine s e.actor a := by
    rcases ha with ⟨he, hn⟩ | rfl
    · rw [he] at hcur
      exact step_fine hi hcur hn
    · exact fine_done rfl
  refine ⟨hi.act hf hact, ?_⟩
  intro t
  by_cases ht : t = e.actor
  · rw [ht, act_procs_self hact]
    exact hf.2.2
  · rw [act_procs_ne hact ht]

/-- **Run lemma.** -/
theorem run_inv {s₀ : System T} {es : List (Event T)} (h₀ : AtRest s₀)
    (hmeets : Runs.Meets (step defaultRoleName) (current · · = true) s₀ es)
    (hrun : Runs.run (step defaultRoleName) s₀ es = some s) :
    Inv s ∧ ∀ t, (s.procs t).op = (s₀.procs t).op := by
  refine Runs.run_inv_of_meets (I := fun s => Inv s ∧ ∀ t, (s.procs t).op = (s₀.procs t).op) ?_ hmeets hrun
    ⟨Inv.atRest h₀, fun _ => rfl⟩
  intro s₁ e s₂ hcur hstep hi
  obtain ⟨hi₂, hop⟩ := step_inv hcur hstep hi.1
  exact ⟨hi₂, fun t => (hop t).trans (hi.2 t)⟩

/-- What a step publishes is what the operation of its transaction may write. -/
theorem step_committed {e : Event T} (hi : Inv s) (h : step defaultRoleName s e = some s') (k : Key) :
    (s.procs e.actor).May k (s.store.committed k) (s'.store.committed k) ∨
      s'.store.committed k = s.store.committed k := by
  obtain ⟨a, hact, -⟩ := step_act h
  rcases act_committed_cases hact with hsame | hcommit
  · exact .inr (hsame k)
  · rw [hcommit]
    exact (hi.written.committed e.actor k).imp_left And.right

end Step

end LinkShortener.Accounts
