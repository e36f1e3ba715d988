import LinkShortener.Accounts.Invariant

/-!
# Committed account changes

`SQLAlchemyUserRepository.save` writes every column and every role of an entity that was read earlier. A change that
somebody else committed in between is in the row that `save` reads again, and differs from the entity, so it is
written back to what it was.

* `Lawful`: what a step may publish of one account.
* `account_changes_kept`: in every run in which each `save` finds the account as it was read, in everything its
  operation is not about, every step is lawful.
* `deactivation_undone`: a password change that read the account before it was deactivated makes it active again.
-/

namespace LinkShortener.Accounts

open ReadCommitted Transactions

/-- The operations that read an account and write it later. -/
def Operation.onAccount : Operation → Bool
  | .deleteUser _ | .deleteRole _ | .updateRolePermissions _ _ => false
  | _ => true

/-- **The law**: a deactivation is reversed by an activation only, a password replaced by a change or a reset only, a
set of roles by `UpdateUserRoles` only, and a confirmed address stays confirmed. -/
structure Lawful (op : Operation) (u : Uuid) (before after : Snapshot) : Prop where
  active : ∀ a b, before.row (.user u) = some a → after.row (.user u) = some b →
    a.isActive = false → b.isActive = true → op = .activateUser u
  password : ∀ a b, before.row (.user u) = some a → after.row (.user u) = some b →
    b.passwordHash ≠ a.passwordHash → ∃ hash, op = .changePassword u hash ∨ op = .resetPassword u hash
  roles : ∀ r, after.has (.wears u r) ≠ before.has (.wears u r) → ∃ names, op = .updateUserRoles u names
  verified : ∀ a b, before.row (.user u) = some a → after.row (.user u) = some b →
    a.emailVerified = true → b.emailVerified = true

section Law

variable {T : Type} [DecidableEq T] {s s' : System T} {defaultRoleName : String}

/-- What a step publishes of an account is a change its operation is about. -/
theorem step_changes {e : Event T} (hi : Inv s) (h : step defaultRoleName s e = some s') {u : Uuid} {a b : Account}
    (ha : s.store.committed (.user u) = some a) (hb : s'.store.committed (.user u) = some b) :
    (s.procs e.actor).op.Changes u a b := by
  have hcommitted := step_committed hi h (.user u)
  rw [ha, hb] at hcommitted
  rcases hcommitted with hmay | hsame
  · exact hmay
  · cases hsame
    exact ⟨.inl rfl, .inl rfl, .inl rfl⟩

/-- **Step lemma**: a step of an operation on an account is lawful. -/
theorem step_lawful {e : Event T} (hi : Inv s) (hop : (s.procs e.actor).op.onAccount = true)
    (h : step defaultRoleName s e = some s') (u : Uuid) :
    Lawful (s.procs e.actor).op u (committedNow s.store) (committedNow s'.store) := by
  refine ⟨?_, ?_, ?_, ?_⟩
  · intro a b ha hb hoff hon
    rcases (step_changes hi h ha hb).active with hsame | ⟨hact, -⟩ | ⟨-, hfalse⟩
    · rw [hsame, hoff] at hon
      cases hon
    · exact hact
    · rw [hfalse] at hon
      cases hon
  · intro a b ha hb hne
    rcases (step_changes hi h ha hb).password with hsame | hset
    · exact absurd hsame hne
    · exact hset
  · intro r hne
    rcases step_committed hi h (.wears u r) with hmay | hsame
    · simp only [Proc.May] at hmay
      cases hop' : (s.procs e.actor).op with
      | updateUserRoles u' names =>
        rw [hop'] at hmay
        have hu : u' = u := hmay
        exact ⟨names, by rw [hu]⟩
      | _ =>
        rw [hop'] at hmay hop
        first
          | exact hmay.elim
          | cases hop
    · simp [committedNow, Snapshot.has, hsame] at hne
  · intro a b ha hb hv
    rcases (step_changes hi h ha hb).verified with hsame | ⟨-, htrue⟩
    · rw [hsame]
      exact hv
    · exact htrue

/-- **A committed account change is not undone** by an operation that is not about it, in every run in which each
`save` finds the account as it was read, in everything its operation is not about. -/
theorem account_changes_kept {s₀ : System T} {es : List (Event T)} {e : Event T} (h₀ : AtRest s₀)
    (hops : ∀ t, (s₀.procs t).op.onAccount = true)
    (hmeets : Runs.Meets (step defaultRoleName) (current · · = true) s₀ es)
    (hrun : Runs.run (step defaultRoleName) s₀ es = some s) (hstep : step defaultRoleName s e = some s') (u : Uuid) :
    Lawful (s.procs e.actor).op u (committedNow s.store) (committedNow s'.store) := by
  obtain ⟨hi, hsame⟩ := run_inv h₀ hmeets hrun
  refine step_lawful hi ?_ hstep u
  rw [hsame]
  exact hops e.actor

end Law

/-! ## A password change and a deactivation -/

/-- One account that wears `user`, and two operations on it. -/
def pair (first second : Operation) : System (Fin 2) where
  store := Store.load [.user 1, .role 7, .wears 1 7] (by decide) fun k => match k with
    | .user _ => some ⟨"old", true, true, none⟩
    | .role _ => some ⟨"user", none, true⟩
    | .wears _ _ => some ()
    | .grants _ _ => none
  locks := fun _ => none
  mem := ()
  procs := fun t => if t.val = 0 then .begin first else .begin second

theorem pair_atRest (first second : Operation) : AtRest (pair first second) := by
  refine ⟨?_, rfl, ?_⟩
  · intro t k
    exact Store.dirtyBy_load t k
  · intro t
    simp only [pair]
    split
    · exact ⟨first, rfl⟩
    · exact ⟨second, rfl⟩

/-- A run and one more step of it: whose operation it is, and the account before and after the step. -/
def lastStep (s₀ : System (Fin 2)) (es : List (Event (Fin 2))) (e : Event (Fin 2)) (u : Uuid) :
    Option (Operation × Option Account × Option Account) :=
  (Runs.run (step "user") s₀ es).bind fun s => (step "user" s e).map fun s' =>
    ((s.procs e.actor).op, s.store.committed (.user u), s'.store.committed (.user u))

theorem lastStep_eq_some {s₀ : System (Fin 2)} {es : List (Event (Fin 2))} {e : Event (Fin 2)} {u : Uuid}
    {op : Operation} {a b : Option Account} (h : lastStep s₀ es e u = some (op, a, b)) :
    ∃ s s', Runs.run (step "user") s₀ es = some s ∧ step "user" s e = some s' ∧ (s.procs e.actor).op = op ∧
      s.store.committed (.user u) = a ∧ s'.store.committed (.user u) = b := by
  obtain ⟨s, hrun, h'⟩ := Option.bind_eq_some_iff.mp h
  obtain ⟨s', hstep, hab⟩ := Option.map_eq_some_iff.mp h'
  simp only [Prod.mk.injEq] at hab
  exact ⟨s, s', hrun, hstep, hab.1, hab.2.1, hab.2.2⟩

/-- The account is deactivated after its password was changed: the new password stays. -/
theorem account_changes_kept_in_turn :
    ∃ s s', Runs.run (step "user") (pair (.changePassword 1 "new") (.deactivateUser 1))
        (statements 0 10 ++ statements 1 12) = some s ∧
      step "user" s (.next 1) = some s' ∧
      s'.store.committed (.user 1) = some ⟨"new", false, true, none⟩ ∧
      Lawful (s.procs 1).op 1 (committedNow s.store) (committedNow s'.store) := by
  have hlast : lastStep (pair (.changePassword 1 "new") (.deactivateUser 1)) (statements 0 10 ++ statements 1 12)
      (.next 1) 1 = some (.deactivateUser 1, some ⟨"new", true, true, none⟩, some ⟨"new", false, true, none⟩) := by
    decide +kernel
  obtain ⟨s, s', hrun, hstep, -, -, hafter⟩ := lastStep_eq_some hlast
  exact ⟨s, s', hrun, hstep, hafter, account_changes_kept (pair_atRest _ _) (by decide) (by decide +kernel) hrun hstep 1⟩

/-- **A deactivation undone**: the password change reads the account, the deactivation commits, and the password
change writes the account it had read, active. -/
theorem deactivation_undone :
    ∃ s s', AtRest (pair (.changePassword 1 "new") (.deactivateUser 1)) ∧
      Runs.run (step "user") (pair (.changePassword 1 "new") (.deactivateUser 1))
        (statements 0 3 ++ statements 1 13 ++ statements 0 6) = some s ∧
      step "user" s (.next 0) = some s' ∧
      s.store.committed (.user 1) = some ⟨"old", false, true, none⟩ ∧
      s'.store.committed (.user 1) = some ⟨"new", true, true, none⟩ ∧
      ¬ Lawful (s.procs 0).op 1 (committedNow s.store) (committedNow s'.store) := by
  have hlast : lastStep (pair (.changePassword 1 "new") (.deactivateUser 1))
      (statements 0 3 ++ statements 1 13 ++ statements 0 6) (.next 0) 1 =
      some (.changePassword 1 "new", some ⟨"old", false, true, none⟩, some ⟨"new", true, true, none⟩) := by
    decide +kernel
  obtain ⟨s, s', hrun, hstep, hop, hbefore, hafter⟩ := lastStep_eq_some hlast
  refine ⟨s, s', pair_atRest _ _, hrun, hstep, hbefore, hafter, ?_⟩
  intro hlaw
  have hact := hlaw.active _ _ hbefore hafter rfl rfl
  rw [show (s.procs 0).op = .changePassword 1 "new" from hop] at hact
  cases hact

end LinkShortener.Accounts
