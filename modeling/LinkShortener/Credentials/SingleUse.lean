import LinkShortener.Credentials.Statements

/-!
# Mailed tokens are spent once, and a refused attempt leaves no trace

`ResetPassword` and `VerifyEmail` spend the token first and are refused afterwards, if at all. An execution past its
claim holds the row of the token, which is unspent in the committed version (`Presented.claimed`), until it ends.

* A commit therefore finds the token unspent, and leaves it spent for good: two executions do not both commit.
* An execution that is refused has not committed anything, and everything it wrote it wrote to rows that were there
  before (`Takes.presenting`). Taken out of the run, it leaves the others as they are (`run_without`).
-/

namespace LinkShortener.Credentials

open ReadCommitted Transactions Runs

/-! ## The way of an execution that presents a token -/

/-- The points past the claim. -/
def Pc.pastClaim : Pc → Bool
  | .findById _ | .save _ _ | .flush _ _ | .confirmed | .invalidate _ | .invalidating _ _ _ _ | .revoke _ _
  | .revoking _ _ _ _ _ => true
  | _ => false

/-- The points an execution passes that presents a token. -/
def Pc.onTrack : Pc → Bool
  | .findOwner | .claim _ _ => true
  | pc => pc.pastClaim

/-- The account whose row is about to be written. -/
def Pc.saves : Pc → Option Uuid
  | .save u _ | .flush u _ => some u
  | _ => none

theorem Pc.onTrack_of_pastClaim {pc : Pc} (h : pc.pastClaim = true) : pc.onTrack = true := by
  cases pc with
  | findOwner => rfl
  | claim owner now => rfl
  | _ => exact h

section Way

variable {cfg : Config} {v : Seen} {op : Operation} {pc : Pc} {a : Act} {kind : Kind} {hash : TokenHash}

theorem afterSave_presenting (hop : op.presents = some (kind, hash)) (u : Uuid) :
    (afterSave ⟨op, pc⟩ u).pastClaim = true ∧ (afterSave ⟨op, pc⟩ u).saves = none := by
  cases op with
  | resetPassword hash' new => exact ⟨rfl, rfl⟩
  | verifyEmail hash' => exact ⟨rfl, rfl⟩
  | _ => cases hop

theorem afterInvalidate_presenting (hop : op.presents = some (kind, hash)) (u : Uuid) (asOf : Nat) :
    afterInvalidate ⟨op, pc⟩ u asOf = .revoke u (some asOf) := by
  cases op with
  | requestPasswordReset u' => cases hop
  | _ => rfl

theorem afterChange_presenting (hop : op.presents = some (kind, hash)) (u : Uuid) :
    afterChange v ⟨op, pc⟩ u = .done := by
  cases op with
  | changePassword u' current new => cases hop
  | _ => rfl

/-- **What an execution that presents a token does**: it goes on, claims the token, writes another row that it has found,
commits, or is refused. -/
theorem Takes.presenting (h : Takes cfg v op pc a) (hop : op.presents = some (kind, hash)) (hpc : pc.onTrack = true) :
    (∃ q, a = .goto ⟨op, q⟩ ∧ q.onTrack = true ∧ q.pastClaim = pc.pastClaim ∧
      ∀ u, q.saves = some u → pc.saves = some u ∨ (v.row (.user u)).isSome) ∨
    (∃ tok owner now, pc.pastClaim = false ∧ v.row (.token kind hash) = some tok ∧ tok.usedAt = none ∧
      a = .write (.token kind hash) (some (tok.spend now)) ⟨op, .findById owner⟩) ∨
    (∃ k w q, a = .write k w ⟨op, q⟩ ∧ pc.pastClaim = true ∧ q.pastClaim = true ∧ q.saves = none ∧
      (k = .token kind hash → ∃ tok, v.row (.token kind hash) = some tok ∧ tok.usedAt = none) ∧
      ((v.row k).isSome ∨ ∃ u, pc.saves = some u ∧ k = .user u)) ∨
    (pc.pastClaim = true ∧ a = .commit ⟨op, .done⟩) ∨ a = .rollback ⟨op, .refused⟩ := by
  cases h with
  | refuse hended => exact .inr (.inr (.inr (.inr rfl)))
  | findOwner hop' hrow => exact .inl ⟨_, rfl, rfl, rfl, nofun⟩
  | claim hop' hrow husable =>
    rw [hop] at hop'
    cases hop'
    simp only [Token.isUsable, Bool.and_eq_true, Option.isNone_iff_eq_none] at husable
    exact .inr (.inl ⟨_, _, _, rfl, hrow, husable.1, rfl⟩)
  | findById hrow hchange =>
    refine .inl ⟨_, rfl, rfl, rfl, ?_⟩
    intro u hu
    cases hu
    exact .inr (by rw [hrow]; rfl)
  | save => exact .inl ⟨_, rfl, rfl, rfl, fun u hu => .inl hu⟩
  | flushNothing =>
    obtain ⟨hpast, hsaves⟩ := afterSave_presenting hop _
    refine .inl ⟨_, rfl, Pc.onTrack_of_pastClaim hpast, hpast, ?_⟩
    intro u hu
    rw [hsaves] at hu
    cases hu
  | flushRow =>
    obtain ⟨hpast, hsaves⟩ := afterSave_presenting hop _
    exact .inr (.inr (.inl ⟨_, _, _, rfl, rfl, hpast, hsaves, nofun, .inr ⟨_, rfl, rfl⟩⟩))
  | confirmed => exact .inr (.inr (.inr (.inl ⟨rfl, rfl⟩)))
  | invalidate => exact .inl ⟨_, rfl, rfl, rfl, nofun⟩
  | invalidateRow hrow hunspent =>
    refine .inr (.inr (.inl ⟨_, _, _, rfl, rfl, rfl, rfl, ?_, .inl (by rw [hrow]; rfl)⟩))
    intro hk
    cases hk
    exact ⟨_, hrow, hunspent⟩
  | passInvalidated hpass => exact .inl ⟨_, rfl, rfl, rfl, nofun⟩
  | invalidated =>
    rw [afterInvalidate_presenting hop]
    exact .inl ⟨_, rfl, rfl, rfl, nofun⟩
  | revoke => exact .inl ⟨_, rfl, rfl, rfl, nofun⟩
  | revokeRow hrow => exact .inr (.inr (.inl ⟨_, _, _, rfl, rfl, rfl, rfl, nofun, .inl (by rw [hrow]; rfl)⟩))
  | passRevoked hpass => exact .inl ⟨_, rfl, rfl, rfl, nofun⟩
  | revoked =>
    rw [afterChange_presenting hop]
    exact .inr (.inr (.inr (.inl ⟨rfl, rfl⟩)))
  | _ => cases hpc

/-- A token that is written unspent is a new one. -/
theorem Takes.writes_token {tok : Token} {q : Proc} (h : Takes cfg v op pc (.write (.token kind hash) (some tok) q)) :
    tok.usedAt ≠ none ∨ .token kind hash ∉ v.keys := by
  cases h with
  | claim hop hrow husable => exact .inl nofun
  | invalidateRow hrow hunspent => exact .inl nofun
  | issue hnew => exact .inr hnew

end Way

/-! ## One token -/

/-- The token has been spent, and is not unspent in anybody's eyes. -/
def Spent {T : Type} [DecidableEq T] (s : System T) (kind : Kind) (hash : TokenHash) : Prop :=
  .token kind hash ∈ s.state.store.keys ∧
    AllVersions (.token kind hash) (fun tok : Token => tok.usedAt ≠ none) s.state.store

/-- What is known of an execution that presents a token. -/
structure Presented {T : Type} [DecidableEq T] (s : System T) (t : T) (kind : Kind) (hash : TokenHash) : Prop where
  track : (s.state.procs t).pc.onTrack = true ∨ (s.state.procs t).pc.ended = true
  known : ∀ u, (s.state.procs t).pc.saves = some u → .user u ∈ s.state.store.keys
  claimed : (s.state.procs t).pc.pastClaim = true → ∃ tok tok' : Token,
    Holds s.state t (.token kind hash) (some tok) (some tok') ∧ tok.usedAt = none ∧ tok'.usedAt ≠ none
  spent : (s.state.procs t).pc = .done → Spent s kind hash
  clean : (s.state.procs t).pc.pastClaim = false → ∀ k, s.state.store.dirtyBy t k = none

section Steps

variable {T : Type} [DecidableEq T] {cfg : Config} {s s' : System T} {t : T} {kind : Kind} {hash : TokenHash}
  {input : Input} {op : Operation} {pc : Pc} {a : Act}

theorem Spent.step (h : Spent s kind hash) (htakes : Takes cfg (seenBy s t input) op pc a)
    (hact : act s.state t a = some s'.state) : Spent s' kind hash := by
  refine ⟨act_keys hact h.1, h.2.act hact ?_⟩
  rintro tok q rfl
  rcases htakes.writes_token with hspent | hnew
  · exact hspent
  · exact absurd h.1 hnew

/-- The others leave an execution where it is. -/
theorem Presented.step_other {t' : T} (h : Presented s t kind hash) (hne : t ≠ t')
    (htakes : Takes cfg (seenBy s t' input) op pc a) (hact : act s.state t' a = some s'.state) :
    Presented s' t kind hash := by
  have hprocs := act_procs_ne hact hne
  constructor
  · rw [hprocs]
    exact h.track
  · intro u hu
    rw [hprocs] at hu
    exact act_keys hact (h.known u hu)
  · intro hpast
    rw [hprocs] at hpast
    obtain ⟨tok, tok', hholds, hunspent, hspent⟩ := h.claimed hpast
    exact ⟨tok, tok', hholds.act_other hact hne, hunspent, hspent⟩
  · intro hdone
    rw [hprocs] at hdone
    exact (h.spent hdone).step htakes hact
  · intro hpast k
    rw [hprocs] at hpast
    rw [act_dirtyBy_ne hact hne k]
    exact h.clean hpast k

/-- An execution goes on past its claim. -/
theorem Presented.of_pastClaim {q : Pc} (hprocs : s.state.procs t = ⟨op, q⟩) (hpast : q.pastClaim = true)
    (hknown : ∀ u, q.saves = some u → .user u ∈ s.state.store.keys)
    (hclaimed : ∃ tok tok' : Token,
      Holds s.state t (.token kind hash) (some tok) (some tok') ∧ tok.usedAt = none ∧ tok'.usedAt ≠ none) :
    Presented s t kind hash := by
  have htrack : q.onTrack = true := Pc.onTrack_of_pastClaim hpast
  constructor
  · rw [hprocs]
    exact .inl htrack
  · rw [hprocs]
    exact hknown
  · exact fun _ => hclaimed
  · rw [hprocs]
    rintro (rfl : q = .done)
    cases hpast
  · rw [hprocs]
    intro hpast'
    rw [show q.pastClaim = true from hpast] at hpast'
    cases hpast'

/-- An execution holds nothing. -/
theorem Presented.of_clean {q : Pc} (hprocs : s.state.procs t = ⟨op, q⟩) (htrack : q.onTrack = true ∨ q.ended = true)
    (hpast : q.pastClaim = false) (hspent : q = .done → Spent s kind hash)
    (hclean : ∀ k, s.state.store.dirtyBy t k = none) : Presented s t kind hash := by
  constructor
  · rw [hprocs]
    exact htrack
  · rw [hprocs]
    intro u hu
    cases q with
    | save u' entity => cases hpast
    | flush u' w => cases hpast
    | _ => cases hu
  · rw [hprocs]
    intro hpast'
    rw [show q.pastClaim = false from hpast] at hpast'
    cases hpast'
  · rw [hprocs]
    exact hspent
  · exact fun _ => hclean

theorem Presented.onTrack_of_takes (h : Presented s t kind hash)
    (htakes : Takes cfg (seenBy s t input) (s.state.procs t).op (s.state.procs t).pc a) :
    (s.state.procs t).pc.onTrack = true := by
  rcases h.track with htrack | hended
  · exact htrack
  · rw [htakes.not_ended] at hended
    cases hended

/-- **A step of the execution itself.** -/
theorem Presented.step_self (h : Presented s t kind hash) (hop : (s.state.procs t).op.presents = some (kind, hash))
    (htakes : Takes cfg (seenBy s t input) (s.state.procs t).op (s.state.procs t).pc a)
    (hact : act s.state t a = some s'.state) : Presented s' t kind hash := by
  have htrack := h.onTrack_of_takes htakes
  have hprocs := act_procs_self hact
  rcases htakes.presenting hop htrack with ⟨q, rfl, hq, hpast, hsaves⟩ | ⟨tok, owner, now, hpast, hrow, hunspent, rfl⟩ |
    ⟨k, w, q, rfl, hpast, hq, hsaves, hown, hthere⟩ | ⟨hpast, rfl⟩ | rfl
  · cases hq' : q.pastClaim with
    | true =>
      refine .of_pastClaim hprocs hq' ?_ ?_
      · intro u hu
        rcases hsaves u hu with hsave | hrow
        · exact act_keys hact (h.known u hsave)
        · exact act_keys hact (Store.mem_keys_of_view hrow)
      · obtain ⟨tok, tok', hholds, hunspent, hspent⟩ := h.claimed (hpast.symm.trans hq')
        exact ⟨tok, tok', hholds.goto hact, hunspent, hspent⟩
    | false =>
      have hclean := h.clean (hpast.symm.trans hq')
      refine .of_clean hprocs (.inl hq) hq' ?_ ?_
      · rintro rfl
        cases hq
      · intro k
        rw [act_goto_store hact]
        exact hclean k
  · -- Nothing was written before the claim, so what it finds is committed.
    have hcommitted : s.state.store.committed (.token kind hash) = some tok :=
      (Store.view_of_clean (h.clean hpast _)).symm.trans hrow
    refine .of_pastClaim hprocs rfl nofun ⟨tok, tok.spend now, ?_, hunspent, nofun⟩
    rw [← hcommitted]
    exact .of_write hact
  · obtain ⟨tok, tok', hholds, hunspent, hspent⟩ := h.claimed hpast
    have hne : Key.token kind hash ≠ k := by
      intro hk
      obtain ⟨tok'', hrow, hunspent'⟩ := hown hk.symm
      have hview : s.state.store.view t (.token kind hash) = some tok' := Store.view_of_dirtyBy hholds.2
      cases hview.symm.trans hrow
      exact hspent hunspent'
    refine .of_pastClaim hprocs hq ?_ ⟨tok, tok', hholds.write_ne hact hne, hunspent, hspent⟩
    intro u hu
    rw [hsaves] at hu
    cases hu
  · obtain ⟨tok, tok', hholds, hunspent, hspent⟩ := h.claimed hpast
    obtain ⟨hcommitted, hdirty⟩ := hholds.commit hact
    refine .of_clean hprocs (.inr rfl) rfl ?_ (act_dirtyBy_of_ends hact rfl)
    intro _
    refine ⟨act_keys hact hholds.mem_keys, ?_, ?_⟩
    · intro tok'' htok
      cases hcommitted.symm.trans htok
      exact hspent
    · intro t' tok'' htok
      rw [hdirty t'] at htok
      cases htok
  · exact .of_clean hprocs (.inr rfl) rfl nofun (act_dirtyBy_of_ends hact rfl)

end Steps

/-! ## Runs -/

/-- What holds along every run. -/
structure SingleUse {T : Type} [DecidableEq T] (s : System T) : Prop where
  presented : ∀ t kind hash, (s.state.procs t).op.presents = some (kind, hash) → Presented s t kind hash
  once : ∀ t t' kind hash, (s.state.procs t).op.presents = some (kind, hash) →
    (s.state.procs t').op.presents = some (kind, hash) → (s.state.procs t).pc = .done → (s.state.procs t').pc = .done →
      t = t'

section Runs

variable {T : Type} [DecidableEq T] {cfg : Config} {s s' : System T} {e : Event T} {es : List (Event T)} {t : T} {p : Proc}
  {kind : Kind} {hash : TokenHash}

theorem AtRest.singleUse (h : AtRest s) : SingleUse s := by
  have hstart : ∀ t kind hash, (s.state.procs t).op.presents = some (kind, hash) →
      s.state.procs t = ⟨(s.state.procs t).op, .findOwner⟩ := by
    intro t kind hash hop
    obtain ⟨op, hbegin⟩ := h.2 t
    rw [hbegin] at hop ⊢
    cases op with
    | resetPassword hash' new => rfl
    | verifyEmail hash' => rfl
    | _ => cases hop
  constructor
  · intro t kind hash hop
    exact .of_clean (hstart t kind hash hop) (.inl rfl) rfl nofun (h.1 t)
  · intro t t' kind hash hop _ hdone _
    rw [hstart t kind hash hop] at hdone
    cases hdone

/-- An execution that is done has committed, and its token was unspent until then. -/
theorem Presented.unspent_of_done {input : Input} {a : Act} (h : Presented s t kind hash)
    (hop : (s.state.procs t).op.presents = some (kind, hash))
    (htakes : Takes cfg (seenBy s t input) (s.state.procs t).op (s.state.procs t).pc a) (hdone : a.point.pc = .done) :
    ¬ Spent s kind hash := by
  have htrack := h.onTrack_of_takes htakes
  have hpast : (s.state.procs t).pc.pastClaim = true := by
    rcases htakes.presenting hop htrack with ⟨q, rfl, hq, -⟩ | ⟨tok, owner, now, -, -, -, rfl⟩ |
      ⟨k, w, q, rfl, -, hq, -⟩ | ⟨hpast, -⟩ | rfl
    · cases (hdone : q = .done)
      cases hq
    · cases hdone
    · cases (hdone : q = .done)
      cases hq
    · exact hpast
    · cases hdone
  obtain ⟨tok, tok', hholds, hunspent, -⟩ := h.claimed hpast
  intro hspent
  exact hspent.2.1 tok hholds.1 hunspent

/-- **Step lemma.** -/
theorem SingleUse.step (hs : SingleUse s) (h : Credentials.step cfg s e = some s') : SingleUse s' := by
  have hops := step_op h
  obtain ⟨input, a, htakes, hact, -⟩ := step_takes h
  have hnew : ∀ t kind hash, (s.state.procs e.proc).op.presents = some (kind, hash) →
      (s.state.procs t).op.presents = some (kind, hash) → t ≠ e.proc → a.point.pc = .done →
        (s.state.procs t).pc ≠ .done := by
    intro t kind hash hop hop' _ hdone hdone'
    exact (hs.presented _ _ _ hop).unspent_of_done hop htakes hdone ((hs.presented _ _ _ hop').spent hdone')
  constructor
  · intro t kind hash hop
    rw [hops t] at hop
    by_cases ht : t = e.proc
    · subst ht
      exact (hs.presented _ _ _ hop).step_self hop htakes hact
    · exact (hs.presented _ _ _ hop).step_other ht htakes hact
  · intro t t' kind hash hop hop' hdone hdone'
    rw [hops t] at hop
    rw [hops t'] at hop'
    by_cases ht : t = e.proc
    · subst ht
      by_contra hne
      rw [act_procs_self hact] at hdone
      rw [act_procs_ne hact (Ne.symm hne)] at hdone'
      exact hnew t' kind hash hop hop' (Ne.symm hne) hdone hdone'
    · rw [act_procs_ne hact ht] at hdone
      by_cases ht' : t' = e.proc
      · subst ht'
        rw [act_procs_self hact] at hdone'
        exact absurd hdone (hnew t kind hash hop' hop ht hdone')
      · rw [act_procs_ne hact ht'] at hdone'
        exact hs.once t t' kind hash hop hop' hdone hdone'

/-! ## Without one execution -/

/-- The system without what `t` has written, and with `t` at `p`. -/
def without (t : T) (p : Proc) (s : System T) : System T := ⟨erase t p s.state, s.log⟩

/-- The others see the same. -/
theorem seenBy_without {t' : T} (hne : t' ≠ t) (input : Input) :
    seenBy (without t p s) t' input = seenBy s t' input := by
  have hview : (s.state.store.abort t).view t' = s.state.store.view t' := funext (Store.view_abort_ne hne)
  unfold seenBy without erase
  simp only [hview]
  rfl

/-- The others do the same. -/
theorem step_without_other (h : step cfg s e = some s') (hne : e.proc ≠ t) :
    step cfg (without t p s) e = some (without t p s') := by
  cases e with
  | step t' input =>
    have hne : t' ≠ t := hne
    have hprocs : (without t p s).state.procs t' = s.state.procs t' := Function.update_of_ne hne _ _
    obtain ⟨a, state, hnext, hact, rfl⟩ := take_some h
    have hnext' : nextOf cfg (without t p s) t' input = some a := by
      unfold nextOf at hnext ⊢
      rw [seenBy_without hne, hprocs]
      exact hnext
    have hact' : act (without t p s).state t' a = some (erase t p state) := act_erase_other hact hne
    show Option.map _ ((nextOf cfg (without t p s) t' input).bind _) = _
    rw [hnext', Option.bind_some, hact', Option.map_some, hprocs]
    rfl
  | fail t' =>
    have hne : t' ≠ t := hne
    have hprocs : (without t p s).state.procs t' = s.state.procs t' := Function.update_of_ne hne _ _
    obtain ⟨hended, state, hact, rfl⟩ := fail_some h
    have hact' : act (without t p s).state t' (.rollback ((s.state.procs t').at_ .refused)) = some (erase t p state) :=
      act_erase_other hact hne
    simp only [step]
    rw [hprocs, hended, if_neg Bool.false_ne_true, hact']
    rfl

/-- An execution that presents a token leaves no trace as long as it does not commit. -/
theorem step_without_self (hs : SingleUse s) (h : step cfg s e = some s')
    (hop : (s.state.procs e.proc).op.presents = some (kind, hash)) (hdone : (s'.state.procs e.proc).pc ≠ .done) :
    without e.proc p s' = without e.proc p s := by
  obtain ⟨input, a, htakes, hact, hlog⟩ := step_takes h
  have hpresented := hs.presented _ _ _ hop
  rw [act_procs_self hact] at hdone
  unfold without
  rw [hlog]
  rcases htakes.presenting hop (hpresented.onTrack_of_takes htakes) with ⟨q, rfl, -⟩ | ⟨tok, owner, now, -, hrow, -, rfl⟩ |
    ⟨k, w, q, rfl, -, -, -, -, hthere⟩ | ⟨-, rfl⟩ | rfl
  · rw [act_erase_self hact (by rintro q ⟨⟩) (by rintro m q ⟨⟩) (by rintro l q ⟨⟩) (by rintro k v q ⟨⟩)]
    rfl
  · have hthere : (s.state.store.view e.proc (.token kind hash)).isSome = true := Option.isSome_of_eq_some hrow
    have hkey : Key.token kind hash ∈ s.state.store.keys := Store.mem_keys_of_view hthere
    rw [act_erase_self hact (by rintro q ⟨⟩) (by rintro m q ⟨⟩) (by rintro l q ⟨⟩) (by rintro k v q ⟨⟩; exact hkey)]
    rfl
  · have hkey : k ∈ s.state.store.keys := by
      rcases hthere with hrow | ⟨u, hsaves, rfl⟩
      · exact Store.mem_keys_of_view hrow
      · exact hpresented.known u hsaves
    rw [act_erase_self hact (by rintro q ⟨⟩) (by rintro m q ⟨⟩) (by rintro l q ⟨⟩) (by rintro k v q ⟨⟩; exact hkey)]
    rfl
  · exact absurd rfl hdone
  · rw [act_erase_self hact (by rintro q ⟨⟩) (by rintro m q ⟨⟩) (by rintro l q ⟨⟩) (by rintro k v q ⟨⟩)]
    rfl

/-- What is done stays done. -/
theorem run_done (h : run (step cfg) s es = some s') (hdone : (s.state.procs t).pc = .done) :
    (s'.state.procs t).pc = .done := by
  refine run_inv (I := fun s => (s.state.procs t).pc = .done) ?_ h hdone
  intro s e s' h hdone
  obtain ⟨input, a, htakes, hact, -⟩ := step_takes h
  have hne : t ≠ e.proc := by
    rintro rfl
    have hended := htakes.not_ended
    rw [hdone] at hended
    cases hended
  rw [act_procs_ne hact hne]
  exact hdone

/-- **The run without an execution that was refused.** -/
theorem run_without : ∀ {es : List (Event T)} {s s' : System T}, SingleUse s →
    (s.state.procs t).op.presents = some (kind, hash) → run (step cfg) s es = some s' →
      (s'.state.procs t).pc = .refused →
        run (step cfg) (without t p s) (es.filter fun e => decide (e.proc ≠ t)) = some (without t p s')
  | [], s, s', _, _, h, _ => by
    cases h
    rfl
  | e :: es, s, s', hs, hop, h, hrefused => by
    obtain ⟨s₁, h₁, h₂⟩ := run_cons h
    have hop₁ : (s₁.state.procs t).op.presents = some (kind, hash) := by
      rw [step_op h₁ t]
      exact hop
    have hrest := run_without (hs.step h₁) hop₁ h₂ hrefused
    by_cases ht : e.proc = t
    · subst ht
      have hdone : (s₁.state.procs e.proc).pc ≠ .done := by
        intro hdone
        rw [run_done h₂ hdone] at hrefused
        cases hrefused
      rw [step_without_self hs h₁ hop hdone] at hrest
      rw [List.filter_cons_of_neg (by simp)]
      exact hrest
    · rw [List.filter_cons_of_pos (by simpa using ht), run, step_without_other h₁ ht, Option.bind_some]
      exact hrest

theorem without_of_clean (hp : s.state.procs t = p) (hclean : ∀ k, s.state.store.dirtyBy t k = none) :
    without t p s = s := by
  unfold without
  rw [erase_of_clean hp (fun l => l.elim) hclean]

theorem without_of_refused (hclean : ∀ k, s.state.store.dirtyBy t k = none) :
    without t p s = { s with state := { s.state with procs := Function.update s.state.procs t p } } := by
  have hlocks : release s.state.locks t = s.state.locks := funext fun l => l.elim
  unfold without erase
  rw [Store.abort_of_clean hclean, hlocks]

end Runs

/-- **A mailed token is spent once or not at all.** From a database at rest, and in whatever order the statements come: of
the executions that present a token at most one is done, that is, has committed; and an execution that was refused may be
taken out of the run, which then ends in the same state, but for that execution, which has not begun. -/
theorem mailed_token_is_spent_once {T : Type} [DecidableEq T] (cfg : Config) {s s' : System T} {es : List (Event T)}
    (hrest : AtRest s) (hrun : run (step cfg) s es = some s') :
    (∀ t t' kind hash, (s.state.procs t).op.presents = some (kind, hash) →
      (s.state.procs t').op.presents = some (kind, hash) → (s'.state.procs t).pc = .done →
        (s'.state.procs t').pc = .done → t = t') ∧
    ∀ t kind hash, (s.state.procs t).op.presents = some (kind, hash) → (s'.state.procs t).pc = .refused →
      run (step cfg) s (es.filter fun e => decide (e.proc ≠ t)) =
        some { s' with state := { s'.state with procs := Function.update s'.state.procs t (s.state.procs t) } } := by
  have hs' : SingleUse s' := run_inv (fun h hs => hs.step h) hrun hrest.singleUse
  have hops : ∀ t, (s'.state.procs t).op = (s.state.procs t).op := by
    intro t
    refine run_inv (I := fun s' => (s'.state.procs t).op = (s.state.procs t).op) ?_ hrun rfl
    intro s₁ e s₂ h hop
    rw [step_op h t]
    exact hop
  constructor
  · intro t t' kind hash hop hop' hdone hdone'
    exact hs'.once t t' kind hash (by rw [hops t]; exact hop) (by rw [hops t']; exact hop') hdone hdone'
  · intro t kind hash hop hrefused
    have hclean : ∀ k, s'.state.store.dirtyBy t k = none :=
      (hs'.presented t kind hash (by rw [hops t]; exact hop)).clean (by rw [hrefused]; rfl)
    have hwithout := run_without (p := s.state.procs t) hrest.singleUse hop hrun hrefused
    rw [without_of_clean rfl (hrest.1 t), without_of_refused hclean] at hwithout
    exact hwithout

/-- Two executions that present the same link, the first with a password that is refused. -/
def twoResets : System Bool := sampleSystem (.resetPassword 7 "short") (.resetPassword 7 "new password")

/-- Both find the link unspent. The first claims it and is refused, and the second spends it after that. -/
def twoAttempts : List (Event Bool) :=
  statements false 2 0 (.user 1) ++ statements true 1 0 (.user 1) ++ statements false 1 0 (.user 1) ++
    statements true 9 0 (.session 1 5)

theorem second_attempt_spends_the_token :
    ∃ s', run (step sampleConfig) twoResets twoAttempts = some s' ∧
      (s'.state.procs false).pc = .refused ∧ (s'.state.procs true).pc = .done ∧
      run (step sampleConfig) twoResets (statements true 10 0 (.session 1 5)) =
        some { s' with state := { s'.state with
          procs := Function.update s'.state.procs false (twoResets.state.procs false) } } := by
  have hends : (run (step sampleConfig) twoResets twoAttempts).map
      (fun s => ((s.state.procs false).pc, (s.state.procs true).pc)) = some (.refused, .done) := by decide +kernel
  obtain ⟨s', hrun, hpcs⟩ := Option.map_eq_some_iff.mp hends
  have hrefused : (s'.state.procs false).pc = .refused := congrArg Prod.fst hpcs
  refine ⟨s', hrun, hrefused, congrArg Prod.snd hpcs, ?_⟩
  exact (mailed_token_is_spent_once sampleConfig (sampleSystem_atRest _ _) hrun).2 false .reset 7 rfl hrefused

end LinkShortener.Credentials
