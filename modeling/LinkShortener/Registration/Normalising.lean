import Mathlib.Data.List.Perm.Subperm
import LinkShortener.Lib.Decimal
import LinkShortener.Lib.Rows
import LinkShortener.Basic
import LinkShortener.Registration.Addresses

/-!
# Addresses from before the rule

`flask maintenance normalize-emails`: rows of `users` that were written before addresses were held in lower case. The table
is read once, and each address that nobody else's would become is rewritten in a transaction of its own, while others go on
writing to the table.

* `findAddressesNeedingNormalising`, `normaliseAddresses`: the two halves. `attempt` is the transaction of one address with
  everything that may come of it.
* `Turn`: what others do before an address is written, and what goes wrong with it, and when.
* `normalising_is_accounted_for`: whatever happens, the report adds up, and nothing was written but the normal form of an
  address over that address.
* `normalising_settles_the_table`: left to itself the command normalises every address that can be.
-/

namespace LinkShortener.Registration.Normalising

open Text
open Urls (Str)

/-! ## The table -/

/-- `id` and `email` of a `users` row. -/
structure StoredAddress where
  id : Uuid
  email : Str
  deriving DecidableEq, Repr

/-- The table, in the order of the addresses. The index on them is unique. -/
structure Users where
  table : Rows StoredAddress.id
  unique : (table.rows.map StoredAddress.email).Nodup

namespace Users

/-- The rows with the one of the identifier and the address rewritten. -/
def rewrite (d : StoredAddress) (email : Str) (row : StoredAddress) : StoredAddress :=
  if row = d then { row with email := email } else row

theorem rewrite_id (d : StoredAddress) (email : Str) (row : StoredAddress) : (rewrite d email row).id = row.id := by
  unfold rewrite
  split <;> rfl

theorem rewrite_of_ne {d row : StoredAddress} {email : Str} (h : row ≠ d) : rewrite d email row = row := if_neg h

theorem rewrite_self (d : StoredAddress) (email : Str) : rewrite d email d = { d with email := email } := if_pos rfl

/-- An address nobody else has can be written over another. -/
theorem unique_rewrite {users : Users} {d : StoredAddress} {email : Str}
    (hfree : ∀ row ∈ users.table.rows, row ≠ d → row.email ≠ email) :
    (((users.table.modify (rewrite d email) (rewrite_id d email)).rows).map StoredAddress.email).Nodup := by
  show ((users.table.rows.map (rewrite d email)).map StoredAddress.email).Nodup
  rw [List.map_map]
  refine (List.nodup_map_iff_inj_on (List.Nodup.of_map _ users.unique)).mpr ?_
  intro x hx y hy hsame
  have hinj := List.inj_on_of_nodup_map users.unique
  simp only [Function.comp_apply] at hsame
  by_cases hxd : x = d
  · by_cases hyd : y = d
    · rw [hxd, hyd]
    · subst hxd
      rw [rewrite_self, rewrite_of_ne hyd] at hsame
      exact absurd hsame.symm (hfree y hy hyd)
  · by_cases hyd : y = d
    · subst hyd
      rw [rewrite_self, rewrite_of_ne hxd] at hsame
      exact absurd hsame (hfree x hx hxd)
    · rw [rewrite_of_ne hxd, rewrite_of_ne hyd] at hsame
      exact hinj hx hy hsame

/-- `UPDATE users SET email WHERE id AND email`: the table and the number of rows; `none` when the index refuses. -/
def update (users : Users) (d : StoredAddress) (email : Str) : Option (Users × Nat) :=
  if d ∈ users.table.rows then
    if hfree : ∀ row ∈ users.table.rows, row ≠ d → row.email ≠ email then
      some (⟨users.table.modify (rewrite d email) (rewrite_id d email), unique_rewrite hfree⟩, 1)
    else none
  else some (users, 0)

end Users

/-! ## What is to be done -/

/-- An address that is reported. `clashes` says that another account's address has the same normal form. -/
structure Report where
  id : Uuid
  email : Str
  clashes : Bool
  deriving DecidableEq, Repr

section Command

variable (lower : Str → Str)

def findAddressesNeedingNormalising (users : Users) : List Report :=
  let normalised := users.table.rows.map fun row => Email.normalise lower row.email
  (users.table.rows.filter fun row => decide (row.email ≠ Email.normalise lower row.email)).map fun row =>
    ⟨row.id, row.email, decide (normalised.count (Email.normalise lower row.email) > 1)⟩

/-- Where `str.splitlines` breaks a text. -/
def isLineBreak (c : Char) : Bool :=
  decide (10 ≤ c.toNat ∧ c.toNat ≤ 13 ∨ 28 ≤ c.toNat ∧ c.toNat ≤ 30 ∨ c.toNat = 0x85 ∨ c.toNat = 0x2028 ∨ c.toNat = 0x2029)

/-- The first line that says anything, or the name of the class. -/
def whatTheDatabaseSaid (text className : Str) : Str :=
  (((text.splitOnP isLineBreak).map Decimal.strip).find? fun line => decide (line ≠ [])).getD className

/-- How far a transaction has come. -/
inductive Stage
  | beforeCommit
  | committed
  | counted
  deriving DecidableEq, Repr

/-- What goes wrong with a transaction: an error of the driver, or `Ctrl-C`. -/
inductive Trouble
  | raises (stage : Stage) (text className : Str)
  | interrupted (stage : Stage)
  deriving DecidableEq, Repr

/-- What others make of the table before an address is written, and what goes wrong with it. -/
structure Turn where
  meanwhile : Users → Users
  trouble : Option Trouble

/-- What has become of the table, by whom. -/
inductive Change
  | others (f : Users → Users)
  | own (d : StoredAddress) (email : Str)

/-- What has been done so far. -/
structure Progress where
  users : Users
  changed : Nat
  refused : Nat
  failed : Nat
  moved : Nat
  reasons : List Str
  changes : List Change

def Progress.start (users : Users) : Progress := ⟨users, 0, 0, 0, 0, [], []⟩

def Progress.fail (p : Progress) (text className : Str) : Progress :=
  let reason := whatTheDatabaseSaid text className
  { p with failed := p.failed + 1, reasons := if reason ∈ p.reasons then p.reasons else p.reasons ++ [reason] }

/-- The update of an address, if it is let to. -/
def Progress.write (p : Progress) (d : StoredAddress) (email : Str) (users : Users) (matched : Nat) : Progress :=
  { p with users := users, changes := if matched = 0 then p.changes else .own d email :: p.changes }

def Progress.count (p : Progress) (matched : Nat) : Progress :=
  if matched = 0 then { p with moved := p.moved + 1 } else { p with changed := p.changed + 1 }

/-- **The transaction of one address.** `false` ends the work. -/
def attempt (turn : Turn) (p : Progress) (d : StoredAddress) : Progress × Bool :=
  let email := Email.normalise lower d.email
  let p := { p with users := turn.meanwhile p.users, changes := .others turn.meanwhile :: p.changes }
  match turn.trouble with
  | some (.raises .beforeCommit text className) => (p.fail text className, true)
  | some (.interrupted .beforeCommit) => (p, false)
  | trouble =>
    match p.users.update d email with
    | none => ({ p with refused := p.refused + 1 }, true)
    | some (users, matched) =>
      let p := p.write d email users matched
      match trouble with
      -- The answer to the commit is lost, and the row is written all the same.
      | some (.raises .committed text className) => (p.fail text className, true)
      | some (.interrupted .committed) => (p, false)
      | some (.interrupted _) => (p.count matched, false)
      | _ => (p.count matched, true)

/-- The addresses one after the other, the turn of each by how many were tried before. -/
def work (turns : Nat → Turn) : Nat → Progress → List StoredAddress → Progress
  | _, p, [] => p
  | n, p, d :: rest =>
    match attempt lower (turns n) p d with
    | (p, true) => work turns (n + 1) p rest
    | (p, false) => p

/-- The rows that are worked through. -/
def doomed (rows : List Report) : List StoredAddress := (rows.filter (!·.clashes)).map fun row => ⟨row.id, row.email⟩

/-- What the operator is told. -/
structure Summary where
  changed : Nat
  skipped : Nat
  refused : Nat
  failed : Nat
  moved : Nat
  remaining : Nat
  reasons : List Str
  deriving DecidableEq, Repr

def Progress.attempted (p : Progress) : Nat := p.changed + p.moved + p.refused + p.failed

def normaliseAddresses (turns : Nat → Turn) (users : Users) (rows : List Report) : Progress × Summary :=
  let p := work lower turns 0 (.start users) (doomed rows)
  (p, ⟨p.changed, rows.length - (doomed rows).length, p.refused, p.failed, p.moved, (doomed rows).length - p.attempted,
    p.reasons⟩)

end Command

variable {lower : Str → Str} {turns : Nat → Turn} {turn : Turn} {users : Users} {rows : List Report}
  {ds rest : List StoredAddress} {d : StoredAddress} {p p' : Progress} {n : Nat} {go : Bool}

/-! ## Whatever happens -/

/-- The table after some changes, the last of them first. -/
inductive Follows (start : Users) : List Change → Users → Prop
  | nil : Follows start [] start
  | others {changes : List Change} {users : Users} (f : Users → Users) (h : Follows start changes users) :
    Follows start (.others f :: changes) (f users)
  | own {changes : List Change} {users users' : Users} {d : StoredAddress} {email : Str} (h : Follows start changes users)
    (hupdate : users.update d email = some (users', 1)) : Follows start (.own d email :: changes) users'

def isOwn : Change → Bool
  | .own _ _ => true
  | .others _ => false

/-- What is true of the work so far. `slack` is 1 when the work has ended in the middle of an address, before it was counted. -/
structure Sound (lower : Str → Str) (start : Users) (ds : List StoredAddress) (slack : Nat) (p : Progress) : Prop where
  follows : Follows start p.changes p.users
  own : ∀ d email, .own d email ∈ p.changes → d ∈ ds ∧ email = Email.normalise lower d.email
  least : p.changed ≤ p.changes.countP isOwn
  most : p.changes.countP isOwn ≤ p.changed + p.failed + slack
  distinct : p.reasons.Nodup
  said : ∀ reason ∈ p.reasons, ∃ text className, reason = whatTheDatabaseSaid text className
  few : p.reasons.length ≤ p.failed

theorem Users.update_cases {users users' : Users} {d : StoredAddress} {email : Str} {matched : Nat}
    (h : users.update d email = some (users', matched)) :
    matched = 0 ∧ users' = users ∨ matched = 1 ∧ d ∈ users.table.rows := by
  unfold update at h
  split at h
  · split at h
    · cases h
      exact .inr ⟨rfl, ‹_›⟩
    · cases h
  · cases h
    exact .inl ⟨rfl, rfl⟩

theorem sound_start (users : Users) : Sound lower users ds 0 (.start users) where
  follows := .nil
  own := nofun
  least := Nat.le_refl _
  most := Nat.le_refl _
  distinct := List.nodup_nil
  said := nofun
  few := Nat.le_refl _

theorem Sound.slacken {slack slack' : Nat} (hle : slack ≤ slack') (h : Sound lower users ds slack p) :
    Sound lower users ds slack' p :=
  { h with most := Nat.le_trans h.most (Nat.add_le_add_left hle _) }

theorem Sound.meanwhile (f : Users → Users) (h : Sound lower users ds 0 p) :
    Sound lower users ds 0 { p with users := f p.users, changes := .others f :: p.changes } where
  follows := .others f h.follows
  own d email hown := h.own d email ((List.mem_cons.mp hown).resolve_left nofun)
  least := by
    rw [List.countP_cons_of_neg (by simp [isOwn])]
    exact h.least
  most := by
    rw [List.countP_cons_of_neg (by simp [isOwn])]
    exact h.most
  distinct := h.distinct
  said := h.said
  few := h.few

/-- An address is written, and nothing is counted yet. -/
theorem Sound.write {users' : Users} {matched : Nat} (hd : d ∈ ds) (h : Sound lower users ds 0 p)
    (hupdate : p.users.update d (Email.normalise lower d.email) = some (users', matched)) :
    Sound lower users ds (if matched = 0 then 0 else 1) (p.write d (Email.normalise lower d.email) users' matched) ∧
      (p.write d (Email.normalise lower d.email) users' matched).changes.countP isOwn =
        p.changes.countP isOwn + (if matched = 0 then 0 else 1) := by
  rcases Users.update_cases hupdate with ⟨rfl, rfl⟩ | ⟨rfl, -⟩
  · exact ⟨{ h with }, rfl⟩
  · have hcount : (p.write d (Email.normalise lower d.email) users' 1).changes.countP isOwn =
        p.changes.countP isOwn + 1 := List.countP_cons_of_pos rfl
    refine ⟨⟨.own h.follows hupdate, ?_, ?_, ?_, h.distinct, h.said, h.few⟩, hcount⟩
    · intro d' email hown
      rcases List.mem_cons.mp hown with heq | hown
      · cases heq
        exact ⟨hd, rfl⟩
      · exact h.own d' email hown
    · rw [hcount]
      exact Nat.le_succ_of_le h.least
    · rw [hcount]
      exact Nat.succ_le_succ h.most

theorem Sound.fail {slack : Nat} (text className : Str) (h : Sound lower users ds slack p)
    (hslack : p.changes.countP isOwn ≤ p.changed + p.failed + 1) : Sound lower users ds 0 (p.fail text className) := by
  refine ⟨h.follows, h.own, h.least, ?_, ?_, ?_, ?_⟩
  · show p.changes.countP isOwn ≤ p.changed + (p.failed + 1)
    omega
  · unfold Progress.fail
    dsimp only
    split
    · exact h.distinct
    · rename_i hnew
      exact List.nodup_append.mpr ⟨h.distinct, List.nodup_singleton _, by
        intro r hr r' hr' heq
        rw [List.mem_singleton.mp hr'] at heq
        exact hnew (heq ▸ hr)⟩
  · unfold Progress.fail
    dsimp only
    split
    · exact h.said
    · intro reason hreason
      rcases List.mem_append.mp hreason with hold | hnew
      · exact h.said reason hold
      · exact ⟨text, className, List.mem_singleton.mp hnew⟩
  · have hfew := h.few
    unfold Progress.fail
    dsimp only
    split
    · omega
    · rw [List.length_append, List.length_singleton]
      omega

theorem Sound.count {matched : Nat} (h : Sound lower users ds (if matched = 0 then 0 else 1) p)
    (hleast : p.changed + (if matched = 0 then 0 else 1) ≤ p.changes.countP isOwn) :
    Sound lower users ds 0 (p.count matched) := by
  have hmost := h.most
  unfold Progress.count
  split
  · rename_i hzero
    rw [if_pos hzero] at h
    exact { h with }
  · rename_i hsome
    rw [if_neg hsome] at hleast hmost
    refine ⟨h.follows, h.own, hleast, ?_, h.distinct, h.said, h.few⟩
    show p.changes.countP isOwn ≤ p.changed + 1 + p.failed + 0
    omega

/-- An address that is tried is counted once, unless the work ends in the middle of it. -/
theorem attempt_attempted (h : attempt lower turn p d = (p', go)) :
    p'.attempted = p.attempted + 1 ∨ go = false ∧ p'.attempted = p.attempted := by
  have hcount : ∀ (p : Progress) (matched : Nat), (p.count matched).attempted = p.attempted + 1 := by
    intro p matched
    unfold Progress.count Progress.attempted
    split <;> dsimp only <;> omega
  have hfail : ∀ (p : Progress) (text className : Str), (p.fail text className).attempted = p.attempted + 1 :=
    fun _ _ _ => rfl
  unfold attempt at h
  dsimp only at h
  split at h
  · cases h
    exact .inl (hfail _ _ _)
  · cases h
    exact .inr ⟨rfl, rfl⟩
  · split at h
    · cases h
      left
      unfold Progress.attempted
      dsimp only
      omega
    · split at h
      · cases h
        exact .inl (hfail _ _ _)
      · cases h
        exact .inr ⟨rfl, rfl⟩
      · cases h
        exact .inl (hcount _ _)
      · cases h
        exact .inl (hcount _ _)

/-- **One address keeps the books**, whatever comes of it: what is written is counted, unless nothing is. -/
theorem attempt_sound (hd : d ∈ ds) (h : Sound lower users ds 0 p) (hattempt : attempt lower turn p d = (p', go)) :
    Sound lower users ds (if p'.attempted = p.attempted then 1 else 0) p' := by
  have hmeanwhile := h.meanwhile turn.meanwhile
  unfold attempt at hattempt
  dsimp only at hattempt
  split at hattempt
  · cases hattempt
    exact (hmeanwhile.fail _ _ (by have := hmeanwhile.most; omega)).slacken (Nat.zero_le _)
  · cases hattempt
    exact hmeanwhile.slacken (Nat.zero_le _)
  · split at hattempt
    · cases hattempt
      exact Sound.slacken (Nat.zero_le _) { hmeanwhile with }
    · rename_i users' matched hupdate
      obtain ⟨hwrite, hcount⟩ := hmeanwhile.write hd hupdate
      have hleast := hmeanwhile.least
      have hmost := hwrite.most
      have hcounted : Sound lower users ds 0 ((Progress.write _ d _ users' matched).count matched) :=
        hwrite.count (by rw [hcount]; exact Nat.add_le_add_right hleast _)
      split at hattempt
      · cases hattempt
        refine (hwrite.fail _ _ ?_).slacken (Nat.zero_le _)
        split at hmost <;> omega
      · cases hattempt
        -- The row is written, and `Ctrl-C` comes before it is counted.
        refine hwrite.slacken (Nat.le_trans ?_ (Nat.le_of_eq (if_pos rfl).symm))
        split <;> omega
      · cases hattempt
        exact hcounted.slacken (Nat.zero_le _)
      · cases hattempt
        exact hcounted.slacken (Nat.zero_le _)

def Trouble.interrupts : Trouble → Bool
  | .interrupted _ => true
  | .raises _ _ _ => false

/-- Only `Ctrl-C` ends the work. -/
theorem attempt_goes_on (h : attempt lower turn p d = (p', go))
    (hturn : ∀ trouble ∈ turn.trouble, trouble.interrupts = false) :
    go = true := by
  unfold attempt at h
  dsimp only at h
  split at h
  · cases h
    rfl
  · rename_i htrouble
    exact absurd (hturn _ htrouble) (by decide)
  · split at h
    · cases h
      rfl
    · split at h
      · cases h
        rfl
      · exact absurd (hturn _ ‹_›) (by decide)
      · exact absurd (hturn _ ‹_›) fun hno => by cases hno
      · cases h
        rfl

/-- The work keeps the books, and has ended in the middle of an address only if some are left. -/
theorem work_sound (hsub : ∀ d ∈ rest, d ∈ ds) (h : Sound lower users ds 0 p) :
    Sound lower users ds (min 1 (p.attempted + rest.length - (work lower turns n p rest).attempted))
      (work lower turns n p rest) := by
  induction rest generalizing n p with
  | nil => exact h.slacken (Nat.zero_le _)
  | cons d rest ih =>
    rw [List.length_cons]
    unfold work
    split
    · rename_i p' hattempt
      have hone : p'.attempted = p.attempted + 1 := (attempt_attempted hattempt).resolve_right fun hno => by cases hno.1
      have hkept := attempt_sound (hsub d List.mem_cons_self) h hattempt
      rw [if_neg (by omega)] at hkept
      refine (ih (n := n + 1) (fun d hd => hsub d (List.mem_cons_of_mem _ hd)) hkept).slacken ?_
      omega
    · rename_i p' hattempt
      refine (attempt_sound (hsub d List.mem_cons_self) h hattempt).slacken ?_
      split <;> omega

theorem work_attempted (p : Progress) : (work lower turns n p rest).attempted ≤ p.attempted + rest.length := by
  induction rest generalizing n p with
  | nil => exact Nat.le_refl _
  | cons d rest ih =>
    rw [List.length_cons]
    unfold work
    split
    · rename_i p' hattempt
      have hrest := ih (n := n + 1) p'
      rcases attempt_attempted hattempt with hone | ⟨hno, -⟩
      · omega
      · cases hno
    · rename_i p' hattempt
      rcases attempt_attempted hattempt with hone | ⟨-, hsame⟩ <;> omega

theorem work_attempts_all (p : Progress) (hturns : ∀ n, ∀ trouble ∈ (turns n).trouble, trouble.interrupts = false) :
    (work lower turns n p rest).attempted = p.attempted + rest.length := by
  induction rest generalizing n p with
  | nil => rfl
  | cons d rest ih =>
    rw [List.length_cons]
    unfold work
    split
    · rename_i p' hattempt
      rw [ih]
      rcases attempt_attempted hattempt with hone | ⟨hno, -⟩
      · omega
      · cases hno
    · rename_i p' hattempt
      cases attempt_goes_on hattempt (hturns n)

theorem length_doomed (rows : List Report) : (doomed rows).length ≤ rows.length := by
  unfold doomed
  rw [List.length_map]
  exact List.length_filter_le _ _

/-- What a reason is: the name of a class, or one line of text. -/
theorem whatTheDatabaseSaid_cases (text className : Str) : whatTheDatabaseSaid text className = className ∨
    (whatTheDatabaseSaid text className ≠ [] ∧ ∀ c ∈ whatTheDatabaseSaid text className, isLineBreak c = false) := by
  unfold whatTheDatabaseSaid
  cases hfind : ((text.splitOnP isLineBreak).map Decimal.strip).find? fun line => decide (line ≠ []) with
  | none => exact .inl rfl
  | some line =>
    have hline : line ≠ [] := by simpa using List.find?_some hfind
    refine .inr ⟨hline, ?_⟩
    obtain ⟨piece, hpiece, rfl⟩ := List.mem_map.mp (List.mem_of_find?_eq_some hfind)
    intro c hc
    exact not_sep_of_mem_splitOnP hpiece c (Decimal.mem_of_mem_strip hc)

/-- **The report adds up, and nothing else is written.** The addresses are worked through while others write to the table as
they like, and any of the transactions may be refused, fail before its commit, fail with its commit done, or be ended by
`Ctrl-C`. The counts are those of the rows that were given, and only `Ctrl-C` leaves some of them. The table is what the
others and the command have made of it, and the command has written nothing but the normal form of an address that was given
and does not clash, over that address. What is reported as changed was written; what was written and is not, was reported as
failed, or is the one row `Ctrl-C` came upon before it was counted, and then some are left. A reason is a single line. -/
theorem normalising_is_accounted_for {p : Progress} {summary : Summary}
    (h : normaliseAddresses lower turns users rows = (p, summary)) :
    summary.changed + summary.skipped + summary.refused + summary.failed + summary.moved + summary.remaining = rows.length ∧
    ((∀ n, ∀ trouble ∈ (turns n).trouble, trouble.interrupts = false) → summary.remaining = 0) ∧
    Follows users p.changes p.users ∧
    (∀ d email, .own d email ∈ p.changes → email = Email.normalise lower d.email ∧
      ∃ row ∈ rows, row.clashes = false ∧ d = ⟨row.id, row.email⟩) ∧
    summary.changed ≤ p.changes.countP isOwn ∧
    p.changes.countP isOwn ≤ summary.changed + summary.failed + min 1 summary.remaining ∧
    summary.reasons.Nodup ∧ summary.reasons.length ≤ summary.failed ∧
    ∀ reason ∈ summary.reasons, ∃ text className, reason = whatTheDatabaseSaid text className ∧
      (reason = className ∨ reason ≠ [] ∧ ∀ c ∈ reason, isLineBreak c = false) := by
  cases h
  have hsound : Sound lower users (doomed rows)
      (min 1 (0 + (doomed rows).length - (work lower turns 0 (.start users) (doomed rows)).attempted))
      (work lower turns 0 (.start users) (doomed rows)) := work_sound (fun _ hd => hd) (sound_start users)
  have hmost := hsound.most
  rw [Nat.zero_add] at hmost
  have hattempted : (work lower turns 0 (.start users) (doomed rows)).attempted ≤ 0 + (doomed rows).length :=
    work_attempted (.start users)
  have hlength := length_doomed rows
  refine ⟨?_, ?_, hsound.follows, ?_, hsound.least, hmost, hsound.distinct, hsound.few, ?_⟩
  · unfold Progress.attempted at *
    dsimp only
    omega
  · intro hturns
    have hall : (work lower turns 0 (.start users) (doomed rows)).attempted = 0 + (doomed rows).length :=
      work_attempts_all (.start users) hturns
    dsimp only
    omega
  · intro d email hown
    obtain ⟨hd, hemail⟩ := hsound.own d email hown
    obtain ⟨row, hrow, rfl⟩ := List.mem_map.mp hd
    obtain ⟨hrow, hclashes⟩ := List.mem_filter.mp hrow
    exact ⟨hemail, row, hrow, by simpa using hclashes, rfl⟩
  · intro reason hreason
    obtain ⟨text, className, rfl⟩ := hsound.said reason hreason
    exact ⟨text, className, rfl, whatTheDatabaseSaid_cases text className⟩

/-! ## Left to itself -/

section Settling

variable {lower : Str → Str} {users users' : Users} {old new : StoredAddress}

/-- Two accounts or more would have the address. -/
def clashes (lower : Str → Str) (users : Users) (email : Str) : Bool :=
  decide ((users.table.rows.map fun row => Email.normalise lower row.email).count (Email.normalise lower email) > 1)

/-- The row as it is to be. -/
def settle (lower : Str → Str) (users : Users) (row : StoredAddress) : StoredAddress :=
  if clashes lower users row.email then row else { row with email := Email.normalise lower row.email }

theorem settle_id (row : StoredAddress) : (settle lower users row).id = row.id := by
  unfold settle
  split <;> rfl

theorem mem_doomed : d ∈ doomed (findAddressesNeedingNormalising lower users) ↔
    d ∈ users.table.rows ∧ d.email ≠ Email.normalise lower d.email ∧ clashes lower users d.email = false := by
  simp only [doomed, findAddressesNeedingNormalising, clashes, List.mem_map, List.mem_filter]
  constructor
  · rintro ⟨row, ⟨⟨d, ⟨hd, hneeds⟩, rfl⟩, hfree⟩, rfl⟩
    exact ⟨hd, by simpa using hneeds, by simpa using hfree⟩
  · rintro ⟨hd, hneeds, hfree⟩
    exact ⟨_, ⟨⟨d, ⟨hd, by simpa using hneeds⟩, rfl⟩, by simpa using hfree⟩, rfl⟩

theorem nodup_doomed : (doomed (findAddressesNeedingNormalising lower users)).Nodup := by
  have hmap : doomed (findAddressesNeedingNormalising lower users) = users.table.rows.filter fun row =>
      decide (row.email ≠ Email.normalise lower row.email) && !clashes lower users row.email := by
    simp only [doomed, findAddressesNeedingNormalising, List.filter_map, List.map_map, List.filter_filter, clashes,
      Function.comp_def, List.map_id', Bool.and_comm]
  rw [hmap]
  exact users.table.nodup.of_map.filter _

theorem settle_of_not_needed (hd : d ∈ users.table.rows) (hno : d ∉ doomed (findAddressesNeedingNormalising lower users)) :
    settle lower users d = d := by
  unfold settle
  split
  · rfl
  · rename_i hfree
    have hsame : d.email = Email.normalise lower d.email := by
      by_contra hneeds
      exact hno (mem_doomed.mpr ⟨hd, hneeds, by simpa using hfree⟩)
    rw [← hsame]

theorem settle_of_mem_doomed (hd : d ∈ doomed (findAddressesNeedingNormalising lower users)) :
    settle lower users d = { d with email := Email.normalise lower d.email } :=
  if_neg (by rw [(mem_doomed.mp hd).2.2]; decide)

/-- An address that two rows would have clashes. -/
theorem clashes_of_ne {row row' : StoredAddress} (hrow : row ∈ users.table.rows) (hrow' : row' ∈ users.table.rows)
    (hne : row ≠ row') (hsame : Email.normalise lower row.email = Email.normalise lower row'.email) :
    clashes lower users row'.email = true := by
  have hpair : [row, row'].Nodup := by simpa using hne
  have hboth : [row, row'] ⊆ users.table.rows.filter fun r =>
      Email.normalise lower r.email == Email.normalise lower row'.email := by
    intro r hr
    rcases List.mem_pair.mp hr with rfl | rfl
    · exact List.mem_filter.mpr ⟨hrow, by simpa using hsame⟩
    · exact List.mem_filter.mpr ⟨hrow', by simp⟩
  have htwo := (hpair.subperm hboth).length_le
  refine decide_eq_true ?_
  rw [List.count, List.countP_map, List.countP_eq_length_filter]
  exact htwo

/-- Each row is as it was, or as it is to be. -/
def Settling (lower : Str → Str) (users users' : Users) : Prop :=
  List.Forall₂ (fun old new => new = old ∨ new = settle lower users old) users.table.rows users'.table.rows

theorem Settling.refl : Settling lower users users := List.forall₂_same.mpr fun _ _ => .inl rfl

variable (hlower : ∀ s, lower (lower s) = lower s)

include hlower in
theorem normalise_settle (row : StoredAddress) :
    Email.normalise lower (settle lower users row).email = Email.normalise lower row.email := by
  unfold settle
  split
  · rfl
  · exact hlower row.email

include hlower in
/-- What has been written makes no address clash, and none stop to. -/
theorem Settling.clashes_eq (h : Settling lower users users') (email : Str) :
    clashes lower users' email = clashes lower users email := by
  have hsame : users'.table.rows.map (fun row => Email.normalise lower row.email) =
      users.table.rows.map fun row => Email.normalise lower row.email := by
    unfold Settling at h
    generalize users.table.rows = rows, users'.table.rows = rows' at h
    induction h with
    | nil => rfl
    | cons hnew _ ih =>
      rw [List.map_cons, List.map_cons, ih]
      rcases hnew with rfl | rfl
      · rfl
      · rw [normalise_settle hlower]
  unfold clashes
  rw [hsame]

include hlower in
theorem Settling.settle_eq (h : Settling lower users users') (hnew : new = old ∨ new = settle lower users old) :
    settle lower users' new = settle lower users old := by
  rcases hnew with rfl | rfl
  · unfold settle
    rw [h.clashes_eq hlower]
  · cases hclash : clashes lower users old.email with
    | true =>
      have hkept : settle lower users old = old := if_pos hclash
      rw [hkept]
      conv_lhs => rw [settle, h.clashes_eq hlower, if_pos hclash]
    | false =>
      have hwritten : settle lower users old = { old with email := Email.normalise lower old.email } :=
        if_neg (by rw [hclash]; decide)
      have hagain : Email.normalise lower (Email.normalise lower old.email) = Email.normalise lower old.email :=
        hlower old.email
      have hfree : clashes lower users (Email.normalise lower old.email) = false := by
        rw [← hclash]
        unfold clashes
        rw [hagain]
      rw [hwritten, settle, h.clashes_eq hlower, hfree, if_neg (by decide), hagain]

include hlower in
theorem Settling.trans {users'' : Users} (h : Settling lower users users') (h' : Settling lower users' users'') :
    Settling lower users users'' := by
  unfold Settling at h'
  have hsettle : ∀ old new, (new = old ∨ new = settle lower users old) → settle lower users' new = settle lower users old :=
    fun _ _ hnew => h.settle_eq hlower hnew
  unfold Settling at h ⊢
  generalize users.table.rows = rows, users'.table.rows = rows', users''.table.rows = rows'' at h h' ⊢
  induction h generalizing rows'' with
  | nil =>
    cases h'
    exact .nil
  | cons hnew _ ih =>
    cases h' with
    | cons hnew' htail =>
      refine .cons ?_ (ih _ htail)
      rcases hnew' with rfl | rfl
      · exact hnew
      · exact .inr (hsettle _ _ hnew)

/-- What is left to be done stays what it is. -/
theorem Settling.map_settle (h : Settling lower users users')
    (hsettle : ∀ old new, (new = old ∨ new = settle lower users old) → settle lower users' new = settle lower users old) :
    users'.table.rows.map (settle lower users') = users.table.rows.map (settle lower users) := by
  unfold Settling at h
  generalize users.table.rows = rows, users'.table.rows = rows' at h
  induction h with
  | nil => rfl
  | cons hnew _ ih => rw [List.map_cons, List.map_cons, ih, hsettle _ _ hnew]

include hlower in
/-- An address that is written settles its row. -/
theorem Settling.update {users'' : Users} {matched : Nat} (h : Settling lower users users')
    (hd : d ∈ doomed (findAddressesNeedingNormalising lower users))
    (hupdate : users'.update d (Email.normalise lower d.email) = some (users'', matched)) : Settling lower users users'' := by
  have hsettled : ∀ old new, (new = old ∨ new = settle lower users old) →
      Users.rewrite d (Email.normalise lower d.email) new = old ∨
        Users.rewrite d (Email.normalise lower d.email) new = settle lower users old := by
    intro old new hnew
    by_cases heq : new = d
    · subst heq
      rw [Users.rewrite_self, ← settle_of_mem_doomed hd]
      rcases hnew with rfl | hnew
      · exact .inr rfl
      · right
        conv_lhs => rw [hnew]
        exact Settling.refl.settle_eq hlower (.inr rfl)
    · rw [Users.rewrite_of_ne heq]
      exact hnew
  unfold Users.update at hupdate
  split at hupdate
  · split at hupdate
    · cases hupdate
      unfold Settling at h ⊢
      show List.Forall₂ _ _ (users'.table.rows.map (Users.rewrite d (Email.normalise lower d.email)))
      exact List.forall₂_map_right_iff.mpr (h.imp fun old new hnew => hsettled old new hnew)
    · cases hupdate
  · cases hupdate
    exact h

include hlower in
theorem attempt_settling (hturn : turn.meanwhile = id) (hd : d ∈ doomed (findAddressesNeedingNormalising lower users))
    (h : Settling lower users p.users) (hattempt : attempt lower turn p d = (p', go)) : Settling lower users p'.users := by
  unfold attempt at hattempt
  rw [hturn] at hattempt
  dsimp only [id_eq] at hattempt
  split at hattempt
  · cases hattempt
    exact h
  · cases hattempt
    exact h
  · split at hattempt
    · cases hattempt
      exact h
    · rename_i users' matched hupdate
      have hwritten : Settling lower users users' := h.update hlower hd hupdate
      have hcount : ∀ p : Progress, (p.count matched).users = p.users := by
        intro p
        unfold Progress.count
        split <;> rfl
      split at hattempt
      · cases hattempt
        exact hwritten
      · cases hattempt
        exact hwritten
      · cases hattempt
        rw [hcount]
        exact hwritten
      · cases hattempt
        rw [hcount]
        exact hwritten

include hlower in
theorem work_settling (hturns : ∀ n, (turns n).meanwhile = id)
    (hsub : ∀ d ∈ rest, d ∈ doomed (findAddressesNeedingNormalising lower users)) (h : Settling lower users p.users) :
    Settling lower users (work lower turns n p rest).users := by
  induction rest generalizing n p with
  | nil => exact h
  | cons d rest ih =>
    have hd := hsub d List.mem_cons_self
    unfold work
    split
    · rename_i hattempt
      exact ih (fun d hd => hsub d (List.mem_cons_of_mem _ hd)) (attempt_settling hlower (hturns n) hd h hattempt)
    · rename_i hattempt
      exact attempt_settling hlower (hturns n) hd h hattempt

/-- The command, as it is given: what is reported is worked through. -/
def normaliseAll (lower : Str → Str) (turns : Nat → Turn) (users : Users) : Progress × Summary :=
  normaliseAddresses lower turns users (findAddressesNeedingNormalising lower users)

include hlower in
/-- Runs that were broken off leave a table that is partly settled. -/
theorem settling_of_runs {runs : List (Nat → Turn)} (hruns : ∀ turns ∈ runs, ∀ n, (turns n).meanwhile = id) :
    Settling lower users (runs.foldl (fun users turns => (normaliseAll lower turns users).1.users) users) := by
  induction runs generalizing users with
  | nil => exact .refl
  | cons turns runs ih =>
    have hone : Settling lower users (normaliseAll lower turns users).1.users :=
      work_settling hlower (hruns turns List.mem_cons_self) (fun _ hd => hd) .refl
    exact hone.trans hlower (ih fun turns hturns => hruns turns (List.mem_cons_of_mem _ hturns))

/-- Nobody else writes, and nothing goes wrong. -/
def undisturbed (_ : Nat) : Turn := ⟨id, none⟩

/-- A row that is still to be written is as it was, every other as it is to be. -/
def pending (lower : Str → Str) (users : Users) (rest : List StoredAddress) (row : StoredAddress) : StoredAddress :=
  if row ∈ rest then row else settle lower users row

/-- What is true of the work when nothing goes wrong. -/
structure Going (lower : Str → Str) (users : Users) (rest : List StoredAddress) (p : Progress) : Prop where
  rows : p.users.table.rows = users.table.rows.map (pending lower users rest)
  moved : p.moved = 0
  refused : p.refused = 0
  failed : p.failed = 0
  reasons : p.reasons = []

include hlower in
/-- **An address is written, and nothing but its row changes.** -/
theorem attempt_undisturbed (hnodup : (d :: rest).Nodup)
    (hsub : ∀ d' ∈ d :: rest, d' ∈ doomed (findAddressesNeedingNormalising lower users))
    (h : Going lower users (d :: rest) p) :
    ∃ p', attempt lower (undisturbed n) p d = (p', true) ∧ Going lower users rest p' ∧ p'.changed = p.changed + 1 := by
  have hd := hsub d List.mem_cons_self
  obtain ⟨hrow, -, hfree⟩ := mem_doomed.mp hd
  have hpending : ∀ row ∈ users.table.rows, row ≠ d → pending lower users (d :: rest) row ≠ d := by
    intro row hmem hne heq
    refine hne (List.inj_on_of_nodup_map users.table.nodup hmem hrow ?_)
    rw [← heq]
    unfold pending
    split
    · rfl
    · exact (settle_id row).symm
  have hmem : d ∈ p.users.table.rows := by
    rw [h.rows]
    exact List.mem_map.mpr ⟨d, hrow, if_pos List.mem_cons_self⟩
  have hnobody : ∀ row ∈ p.users.table.rows, row ≠ d → row.email ≠ Email.normalise lower d.email := by
    intro row' hrow' hne hsame
    rw [h.rows] at hrow'
    obtain ⟨row, hr, rfl⟩ := List.mem_map.mp hrow'
    have hrd : row ≠ d := by
      rintro rfl
      exact hne (if_pos List.mem_cons_self)
    have hnorm : Email.normalise lower (pending lower users (d :: rest) row).email = Email.normalise lower row.email := by
      unfold pending
      split
      · rfl
      · exact normalise_settle hlower row
    have hclash := clashes_of_ne hr hrow hrd (by
      rw [← hnorm, hsame]
      exact hlower d.email)
    rw [hfree] at hclash
    cases hclash
  have hrewrite : ∀ row ∈ users.table.rows, Users.rewrite d (Email.normalise lower d.email)
      (pending lower users (d :: rest) row) = pending lower users rest row := by
    intro row hr
    by_cases heq : row = d
    · subst heq
      have hnot : row ∉ rest := (List.nodup_cons.mp hnodup).1
      rw [pending, if_pos List.mem_cons_self, Users.rewrite_self, pending, if_neg hnot, settle_of_mem_doomed hd]
    · rw [Users.rewrite_of_ne (hpending row hr heq)]
      unfold pending
      have hiff : row ∈ d :: rest ↔ row ∈ rest := by simp [heq]
      simp only [hiff]
  have hupdate : p.users.update d (Email.normalise lower d.email) =
      some (⟨p.users.table.modify _ (Users.rewrite_id d _), Users.unique_rewrite hnobody⟩, 1) := by
    unfold Users.update
    rw [if_pos hmem, dif_pos hnobody]
  let settled : Users := ⟨p.users.table.modify _ (Users.rewrite_id d _), Users.unique_rewrite hnobody⟩
  let p' : Progress := { p with users := settled, changed := p.changed + 1,
                                changes := .own d (Email.normalise lower d.email) :: .others id :: p.changes }
  have hattempt : attempt lower (undisturbed n) p d = (p', true) := by
    unfold attempt
    dsimp only [undisturbed, id_eq]
    rw [hupdate]
    rfl
  refine ⟨p', hattempt, ⟨?_, h.moved, h.refused, h.failed, h.reasons⟩, rfl⟩
  show p.users.table.rows.map (Users.rewrite d (Email.normalise lower d.email)) = _
  rw [h.rows, List.map_map]
  exact List.map_congr_left hrewrite

include hlower in
theorem work_undisturbed (hnodup : rest.Nodup)
    (hsub : ∀ d ∈ rest, d ∈ doomed (findAddressesNeedingNormalising lower users)) (h : Going lower users rest p) :
    Going lower users [] (work lower undisturbed n p rest) ∧
      (work lower undisturbed n p rest).changed = p.changed + rest.length := by
  induction rest generalizing n p with
  | nil => exact ⟨h, rfl⟩
  | cons d rest ih =>
    obtain ⟨p', hattempt, hgoing, hchanged⟩ := attempt_undisturbed (n := n) hlower hnodup hsub h
    obtain ⟨hall, hcount⟩ := ih (n := n + 1) (List.nodup_cons.mp hnodup).2
      (fun d hd => hsub d (List.mem_cons_of_mem _ hd)) hgoing
    unfold work
    rw [hattempt]
    refine ⟨hall, ?_⟩
    rw [List.length_cons]
    show (work lower undisturbed (n + 1) p' rest).changed = _
    omega

theorem going_start : Going lower users (doomed (findAddressesNeedingNormalising lower users)) (.start users) := by
  refine ⟨?_, rfl, rfl, rfl, rfl⟩
  show users.table.rows = _
  conv_lhs => rw [← List.map_id users.table.rows]
  refine List.map_congr_left fun row hrow => ?_
  unfold pending
  split
  · rfl
  · rename_i hno
    exact (settle_of_not_needed hrow hno).symm

include hlower in
/-- What is found in a table that is settled: the addresses that clash. -/
theorem find_of_settled (hrows : users'.table.rows = users.table.rows.map (settle lower users)) :
    findAddressesNeedingNormalising lower users' = (findAddressesNeedingNormalising lower users).filter (·.clashes) := by
  have hsettling : Settling lower users users' := by
    unfold Settling
    rw [hrows]
    exact List.forall₂_map_right_iff.mpr (List.forall₂_same.mpr fun _ _ => .inr rfl)
  have hreports : ∀ users : Users, findAddressesNeedingNormalising lower users =
      (users.table.rows.filter fun row => decide (row.email ≠ Email.normalise lower row.email)).map fun row =>
        ⟨row.id, row.email, clashes lower users row.email⟩ := fun _ => rfl
  rw [hreports, hreports, hrows, List.filter_map, List.filter_map, List.map_map, List.filter_filter]
  have hkept : ∀ row : StoredAddress, clashes lower users row.email = true → settle lower users row = row :=
    fun row hclash => if_pos hclash
  rw [show users.table.rows.filter ((fun row => decide (row.email ≠ Email.normalise lower row.email)) ∘ settle lower users) =
      users.table.rows.filter fun row =>
        ((·.clashes) ∘ fun row => (⟨row.id, row.email, clashes lower users row.email⟩ : Report)) row && decide (row.email ≠ Email.normalise lower row.email) from List.filter_congr fun row _ => ?_]
  · refine List.map_congr_left fun row hrow => ?_
    have hclash : clashes lower users row.email = true := by
      have := (List.mem_filter.mp hrow).2
      simp only [Function.comp_apply, Bool.and_eq_true] at this
      exact this.1
    simp only [Function.comp_apply, hkept row hclash, hsettling.clashes_eq hlower]
  · cases hclash : clashes lower users row.email with
    | true => simp [hkept row hclash, hclash]
    | false =>
      have hwritten : settle lower users row = { row with email := Email.normalise lower row.email } :=
        if_neg (by rw [hclash]; decide)
      have hagain : Email.normalise lower (Email.normalise lower row.email) = Email.normalise lower row.email :=
        hlower row.email
      simp [hwritten, hclash, hagain]

end Settling

/-- **Left to itself the command settles the table**, however often it was broken off before: its transactions refused, failed
before or after their commit, or ended by `Ctrl-C`. Each address that no other account's address has the normal form of is
in its normal form, and no other row has changed. The report counts what was still to be done, and a new search finds the
addresses that clash and no other. -/
theorem normalising_settles_the_table (hlower : ∀ s, lower (lower s) = lower s) {runs : List (Nat → Turn)}
    (hruns : ∀ turns ∈ runs, ∀ n, (turns n).meanwhile = id) :
    let before := runs.foldl (fun users turns => (normaliseAll lower turns users).1.users) users
    let found := findAddressesNeedingNormalising lower before
    let done := normaliseAll lower undisturbed before
    done.1.users.table.rows = users.table.rows.map (settle lower users) ∧
    findAddressesNeedingNormalising lower done.1.users = (findAddressesNeedingNormalising lower users).filter (·.clashes) ∧
    found.filter (·.clashes) = (findAddressesNeedingNormalising lower users).filter (·.clashes) ∧
    done.2 = ⟨(found.filter (!·.clashes)).length, (found.filter (·.clashes)).length, 0, 0, 0, 0, []⟩ := by
  intro before found done
  have hsettling : Settling lower users before := settling_of_runs hlower hruns
  have hstart : Going lower before (doomed found) (.start before) := going_start
  obtain ⟨hgoing, hchanged⟩ := work_undisturbed (n := 0) hlower nodup_doomed (fun _ hd => hd) hstart
  have hall : (normaliseAll lower undisturbed before).1.users.table.rows = before.table.rows.map (settle lower before) :=
    hgoing.rows
  have hrows : (normaliseAll lower undisturbed before).1.users.table.rows = users.table.rows.map (settle lower users) :=
    hall.trans (hsettling.map_settle fun _ _ hnew => hsettling.settle_eq hlower hnew)
  have hclashing := find_of_settled hlower hrows
  refine ⟨hrows, hclashing, ?_, ?_⟩
  · rw [← hclashing]
    exact (find_of_settled hlower hall).symm
  · have hlength : (doomed found).length = (found.filter (!·.clashes)).length := by rw [doomed, List.length_map]
    have hsplit : (found.filter (·.clashes)).length + (found.filter (!·.clashes)).length = found.length :=
      (List.length_eq_length_filter_add _).symm
    have hcount : (work lower undisturbed 0 (.start before) (doomed found)).changed = 0 + (doomed found).length := hchanged
    show Summary.mk _ _ _ _ _ _ _ = _
    have hattempted : (work lower undisturbed 0 (.start before) (doomed found)).attempted = (doomed found).length := by
      unfold Progress.attempted
      rw [hgoing.moved, hgoing.refused, hgoing.failed, hcount]
      omega
    rw [hgoing.moved, hgoing.refused, hgoing.failed, hgoing.reasons, hchanged]
    congr 1
    · exact (Nat.zero_add _).trans hlength
    · show found.length - (doomed found).length = _
      omega
    · show (doomed found).length - (work lower undisturbed 0 (.start before) (doomed found)).attempted = 0
      omega

/-- Two addresses to be written, and two that clash. -/
def sampleUsers : Users where
  table := ⟨[⟨1, "Ada@x.org".toList⟩, ⟨2, "Bob@x.org".toList⟩, ⟨3, "bob@x.org".toList⟩, ⟨4, "Cy@x.org".toList⟩], by decide⟩
  unique := by decide

theorem map_toLower_idempotent (s : Str) : (s.map Char.toLower).map Char.toLower = s.map Char.toLower := by
  rw [List.map_map]
  exact List.map_congr_left fun c _ => toLower_toLower c

/-- The server goes away with the answer to a commit. -/
def lostAnswer (_ : Nat) : Turn := ⟨id, some (.raises .committed "gone away\nUPDATE users".toList "OperationalError".toList)⟩

/-- `Ctrl-C` when the first address is written. -/
def brokenOff (_ : Nat) : Turn := ⟨id, some (.interrupted .committed)⟩

theorem lost_answer_is_accounted_for :
    (normaliseAll (·.map Char.toLower) lostAnswer sampleUsers).2 = ⟨0, 1, 0, 2, 0, 0, ["gone away".toList]⟩ ∧
      (normaliseAll (·.map Char.toLower) lostAnswer sampleUsers).1.changes.countP isOwn ≤ 0 + 2 + min 1 0 :=
  ⟨by decide, (normalising_is_accounted_for rfl).2.2.2.2.2.1⟩

theorem broken_off_run_is_taken_up :
    (normaliseAll (·.map Char.toLower) brokenOff sampleUsers).1.users.table.rows =
        [⟨1, "ada@x.org".toList⟩, ⟨2, "Bob@x.org".toList⟩, ⟨3, "bob@x.org".toList⟩, ⟨4, "Cy@x.org".toList⟩] ∧
      (normaliseAll (·.map Char.toLower) undisturbed
          (normaliseAll (·.map Char.toLower) brokenOff sampleUsers).1.users).1.users.table.rows =
        [⟨1, "ada@x.org".toList⟩, ⟨2, "Bob@x.org".toList⟩, ⟨3, "bob@x.org".toList⟩, ⟨4, "cy@x.org".toList⟩] := by
  have hruns : ∀ turns ∈ [brokenOff], ∀ n, (turns n).meanwhile = id := by
    intro turns hturns n
    rw [List.mem_singleton.mp hturns]
    rfl
  have hsettled := (@normalising_settles_the_table _ sampleUsers map_toLower_idempotent _ hruns).1
  exact ⟨by decide, hsettled.trans (by decide)⟩

end LinkShortener.Registration.Normalising
