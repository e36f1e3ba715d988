import Mathlib.Algebra.BigOperators.Group.List.Basic
import Mathlib.Data.List.Dedup
import Mathlib.Data.List.Perm.Lattice

/-!
# Ledgers that are folded by the day

Entries are recorded one by one. Each belongs to an account and a day and counts for something (`View`). Finished days are
folded into one total for each account and day, and what has been folded may be swept.

* `amount`: what a list of entries comes to, for some accounts on a day.
* `Book`: the entries that are still there, and the totals; `Book.read` takes a day from the totals when there is one in
  question, and from the entries otherwise.
* `Faithful b es F`: the book accounts for the entries `es`, and is folded up to day `F`. It is kept by recording, folding,
  sweeping and dropping accounts (`record`, `fold`, `sweep`, `drop`), and what is read is what was recorded (`read_eq`).
-/

namespace Ledger

variable {E K M : Type} [AddCommMonoid M]

/-- What an entry is booked under, and what it counts for. -/
structure View (E K M : Type) where
  key : E → K
  day : E → Int
  weight : E → M

/-- What an account comes to on a day. -/
structure Total (K M : Type) where
  key : K
  day : Int
  total : M

/-- The entries that are still there, and the totals. -/
structure Book (E K M : Type) where
  raw : List E
  totals : List (Total K M)

variable (v : View E K M)

/-- What the entries come to, for some accounts on a day. -/
def amount (es : List E) (p : K → Bool) (d : Int) : M :=
  ((es.filter fun e => p (v.key e) && decide (v.day e = d)).map v.weight).sum

/-- One total for each account and day of the entries. -/
def groupTotals [DecidableEq K] (es : List E) : List (Total K M) :=
  (es.map fun e => (v.key e, v.day e)).dedup.map fun x => ⟨x.1, x.2, amount v es (fun k => decide (k = x.1)) x.2⟩

namespace Book

/-- The last day there is a total of. -/
def latest (b : Book E K M) : Option Int := (b.totals.map (·.day)).max?

/-- The entries to be folded: those of finished days after the last one folded. -/
def due (b : Book E K M) (today : Int) : List E :=
  b.raw.filter fun e => decide (v.day e < today) && b.latest.all fun d => decide (d < v.day e)

/-- Fold the finished days. -/
def fold [DecidableEq K] (b : Book E K M) (today : Int) : Book E K M :=
  { b with totals := groupTotals v (b.due v today) ++ b.totals }

/-- Sweep what is older than a day. -/
def sweep (b : Book E K M) (cutoff : Int) : Book E K M :=
  { b with raw := b.raw.filter fun e => decide (cutoff ≤ v.day e) }

/-- Keep the accounts that satisfy `keep`. -/
def drop (b : Book E K M) (keep : K → Bool) : Book E K M :=
  ⟨b.raw.filter fun e => keep (v.key e), b.totals.filter fun t => keep t.key⟩

/-- The totals of some accounts on a day. -/
def totalsOf (b : Book E K M) (p : K → Bool) (d : Int) : List (Total K M) :=
  b.totals.filter fun t => p t.key && decide (t.day = d)

/-- What the book says of some accounts on a day. -/
def read (b : Book E K M) (p : K → Bool) (d : Int) : M :=
  if (b.totalsOf p d).isEmpty then amount v b.raw p d else ((b.totalsOf p d).map (·.total)).sum

end Book

/-! ## Amounts -/

section Amounts

variable {v} {es es' : List E} {p : K → Bool} {d : Int}

theorem amount_nil (p : K → Bool) (d : Int) : amount v [] p d = 0 := rfl

theorem amount_cons (e : E) (es : List E) (p : K → Bool) (d : Int) : amount v (e :: es) p d =
    (if p (v.key e) = true ∧ v.day e = d then v.weight e else 0) + amount v es p d := by
  unfold amount
  rw [List.filter_cons]
  by_cases h : p (v.key e) = true ∧ v.day e = d
  · rw [if_pos (by simpa using h), if_pos h, List.map_cons, List.sum_cons]
  · rw [if_neg (by simpa using h), if_neg h, zero_add]

theorem amount_perm (h : es.Perm es') : amount v es p d = amount v es' p d := ((h.filter _).map _).sum_eq

/-- Entries that are not in question do not count. -/
theorem amount_filter {f : E → Bool} (h : ∀ e ∈ es, p (v.key e) = true → v.day e = d → f e = true) :
    amount v (es.filter f) p d = amount v es p d := by
  unfold amount
  rw [List.filter_filter]
  congr 2
  apply List.filter_congr
  intro e he
  by_cases hin : p (v.key e) = true ∧ v.day e = d
  · simp [hin.1, hin.2, h e he hin.1 hin.2]
  · have hout : (p (v.key e) && decide (v.day e = d)) = false := by simpa using hin
    rw [hout, Bool.false_and]

theorem amount_eq_zero (h : ∀ e ∈ es, p (v.key e) = true → v.day e ≠ d) : amount v es p d = 0 := by
  have hnil : es.filter (fun e => p (v.key e) && decide (v.day e = d)) = [] := by
    rw [List.filter_eq_nil_iff]
    intro e he hin
    simp only [Bool.and_eq_true, decide_eq_true_eq] at hin
    exact h e he hin.1 hin.2
  unfold amount
  rw [hnil]
  rfl

/-- One of the keys is the one, and none of them twice. -/
theorem sum_ite_key [DecidableEq K] {keys : List K} (hn : keys.Nodup) (k : K) (w : M) :
    (keys.map fun k' => if k = k' then w else 0).sum = if k ∈ keys then w else 0 := by
  induction keys with
  | nil => rfl
  | cons k' keys ih =>
    obtain ⟨hk', hn⟩ := List.nodup_cons.mp hn
    rw [List.map_cons, List.sum_cons, ih hn]
    by_cases h : k = k'
    · subst h
      rw [if_pos rfl, if_neg hk', if_pos List.mem_cons_self, add_zero]
    · rw [if_neg h, zero_add]
      simp [h]

/-- Accounts in question, one by one. -/
theorem sum_amount_keys [DecidableEq K] (keys : List K) (hn : keys.Nodup) (hp : ∀ k ∈ keys, p k = true)
    (hkeys : ∀ e ∈ es, p (v.key e) = true → v.day e = d → v.key e ∈ keys) :
    (keys.map fun k => amount v es (fun k' => decide (k' = k)) d).sum = amount v es p d := by
  induction es with
  | nil =>
    simp only [amount_nil]
    rw [List.map_const', List.sum_replicate, nsmul_zero]
  | cons e es ih =>
    have ih := ih fun e' he' => hkeys e' (List.mem_cons_of_mem e he')
    simp only [amount_cons, List.sum_map_add, decide_eq_true_eq, ih]
    congr 1
    by_cases hd : v.day e = d
    · simp only [hd, and_true]
      rw [sum_ite_key hn]
      by_cases hk : p (v.key e) = true
      · rw [if_pos (hkeys e List.mem_cons_self hk hd), if_pos hk]
      · rw [if_neg (fun hin => hk (hp _ hin)), if_neg hk]
    · simp only [hd, and_false, if_false]
      rw [List.map_const', List.sum_replicate, nsmul_zero]

/-- The days of a span, one by one. -/
theorem sum_amount_days {a : Int} {n : Nat} (h : ∀ e ∈ es, p (v.key e) = true → a ≤ v.day e ∧ v.day e < a + n) :
    ((List.range n).map fun i : Nat => amount v es p (a + i)).sum = ((es.filter fun e => p (v.key e)).map v.weight).sum := by
  induction es with
  | nil =>
    simp only [amount_nil]
    rw [List.map_const', List.sum_replicate, nsmul_zero]
    rfl
  | cons e es ih =>
    have ih := ih fun e' he' => h e' (List.mem_cons_of_mem e he')
    simp only [amount_cons, List.sum_map_add, ih]
    rw [List.filter_cons]
    by_cases hp : p (v.key e) = true
    · obtain ⟨hlow, hhigh⟩ := h e List.mem_cons_self hp
      rw [if_pos hp, List.map_cons, List.sum_cons]
      congr 1
      have hday : ∀ i : Nat, (p (v.key e) = true ∧ v.day e = a + i) ↔ (v.day e - a).toNat = i := by
        intro i
        constructor
        · rintro ⟨-, hd⟩
          omega
        · intro hi
          exact ⟨hp, by omega⟩
      simp only [hday]
      rw [sum_ite_key List.nodup_range, if_pos]
      rw [List.mem_range]
      omega
    · have hout : ∀ i : Nat, ¬ (p (v.key e) = true ∧ v.day e = a + i) := fun i hin => hp hin.1
      rw [if_neg hp]
      simp only [if_neg (hout _)]
      rw [List.map_const', List.sum_replicate, nsmul_zero, zero_add]

end Amounts

/-! ## Faithful books -/

/-- The book accounts for the entries `es`, and is folded up to day `F`. -/
structure Faithful [DecidableEq K] (b : Book E K M) (es : List E) (F : Int) : Prop where
  /-- One total for each account and day. -/
  nodup : (b.totals.map fun t => (t.key, t.day)).Nodup
  totals : ∀ t ∈ b.totals, t.day < F ∧ t.total = amount v es (fun k => decide (k = t.key)) t.day
  /-- There are no totals of nothing. -/
  booked : ∀ t ∈ b.totals, ∃ e ∈ es, v.key e = t.key ∧ v.day e = t.day
  /-- What happened before `F` has a total. -/
  folded : ∀ e ∈ es, v.day e < F → ∃ t ∈ b.totals, t.key = v.key e ∧ t.day = v.day e
  /-- What happened since is still there. -/
  kept : (b.raw.filter fun e => decide (F ≤ v.day e)).Perm (es.filter fun e => decide (F ≤ v.day e))
  recorded : ∀ e ∈ b.raw, e ∈ es

namespace Faithful

variable [DecidableEq K] {v} {b : Book E K M} {es : List E} {F : Int}

theorem empty (F : Int) : Faithful v (⟨[], []⟩ : Book E K M) [] F := by
  refine ⟨List.nodup_nil, ?_, ?_, ?_, .refl _, ?_⟩
  · intro t ht
    cases ht
  · intro t ht
    cases ht
  · intro e he
    cases he
  · intro e he
    cases he

/-- **What is read is what was recorded.** -/
theorem read_eq (h : Faithful v b es F) (p : K → Bool) (d : Int) : b.read v p d = amount v es p d := by
  unfold Book.read
  split
  · rename_i hempty
    have hnone : ∀ t ∈ b.totals, ¬ (p t.key = true ∧ t.day = d) := by
      intro t ht hin
      have hmem : t ∈ b.totalsOf p d := List.mem_filter.mpr ⟨ht, by simpa using hin⟩
      rw [List.isEmpty_iff.mp hempty] at hmem
      cases hmem
    by_cases hd : d < F
    · -- A day that is folded without a total was a day on which nothing happened.
      have hout : ∀ e ∈ es, p (v.key e) = true → v.day e ≠ d := by
        rintro e he hp rfl
        obtain ⟨t, ht, hkey, hday⟩ := h.folded e he hd
        exact hnone t ht ⟨by rw [hkey]; exact hp, hday⟩
      rw [amount_eq_zero hout, amount_eq_zero fun e he => hout e (h.recorded e he)]
    · have hkept : ∀ (xs : List E), amount v (xs.filter fun e => decide (F ≤ v.day e)) p d = amount v xs p d := by
        intro xs
        apply amount_filter
        rintro e - - rfl
        exact decide_eq_true (Int.not_lt.mp hd)
      rw [← hkept b.raw, ← hkept es]
      exact amount_perm h.kept
  · rename_i hne
    obtain ⟨t, ht⟩ := List.exists_mem_of_ne_nil _ (fun he => hne (List.isEmpty_iff.mpr he))
    have hof : ∀ {t}, t ∈ b.totalsOf p d → t ∈ b.totals ∧ p t.key = true ∧ t.day = d := by
      intro t ht
      obtain ⟨ht, hin⟩ := List.mem_filter.mp ht
      simp only [Bool.and_eq_true, decide_eq_true_eq] at hin
      exact ⟨ht, hin⟩
    have hd : d < F := by
      obtain ⟨hin, -, hday⟩ := hof ht
      rw [← hday]
      exact (h.totals t hin).1
    have hsums : (b.totalsOf p d).map (·.total) =
        ((b.totalsOf p d).map (·.key)).map fun k => amount v es (fun k' => decide (k' = k)) d := by
      rw [List.map_map]
      apply List.map_congr_left
      intro t ht
      obtain ⟨hin, -, hday⟩ := hof ht
      rw [(h.totals t hin).2, hday]
      rfl
    have hkeys : ((b.totalsOf p d).map (·.key)).Nodup := by
      refine List.Nodup.map_on ?_ (h.nodup.of_map.filter _)
      intro t ht t' ht' hkey
      obtain ⟨hin, -, hday⟩ := hof ht
      obtain ⟨hin', -, hday'⟩ := hof ht'
      exact List.inj_on_of_nodup_map h.nodup hin hin' (by simp only [hkey, hday, hday'])
    rw [hsums]
    refine sum_amount_keys _ hkeys ?_ ?_
    · intro k hk
      obtain ⟨t, ht, rfl⟩ := List.mem_map.mp hk
      exact (hof ht).2.1
    · rintro e he hp rfl
      obtain ⟨t, ht, hkey, hday⟩ := h.folded e he hd
      refine List.mem_map.mpr ⟨t, List.mem_filter.mpr ⟨ht, ?_⟩, hkey⟩
      simp [hkey, hday, hp]

/-- What was recorded is still there or has a total, and nothing else is there or has one. -/
theorem occurs_iff (h : Faithful v b es F) (k : K) (d : Int) :
    ((∃ e ∈ b.raw, v.key e = k ∧ v.day e = d) ∨ ∃ t ∈ b.totals, t.key = k ∧ t.day = d) ↔
      ∃ e ∈ es, v.key e = k ∧ v.day e = d := by
  constructor
  · rintro (⟨e, he, hsame⟩ | ⟨t, ht, rfl, rfl⟩)
    · exact ⟨e, h.recorded e he, hsame⟩
    · exact h.booked t ht
  · rintro ⟨e, he, rfl, rfl⟩
    by_cases hF : v.day e < F
    · exact .inr (h.folded e he hF)
    · have hin : e ∈ es.filter fun e => decide (F ≤ v.day e) := List.mem_filter.mpr ⟨he, by simpa using hF⟩
      exact .inl ⟨e, (List.mem_filter.mp (h.kept.mem_iff.mpr hin)).1, rfl, rfl⟩

/-- An entry of an unfolded day is recorded. -/
theorem record (h : Faithful v b es F) {e : E} (he : F ≤ v.day e) :
    Faithful v { b with raw := e :: b.raw } (e :: es) F := by
  refine ⟨h.nodup, ?_, ?_, ?_, ?_, ?_⟩
  · intro t ht
    obtain ⟨hday, htotal⟩ := h.totals t ht
    refine ⟨hday, ?_⟩
    rw [amount_cons, if_neg, zero_add]
    · exact htotal
    · rintro ⟨-, hsame⟩
      omega
  · intro t ht
    obtain ⟨e', he', hsame⟩ := h.booked t ht
    exact ⟨e', List.mem_cons_of_mem e he', hsame⟩
  · intro e' he' hday
    rcases List.mem_cons.mp he' with rfl | he'
    · omega
    · exact h.folded e' he' hday
  · rw [List.filter_cons_of_pos (by simpa using he), List.filter_cons_of_pos (by simpa using he)]
    exact h.kept.cons e
  · intro e' he'
    rcases List.mem_cons.mp he' with rfl | he'
    · exact List.mem_cons_self
    · exact List.mem_cons_of_mem e (h.recorded e' he')

/-- The order of the book does not matter. -/
theorem perm {b' : Book E K M} (h : Faithful v b es F) (hraw : b'.raw.Perm b.raw) (htotals : b'.totals.Perm b.totals) :
    Faithful v b' es F := by
  refine ⟨(htotals.map _).nodup_iff.mpr h.nodup, ?_, ?_, ?_, (hraw.filter _).trans h.kept, ?_⟩
  · intro t ht
    exact h.totals t (htotals.mem_iff.mp ht)
  · intro t ht
    exact h.booked t (htotals.mem_iff.mp ht)
  · intro e he hday
    obtain ⟨t, ht, hsame⟩ := h.folded e he hday
    exact ⟨t, htotals.mem_iff.mpr ht, hsame⟩
  · intro e he
    exact h.recorded e (hraw.mem_iff.mp he)

/-- What is folded may go. -/
theorem prune (raw : List E) (h : Faithful v b es F) (hsub : ∀ e ∈ raw, e ∈ b.raw)
    (hkept : (raw.filter fun e => decide (F ≤ v.day e)).Perm (b.raw.filter fun e => decide (F ≤ v.day e))) :
    Faithful v { b with raw := raw } es F :=
  ⟨h.nodup, h.totals, h.booked, h.folded, hkept.trans h.kept, fun e he => h.recorded e (hsub e he)⟩

/-- What is folded is swept. -/
theorem sweep (h : Faithful v b es F) {cutoff : Int} (hcutoff : cutoff ≤ F) : Faithful v (b.sweep v cutoff) es F := by
  refine h.prune _ (fun e he => (List.mem_filter.mp he).1) ?_
  rw [List.filter_filter]
  refine List.Perm.of_eq (List.filter_congr ?_)
  intro e _
  by_cases hday : F ≤ v.day e
  · simp [hday, Int.le_trans hcutoff hday]
  · simp [hday]

/-- Accounts are closed, and what was booked under them goes with them. -/
theorem drop (h : Faithful v b es F) (keep : K → Bool) :
    Faithful v (b.drop v keep) (es.filter fun e => keep (v.key e)) F := by
  refine ⟨h.nodup.sublist (List.filter_sublist.map _), ?_, ?_, ?_, ?_, ?_⟩
  · intro t ht
    obtain ⟨ht, hkeep⟩ := List.mem_filter.mp ht
    obtain ⟨hday, htotal⟩ := h.totals t ht
    refine ⟨hday, htotal.trans ?_⟩
    symm
    apply amount_filter
    intro e _ hkey _
    rw [of_decide_eq_true hkey]
    exact hkeep
  · intro t ht
    obtain ⟨ht, hkeep⟩ := List.mem_filter.mp ht
    obtain ⟨e, he, hkey, hday⟩ := h.booked t ht
    exact ⟨e, List.mem_filter.mpr ⟨he, by rw [hkey]; exact hkeep⟩, hkey, hday⟩
  · intro e he hday
    obtain ⟨he, hkeep⟩ := List.mem_filter.mp he
    obtain ⟨t, ht, hkey, hsame⟩ := h.folded e he hday
    exact ⟨t, List.mem_filter.mpr ⟨ht, by rw [hkey]; exact hkeep⟩, hkey, hsame⟩
  · have hcomm : ∀ xs : List E, (xs.filter fun e => keep (v.key e)).filter (fun e => decide (F ≤ v.day e)) =
        (xs.filter fun e => decide (F ≤ v.day e)).filter fun e => keep (v.key e) := by
      intro xs
      exact List.filter_comm _ _ _
    unfold Book.drop
    rw [hcomm, hcomm]
    exact h.kept.filter _
  · intro e he
    obtain ⟨he, hkeep⟩ := List.mem_filter.mp he
    exact List.mem_filter.mpr ⟨h.recorded e he, hkeep⟩

/-- The days that have a total are over, and the days after the last of them up to `F` are empty. -/
theorem due_eq (h : Faithful v b es F) {today : Int} :
    b.due v today = (b.raw.filter fun e => decide (F ≤ v.day e)).filter fun e => decide (v.day e < today) := by
  unfold Book.due
  rw [List.filter_filter]
  apply List.filter_congr
  intro e he
  congr 1
  cases hlatest : b.latest with
  | none =>
    -- There are no totals at all, so nothing happened before `F`.
    have hnil : b.totals = [] := by
      have := List.max?_eq_none_iff.mp hlatest
      simpa using this
    have hday : F ≤ v.day e := by
      by_contra hlt
      obtain ⟨t, ht, -⟩ := h.folded e (h.recorded e he) (by omega)
      rw [hnil] at ht
      cases ht
    simp [hday]
  | some d =>
    obtain ⟨hmem, hmax⟩ := List.max?_eq_some_iff.mp hlatest
    obtain ⟨t, ht, rfl⟩ := List.mem_map.mp hmem
    have hbefore := (h.totals t ht).1
    rw [Option.all_some, decide_eq_decide]
    constructor
    · intro hafter
      by_contra hlt
      obtain ⟨t', ht', -, hday⟩ := h.folded e (h.recorded e he) (by omega)
      have := hmax t'.day (List.mem_map_of_mem ht')
      omega
    · intro hday
      omega

/-- **The finished days are folded**: all of their entries, in any order. -/
theorem extend (h : Faithful v b es F) {today : Int} (htoday : F ≤ today) {due : List E}
    (hdue : due.Perm ((es.filter fun e => decide (F ≤ v.day e)).filter fun e => decide (v.day e < today))) :
    Faithful v { b with totals := groupTotals v due ++ b.totals } es today := by
  have hmem : ∀ e, e ∈ due ↔ e ∈ es ∧ F ≤ v.day e ∧ v.day e < today := by
    intro e
    rw [hdue.mem_iff]
    simp only [List.mem_filter, decide_eq_true_eq, and_assoc]
  -- A day to be folded is complete.
  have hamount : ∀ {p d}, F ≤ d → d < today → amount v due p d = amount v es p d := by
    intro p d hF hd
    rw [amount_perm hdue]
    have hlate : ∀ (xs : List E), amount v (xs.filter fun e => decide (v.day e < today)) p d = amount v xs p d := by
      intro xs
      apply amount_filter
      rintro e - - rfl
      exact decide_eq_true hd
    rw [hlate]
    apply amount_filter
    rintro e - - rfl
    exact decide_eq_true hF
  have hgrouped : ∀ t ∈ groupTotals v due, ∃ e ∈ due, t.key = v.key e ∧ t.day = v.day e ∧
      t.total = amount v due (fun k => decide (k = t.key)) t.day := by
    intro t ht
    obtain ⟨x, hx, rfl⟩ := List.mem_map.mp ht
    obtain ⟨e, he, rfl⟩ := List.mem_map.mp (List.mem_dedup.mp hx)
    exact ⟨e, he, rfl, rfl, rfl⟩
  refine ⟨?_, ?_, ?_, ?_, ?_, h.recorded⟩
  · have hkeys : (groupTotals v due).map (fun t => (t.key, t.day)) =
        (due.map fun e => (v.key e, v.day e)).dedup := by
      unfold groupTotals
      rw [List.map_map]
      exact List.map_id _
    rw [List.map_append, hkeys]
    refine List.nodup_append.mpr ⟨List.nodup_dedup _, h.nodup, ?_⟩
    rintro x hx y hy rfl
    obtain ⟨e, he, rfl⟩ := List.mem_map.mp (List.mem_dedup.mp hx)
    obtain ⟨t, ht, hsame⟩ := List.mem_map.mp hy
    have hday : t.day = v.day e := congrArg Prod.snd hsame
    have := (h.totals t ht).1
    have := ((hmem e).mp he).2.1
    omega
  · intro t ht
    rcases List.mem_append.mp ht with ht | ht
    · obtain ⟨e, he, hkey, hday, htotal⟩ := hgrouped t ht
      obtain ⟨-, hF, hlt⟩ := (hmem e).mp he
      rw [← hday] at hF hlt
      exact ⟨hlt, htotal.trans (hamount hF hlt)⟩
    · obtain ⟨hday, htotal⟩ := h.totals t ht
      exact ⟨by omega, htotal⟩
  · intro t ht
    rcases List.mem_append.mp ht with ht | ht
    · obtain ⟨e, he, hkey, hday, -⟩ := hgrouped t ht
      exact ⟨e, ((hmem e).mp he).1, hkey.symm, hday.symm⟩
    · exact h.booked t ht
  · intro e he hday
    by_cases hF : F ≤ v.day e
    · have hin : (v.key e, v.day e) ∈ (due.map fun e => (v.key e, v.day e)).dedup :=
        List.mem_dedup.mpr (List.mem_map.mpr ⟨e, (hmem e).mpr ⟨he, hF, hday⟩, rfl⟩)
      exact ⟨_, List.mem_append_left _ (List.mem_map.mpr ⟨_, hin, rfl⟩), rfl, rfl⟩
    · obtain ⟨t, ht, hsame⟩ := h.folded e he (by omega)
      exact ⟨t, List.mem_append_right _ ht, hsame⟩
  · have hlate : ∀ xs : List E, xs.filter (fun e => decide (today ≤ v.day e)) =
        (xs.filter fun e => decide (F ≤ v.day e)).filter fun e => decide (today ≤ v.day e) := by
      intro xs
      rw [List.filter_filter]
      apply List.filter_congr
      intro e _
      by_cases hday : today ≤ v.day e
      · simp [hday, Int.le_trans htoday hday]
      · simp [hday]
    show (b.raw.filter _).Perm _
    rw [hlate b.raw, hlate es]
    exact h.kept.filter _

theorem fold (h : Faithful v b es F) {today : Int} (htoday : F ≤ today) : Faithful v (b.fold v today) es today := by
  refine h.extend htoday ?_
  rw [h.due_eq]
  exact h.kept.filter _

end Faithful

end Ledger
