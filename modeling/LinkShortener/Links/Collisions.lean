import LinkShortener.Links.BatchParts

/-!
# The search for free codes

`BatchLinkCreator`: every hash of a batch is given a code nobody holds. The generator is a source with a state, so that
nothing is assumed of what a call answers, or of how often the same arguments are answered alike.

* `settle_cases`: what becomes of one candidate.
* `Settling`, `Ready`: what is known in the middle of a round, and between rounds; `Settling.settle` and `Ready.round`
  keep them.
* `Settled`: what a round does with each of its candidates.
* `resolution_sound`: the search ends, gives out free codes only, and misses a hash only when every candidate of it was
  refused.
-/

namespace LinkShortener.Links

/-- A code generator. A call answers with a code, and leaves the generator in some state. -/
structure CodeSource (G : Type) where
  generateForUrl : String → G → ShortCode × G
  generateUnique : String → Nat → G → ShortCode × G
  generateFresh : String → G → ShortCode × G

/-- The state of the search. The dictionaries are in the order in which they were filled; the hashes of a batch are
different, so that assigning is appending, and a candidate has its group with it. -/
structure Search (G : Type) where
  candidates : List (UrlGroup × ShortCode)
  resolved : List (String × ShortCode)
  occupied : List ShortCode
  attempts : String → Nat
  gen : G

namespace Search

variable {G : Type}

section Definitions

variable (src : CodeSource G) (maxAttempts : Nat) (stored : ShortCode → Option Link)

/-- A code for each group, one call after the other. -/
def initialCodes : List UrlGroup → G → List (UrlGroup × ShortCode) × G
  | [], gen => ([], gen)
  | g :: groups, gen =>
    let (code, gen) := src.generateForUrl g.originalUrl gen
    let (codes, gen) := initialCodes groups gen
    ((g, code) :: codes, gen)

def start (groups : List UrlGroup) (gen : G) : Search G :=
  let (codes, gen) := initialCodes src groups gen
  ⟨codes, [], [], fun _ => 0, gen⟩

/-- The replacement after so many refusals: salted, and random once the salted ladder is spent. -/
def replacement (g : UrlGroup) (attempts : Nat) (gen : G) : ShortCode × G :=
  if attempts ≤ maxAttempts then src.generateUnique g.originalUrl attempts gen
  else src.generateFresh g.originalUrl gen

/-- A candidate takes its code, or is given up on, or gets a replacement for the next round. -/
def settle (s : Search G) (x : UrlGroup × ShortCode) : Search G :=
  if x.2 ∉ s.occupied then
    { s with resolved := s.resolved ++ [(x.1.hash, x.2)], occupied := x.2 :: s.occupied }
  else
    let attempts := Function.update s.attempts x.1.hash (s.attempts x.1.hash + 1)
    if maxAttempts * 2 < attempts x.1.hash then { s with attempts := attempts }
    else
      let (code, gen) := replacement src maxAttempts x.1 (attempts x.1.hash) s.gen
      { s with candidates := s.candidates ++ [(x.1, code)], attempts := attempts, gen := gen }

/-- One question to the repository, about all the candidates. -/
def ask (s : Search G) : Search G :=
  { s with
    candidates := []
    occupied := s.occupied ++ (s.candidates.map (·.2)).filter fun code => (stored code).isSome }

def round (s : Search G) : Search G := s.candidates.foldl (settle src maxAttempts) (ask stored s)

/-- The middle of a round: the first of its candidates have had their turns. -/
def turns (s : Search G) (earlier : List (UrlGroup × ShortCode)) : Search G :=
  earlier.foldl (settle src maxAttempts) (ask stored s)

/-- Rounds while there are candidates; nothing when there still are some after the last round allowed. -/
def loop : Nat → Search G → Option (Search G)
  | fuel, s =>
    if s.candidates.isEmpty then some s
    else match fuel with
      | 0 => none
      | fuel + 1 => loop fuel (round src maxAttempts stored s)

end Definitions

section Steps

variable {src : CodeSource G} {maxAttempts : Nat} {stored : ShortCode → Option Link} {s : Search G} {n : Nat}
  {x : UrlGroup × ShortCode} {waiting : List (UrlGroup × ShortCode)}

/-- What becomes of a candidate. -/
theorem settle_cases (src : CodeSource G) (maxAttempts : Nat) (s : Search G) (x : UrlGroup × ShortCode) :
    (x.2 ∉ s.occupied ∧ settle src maxAttempts s x =
      { s with resolved := s.resolved ++ [(x.1.hash, x.2)], occupied := x.2 :: s.occupied }) ∨
    (x.2 ∈ s.occupied ∧ maxAttempts * 2 < s.attempts x.1.hash + 1 ∧ settle src maxAttempts s x =
      { s with attempts := Function.update s.attempts x.1.hash (s.attempts x.1.hash + 1) }) ∨
    (x.2 ∈ s.occupied ∧ s.attempts x.1.hash + 1 ≤ maxAttempts * 2 ∧ settle src maxAttempts s x =
      { s with
        candidates := s.candidates ++ [(x.1, (replacement src maxAttempts x.1 (s.attempts x.1.hash + 1) s.gen).1)]
        attempts := Function.update s.attempts x.1.hash (s.attempts x.1.hash + 1)
        gen := (replacement src maxAttempts x.1 (s.attempts x.1.hash + 1) s.gen).2 }) := by
  unfold settle
  by_cases hfree : x.2 ∈ s.occupied
  · refine .inr ?_
    rw [if_neg (not_not_intro hfree)]
    simp only [Function.update_self]
    by_cases hlast : maxAttempts * 2 < s.attempts x.1.hash + 1
    · exact .inl ⟨hfree, hlast, if_pos hlast⟩
    · exact .inr ⟨hfree, Nat.le_of_not_lt hlast, if_neg hlast⟩
  · exact .inl ⟨hfree, if_pos hfree⟩

/-- What is known in round `n` while the candidates `waiting` have not had their turn. -/
structure Settling (stored : ShortCode → Option Link) (n : Nat) (waiting : List (UrlGroup × ShortCode)) (s : Search G) :
    Prop where
  keys : (waiting.map (·.1.hash) ++ s.candidates.map (·.1.hash) ++ s.resolved.map (·.1)).Nodup
  codes : (s.resolved.map (·.2)).Nodup
  claimed : ∀ r ∈ s.resolved, r.2 ∈ s.occupied
  free : ∀ r ∈ s.resolved, stored r.2 = none
  occupied : ∀ c ∈ s.occupied, (stored c).isSome = true ∨ c ∈ s.resolved.map (·.2)
  asked : ∀ x ∈ waiting, (stored x.2).isSome = true → x.2 ∈ s.occupied
  before : ∀ x ∈ waiting, s.attempts x.1.hash = n
  after : ∀ x ∈ s.candidates, s.attempts x.1.hash = n + 1

theorem Settling.settle (src : CodeSource G) (maxAttempts : Nat) (h : Settling stored n (x :: waiting) s) :
    Settling stored n waiting (s.settle src maxAttempts x) := by
  have hasked : ∀ y ∈ waiting, (stored y.2).isSome = true → y.2 ∈ s.occupied :=
    fun y hy => h.asked y (List.mem_cons_of_mem x hy)
  have hbefore : ∀ y ∈ waiting, s.attempts y.1.hash = n := fun y hy => h.before y (List.mem_cons_of_mem x hy)
  have hx : s.attempts x.1.hash = n := h.before x List.mem_cons_self
  -- The hash has its turn once: nobody else waits under it, and nothing was offered or given to it before.
  have hkeys : (x.1.hash :: (waiting.map (·.1.hash) ++ s.candidates.map (·.1.hash) ++ s.resolved.map (·.1))).Nodup := by
    simpa using h.keys
  obtain ⟨hnew, hrest⟩ := List.nodup_cons.mp hkeys
  have hwaiting : ∀ y ∈ waiting, y.1.hash ≠ x.1.hash := by
    intro y hy he
    exact hnew (List.mem_append_left _ (List.mem_append_left _ (he ▸ List.mem_map_of_mem hy)))
  have hcandidates : ∀ y ∈ s.candidates, y.1.hash ≠ x.1.hash := by
    intro y hy he
    exact hnew (List.mem_append_left _ (List.mem_append_right _ (he ▸ List.mem_map_of_mem hy)))
  rcases settle_cases src maxAttempts s x with ⟨hfree, he⟩ | ⟨hused, hlast, he⟩ | ⟨hused, hmore, he⟩
  · have hnone : stored x.2 = none := by
      cases hs : stored x.2 with
      | none => rfl
      | some link => exact absurd (h.asked x List.mem_cons_self (by rw [hs]; rfl)) hfree
    rw [he]
    refine ⟨?_, ?_, ?_, ?_, ?_, ?_, hbefore, h.after⟩
    · rw [List.map_append, ← List.append_assoc]
      exact (List.perm_append_singleton x.1.hash _).nodup_iff.mpr hkeys
    · rw [List.map_append]
      refine (List.perm_append_singleton x.2 _).nodup_iff.mpr (List.nodup_cons.mpr ⟨?_, h.codes⟩)
      intro hin
      obtain ⟨r, hr, hcode⟩ := List.mem_map.mp hin
      exact hfree (hcode ▸ h.claimed r hr)
    · intro r hr
      rcases List.mem_append.mp hr with hr | hr
      · exact List.mem_cons_of_mem x.2 (h.claimed r hr)
      · cases List.mem_singleton.mp hr
        exact List.mem_cons_self
    · intro r hr
      rcases List.mem_append.mp hr with hr | hr
      · exact h.free r hr
      · cases List.mem_singleton.mp hr
        exact hnone
    · intro c hc
      rw [List.map_append, List.mem_append]
      rcases List.mem_cons.mp hc with rfl | hc
      · exact .inr (.inr List.mem_cons_self)
      · rcases h.occupied c hc with hc | hc
        · exact .inl hc
        · exact .inr (.inl hc)
    · intro y hy hsome
      exact List.mem_cons_of_mem x.2 (hasked y hy hsome)
  · rw [he]
    refine ⟨hrest, h.codes, h.claimed, h.free, h.occupied, hasked, ?_, ?_⟩
    · intro y hy
      exact (Function.update_of_ne (hwaiting y hy) _ _).trans (hbefore y hy)
    · intro y hy
      exact (Function.update_of_ne (hcandidates y hy) _ _).trans (h.after y hy)
  · rw [he]
    refine ⟨?_, h.codes, h.claimed, h.free, h.occupied, hasked, ?_, ?_⟩
    · rw [List.map_append, ← List.append_assoc, List.append_assoc]
      exact List.perm_middle.nodup_iff.mpr hkeys
    · intro y hy
      exact (Function.update_of_ne (hwaiting y hy) _ _).trans (hbefore y hy)
    · intro y hy
      rcases List.mem_append.mp hy with hy | hy
      · exact (Function.update_of_ne (hcandidates y hy) _ _).trans (h.after y hy)
      · cases List.mem_singleton.mp hy
        exact (Function.update_self _ _ _).trans (congrArg (· + 1) hx)

/-! ### What a round does with each candidate -/

/-- In `s`, and still in `s'`, somebody else holds the code: a stored link, or another hash of the batch. -/
def Taken (stored : ShortCode → Option Link) (s s' : Search G) (x : UrlGroup × ShortCode) : Prop :=
  (stored x.2).isSome = true ∨ ∃ r ∈ s.resolved, r ∈ s'.resolved ∧ r.2 = x.2 ∧ r.1 ≠ x.1.hash

/-- The code of one of the candidates `turn` was somebody else's when they had had their turns that come before it. -/
def Refused (src : CodeSource G) (maxAttempts : Nat) (stored : ShortCode → Option Link) (turn : List (UrlGroup × ShortCode))
    (s s' : Search G) (x : UrlGroup × ShortCode) : Prop :=
  ∃ earlier later, turn = earlier ++ x :: later ∧ Taken stored (earlier.foldl (settle src maxAttempts) s) s' x

/-- The candidates of round `n` that had their turn between two states: each has its code, or was refused it and got a
replacement unless it had got as many as there are. -/
structure Settled (src : CodeSource G) (maxAttempts : Nat) (stored : ShortCode → Option Link) (n : Nat)
    (turn : List (UrlGroup × ShortCode)) (s s' : Search G) : Prop where
  state : turn.foldl (settle src maxAttempts) s = s'
  outcome : ∀ x ∈ turn, (x.1.hash, x.2) ∈ s'.resolved ∨
    Refused src maxAttempts stored turn s s' x ∧ (n < maxAttempts * 2 → ∃ y ∈ s'.candidates, y.1 = x.1)
  resolved : s.resolved ⊆ s'.resolved
  candidates : s.candidates ⊆ s'.candidates
  given : ∀ r ∈ s'.resolved, r ∈ s.resolved ∨ ∃ x ∈ turn, r = (x.1.hash, x.2)
  offered : ∀ y ∈ s'.candidates, y ∈ s.candidates ∨ (∃ x ∈ turn, x.1 = y.1) ∧ n < maxAttempts * 2 ∧
    ∃ gen, y.2 = (replacement src maxAttempts y.1 (n + 1) gen).1

theorem Taken.mono {s' s'' : Search G} (hsub : s'.resolved ⊆ s''.resolved) (h : Taken stored s s' x) :
    Taken stored s s'' x := by
  rcases h with h | ⟨r, hr, hkept, hother⟩
  · exact .inl h
  · exact .inr ⟨r, hr, hsub hkept, hother⟩

theorem Refused.mono {turn : List (UrlGroup × ShortCode)} {s' s'' : Search G} (hsub : s'.resolved ⊆ s''.resolved)
    (h : Refused src maxAttempts stored turn s s' x) : Refused src maxAttempts stored turn s s'' x := by
  obtain ⟨earlier, later, hturn, htaken⟩ := h
  exact ⟨earlier, later, hturn, htaken.mono hsub⟩

/-- A code that is occupied is somebody else's. -/
theorem Settling.taken (h : Settling stored n (x :: waiting) s) (hused : x.2 ∈ s.occupied) : Taken stored s s x := by
  rcases h.occupied x.2 hused with hs | hs
  · exact .inl hs
  · obtain ⟨r, hr, hcode⟩ := List.mem_map.mp hs
    refine .inr ⟨r, hr, hr, hcode, ?_⟩
    intro hhash
    have hkeys := h.keys
    rw [List.map_cons, List.cons_append, List.cons_append] at hkeys
    exact (List.nodup_cons.mp hkeys).1 (List.mem_append_right _ (hhash ▸ List.mem_map_of_mem hr))

/-- One turn. -/
theorem Settling.settled (src : CodeSource G) (maxAttempts : Nat) (h : Settling stored n (x :: waiting) s) :
    Settled src maxAttempts stored n [x] s (s.settle src maxAttempts x) := by
  have hx : s.attempts x.1.hash = n := h.before x List.mem_cons_self
  have hrefused : ∀ s' : Search G, s.resolved ⊆ s'.resolved → x.2 ∈ s.occupied →
      Refused src maxAttempts stored [x] s s' x := fun s' hsub hused => ⟨[], [], rfl, (h.taken hused).mono hsub⟩
  have hstate : [x].foldl (Search.settle src maxAttempts) s = s.settle src maxAttempts x := rfl
  rcases settle_cases src maxAttempts s x with ⟨hfree, he⟩ | ⟨hused, hlast, he⟩ | ⟨hused, hmore, he⟩
  · rw [he] at hstate ⊢
    refine ⟨hstate, ?_, List.subset_append_left _ _, List.Subset.refl _, ?_, fun y hy => .inl hy⟩
    · intro y hy
      cases List.mem_singleton.mp hy
      exact .inl (List.mem_append_right _ List.mem_cons_self)
    · intro r hr
      rcases List.mem_append.mp hr with hr | hr
      · exact .inl hr
      · exact .inr ⟨x, List.mem_cons_self, List.mem_singleton.mp hr⟩
  · rw [he] at hstate ⊢
    refine ⟨hstate, ?_, List.Subset.refl _, List.Subset.refl _, fun r hr => .inl hr, fun y hy => .inl hy⟩
    intro y hy
    cases List.mem_singleton.mp hy
    refine .inr ⟨hrefused _ (List.Subset.refl _) hused, ?_⟩
    intro hlt
    omega
  · rw [he] at hstate ⊢
    refine ⟨hstate, ?_, List.Subset.refl _, List.subset_append_left _ _, fun r hr => .inl hr, ?_⟩
    · intro y hy
      cases List.mem_singleton.mp hy
      exact .inr ⟨hrefused _ (List.Subset.refl _) hused, fun _ => ⟨_, List.mem_append_right _ List.mem_cons_self, rfl⟩⟩
    · intro y hy
      rcases List.mem_append.mp hy with hy | hy
      · exact .inl hy
      · cases List.mem_singleton.mp hy
        refine .inr ⟨⟨x, List.mem_cons_self, rfl⟩, by omega, s.gen, ?_⟩
        rw [hx]

theorem Settled.trans {turn turn' : List (UrlGroup × ShortCode)} {s' s'' : Search G}
    (h : Settled src maxAttempts stored n turn s s') (h' : Settled src maxAttempts stored n turn' s' s'') :
    Settled src maxAttempts stored n (turn ++ turn') s s'' := by
  refine ⟨?_, ?_, fun r hr => h'.resolved (h.resolved hr), fun y hy => h'.candidates (h.candidates hy), ?_, ?_⟩
  · rw [List.foldl_append, h.state, h'.state]
  · intro x hx
    rcases List.mem_append.mp hx with hx | hx
    · rcases h.outcome x hx with hgiven | ⟨⟨earlier, later, rfl, htaken⟩, hnext⟩
      · exact .inl (h'.resolved hgiven)
      · refine .inr ⟨⟨earlier, later ++ turn', by simp, htaken.mono h'.resolved⟩, ?_⟩
        intro hlt
        obtain ⟨y, hy, he⟩ := hnext hlt
        exact ⟨y, h'.candidates hy, he⟩
    · rcases h'.outcome x hx with hgiven | ⟨⟨earlier, later, rfl, htaken⟩, hnext⟩
      · exact .inl hgiven
      · refine .inr ⟨⟨turn ++ earlier, later, by simp, ?_⟩, hnext⟩
        rw [List.foldl_append, h.state]
        exact htaken
  · intro r hr
    rcases h'.given r hr with hr | ⟨x, hx, he⟩
    · rcases h.given r hr with hr | ⟨x, hx, he⟩
      · exact .inl hr
      · exact .inr ⟨x, List.mem_append_left _ hx, he⟩
    · exact .inr ⟨x, List.mem_append_right _ hx, he⟩
  · intro y hy
    rcases h'.offered y hy with hy | ⟨⟨x, hx, he⟩, hrest⟩
    · rcases h.offered y hy with hy | ⟨⟨x, hx, he⟩, hrest⟩
      · exact .inl hy
      · exact .inr ⟨⟨x, List.mem_append_left _ hx, he⟩, hrest⟩
    · exact .inr ⟨⟨x, List.mem_append_right _ hx, he⟩, hrest⟩

/-- All the turns of a round. -/
theorem Settling.foldl_settle (src : CodeSource G) (maxAttempts : Nat) (h : Settling stored n waiting s) :
    Settling stored n [] (waiting.foldl (Search.settle src maxAttempts) s) ∧
      Settled src maxAttempts stored n waiting s (waiting.foldl (Search.settle src maxAttempts) s) := by
  induction waiting generalizing s with
  | nil =>
    refine ⟨h, rfl, ?_, List.Subset.refl _, List.Subset.refl _, fun r hr => .inl hr, fun y hy => .inl hy⟩
    intro x hx
    cases hx
  | cons x waiting ih =>
    obtain ⟨hend, hrest⟩ := ih (h.settle src maxAttempts)
    exact ⟨hend, (h.settled src maxAttempts).trans hrest⟩

/-! ### Between rounds -/

/-- What is known before round `n`. -/
structure Ready (stored : ShortCode → Option Link) (n : Nat) (s : Search G) : Prop where
  keys : (s.candidates.map (·.1.hash) ++ s.resolved.map (·.1)).Nodup
  codes : (s.resolved.map (·.2)).Nodup
  claimed : ∀ r ∈ s.resolved, r.2 ∈ s.occupied
  free : ∀ r ∈ s.resolved, stored r.2 = none
  occupied : ∀ c ∈ s.occupied, (stored c).isSome = true ∨ c ∈ s.resolved.map (·.2)
  attempts : ∀ x ∈ s.candidates, s.attempts x.1.hash = n

theorem Ready.ask (h : Ready stored n s) : Settling stored n s.candidates (ask stored s) := by
  refine ⟨by simpa [Search.ask] using h.keys, h.codes, ?_, h.free, ?_, ?_, h.attempts, ?_⟩
  · intro r hr
    exact List.mem_append_left _ (h.claimed r hr)
  · intro c hc
    rcases List.mem_append.mp hc with hc | hc
    · exact h.occupied c hc
    · exact .inl (List.mem_filter.mp hc).2
  · intro x hx hsome
    exact List.mem_append_right _ (List.mem_filter.mpr ⟨List.mem_map_of_mem hx, hsome⟩)
  · intro x hx
    cases hx

theorem Settling.ready (h : Settling stored n [] s) : Ready stored (n + 1) s :=
  ⟨h.keys, h.codes, h.claimed, h.free, h.occupied, h.after⟩

/-- **One round**: it keeps what is known, and settles each of its candidates. -/
theorem Ready.round (src : CodeSource G) (maxAttempts : Nat) (h : Ready stored n s) :
    Ready stored (n + 1) (s.round src maxAttempts stored) ∧
      Settled src maxAttempts stored n s.candidates (Search.ask stored s) (s.round src maxAttempts stored) := by
  obtain ⟨hend, hsettled⟩ := h.ask.foldl_settle src maxAttempts
  exact ⟨hend.ready, hsettled⟩

theorem round_of_empty (h : s.candidates = []) : s.round src maxAttempts stored = s := by
  unfold round ask
  rw [h]
  simp only [List.map_nil, List.filter_nil, List.append_nil, List.foldl_nil]
  rw [← h]

/-- The loop is as many rounds as it takes. -/
theorem loop_eq {fuel : Nat} (h : ((round src maxAttempts stored)^[fuel] s).candidates = []) :
    loop src maxAttempts stored fuel s = some ((round src maxAttempts stored)^[fuel] s) := by
  induction fuel generalizing s with
  | zero =>
    unfold loop
    exact if_pos (List.isEmpty_iff.mpr h)
  | succ fuel ih =>
    unfold loop
    by_cases hempty : s.candidates = []
    · rw [if_pos (List.isEmpty_iff.mpr hempty), Function.iterate_fixed (round_of_empty hempty)]
    · rw [if_neg (fun h => hempty (List.isEmpty_iff.mp h))]
      exact ih h

end Steps

/-! ## The whole search -/

section Runs

variable (src : CodeSource G) (maxAttempts : Nat) (stored : ShortCode → Option Link) (groups : List UrlGroup) (gen : G)

/-- The state after `n` rounds. -/
def after (n : Nat) : Search G := (round src maxAttempts stored)^[n] (start src groups gen)

/-- A code the generator answered with for the URL of a group: at first, or after `n` refusals. -/
def Produced (g : UrlGroup) (code : ShortCode) : Nat → Prop
  | 0 => ∃ gen, code = (src.generateForUrl g.originalUrl gen).1
  | n + 1 => ∃ gen, code = (replacement src maxAttempts g (n + 1) gen).1

theorem initialCodes_groups : (initialCodes src groups gen).1.map (·.1) = groups := by
  induction groups generalizing gen with
  | nil => rfl
  | cons g groups ih => exact congrArg (g :: ·) (ih _)

theorem mem_initialCodes {y : UrlGroup × ShortCode} (h : y ∈ (initialCodes src groups gen).1) :
    ∃ gen, y.2 = (src.generateForUrl y.1.originalUrl gen).1 := by
  induction groups generalizing gen with
  | nil => cases h
  | cons g groups ih =>
    rcases List.mem_cons.mp h with rfl | h
    · exact ⟨gen, rfl⟩
    · exact ih _ h

theorem after_succ (n : Nat) : after src maxAttempts stored groups gen (n + 1) =
    (after src maxAttempts stored groups gen n).round src maxAttempts stored := Function.iterate_succ_apply' _ _ _

/-- What is known after `n` rounds. -/
structure Course (n : Nat) : Prop where
  ready : Ready stored n (after src maxAttempts stored groups gen n)
  waiting : ∀ y ∈ (after src maxAttempts stored groups gen n).candidates,
    y.1 ∈ groups ∧ n ≤ 2 * maxAttempts ∧ Produced src maxAttempts y.1 y.2 n
  given : ∀ r ∈ (after src maxAttempts stored groups gen n).resolved,
    ∃ k, k ≤ 2 * maxAttempts ∧ ∃ g ∈ groups, g.hash = r.1 ∧ Produced src maxAttempts g r.2 k
  each : ∀ g ∈ groups, (∃ c, (g.hash, c) ∈ (after src maxAttempts stored groups gen n).resolved) ∨
    (∀ k, k < n → k ≤ 2 * maxAttempts → ∃ c, Refused src maxAttempts stored
      (after src maxAttempts stored groups gen k).candidates (ask stored (after src maxAttempts stored groups gen k))
      (after src maxAttempts stored groups gen n) (g, c)) ∧
    (n ≤ 2 * maxAttempts → ∃ y ∈ (after src maxAttempts stored groups gen n).candidates, y.1 = g)

variable {src maxAttempts stored groups gen} {n : Nat}

theorem course_zero (hn : (groups.map (·.hash)).Nodup) : Course src maxAttempts stored groups gen 0 := by
  have hgroups := initialCodes_groups src groups gen
  refine ⟨⟨?_, List.nodup_nil, ?_, ?_, ?_, ?_⟩, ?_, ?_, ?_⟩
  · show ((initialCodes src groups gen).1.map (UrlGroup.hash ∘ Prod.fst) ++ []).Nodup
    rw [List.append_nil, ← List.map_map, hgroups]
    exact hn
  · intro r hr
    cases hr
  · intro r hr
    cases hr
  · intro c hc
    cases hc
  · intro x _
    rfl
  · intro y hy
    exact ⟨hgroups ▸ List.mem_map_of_mem hy, Nat.zero_le _, mem_initialCodes src groups gen hy⟩
  · intro r hr
    cases hr
  · intro g hg
    refine .inr ⟨?_, ?_⟩
    · intro k hk
      cases hk
    · intro _
      rw [← hgroups] at hg
      exact List.mem_map.mp hg

theorem Course.succ (h : Course src maxAttempts stored groups gen n) :
    Course src maxAttempts stored groups gen (n + 1) := by
  obtain ⟨hready, hsettled⟩ := h.ready.round src maxAttempts
  rw [← after_succ src maxAttempts stored groups gen n] at hready hsettled
  refine ⟨hready, ?_, ?_, ?_⟩
  · intro y hy
    rcases hsettled.offered y hy with hy | ⟨⟨x, hx, he⟩, hlt, hproduced⟩
    · cases hy
    · refine ⟨he ▸ (h.waiting x hx).1, by omega, hproduced⟩
  · intro r hr
    rcases hsettled.given r hr with hr | ⟨x, hx, rfl⟩
    · exact h.given r hr
    · obtain ⟨hmem, hle, hproduced⟩ := h.waiting x hx
      exact ⟨n, hle, x.1, hmem, rfl, hproduced⟩
  · intro g hg
    rcases h.each g hg with ⟨c, hc⟩ | ⟨hrefused, hwaits⟩
    · exact .inl ⟨c, hsettled.resolved hc⟩
    · have hearlier : ∀ k, k < n → k ≤ 2 * maxAttempts →
          ∃ c, Refused src maxAttempts stored (after src maxAttempts stored groups gen k).candidates
            (ask stored (after src maxAttempts stored groups gen k)) (after src maxAttempts stored groups gen (n + 1))
            (g, c) := by
        intro k hk hle
        obtain ⟨c, hc⟩ := hrefused k hk hle
        exact ⟨c, hc.mono hsettled.resolved⟩
      by_cases hle : n ≤ 2 * maxAttempts
      · -- The group has a candidate in this round: it is given its code, or the code is taken.
        obtain ⟨⟨g', c⟩, hy, rfl⟩ := hwaits hle
        rcases hsettled.outcome _ hy with hgiven | ⟨hnow, hnext⟩
        · exact .inl ⟨c, hgiven⟩
        · refine .inr ⟨?_, ?_⟩
          · intro k hk hk'
            rcases Nat.lt_succ_iff_lt_or_eq.mp hk with hk | rfl
            · exact hearlier k hk hk'
            · exact ⟨c, hnow⟩
          · intro hle'
            exact hnext (by omega)
      · refine .inr ⟨?_, ?_⟩
        · intro k _ hk'
          exact hearlier k (by omega) hk'
        · intro hle'
          omega

theorem course (hn : (groups.map (·.hash)).Nodup) (n : Nat) : Course src maxAttempts stored groups gen n := by
  induction n with
  | zero => exact course_zero hn
  | succ n ih => exact ih.succ

/-- Past the last attempt nobody waits. -/
theorem Course.done (h : Course src maxAttempts stored groups gen n) (hlast : 2 * maxAttempts < n) :
    (after src maxAttempts stored groups gen n).candidates = [] := by
  apply List.eq_nil_iff_forall_not_mem.mpr
  intro y hy
  have := (h.waiting y hy).2.1
  omega

end Runs

end Search

/-! ## Creating the links -/

section Creator

variable {G : Type} (src : CodeSource G) (maxAttempts : Nat) (stored : ShortCode → Option Link)

/-- Give every hash a code nobody holds; nothing when the rounds allowed do not suffice. -/
def searchCodes (fuel : Nat) (groups : List UrlGroup) (gen : G) : Option (List (String × ShortCode)) :=
  (Search.loop src maxAttempts stored fuel (.start src groups gen)).map (·.resolved)

/-- A new link for each group that got a code. Every link reads the clock and draws its identifier for itself. -/
def createNewLinks (fuel : Nat) (groups : List UrlGroup) (gen : G) (q : Batch) (draws : Draws) (attempt : Nat)
    (clock : Planned → Instant) : Option (Except DomainError (List Link)) :=
  if groups.isEmpty then some (.ok [])
  else (searchCodes src maxAttempts stored fuel groups gen).map fun resolved =>
    (plan draws attempt groups resolved).mapM fun p => p.create q (clock p)

variable {src maxAttempts stored} {groups : List UrlGroup} {gen : G} {resolved : List (String × ShortCode)}

/-- The search takes no more than two rounds for each attempt, and one. -/
theorem searchCodes_eq (hn : (groups.map (·.hash)).Nodup) {fuel : Nat} (hfuel : 2 * maxAttempts + 1 ≤ fuel) :
    searchCodes src maxAttempts stored fuel groups gen =
      some (Search.after src maxAttempts stored groups gen (2 * maxAttempts + 1)).resolved := by
  have hdone := (Search.course hn (2 * maxAttempts + 1) : Search.Course src maxAttempts stored groups gen _).done (by omega)
  have hlast := (Search.course hn fuel : Search.Course src maxAttempts stored groups gen _).done (by omega)
  have hsame : Search.after src maxAttempts stored groups gen fuel =
      Search.after src maxAttempts stored groups gen (2 * maxAttempts + 1) := by
    obtain ⟨extra, rfl⟩ := Nat.exists_eq_add_of_le' hfuel
    unfold Search.after at hdone ⊢
    rw [Function.iterate_add_apply, Function.iterate_fixed (Search.round_of_empty hdone)]
  unfold searchCodes
  rw [Search.loop_eq hlast]
  exact congrArg (fun s => some s.resolved) hsame

/-- The links of a plan are one for each hash that got a code. -/
theorem plan_perm (hn : (groups.map (·.hash)).Nodup) (hkeys : (resolved.map (·.1)).Nodup)
    (hmem : ∀ r ∈ resolved, ∃ g ∈ groups, g.hash = r.1) (draws : Draws) (attempt : Nat) :
    ((plan draws attempt groups resolved).map fun p => (p.group.hash, p.code)).Perm resolved := by
  have hhashes := hn.sublist (plan_hashes draws attempt groups resolved)
  have hpairs : ((plan draws attempt groups resolved).map fun p => (p.group.hash, p.code)).Nodup := by
    refine List.Nodup.of_map Prod.fst ?_
    rw [List.map_map]
    exact hhashes
  refine (List.perm_ext_iff_of_nodup hpairs hkeys.of_map).mpr ?_
  rintro ⟨hash, code⟩
  constructor
  · intro h
    obtain ⟨p, hp, he⟩ := List.mem_map.mp h
    rw [← he]
    exact (mem_plan hp).1
  · intro h
    obtain ⟨g, hg, rfl⟩ := hmem _ h
    have hsome : (resolved.lookup g.hash).isSome = true := by
      rw [List.lookup_isSome_iff]
      exact ⟨(g.hash, code), h, beq_self_eq_true _⟩
    have hplanned : g ∈ (plan draws attempt groups resolved).map (·.group) := by
      rw [plan_groups]
      exact List.mem_filter.mpr ⟨hg, hsome⟩
    obtain ⟨p, hp, rfl⟩ := List.mem_map.mp hplanned
    have hpair := List.inj_on_of_nodup_map hkeys (mem_plan hp).1 h rfl
    exact List.mem_map.mpr ⟨p, hp, hpair⟩

/-- **The search for codes is sound and complete, and ends.** For every generator, every content of the repository and
every batch of groups with different hashes: `2 * maxAttempts + 1` rounds are enough; the codes that are given out are
different and none of them is stored; each was answered by the generator for the URL of its hash; a hash that got none
had `2 * maxAttempts + 1` candidates in a row, and each was stored, or had been given to another hash before its turn came;
and the links that are made are one for each hash that got a code. -/
theorem resolution_sound (src : CodeSource G) (maxAttempts : Nat) (stored : ShortCode → Option Link)
    (groups : List UrlGroup) (hn : (groups.map (·.hash)).Nodup) (gen : G) :
    ∃ resolved, (∀ fuel, 2 * maxAttempts + 1 ≤ fuel →
        searchCodes src maxAttempts stored fuel groups gen = some resolved) ∧
      (resolved.map (·.1)).Nodup ∧ (resolved.map (·.2)).Nodup ∧ (∀ r ∈ resolved, stored r.2 = none) ∧
      (∀ r ∈ resolved, ∃ g ∈ groups, g.hash = r.1 ∧ ∃ k ≤ 2 * maxAttempts, Search.Produced src maxAttempts g r.2 k) ∧
      (∀ g ∈ groups, g.hash ∉ resolved.map (·.1) → ∀ k ≤ 2 * maxAttempts, ∃ code earlier later,
        (Search.after src maxAttempts stored groups gen k).candidates = earlier ++ (g, code) :: later ∧
          ((stored code).isSome = true ∨ ∃ r ∈ (Search.turns src maxAttempts stored
            (Search.after src maxAttempts stored groups gen k) earlier).resolved,
            r ∈ resolved ∧ r.2 = code ∧ r.1 ≠ g.hash)) ∧
      ∀ fuel, 2 * maxAttempts + 1 ≤ fuel → ∀ q draws attempt clock, ∃ result,
        createNewLinks src maxAttempts stored fuel groups gen q draws attempt clock = some result ∧
          (∀ links, result = .ok links → (links.map fun l => (l.urlHash, l.shortCode)).Perm resolved) ∧
          ∀ e, result = .error e → ∃ p, Link.ttlFits q.ttlSeconds (clock p) = false ∧ e.code = "VALIDATION_ERROR" := by
  have hcourse : Search.Course src maxAttempts stored groups gen (2 * maxAttempts + 1) := Search.course hn _
  have hkeys := (List.nodup_append.mp hcourse.ready.keys).2.1
  have hmem : ∀ r ∈ (Search.after src maxAttempts stored groups gen (2 * maxAttempts + 1)).resolved,
      ∃ g ∈ groups, g.hash = r.1 := by
    intro r hr
    obtain ⟨-, -, g, hg, hhash, -⟩ := hcourse.given r hr
    exact ⟨g, hg, hhash⟩
  refine ⟨_, fun fuel hfuel => searchCodes_eq hn hfuel, hkeys, hcourse.ready.codes, hcourse.ready.free, ?_, ?_, ?_⟩
  · intro r hr
    obtain ⟨k, hk, g, hg, hhash, hproduced⟩ := hcourse.given r hr
    exact ⟨g, hg, hhash, k, hk, hproduced⟩
  · intro g hg hmissing k hk
    rcases hcourse.each g hg with ⟨c, hc⟩ | ⟨hrefused, -⟩
    · exact absurd (List.mem_map_of_mem hc) hmissing
    · exact hrefused k (by omega) hk
  · intro fuel hfuel q draws attempt clock
    unfold createNewLinks
    by_cases hempty : groups = []
    · subst hempty
      refine ⟨.ok [], rfl, ?_, nofun⟩
      intro links hlinks
      cases hlinks
      have hnone : (Search.after src maxAttempts stored [] gen (2 * maxAttempts + 1)).resolved = [] := by
        apply List.eq_nil_iff_forall_not_mem.mpr
        intro r hr
        obtain ⟨g, hg, -⟩ := hmem r hr
        cases hg
      rw [hnone]
      exact List.Perm.nil
    · rw [if_neg (fun h => hempty (List.isEmpty_iff.mp h)), searchCodes_eq hn hfuel]
      refine ⟨_, rfl, ?_, ?_⟩
      · intro links hlinks
        have hmap := mapM_ok_map hlinks (p := fun l => (l.urlHash, l.shortCode))
          (r := fun p : Planned => (p.group.hash, p.code)) fun p l hl => by
            rw [(Link.create_hash hl).1, (Link.create_ok hl).1]
        rw [hmap]
        exact plan_perm hn hkeys hmem draws attempt
      · intro e he
        obtain ⟨p, -, hp⟩ := mapM_error he
        refine ⟨p, ?_, Link.create_error hp⟩
        by_contra hfits
        obtain ⟨link, hlink⟩ := Link.create_fits p.id p.group.hash p.code p.group.originalUrl q.owner q.guestId
          (Bool.eq_true_of_not_eq_false hfits)
        rw [Planned.create, hlink] at hp
        cases hp

end Creator

/-- A generator that answers every URL alike, and fresh codes from a list. -/
def sampleSource : CodeSource (List ShortCode) where
  generateForUrl _ gen := (⟨"aaaaaa", isCode_aaaaaa⟩, gen)
  generateUnique _ _ gen := (⟨"bbbbbb", isCode_bbbbbb⟩, gen)
  generateFresh _ gen := (gen.headD ⟨"cccccc", isCode_cccccc⟩, gen.tail)

def sampleGroups : List UrlGroup := [⟨"1", "https://a.example/", []⟩, ⟨"2", "https://b.example/", []⟩,
  ⟨"3", "https://c.example/", []⟩]

/-- Three URLs compete for two codes; the third gets a fresh one. -/
theorem resolution_sound_sample : (sampleGroups.map (·.hash)).Nodup ∧
    ∃ resolved, searchCodes sampleSource 1 (fun _ => none) 3 sampleGroups [] = some resolved ∧
      (resolved.map (·.2)).Nodup ∧ resolved = [("1", ⟨"aaaaaa", isCode_aaaaaa⟩), ("2", ⟨"bbbbbb", isCode_bbbbbb⟩),
        ("3", ⟨"cccccc", isCode_cccccc⟩)] := by
  refine ⟨by decide, ?_⟩
  obtain ⟨resolved, hsearch, -, hcodes, -⟩ := resolution_sound sampleSource 1 (fun _ => none) sampleGroups (by decide) []
  refine ⟨resolved, hsearch 3 (by decide), hcodes, ?_⟩
  exact Option.some.inj ((hsearch 3 (by decide)).symm.trans (by decide))

/-! ## The search of the batch use case -/

section Draws

variable (svc : LinkServices) (draws : Draws) (attempt : Nat)

/-- The codes a request draws, as a generator: its state is how many fresh codes each URL has got. -/
def drawnCodes : CodeSource (String → Nat) where
  generateForUrl url gen := (svc.codeGenerator.generateForUrl url, gen)
  generateUnique url n gen := (svc.codeGenerator.generateUnique url n, gen)
  generateFresh url gen :=
    (draws.generateFresh url (attempt * (2 * svc.maxCodeAttempts + 1) + (svc.maxCodeAttempts + 1 + gen url)),
      Function.update gen url (gen url + 1))

variable {svc draws attempt} {stored : ShortCode → Option Link} {n : Nat} {r : Resolution} {s : Search (String → Nat)}
  {waiting : List (UrlGroup × ShortCode)}

/-- The two states of a round, while the candidates `waiting` have not had their turn. -/
structure Matches (svc : LinkServices) (n : Nat) (waiting : List (UrlGroup × ShortCode)) (r : Resolution)
    (s : Search (String → Nat)) : Prop where
  candidates : s.candidates = r.candidates
  resolved : s.resolved = r.resolved
  occupied : s.occupied = r.occupied
  attempts : r.attempts = n + 1
  hashes : ((waiting ++ r.candidates).map (·.1.hash)).Nodup
  urls : ((waiting ++ r.candidates).map (·.1.originalUrl)).Nodup
  before : ∀ x ∈ waiting, s.attempts x.1.hash = n ∧ s.gen x.1.originalUrl = n - svc.maxCodeAttempts
  after : ∀ x ∈ r.candidates, s.attempts x.1.hash = n + 1 ∧ s.gen x.1.originalUrl = n + 1 - svc.maxCodeAttempts

/-- The replacement is the code that is drawn, and the state counts it. -/
theorem replacement_drawnCodes (draws : Draws) (attempt : Nat) {g : UrlGroup} {gen : String → Nat}
    (h : gen g.originalUrl = n - svc.maxCodeAttempts) :
    (Search.replacement (drawnCodes svc draws attempt) svc.maxCodeAttempts g (n + 1) gen).1 =
        Resolution.nextCode svc draws attempt g (n + 1) ∧
      (Search.replacement (drawnCodes svc draws attempt) svc.maxCodeAttempts g (n + 1) gen).2 g.originalUrl =
        n + 1 - svc.maxCodeAttempts ∧
      ∀ url, url ≠ g.originalUrl →
        (Search.replacement (drawnCodes svc draws attempt) svc.maxCodeAttempts g (n + 1) gen).2 url = gen url := by
  unfold Search.replacement Resolution.nextCode
  by_cases hle : n + 1 ≤ svc.maxCodeAttempts
  · rw [if_pos hle, if_pos hle]
    refine ⟨rfl, ?_, fun url _ => rfl⟩
    show gen g.originalUrl = _
    omega
  · rw [if_neg hle, if_neg hle]
    refine ⟨?_, ?_, fun url hurl => Function.update_of_ne hurl _ _⟩
    · show draws.generateFresh _ _ = _
      congr 1
      omega
    · refine (Function.update_self _ _ _).trans ?_
      omega

theorem Matches.settle {x : UrlGroup × ShortCode} (h : Matches svc n (x :: waiting) r s) :
    Matches svc n waiting (r.settle svc draws attempt x)
      (s.settle (drawnCodes svc draws attempt) svc.maxCodeAttempts x) := by
  obtain ⟨hattempts, hgen⟩ := h.before x List.mem_cons_self
  have hbefore := fun y hy => h.before y (List.mem_cons_of_mem x hy)
  have hhashes := h.hashes
  have hurls := h.urls
  rw [List.cons_append, List.map_cons] at hhashes hurls
  obtain ⟨hhash, hhashes⟩ := List.nodup_cons.mp hhashes
  obtain ⟨hurl, hurls⟩ := List.nodup_cons.mp hurls
  have hother : ∀ y ∈ waiting ++ r.candidates, y.1.hash ≠ x.1.hash ∧ y.1.originalUrl ≠ x.1.originalUrl := by
    intro y hy
    exact ⟨fun he => hhash (he ▸ List.mem_map_of_mem hy), fun he => hurl (he ▸ List.mem_map_of_mem hy)⟩
  have hcount : ∀ y ∈ waiting ++ r.candidates,
      Function.update s.attempts x.1.hash (n + 1) y.1.hash = s.attempts y.1.hash := by
    intro y hy
    exact Function.update_of_ne (hother y hy).1 _ _
  have hcases := Search.settle_cases (drawnCodes svc draws attempt) svc.maxCodeAttempts s x
  rw [hattempts] at hcases
  unfold Resolution.settle
  dsimp only
  rcases hcases with ⟨hfree, he⟩ | ⟨hused, hlast, he⟩ | ⟨hused, hmore, he⟩
  · rw [he, if_pos (h.occupied ▸ hfree)]
    refine ⟨h.candidates, ?_, ?_, h.attempts, hhashes, hurls, hbefore, h.after⟩
    · exact congrArg (· ++ _) h.resolved
    · exact congrArg (x.2 :: ·) h.occupied
  · rw [he, if_neg (not_not_intro (h.occupied ▸ hused)), if_pos (by rw [h.attempts]; exact hlast)]
    refine ⟨h.candidates, h.resolved, h.occupied, h.attempts, hhashes, hurls, ?_, ?_⟩
    · intro y hy
      exact ⟨(hcount y (List.mem_append_left _ hy)).trans (hbefore y hy).1, (hbefore y hy).2⟩
    · intro y hy
      exact ⟨(hcount y (List.mem_append_right _ hy)).trans (h.after y hy).1, (h.after y hy).2⟩
  · obtain ⟨hcode, hnext, hrest⟩ := replacement_drawnCodes draws attempt hgen
    rw [he, if_neg (not_not_intro (h.occupied ▸ hused)), if_neg (by rw [h.attempts]; exact Nat.not_lt.mpr hmore)]
    refine ⟨?_, h.resolved, h.occupied, h.attempts, ?_, ?_, ?_, ?_⟩
    · show s.candidates ++ _ = r.candidates ++ _
      rw [h.candidates, hcode, h.attempts]
    · rw [← List.append_assoc, List.map_append]
      exact (List.perm_append_singleton x.1.hash _).nodup_iff.mpr (List.nodup_cons.mpr ⟨hhash, hhashes⟩)
    · rw [← List.append_assoc, List.map_append]
      exact (List.perm_append_singleton x.1.originalUrl _).nodup_iff.mpr (List.nodup_cons.mpr ⟨hurl, hurls⟩)
    · intro y hy
      have hy' := List.mem_append_left r.candidates hy
      exact ⟨(hcount y hy').trans (hbefore y hy).1, (hrest _ (hother y hy').2).trans (hbefore y hy).2⟩
    · intro y hy
      rcases List.mem_append.mp hy with hy | hy
      · have hy' := List.mem_append_right waiting hy
        exact ⟨(hcount y hy').trans (h.after y hy).1, (hrest _ (hother y hy').2).trans (h.after y hy).2⟩
      · cases List.mem_singleton.mp hy
        exact ⟨Function.update_self _ _ _, hnext⟩

theorem Matches.foldl_settle (h : Matches svc n waiting r s) :
    Matches svc n [] (waiting.foldl (Resolution.settle svc draws attempt) r)
      (waiting.foldl (Search.settle (drawnCodes svc draws attempt) svc.maxCodeAttempts) s) := by
  induction waiting generalizing r s with
  | nil => exact h
  | cons x waiting ih => exact ih h.settle

/-- The two states between rounds. -/
structure Level (svc : LinkServices) (n : Nat) (r : Resolution) (s : Search (String → Nat)) : Prop where
  candidates : s.candidates = r.candidates
  resolved : s.resolved = r.resolved
  occupied : s.occupied = r.occupied
  attempts : r.attempts = n
  hashes : (r.candidates.map (·.1.hash)).Nodup
  urls : (r.candidates.map (·.1.originalUrl)).Nodup
  counted : ∀ x ∈ r.candidates, s.attempts x.1.hash = n ∧ s.gen x.1.originalUrl = n - svc.maxCodeAttempts

theorem Level.round (h : Level svc n r s) : Level svc (n + 1) (r.round svc draws attempt stored)
    (s.round (drawnCodes svc draws attempt) svc.maxCodeAttempts stored) := by
  have hstart : Matches svc n r.candidates ⟨[], r.resolved, r.occupied ++ (r.candidates.map (·.2)).filter
      (fun code => (stored code).isSome), r.attempts + 1⟩ (Search.ask stored s) := by
    refine ⟨rfl, h.resolved, ?_, congrArg (· + 1) h.attempts, ?_, ?_, h.counted, ?_⟩
    · unfold Search.ask
      rw [h.occupied, h.candidates]
    · rw [List.append_nil]
      exact h.hashes
    · rw [List.append_nil]
      exact h.urls
    · intro x hx
      cases hx
  have hend : Matches svc n [] (r.round svc draws attempt stored)
      (s.round (drawnCodes svc draws attempt) svc.maxCodeAttempts stored) := by
    unfold Search.round Resolution.round
    rw [h.candidates]
    exact hstart.foldl_settle
  exact ⟨hend.candidates, hend.resolved, hend.occupied, hend.attempts, hend.hashes, hend.urls, hend.after⟩

theorem initialCodes_drawnCodes (groups : List UrlGroup) (gen : String → Nat) :
    Search.initialCodes (drawnCodes svc draws attempt) groups gen =
      (groups.map fun g => (g, svc.codeGenerator.generateForUrl g.originalUrl), gen) := by
  induction groups with
  | nil => rfl
  | cons g groups ih =>
    unfold Search.initialCodes
    simp only [drawnCodes] at ih ⊢
    rw [ih]
    rfl

/-- **The search of the batch use case is this search**, with the codes that the request draws. -/
theorem resolveCollisions_eq (svc : LinkServices) (draws : Draws) (attempt : Nat) (stored : ShortCode → Option Link)
    {groups : List UrlGroup} (hn : (groups.map (·.hash)).Nodup)
    (hhash : ∀ g ∈ groups, svc.hashUrl g.originalUrl = g.hash) :
    searchCodes (drawnCodes svc draws attempt) svc.maxCodeAttempts stored (2 * svc.maxCodeAttempts + 1) groups (fun _ => 0) =
      some (resolveCollisions svc draws attempt stored groups).resolved := by
  have hurls : (groups.map (·.originalUrl)).Nodup := by
    refine List.Nodup.of_map svc.hashUrl ?_
    have hhashes : groups.map (svc.hashUrl ∘ fun g => g.originalUrl) = groups.map (·.hash) := List.map_congr_left hhash
    rw [List.map_map, hhashes]
    exact hn
  have hstart : Level svc 0 (.start svc groups) (.start (drawnCodes svc draws attempt) groups fun _ => 0) := by
    unfold Search.start Resolution.start
    rw [initialCodes_drawnCodes]
    refine ⟨rfl, rfl, rfl, rfl, ?_, ?_, ?_⟩
    · rw [List.map_map]
      exact hn
    · rw [List.map_map]
      exact hurls
    · intro x _
      exact ⟨rfl, (Nat.zero_sub _).symm⟩
  have hlevel : ∀ n, Level svc n ((Resolution.round svc draws attempt stored)^[n] (.start svc groups))
      (Search.after (drawnCodes svc draws attempt) svc.maxCodeAttempts stored groups (fun _ => 0) n) := by
    intro n
    induction n with
    | zero => exact hstart
    | succ n ih =>
      rw [Search.after_succ, Function.iterate_succ_apply']
      exact ih.round
  rw [searchCodes_eq hn (Nat.le_refl _), (hlevel _).resolved]
  rfl

end Draws

end LinkShortener.Links
