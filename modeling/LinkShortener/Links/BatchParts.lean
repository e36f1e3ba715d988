import Mathlib.Data.List.Perm.Basic
import Mathlib.Data.List.Nodup
import LinkShortener.Links.Batch

/-!
# What the parts of a batch do

* `grouped`: the grouper gives one group for each hash, and every URL of the batch is in one group or refused
  (`Grouped`).
* `resolveCollisions_searched`: the search for codes gives each hash at most one code, no code to two hashes, and only
  codes that no stored link carries (`Searched`).
* `drafted`: the links that are created have a hash of their own each, and a code of their own that was free (`Drafted`).
-/

namespace LinkShortener.Links

/-! ## The grouper -/

section Grouper

variable {svc : LinkServices} {groups : List UrlGroup} {rejected : List BatchItemResponse} {urls : List String}

/-- The hash a URL deduplicates by; none when the URL is refused. -/
def hashOf (svc : LinkServices) (url : String) : Option String := (svc.parseUrl url).toOption.map svc.hashUrl

/-- What is known of the groups and the refused items of a batch. -/
structure Grouped (svc : LinkServices) (urls : List String) (groups : List UrlGroup)
    (rejected : List BatchItemResponse) : Prop where
  nodup : (groups.map (·.hash)).Nodup
  hashes : ∀ g ∈ groups, ∀ url ∈ g.urls, hashOf svc url = some g.hash
  nonempty : ∀ g ∈ groups, g.urls ≠ []
  refused : ∀ r ∈ rejected, r.success = false ∧ r.isNew = false ∧ hashOf svc r.url = none
  perm : (groups.flatMap (·.urls) ++ rejected.map (·.url)).Perm urls

/-- One URL is sorted in. -/
def groupUrl (svc : LinkServices) (acc : List UrlGroup × List BatchItemResponse) (url : String) :
    List UrlGroup × List BatchItemResponse :=
  match svc.parseUrl url with
  | .error e => (acc.1, acc.2 ++ [.ofError (.fromError e) url])
  | .ok originalUrl => (addToGroup acc.1 (svc.hashUrl originalUrl) originalUrl url, acc.2)

theorem groupUrls_eq (svc : LinkServices) (urls : List String) :
    groupUrls svc urls = urls.foldl (groupUrl svc) ([], []) := rfl

/-- A URL is added to the group of its hash. -/
theorem flatMap_addUrl {hash url : String} (hn : (groups.map (·.hash)).Nodup) (hmem : hash ∈ groups.map (·.hash)) :
    ((groups.map fun g => if g.hash = hash then { g with urls := g.urls ++ [url] } else g).flatMap (·.urls)).Perm
      (groups.flatMap (·.urls) ++ [url]) := by
  induction groups with
  | nil => cases hmem
  | cons g groups ih =>
    obtain ⟨hg, hn⟩ := List.nodup_cons.mp hn
    simp only [List.map_cons, List.flatMap_cons]
    by_cases hh : g.hash = hash
    · -- The others have other hashes and stay as they are.
      have hrest : (groups.map fun g => if g.hash = hash then { g with urls := g.urls ++ [url] } else g) = groups := by
        conv_rhs => rw [← List.map_id groups]
        apply List.map_congr_left
        intro g' hg'
        rw [if_neg]
        · rfl
        · intro hh'
          exact hg (List.mem_map.mpr ⟨g', hg', hh'.trans hh.symm⟩)
      rw [if_pos hh, hrest]
      simp only [List.append_assoc]
      exact List.Perm.append_left _ List.perm_append_comm
    · rw [if_neg hh, List.append_assoc]
      apply List.Perm.append_left
      apply ih hn
      rcases List.mem_cons.mp hmem with h | h
      · exact absurd h.symm hh
      · exact h

theorem addToGroup_hashes (hash originalUrl url : String) :
    (addToGroup groups hash originalUrl url).map (·.hash) =
      if hash ∈ groups.map (·.hash) then groups.map (·.hash) else groups.map (·.hash) ++ [hash] := by
  have hany : (groups.any fun g => decide (g.hash = hash)) = true ↔ hash ∈ groups.map (·.hash) := by
    simp [List.any_eq_true]
  unfold addToGroup
  by_cases hmem : hash ∈ groups.map (·.hash)
  · rw [if_pos (hany.mpr hmem), if_pos hmem, List.map_map]
    apply List.map_congr_left
    intro g _
    simp only [Function.comp]
    split <;> rfl
  · rw [if_neg (fun h => hmem (hany.mp h)), if_neg hmem, List.map_append]
    rfl

theorem addToGroup_urls (hn : (groups.map (·.hash)).Nodup) (hash originalUrl url : String) :
    ((addToGroup groups hash originalUrl url).flatMap (·.urls)).Perm (groups.flatMap (·.urls) ++ [url]) := by
  unfold addToGroup
  split
  · rename_i hany
    apply flatMap_addUrl hn
    simpa [List.any_eq_true] using hany
  · simp

/-- A group is as it was, or it is the group of the hash and has the URL besides what it had. -/
theorem mem_addToGroup {hash originalUrl url : String} {g : UrlGroup}
    (hg : g ∈ addToGroup groups hash originalUrl url) :
    g ∈ groups ∨ g.hash = hash ∧ g.urls ≠ [] ∧
      ∀ u ∈ g.urls, u = url ∨ ∃ g' ∈ groups, g'.hash = hash ∧ u ∈ g'.urls := by
  unfold addToGroup at hg
  split at hg
  · obtain ⟨g', hg', rfl⟩ := List.mem_map.mp hg
    split
    · rename_i hh
      refine .inr ⟨hh, by simp, ?_⟩
      intro u hu
      rcases List.mem_append.mp hu with hu | hu
      · exact .inr ⟨g', hg', hh, hu⟩
      · exact .inl (List.mem_singleton.mp hu)
    · exact .inl hg'
  · rcases List.mem_append.mp hg with hg | hg
    · exact .inl hg
    · cases List.mem_singleton.mp hg
      refine .inr ⟨rfl, by simp, ?_⟩
      intro u hu
      exact .inl (List.mem_singleton.mp hu)

theorem Grouped.step (h : Grouped svc urls groups rejected) (url : String) :
    Grouped svc (urls ++ [url]) (groupUrl svc (groups, rejected) url).1 (groupUrl svc (groups, rejected) url).2 := by
  unfold groupUrl
  cases hp : svc.parseUrl url with
  | error e =>
    refine ⟨h.nodup, h.hashes, h.nonempty, ?_, ?_⟩
    · intro r hr
      rcases List.mem_append.mp hr with hr | hr
      · exact h.refused r hr
      · cases List.mem_singleton.mp hr
        exact ⟨rfl, rfl, by simp [hashOf, BatchItemResponse.ofError, hp, Except.toOption]⟩
    · rw [List.map_append, ← List.append_assoc]
      exact h.perm.append_right _
  | ok originalUrl =>
    have hurl : hashOf svc url = some (svc.hashUrl originalUrl) := by simp [hashOf, hp, Except.toOption]
    refine ⟨?_, ?_, ?_, h.refused, ?_⟩
    · rw [addToGroup_hashes]
      split
      · exact h.nodup
      · rename_i hnew
        exact List.nodup_append.mpr ⟨h.nodup, List.nodup_singleton _, by
          intro a ha b hb
          rw [List.mem_singleton.mp hb]
          rintro rfl
          exact hnew ha⟩
    · intro g hg u hu
      rcases mem_addToGroup hg with hin | ⟨hh, -, hin⟩
      · exact h.hashes g hin u hu
      · rcases hin u hu with rfl | ⟨g', hg', hh', hu⟩
        · rw [hurl, hh]
        · rw [h.hashes g' hg' u hu, hh, hh']
    · intro g hg
      rcases mem_addToGroup hg with hin | ⟨-, hne, -⟩
      · exact h.nonempty g hin
      · exact hne
    · have hstep := (addToGroup_urls h.nodup (svc.hashUrl originalUrl) originalUrl url).append_right
        (rejected.map (·.url))
      refine hstep.trans ?_
      rw [List.append_assoc]
      refine (List.Perm.append_left _ List.perm_append_comm).trans ?_
      rw [← List.append_assoc]
      exact h.perm.append_right _

/-- **The grouper loses nothing and doubles nothing.** -/
theorem grouped (svc : LinkServices) (urls : List String) :
    Grouped svc urls (groupUrls svc urls).1 (groupUrls svc urls).2 := by
  have hfold : ∀ (rest done : List String) (acc : List UrlGroup × List BatchItemResponse),
      Grouped svc done acc.1 acc.2 → Grouped svc (done ++ rest) (rest.foldl (groupUrl svc) acc).1
        (rest.foldl (groupUrl svc) acc).2 := by
    intro rest
    induction rest with
    | nil =>
      intro done acc h
      rw [List.append_nil]
      exact h
    | cons url rest ih =>
      intro done acc h
      have := ih (done ++ [url]) (groupUrl svc acc url) (h.step url)
      rwa [List.append_assoc] at this
  have hnil : Grouped svc [] [] [] := by
    refine ⟨List.nodup_nil, ?_, ?_, ?_, .refl _⟩
    · intro g hg
      cases hg
    · intro g hg
      cases hg
    · intro r hr
      cases hr
  rw [groupUrls_eq]
  exact hfold urls [] ([], []) hnil

end Grouper

/-! ## The search for codes -/

section Search

variable {svc : LinkServices} {draws : Draws} {attempt : Nat} {stored : ShortCode → Option Link} {r : Resolution}
  {waiting : List (UrlGroup × ShortCode)}

/-- What is known of the search while the candidates `waiting` have not had their turn in this round. -/
structure Searched (stored : ShortCode → Option Link) (r : Resolution) (waiting : List (UrlGroup × ShortCode)) :
    Prop where
  nodup : (r.resolved.map (·.2)).Nodup
  occupied : ∀ x ∈ r.resolved, x.2 ∈ r.occupied
  free : ∀ x ∈ r.resolved, stored x.2 = none
  waiting : ∀ x ∈ waiting, (stored x.2).isSome = true → x.2 ∈ r.occupied

theorem Searched.settle {x : UrlGroup × ShortCode} (h : Searched stored r (x :: waiting)) :
    Searched stored (r.settle svc draws attempt x) waiting := by
  have hwaiting : ∀ y ∈ waiting, (stored y.2).isSome = true → y.2 ∈ r.occupied :=
    fun y hy => h.waiting y (List.mem_cons_of_mem x hy)
  obtain ⟨g, code⟩ := x
  unfold Resolution.settle
  dsimp only
  split
  · rename_i hfree
    have hnone : stored code = none := by
      cases hs : stored code with
      | none => rfl
      | some l => exact absurd (h.waiting (g, code) List.mem_cons_self (by rw [hs]; rfl)) hfree
    refine ⟨?_, ?_, ?_, ?_⟩
    · rw [List.map_append]
      refine List.nodup_append.mpr ⟨h.nodup, List.nodup_singleton _, ?_⟩
      intro a ha b hb
      cases List.mem_singleton.mp hb
      obtain ⟨y, hy, rfl⟩ := List.mem_map.mp ha
      intro he
      apply hfree
      rw [show code = y.2 from he.symm]
      exact h.occupied y hy
    · intro y hy
      rcases List.mem_append.mp hy with hy | hy
      · exact List.mem_cons_of_mem code (h.occupied y hy)
      · cases List.mem_singleton.mp hy
        exact List.mem_cons_self
    · intro y hy
      rcases List.mem_append.mp hy with hy | hy
      · exact h.free y hy
      · cases List.mem_singleton.mp hy
        exact hnone
    · intro y hy hs
      exact List.mem_cons_of_mem code (hwaiting y hy hs)
  · split
    · exact ⟨h.nodup, h.occupied, h.free, hwaiting⟩
    · exact ⟨h.nodup, h.occupied, h.free, hwaiting⟩

theorem Searched.foldl_settle (h : Searched stored r waiting) :
    Searched stored (waiting.foldl (Resolution.settle svc draws attempt) r) [] := by
  induction waiting generalizing r with
  | nil => exact h
  | cons x waiting ih => exact ih h.settle

theorem Searched.round (h : Searched stored r []) : Searched stored (r.round svc draws attempt stored) [] := by
  apply Searched.foldl_settle
  refine ⟨h.nodup, ?_, h.free, ?_⟩
  · intro x hx
    exact List.mem_append_left _ (h.occupied x hx)
  · intro x hx hs
    exact List.mem_append_right _ (List.mem_filter.mpr ⟨List.mem_map_of_mem hx, hs⟩)

theorem searched_start (svc : LinkServices) (stored : ShortCode → Option Link) (groups : List UrlGroup) :
    Searched stored (.start svc groups) [] := by
  refine ⟨List.nodup_nil, ?_, ?_, ?_⟩
  · intro x hx
    cases hx
  · intro x hx
    cases hx
  · intro x hx
    cases hx

/-- **The search gives out free codes only, and none of them twice.** -/
theorem resolveCollisions_searched (svc : LinkServices) (draws : Draws) (attempt : Nat)
    (stored : ShortCode → Option Link) (groups : List UrlGroup) :
    Searched stored (resolveCollisions svc draws attempt stored groups) [] := by
  unfold resolveCollisions
  generalize 2 * svc.maxCodeAttempts + 1 = n
  induction n with
  | zero => exact searched_start svc stored groups
  | succ n ih =>
    rw [Function.iterate_succ_apply']
    exact ih.round

end Search

/-! ## The links that are created -/

section Drafts

variable {stored : ShortCode → Option Link} {groups : List UrlGroup} {resolved : List (String × ShortCode)} {draws : Draws}
  {attempt : Nat}

/-- The groups that get a link are those that got a code. -/
theorem plan_groups (draws : Draws) (attempt : Nat) (groups : List UrlGroup) (resolved : List (String × ShortCode)) :
    (plan draws attempt groups resolved).map (·.group) = groups.filter fun g => (resolved.lookup g.hash).isSome := by
  unfold plan
  generalize attempt * groups.length = base
  generalize 0 = first
  induction groups generalizing first with
  | nil => rfl
  | cons g groups ih =>
    rw [List.zipIdx_cons, List.filterMap_cons, List.filter_cons]
    dsimp only
    cases resolved.lookup g.hash with
    | none => exact ih (first + 1)
    | some code => exact congrArg (g :: ·) (ih (first + 1))

theorem mem_plan {p : Planned} (h : p ∈ plan draws attempt groups resolved) :
    (p.group.hash, p.code) ∈ resolved ∧ ∃ i, p.id = draws.ids i := by
  unfold plan at h
  obtain ⟨⟨g, i⟩, -, h⟩ := List.mem_filterMap.mp h
  obtain ⟨code, hcode, rfl⟩ := Option.map_eq_some_iff.mp h
  obtain ⟨before, after, rfl, -⟩ := List.lookup_eq_some_iff.mp hcode
  exact ⟨by simp, _, rfl⟩

theorem plan_hashes (draws : Draws) (attempt : Nat) (groups : List UrlGroup) (resolved : List (String × ShortCode)) :
    ((plan draws attempt groups resolved).map (·.group.hash)).Sublist (groups.map (·.hash)) := by
  have heq : (plan draws attempt groups resolved).map (·.group.hash) =
      ((plan draws attempt groups resolved).map (·.group)).map (·.hash) := by
    rw [List.map_map]
    rfl
  rw [heq, plan_groups]
  exact List.filter_sublist.map _

/-- No two groups share a code. -/
theorem plan_codes_nodup (hn : (groups.map (·.hash)).Nodup) (hr : (resolved.map (·.2)).Nodup) :
    ((plan draws attempt groups resolved).map (·.code)).Nodup := by
  have hgroups : ((plan draws attempt groups resolved).map (·.group.hash)).Nodup :=
    hn.sublist (plan_hashes draws attempt groups resolved)
  refine List.Nodup.map_on ?_ hgroups.of_map
  intro p hp p' hp' hcode
  have hpair := List.inj_on_of_nodup_map hr (mem_plan hp).1 (mem_plan hp').1 hcode
  exact List.inj_on_of_nodup_map hgroups hp hp' (congrArg Prod.fst hpair)

/-- What is known of the links one attempt creates. -/
structure Drafted (stored : ShortCode → Option Link) (q : Batch) (groups : List UrlGroup) (links : List Link) :
    Prop where
  hashes : (links.map (·.urlHash)).Sublist (groups.map (·.hash))
  nodup : (links.map (·.shortCode)).Nodup
  free : ∀ l ∈ links, stored l.shortCode = none
  made : ∀ l ∈ links, l.dedupScope = scopeOf q.owner q.guestId

/-- **Every link that is created has a hash and a code of its own.** -/
theorem drafted {svc : LinkServices} {q : Batch} {now : Instant} {links : List Link} (hn : (groups.map (·.hash)).Nodup)
    (h : (plan draws attempt groups (resolveCollisions svc draws attempt stored groups).resolved).mapM
      (fun p => p.create q now) = .ok links) : Drafted stored q groups links := by
  have hsearch := resolveCollisions_searched svc draws attempt stored groups
  have hcodes := mapM_ok_map h (p := Link.shortCode) (r := Planned.code) fun p l hl => (Link.create_ok hl).1
  have hhashes := mapM_ok_map h (p := Link.urlHash) (r := fun p => p.group.hash) fun p l hl => (Link.create_hash hl).1
  refine ⟨?_, ?_, ?_, ?_⟩
  · rw [hhashes]
    exact plan_hashes draws attempt groups _
  · rw [hcodes]
    exact plan_codes_nodup hn hsearch.nodup
  · intro l hl
    have hl' : l.shortCode ∈ links.map (·.shortCode) := List.mem_map_of_mem hl
    rw [hcodes] at hl'
    obtain ⟨p, hp, hcode⟩ := List.mem_map.mp hl'
    rw [← hcode]
    exact hsearch.free _ (mem_plan hp).1
  · intro l hl
    obtain ⟨p, -, hp⟩ := mapM_ok_mem h hl
    obtain ⟨-, -, howner, hguest⟩ := Link.create_ok hp
    rw [dedupScope_eq, howner, hguest]

end Drafts

end LinkShortener.Links
