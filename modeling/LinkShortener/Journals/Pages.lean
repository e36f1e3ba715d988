import LinkShortener.Journals.Model

/-!
# Pages of a journal

* `linesBackwards_plain`, `linesBackwards_packed`: what is read backwards are the last lines of the file, and it is the
  whole file if fewer were found than wanted. `backwards_in_blocks_is_forwards`: blocks make no difference.
* `Scanned`: what a scan has looked at is the end of what it was asked to look at, and it has collected what answers the
  filter. `scanFiles_scanned`: every file keeps that, and the scan is left early only with a full page or a spent budget.
* `LegibleUpTo`: the lines that a scan looks at can be parsed, or fail with a `ValueError`. `scanFiles_ok_iff`: a scan comes
  to an end with those and no others. Both are inductions over the files, from what a scan makes of one (`scanFiles_cons`).
* `journal_page_is_newest`: a page is the newest lines that answer the filter, and the start was reached only if
  everything was looked at. It is there exactly if no line on the way to it raises anything but a `ValueError`.
-/

namespace LinkShortener.Journals

open Lines Utf8

/-! ## One file -/

/-- The lines of a file. -/
def fileLines (content : List UInt8) : List String := ((lines newline content).map decode).map String.ofList

section File

variable {block : Nat}

/-- The blocks that were read are the end of the file: all of it, or enough to hold the lines that are wanted. -/
theorem blocksBackwards_eq (hblock : 0 < block) (content : List UInt8) (wanted : Nat) {position newlines : Nat}
    (hposition : position ≤ content.length) (hnewlines : newlines = (content.drop position).count newline) :
    ∃ p, blocksBackwards block hblock content wanted position newlines (content.drop position) = (content.drop p, p) ∧
      (p = 0 ∨ wanted < (content.drop p).count newline) := by
  induction position using Nat.strongRecOn generalizing newlines with
  | _ position ih =>
    unfold blocksBackwards
    split
    · rename_i hmore
      have hbuffer : (content.drop (position - min block position)).take (min block position) ++ content.drop position =
          content.drop (position - min block position) := by
        have hdrop : content.drop position = (content.drop (position - min block position)).drop (min block position) := by
          rw [List.drop_drop]
          congr 1
          omega
        rw [hdrop, List.take_append_drop]
      dsimp only
      rw [hbuffer]
      refine ih (position - min block position) (by omega) (by omega) ?_
      have hcount := congrArg (List.count newline) hbuffer
      rw [List.count_append] at hcount
      omega
    · rename_i hdone
      refine ⟨position, rfl, ?_⟩
      omega

theorem map_ofList_rtake (text : List (List Char)) (wanted : Nat) :
    (text.rtake wanted).map String.ofList = (text.map String.ofList).rtake wanted := by
  unfold List.rtake
  rw [List.map_drop, List.length_map]

/-- A packed file is read forwards, to its end. -/
theorem linesBackwards_packed (hblock : 0 < block) {name : String} (h : isPacked name = true) (content : List UInt8)
    (wanted : Nat) : linesBackwards block hblock name content wanted = ((fileLines content).rtake wanted, true) := by
  unfold linesBackwards fileLines
  rw [if_pos h, ← rawLines_decode, ← map_ofList_rtake]

/-- A plain file is read backwards, and not to its start only if there are more lines than are wanted. -/
theorem linesBackwards_plain (hblock : 0 < block) {name : String} (h : isPacked name = false) (content : List UInt8)
    {wanted : Nat} (hwanted : 0 < wanted) :
    (linesBackwards block hblock name content wanted).1 = (fileLines content).rtake wanted ∧
      ((linesBackwards block hblock name content wanted).2 = false → wanted < (fileLines content).length) := by
  unfold linesBackwards fileLines
  rw [if_neg (by rw [h]; exact Bool.false_ne_true)]
  obtain ⟨p, hread, hend⟩ := blocksBackwards_eq hblock content wanted le_rfl
    (show 0 = (content.drop content.length).count newline by rw [List.drop_length, List.count_nil])
  rw [List.drop_length] at hread
  rw [hread]
  dsimp only
  rw [lastSlice_of_pos _ hwanted, lines_decode, map_ofList_rtake]
  rcases hend with rfl | henough
  · exact ⟨rfl, nofun⟩
  · obtain ⟨hlast, hmany⟩ := rtake_lines_append (content.take p) henough
    rw [List.take_append_drop] at hlast hmany
    refine ⟨?_, ?_⟩
    · rw [← map_ofList_rtake, ← map_ofList_rtake]
      congr 1
      unfold List.rtake at hlast ⊢
      rw [← List.map_drop, ← List.map_drop, List.length_map, List.length_map, hlast]
    · intro _
      rw [List.length_map, List.length_map]
      exact hmany

/-- **Either way the last lines of the file are found**, and not all of them only if there are as many as wanted. -/
theorem linesBackwards_eq (hblock : 0 < block) (name : String) (content : List UInt8) {wanted : Nat}
    (hwanted : 0 < wanted) :
    (linesBackwards block hblock name content wanted).1 = (fileLines content).rtake wanted ∧
      ((linesBackwards block hblock name content wanted).2 = false → wanted < (fileLines content).length) := by
  cases h : isPacked name with
  | true =>
    rw [linesBackwards_packed hblock h]
    exact ⟨rfl, nofun⟩
  | false => exact linesBackwards_plain hblock h content hwanted

/-- **Reading a file backwards in blocks is reading it forwards.** Wherever the blocks cut lines and characters, a plain
file gives the last lines of its content, as a packed one does that is read from its start; and where the start was not
reached there is a line before those. -/
theorem backwards_in_blocks_is_forwards (hblock : 0 < block) (content : List UInt8) {wanted : Nat}
    (hwanted : 1 ≤ wanted)
    {plain packed : String} (hplain : isPacked plain = false) (hpacked : isPacked packed = true) :
    (linesBackwards block hblock plain content wanted).1 = (fileLines content).rtake wanted ∧
      (linesBackwards block hblock plain content wanted).1 = (linesBackwards block hblock packed content wanted).1 ∧
      ((linesBackwards block hblock plain content wanted).2 = false →
        ∃ earlier, earlier ≠ [] ∧ fileLines content = earlier ++ (linesBackwards block hblock plain content wanted).1) := by
  obtain ⟨hlines, hstart⟩ := linesBackwards_plain hblock hplain content hwanted
  refine ⟨hlines, ?_, ?_⟩
  · rw [hlines, linesBackwards_packed hblock hpacked]
  · intro hnot
    obtain ⟨earlier, hearlier⟩ := exists_append_rtake (fileLines content) wanted
    rw [hlines]
    refine ⟨earlier, ?_, hearlier⟩
    rintro rfl
    have hmore := hstart hnot
    have hlength := congrArg List.length hearlier
    rw [List.nil_append, length_rtake] at hlength
    omega

/-- Three bytes a block, which cuts a character of the second line, and no newline at the end. -/
theorem backwards_in_blocks_sample :
    (linesBackwards 3 (by decide) "application.log" [0x61, 0x0A, 0x62, 0xC3, 0xA9, 0x0A, 0x63] 2).1 =
      (linesBackwards 3 (by decide) "application.log.1.gz" [0x61, 0x0A, 0x62, 0xC3, 0xA9, 0x0A, 0x63] 2).1 :=
  (backwards_in_blocks_is_forwards (by decide) _ (by decide) (by decide) (by decide)).2.1

end File

/-! ## One line -/

section Line

variable {loads : String → Except LoadError Loaded} {raw source : String} {raws : List String}

/-- Parsing a line raises nothing but a `ValueError`. -/
def Legible (loads : String → Except LoadError Loaded) (raw : String) : Prop := ∀ e, loads raw ≠ .error (.other e)

/-- A line as it is to be shown: parsed as far as it can be. -/
def shown (loads : String → Except LoadError Loaded) (raw source : String) : JournalLine :=
  (parse loads raw source).toOption.getD ⟨raw, Rows.empty, false, source⟩

theorem shown_raw : (shown loads raw source).raw = raw := by
  unfold shown parse
  split <;> rfl

theorem parse_of_legible (h : Legible loads raw) : parse loads raw source = .ok (shown loads raw source) := by
  unfold shown parse
  split
  · rfl
  · rfl
  · rfl
  · exact absurd ‹_› (h _)

theorem parse_of_not_legible (h : ¬ Legible loads raw) : ∃ e, parse loads raw source = .error e := by
  unfold Legible at h
  push Not at h
  obtain ⟨e, he⟩ := h
  exact ⟨e, by rw [parse, he]⟩

/-- **Lines are parsed one after the other**, and the first one that is not legible ends that. -/
theorem mapM_parse {lines : List JournalLine} :
    (raws.mapM fun raw => parse loads raw source) = .ok lines ↔
      (∀ raw ∈ raws, Legible loads raw) ∧ lines = raws.map fun raw => shown loads raw source := by
  induction raws generalizing lines with
  | nil =>
    rw [List.mapM_nil]
    constructor
    · rintro ⟨⟩
      exact ⟨nofun, rfl⟩
    · rintro ⟨-, rfl⟩
      rfl
  | cons raw raws ih =>
    rw [List.mapM_cons]
    by_cases hraw : Legible loads raw
    · rw [parse_of_legible hraw]
      constructor
      · intro h
        cases hrest : raws.mapM fun raw => parse loads raw source with
        | error e =>
          rw [hrest] at h
          cases h
        | ok rest =>
          rw [hrest] at h
          cases h
          obtain ⟨hall, rfl⟩ := ih.mp hrest
          exact ⟨List.forall_mem_cons.mpr ⟨hraw, hall⟩, rfl⟩
      · rintro ⟨hall, rfl⟩
        rw [ih.mpr ⟨(List.forall_mem_cons.mp hall).2, rfl⟩]
        rfl
    · obtain ⟨e, he⟩ : ∃ e, parse loads raw source = .error e := parse_of_not_legible hraw
      rw [he]
      constructor
      · rintro ⟨⟩
      · rintro ⟨hall, -⟩
        exact absurd (hall raw List.mem_cons_self) hraw

end Line

/-! ## One scan -/

namespace FileJournalReader

variable (r : FileJournalReader)

/-- The lines of a file, if it is there. -/
def linesIn (name : String) : List JournalLine :=
  match r.logDir.lookup name with
  | none => []
  | some content => (fileLines content).map fun raw => shown r.loads raw name

/-- The lines of some files, newest file first, in the order they were written in. -/
def journalLines : List String → List JournalLine
  | [] => []
  | name :: names => journalLines names ++ r.linesIn name

/-- **What a scan looks at is legible**: of every file it comes to, with neither the page full nor the budget spent by the
newer ones, the lines that are left of the budget. `seen` are the lines of files before those. -/
def LegibleUpTo (wanted budget : Nat) (lookingFor : JournalFilter) (names : List String) (seen : List JournalLine) : Prop :=
  ∀ newer name older, names = newer ++ name :: older → (r.journalLines newer ++ seen).length < budget →
    ((r.journalLines newer ++ seen).filter fun line => lookingFor.matchesFields line.fields).length < wanted →
    ∀ line ∈ (r.linesIn name).rtake (budget - (r.journalLines newer ++ seen).length), Legible r.loads line.raw

end FileJournalReader

/-- **What a scan has looked at**: the end of what it was asked to look at. It is left early only with a full page or with
the budget spent. -/
structure Scanned (p : JournalLine → Bool) (wanted budget : Nat) (all seen : List JournalLine) (out : Scan × Bool) :
    Prop where
  newest : ∃ front, all = front ++ seen
  collected : out.1.collected = seen.filter p
  scanned : out.1.scanned = seen.length
  within : seen.length ≤ budget
  left : out.2 = true → (wanted ≤ out.1.collected.length ∨ seen.length = budget) ∧ out.1.reachedStart = false
  ended : out.2 = false → seen = all

section Scan

variable {r : FileJournalReader} {wanted budget budget' : Nat} {lookingFor : JournalFilter} {names : List String}
  {name : String} {seen : List JournalLine}

/-- What a scan finds in a file. -/
theorem linesBackwards_shown {content : List UInt8} (h : r.logDir.lookup name = some content) {room : Nat}
    (hroom : 0 < room) :
    ((linesBackwards BLOCK (by decide) name content room).1.map fun raw => shown r.loads raw name) =
      (r.linesIn name).rtake room := by
  unfold FileJournalReader.linesIn
  rw [h, (linesBackwards_eq (by decide) name content hroom).1]
  unfold List.rtake
  dsimp only
  rw [List.map_drop, List.length_map]

/-- **What a scan makes of a file**: an exception, or the lines of the file that the budget has room for. -/
theorem mapM_linesBackwards {content : List UInt8} (h : r.logDir.lookup name = some content) {room : Nat}
    (hroom : 0 < room) {lines : List JournalLine} :
    ((linesBackwards BLOCK (by decide) name content room).1.mapM fun raw => parse r.loads raw name) = .ok lines ↔
      (∀ line ∈ (r.linesIn name).rtake room, Legible r.loads line.raw) ∧ lines = (r.linesIn name).rtake room := by
  rw [mapM_parse, linesBackwards_shown h hroom]
  refine and_congr_left fun _ => ?_
  rw [← linesBackwards_shown h hroom, List.forall_mem_map]
  simp only [shown_raw]

namespace FileJournalReader.LegibleUpTo

/-- A full page and a spent budget look at nothing more. -/
theorem of_full (h : budget ≤ seen.length ∨
    wanted ≤ (seen.filter fun line => lookingFor.matchesFields line.fields).length) :
    r.LegibleUpTo wanted budget lookingFor names seen := by
  intro newer name older _ hroom hopen
  rw [List.length_append] at hroom
  rw [List.filter_append, List.length_append] at hopen
  omega

/-- A scan looks at one file and then at the next. -/
theorem cons_iff : r.LegibleUpTo wanted budget lookingFor (name :: names) seen ↔
    (seen.length < budget → (seen.filter fun line => lookingFor.matchesFields line.fields).length < wanted →
      ∀ line ∈ (r.linesIn name).rtake (budget - seen.length), Legible r.loads line.raw) ∧
    r.LegibleUpTo wanted budget lookingFor names (r.linesIn name ++ seen) := by
  have hnext : ∀ newer, r.journalLines (name :: newer) ++ seen = r.journalLines newer ++ (r.linesIn name ++ seen) :=
    fun newer => List.append_assoc ..
  constructor
  · intro h
    refine ⟨h [] name names rfl, ?_⟩
    intro newer name' older hnames
    rw [← hnext]
    exact h (name :: newer) name' older (by rw [hnames, List.cons_append])
  · rintro ⟨hfirst, hrest⟩ newer name' older hnames
    cases newer with
    | nil =>
      cases hnames
      exact hfirst
    | cons name₁ newer =>
      obtain ⟨rfl, hlater⟩ : name = name₁ ∧ names = newer ++ name' :: older := List.cons_eq_cons.mp hnames
      rw [hnext]
      exact hrest newer name' older hlater

/-- A smaller budget looks at fewer lines. -/
theorem of_le (hle : budget ≤ budget') (h : r.LegibleUpTo wanted budget' lookingFor names []) :
    r.LegibleUpTo wanted budget lookingFor names [] := by
  intro newer name older hnames hroom hopen line hline
  refine h newer name older hnames (hroom.trans_le hle) hopen line ?_
  rw [← rtake_rtake _ (Nat.sub_le_sub_right hle _)] at hline
  exact List.mem_of_mem_drop hline

theorem length_journalLines_append (newer older : List String) :
    (r.journalLines (newer ++ older)).length = (r.journalLines newer).length + (r.journalLines older).length := by
  induction newer with
  | nil => rw [List.nil_append, FileJournalReader.journalLines, List.length_nil, Nat.zero_add]
  | cons name newer ih =>
    rw [List.cons_append, FileJournalReader.journalLines, FileJournalReader.journalLines, List.length_append,
      List.length_append, ih]
    omega

/-- A budget that has room for everything looks at as much as any. -/
theorem of_length_le (hall : (r.journalLines names).length ≤ budget)
    (h : r.LegibleUpTo wanted budget lookingFor names []) : r.LegibleUpTo wanted budget' lookingFor names [] := by
  intro newer name older hnames _ hopen line hline
  have hmem : line ∈ r.linesIn name := List.mem_of_mem_drop hline
  have hlength := length_journalLines_append (r := r) newer (name :: older)
  rw [← hnames, FileJournalReader.journalLines, List.length_append] at hlength
  have hsome := List.length_pos_of_mem hmem
  have hroom : (r.journalLines newer ++ []).length < budget := by
    rw [List.append_nil]
    omega
  refine h newer name older hnames hroom hopen line ?_
  rw [rtake_of_length_le]
  · exact hmem
  · rw [List.append_nil]
    omega

end FileJournalReader.LegibleUpTo

/-- What a scan has kept of the lines `seen`. -/
structure Saw (p : JournalLine → Bool) (seen : List JournalLine) (s : Scan) : Prop where
  collected : s.collected = seen.filter p
  scanned : s.scanned = seen.length

variable (r wanted budget lookingFor name names) in
/-- **What a scan makes of a file**: it sees the lines the budget has room for, if they are legible, and then it is left or
goes on. -/
theorem scanFiles_cons {s : Scan} (h : Saw (fun line => lookingFor.matchesFields line.fields) seen s)
    (hroom : seen.length < budget)
    (hopen : (seen.filter fun line => lookingFor.matchesFields line.fields).length < wanted) :
    ∃ s', Saw (fun line => lookingFor.matchesFields line.fields) ((r.linesIn name).rtake (budget - seen.length) ++ seen) s' ∧
      ∀ out, r.scanFiles wanted budget lookingFor (name :: names) s = .ok out ↔
        (∀ line ∈ (r.linesIn name).rtake (budget - seen.length), Legible r.loads line.raw) ∧
          if wanted ≤ s'.collected.length ∨ budget ≤ s'.scanned then out = ({ s' with reachedStart := false }, true)
          else r.scanFiles wanted budget lookingFor names s' = .ok out := by
  rw [← h.collected] at hopen
  rw [← h.scanned] at hroom ⊢
  cases hfile : r.logDir.lookup name with
  | none =>
    have hnone : r.linesIn name = [] := by
      unfold FileJournalReader.linesIn
      rw [hfile]
    refine ⟨s, ?_, ?_⟩
    · rw [hnone, List.rtake_nil, List.nil_append]
      exact h
    · intro out
      rw [FileJournalReader.scanFiles, hfile, hnone, List.rtake_nil,
        if_neg (not_or.mpr ⟨not_le.mpr hopen, not_le.mpr hroom⟩)]
      exact (and_iff_right fun line hline => absurd hline List.not_mem_nil).symm
  | some content =>
    have hleftover : 0 < budget - s.scanned := Nat.sub_pos_of_lt hroom
    refine ⟨⟨((r.linesIn name).rtake (budget - s.scanned)).filter (fun line => lookingFor.matchesFields line.fields) ++
      s.collected, s.filesRead ++ [name], (linesBackwards BLOCK (by decide) name content (budget - s.scanned)).2,
      s.scanned + (linesBackwards BLOCK (by decide) name content (budget - s.scanned)).1.length⟩, ⟨?_, ?_⟩, ?_⟩
    · rw [List.filter_append, h.collected]
    · rw [List.length_append, ← linesBackwards_shown hfile hleftover, List.length_map, ← h.scanned, Nat.add_comm]
    · intro out
      rw [FileJournalReader.scanFiles, hfile]
      dsimp only
      rw [if_neg (not_le.mpr hroom)]
      cases hlines : (linesBackwards BLOCK (by decide) name content (budget - s.scanned)).1.mapM
        fun raw => parse r.loads raw name with
      | error e =>
        refine ⟨nofun, ?_⟩
        rintro ⟨hall, -⟩
        cases hlines.symm.trans ((mapM_linesBackwards hfile hleftover).mpr ⟨hall, rfl⟩)
      | ok lines =>
        obtain ⟨hall, rfl⟩ := (mapM_linesBackwards hfile hleftover).mp hlines
        rw [and_iff_right hall]
        dsimp only
        split
        · exact ⟨fun hout => (Except.ok.inj hout).symm, fun hout => congrArg Except.ok hout.symm⟩
        · exact Iff.rfl

/-- A scan that goes on has seen the whole file. -/
theorem rtake_of_room {lines : List JournalLine} (h : (lines.rtake (budget - seen.length) ++ seen).length < budget) :
    lines.rtake (budget - seen.length) = lines := by
  have hlength := length_rtake lines (budget - seen.length)
  rw [List.length_append] at h
  exact rtake_of_length_le _ (by omega)

variable (r wanted lookingFor) in
/-- A scan goes on from what was seen before, through every file it is given. -/
theorem scanFiles_scanned (names : List String) {s : Scan} (seen : List JournalLine) {out : Scan × Bool}
    (hout : r.scanFiles wanted budget lookingFor names s = .ok out)
    (hs : Saw (fun line => lookingFor.matchesFields line.fields) seen s) (hroom : seen.length < budget)
    (hopen : (seen.filter fun line => lookingFor.matchesFields line.fields).length < wanted) :
    ∃ seen', Scanned (fun line => lookingFor.matchesFields line.fields) wanted budget (r.journalLines names ++ seen) seen'
      out := by
  induction names generalizing s seen with
  | nil =>
    cases hout
    exact ⟨seen, ⟨[], rfl⟩, hs.collected, hs.scanned, hroom.le, nofun, fun _ => rfl⟩
  | cons name names ih =>
    have hall : r.journalLines (name :: names) ++ seen = r.journalLines names ++ (r.linesIn name ++ seen) :=
      List.append_assoc ..
    obtain ⟨s', hs', hcons⟩ := scanFiles_cons r wanted budget lookingFor names name hs hroom hopen
    have hout := ((hcons out).mp hout).2
    split at hout
    · rename_i hfull
      subst hout
      obtain ⟨front, hfront⟩ := exists_append_rtake (r.linesIn name) (budget - seen.length)
      have hmost := length_rtake (r.linesIn name) (budget - seen.length)
      have hwithin : ((r.linesIn name).rtake (budget - seen.length) ++ seen).length ≤ budget := by
        rw [List.length_append]
        omega
      refine ⟨(r.linesIn name).rtake (budget - seen.length) ++ seen, ⟨r.journalLines names ++ front, ?_⟩, hs'.collected,
        hs'.scanned, hwithin, ?_, nofun⟩
      · rw [hall, List.append_assoc, ← List.append_assoc front, ← hfront]
      · intro _
        exact ⟨hfull.imp_right fun hspent => hwithin.antisymm (hs'.scanned ▸ hspent), rfl⟩
    · rename_i hmore
      obtain ⟨hnotfull, hleft⟩ := not_or.mp hmore
      rw [hs'.scanned] at hleft
      rw [hs'.collected] at hnotfull
      rw [rtake_of_room (not_le.mp hleft)] at hs' hnotfull hleft
      rw [hall]
      exact ih _ hout hs' (not_le.mp hleft) (not_le.mp hnotfull)

variable (r) in
/-- **A scan comes to an end exactly if what it looks at is legible.** -/
theorem scanFiles_ok_iff (names : List String) {s : Scan} (seen : List JournalLine)
    (hs : Saw (fun line => lookingFor.matchesFields line.fields) seen s) (hroom : seen.length < budget)
    (hopen : (seen.filter fun line => lookingFor.matchesFields line.fields).length < wanted) :
    (∃ out, r.scanFiles wanted budget lookingFor names s = .ok out) ↔ r.LegibleUpTo wanted budget lookingFor names seen := by
  induction names generalizing s seen with
  | nil => exact ⟨fun _ newer name older h => absurd h (by simp), fun _ => ⟨_, rfl⟩⟩
  | cons name names ih =>
    obtain ⟨s', hs', hcons⟩ := scanFiles_cons r wanted budget lookingFor names name hs hroom hopen
    simp only [hcons, exists_and_left]
    rw [FileJournalReader.LegibleUpTo.cons_iff]
    have hfirst : (seen.length < budget → (seen.filter fun line => lookingFor.matchesFields line.fields).length < wanted →
        ∀ line ∈ (r.linesIn name).rtake (budget - seen.length), Legible r.loads line.raw) ↔
          ∀ line ∈ (r.linesIn name).rtake (budget - seen.length), Legible r.loads line.raw :=
      ⟨fun h => h hroom hopen, fun h _ _ => h⟩
    rw [hfirst]
    refine and_congr_right fun _ => ?_
    split
    · rename_i hfull
      refine ⟨fun _ => FileJournalReader.LegibleUpTo.of_full ?_, fun _ => ⟨_, rfl⟩⟩
      have hsub : ((r.linesIn name).rtake (budget - seen.length) ++ seen).Sublist (r.linesIn name ++ seen) :=
        (List.drop_sublist _ _).append_right seen
      rcases hfull with hfull | hspent
      · exact .inr ((hs'.collected ▸ hfull).trans (hsub.filter _).length_le)
      · exact .inl ((hs'.scanned ▸ hspent).trans hsub.length_le)
    · rename_i hmore
      obtain ⟨hnotfull, hleft⟩ := not_or.mp hmore
      rw [hs'.scanned] at hleft
      rw [hs'.collected] at hnotfull
      rw [rtake_of_room (not_le.mp hleft)] at hs' hnotfull hleft
      exact ih _ hs' (not_le.mp hleft) (not_le.mp hnotfull)

/-- What has been collected holds the newest lines of the budget that answer the filter. -/
theorem Scanned.page {p : JournalLine → Bool} {all seen : List JournalLine} {out : Scan × Bool}
    (h : Scanned p wanted budget all seen out) :
    out.1.collected.rtake wanted = ((all.rtake budget).filter p).rtake wanted := by
  obtain ⟨front, hfront⟩ := h.newest
  have hbudget : all.rtake budget = front.rtake (budget - seen.length) ++ seen := by
    rw [hfront, rtake_append _ _ h.within]
  cases hleft : out.2 with
  | false => rw [h.collected, h.ended hleft, rtake_of_length_le all (h.ended hleft ▸ h.within)]
  | true =>
    rcases (h.left hleft).1 with hfull | hspent
    · rw [hbudget, List.filter_append, rtake_append_right _ _ (h.collected ▸ hfull), h.collected]
    · rw [hbudget, hspent, Nat.sub_self, List.rtake_zero, List.nil_append, h.collected]

end Scan

/-! ## Pages -/

/-- Two steps come to an end if both do. -/
theorem bind_eq_ok {ε α β : Type} {x : Except ε α} {f : α → Except ε β} {b : β} :
    (x >>= f) = .ok b ↔ ∃ a, x = .ok a ∧ f a = .ok b := by
  cases x with
  | error e => exact ⟨nofun, by rintro ⟨a, ⟨⟩, -⟩⟩
  | ok a => exact ⟨fun h => ⟨a, rfl, h⟩, by rintro ⟨_, ⟨⟩, h⟩; exact h⟩

namespace FileJournalReader

variable (r : FileJournalReader)

/-- The live file, and its archives if they are asked for. -/
def filesAsked (journal : Journal) (includeArchives : Bool) : List String :=
  r.pathOf journal :: if includeArchives then r.archives journal else []

/-- **What a page says**: the newest lines of a budget that answer the filter, how many were looked at, and that the start
was reached only if that was all there is. -/
structure Reads (journal : Journal) (includeArchives : Bool) (lookingFor : JournalFilter) (wanted budget : Nat)
    (page : JournalPage) : Prop where
  lines : page.lines = (((r.journalLines (r.filesAsked journal includeArchives)).rtake budget).filter
    fun line => lookingFor.matchesFields line.fields).rtake wanted
  scanned : page.totalScanned ≤ budget
  start : page.reachedStart = true →
    r.journalLines (r.filesAsked journal includeArchives) = r.journalLines (r.filesAsked journal true) ∧
      page.totalScanned = (r.journalLines (r.filesAsked journal true)).length

variable (journal : Journal) (limit : Int) (includeArchives : Bool) (where_ : Option JournalFilter) (deep : Bool)

/-- **What a page takes is legible.** A read without a filter whose newest lines all answer looks at no more than those;
every other looks at the newest lines of the whole budget, up to the file that fills the page. -/
def PageLegible : Prop :=
  let wanted := (min limit HARD_LIMIT).toNat
  let lookingFor := where_.getD JournalFilter.empty
  let files := r.filesAsked journal includeArchives
  let answers := ((r.journalLines files).rtake wanted).filter fun line => lookingFor.matchesFields line.fields
  r.LegibleUpTo wanted (if isPlain where_ = true ∧ wanted ≤ answers.length then wanted else SCAN_LIMIT) lookingFor files []

/-- Nothing is left out if there are no archives, or if they are asked for. -/
theorem filesAsked_eq (h : includeArchives = true ∨ r.archives journal = []) :
    r.filesAsked journal includeArchives = r.filesAsked journal true := by
  rcases h with rfl | hnone
  · rfl
  · unfold filesAsked
    rw [hnone, ite_self, ite_self]

/-- How far a read may look. -/
def budgetOf : Nat := if deep || !isPlain where_ then SCAN_LIMIT else (min limit HARD_LIMIT).toNat

theorem budgetOf_pos (hpositive : (min limit HARD_LIMIT).toNat ≠ 0) : 0 < budgetOf limit where_ deep := by
  unfold budgetOf
  split
  · decide
  · omega

theorem budgetOf_plain (h : isPlain where_ = true) : budgetOf limit where_ false = (min limit HARD_LIMIT).toNat := by
  unfold budgetOf
  rw [h]
  rfl

theorem budgetOf_filtered (h : isPlain where_ = false) : budgetOf limit where_ false = SCAN_LIMIT := by
  unfold budgetOf
  rw [h]
  rfl

theorem wanted_le_SCAN_LIMIT : (min limit HARD_LIMIT).toNat ≤ SCAN_LIMIT := by
  unfold HARD_LIMIT SCAN_LIMIT
  omega

variable {page : JournalPage}

theorem tailOnce_reads (h : r.tailOnce journal limit includeArchives where_ deep = .ok page) :
    r.Reads journal includeArchives (where_.getD JournalFilter.empty) (min limit HARD_LIMIT).toNat
      (budgetOf limit where_ deep) page := by
  unfold tailOnce at h
  dsimp only at h
  rw [← budgetOf, ← filesAsked] at h
  split at h
  · rename_i hzero
    cases h
    refine ⟨?_, Nat.zero_le _, nofun⟩
    rw [hzero, List.rtake_zero]
  · rename_i hpositive
    obtain ⟨⟨s, left⟩, hscan, h⟩ := bind_eq_ok.mp h
    cases h
    obtain ⟨seen, hseen⟩ := scanFiles_scanned r (min limit HARD_LIMIT).toNat (where_.getD JournalFilter.empty)
      (r.filesAsked journal includeArchives) [] hscan ⟨rfl, rfl⟩ (budgetOf_pos limit where_ deep hpositive)
      (Nat.pos_of_ne_zero hpositive)
    rw [List.append_nil] at hseen
    refine ⟨hseen.page, hseen.scanned ▸ hseen.within, ?_⟩
    intro hstart
    dsimp only at hstart
    split at hstart
    · rename_i hleft
      exact absurd ((hseen.left hleft).2.symm.trans hstart) Bool.false_ne_true
    · rename_i hend
      have hall := r.filesAsked_eq journal includeArchives ?_
      · refine ⟨congrArg r.journalLines hall, ?_⟩
        rw [← hall, ← hseen.ended (Bool.eq_false_iff.mpr hend)]
        exact hseen.scanned
      · split at hstart
        · rename_i hnothing
          exact .inr hnothing.2
        · simpa using (Bool.and_eq_true_iff.mp hstart).2

/-- One read comes to an end exactly if what its budget looks at is legible. -/
theorem tailOnce_ok_iff : (∃ page, r.tailOnce journal limit includeArchives where_ deep = .ok page) ↔
    r.LegibleUpTo (min limit HARD_LIMIT).toNat (budgetOf limit where_ deep) (where_.getD JournalFilter.empty)
      (r.filesAsked journal includeArchives) [] := by
  unfold tailOnce
  dsimp only
  rw [← budgetOf, ← filesAsked]
  split
  · rename_i hzero
    exact ⟨fun _ => .of_full (.inr (by rw [hzero]; exact Nat.zero_le _)), fun _ => ⟨_, rfl⟩⟩
  · rename_i hpositive
    rw [← scanFiles_ok_iff r (r.filesAsked journal includeArchives) (s := ⟨[], [], false, 0⟩) [] ⟨rfl, rfl⟩
      (budgetOf_pos limit where_ deep hpositive) (Nat.pos_of_ne_zero hpositive)]
    constructor
    · rintro ⟨page, hpage⟩
      obtain ⟨out, hout, -⟩ := bind_eq_ok.mp hpage
      exact ⟨out, hout⟩
    · rintro ⟨⟨s, left⟩, hout⟩
      rw [hout]
      exact ⟨_, rfl⟩

variable {journal limit includeArchives where_}

/-- A page is short if the newest lines do not all answer. -/
theorem Reads.short_iff {lookingFor : JournalFilter} {wanted budget : Nat}
    (h : r.Reads journal includeArchives lookingFor wanted budget page) :
    page.lines.length < wanted ↔ (((r.journalLines (r.filesAsked journal includeArchives)).rtake budget).filter
      fun line => lookingFor.matchesFields line.fields).length < wanted := by
  rw [h.lines, length_rtake]
  omega

/-- A page whose start was reached has room for everything. -/
theorem Reads.length_le {lookingFor : JournalFilter} {wanted budget : Nat}
    (h : r.Reads journal includeArchives lookingFor wanted budget page) (hstart : page.reachedStart = true) :
    (r.journalLines (r.filesAsked journal includeArchives)).length ≤ budget := by
  obtain ⟨hsame, hall⟩ := h.start hstart
  rw [hsame, ← hall]
  exact h.scanned

/-- What is read is the newest lines that answer. -/
theorem tail_reads (h : r.tail journal limit includeArchives where_ = .ok page) :
    r.Reads journal includeArchives (where_.getD JournalFilter.empty) (min limit HARD_LIMIT).toNat SCAN_LIMIT page := by
  obtain ⟨first, hfirst, h⟩ := bind_eq_ok.mp h
  have honce := r.tailOnce_reads journal limit includeArchives where_ false hfirst
  have hwanted := wanted_le_SCAN_LIMIT limit
  split at h
  · exact r.tailOnce_reads journal limit includeArchives where_ true h
  · rename_i hkeep
    cases h
    cases hplain : isPlain where_ with
    | false =>
      rw [budgetOf_filtered limit where_ hplain] at honce
      exact honce
    | true =>
      rw [budgetOf_plain limit where_ hplain] at honce
      refine ⟨?_, honce.scanned.trans hwanted, honce.start⟩
      rw [honce.lines]
      by_cases hfull : page.lines.length < (min limit HARD_LIMIT).toNat
      · -- The page is short although its start was reached: there is no more to look at.
        have hstart : page.reachedStart = true := by
          by_contra hnot
          exact hkeep ⟨hfull, Bool.eq_false_iff.mpr hnot, hplain⟩
        have hshort := honce.length_le r hstart
        rw [rtake_of_length_le _ hshort, rtake_of_length_le _ (hshort.trans hwanted)]
      · -- The page is full: looking further would only put lines in front of it.
        obtain ⟨front, hfront⟩ := exists_append_rtake
          ((r.journalLines (r.filesAsked journal includeArchives)).rtake SCAN_LIMIT) (min limit HARD_LIMIT).toNat
        rw [rtake_rtake _ hwanted] at hfront
        rw [hfront, List.filter_append, rtake_append_right]
        exact not_lt.mp fun hfew => hfull ((honce.short_iff r).mpr hfew)

variable (journal limit includeArchives where_)

/-- **There is a page exactly if what it takes is legible.** -/
theorem tail_ok_iff : (∃ page, r.tail journal limit includeArchives where_ = .ok page) ↔
    r.PageLegible journal limit includeArchives where_ := by
  have hwanted := wanted_le_SCAN_LIMIT limit
  have hfirst_iff := r.tailOnce_ok_iff journal limit includeArchives where_ false
  have hdeep_iff := r.tailOnce_ok_iff journal limit includeArchives where_ true
  unfold tail PageLegible
  dsimp only
  cases hfirst : r.tailOnce journal limit includeArchives where_ false with
  | error e =>
    rw [hfirst] at hfirst_iff
    constructor
    · rintro ⟨page, ⟨⟩⟩
    · intro hlegible
      have hbefore : r.LegibleUpTo (min limit HARD_LIMIT).toNat (budgetOf limit where_ false)
          (where_.getD JournalFilter.empty) (r.filesAsked journal includeArchives) [] := by
        refine hlegible.of_le ?_
        cases hplain : isPlain where_ with
        | false =>
          rw [budgetOf_filtered limit where_ hplain, if_neg fun hboth => Bool.false_ne_true hboth.1]
        | true =>
          rw [budgetOf_plain limit where_ hplain]
          split <;> omega
      obtain ⟨page, ⟨⟩⟩ := hfirst_iff.mpr hbefore
  | ok page =>
    rw [hfirst] at hfirst_iff
    have hlegible := hfirst_iff.mp ⟨page, rfl⟩
    have honce := r.tailOnce_reads journal limit includeArchives where_ false hfirst
    change (∃ p, ite _ _ _ = Except.ok p) ↔ _
    split
    · -- The page is short, and the read goes on to the whole budget.
      rename_i hshort
      obtain ⟨hshort, -, hplain⟩ := hshort
      rw [budgetOf_plain limit where_ hplain] at honce
      have hfew := (honce.short_iff r).mp hshort
      rw [hdeep_iff, if_neg fun hboth => absurd hfew (not_lt.mpr hboth.2)]
      rfl
    · rename_i hkeep
      refine ⟨fun _ => ?_, fun _ => ⟨page, rfl⟩⟩
      cases hplain : isPlain where_ with
      | false =>
        rw [budgetOf_filtered limit where_ hplain] at hlegible
        rw [if_neg fun hboth => Bool.false_ne_true hboth.1]
        exact hlegible
      | true =>
        rw [budgetOf_plain limit where_ hplain] at hlegible honce
        split
        · exact hlegible
        · rename_i hfew
          have hshort := (honce.short_iff r).mpr (not_le.mp fun hmany => hfew ⟨rfl, hmany⟩)
          have hstart : page.reachedStart = true := by
            by_contra hnot
            exact hkeep ⟨hshort, Bool.eq_false_iff.mpr hnot, hplain⟩
          exact hlegible.of_length_le (honce.length_le r hstart)

/-- A parser that gives up on a line that begins with ten thousand brackets. -/
def shallowLoads (raw : String) : Except LoadError Loaded :=
  if 10000 ≤ (raw.toList.takeWhile (· = '[')).length then .error (.other "RecursionError") else .error .valueError

/-- A journal of one line, which is nothing but brackets. -/
def bracketsOnly (n : Nat) : FileJournalReader where
  logDir := ⟨[("audit.log", List.replicate n 0x5B)], List.nodup_singleton _⟩
  fileNames _ := "audit"
  loads := shallowLoads
  decimal c := if c.isDigit then some (c.toNat - 48) else none

theorem fileLines_brackets {n : Nat} (h : 0 < n) :
    fileLines (List.replicate n 0x5B) = [String.ofList (List.replicate n '[')] := by
  have hfree : newline ∉ List.replicate n (0x5B : UInt8) := fun hmem => absurd (List.eq_of_mem_replicate hmem) (by decide)
  have hsome : List.replicate n (0x5B : UInt8) ≠ [] := fun hnil => by simp_all
  have hdecode : decode (List.replicate n 0x5B) = List.replicate n '[' := by
    clear h hfree hsome
    induction n with
    | zero => rfl
    | succ n ih =>
      have hone := decode_append (b := 0x5B) (by decide) [] (List.replicate n 0x5B)
      rw [List.nil_append, ih] at hone
      exact hone
  unfold fileLines
  rw [lines_free hfree, if_neg hsome, List.map_singleton, List.map_singleton, hdecode]

theorem not_pageLegible_brackets {n : Nat} (h : 10000 ≤ n) : ¬ (bracketsOnly n).PageLegible .audit 50 false none := by
  intro hlegible
  have hline : (bracketsOnly n).linesIn "audit.log" =
      [shown shallowLoads (String.ofList (List.replicate n '[')) "audit.log"] := by
    have hlookup : (bracketsOnly n).logDir.lookup "audit.log" = some (List.replicate n 0x5B) := rfl
    unfold linesIn
    rw [hlookup]
    dsimp only
    rw [fileLines_brackets (by omega)]
    rfl
  have hone : (bracketsOnly n).LegibleUpTo (min 50 (HARD_LIMIT : Int)).toNat 1 JournalFilter.empty ["audit.log"] [] := by
    refine LegibleUpTo.of_le ?_ hlegible
    split <;> decide
  have hall := hone [] "audit.log" [] rfl Nat.zero_lt_one (show 0 < (min 50 (HARD_LIMIT : Int)).toNat by decide)
  rw [hline, rtake_of_length_le _ (Nat.le_refl 1), List.forall_mem_singleton, shown_raw] at hall
  refine hall "RecursionError" (if_pos ?_)
  rw [String.toList_ofList, List.takeWhile_replicate]
  simpa using h

end FileJournalReader

end LinkShortener.Journals
