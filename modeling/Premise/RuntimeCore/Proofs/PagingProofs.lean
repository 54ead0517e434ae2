import Premise.RuntimeCore.Proofs.AppendProofs

/-!
# Proofs: reading in pages

Both journals read the same entries, and the pages from a cursor on are the entries after it.
-/

namespace Premise.RuntimeCore

open Collections Control Js Protocol FileJournal

variable {dateParses : String → Bool} {entry : RuntimeJournalEntry}
variable {entries : List RuntimeJournalEntry} {read : Reader}

def memoryOf (entries : List RuntimeJournalEntry) : InMemoryJournal :=
  { entries := entries
    eventCursors := indexOf entries
    nextCursorValue := entries.length + 1 }

theorem append_both (h : Recorded dateParses entries) (call : JournalCall) : ∃ entries', Recorded dateParses entries' ∧
      ((journalOf entries).append dateParses .done call).2 = journalOf entries' ∧
      ((memoryOf entries).append dateParses call).2 = memoryOf entries' := by
  rcases append_outcome dateParses (indexOf entries) (entries.length + 1) call with
    ⟨err, hfile, hmemory⟩ | ⟨event, previous, -, -, -, hfile, hmemory⟩ | ⟨hwrite, hfile, hmemory⟩
  · refine ⟨entries, h, ?_, ?_⟩
    · rw [hfile (journalOf entries) .done rfl rfl]
    · rw [hmemory (memoryOf entries) rfl rfl]
  · refine ⟨entries, h, ?_, ?_⟩
    · rw [hfile (journalOf entries) .done rfl rfl]
    · rw [hmemory (memoryOf entries) rfl rfl]
  · have hsound := Outcome.sound (hwrite (journalOf entries) rfl rfl)
    refine ⟨_, h.concat hsound (cursor_entry _ _), ?_, ?_⟩
    · rw [hfile (journalOf entries) .done rfl rfl]
      unfold journalOf
      rw [indexOf_append, fileOf_append, fileOf_singleton, List.length_append]
      rfl
    · rw [hmemory (memoryOf entries) rfl rfl]
      unfold memoryOf
      rw [indexOf_append, List.length_append]
      rfl

theorem appendAll_both (h : Recorded dateParses entries) (calls : List JournalCall) :
    ∃ entries', Recorded dateParses entries' ∧ appendAll dateParses (journalOf entries, memoryOf entries) calls
        = (journalOf entries', memoryOf entries') := by
  induction calls generalizing entries with
  | nil => exact ⟨entries, h, rfl⟩
  | cons call calls ih =>
    obtain ⟨entries', hrecorded, hfile, hmemory⟩ := append_both h call
    obtain ⟨entries'', hlast, heq⟩ := ih hrecorded
    refine ⟨entries'', hlast, ?_⟩
    rw [appendAll, hfile, hmemory]
    exact heq

def Yields (read : Reader) (entries : List RuntimeJournalEntry) : Prop :=
  ∀ cursor tenantId maxEntries, maxEntries ≠ some 0 →
    read cursor tenantId maxEntries =
      .ok (atMost maxEntries (entries.filter (fun entry => entry.selected cursor tenantId)))

theorem yields_file (h : Recorded dateParses entries) : Yields ((journalOf entries).reader dateParses) entries :=
  fun cursor tenantId _ hmax => readEntries_entries h.sound 0 cursor tenantId hmax

theorem yields_memory (entries : List RuntimeJournalEntry) : Yields (memoryOf entries).reader entries := by
  intro cursor tenantId maxEntries _
  cases maxEntries <;> rfl

variable {options : RuntimeJournalReadOptions} {tenantId : Option String}

theorem readOptions_ok {limit : Option Nat} (h : readOptions options = .ok (tenantId, limit)) :
    tenantId = options.tenantId ∧ (limit = none → options.limit.isNone = true) ∧
      ∀ n, limit = some n → 0 < n ∧ (n : Int) ≤ maxSafeInteger ∧ options.limit.isSome = true := by
  obtain ⟨tenant, limit'⟩ := options
  unfold readOptions at h
  obtain ⟨checked, hchecked, h⟩ := of_bind_ok h
  have htenant : checked = tenant := by
    cases tenant with
    | none => exact (Except.ok.inj hchecked).symm
    | some t =>
      obtain ⟨s, hs, hsome⟩ := of_bind_ok hchecked
      obtain rfl := assertNonEmpty_string hs
      exact (Except.ok.inj hsome).symm
  cases limit' with
  | none =>
    cases h
    exact ⟨htenant, fun _ => rfl, nofun⟩
  | some q =>
    dsimp only at h
    split_ifs at h with hq
    · cases h
      refine ⟨htenant, nofun, fun n hn => ?_⟩
      cases hn
      obtain ⟨-, hsafe, hpos⟩ := hq
      unfold isSafeInteger at hsafe
      rw [Bool.and_eq_true, decide_eq_true_eq, decide_eq_true_eq] at hsafe
      exact ⟨by omega, by omega, rfl⟩

theorem Yields.same {read' : Reader} (h : Yields read entries) (h' : Yields read' entries)
    (cursor : ℚ) (options : RuntimeJournalReadOptions) :
    read.readFrom cursor options = read'.readFrom cursor options ∧
      read.readPage cursor options = read'.readPage cursor options := by
  unfold Reader.readFrom Reader.readPage
  cases checkedCursor cursor with
  | error e => exact ⟨rfl, rfl⟩
  | ok n =>
    cases hoptions : readOptions options with
    | error e =>
      refine ⟨rfl, ?_⟩
      dsimp only [bind, Except.bind]
    | ok checked =>
      obtain ⟨tenantId, limit⟩ := checked
      obtain ⟨-, -, hlimit⟩ := readOptions_ok hoptions
      have hmax : limit ≠ some 0 := fun hzero => absurd (hlimit 0 hzero).1 (by decide)
      have hscan : (some (if ((limit.getD 0 : Nat) : Int) = maxSafeInteger then limit.getD 0
          else limit.getD 0 + 1) : Option Nat) ≠ some 0 := by
        intro hzero
        have hzero := Option.some.inj hzero
        split_ifs at hzero with hmaximum
        rw [hzero] at hmaximum
        exact absurd hmaximum (by decide)
      refine ⟨?_, ?_⟩
      · dsimp only [bind, Except.bind]
        rw [h _ _ _ hmax, h' _ _ _ hmax]
      · dsimp only [bind, Except.bind]
        rw [h _ _ _ hscan, h' _ _ _ hscan]

/-! ## Pages -/

def after (entries : List RuntimeJournalEntry) (tenantId : Option String) (cursor : Nat) :
    List RuntimeJournalEntry :=
  entries.filter (fun entry => entry.selected cursor tenantId)

theorem Recorded.increasing (h : Recorded dateParses entries) : entries.Pairwise (fun e e' => e.cursor < e'.cursor) := by
  refine List.pairwise_iff_getElem.mpr fun i j hi hj hij => ?_
  rw [h.cursors i _ (List.getElem?_eq_getElem hi), h.cursors j _ (List.getElem?_eq_getElem hj)]
  omega

theorem RuntimeJournalEntry.Sound.safe (h : entry.Sound dateParses) : (entry.cursor : Int) ≤ maxSafeInteger := by
  have hchecked := h.checked
  unfold checkedEntry at hchecked
  have hcursor : ∃ n, assertCursor (some (.number (entry.cursor : ℚ))) "cursor" = .ok n := by
    cases entry with
    | event n tenantId value =>
      obtain ⟨m, hm, -⟩ := of_bind_ok hchecked
      exact ⟨m, hm⟩
    | decision n tenantId occurredAt value =>
      obtain ⟨m, hm, -⟩ := of_bind_ok hchecked
      exact ⟨m, hm⟩
  obtain ⟨n, hn⟩ := hcursor
  unfold assertCursor at hn
  dsimp only at hn
  split_ifs at hn with hsafe
  obtain ⟨-, hsafe, -⟩ := hsafe
  unfold isSafeInteger at hsafe
  rw [Bool.and_eq_true, decide_eq_true_eq, decide_eq_true_eq, Rat.num_natCast] at hsafe
  exact hsafe.2

theorem Recorded.length_le (h : Recorded dateParses entries) : (entries.length : Int) ≤ maxSafeInteger := by
  rcases Nat.eq_zero_or_pos entries.length with hzero | hpos
  · rw [hzero]
    decide
  · obtain ⟨last, hlast⟩ : ∃ last, entries[entries.length - 1]? = some last :=
      ⟨_, List.getElem?_eq_getElem (by omega)⟩
    have hcursor := h.cursors _ _ hlast
    have hsafe := (h.sound last (List.mem_of_getElem? hlast)).safe
    rw [hcursor] at hsafe
    omega

variable {n : Nat}

theorem checkedCursor_natCast {m : Nat} : checkedCursor (n : ℚ) = .ok m ↔ m = n ∧ (n : Int) ≤ maxSafeInteger := by
  have hlow : -maxSafeInteger ≤ (n : Int) := by
    have hnonneg : -maxSafeInteger ≤ 0 := by decide
    omega
  unfold checkedCursor assertCursor isSafeInteger
  dsimp only
  rw [Rat.num_natCast, Rat.den_natCast, decide_eq_true hlow, Bool.true_and, Int.toNat_natCast]
  constructor
  · intro h
    split_ifs at h with hsafe
    exact ⟨(Except.ok.inj h).symm, of_decide_eq_true hsafe.2.1⟩
  · rintro ⟨rfl, hsafe⟩
    exact if_pos ⟨rfl, decide_eq_true hsafe, Int.natCast_nonneg _⟩

theorem readPage_eq (h : Recorded dateParses entries) (hyields : Yields read entries) {cursor : Nat}
    (hcursor : (cursor : Int) ≤ maxSafeInteger) (hoptions : readOptions options = .ok (tenantId, some n)) :
    read.readPage cursor options = .ok
      { entries := ((after entries tenantId cursor).take n).map RuntimeJournalEntry.toJson
        nextCursor := (((after entries tenantId cursor).take n).getLast?.map
          RuntimeJournalEntry.cursor).getD cursor
        hasMore := decide (n < (after entries tenantId cursor).length) } := by
  obtain ⟨-, -, hlimit⟩ := readOptions_ok hoptions
  obtain ⟨hpos, hmax, hsome⟩ := hlimit n rfl
  have hlength : ((after entries tenantId cursor).length : Int) ≤ maxSafeInteger := by
    have hle : (after entries tenantId cursor).length ≤ entries.length := List.length_filter_le _ _
    have htotal := h.length_le
    omega
  have hread := hyields cursor tenantId
    (some (if (n : Int) = maxSafeInteger then n else n + 1)) (by
      intro hzero
      have hzero := Option.some.inj hzero
      split_ifs at hzero
      omega)
  have hnone : options.limit.isNone = false := by
    rw [Option.isNone_eq_false_iff]
    exact hsome
  unfold Reader.readPage
  rw [checkedCursor_natCast.mpr ⟨rfl, hcursor⟩, hnone, hoptions]
  dsimp only [bind, Except.bind, Option.getD_some]
  rw [if_neg Bool.false_ne_true, hread]
  dsimp only [atMost]
  have hselected : ∀ l : List RuntimeJournalEntry, (∀ e ∈ l, e ∈ entries) →
      l.mapM (fun entry => clone entry.toJson) = Except.ok (l.map RuntimeJournalEntry.toJson) :=
    fun l hl => clones_entries (fun e he => h.sound e (hl e he))
  have hmem : ∀ e ∈ after entries tenantId cursor, e ∈ entries := fun e he => (List.mem_filter.mp he).1
  -- Whether there are more entries, and which ones the page has.
  have hpage : ∀ scan, scan = (if (n : Int) = maxSafeInteger then n else n + 1) →
      decide (n < ((after entries tenantId cursor).take scan).length)
        = decide (n < (after entries tenantId cursor).length) ∧
      (if decide (n < ((after entries tenantId cursor).take scan).length) = true
        then ((after entries tenantId cursor).take scan).take n
        else (after entries tenantId cursor).take scan) = (after entries tenantId cursor).take n := by
    rintro scan rfl
    split_ifs with hmaximum hmore hmore
    · rw [decide_eq_true_eq, List.length_take] at hmore
      omega
    · rw [List.length_take]
      refine ⟨decide_eq_decide.mpr ⟨fun hlt => ?_, fun hlt => ?_⟩, rfl⟩ <;> omega
    · rw [decide_eq_true_eq, List.length_take] at hmore
      rw [List.length_take, List.take_take]
      refine ⟨decide_eq_decide.mpr ⟨fun hlt => ?_, fun hlt => ?_⟩, ?_⟩
      · omega
      · omega
      · rw [Nat.min_eq_left (by omega)]
    · rw [decide_eq_true_eq, List.length_take] at hmore
      rw [List.length_take]
      refine ⟨decide_eq_decide.mpr ⟨fun hlt => ?_, fun hlt => ?_⟩, ?_⟩
      · omega
      · omega
      · rw [List.take_of_length_le (by omega), List.take_of_length_le (by omega)]
  obtain ⟨hmore, hentries⟩ := hpage _ rfl
  have hafter : (entries.filter (fun entry => entry.selected cursor tenantId))
      = after entries tenantId cursor := rfl
  rw [hafter, hentries, hmore, hselected _ (fun e he => hmem e (List.mem_of_mem_take he))]
  rfl

theorem filter_larger {α : Type} (f : α → Nat) {l : List α} (h : l.Pairwise (fun a b => f a < f b)) {x : α}
    (hx : l[n]? = some x) :
    l.filter (fun a => decide (f x < f a)) = l.drop (n + 1) := by
  induction l generalizing n with
  | nil => cases hx
  | cons a l ih =>
    obtain ⟨hfirst, hrest⟩ := List.pairwise_cons.mp h
    cases n with
    | zero =>
      cases hx
      rw [List.filter_cons, decide_eq_false (lt_irrefl _), if_neg Bool.false_ne_true]
      exact List.filter_eq_self.mpr fun b hb => decide_eq_true (hfirst b hb)
    | succ n =>
      have hsmaller : ¬ f x < f a :=
        (hfirst x (List.mem_of_getElem? hx)).le.not_gt
      rw [List.filter_cons, decide_eq_false hsmaller, if_neg Bool.false_ne_true]
      exact ih hrest hx

theorem after_next (h : Recorded dateParses entries) {cursor : Nat} (hpos : 0 < n)
    (hmore : n < (after entries tenantId cursor).length) :
    ∃ next, (((after entries tenantId cursor).take n).getLast?.map
        RuntimeJournalEntry.cursor).getD cursor = next ∧ (next : Int) ≤ maxSafeInteger ∧
      after entries tenantId next = (after entries tenantId cursor).drop n := by
  have hincreasing : (after entries tenantId cursor).Pairwise (fun e e' => e.cursor < e'.cursor) :=
    h.increasing.filter _
  obtain ⟨last, hget⟩ : ∃ last, (after entries tenantId cursor)[n - 1]? = some last :=
    ⟨_, List.getElem?_eq_getElem (by omega)⟩
  have hlast : ((after entries tenantId cursor).take n).getLast? = some last := by
    rw [List.getLast?_eq_getElem?, List.length_take, Nat.min_eq_left (by omega), List.getElem?_take_of_lt (by omega), hget]
  obtain ⟨hmem, hselected⟩ := List.mem_filter.mp (List.mem_of_getElem? hget)
  refine ⟨last.cursor, by rw [hlast]; rfl, (h.sound last hmem).safe, ?_⟩
  have hlt : cursor < last.cursor := by
    unfold RuntimeJournalEntry.selected at hselected
    rw [Bool.and_eq_true, decide_eq_true_eq] at hselected
    exact hselected.1
  have hfilter : after entries tenantId last.cursor
      = (after entries tenantId cursor).filter (fun e => decide (last.cursor < e.cursor)) := by
    unfold after
    rw [List.filter_filter]
    refine List.filter_congr fun e _ => ?_
    unfold RuntimeJournalEntry.selected
    by_cases hnext : last.cursor < e.cursor
    · rw [decide_eq_true hnext, decide_eq_true (hlt.trans hnext)]
      rfl
    · rw [decide_eq_false hnext]
      rfl
  rw [hfilter, filter_larger RuntimeJournalEntry.cursor hincreasing hget, Nat.sub_add_cancel hpos]

section

variable (h : Recorded dateParses entries) (hyields : Yields read entries)
  (hoptions : readOptions options = .ok (tenantId, some n))
include h hyields hoptions

theorem pages_entries {cursor : Nat} {pages : List RuntimeJournalPage}
    (hpages : Pages read options cursor pages) (hcursor : (cursor : Int) ≤ maxSafeInteger) :
    pages.flatMap RuntimeJournalPage.entries
      = (after entries tenantId cursor).map RuntimeJournalEntry.toJson := by
  have hpos : 0 < n := ((readOptions_ok hoptions).2.2 n rfl).1
  induction hpages with
  | last hread hmore =>
    rw [readPage_eq h hyields hcursor hoptions] at hread
    cases hread
    rw [decide_eq_false_iff_not] at hmore
    rw [List.flatMap_singleton]
    rw [List.take_of_length_le (by omega)]
  | more hread hmore _ ih =>
    rw [readPage_eq h hyields hcursor hoptions] at hread
    cases hread
    rw [decide_eq_true_eq] at hmore
    obtain ⟨next, hnext, hsafe, hrest⟩ := after_next h hpos hmore
    rw [hnext, hrest] at ih
    rw [List.flatMap_cons, ih hsafe, ← List.map_append, List.take_append_drop]

theorem exists_pages (cursor : Nat)
    (hcursor : (cursor : Int) ≤ maxSafeInteger) : ∃ pages, Pages read options cursor pages := by
  have hpos : 0 < n := ((readOptions_ok hoptions).2.2 n rfl).1
  induction hlength : (after entries tenantId cursor).length using Nat.strong_induction_on generalizing cursor with
  | _ length ih =>
    have hread := readPage_eq h hyields hcursor hoptions
    by_cases hmore : n < (after entries tenantId cursor).length
    · obtain ⟨next, hnext, hsafe, hrest⟩ := after_next h hpos hmore
      obtain ⟨pages, hpages⟩ := ih (after entries tenantId next).length
        (by rw [hrest, List.length_drop]; omega) next hsafe rfl
      rw [hnext] at hread
      exact ⟨_, Pages.more hread (decide_eq_true hmore) hpages⟩
    · exact ⟨_, Pages.last hread (decide_eq_false hmore)⟩

end

/-- After the same calls, both journals read the same, and the pages from a cursor on are the entries after
    it, in order. -/
theorem journals_read_the_same (dateParses : String → Bool) (calls : List JournalCall) :
    ∃ file memory, appendAll dateParses ({ eventCursors := ∅, nextCursorValue := 1, file := [] }, {}) calls
        = (file, memory) ∧
      (∀ cursor options,
        (file.reader dateParses).readFrom cursor options = memory.reader.readFrom cursor options ∧
        (file.reader dateParses).readPage cursor options = memory.reader.readPage cursor options) ∧
      ∀ (cursor : Nat) options page, memory.reader.readPage cursor options = .ok page →
        (∃ pages, Pages memory.reader options cursor pages) ∧
        ∀ pages, Pages memory.reader options cursor pages →
          pages.flatMap RuntimeJournalPage.entries = (memory.entries.filter
            (fun entry => entry.selected cursor options.tenantId)).map RuntimeJournalEntry.toJson := by
  obtain ⟨entries, hrecorded, heq⟩ := @appendAll_both dateParses [] Recorded.nil calls
  refine ⟨journalOf entries, memoryOf entries, heq, ?_, ?_⟩
  · intro cursor options
    exact (yields_file hrecorded).same (yields_memory entries) cursor options
  · intro cursor options page hpage
    have hchecks : ∃ tenantId n, readOptions options = .ok (tenantId, some n) ∧
        (cursor : Int) ≤ maxSafeInteger := by
      unfold Reader.readPage at hpage
      obtain ⟨c, hcursor, hpage⟩ := of_bind_ok hpage
      split_ifs at hpage with hnone
      · cases hpage
      obtain ⟨⟨tenantId, limit⟩, hoptions, -⟩ := of_bind_ok hpage
      obtain ⟨-, hlimit, -⟩ := readOptions_ok hoptions
      cases limit with
      | none => exact absurd (hlimit rfl) hnone
      | some n => exact ⟨tenantId, n, hoptions, (checkedCursor_natCast.mp hcursor).2⟩
    obtain ⟨tenantId, n, hoptions, hcursor⟩ := hchecks
    have htenant := (readOptions_ok hoptions).1
    have hyields := yields_memory entries
    refine ⟨exists_pages hrecorded hyields hoptions cursor hcursor, fun pages hpages => ?_⟩
    rw [← htenant]
    exact pages_entries hrecorded hyields hoptions hpages hcursor

end Premise.RuntimeCore
