import Premise.Js.KeyOrder

/-!
# Torn texts

A text is scanned for its brackets outside strings, and for what follows a string. Every text that is
read as a document closes what it opens; the first part of the text of an object does not, whatever torn
texts come after it.
-/

namespace Premise.Js

open Collections

/-- Where a scan is: outside strings, in one, after a backslash, after the quote that ends one, or after a
    character that cannot follow a string. -/
inductive Mode
  | plain
  | quoted
  | escaped
  | ended
  | jammed
deriving DecidableEq

structure Scan where
  depth : Int
  mode : Mode
deriving DecidableEq

namespace Scan

def next (s : Scan) (c : Char) : Scan :=
  match s.mode with
  | .plain =>
    if c = '"' then ⟨s.depth, .quoted⟩
    else if c = '[' ∨ c = '{' then ⟨s.depth + 1, .plain⟩
    else if c = ']' ∨ c = '}' then ⟨s.depth - 1, .plain⟩
    else s
  | .quoted =>
    if c = '"' then ⟨s.depth, .ended⟩
    else if c = '\\' then ⟨s.depth, .escaped⟩
    else s
  | .escaped => ⟨s.depth, .quoted⟩
  | .ended =>
    if isJsonSpace c then s
    else if c = ',' ∨ c = ':' then ⟨s.depth, .plain⟩
    else if c = ']' ∨ c = '}' then ⟨s.depth - 1, .plain⟩
    else ⟨s.depth, .jammed⟩
  | .jammed => s

def after (s : Scan) (l : List Char) : Scan := l.foldl next s

@[simp] theorem after_nil (s : Scan) : s.after [] = s := rfl

@[simp] theorem after_cons (s : Scan) (c : Char) (l : List Char) :
    s.after (c :: l) = (s.next c).after l := rfl

@[simp] theorem after_append (s : Scan) (l m : List Char) : s.after (l ++ m) = (s.after l).after m :=
  List.foldl_append

end Scan

open Scan

def PlainChar (c : Char) : Prop := c ≠ '"' ∧ c ≠ '[' ∧ c ≠ '{' ∧ c ≠ ']' ∧ c ≠ '}'

instance (c : Char) : Decidable (PlainChar c) := inferInstanceAs (Decidable (_ ∧ _))

variable {c : Char} {l : List Char}

theorem next_plain (hc : PlainChar c) (d : Int) : next ⟨d, .plain⟩ c = ⟨d, .plain⟩ := by
  obtain ⟨hquote, hbracket, hbrace, hbracket', hbrace'⟩ := hc
  unfold next
  simp [hquote, hbracket, hbrace, hbracket', hbrace']

theorem after_plain (hl : ∀ c ∈ l, PlainChar c) (d : Int) : after ⟨d, .plain⟩ l = ⟨d, .plain⟩ := by
  induction l with
  | nil => rfl
  | cons c l ih =>
    rw [after_cons, next_plain (hl c List.mem_cons_self), ih (fun c' hc' => hl c' (List.mem_cons_of_mem _ hc'))]

theorem plainChar_digit (hc : c.isDigit = true) : PlainChar c := by
  refine ⟨?_, ?_, ?_, ?_, ?_⟩ <;>
  · rintro rfl
    revert hc
    decide

/-! ## What is read -/

/-- The reader leaves `r`, and what it has read takes every scan in `S` to one in `S'`. -/
def Passes (S S' : Int → Scan → Prop) (l r : List Char) : Prop :=
  ∃ used, l = used ++ r ∧ ∀ d s, S d s → S' d (s.after used)

variable {m r : List Char} {S S' S'' : Int → Scan → Prop}

theorem Passes.trans (h : Passes S S' l m) (h' : Passes S' S'' m r) : Passes S S'' l r := by
  obtain ⟨used, rfl, hused⟩ := h
  obtain ⟨used', rfl, hused'⟩ := h'
  refine ⟨used ++ used', (List.append_assoc _ _ _).symm, fun d s hs => ?_⟩
  rw [after_append]
  exact hused' d _ (hused d s hs)

theorem Passes.imp (h : Passes S S' l r) (himp : ∀ d s, S' d s → S'' d s) : Passes S S'' l r :=
  h.trans ⟨[], rfl, himp⟩

theorem Passes.deeper (h : Passes S S' l r) : Passes (fun d => S (d + 1)) (fun d => S' (d + 1)) l r := by
  obtain ⟨used, heq, hused⟩ := h
  exact ⟨used, heq, fun d => hused (d + 1)⟩

theorem passes_char (h : ∀ d s, S d s → S' d (s.next c)) : Passes S S' (c :: l) l := ⟨[c], rfl, h⟩

def At (mode : Mode) (d : Int) (s : Scan) : Prop := s = ⟨d, mode⟩

/-- What is read closes what it opens and ends outside strings. -/
abbrev Reads : List Char → List Char → Prop := Passes (At .plain) (At .plain)

theorem Reads.refl (l : List Char) : Reads l l := ⟨[], rfl, fun _ _ h => h⟩

theorem Reads.cons {c : Char} {l r : List Char} (hc : PlainChar c) (h : Reads l r) : Reads (c :: l) r := by
  refine (passes_char fun d s hs => ?_).trans h
  rw [hs]
  exact next_plain hc d

theorem reads_takeWhile (p : Char → Bool) (hp : ∀ c, p c = true → PlainChar c) (l : List Char) :
    Reads l (l.dropWhile p) := by
  refine ⟨l.takeWhile p, List.takeWhile_append_dropWhile.symm, fun d s hs => ?_⟩
  rw [hs]
  exact after_plain (fun c hc => hp c (List.mem_takeWhile_imp hc)) d

theorem plainChar_space (hc : isJsonSpace c = true) : PlainChar c := by
  unfold isJsonSpace at hc
  simp only [Bool.or_eq_true, decide_eq_true_eq] at hc
  rcases hc with ((rfl | rfl) | rfl) | rfl <;> decide

theorem reads_skip (l : List Char) : Reads l (skip l) :=
  reads_takeWhile isJsonSpace (fun _ => plainChar_space) l

variable {p : List Char × List Char}

theorem reads_readMany (h : readMany l = some p) : Reads l p.2 := by
  unfold readMany at h
  split at h
  · cases h
  · cases h
    exact reads_takeWhile Char.isDigit (fun _ => plainChar_digit) l

theorem reads_readWhole (h : readWhole l = some p) : Reads l p.2 := by
  unfold readWhole at h
  split at h
  · cases h
    exact (Reads.refl _).cons (by decide)
  · exact reads_readMany h

theorem reads_readPoint (h : readPoint l = some p) : Reads l p.2 := by
  unfold readPoint at h
  split at h
  · exact (reads_readMany h).cons (by decide)
  · cases h
    exact Reads.refl _

theorem reads_readSigned {p : Int × List Char} (h : readSigned l = some p) : Reads l p.2 := by
  unfold readSigned at h
  split at h <;> obtain ⟨q, hq, rfl⟩ := Option.map_eq_some_iff.mp h
  · exact (reads_readMany hq).cons (by decide)
  · exact (reads_readMany hq).cons (by decide)
  · exact reads_readMany hq

theorem reads_readExponent {p : Int × List Char} (h : readExponent l = some p) : Reads l p.2 := by
  unfold readExponent at h
  split at h
  · exact (reads_readSigned h).cons (by decide)
  · exact (reads_readSigned h).cons (by decide)
  · cases h
    exact Reads.refl _

theorem reads_readUnsigned {p : ℚ × List Char} (h : readUnsigned l = some p) : Reads l p.2 := by
  unfold readUnsigned at h
  simp only [Option.bind_eq_bind, Option.bind_eq_some_iff, Option.pure_def, Option.some.injEq] at h
  obtain ⟨whole, hwhole, fraction, hfraction, exponent, hexponent, rfl⟩ := h
  exact ((reads_readWhole hwhole).trans (reads_readPoint hfraction)).trans (reads_readExponent hexponent)

theorem reads_readNumber {p : ℚ × List Char} (h : readNumber l = some p) : Reads l p.2 := by
  unfold readNumber at h
  split at h
  · obtain ⟨q, hq, rfl⟩ := Option.map_eq_some_iff.mp h
    exact (reads_readUnsigned hq).cons (by decide)
  · exact reads_readUnsigned h

theorem reads_readLiteral {p : Json × List Char} (h : readLiteral l = some p) : Reads l p.2 := by
  unfold readLiteral at h
  split at h
  · cases h
    exact ((((Reads.refl _).cons (by decide)).cons (by decide)).cons (by decide)).cons (by decide)
  · cases h
    exact ((((Reads.refl _).cons (by decide)).cons (by decide)).cons (by decide)).cons (by decide)
  · cases h
    exact (((((Reads.refl _).cons (by decide)).cons (by decide)).cons (by decide)).cons (by decide)).cons (by decide)
  · obtain ⟨q, hq, rfl⟩ := Option.map_eq_some_iff.mp h
    exact reads_readNumber hq

/-! ### Strings -/

/-- The character neither closes a string nor escapes what follows. -/
def QuotedChar (c : Char) : Prop := c ≠ '"' ∧ c ≠ '\\'

instance (c : Char) : Decidable (QuotedChar c) := inferInstanceAs (Decidable (_ ∧ _))

theorem next_quoted (hc : QuotedChar c) (d : Int) : next ⟨d, .quoted⟩ c = ⟨d, .quoted⟩ := by
  unfold next
  simp [hc.1, hc.2]

theorem after_quoted (hl : ∀ c ∈ l, QuotedChar c) (d : Int) : after ⟨d, .quoted⟩ l = ⟨d, .quoted⟩ := by
  induction l with
  | nil => rfl
  | cons c l ih =>
    rw [after_cons, next_quoted (hl c List.mem_cons_self), ih (fun c' hc' => hl c' (List.mem_cons_of_mem _ hc'))]

theorem quotedChar_hex {n : Nat} (hc : hexValue c = some n) : QuotedChar c := by
  constructor <;>
  · rintro rfl
    revert hc
    decide +revert

/-- What is read ends the string. -/
abbrev ReadsString : List Char → List Char → Prop := Passes (At .quoted) (At .ended)

theorem ReadsString.append (before : List Char) (hbefore : ∀ d, after ⟨d, .quoted⟩ before = ⟨d, .quoted⟩)
    (h : ReadsString l r) : ReadsString (before ++ l) r := by
  refine Passes.trans (?_ : Passes _ (At .quoted) _ l) h
  refine ⟨before, rfl, fun d s hs => ?_⟩
  rw [hs]
  exact hbefore d

theorem readsString_readString {p : List Nat × List Char} (h : readString l = some p) : ReadsString l p.2 := by
  have hadd : ∀ {units : List Nat} {rest : Option (List Nat × List Char)} {p : List Nat × List Char},
      addUnits units rest = some p → ∃ q, rest = some q ∧ q.2 = p.2 := by
    intro units rest p hp
    obtain ⟨q, hq, rfl⟩ := Option.map_eq_some_iff.mp hp
    exact ⟨q, hq, rfl⟩
  fun_induction readString l generalizing p with
  | case1 => cases h
  | case2 l =>
    cases h
    exact passes_char (by rintro d _ rfl; rfl)
  | case3 a b c d l ih =>
    obtain ⟨unit, hunit, hrest⟩ := Option.bind_eq_some_iff.mp h
    obtain ⟨q, hq, heq⟩ := hadd hrest
    rw [← heq]
    unfold hexUnit at hunit
    simp only [Option.bind_eq_bind, Option.bind_eq_some_iff] at hunit
    obtain ⟨_, ha, _, hb, _, hc, _, hd, -⟩ := hunit
    refine (ih hq).append ['\\', 'u', a, b, c, d] (fun e => ?_)
    show after ⟨e, .quoted⟩ [a, b, c, d] = _
    refine after_quoted (fun x hx => ?_) e
    simp only [List.mem_cons, List.not_mem_nil, or_false] at hx
    rcases hx with rfl | rfl | rfl | rfl
    · exact quotedChar_hex ha
    · exact quotedChar_hex hb
    · exact quotedChar_hex hc
    · exact quotedChar_hex hd
  | case4 c l _ ih =>
    obtain ⟨unit, -, hrest⟩ := Option.bind_eq_some_iff.mp h
    obtain ⟨q, hq, heq⟩ := hadd hrest
    rw [← heq]
    exact (ih hq).append ['\\', c] (fun _ => rfl)
  | case5 => cases h
  | case6 c l hquote _ _ hc ih =>
    obtain ⟨q, hq, heq⟩ := hadd h
    rw [← heq]
    rw [not_or] at hc
    exact (ih hq).append [c] (fun d => next_quoted ⟨fun h => hquote h, hc.2⟩ d)

/-! ### Values -/

/-- The scan is at depth `d`, outside strings or at the end of one. -/
def Settled (d : Int) (s : Scan) : Prop := s = ⟨d, .plain⟩ ∨ s = ⟨d, .ended⟩

variable {d : Int} {s : Scan}

theorem Settled.space (h : Settled d s) (hl : ∀ c ∈ l, isJsonSpace c = true) : s.after l = s := by
  induction l with
  | nil => rfl
  | cons c l ih =>
    have hspace := hl c List.mem_cons_self
    have hsame : s.next c = s := by
      rcases h with rfl | rfl
      · exact next_plain (plainChar_space hspace) d
      · exact if_pos hspace
    rw [after_cons, hsame, ih (fun c' hc' => hl c' (List.mem_cons_of_mem _ hc'))]

theorem Settled.separator (h : Settled d s) (hc : c = ',' ∨ c = ':') : s.next c = ⟨d, .plain⟩ := by
  rcases h with rfl | rfl <;> rcases hc with rfl | rfl <;> rfl

theorem Settled.closing {d : Int} {s : Scan} (h : Settled (d + 1) s) {c : Char}
    (hc : c = ']' ∨ c = '}') : s.next c = ⟨d, .plain⟩ := by
  rcases h with rfl | rfl <;> rcases hc with rfl | rfl <;> simp [next, isJsonSpace]

/-- What is read is a whole value, with white space around it. -/
abbrev ReadsValue : List Char → List Char → Prop := Passes (At .plain) Settled

theorem Reads.value {l r : List Char} (h : Reads l r) : ReadsValue l r := h.imp fun _ _ => Or.inl

theorem ReadsValue.skip (h : ReadsValue l r) : ReadsValue l (skip r) := by
  refine h.trans ⟨r.takeWhile isJsonSpace, List.takeWhile_append_dropWhile.symm, fun d s hs => ?_⟩
  rwa [hs.space (fun c hc => List.mem_takeWhile_imp hc)]

theorem ReadsValue.separator (h : ReadsValue l (c :: r)) (hc : c = ',' ∨ c = ':') : Reads l r :=
  h.trans (passes_char fun _ _ hs => hs.separator hc)

theorem readsValue_readText {p : String × List Char} (h : readText l = some p) :
    ReadsValue ('"' :: l) p.2 := by
  obtain ⟨q, hq, rfl⟩ := Option.map_eq_some_iff.mp h
  refine (passes_char ?_).trans ((readsString_readString hq).imp fun _ _ => Or.inr)
  rintro d _ rfl
  rfl

/-- One more bracket is closed than opened. -/
abbrev Closes : List Char → List Char → Prop := Passes (fun d => At .plain (d + 1)) (At .plain)

theorem Closes.of_reads (h : Reads l m) (h' : Closes m r) : Closes l r := h.deeper.trans h'

theorem ReadsValue.closes {l r : List Char} {c : Char} (h : ReadsValue l (c :: r)) (hc : c = ']' ∨ c = '}') : Closes l r :=
  h.deeper.trans (passes_char fun _ _ hs => hs.closing hc)

theorem closes_cons {c : Char} (hc : c = ']' ∨ c = '}') (l : List Char) : Closes (c :: l) l :=
  (Reads.refl (c :: l)).value.closes hc

theorem Closes.reads {c : Char} {l r : List Char} (hc : c = '[' ∨ c = '{') (h : Closes l r) : Reads (c :: l) r := by
  refine (passes_char ?_).trans h
  rintro d _ rfl
  rcases hc with rfl | rfl <;> rfl

theorem reads_values (depth : Nat) : (∀ l p, readValue depth l = some p → ReadsValue l p.2) ∧
    (∀ l p, readItems depth l = some p → Closes l p.2) ∧
    (∀ fields l p, readFields depth fields l = some p → Closes l p.2) := by
  induction depth with
  | zero => exact ⟨nofun, nofun, nofun⟩
  | succ depth ih =>
    obtain ⟨hvalue, hitems, hfields⟩ := ih
    refine ⟨fun l p h => ?_, fun l p h => ?_, fun fields l p h => ?_⟩
    · refine (reads_skip l).trans ?_
      unfold readValue at h
      split at h
      · obtain ⟨q, hq, rfl⟩ := Option.map_eq_some_iff.mp h
        rw [‹skip l = _›]
        exact readsValue_readText hq
      · rw [‹skip l = _›]
        refine (Closes.reads (Or.inl rfl) (Closes.of_reads (reads_skip _) ?_)).value
        split at h
        · cases h
          rw [‹skip _ = ']' :: _›]
          exact closes_cons (Or.inl rfl) _
        · obtain ⟨q, hq, rfl⟩ := Option.map_eq_some_iff.mp h
          exact hitems _ _ hq
      · rw [‹skip l = _›]
        refine (Closes.reads (Or.inr rfl) (Closes.of_reads (reads_skip _) ?_)).value
        split at h
        · cases h
          rw [‹skip _ = '}' :: _›]
          exact closes_cons (Or.inr rfl) _
        · obtain ⟨q, hq, rfl⟩ := Option.map_eq_some_iff.mp h
          exact hfields _ _ _ hq
      · exact (reads_readLiteral h).value
    · unfold readItems at h
      obtain ⟨q, hq, h⟩ := Option.bind_eq_some_iff.mp h
      have hread := (hvalue l q hq).skip
      split at h
      · obtain ⟨q', hq', rfl⟩ := Option.map_eq_some_iff.mp h
        rw [‹skip q.2 = _›] at hread
        exact Closes.of_reads (hread.separator (Or.inl rfl)) (hitems _ q' hq')
      · cases h
        rw [‹skip q.2 = _›] at hread
        exact hread.closes (Or.inl rfl)
      · cases h
    · refine Closes.of_reads (reads_skip l) ?_
      unfold readFields at h
      split at h
      · rw [‹skip l = _›]
        obtain ⟨key, hkey, h⟩ := Option.bind_eq_some_iff.mp h
        have hread := (readsValue_readText hkey).skip
        split at h
        · rw [‹skip key.2 = _›] at hread
          refine Closes.of_reads (hread.separator (Or.inr rfl)) ?_
          obtain ⟨q, hq, h⟩ := Option.bind_eq_some_iff.mp h
          have hfield := (hvalue _ q hq).skip
          split at h
          · rw [‹skip q.2 = _›] at hfield
            exact Closes.of_reads (hfield.separator (Or.inl rfl)) (hfields _ _ _ h)
          · cases h
            rw [‹skip q.2 = _›] at hfield
            exact hfield.closes (Or.inr rfl)
          · cases h
        · cases h
      · cases h

theorem parseJson_scan {text : List Char} {v : Json} (h : parseJson text = some v) (d : Int) :
    Settled d (after ⟨d, .plain⟩ text) := by
  unfold parseJson at h
  obtain ⟨p, hp, h⟩ := Option.bind_eq_some_iff.mp h
  split_ifs at h with hend
  obtain ⟨used, heq, hused⟩ := ((reads_values _).1 _ _ hp).skip
  rw [hend, List.append_nil] at heq
  rw [heq]
  exact hused d _ rfl

/-! ## What is written -/

/-- At no point is the text less deep than `d`. -/
def Within (d : Int) (s : Scan) (l : List Char) : Prop := ∀ p, p <+: l → d ≤ (s.after p).depth

theorem Within.nil (h : d ≤ s.depth) : Within d s [] := by
  intro p hp
  rw [List.prefix_nil.mp hp]
  exact h

theorem Within.cons {d : Int} {s : Scan} {c : Char} {l : List Char} (h : d ≤ s.depth)
    (hl : Within d (s.next c) l) : Within d s (c :: l) := by
  intro p hp
  rcases List.prefix_cons_iff.mp hp with rfl | ⟨q, rfl, hq⟩
  · exact h
  · exact hl q hq

theorem Within.append (h : Within d s l) (h' : Within d (s.after l) m) : Within d s (l ++ m) := by
  induction l generalizing s with
  | nil => exact h'
  | cons c l ih =>
    refine Within.cons (h [] List.nil_prefix) (ih (fun p hp => ?_) h')
    exact h (c :: p) (List.cons_prefix_cons.mpr ⟨rfl, hp⟩)

theorem Within.mono {d' : Int} (hd : d ≤ d') (h : Within d' s l) : Within d s l := fun p hp => hd.trans (h p hp)

/-- The text closes what it opens, and nothing else. -/
structure Closed (l : List Char) : Prop where
  after : ∀ d, Settled d (after ⟨d, .plain⟩ l)
  within : ∀ d, Within d ⟨d, .plain⟩ l

/-- The text can come after a value. -/
structure Follows (l : List Char) : Prop where
  after : ∀ d s, Settled d s → Settled d (s.after l)
  within : ∀ d s, Settled d s → Within d s l

theorem Settled.depth (h : Settled d s) : s.depth = d := by
  rcases h with rfl | rfl <;> rfl

theorem Closed.nil : Closed [] := ⟨fun _ => Or.inl rfl, fun _ => Within.nil le_rfl⟩

theorem Follows.nil : Follows [] := ⟨fun _ _ h => h, fun _ _ h => Within.nil h.depth.ge⟩

theorem Closed.append (h : Closed l) (h' : Follows m) : Closed (l ++ m) where
  after := by
    intro d
    rw [after_append]
    exact h'.after d _ (h.after d)
  within := fun d => (h.within d).append (h'.within d _ (h.after d))

theorem Closed.follows (h : Closed l) (hc : c = ',' ∨ c = ':') :
    Follows (c :: l) where
  after := by
    intro d s hs
    rw [after_cons, hs.separator hc]
    exact h.after d
  within := by
    intro d s hs
    refine Within.cons hs.depth.ge ?_
    rw [hs.separator hc]
    exact h.within d

theorem Closed.of_plain (hl : ∀ c ∈ l, PlainChar c) : Closed l where
  after := fun d => Or.inl (after_plain hl d)
  within := by
    intro d p hp
    rw [after_plain (fun c hc => hl c (hp.subset hc))]

theorem Closed.bracketed {l : List Char} (h : Closed l) {c c' : Char} (hc : c = '[' ∨ c = '{')
    (hc' : c' = ']' ∨ c' = '}') : Closed (c :: (l ++ [c'])) := by
  have hopen : ∀ d, next ⟨d, .plain⟩ c = ⟨d + 1, .plain⟩ := by
    intro d
    rcases hc with rfl | rfl <;> rfl
  refine ⟨fun d => ?_, fun d => Within.cons le_rfl ?_⟩
  · rw [after_cons, hopen, after_append, after_cons, (h.after (d + 1)).closing hc']
    exact .inl rfl
  · rw [hopen]
    refine ((h.within (d + 1)).mono (by omega)).append (Within.cons ?_ ?_)
    · rw [(h.after (d + 1)).depth]
      omega
    · rw [(h.after (d + 1)).closing hc']
      exact Within.nil le_rfl

def NumberChar (c : Char) : Prop := c.isDigit = true ∨ c = '-' ∨ c = '.' ∨ c = 'e' ∨ c = '+'

instance (c : Char) : Decidable (NumberChar c) := inferInstanceAs (Decidable (_ ∨ _))

theorem numberChar_numberText {q : ℚ} (hc : c ∈ numberText q) : NumberChar c := by
  have hdigits : ∀ n, ∀ c ∈ Nat.toDigits 10 n, NumberChar c :=
    fun n c hc => Or.inl (Nat.isDigit_of_mem_toDigits (by decide) (by decide) hc)
  have hexp : ∀ digits : List Char, (∀ c ∈ digits, NumberChar c) → ∀ power : Int,
      ∀ c ∈ exponential digits power, NumberChar c := by
    intro digits hd power c hc
    unfold exponential at hc
    simp only [List.mem_append, List.mem_cons] at hc
    rcases hc with hc | hc | rfl | rfl | hc
    · exact hd c (List.mem_of_mem_take hc)
    · split_ifs at hc
      · cases hc
      · rcases List.mem_cons.mp hc with rfl | hc
        · decide
        · exact hd c (List.mem_of_mem_drop hc)
    · decide
    · split_ifs <;> decide
    · exact hdigits _ c hc
  have hlayout : ∀ digits : List Char, (∀ c ∈ digits, NumberChar c) → ∀ exponent : Int,
      ∀ c ∈ layout digits exponent, NumberChar c := by
    intro digits hd exponent c hc
    unfold layout at hc
    dsimp only at hc
    split_ifs at hc
    · rcases List.mem_append.mp hc with hc | hc
      · exact hd c hc
      · rw [(List.mem_replicate.mp hc).2]
        decide
    · rcases List.mem_append.mp hc with hc | hc
      · exact hd c (List.mem_of_mem_take hc)
      · rcases List.mem_cons.mp hc with rfl | hc
        · decide
        · exact hd c (List.mem_of_mem_drop hc)
    · simp only [List.mem_cons, List.mem_append] at hc
      rcases hc with rfl | rfl | hc | hc
      · decide
      · decide
      · rw [(List.mem_replicate.mp hc).2]
        decide
      · exact hd c hc
    · exact hexp digits hd _ c hc
  unfold numberText at hc
  split_ifs at hc
  · rw [List.mem_singleton.mp hc]
    decide
  · rcases List.mem_append.mp hc with hc | hc
    · rw [List.mem_singleton.mp hc]
      decide
    · exact hlayout _ (hdigits _) _ c hc
  · exact hlayout _ (hdigits _) _ c hc

theorem plainChar_numberText {q : ℚ} (hc : c ∈ numberText q) : PlainChar c := by
  rcases numberChar_numberText hc with hdigit | rfl | rfl | rfl | rfl
  · exact plainChar_digit hdigit
  · decide
  · decide
  · decide
  · decide

theorem quotedChar_digitChar {n : Nat} (hn : n < 16) : QuotedChar n.digitChar := by
  interval_cases n <;> decide

theorem escapeChar_cases (c : Char) : (∀ x ∈ escapeChar c, QuotedChar x) ∨
    ∃ x l, escapeChar c = '\\' :: x :: l ∧ ∀ y ∈ l, QuotedChar y := by
  unfold escapeChar
  by_cases hquote : c = '"'
  · exact .inr ⟨_, _, if_pos hquote, by simp⟩
  by_cases hslash : c = '\\'
  · exact .inr ⟨_, _, (if_neg hquote).trans (if_pos hslash), by simp⟩
  rw [if_neg hquote, if_neg hslash]
  iterate 5
    split
    · exact .inr ⟨_, _, rfl, by simp⟩
  split
  · refine .inr ⟨'u', ['0', '0'] ++ hexPair c.toNat, rfl, fun y hy => ?_⟩
    unfold hexPair at hy
    simp only [List.nil_append, List.cons_append, List.mem_cons, List.not_mem_nil, or_false] at hy
    rcases hy with rfl | rfl | rfl | rfl
    · decide
    · decide
    · exact quotedChar_digitChar (by omega)
    · exact quotedChar_digitChar (by omega)
  · refine .inl fun x hx => ?_
    rw [List.mem_singleton.mp hx]
    exact ⟨hquote, hslash⟩

theorem within_quoted (hl : ∀ c ∈ l, QuotedChar c) (d : Int) : Within d ⟨d, .quoted⟩ l := by
  intro p hp
  rw [after_quoted (fun c hc => hl c (hp.subset hc))]

theorem closed_jsonString (s : String) : Closed (jsonString s) := by
  have hchar : ∀ c d, after ⟨d, .quoted⟩ (escapeChar c) = ⟨d, .quoted⟩ ∧ Within d ⟨d, .quoted⟩ (escapeChar c) := by
    intro c d
    rcases escapeChar_cases c with hall | ⟨x, l, heq, hall⟩
    · exact ⟨after_quoted hall d, within_quoted hall d⟩
    · rw [heq]
      exact ⟨after_quoted hall d, Within.cons le_rfl (Within.cons le_rfl (within_quoted hall d))⟩
  have hbody : ∀ (l : List Char) d, after ⟨d, .quoted⟩ (l.flatMap escapeChar) = ⟨d, .quoted⟩ ∧
      Within d ⟨d, .quoted⟩ (l.flatMap escapeChar) := by
    intro l d
    induction l with
    | nil => exact ⟨rfl, Within.nil le_rfl⟩
    | cons c l ih =>
      rw [List.flatMap_cons, after_append, (hchar c d).1]
      refine ⟨ih.1, (hchar c d).2.append ?_⟩
      rw [(hchar c d).1]
      exact ih.2
  refine ⟨fun d => ?_, fun d => ?_⟩
  · unfold jsonString
    rw [after_cons, after_append]
    show Settled d (after (after ⟨d, .quoted⟩ _) _)
    rw [(hbody s.toList d).1]
    exact .inr rfl
  · unfold jsonString
    refine Within.cons le_rfl ((hbody s.toList d).2.append ?_)
    show Within d (after ⟨d, .quoted⟩ _) _
    rw [(hbody s.toList d).1]
    exact Within.cons le_rfl (Within.nil le_rfl)

theorem closed_word {word : List Char} (h : ∀ c ∈ word, c.isAlpha = true) : Closed word := by
  refine Closed.of_plain fun c hc => ?_
  refine ⟨?_, ?_, ?_, ?_, ?_⟩ <;>
  · rintro rfl
    exact absurd (h _ hc) (by decide)

open Json

theorem closed_joined {texts : List (List Char)} (h : ∀ text ∈ texts, Closed text) : Closed ([','].intercalate texts) := by
  have hfollows : ∀ texts : List (List Char), (∀ text ∈ texts, Closed text) →
      Follows (texts.flatMap (fun text => ',' :: text)) := by
    intro texts h
    induction texts with
    | nil => exact Follows.nil
    | cons text texts ih =>
      obtain ⟨hfirst, hrest⟩ := List.forall_mem_cons.mp h
      exact (hfirst.append (ih hrest)).follows (Or.inl rfl)
  cases texts with
  | nil => exact Closed.nil
  | cons text texts =>
    obtain ⟨hfirst, hrest⟩ := List.forall_mem_cons.mp h
    rw [intercalate_comma]
    exact hfirst.append (hfollows texts hrest)

theorem closed_joinFields {fields : List (String × Json)} (h : ∀ p ∈ fields, Closed p.2.stringify) :
    Closed (joinFields fields) := by
  rw [joinFields_eq]
  refine closed_joined fun text htext => ?_
  obtain ⟨p, hp, rfl⟩ := List.mem_map.mp htext
  refine (closed_jsonString p.1).append (Closed.follows ?_ (Or.inr rfl))
  exact h p hp

theorem closed_stringify (v : Json) : Closed v.stringify := by
  induction v using Json.induct with
  | null =>
    rw [stringify]
    exact closed_word (by simp)
  | boolean b =>
    cases b <;> rw [stringify] <;> exact closed_word (by simp)
  | number q =>
    rw [stringify]
    exact Closed.of_plain fun c hc => plainChar_numberText hc
  | string s =>
    rw [stringify]
    exact closed_jsonString s
  | array items ih =>
    rw [stringify, joinItems_eq]
    exact (closed_joined (List.forall_mem_map.mpr ih)).bracketed (Or.inl rfl) (Or.inl rfl)
  | object fields ih =>
    rw [stringify]
    exact (closed_joinFields ih).bracketed (Or.inr rfl) (Or.inr rfl)

theorem control_ne {x : Char} (hx : x.toNat < 32) (hc : 32 ≤ c.toNat) : x ≠ c := by
  rintro rfl
  omega

theorem control_notMem_jsonString {x : Char} (hx : x.toNat < 32) (s : String) : x ∉ jsonString s := by
  have hdigit : ∀ n : Fin 16, 32 ≤ (Nat.digitChar n).toNat := by decide
  have hhex : ∀ n : Nat, n < 32 → ∀ c ∈ hexPair n, 32 ≤ c.toNat := by
    intro n hn c hc
    rcases List.mem_pair.mp hc with rfl | rfl
    · exact hdigit ⟨n / 16, by omega⟩
    · exact hdigit ⟨n % 16, by omega⟩
  have hchar : ∀ c : Char, x ∉ escapeChar c := by
    intro c hc
    unfold escapeChar at hc
    split_ifs at hc with _ _ _ _ _ _ _ hsmall
    · simp [control_ne hx] at hc
    · simp [control_ne hx] at hc
    · simp [control_ne hx] at hc
    · simp [control_ne hx] at hc
    · simp [control_ne hx] at hc
    · simp [control_ne hx] at hc
    · simp [control_ne hx] at hc
    · obtain hc | hc := List.mem_append.mp hc
      · simp [control_ne hx] at hc
      · exact absurd hx (not_lt.mpr (hhex _ hsmall x hc))
    · obtain rfl := List.mem_singleton.mp hc
      exact hsmall hx
  unfold jsonString
  intro h
  simp only [List.mem_cons, List.mem_append, List.mem_flatMap, List.not_mem_nil, or_false] at h
  rcases h with h | ⟨c, -, h⟩ | h
  · exact control_ne hx (by decide) h
  · exact hchar c h
  · exact control_ne hx (by decide) h

theorem control_notMem_numberText {x : Char} (hx : x.toNat < 32) (q : ℚ) : x ∉ numberText q := by
  intro h
  rcases numberChar_numberText h with hdigit | h | h | h | h
  · simp only [Char.isDigit, Bool.and_eq_true, decide_eq_true_eq] at hdigit
    have hlow : 48 ≤ x.toNat := hdigit.1
    omega
  · exact control_ne hx (by decide) h
  · exact control_ne hx (by decide) h
  · exact control_ne hx (by decide) h
  · exact control_ne hx (by decide) h

theorem control_notMem_stringify {x : Char} (hx : x.toNat < 32) (v : Json) : x ∉ v.stringify := by
  have hjoined : ∀ texts : List (List Char), (∀ text ∈ texts, x ∉ text) → x ∉ [','].intercalate texts := by
    intro texts h hmem
    obtain ⟨text, htext, hmem⟩ := (mem_joined (control_ne hx (by decide)) texts).mp hmem
    exact h text htext hmem
  induction v using Json.induct with
  | null => simp [stringify, control_ne hx]
  | boolean b => cases b <;> simp [stringify, control_ne hx]
  | number q =>
    rw [stringify]
    exact control_notMem_numberText hx q
  | string s =>
    rw [stringify]
    exact control_notMem_jsonString hx s
  | array items ih => simp [stringify, joinItems_eq, control_ne hx, hjoined _ (List.forall_mem_map.mpr ih)]
  | object fields ih =>
    have hfields : ∀ p ∈ fields, x ∉ fieldText p := fun p hp => by
      simp [fieldText, control_ne hx, control_notMem_jsonString hx, ih p hp]
    simp [stringify, joinFields_eq, control_ne hx, hjoined _ (List.forall_mem_map.mpr hfields)]

theorem newline_notMem_stringify (v : Json) : '\n' ∉ v.stringify := control_notMem_stringify (by decide) v

/-! ## Torn texts -/

/-- Something is open, or the text is no document, whatever comes next. -/
def Unfinished (s : Scan) : Prop := 1 ≤ s.depth ∨ s.mode = .jammed

theorem after_jammed (h : s.mode = .jammed) (l : List Char) : s.after l = s := by
  induction l with
  | nil => rfl
  | cons c l ih =>
    have hsame : s.next c = s := by
      unfold next
      rw [h]
    rw [after_cons, hsame, ih]

theorem Unfinished.next_plain (h : Unfinished s) (hc : PlainChar c) : Unfinished (s.next c) := by
  obtain ⟨hquote, hbracket, hbrace, hbracket', hbrace'⟩ := hc
  rcases h with h | h
  · left
    have hsame : (s.next c).depth = s.depth := by
      unfold Scan.next
      rw [if_neg hquote, if_neg (not_or.mpr ⟨hbracket, hbrace⟩), if_neg (not_or.mpr ⟨hbracket', hbrace'⟩),
        if_neg hquote, if_neg (not_or.mpr ⟨hbracket', hbrace'⟩)]
      cases s.mode
      all_goals first | rfl | (dsimp only; split_ifs <;> rfl)
    rw [hsame]
    exact h
  · right
    exact (congrArg Scan.mode (after_jammed h [c])).trans h

theorem escapeChar_alpha (hc : c.isAlpha = true) : escapeChar c = [c] := by
  have hne : ∀ d : Char, d.isAlpha = false → c ≠ d := by
    rintro d hd rfl
    exact absurd (hd.symm.trans hc) (by decide)
  have hlow : ¬ c.toNat < 32 := by
    intro hsmall
    have hletter : ∀ n : Fin 32, (Char.ofNat n).isAlpha = false := by decide
    obtain ⟨n, hn⟩ := char_small hsmall
    exact hne _ (hletter n) hn
  unfold escapeChar
  rw [if_neg (hne _ (by decide)), if_neg (hne _ (by decide)), if_neg (by omega), if_neg (by omega),
    if_neg (hne _ (by decide)), if_neg (hne _ (by decide)), if_neg (hne _ (by decide)), if_neg hlow]

theorem stringify_first_key {key : String} {rest : List Char} (hkey : key.toList = c :: rest)
    (hc : c.isAlpha = true) (v : Json) (fields : List (String × Json)) :
    ∃ more, (Json.object ((key, v) :: fields)).stringify = '{' :: '"' :: c :: more := by
  rw [stringify, joinFields, jsonString, hkey, List.flatMap_cons, escapeChar_alpha hc]
  exact ⟨_, rfl⟩

theorem next_ended_alpha (hc : c.isAlpha = true) (d : Int) : next ⟨d, .ended⟩ c = ⟨d, .jammed⟩ := by
  have hne : ∀ x : Char, x.isAlpha = false → c ≠ x := by
    rintro x hx rfl
    exact absurd (hx.symm.trans hc) (by decide)
  have hspace : ¬ isJsonSpace c = true := by
    unfold isJsonSpace
    simp [hne ' ' (by decide), hne '\t' (by decide), hne '\n' (by decide), hne '\r' (by decide)]
  unfold Scan.next
  dsimp only
  rw [if_neg hspace, if_neg (not_or.mpr ⟨hne _ (by decide), hne _ (by decide)⟩),
    if_neg (not_or.mpr ⟨hne _ (by decide), hne _ (by decide)⟩)]

theorem Unfinished.object (h : Unfinished s) {key : String} {v : Json} {fields : List (String × Json)}
    {rest : List Char} (hkey : key.toList = c :: rest) (hc : c.isAlpha = true) {p : List Char}
    (hp : p <+: (Json.object ((key, v) :: fields)).stringify) : Unfinished (s.after p) := by
  rcases h with h | h
  · obtain ⟨d, mode⟩ := s
    by_cases hplain : mode = .plain
    · subst hplain
      exact .inl (le_trans h ((closed_stringify _).within d p hp))
    -- In a string, the quote before the first key ends it, and the key cannot follow.
    · obtain ⟨more, hmore⟩ := stringify_first_key hkey hc v fields
      rw [hmore] at hp
      rcases List.prefix_cons_iff.mp hp with rfl | ⟨q, rfl, hq⟩
      · exact .inl h
      have hbrace : next ⟨d, mode⟩ '{' = ⟨d, .quoted⟩ ∨ (next ⟨d, mode⟩ '{').mode = .jammed := by
        cases mode with
        | plain => exact absurd rfl hplain
        | quoted | escaped => exact .inl rfl
        | ended | jammed => exact .inr rfl
      rw [after_cons]
      rcases hbrace with hbrace | hbrace
      · rw [hbrace]
        rcases List.prefix_cons_iff.mp hq with rfl | ⟨r, rfl, hr⟩
        · exact .inl h
        rcases List.prefix_cons_iff.mp hr with rfl | ⟨t, rfl, -⟩
        · exact .inl h
        · right
          have hend : (⟨d, .quoted⟩ : Scan).next '"' = ⟨d, .ended⟩ := rfl
          rw [after_cons, after_cons, hend, next_ended_alpha hc, after_jammed rfl]
      · rw [after_jammed hbrace]
        exact .inr hbrace
  · right
    rw [after_jammed h]
    exact h

theorem parseJson_torn {fields : List (String × Json)} {p tail : List Char}
    (hp : p <+: (Json.object fields).stringify) (hne : p ≠ [])
    (hlt : p.length < (Json.object fields).stringify.length)
    (htail : ∀ s, Unfinished s → Unfinished (s.after tail)) : parseJson (p ++ tail) = none := by
  by_contra hsome
  obtain ⟨v, hv⟩ := Option.ne_none_iff_exists'.mp hsome
  have hend := parseJson_scan hv 0
  obtain ⟨c, p, rfl⟩ := List.exists_cons_of_ne_nil hne
  rw [stringify] at hp hlt
  obtain ⟨rfl, hrest⟩ := List.cons_prefix_cons.mp hp
  have hinner : p <+: joinFields fields := by
    refine List.prefix_of_prefix_length_le hrest (List.prefix_append _ _) ?_
    simp only [List.length_cons, List.length_append, List.length_nil] at hlt
    omega
  have hopen : Unfinished (after ⟨0, .plain⟩ ('{' :: p)) :=
    Or.inl ((closed_joinFields fun p _ => closed_stringify p.2).within 1 p hinner)
  have hunfinished := htail _ hopen
  rw [← after_append] at hunfinished
  rcases hunfinished with hdepth | hjammed
  · rw [hend.depth] at hdepth
    exact absurd hdepth (by decide)
  · rcases hend with heq | heq <;>
    · rw [heq] at hjammed
      cases hjammed

end Premise.Js
