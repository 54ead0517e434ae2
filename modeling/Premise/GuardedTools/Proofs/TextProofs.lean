import Premise.GuardedTools.CallSpec
import Premise.GuardedTools.Proofs.ToolProofs
import Premise.Js.JsonScan

/-!
# What the text of an action tells

The text of `canonicalJson` determines the value that it writes, up to the order of properties. A value
is read off its text from the left: the first character tells its kind, and the character after a
number ends it.
-/

namespace Premise.Js

open Collections


namespace JsValue

/-- A value whose text tells what it is. -/
inductive Plain : JsValue → Prop
  | null : Plain .null
  | undefined : Plain .undefined
  | true : Plain (.boolean true)
  | false : Plain (.boolean false)
  | number {text : String} (hne : text.toList ≠ []) (hchars : ∀ c ∈ text.toList, isNumberChar c = Bool.true) :
    Plain (.number (.finite text))
  | string (s : String) : Plain (.string s)
  | array {items : List JsValue} (h : ∀ v ∈ items, Plain v) : Plain (.array items)
  | object {properties : List (String × JsValue)} (h : ∀ p ∈ properties, Plain p.2) : Plain (.object properties)

theorem sortedItems_eq (items : List JsValue) : sortedItems items = items.map sorted := by
  induction items with
  | nil => rfl
  | cons v items ih => rw [sortedItems, ih, List.map_cons]

theorem sortedProperties_eq (properties : List (String × JsValue)) :
    sortedProperties properties = properties.map (fun p => (p.1, p.2.sorted)) := by
  induction properties with
  | nil => rfl
  | cons p properties ih => rw [sortedProperties, ih, List.map_cons]

theorem plain_asJson {n : JsNumber} (h : n.Typed) : n.asJson.Plain := by
  cases n with
  | nan | infinity => exact .null
  | negativeZero =>
    refine .number (List.cons_ne_nil '0' []) fun c hc => ?_
    obtain rfl : c = '0' := List.mem_singleton.mp hc
    rfl
  | finite text => exact .number h.1 h.2

mutual

theorem plain_written : ∀ {v : JsValue}, v.Typed → GuardedTools.serializable v = true → v.written.Plain
  | .array items, h, hs => by
    unfold GuardedTools.serializable at hs
    exact .array (plainItems_written h hs)
  | .object properties, h, hs => by
    unfold GuardedTools.serializable at hs
    exact .object (plainProperties_written h hs)
  | .null, _, _ => .null
  | .undefined, _, _ => .undefined
  | .boolean true, _, _ => .true
  | .boolean false, _, _ => .false
  | .number _, h, _ => plain_asJson h
  | .string s, _, _ => .string s
  | .exotic _, _, _ => .object (List.forall_mem_nil _)

theorem plainItems_written : ∀ {items : List JsValue}, TypedItems items →
    GuardedTools.serializableItems items = true → ∀ v ∈ writtenItems items, v.Plain
  | [], _, _ => by simp [writtenItems]
  | _ :: _, h, hs => by
    unfold GuardedTools.serializableItems at hs
    obtain ⟨hv, hrest⟩ := Bool.and_eq_true_iff.mp hs
    rw [writtenItems, List.forall_mem_cons]
    exact ⟨plain_written h.1 hv, plainItems_written h.2 hrest⟩

theorem plainProperties_written : ∀ {properties : List (String × JsValue)}, TypedProperties properties →
    GuardedTools.serializableProperties properties = true → ∀ p ∈ writtenProperties properties, p.2.Plain
  | [], _, _ => by simp [writtenProperties]
  | (_, _) :: _, h, hs => by
    unfold GuardedTools.serializableProperties at hs
    obtain ⟨hv, hrest⟩ := Bool.and_eq_true_iff.mp hs
    rw [writtenProperties, List.forall_mem_cons]
    exact ⟨plain_written h.1 hv, plainProperties_written h.2 hrest⟩

end

end JsValue

end Premise.Js

namespace Premise.GuardedTools

open Collections Js JsValue

mutual

theorem canonicalText_written : ∀ v : JsValue, canonicalText v.written = canonicalText v
  | .array items => by
    unfold written canonicalText
    rw [canonicalItems_written items]
  | .object properties => by
    unfold written canonicalText
    rw [canonicalProperties_written properties]
  | .number n => by cases n <;> rfl
  | .exotic _ | .null | .undefined | .boolean _ | .string _ | .unserializable => rfl

theorem canonicalItems_written : ∀ items : List JsValue, canonicalItems (writtenItems items) = canonicalItems items
  | [] => rfl
  | v :: items => by
    unfold writtenItems canonicalItems
    rw [canonicalText_written v, canonicalItems_written items]

theorem canonicalProperties_written : ∀ properties : List (String × JsValue),
    canonicalProperties (writtenProperties properties) = canonicalProperties properties
  | [] => rfl
  | (k, v) :: properties => by
    unfold writtenProperties canonicalProperties
    rw [canonicalText_written v, canonicalProperties_written properties]

end

theorem canonicalItems_eq (items : List JsValue) : canonicalItems items = items.map canonicalText := by
  induction items with
  | nil => rfl
  | cons v items ih => rw [canonicalItems, ih, List.map_cons]

def propertyText (p : String × JsValue) : List Char := jsonString p.1 ++ ':' :: canonicalText p.2

theorem canonicalText_array (items : List JsValue) :
    canonicalText (.array items) = '[' :: ([','].intercalate (items.map canonicalText) ++ [']']) := by
  rw [← canonicalItems_eq, ← List.cons_append]
  unfold canonicalText
  rfl

theorem canonicalText_object (properties : List (String × JsValue)) : canonicalText (.object properties) =
    '{' :: ([','].intercalate ((sortByKey properties).map propertyText) ++ ['}']) := by
  have hsorted : (sortByKey properties).map propertyText
      = (sortByKey (canonicalProperties properties)).map (fun p => jsonString p.1 ++ ':' :: p.2) := by
    rw [canonicalProperties_eq, sortByKey_map, List.map_map]
    rfl
  rw [hsorted, ← List.cons_append]
  unfold canonicalText
  rfl

/-! ## Reading -/

/-- The text that follows a value: none, or one that no number goes on with. -/
def Ends (l : List Char) : Prop := ∀ c ∈ l.head?, isNumberChar c = false

theorem ends_cons {c : Char} (hc : isNumberChar c = false) (l : List Char) : Ends (c :: l) := by
  intro c' hc'
  rwa [← Option.some.inj hc']

theorem takeWhile_number {text l : List Char} (htext : ∀ c ∈ text, isNumberChar c = true)
    (hl : Ends l) : (text ++ l).takeWhile isNumberChar = text := by
  rw [List.takeWhile_append_of_pos htext]
  cases l with
  | nil => exact List.append_nil text
  | cons c l =>
    rw [List.takeWhile_cons_of_neg (by rw [hl c rfl]; exact Bool.false_ne_true)]
    exact List.append_nil text

/-- The character that a text of the kind of the value starts with, where any number starts with a zero. -/
def firstChar : JsValue → Char
  | .null => 'n'
  | .undefined => 'u'
  | .boolean true => 't'
  | .boolean false => 'f'
  | .number _ => '0'
  | .string _ => '"'
  | .array _ => '['
  | _ => '{'

theorem head?_text {v : JsValue} (hv : v.Plain) (l : List Char) :
    (canonicalText v ++ l).head?.map (fun c => if isNumberChar c then '0' else c) = some (firstChar v) := by
  cases hv with
  | @number text hne hchars =>
    obtain ⟨c, rest, htext⟩ := List.exists_cons_of_ne_nil hne
    show ((text.toList ++ l).head?).map _ = some '0'
    rw [htext] at hchars ⊢
    exact congrArg some (if_pos (hchars c List.mem_cons_self))
  | _ => rfl

theorem firstChar_eq {v w : JsValue} (hv : v.Plain) (hw : w.Plain) {l m : List Char}
    (h : canonicalText v ++ l = canonicalText w ++ m) : firstChar v = firstChar w := by
  have hfirst := head?_text hv l
  rw [h, head?_text hw m] at hfirst
  exact (Option.some.inj hfirst).symm

theorem number_reads {text text' : String} {l m : List Char}
    (htext : ∀ c ∈ text.toList, isNumberChar c = true)
    (htext' : ∀ c ∈ text'.toList, isNumberChar c = true) (hl : Ends l) (hm : Ends m)
    (h : text.toList ++ l = text'.toList ++ m) : text = text' ∧ l = m := by
  have hread := takeWhile_number htext hl
  rw [h, takeWhile_number htext' hm] at hread
  obtain rfl := String.toList_injective hread
  exact ⟨rfl, List.append_cancel_left h⟩

section Lists

variable {α β : Type} {text : α → List Char} {f : α → β} {Good : α → Prop} {close : Char} {as bs : List α}
  {l m : List Char}

theorem ends_commas (hclose : isNumberChar close = false) (as : List α) (l : List Char) :
    Ends (as.flatMap (fun a => ',' :: text a) ++ close :: l) := by
  cases as with
  | nil => exact ends_cons hclose l
  | cons a as => exact ends_cons rfl _

theorem commas_read (hclose : isNumberChar close = false) (hcomma : close ≠ ',')
    (hreads : ∀ a ∈ as, ∀ b l m, Good b → Ends l → Ends m → text a ++ l = text b ++ m → f a = f b ∧ l = m)
    (hbs : ∀ b ∈ bs, Good b)
    (h : as.flatMap (fun a => ',' :: text a) ++ close :: l = bs.flatMap (fun b => ',' :: text b) ++ close :: m) :
    as.map f = bs.map f ∧ l = m := by
  induction as generalizing bs with
  | nil =>
    cases bs with
    | nil => exact ⟨rfl, (List.cons.inj h).2⟩
    | cons b bs => exact absurd (List.cons.inj h).1 hcomma
  | cons a as ih =>
    cases bs with
    | nil => exact absurd (List.cons.inj h).1.symm hcomma
    | cons b bs =>
      obtain ⟨hb, hbs⟩ := List.forall_mem_cons.mp hbs
      obtain ⟨hfirst, hothers⟩ := List.forall_mem_cons.mp hreads
      rw [List.flatMap_cons, List.flatMap_cons, List.append_assoc, List.append_assoc] at h
      obtain ⟨hread, hrest⟩ := hfirst b _ _ hb (ends_commas hclose as l) (ends_commas hclose bs m) (List.cons.inj h).2
      obtain ⟨hreads, hlm⟩ := ih hothers hbs hrest
      exact ⟨by rw [List.map_cons, List.map_cons, hread, hreads], hlm⟩

/-- The texts of a list are read one by one. -/
theorem joined_read (hclose : isNumberChar close = false) (hcomma : close ≠ ',')
    (hstart : ∀ a, Good a → ∀ l m, text a ++ l ≠ close :: m) (has : ∀ a ∈ as, Good a)
    (hreads : ∀ a ∈ as, ∀ b l m, Good b → Ends l → Ends m → text a ++ l = text b ++ m → f a = f b ∧ l = m)
    (hbs : ∀ b ∈ bs, Good b)
    (h : [','].intercalate (as.map text) ++ close :: l = [','].intercalate (bs.map text) ++ close :: m) :
    as.map f = bs.map f ∧ l = m := by
  cases as with
  | nil =>
    cases bs with
    | nil => exact ⟨rfl, (List.cons.inj h).2⟩
    | cons b bs =>
      rw [List.map_cons, Json.intercalate_comma, List.append_assoc] at h
      exact absurd h.symm (hstart b (hbs b List.mem_cons_self) _ _)
  | cons a as =>
    cases bs with
    | nil =>
      rw [List.map_cons, Json.intercalate_comma, List.append_assoc] at h
      exact absurd h (hstart a (has a List.mem_cons_self) _ _)
    | cons b bs =>
      obtain ⟨hb, hbs⟩ := List.forall_mem_cons.mp hbs
      obtain ⟨hfirst, hothers⟩ := List.forall_mem_cons.mp hreads
      rw [List.map_cons, List.map_cons, Json.intercalate_comma, Json.intercalate_comma, List.append_assoc,
        List.append_assoc, List.flatMap_map, List.flatMap_map] at h
      obtain ⟨hread, hrest⟩ := hfirst b _ _ hb (ends_commas hclose as l) (ends_commas hclose bs m) h
      obtain ⟨hreads, hlm⟩ := commas_read hclose hcomma hothers hbs hrest
      exact ⟨by rw [List.map_cons, List.map_cons, hread, hreads], hlm⟩

end Lists

theorem canonicalText_reads {v w : JsValue} {l m : List Char} (hv : v.Plain) (hw : w.Plain) (hl : Ends l) (hm : Ends m)
    (h : canonicalText v ++ l = canonicalText w ++ m) : v.Same w ∧ l = m := by
  have hfirst := firstChar_eq hv hw h
  induction hv generalizing w l m with
  | null =>
    cases hw with
    | null => exact ⟨rfl, List.append_cancel_left h⟩
    | _ => cases hfirst
  | undefined =>
    cases hw with
    | undefined => exact ⟨rfl, List.append_cancel_left h⟩
    | _ => cases hfirst
  | true =>
    cases hw with
    | true => exact ⟨rfl, List.append_cancel_left h⟩
    | _ => cases hfirst
  | false =>
    cases hw with
    | false => exact ⟨rfl, List.append_cancel_left h⟩
    | _ => cases hfirst
  | number hne hchars =>
    cases hw with
    | number hne' hchars' =>
      obtain ⟨rfl, hlm⟩ := number_reads hchars hchars' hl hm h
      exact ⟨rfl, hlm⟩
    | _ => cases hfirst
  | string s =>
    cases hw with
    | string s' =>
      obtain ⟨rfl, hlm⟩ := jsonString_delimited s s' l m h
      exact ⟨rfl, hlm⟩
    | _ => cases hfirst
  | @array items hitems ih =>
    cases hw with
    | @array items' hitems' =>
      rw [canonicalText_array, canonicalText_array, List.cons_append, List.cons_append, List.append_assoc,
        List.append_assoc] at h
      have hstart : ∀ v : JsValue, v.Plain → ∀ l m, canonicalText v ++ l ≠ ']' :: m := by
        intro v hv l m h
        have hfirst := head?_text hv l
        rw [h] at hfirst
        cases hv <;> cases Option.some.inj hfirst
      obtain ⟨hreads, hlm⟩ := joined_read (f := sorted) rfl (by decide) hstart hitems
        (fun v hv w l m hw hl hm h => ih v hv hw hl hm h (firstChar_eq (hitems v hv) hw h)) hitems' (List.cons.inj h).2
      unfold Same sorted
      rw [sortedItems_eq, sortedItems_eq, hreads]
      exact ⟨rfl, hlm⟩
    | _ => cases hfirst
  | @object properties hproperties ih =>
    cases hw with
    | @object properties' hproperties' =>
      rw [canonicalText_object, canonicalText_object, List.cons_append, List.cons_append, List.append_assoc,
        List.append_assoc] at h
      have hplain : ∀ {properties : List (String × JsValue)}, (∀ p ∈ properties, p.2.Plain) →
          ∀ p ∈ sortByKey properties, p.2.Plain := fun h p hp => h p ((sortByKey_perm _).mem_iff.mp hp)
      have hread : ∀ p ∈ sortByKey properties, ∀ (q : String × JsValue) (l m : List Char), q.2.Plain → Ends l → Ends m →
          propertyText p ++ l = propertyText q ++ m → (p.1, p.2.sorted) = (q.1, q.2.sorted) ∧ l = m := by
        rintro ⟨k, v⟩ hp ⟨k', w⟩ l m hw hl hm h
        unfold propertyText at h
        rw [List.append_assoc, List.append_assoc] at h
        obtain ⟨rfl, hvalue⟩ := jsonString_delimited k k' _ _ h
        have hmem := (sortByKey_perm _).mem_iff.mp hp
        have htexts := (List.cons.inj hvalue).2
        obtain ⟨hsame, hlm⟩ := ih _ hmem hw hl hm htexts (firstChar_eq (hproperties _ hmem) hw htexts)
        exact ⟨by rw [hsame], hlm⟩
      have hstart : ∀ p : String × JsValue, p.2.Plain → ∀ l m, propertyText p ++ l ≠ '}' :: m := by
        intro p _ l m h
        unfold propertyText jsonString at h
        cases (List.cons.inj h).1
      obtain ⟨hreads, hlm⟩ := joined_read rfl (by decide) hstart
        (hplain hproperties) hread (hplain hproperties') (List.cons.inj h).2
      unfold Same sorted
      rw [sortedProperties_eq, sortedProperties_eq, sortByKey_map, sortByKey_map, hreads]
      exact ⟨rfl, hlm⟩
    | _ => cases hfirst

theorem control_notNumber {x : Char} (hx : x.toNat < 32) : isNumberChar x = false := by
  have hdigit : x.isDigit = false := by
    rw [Bool.eq_false_iff]
    intro h
    simp only [Char.isDigit, Bool.and_eq_true, decide_eq_true_eq] at h
    have hlow : 48 ≤ x.toNat := h.1
    omega
  simp [isNumberChar, hdigit, control_ne hx]

theorem notMem_joined {x close : Char} {texts : List (List Char)} (hcomma : x ≠ ',') (hclose : x ≠ close)
    (h : ∀ text ∈ texts, x ∉ text) : x ∉ [','].intercalate texts ++ [close] := by
  cases texts with
  | nil => simpa using hclose
  | cons text texts =>
    rw [Json.intercalate_comma]
    simp only [List.mem_append, List.mem_flatMap, List.mem_cons, List.not_mem_nil, or_false, not_or, not_exists, not_and]
    exact ⟨⟨h _ List.mem_cons_self, fun t ht => ⟨hcomma, h t (List.mem_cons_of_mem _ ht)⟩⟩, hclose⟩

theorem control_notMem_text {x : Char} (hx : x.toNat < 32) {v : JsValue} (hv : v.Plain) : x ∉ canonicalText v := by
  induction hv with
  | null =>
    show x ∉ ['n', 'u', 'l', 'l']
    simp [control_ne hx]
  | undefined =>
    show x ∉ ['u', 'n', 'd', 'e', 'f', 'i', 'n', 'e', 'd']
    simp [control_ne hx]
  | true =>
    show x ∉ ['t', 'r', 'u', 'e']
    simp [control_ne hx]
  | false =>
    show x ∉ ['f', 'a', 'l', 's', 'e']
    simp [control_ne hx]
  | number hne hchars =>
    intro hmem
    have hnumber := hchars x hmem
    rw [control_notNumber hx] at hnumber
    cases hnumber
  | string s => exact control_notMem_jsonString hx s
  | array hitems ih =>
    rw [canonicalText_array, List.mem_cons, not_or]
    refine ⟨control_ne hx (by decide), notMem_joined (control_ne hx (by decide)) (control_ne hx (by decide)) ?_⟩
    simpa using ih
  | @object properties hproperties ih =>
    rw [canonicalText_object, List.mem_cons, not_or]
    refine ⟨control_ne hx (by decide), notMem_joined (control_ne hx (by decide)) (control_ne hx (by decide)) ?_⟩
    intro text htext
    obtain ⟨p, hp, rfl⟩ := List.mem_map.mp htext
    have hp := ih p ((sortByKey_perm _).mem_iff.mp hp)
    simp [propertyText, control_notMem_jsonString hx, control_ne hx, hp]

theorem nul_notMem_canonicalText {v : JsValue} (hv : v.Typed) (hs : serializable v = true) : '\x00' ∉ canonicalText v := by
  rw [← canonicalText_written]
  exact control_notMem_text (by decide) (plain_written hv hs)

theorem canonicalText_eq_iff {v w : JsValue} (hv : v.Typed) (hw : w.Typed)
    (hsv : serializable v = true) (hsw : serializable w = true) :
    canonicalText v = canonicalText w ↔ v.written.Same w.written := by
  rw [← canonicalText_written v, ← canonicalText_written w]
  constructor
  · intro h
    have hends : Ends [] := fun c hc => by cases hc
    exact (canonicalText_reads (plain_written hv hsv) (plain_written hw hsw) hends hends (congrArg (· ++ []) h)).1
  · intro h
    rw [← canonicalText_sorted v.written, ← canonicalText_sorted w.written]
    exact congrArg canonicalText h

end Premise.GuardedTools
