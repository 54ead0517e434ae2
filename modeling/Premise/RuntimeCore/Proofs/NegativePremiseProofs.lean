import Premise.Js.JsonRead
import Premise.RuntimeCore.Proofs.NegativeCachesProofs

/-!
# Proofs: where negative premises come from

What one call leaves in the store was there before it, or is what the call put; and it is nothing that the call
removes. Every stored premise of a run therefore comes from the last `putAbsent` with its identity, after every
call that would have removed it.
-/

namespace Premise.RuntimeCore

open Collections Control Js BoundedCache

namespace BoundedCache

variable {α : Type} {tenantOf : α → String} {c c' : BoundedCache α} {key k : String} {entry held : α}

theorem Keeps.of_get? (h : Keeps c c') (hget : c'.held.entries.get? k = some held) : c.held.entries.get? k = some held := by
  rwa [h.held] at hget

theorem Drops.of_get? {e : String × α} (h : Drops tenantOf c c' e) (hget : c'.held.entries.get? k = some held) :
    c.held.entries.get? k = some held := by
  rw [h.get?] at hget
  split_ifs at hget
  exact hget

theorem of_get?_store (h : Within tenantOf c) (hstore : c.store tenantOf key entry = some c')
    (hget : c'.held.entries.get? k = some held) :
    (k = key ∧ held = entry) ∨ (k ≠ key ∧ c.held.entries.get? k = some held) := by
  obtain ⟨c₁, c₂, hcall, hstores⟩ := exists_stores (h.written key entry)
  obtain rfl := Option.some.inj (hstore.symm.trans hcall)
  have hfirst : c₁.held.entries.get? k = some held := by
    rcases hstores.own with ⟨-, hkeeps⟩ | ⟨-, e, -, hdrops⟩
    · exact hkeeps.of_get? hget
    · exact hdrops.of_get? hget
  have hwritten : (c.write tenantOf key entry).held.entries.get? k = some held := by
    rcases hstores.total with ⟨-, hkeeps⟩ | ⟨-, e, -, hdrops⟩
    · exact hkeeps.of_get? hfirst
    · exact hdrops.of_get? hfirst
  by_cases hk : k = key
  · subst hk
    have hset : (c.write tenantOf k entry).held.entries.get? k = some entry := OrderedMap.get?_set_self _ _ _
    exact .inl ⟨rfl, Option.some.inj (hwritten.symm.trans hset)⟩
  · rw [c.get?_written key entry hk] at hwritten
    exact .inr ⟨hk, hwritten⟩

theorem of_get?_remove (hget : (c.remove tenantOf key).1.held.entries.get? k = some held) :
    k ≠ key ∧ c.held.entries.get? k = some held := by
  have hremove : (c.held.remove tenantOf key).1.entries.get? k = some held := hget
  rw [CountedMap.get?_remove] at hremove
  split_ifs at hremove with hk
  exact ⟨hk, hremove⟩

end BoundedCache

namespace NegativePremiseStore

variable {digest : String → String} {dateParse : String → Option Int}

theorem canonicalText_injective : Function.Injective canonicalText := by
  intro scope scope' h
  have hread := congrArg parseJson (String.ofList_injective h)
  rw [parseJson_stringify (by simp [Json.WellFormed, Json.WellFormedFields]),
    parseJson_stringify (by simp [Json.WellFormed, Json.WellFormedFields])] at hread
  cases scope
  cases scope'
  simpa [and_comm, and_assoc, and_left_comm] using hread

theorem of_negativePremiseKey (hdigest : Function.Injective digest) {scope scope' : NegativePremiseIdentity} {key : String}
    (h : negativePremiseKey digest scope = .ok key) (h' : negativePremiseKey digest scope' = .ok key) :
    scope = scope' := by
  obtain ⟨u, -, hkey⟩ := of_bind_ok h
  obtain ⟨u', -, hkey'⟩ := of_bind_ok h'
  have htext := (Except.ok.inj hkey).trans (Except.ok.inj hkey').symm
  exact canonicalText_injective (hdigest (String.append_right_inj _ |>.mp htext))

theorem of_putKey_ok {input : NegativePremise} {key : String} (h : putKey digest dateParse input = .ok key) :
    (dateParse input.observedAt).isSome = true ∧ (dateParse input.expiresAt).isSome = true ∧
      negativePremiseKey digest input.toNegativePremiseIdentity = .ok key := by
  have hdate : ∀ {value name : String} {instant : Int}, timestamp dateParse value name = .ok instant →
      (dateParse value).isSome = true := by
    intro value name instant htimestamp
    obtain ⟨u, -, hread⟩ := of_bind_ok htimestamp
    cases hparse : dateParse value with
    | none => rw [hparse] at hread; cases hread
    | some instant => rfl
  obtain ⟨u, -, h⟩ := of_bind_ok h
  obtain ⟨observedAt, hobserved, h⟩ := of_bind_ok h
  obtain ⟨expiresAt, hexpires, h⟩ := of_bind_ok h
  obtain ⟨u', -, h⟩ := of_bind_ok h
  split_ifs at h
  exact ⟨hdate hobserved, hdate hexpires, h⟩

theorem of_checkArguments_ok {scope : NegativePremiseIdentity} {now : String}
    {observation : Option NegativePremiseObservation} {instant : Int} {seen : NegativePremiseObservation}
    (h : checkArguments dateParse scope now observation = .ok (instant, seen)) :
    dateParse now = some instant ∧ observation = some seen := by
  obtain ⟨u, -, h⟩ := of_bind_ok h
  obtain ⟨instant', hnow, h⟩ := of_bind_ok h
  obtain ⟨seen', hseen, h⟩ := of_bind_ok h
  cases h
  constructor
  · obtain ⟨u', -, hread⟩ := of_bind_ok hnow
    cases hparse : dateParse now with
    | none => rw [hparse] at hread; cases hread
    | some value =>
      rw [hparse] at hread
      exact congrArg some (Except.ok.inj hread)
  · cases observation with
    | none => cases hseen
    | some observation =>
      obtain ⟨u', -, hseen⟩ := of_bind_ok hseen
      obtain ⟨u'', -, hseen⟩ := of_bind_ok hseen
      split_ifs at hseen
      exact congrArg some (Except.ok.inj hseen)

/-- A call that returns takes what is stored for an identity out of the store: everything is cleared, its resource
    appears, or it is put again. -/
def Removes (digest : String → String) (dateParse : String → Option Int) (scope : NegativePremiseIdentity) :
    Call → Prop
  | .putAbsent input => (∃ key, putKey digest dateParse input = .ok key) ∧ input.toNegativePremiseIdentity = scope
  | .check _ _ _ => False
  | .invalidateOnAppearance tenantId resource incarnationId =>
    (∃ c : NegativePremiseStore, ∃ removed, (invalidateOnAppearance c tenantId resource incarnationId).2 = .ok removed) ∧
      scope.tenantId = tenantId ∧ scope.resource = resource
  | .clear => True

theorem of_get?_removeAll {c : NegativePremiseStore} {keys : List String} {k : String} {held : StoredNegativePremise}
    (hget : (removeAll c keys).1.held.entries.get? k = some held) : k ∉ keys ∧ c.held.entries.get? k = some held := by
  unfold removeAll at hget
  generalize (0 : Nat) = n at hget
  induction keys generalizing c n with
  | nil => exact ⟨List.not_mem_nil, hget⟩
  | cons key keys ih =>
    rw [List.foldl_cons] at hget
    obtain ⟨hnot, hrest⟩ := ih _ hget
    obtain ⟨hne, hold⟩ := of_get?_remove hrest
    exact ⟨fun hmem => (List.mem_cons.mp hmem).elim hne hnot, hold⟩

theorem of_perform {c c' : NegativePremiseStore} (h : c.Within tenantOf) {call : Call}
    (hcall : perform digest dateParse c call = some c') {k : String} {held : StoredNegativePremise}
    (hkeys : ∀ k held, c.held.entries.get? k = some held → negativePremiseKey digest held.toNegativePremiseIdentity = .ok k)
    (hget : c'.held.entries.get? k = some held) :
    (c.held.entries.get? k = some held ∧ ¬ Removes digest dateParse held.toNegativePremiseIdentity call) ∨
      ∃ input, call = .putAbsent input ∧ putKey digest dateParse input = .ok k ∧ held = ⟨input, k⟩ := by
  cases call with
  | putAbsent input =>
    unfold perform putAbsent at hcall
    dsimp only at hcall
    cases hput : putKey digest dateParse input with
    | error err =>
      rw [hput] at hcall
      cases hcall
      refine .inl ⟨hget, fun hremoves => ?_⟩
      obtain ⟨⟨key, hkey⟩, -⟩ := hremoves
      rw [hput] at hkey
      cases hkey
    | ok key =>
      rw [hput] at hcall
      rw [Option.map_map] at hcall
      obtain ⟨stored, hstore, hc'⟩ := Option.map_eq_some_iff.mp hcall
      obtain rfl : stored = c' := hc'
      rcases of_get?_store h hstore hget with ⟨rfl, rfl⟩ | ⟨hne, hold⟩
      · exact .inr ⟨input, rfl, hput, rfl⟩
      · refine .inl ⟨hold, fun hremoves => hne ?_⟩
        have hheld := hkeys k held hold
        rw [← hremoves.2, (of_putKey_ok hput).2.2] at hheld
        exact (Except.ok.inj hheld).symm
  | check scope now observation =>
    refine .inl ⟨?_, id⟩
    cases hcall
    revert hget
    unfold check
    split
    · exact id
    split
    · exact id
    split
    · exact id
    split_ifs
    · exact id
    · exact fun hget => (of_get?_remove hget).2
    · exact id
  | invalidateOnAppearance tenantId resource incarnationId =>
    cases hcall
    cases hcheck : (do checkRequired tenantId "tenantId"; checkRequired resource "resource"
                       checkRequired incarnationId "incarnationId" : Except JsError Unit) with
    | error err =>
      have hanswer : ∀ c, invalidateOnAppearance c tenantId resource incarnationId = (c, .error err) := by
        intro c
        unfold invalidateOnAppearance
        rw [hcheck]
      rw [hanswer] at hget
      refine .inl ⟨hget, fun hremoves => ?_⟩
      obtain ⟨⟨c, removed, hok⟩, -⟩ := hremoves
      rw [hanswer] at hok
      cases hok
    | ok u =>
      unfold invalidateOnAppearance at hget
      rw [hcheck] at hget
      obtain ⟨hnot, hold⟩ := of_get?_removeAll hget
      refine .inl ⟨hold, fun hremoves => hnot ?_⟩
      refine List.mem_map.mpr ⟨(k, held), List.mem_filter.mpr ⟨(OrderedMap.get?_eq_some_iff _).mp hold, ?_⟩, rfl⟩
      exact decide_eq_true hremoves.2
  | clear =>
    cases hcall
    cases hget

/-! ## Runs -/

/-- A stored premise comes from a put in the run, after every call that removes it. -/
def Sourced (digest : String → String) (dateParse : String → Option Int) (log : List (NegativePremiseStore × Call))
    (k : String) (held : StoredNegativePremise) : Prop :=
  ∃ before c input after, log = before ++ (c, .putAbsent input) :: after ∧
    putKey digest dateParse input = .ok k ∧ held = ⟨input, k⟩ ∧ ∀ e ∈ after, ¬ Removes digest dateParse held.toNegativePremiseIdentity e.2

theorem sourced_of_reachable {p : NegativePremiseStore × List (NegativePremiseStore × Call)}
    (h : (system digest dateParse).recorded.Reachable p) :
    ∀ k held, p.1.held.entries.get? k = some held → Sourced digest dateParse p.2 k held := by
  induction h with
  | init hinit =>
    obtain ⟨⟨maxEntries, maxEntriesPerTenant, hcreate⟩, -⟩ := hinit
    obtain ⟨bounds, -, hok⟩ := of_bind_ok hcreate
    intro k held hget
    rw [← Except.ok.inj hok] at hget
    cases hget
  | @step p p' call hreach hstep ih =>
    obtain ⟨hcall, hlog⟩ := hstep
    intro k held hget
    have hkeys : ∀ k held, p.1.held.entries.get? k = some held →
        negativePremiseKey digest held.toNegativePremiseIdentity = .ok k := by
      intro k held hget
      obtain ⟨before, c, input, after, -, hput, rfl, -⟩ := ih k held hget
      exact (of_putKey_ok hput).2.2
    rw [hlog]
    rcases of_perform (within_of_reachable hreach.of_recorded) hcall hkeys hget with ⟨hold, hkept⟩ | ⟨input, rfl, hput, rfl⟩
    · obtain ⟨before, c, input, after, hbefore, hput, hheld, hafter⟩ := ih k held hold
      refine ⟨before, c, input, after ++ [(p.1, call)], by rw [hbefore]; simp, hput, hheld, ?_⟩
      intro e he
      rcases List.mem_append.mp he with he | he
      · exact hafter e he
      · obtain rfl := List.mem_singleton.mp he
        exact hkept
    · exact ⟨p.2, p.1, input, [], rfl, hput, rfl, nofun⟩

/-- The last put with exactly the identity came after every call that removes it, its time has come and has not run
    out, and the observation contradicts nothing of it. -/
def FromLastPut (digest : String → String) (dateParse : String → Option Int) (log : List (NegativePremiseStore × Call))
    (scope : NegativePremiseIdentity) (now : String) (observation : Option NegativePremiseObservation) : Prop :=
  ∃ before c input after, log = before ++ (c, .putAbsent input) :: after ∧
    input.toNegativePremiseIdentity = scope ∧ (∃ key, putKey digest dateParse input = .ok key) ∧
    (∀ e ∈ after, ¬ Removes digest dateParse scope e.2) ∧
    (∃ observedAt instant expiresAt, dateParse input.observedAt = some observedAt ∧ dateParse now = some instant ∧
      dateParse input.expiresAt = some expiresAt ∧ observedAt ≤ instant ∧ instant < expiresAt) ∧
    ∃ seen, observation = some seen ∧ (∀ id ∈ seen.incarnationId, id = scope.incarnationId) ∧
      (∀ frontier ∈ seen.frontierDigest, frontier = scope.frontierDigest) ∧ seen.entityPresent ≠ some true

/-- `USE` is answered for an identity only where its last put accounts for the answer. -/
theorem use_of_last_put (hdigest : Function.Injective digest)
    {p : NegativePremiseStore × List (NegativePremiseStore × Call)} (h : (system digest dateParse).recorded.Reachable p)
    {scope : NegativePremiseIdentity} {now : String} {observation : Option NegativePremiseObservation}
    {answer : NegativePremiseCheck} (hcheck : (check digest dateParse p.1 scope now observation).2 = .ok answer)
    (huse : answer.decision = .use) : FromLastPut digest dateParse p.2 scope now observation := by
  unfold check at hcheck
  cases harguments : checkArguments dateParse scope now observation with
  | error err =>
    rw [harguments] at hcheck
    obtain rfl := Except.ok.inj hcheck
    cases huse
  | ok arguments =>
    obtain ⟨instant, seen⟩ := arguments
    rw [harguments] at hcheck
    dsimp only at hcheck
    cases hkey : negativePremiseKey digest scope with
    | error err => rw [hkey] at hcheck; cases hcheck
    | ok key =>
      rw [hkey] at hcheck
      dsimp only at hcheck
      cases hget : p.1.held.entries.get? key with
      | none =>
        rw [hget] at hcheck
        obtain rfl := Except.ok.inj hcheck
        cases huse
      | some held =>
        rw [hget] at hcheck
        dsimp only at hcheck
        obtain ⟨before, c, input, after, hlog, hput, rfl, hafter⟩ := sourced_of_reachable h key held hget
        obtain ⟨hobservedAt, hexpiresAt, hputKey⟩ := of_putKey_ok hput
        obtain ⟨observedAt, hobserved⟩ := Option.isSome_iff_exists.mp hobservedAt
        obtain ⟨expiresAt, hexpires⟩ := Option.isSome_iff_exists.mp hexpiresAt
        have hscope : input.toNegativePremiseIdentity = scope := of_negativePremiseKey hdigest hputKey hkey
        rw [hobserved, hexpires] at hcheck
        split_ifs at hcheck with hearly hlate
        · obtain rfl := Except.ok.inj hcheck
          cases huse
        · obtain rfl := Except.ok.inj hcheck
          cases huse
        · obtain ⟨hinstant, hobservation⟩ := of_checkArguments_ok harguments
          obtain rfl := Except.ok.inj hcheck
          unfold observed at huse
          split_ifs at huse with hincarnation hfrontier hpresent
          · cases huse
          · cases huse
          · cases huse
          · subst hscope
            refine ⟨before, c, input, after, hlog, rfl, ⟨key, hput⟩, hafter,
              ⟨observedAt, instant, expiresAt, hobserved, hinstant, hexpires, by simpa using hearly, by simpa using hlate⟩,
              seen, hobservation, fun id hid => ?_, fun frontier hfrontierDigest => ?_, hpresent⟩
            · rw [hid] at hincarnation
              simpa using hincarnation
            · rw [hfrontierDigest] at hfrontier
              simpa using hfrontier

def givenPremise : NegativePremise :=
  { tenantId := "t", resource := "r", incarnationId := "i", queryDigest := "q", frontierDigest := "f",
    authorizationContextDigest := "a", reason := "NOT_FOUND", observedAt := "2026-03-01T00:00:00.000Z",
    expiresAt := "2026-03-01T00:00:02.000Z" }

def givenDigest : String → String :=
  Equiv.swap (canonicalText givenPremise.toNegativePremiseIdentity)
    "f7bc781fd69a5c3fc40a87109fc50d87233b5d1035c925ff1da1022e34ff121c"

def givenKey : String := "sha256:" ++ givenDigest (canonicalText givenPremise.toNegativePremiseIdentity)

def emptyStore : NegativePremiseStore := { bounds := ⟨1024, none⟩ }

theorem given_times : Js.dateParse givenPremise.observedAt = some 1772323200000 ∧
    Js.dateParse givenPremise.expiresAt = some 1772323202000 ∧
    Js.dateParse "2026-03-01T00:00:01.000Z" = some 1772323201000 := by
  decide +kernel

theorem putKey_given : putKey givenDigest Js.dateParse givenPremise = .ok givenKey := by
  obtain ⟨hobserved, hexpires, -⟩ := given_times
  unfold putKey timestamp
  rw [hobserved, hexpires]
  rfl

def givenStore : NegativePremiseStore :=
  { bounds := ⟨1024, none⟩
    held := (CountedMap.add tenantOf {} givenKey ⟨givenPremise, givenKey⟩)
    stats := { peakEntries := 1 } }

theorem check_given : (check givenDigest Js.dateParse givenStore givenPremise.toNegativePremiseIdentity
    "2026-03-01T00:00:01.000Z" (some { entityPresent := some false })).2 = .ok (checkOf .absent .absent) := by
  obtain ⟨hobserved, hexpires, hnow⟩ := given_times
  have harguments : checkArguments Js.dateParse givenPremise.toNegativePremiseIdentity "2026-03-01T00:00:01.000Z"
      (some { entityPresent := some false }) = .ok (1772323201000, { entityPresent := some false }) := by
    unfold checkArguments timestamp
    rw [hnow]
    rfl
  have hkey : negativePremiseKey givenDigest givenPremise.toNegativePremiseIdentity = .ok givenKey := rfl
  have hget : givenStore.held.entries.get? givenKey = some ⟨givenPremise, givenKey⟩ := OrderedMap.get?_set_self _ _ _
  unfold check
  rw [harguments, hkey]
  dsimp only
  rw [hget]
  dsimp only
  rw [hobserved, hexpires]
  rfl

theorem use_of_last_put_given : FromLastPut givenDigest Js.dateParse [(emptyStore, .putAbsent givenPremise)]
    givenPremise.toNegativePremiseIdentity "2026-03-01T00:00:01.000Z" (some { entityPresent := some false }) := by
  have hstore : emptyStore.store tenantOf givenKey ⟨givenPremise, givenKey⟩ = some givenStore := rfl
  have hperform : perform givenDigest Js.dateParse emptyStore (.putAbsent givenPremise) = some givenStore := by
    unfold perform putAbsent
    dsimp only
    rw [putKey_given]
    dsimp only
    rw [hstore]
    rfl
  have hreach : (system givenDigest Js.dateParse).recorded.Reachable (emptyStore, []) :=
    System.Reachable.init ⟨⟨none, none, rfl⟩, rfl⟩
  have hreached : (system givenDigest Js.dateParse).recorded.Reachable
      (givenStore, [(emptyStore, .putAbsent givenPremise)]) := hreach.step ⟨hperform, rfl⟩
  exact use_of_last_put (Equiv.injective _) hreached check_given rfl

end NegativePremiseStore

end Premise.RuntimeCore
