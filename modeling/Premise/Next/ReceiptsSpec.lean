import Premise.Next.PythonReceipts

/-!
# Agreement on receipts

The receipts and requirements on which the runtime and the reference are compared, what their agreement is, and
when they agree.
-/

namespace Premise.Next

open Collections Js Python

variable {T κ : Type} [LinearOrder κ]

/-- A text of ASCII characters, not all of them white space. -/
structure PlainText (text : String) : Prop where
  ascii : ∀ c ∈ text.toList, c.toNat < 128
  nonBlank : Js.nonEmpty text = true

structure PlainScope (scope : ReceiptScope) : Prop where
  texts : ∀ p ∈ scope.texts, PlainText p.2
  lists : ∀ p ∈ scope.lists, ∀ value ∈ p.2, PlainText value

/-- The last `n` decimal digits of a number. -/
def digitChars : Nat → Nat → List Char
  | 0, _ => []
  | n + 1, value => Char.ofNat (48 + value / 10 ^ n % 10) :: digitChars n value

/-- A time of a day, in UTC. -/
structure UtcTime (p : DateParts) : Prop where
  year : p.year ≤ 9999
  month : 1 ≤ p.month ∧ p.month ≤ 12
  day : 1 ≤ p.day ∧ p.day ≤ daysInMonth p.year p.month
  hour : p.hour ≤ 23
  minute : p.minute ≤ 59
  second : p.second ≤ 59
  millisecond : p.millisecond ≤ 999
  utc : p.offset = (1, 0, 0)

/-- `YYYY-MM-DDTHH:mm:ss.sss`. -/
def dateChars (p : DateParts) : List Char :=
  digitChars 4 p.year ++ '-' :: digitChars 2 p.month ++ '-' :: digitChars 2 p.day ++ 'T' :: digitChars 2 p.hour
    ++ ':' :: digitChars 2 p.minute ++ ':' :: digitChars 2 p.second ++ '.' :: digitChars 3 p.millisecond

/-- `YYYY-MM-DDTHH:mm:ss.sssZ`. -/
def utcText (p : DateParts) : String := String.ofList (dateChars p ++ ['Z'])

def UtcTimestamp (text : String) : Prop := ∃ p, UtcTime p ∧ text = utcText p

structure PlainCandidate (candidate : ReceiptCandidate T) : Prop where
  receiptId : PlainText candidate.receiptId
  scope : PlainScope candidate.scope
  observedAt : UtcTimestamp candidate.observedAt
  expiresAt : UtcTimestamp candidate.expiresAt

structure PlainRequirement (requirement : ReceiptRequirement) : Prop where
  scope : PlainScope requirement.scope
  queryParts : ∀ value ∈ requirement.requiredQueryParts, PlainText value
  scopes : ∀ value ∈ requirement.requiredScopes, PlainText value
  frontier : ∀ value ∈ requirement.requiredFrontier, PlainText value
  now : UtcTimestamp requirement.now

/-- The values are sorted and duplicate-free, and none of them is blank. -/
structure StringSet (values : List String) : Prop where
  nonBlank : ∀ value ∈ values, Js.nonEmpty value = true
  ascending : values.Pairwise (fun a b => codeUnits a < codeUnits b)

structure WellFormedScope (scope : ReceiptScope) : Prop where
  texts : ∀ p ∈ scope.texts, Js.nonEmpty p.2 = true
  lists : ∀ p ∈ scope.lists, StringSet p.2

structure IsTimestamp (text : String) : Prop where
  nonBlank : Js.nonEmpty text = true
  parses : (dateParse text).isSome

structure WellFormedCandidate (candidate : ReceiptCandidate T) : Prop where
  receiptId : Js.nonEmpty candidate.receiptId = true
  scope : WellFormedScope candidate.scope
  observedAt : IsTimestamp candidate.observedAt
  expiresAt : IsTimestamp candidate.expiresAt

structure WellFormedRequirement (requirement : ReceiptRequirement) : Prop where
  scope : WellFormedScope requirement.scope
  queryParts : StringSet requirement.requiredQueryParts
  scopes : StringSet requirement.requiredScopes
  frontier : StringSet requirement.requiredFrontier
  now : IsTimestamp requirement.now

/-- The runtime and the reference give the same answers. -/
structure Agree (localeCompare : String → String → Int) (candidates : List (ReceiptCandidate T))
    (requirement : ReceiptRequirement) : Prop where
  assessed : ∀ candidate ∈ candidates,
    (assessReceiptSubsumption candidate requirement).eligible
        = (Reference.assessReceiptSubsumption candidate requirement).eligible
      ∧ (assessReceiptSubsumption candidate requirement).reason
        = (Reference.assessReceiptSubsumption candidate requirement).reason
  selected : (selectSubsumingReceipt localeCompare candidates requirement).receipt.map ReceiptCandidate.receiptId
    = (Reference.selectSubsumingReceipt candidates requirement).receipt.map ReceiptCandidate.receiptId

def instant (text : String) : Int := (dateParse text).getD 0

def Ascending (values : List String) : Prop := values.Pairwise (fun a b => codePoints a < codePoints b)

def ScopesAscending (candidate : ReceiptCandidate T) (requirement : ReceiptRequirement) : Prop :=
  (∀ p ∈ candidate.scope.lists, Ascending p.2) ∧ ∀ p ∈ requirement.scope.lists, Ascending p.2

def RequiredAscending (requirement : ReceiptRequirement) : Prop :=
  Ascending requirement.requiredQueryParts ∧ Ascending requirement.requiredScopes ∧ Ascending requirement.requiredFrontier

/-- The receipt was observed before it expires, and not in the future. -/
def Observed (candidate : ReceiptCandidate T) (requirement : ReceiptRequirement) : Prop :=
  instant candidate.observedAt < instant candidate.expiresAt ∧ instant candidate.observedAt ≤ instant requirement.now

def Expired (candidate : ReceiptCandidate T) (requirement : ReceiptRequirement) : Prop :=
  instant candidate.expiresAt ≤ instant requirement.now

def scopeTexts (scope : ReceiptScope) : List String := scope.texts.map Prod.snd ++ scope.lists.flatMap Prod.snd

/-- A text of white space and the characters U+001C to U+001F only, or an instant in the year 0. -/
def Refused (candidate : ReceiptCandidate T) (requirement : ReceiptRequirement) : Prop :=
  (∃ text ∈ candidate.receiptId :: scopeTexts candidate.scope ++ scopeTexts requirement.scope
      ++ requirement.requiredQueryParts ++ requirement.requiredScopes ++ requirement.requiredFrontier,
    ∀ c ∈ text.toList, c.toNat ∈ spaces)
  ∨ ∃ text ∈ [candidate.observedAt, candidate.expiresAt, requirement.now], text.toList.take 4 = ['0', '0', '0', '0']

/-- The scopes are the same but for what they cover. -/
def SameIdentity (candidate required : ReceiptScope) : Prop :=
  { candidate with
    queryDigest := required.queryDigest
    scopes := required.scopes
    causalFrontier := required.causalFrontier
    queryParts := required.queryParts } = required

/-- The candidate covers the requirement, apart from its causal frontier. -/
structure Covers (candidate : ReceiptCandidate T) (requirement : ReceiptRequirement) : Prop where
  identity : SameIdentity candidate.scope requirement.scope
  queryParts : requirement.requiredQueryParts ⊆ candidate.scope.queryParts
  scopes : requirement.requiredScopes ⊆ candidate.scope.scopes
  frontier : requirement.requiredFrontier ⊆ requirement.scope.causalFrontier

/-- Different causal frontiers that are the same when they are joined by U+0000. -/
def FrontiersCollide (candidate : ReceiptCandidate T) (requirement : ReceiptRequirement) : Prop :=
  candidate.scope.causalFrontier ≠ requirement.scope.causalFrontier
    ∧ joinNul candidate.scope.causalFrontier = joinNul requirement.scope.causalFrontier

/-- The reasons of the runtime and of the reference differ. -/
def Diverges (candidate : ReceiptCandidate T) (requirement : ReceiptRequirement) : Prop :=
  ScopesAscending candidate requirement ∧ Observed candidate requirement
    ∧ (Expired candidate requirement ∧ (¬ RequiredAscending requirement ∨ Refused candidate requirement)
      ∨ ¬ Expired candidate requirement ∧ RequiredAscending requirement
        ∧ (Refused candidate requirement ∨ Covers candidate requirement ∧ FrontiersCollide candidate requirement))

def Matches (requirement : ReceiptRequirement) (candidate : ReceiptCandidate T) : Prop :=
  ScopesAscending candidate requirement ∧ RequiredAscending requirement ∧ ¬ Refused candidate requirement
    ∧ Observed candidate requirement ∧ ¬ Expired candidate requirement ∧ Covers candidate requirement
    ∧ candidate.scope.causalFrontier = requirement.scope.causalFrontier

/-- The rank of a receipt in the runtime: observed later, expiring later, by the collation key of its id. -/
def receiptRank (collationKey : String → κ) (candidate : ReceiptCandidate T) : Intᵒᵈ ×ₗ Intᵒᵈ ×ₗ κ :=
  toLex (OrderDual.toDual (instant candidate.observedAt), toLex (OrderDual.toDual (instant candidate.expiresAt),
    collationKey candidate.receiptId))

/-- What the receipt was issued for is what is required, at an instant of its validity. -/
structure Subsumes (candidate : ReceiptCandidate T) (requirement : ReceiptRequirement) : Prop where
  covers : Covers candidate requirement
  frontiers : candidate.scope.causalFrontier = requirement.scope.causalFrontier
  observed : instant candidate.observedAt ≤ instant requirement.now
  unexpired : instant requirement.now < instant candidate.expiresAt

/-- Nothing but its causal frontier keeps the receipt from subsuming the requirement, and the frontiers join to one text. -/
structure StandsIn (candidate : ReceiptCandidate T) (requirement : ReceiptRequirement) : Prop where
  covers : Covers candidate requirement
  collide : FrontiersCollide candidate requirement
  observed : instant candidate.observedAt ≤ instant requirement.now
  unexpired : instant requirement.now < instant candidate.expiresAt

def Eligible (requirement : ReceiptRequirement) (candidate : ReceiptCandidate T) : Prop :=
  (assessReceiptSubsumption candidate requirement).eligible = true

/-- Exactly the subsuming receipts are eligible, and of these the first one is selected, in whatever order they come. -/
structure Subsumption (localeCompare : String → String → Int) (collationKey : String → κ)
    (candidates : List (ReceiptCandidate T)) (requirement : ReceiptRequirement) : Prop where
  eligible : ∀ candidate ∈ candidates, Eligible requirement candidate ↔ Subsumes candidate requirement
  selects : ∀ order, order.Perm candidates → (∃ candidate ∈ candidates, Eligible requirement candidate) →
    ∃ best ∈ candidates, (selectSubsumingReceipt localeCompare order requirement).receipt = some best ∧
      Eligible requirement best ∧ ∀ candidate ∈ candidates, Eligible requirement candidate →
        receiptRank collationKey best ≤ receiptRank collationKey candidate

/-- No reasons differ, and the first of the matching receipts in the rank of the runtime has the least id. -/
def Coincide (collationKey : String → κ) (candidates : List (ReceiptCandidate T)) (requirement : ReceiptRequirement) : Prop :=
  (∀ candidate ∈ candidates, ¬ Diverges candidate requirement)
    ∧ ∀ best, FirstBest (receiptRank collationKey) (Matches requirement) candidates best →
      ∀ candidate ∈ candidates, Matches requirement candidate →
        codePoints best.receiptId ≤ codePoints candidate.receiptId

end Premise.Next
