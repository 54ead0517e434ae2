import Premise.Collections.Comparison

/-!
# Binary heaps with the worst element at the root

An array in which no element is worse than its parent, with the two operations that restore this order after
a change. A heap of bounded size that is offered the elements of a list keeps the best of them.
-/

namespace Premise.Collections

namespace WorstHeap

variable {α κ : Type} [LinearOrder κ]

variable (compare : α → α → Int)

/-- The element at `index` moves up while it is worse than its parent. -/
def siftUp : Nat → Array α → Nat → Array α
  | 0, heap, _ => heap
  | fuel + 1, heap, index =>
    if h : 0 < index ∧ index < heap.size then
      have hparent : (index - 1) / 2 < heap.size := by omega
      if compare (heap[index]) (heap[(index - 1) / 2]) ≤ 0 then heap
      else siftUp fuel (heap.swap index ((index - 1) / 2) h.2 hparent) ((index - 1) / 2)
    else heap

/-- The worse one of two positions; the first when the other is none of the heap. -/
def worseOf (heap : Array α) (worst candidate : Nat) : Nat :=
  if h : candidate < heap.size ∧ worst < heap.size then
    have := h.1
    have := h.2
    if 0 < compare (heap[candidate]) (heap[worst]) then candidate else worst
  else worst

def worstAt (heap : Array α) (index : Nat) : Nat :=
  worseOf compare heap (worseOf compare heap index (index * 2 + 1)) (index * 2 + 2)

/-- The element at `index` moves down while it is better than its worst child. -/
def siftDown : Nat → Array α → Nat → Array α
  | 0, heap, _ => heap
  | fuel + 1, heap, index =>
    let worst := worstAt compare heap index
    if worst = index then heap
    else siftDown fuel (heap.swapIfInBounds index worst) worst

/-- A candidate is offered to a heap of at most `limit` elements. -/
def offer (limit : Nat) (heap : Array α) (candidate : α) : Array α :=
  if heap.size < limit then siftUp compare (heap.push candidate).size (heap.push candidate) heap.size
  else if h : 0 < heap.size then
    if 0 ≤ compare candidate heap[0] then heap
    else siftDown compare (heap.set 0 candidate).size (heap.set 0 candidate) 0
  else heap

/-! ## The order of a heap -/

section Order

variable {compare} {key : α → κ}

def Ordered (key : α → κ) (heap : Array α) : Prop :=
  ∀ i (h : i < heap.size), 0 < i → key (heap[i]) ≤ key (heap[(i - 1) / 2])

/-- The children of `index` are not worse than its parent. -/
def Bridged (key : α → κ) (heap : Array α) (index : Nat) : Prop :=
  ∀ c (h : c < heap.size), 0 < c → ∀ hchild : (c - 1) / 2 = index, 0 < index →
    have : (index - 1) / 2 < heap.size := by omega
    key (heap[c]) ≤ key (heap[(index - 1) / 2])

/-- No element but the one at `index` is worse than its parent. -/
structure UpOrdered (key : α → κ) (heap : Array α) (index : Nat) : Prop where
  others : ∀ i (h : i < heap.size), 0 < i → i ≠ index → key (heap[i]) ≤ key (heap[(i - 1) / 2])
  bridged : Bridged key heap index

/-- No element but the children of `index` is worse than its parent. -/
structure DownOrdered (key : α → κ) (heap : Array α) (index : Nat) : Prop where
  others : ∀ i (h : i < heap.size), 0 < i → (i - 1) / 2 ≠ index → key (heap[i]) ≤ key (heap[(i - 1) / 2])
  bridged : Bridged key heap index

theorem Ordered.root {heap : Array α} (h : Ordered key heap) (i : Nat) (hi : i < heap.size) :
    key (heap[i]) ≤ key (heap[0]) := by
  induction i using Nat.strong_induction_on with
  | _ i ih =>
    rcases Nat.eq_zero_or_pos i with rfl | hpos
    · exact le_rfl
    · exact (h i hi hpos).trans (ih ((i - 1) / 2) (by omega) (by omega))

variable (compare) in
theorem perm_siftUp (fuel : Nat) (heap : Array α) (index : Nat) :
    (siftUp compare fuel heap index).toList.Perm heap.toList := by
  induction fuel generalizing heap index with
  | zero => exact .refl _
  | succ fuel ih =>
    unfold siftUp
    split_ifs with h
    · dsimp only
      split_ifs
      · exact .refl _
      · exact (ih _ _).trans (Array.swap_perm h.2 (by omega)).toList
    · exact .refl _

variable (compare) in
theorem size_siftUp (fuel : Nat) (heap : Array α) (index : Nat) : (siftUp compare fuel heap index).size = heap.size :=
  (perm_siftUp compare fuel heap index).length_eq

theorem UpOrdered.swap {heap : Array α} {index : Nat} (h : UpOrdered key heap index) (hpos : 0 < index)
    (hindex : index < heap.size) (hparent : (index - 1) / 2 < heap.size)
    (hworse : key (heap[(index - 1) / 2]) < key (heap[index])) :
    UpOrdered key (heap.swap index ((index - 1) / 2) hindex hparent) ((index - 1) / 2) := by
  constructor
  · intro i hi hipos hne
    rw [Array.size_swap] at hi
    have hup : (i - 1) / 2 < heap.size := by omega
    rw [Array.getElem_swap, Array.getElem_swap]
    by_cases hiindex : i = index
    · subst hiindex
      have hne' : (i - 1) / 2 ≠ i := by omega
      simp only [if_pos, if_neg hne']
      exact hworse.le
    · rw [if_neg hiindex, if_neg hne]
      by_cases hchild : (i - 1) / 2 = index
      · rw [if_pos hchild]
        exact h.bridged i hi hipos hchild hpos
      · rw [if_neg hchild]
        have hold := h.others i hi hipos hiindex
        by_cases hsibling : (i - 1) / 2 = (index - 1) / 2
        · rw [if_pos hsibling]
          simp only [hsibling] at hold
          exact hold.trans hworse.le
        · rw [if_neg hsibling]
          exact hold
  · intro c hc hcpos hchild hup
    rw [Array.size_swap] at hc
    have hroot : ((index - 1) / 2 - 1) / 2 < heap.size := by omega
    have hne : ((index - 1) / 2 - 1) / 2 ≠ index := by omega
    have hne' : ((index - 1) / 2 - 1) / 2 ≠ (index - 1) / 2 := by omega
    have hne'' : (index - 1) / 2 ≠ index := by omega
    have habove := h.others ((index - 1) / 2) hparent hup hne''
    dsimp only
    rw [Array.getElem_swap, Array.getElem_swap, if_neg hne, if_neg hne']
    by_cases hcindex : c = index
    · rw [if_pos hcindex]
      exact habove
    · have hcparent : c ≠ (index - 1) / 2 := by omega
      rw [if_neg hcindex, if_neg hcparent]
      have hold := h.others c hc hcpos hcindex
      simp only [hchild] at hold
      exact hold.trans habove

theorem ordered_siftUp (hcompare : Compares compare key) (fuel : Nat) (heap : Array α) (index : Nat)
    (hfuel : index < fuel) (h : UpOrdered key heap index) : Ordered key (siftUp compare fuel heap index) := by
  induction fuel generalizing heap index with
  | zero => omega
  | succ fuel ih =>
    unfold siftUp
    split_ifs with hrange
    · dsimp only
      split_ifs with hle
      · intro i hi hpos
        by_cases hindex : i = index
        · subst hindex
          exact (hcompare.nonpos _ _).mp hle
        · exact h.others i hi hpos hindex
      · refine ih _ _ (by omega) (h.swap hrange.1 hrange.2 _ ?_)
        exact (hcompare.pos _ _).mp (not_le.mp hle)
    · intro i hi hpos
      by_cases hindex : i = index
      · omega
      · exact h.others i hi hpos hindex

/-- What is known of the worse one of two positions. -/
structure Worse (key : α → κ) (heap : Array α) (worst candidate r : Nat) (hr : r < heap.size) : Prop where
  either : r = worst ∨ r = candidate
  first : ∀ h : worst < heap.size, key (heap[worst]) ≤ key (heap[r])
  second : ∀ h : candidate < heap.size, key (heap[candidate]) ≤ key (heap[r])

theorem worse_worseOf (hcompare : Compares compare key) {heap : Array α} {worst : Nat} (candidate : Nat)
    (hworst : worst < heap.size) :
    ∃ hr : worseOf compare heap worst candidate < heap.size,
      Worse key heap worst candidate (worseOf compare heap worst candidate) hr := by
  unfold worseOf
  split_ifs with hrange
  · dsimp only
    split_ifs with hpos
    · exact ⟨hrange.1, .inr rfl, fun _ => ((hcompare.pos _ _).mp hpos).le, fun _ => le_rfl⟩
    · exact ⟨hworst, .inl rfl, fun _ => le_rfl, fun _ => (hcompare.nonpos _ _).mp (not_lt.mp hpos)⟩
  · exact ⟨hworst, .inl rfl, fun _ => le_rfl, fun h => absurd ⟨h, hworst⟩ hrange⟩

/-- What is known of the worst one of a position and its children. -/
structure Worst (key : α → κ) (heap : Array α) (index r : Nat) (hr : r < heap.size) : Prop where
  near : r = index ∨ (0 < r ∧ (r - 1) / 2 = index)
  self : ∀ h : index < heap.size, key (heap[index]) ≤ key (heap[r])
  children : ∀ c (h : c < heap.size), 0 < c → (c - 1) / 2 = index → key (heap[c]) ≤ key (heap[r])

theorem worst_worstAt (hcompare : Compares compare key) {heap : Array α} {index : Nat} (hindex : index < heap.size) :
    ∃ hr : worstAt compare heap index < heap.size, Worst key heap index (worstAt compare heap index) hr := by
  obtain ⟨hleft, heither, hself, hchild⟩ := worse_worseOf hcompare (index * 2 + 1) hindex
  obtain ⟨hright, heither', hfirst, hchild'⟩ := worse_worseOf hcompare (index * 2 + 2) hleft
  refine ⟨hright, ?_, fun h => (hself h).trans (hfirst hleft), ?_⟩
  · show worseOf compare heap _ (index * 2 + 2) = index ∨ _
    unfold worstAt at *
    rcases heither' with hr | hr
    · rcases heither with hl | hl
      · exact .inl (hr.trans hl)
      · exact .inr (by rw [hr, hl]; omega)
    · exact .inr (by rw [hr]; omega)
  · intro c hc hpos hparent
    rcases (by omega : c = index * 2 + 1 ∨ c = index * 2 + 2) with rfl | rfl
    · exact (hchild hc).trans (hfirst hleft)
    · exact hchild' hc

variable (compare) in
theorem perm_siftDown (fuel : Nat) (heap : Array α) (index : Nat) :
    (siftDown compare fuel heap index).toList.Perm heap.toList := by
  induction fuel generalizing heap index with
  | zero => exact .refl _
  | succ fuel ih =>
    unfold siftDown
    dsimp only
    split_ifs
    · exact .refl _
    · refine (ih _ _).trans ?_
      rw [Array.swapIfInBounds_def]
      split_ifs with hi hj
      · exact (Array.swap_perm hi hj).toList
      · exact .refl _
      · exact .refl _

variable (compare) in
theorem size_siftDown (fuel : Nat) (heap : Array α) (index : Nat) : (siftDown compare fuel heap index).size = heap.size :=
  (perm_siftDown compare fuel heap index).length_eq

theorem DownOrdered.swap {heap : Array α} {index r : Nat} (h : DownOrdered key heap index) (hindex : index < heap.size)
    (hr : r < heap.size) (hworst : Worst key heap index r hr) (hne : r ≠ index) :
    DownOrdered key (heap.swap index r hindex hr) r := by
  obtain ⟨hpos, hparent⟩ := hworst.near.resolve_left hne
  have hle := hworst.self hindex
  constructor
  · intro i hi hipos hup
    rw [Array.size_swap] at hi
    have hrange : (i - 1) / 2 < heap.size := by omega
    rw [Array.getElem_swap, Array.getElem_swap, if_neg hup]
    by_cases hir : i = r
    · have hirne : i ≠ index := by omega
      have hupindex : (i - 1) / 2 = index := by omega
      rw [if_neg hirne, if_pos hir, if_pos hupindex]
      exact hle
    · by_cases hiindex : i = index
      · have hupne : (i - 1) / 2 ≠ index := by omega
        rw [if_pos hiindex, if_neg hupne]
        simp only [hiindex]
        exact h.bridged r hr hpos hparent (by omega)
      · rw [if_neg hiindex, if_neg hir]
        by_cases hsibling : (i - 1) / 2 = index
        · rw [if_pos hsibling]
          exact hworst.children i hi hipos hsibling
        · rw [if_neg hsibling]
          exact h.others i hi hipos hsibling
  · intro c hc hcpos hchild _
    rw [Array.size_swap] at hc
    have hcindex : c ≠ index := by omega
    have hcr : c ≠ r := by omega
    dsimp only
    rw [Array.getElem_swap, Array.getElem_swap, if_neg hcindex, if_neg hcr, if_pos hparent]
    have hold := h.others c hc hcpos (by omega)
    simp only [hchild] at hold
    exact hold

theorem ordered_siftDown (hcompare : Compares compare key) (fuel : Nat) (heap : Array α) (index : Nat)
    (hfuel : heap.size ≤ index + fuel) (h : DownOrdered key heap index) :
    Ordered key (siftDown compare fuel heap index) := by
  induction fuel generalizing heap index with
  | zero =>
    intro i hi hpos
    exact h.others i hi hpos (by rw [siftDown] at hi; omega)
  | succ fuel ih =>
    unfold siftDown
    dsimp only
    by_cases hindex : index < heap.size
    · obtain ⟨hr, hworst⟩ := worst_worstAt hcompare hindex
      split_ifs with heq
      · intro i hi hpos
        by_cases hup : (i - 1) / 2 = index
        · have hle := hworst.children i hi hpos hup
          simp only [heq] at hle
          simp only [hup]
          exact hle
        · exact h.others i hi hpos hup
      · rw [Array.swapIfInBounds_def, dif_pos hindex, dif_pos hr]
        refine ih _ _ ?_ (h.swap hindex hr hworst heq)
        rw [Array.size_swap]
        have hnear := hworst.near.resolve_left heq
        omega
    · have hleft : worseOf compare heap index (index * 2 + 1) = index := dif_neg (fun h => hindex h.2)
      have heq : worstAt compare heap index = index := by
        unfold worstAt
        rw [hleft]
        exact dif_neg fun h => hindex h.2
      rw [if_pos heq]
      intro i hi hpos
      exact h.others i hi hpos (by omega)

/-! ## Offering -/

theorem perm_cons_set (heap : Array α) (candidate : α) (h : 0 < heap.size) :
    (candidate :: heap.toList).Perm (heap[0] :: (heap.set 0 candidate).toList) := by
  obtain ⟨list⟩ := heap
  cases list with
  | nil => exact absurd h (Nat.not_lt_zero 0)
  | cons root others => exact .swap root candidate others

theorem downOrdered_set {heap : Array α} (h : Ordered key heap) (candidate : α) {hsize : 0 < heap.size} :
    DownOrdered key (heap.set 0 candidate) 0 := by
  constructor
  · intro i hi hpos hup
    rw [Array.size_set] at hi
    rw [Array.getElem_set_ne hsize _ (Nat.ne_of_lt hpos), Array.getElem_set_ne hsize _ hup.symm]
    exact h i hi hpos
  · intro c hc hpos hchild hlt
    exact absurd hlt (Nat.lt_irrefl 0)

/-- The heap holds the best `limit` of some elements. -/
structure Best (key : α → κ) (limit : Nat) (seen : List α) (heap : Array α) : Prop where
  ordered : Ordered key heap
  kept : ∃ rest, seen.Perm (heap.toList ++ rest) ∧ (∀ a ∈ heap, ∀ b ∈ rest, key a ≤ key b)
    ∧ (heap.size < limit → rest = [])
  bounded : heap.size ≤ limit

theorem Best.nil (key : α → κ) (limit : Nat) : Best key limit [] #[] where
  ordered := fun i hi => absurd hi (Nat.not_lt_zero i)
  kept := ⟨[], by simp⟩
  bounded := Nat.zero_le _

theorem Best.offer (hcompare : Compares compare key) {limit : Nat} (hlimit : 0 < limit) {seen : List α} {heap : Array α}
    (h : Best key limit seen heap) (candidate : α) :
    Best key limit (seen ++ [candidate]) (offer compare limit heap candidate) := by
  obtain ⟨rest, hseen, hbetter, hrest⟩ := h.kept
  unfold WorstHeap.offer
  split_ifs with hfew hsome hworse
  · -- there is room
    have hperm := perm_siftUp compare (heap.push candidate).size (heap.push candidate) heap.size
    refine ⟨ordered_siftUp hcompare _ _ _ (by simp) ?_, ⟨[], ?_, ?_, fun _ => rfl⟩, ?_⟩
    · constructor
      · intro i hi hpos hne
        rw [Array.size_push] at hi
        have hup : (i - 1) / 2 < heap.size := by omega
        rw [Array.getElem_push_lt (by omega), Array.getElem_push_lt hup]
        exact h.ordered i (by omega) hpos
      · intro c hc hpos hchild hindex
        rw [Array.size_push] at hc
        omega
    · rw [hrest hfew, List.append_nil] at hseen
      rw [List.append_nil]
      refine .trans ?_ hperm.symm
      rw [Array.toList_push]
      exact hseen.append_right _
    · simp
    · rw [size_siftUp, Array.size_push]
      omega
  · -- the candidate is not better than the root
    refine ⟨h.ordered, ⟨rest ++ [candidate], ?_, ?_, fun h => absurd h hfew⟩, h.bounded⟩
    · rw [← List.append_assoc]
      exact hseen.append_right _
    · intro a ha b hb
      obtain hb | hb := List.mem_append.mp hb
      · exact hbetter a ha b hb
      · obtain rfl := List.mem_singleton.mp hb
        obtain ⟨i, hi, rfl⟩ := Array.getElem_of_mem ha
        exact (h.ordered.root i hi).trans ((hcompare.nonneg _ _).mp hworse)
  · -- the candidate takes the place of the root
    have hlt : key candidate < key (heap[0]) := not_le.mp (fun hle => hworse ((hcompare.nonneg _ _).mpr hle))
    have hperm := perm_siftDown compare (heap.set 0 candidate).size (heap.set 0 candidate) 0
    have hsplit := perm_cons_set heap candidate hsome
    have hroot : ∀ a ∈ heap, key a ≤ key (heap[0]) := by
      intro a ha
      obtain ⟨i, hi, rfl⟩ := Array.getElem_of_mem ha
      exact h.ordered.root i hi
    refine ⟨ordered_siftDown hcompare _ _ _ (by simp) (downOrdered_set h.ordered candidate), ⟨heap[0] :: rest, ?_, ?_, ?_⟩, ?_⟩
    · calc (seen ++ [candidate]).Perm (candidate :: seen) := List.perm_append_singleton _ _
        List.Perm _ (candidate :: (heap.toList ++ rest)) := hseen.cons _
        List.Perm _ ((heap[0] :: (heap.set 0 candidate).toList) ++ rest) := hsplit.append_right rest
        List.Perm _ ((heap.set 0 candidate).toList ++ heap[0] :: rest) := List.perm_middle.symm
        List.Perm _ _ := hperm.symm.append_right _
    · intro a ha b hb
      have ha' : a ∈ (heap.set 0 candidate).toList := hperm.mem_iff.mp (Array.mem_toList_iff.mpr ha)
      have hle : key a ≤ key (heap[0]) := by
        rw [Array.toList_set] at ha'
        rcases List.mem_or_eq_of_mem_set ha' with hmem | rfl
        · exact hroot a (Array.mem_toList_iff.mp hmem)
        · exact hlt.le
      rcases List.mem_cons.mp hb with rfl | hb
      · exact hle
      · exact hle.trans (hbetter _ (Array.getElem_mem hsome) b hb)
    · intro hsize
      rw [size_siftDown, Array.size_set] at hsize
      exact absurd hsize hfew
    · rw [size_siftDown, Array.size_set]
      exact h.bounded
  · omega

theorem best_foldl_offer (hcompare : Compares compare key) {limit : Nat} (hlimit : 0 < limit) (l : List α) {seen : List α}
    {heap : Array α} (h : Best key limit seen heap) :
    Best key limit (seen ++ l) (l.foldl (WorstHeap.offer compare limit) heap) := by
  induction l generalizing seen heap with
  | nil => rwa [List.append_nil]
  | cons a l ih =>
    have hstep := ih (h.offer hcompare hlimit a)
    rwa [List.append_assoc, List.singleton_append] at hstep

theorem sortBy_foldl_offer (hcompare : Compares compare key) {limit : Nat} (hlimit : 0 < limit) {l : List α}
    (hkeys : ∀ a ∈ l, ∀ b ∈ l, key a = key b → a = b) :
    sortBy compare (l.foldl (WorstHeap.offer compare limit) #[]).toList = (sortBy compare l).take limit := by
  obtain ⟨-, ⟨rest, hperm, hbetter, hrest⟩, hbounded⟩ := best_foldl_offer hcompare hlimit l (Best.nil key limit)
  generalize l.foldl (WorstHeap.offer compare limit) #[] = heap at *
  rw [List.nil_append] at hperm
  have hkept := sortBy_perm compare heap.toList
  have hothers := sortBy_perm compare rest
  have hsorted : (sortBy compare heap.toList ++ sortBy compare rest).Pairwise (fun a b => key a ≤ key b) := by
    refine List.pairwise_append.mpr ⟨sortBy_sorted hcompare _, sortBy_sorted hcompare _, ?_⟩
    intro a ha b hb
    exact hbetter a (Array.mem_toList_iff.mp (hkept.mem_iff.mp ha)) b (hothers.mem_iff.mp hb)
  rw [sortBy_eq hcompare hkeys ((hkept.append hothers).trans hperm.symm) hsorted]
  have hlength : (sortBy compare heap.toList).length = heap.size := hkept.length_eq
  rcases hbounded.lt_or_eq with hfew | hfull
  · rw [hrest hfew]
    have hle : (sortBy compare heap.toList).length ≤ limit := by omega
    have hnil : sortBy compare ([] : List α) = [] := rfl
    rw [hnil, List.append_nil, List.take_of_length_le hle]
  · rw [← hfull, ← hlength, List.take_left]

end Order

end WorstHeap

end Premise.Collections
