import CilMetadata.Body.LocalList

/-!
# The numbers of local slots

A slot should carry its position.  A change of the list renumbers from the changed position on, so
whether all slots carry their position afterwards is decided by the slots in front of it.

* `numbered_insert_iff`, `numbered_remove_iff`: when a change leaves every slot with its position;
* `renumbers_from`: what a change does to the numbers, whatever they were before;
* `wrong_index_stays`: a wrong number in front of a change.
-/

namespace CilMetadata.LocalList

def NumberedBelow (n : Nat) (l : LocalList) : Prop := ∀ i < n, ∀ x, l.get? i = some x → x.index = i

def Numbered (l : LocalList) : Prop := ∀ i x, l.get? i = some x → x.index = i

theorem Numbered.below {l : LocalList} (h : Numbered l) (n : Nat) : NumberedBelow n l :=
  fun i _ x hx => h i x hx

theorem numbered_ofList (locals : List Local) : Numbered (ofList locals) :=
  fun _ _ => index_ofList

/-- Slots that are renumbered from some position on all carry their position exactly if those in front
do. -/
theorem numbered_renumber_iff {start : Nat} {slots : List Local} :
    Numbered ⟨renumber start slots⟩ ↔ NumberedBelow start ⟨slots⟩ := by
  constructor
  · intro h i hi x hx
    refine h i x ?_
    rwa [get?, getElem?_renumber_of_lt slots hi]
  · intro h i x hx
    by_cases hi : start ≤ i
    · exact index_renumber hi hx
    · have hlt : i < start := Nat.lt_of_not_le hi
      rw [get?, getElem?_renumber_of_lt slots hlt] at hx
      exact h i hlt x hx

theorem numberedBelow_congr {n : Nat} {l l' : LocalList} (h : ∀ i < n, l'.get? i = l.get? i) :
    NumberedBelow n l' ↔ NumberedBelow n l := by
  constructor
  · intro hl i hi x hx
    exact hl i hi x ((h i hi).trans hx)
  · intro hl i hi x hx
    exact hl i hi x ((h i hi).symm.trans hx)

/-! ### Changes -/

/-- What a change at a position leaves: slots from there on carry their positions, those in front are
as they were. -/
structure RenumbersFrom (n : Nat) (l l' : LocalList) : Prop where
  carried : ∀ i x, n ≤ i → l'.get? i = some x → x.index = i
  kept : ∀ i < n, l'.get? i = l.get? i
  numbered_iff : Numbered l' ↔ NumberedBelow n l

theorem renumbersFrom_renumber {n : Nat} {slots slots' : List Local}
    (h : ∀ i < n, slots'[i]? = slots[i]?) : RenumbersFrom n ⟨slots⟩ ⟨renumber n slots'⟩ where
  carried _ _ hi hx := index_renumber hi hx
  kept i hi := (getElem?_renumber_of_lt slots' hi).trans (h i hi)
  numbered_iff := numbered_renumber_iff.trans (numberedBelow_congr h)

theorem insert_of_le {l : LocalList} {i : Nat} (hi : i ≤ l.length) (x : Local) :
    l.insert i x = (.ok (), ⟨renumber i (l.slots.insertIdx i x)⟩) :=
  if_neg (Nat.not_lt.mpr hi)

theorem insert_of_lt {l : LocalList} {i : Nat} (hi : l.length < i) (x : Local) :
    l.insert i x = (.error .outOfBounds, l) :=
  if_pos hi

theorem remove_of_get? {l : LocalList} {i : Nat} {x : Local} (hx : l.get? i = some x) :
    l.remove i = (.ok x, ⟨renumber i (l.slots.eraseIdx i)⟩) := by
  rw [get?] at hx
  simp only [remove, hx]

theorem remove_of_le {l : LocalList} {i : Nat} (hi : l.length ≤ i) :
    l.remove i = (.error .outOfBounds, l) := by
  have hnone : l.slots[i]? = none := List.getElem?_eq_none_iff.mpr hi
  simp only [remove, hnone]

theorem renumbersFrom_insert {l : LocalList} {i : Nat} (hi : i ≤ l.length) (x : Local) :
    RenumbersFrom i l (l.insert i x).2 := by
  rw [insert_of_le hi]
  exact renumbersFrom_renumber fun j hj => List.getElem?_insertIdx_of_lt hj

theorem renumbersFrom_remove {l : LocalList} {i : Nat} (hi : i < l.length) :
    RenumbersFrom i l (l.remove i).2 := by
  rw [remove_of_get? (List.getElem?_eq_getElem hi)]
  exact renumbersFrom_renumber fun j hj => List.getElem?_eraseIdx_of_lt hj

/-- **Numbers.**  In every list, also one with wrong numbers: after an insertion or a removal the slots
from its position on carry their positions, those in front are as they were, so all slots carry their
positions exactly if those in front did. -/
theorem renumbers_from (l : LocalList) (i : Nat) :
    (∀ x, i ≤ l.length → (l.insert i x).1 = .ok () ∧ RenumbersFrom i l (l.insert i x).2) ∧
    (i < l.length → (∃ x, (l.remove i).1 = .ok x) ∧ RenumbersFrom i l (l.remove i).2) := by
  refine ⟨fun x hi => ⟨?_, renumbersFrom_insert hi x⟩, fun hi => ⟨?_, renumbersFrom_remove hi⟩⟩
  · rw [insert_of_le hi]
  · exact ⟨l.slots[i], by rw [remove_of_get? (List.getElem?_eq_getElem hi)]⟩

/-- Two locals whose numbers were overwritten. -/
def misnumbered : LocalList :=
  (run step [.set 0 { Local.plain with index := 7 }, .set 1 { Local.plain with index := 7 }]
    (ofList [.plain, .plain])).2

theorem renumbers_from_misnumbered :
    (0 ≤ misnumbered.length ∧ (misnumbered.insert 0 .plain).1 = .ok () ∧
      Numbered (misnumbered.insert 0 .plain).2) ∧
    (1 < misnumbered.length ∧ (misnumbered.remove 1).2.get? 0 = misnumbered.get? 0) := by
  obtain ⟨hok, hfrom⟩ := (renumbers_from misnumbered 0).1 .plain (by decide)
  have hfront : NumberedBelow 0 misnumbered := fun i hi => absurd hi (Nat.not_lt_zero i)
  have hremove := ((renumbers_from misnumbered 1).2 (by decide)).2
  exact ⟨⟨by decide, hok, hfrom.numbered_iff.mpr hfront⟩, by decide, hremove.kept 0 (by decide)⟩

/-- A wrong number in front of a change stays wrong. -/
theorem wrong_index_stays :
    (misnumbered.insert 1 .plain).1 = .ok () ∧ ¬ Numbered (misnumbered.insert 1 .plain).2 ∧
      (misnumbered.remove 1).1 = .ok { Local.plain with index := 7 } ∧
      ¬ Numbered (misnumbered.remove 1).2 := by
  refine ⟨rfl, fun h => ?_, rfl, fun h => ?_⟩
  · exact absurd (h 0 _ rfl) (by decide)
  · exact absurd (h 0 _ rfl) (by decide)

end CilMetadata.LocalList
