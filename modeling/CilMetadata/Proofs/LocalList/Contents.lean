import CilMetadata.Proofs.LocalList.Numbering
import Mathlib.Data.List.InsertIdx

/-!
# Local slots as a plain list

Apart from their indexes, local slots are a plain list of contents: name, type and pinning.  As long as
no index is touched in place, every slot carries its position, and a list of slots answers every request
by its contents and their positions.

* `numbered_step`: the slots go on carrying their positions;
* `step_contents`: one request, answered by slots and by the list of their contents;
* `mirrors_contents`: whole runs.
-/

namespace CilMetadata

/-- What a local is apart from its index. -/
structure Local.Content where
  name : Option String
  typeToken : Option Token
  pinned : Bool
  deriving DecidableEq, Repr

def Local.content (x : Local) : Local.Content := ⟨x.name, x.typeToken, x.pinned⟩

def Local.ofContent (i : Nat) (c : Local.Content) : Local := ⟨i, c.name, c.typeToken, c.pinned⟩

theorem Local.ofContent_content {x : Local} {i : Nat} (h : x.index = i) :
    ofContent i x.content = x := by
  subst h
  rfl

namespace LocalList

def contents (l : LocalList) : List Local.Content := l.slots.map Local.content

/-! ### Plain lists -/

/-- Answers a request by contents and their positions. -/
def plainStep : Op → List Local.Content → Except Error Answer × List Local.Content
  | .push x, cs => (.ok (.position cs.length), cs ++ [x.content])
  | .insert i x, cs =>
    if cs.length < i then (.error .outOfBounds, cs) else (.ok .done, cs.insertIdx i x.content)
  | .remove i, cs =>
    match cs[i]? with
    | some c => (.ok (.slot (.ofContent i c)), cs.eraseIdx i)
    | none => (.error .outOfBounds, cs)
  | .get i, cs => (.ok (.slot? (cs[i]?.map (.ofContent i))), cs)
  | .set i x, cs => (.ok (.slot? (cs[i]?.map (.ofContent i))), cs.set i x.content)
  | .clear, _ => (.ok .done, [])
  | .toList, cs => (.ok (.slots (cs.mapIdx .ofContent)), cs)

theorem length_contents (l : LocalList) : l.contents.length = l.length := List.length_map _

theorem contents_renumber (start : Nat) (slots : List Local) :
    contents ⟨renumber start slots⟩ = slots.map Local.content := by
  apply List.ext_getElem?
  intro i
  rw [contents, List.getElem?_map, List.getElem?_map, renumber, List.getElem?_mapIdx, Option.map_map]
  cases slots[i]? with
  | none => rfl
  | some x => by_cases hi : start ≤ i <;> simp [hi, Local.content]

theorem Numbered.get?_eq {l : LocalList} (h : Numbered l) (i : Nat) :
    l.get? i = l.contents[i]?.map (.ofContent i) := by
  rw [contents, List.getElem?_map, Option.map_map]
  cases hx : l.get? i with
  | none =>
    rw [get?] at hx
    rw [hx]
    rfl
  | some x =>
    have hslot := Local.ofContent_content (h i x hx)
    rw [get?] at hx
    rw [hx]
    exact congrArg some hslot.symm

theorem Numbered.slots_eq {l : LocalList} (h : Numbered l) : l.slots = l.contents.mapIdx .ofContent := by
  apply List.ext_getElem?
  intro i
  rw [List.getElem?_mapIdx]
  exact h.get?_eq i

/-! ### One request -/

/-- A request does not touch an index in place. -/
def Op.KeepsIndex : Op → LocalList → Prop
  | .set i x, l => ∀ y, l.get? i = some y → x.index = y.index
  | .push _, _ | .insert _ _, _ | .remove _, _ | .get _, _ | .clear, _ | .toList, _ => True

theorem numbered_push {l : LocalList} (h : Numbered l) (x : Local) : Numbered (l.push x).2 := by
  intro i y hy
  rw [push, get?] at hy
  rcases Nat.lt_trichotomy i l.slots.length with hi | rfl | hi
  · rw [List.getElem?_append_left hi] at hy
    exact h i y hy
  · rw [List.getElem?_concat_length] at hy
    cases hy
    rfl
  · rw [List.getElem?_eq_none (by simp; omega)] at hy
    cases hy

theorem numbered_set {l : LocalList} (h : Numbered l) {i : Nat} {x : Local}
    (hx : (Op.set i x).KeepsIndex l) : Numbered (l.set i x).2 := by
  intro j y hy
  rw [set, get?] at hy
  by_cases hij : i = j
  · subst hij
    rw [List.getElem?_set_self'] at hy
    obtain ⟨z, hz, rfl⟩ := Option.map_eq_some_iff.mp hy
    exact (hx z hz).trans (h i z hz)
  · rw [List.getElem?_set_ne hij] at hy
    exact h j y hy

theorem numbered_insert {l : LocalList} (h : Numbered l) (i : Nat) (x : Local) :
    Numbered (l.insert i x).2 := by
  by_cases hi : i ≤ l.length
  · exact (renumbersFrom_insert hi x).numbered_iff.mpr (h.below i)
  · rw [insert_of_lt (Nat.lt_of_not_le hi)]
    exact h

theorem numbered_remove {l : LocalList} (h : Numbered l) (i : Nat) : Numbered (l.remove i).2 := by
  by_cases hi : i < l.length
  · exact (renumbersFrom_remove hi).numbered_iff.mpr (h.below i)
  · rw [remove_of_le (Nat.le_of_not_lt hi)]
    exact h

/-- **Positions.**  A request that touches no index in place leaves every slot with its position. -/
theorem numbered_step {op : Op} {l : LocalList} (h : Numbered l) (hop : op.KeepsIndex l) :
    Numbered (step op l).2 := by
  cases op with
  | push x => exact numbered_push h x
  | insert i x => exact numbered_insert h i x
  | remove i => exact numbered_remove h i
  | get i => exact h
  | set i x => exact numbered_set h hop
  | clear => exact fun _ _ hx => nomatch hx
  | toList => exact h

/-- **One request.**  Slots that carry their positions answer as their contents do. -/
theorem step_contents {l : LocalList} (h : Numbered l) (op : Op) :
    (step op l).1 = (plainStep op l.contents).1 ∧
      (step op l).2.contents = (plainStep op l.contents).2 := by
  cases op with
  | push x =>
    simp only [step, push, plainStep, length_contents]
    exact ⟨rfl, by simp [contents, Local.content]⟩
  | insert i x =>
    by_cases hi : i ≤ l.length
    · have hlt : ¬ l.length < i := Nat.not_lt.mpr hi
      simp only [step, plainStep, insert_of_le hi, length_contents, if_neg hlt, contents_renumber,
        List.map_insertIdx]
      exact ⟨rfl, rfl⟩
    · have hlt : l.length < i := Nat.lt_of_not_le hi
      simp only [step, plainStep, insert_of_lt hlt, length_contents, if_pos hlt]
      exact ⟨rfl, trivial⟩
  | remove i =>
    have hget := h.get?_eq i
    cases hc : l.contents[i]? with
    | none =>
      have hlen : l.length ≤ i := by
        rw [← length_contents]
        exact List.getElem?_eq_none_iff.mp hc
      simp only [step, plainStep, remove_of_le hlen, hc]
      exact ⟨rfl, trivial⟩
    | some c =>
      rw [hc] at hget
      simp only [step, plainStep, remove_of_get? hget, hc, contents_renumber, ← List.eraseIdx_map]
      exact ⟨rfl, rfl⟩
  | get i => exact ⟨congrArg (fun x => Except.ok (Answer.slot? x)) (h.get?_eq i), rfl⟩
  | set i x => exact ⟨congrArg (fun x => Except.ok (Answer.slot? x)) (h.get?_eq i), List.map_set⟩
  | clear => exact ⟨rfl, rfl⟩
  | toList => exact ⟨congrArg (fun xs => Except.ok (Answer.slots xs)) h.slots_eq, rfl⟩

theorem list_of_step_error {op : Op} {l : LocalList} {e : Error} (h : (step op l).1 = .error e) :
    (step op l).2 = l := by
  cases op with
  | insert i x =>
    by_cases hi : i ≤ l.length
    · simp only [step, insert_of_le hi] at h
      cases h
    · simp only [step, insert_of_lt (Nat.lt_of_not_le hi)]
  | remove i =>
    cases hx : l.get? i with
    | none => simp only [step, remove_of_le (List.getElem?_eq_none_iff.mp hx)]
    | some x =>
      simp only [step, remove_of_get? hx] at h
      cases h
  | _ => cases h

theorem insert_eq_error_iff {l : LocalList} {i : Nat} {x : Local} :
    (l.insert i x).1 = .error .outOfBounds ↔ l.length < i := by
  by_cases hi : i ≤ l.length
  · simp [insert_of_le hi, hi]
  · simp [insert_of_lt (Nat.lt_of_not_le hi), Nat.lt_of_not_le hi]

theorem remove_eq_error_iff {l : LocalList} {i : Nat} :
    (l.remove i).1 = .error .outOfBounds ↔ l.length ≤ i := by
  cases hx : l.get? i with
  | none =>
    have hlen : l.length ≤ i := List.getElem?_eq_none_iff.mp hx
    simp [remove_of_le hlen, hlen]
  | some x =>
    have hlt : i < l.length := (List.getElem?_eq_some_iff.mp hx).1
    simp [remove_of_get? hx, hlt]

theorem get?_of_remove {l : LocalList} {i : Nat} {x : Local} (h : (l.remove i).1 = .ok x) :
    l.get? i = some x := by
  cases hy : l.get? i with
  | none =>
    rw [remove_of_le (List.getElem?_eq_none_iff.mp hy)] at h
    cases h
  | some y =>
    rw [remove_of_get? hy] at h
    cases h
    rfl

/-- What positions have to do with the answers of a list. -/
structure AnswersPositions (l : LocalList) : Prop where
  push : ∀ x, (l.push x).1 = l.length ∧
    (l.push x).2.get? l.length = some { x with index := l.length }
  remove : ∀ i x, (l.remove i).1 = .ok x → l.get? i = some x ∧ x.index = i
  insert_error : ∀ i x, (l.insert i x).1 = .error .outOfBounds ↔ l.length < i
  remove_error : ∀ i, (l.remove i).1 = .error .outOfBounds ↔ l.length ≤ i
  failed : ∀ op e, (step op l).1 = .error e → (step op l).2 = l

theorem Numbered.answersPositions {l : LocalList} (h : Numbered l) : AnswersPositions l where
  push _ := ⟨rfl, List.getElem?_concat_length⟩
  remove i x hx := ⟨get?_of_remove hx, h i x (get?_of_remove hx)⟩
  insert_error _ _ := insert_eq_error_iff
  remove_error _ := remove_eq_error_iff
  failed _ _ := list_of_step_error

/-! ### Runs -/

/-- Requests none of which touches an index in place, one after the other. -/
def KeepsIndexes : List Op → LocalList → Prop
  | [], _ => True
  | op :: ops, l => op.KeepsIndex l ∧ KeepsIndexes ops (step op l).2

theorem run_contents {ops : List Op} {l : LocalList} (h : Numbered l) (hops : KeepsIndexes ops l) :
    (run step ops l).1 = (run plainStep ops l.contents).1 ∧ Numbered (run step ops l).2 ∧
      (run step ops l).2.contents = (run plainStep ops l.contents).2 := by
  induction ops generalizing l with
  | nil => exact ⟨rfl, h, rfl⟩
  | cons op ops ih =>
    obtain ⟨hans, hcontents⟩ := step_contents h op
    obtain ⟨hrest, hend⟩ := ih (numbered_step h hops.1) hops.2
    rw [hcontents] at hrest hend
    refine ⟨?_, hend⟩
    rw [run_cons, run_cons, hans, hrest]

/-- **Contents.**  A list made of any locals, or the empty one, after any requests that touch no index in
place: it has answered them as the plain list of contents does, it holds the contents of that list in
their order, and every slot carries its position. -/
theorem mirrors_contents (locals : List Local) (ops : List Op) {l : LocalList}
    (hl : l = ofList locals ∨ l = empty ∧ locals = []) (hops : KeepsIndexes ops l) :
    (∀ i x, (run step ops l).2.get? i = some x → x.index = i) ∧
    (run step ops l).1 = (run plainStep ops (locals.map Local.content)).1 ∧
    (run step ops l).2.contents = (run plainStep ops (locals.map Local.content)).2 ∧
    AnswersPositions (run step ops l).2 := by
  have hlist : l = ofList locals := by
    rcases hl with rfl | ⟨rfl, rfl⟩ <;> rfl
  subst hlist
  have hcontents : (ofList locals).contents = locals.map Local.content := contents_renumber 0 locals
  obtain ⟨hans, hnum, hend⟩ := run_contents (numbered_ofList locals) hops
  rw [hcontents] at hans hend
  exact ⟨hnum, hans, hend, hnum.answersPositions⟩

theorem mirrors_contents_named :
    let named (i : Nat) (name : String) : Local := ⟨i, some name, none, false⟩
    let l := ofList [named 4 "a", named 4 "b", named 7 "c"]
    let ops : List Op :=
      [.insert 1 (named 9 "x"), .set 0 (named 0 "y"), .remove 2, .push (named 5 "z"), .insert 7 .plain]
    KeepsIndexes ops l ∧ (run step ops l).2.contents =
      [⟨some "y", none, false⟩, ⟨some "x", none, false⟩, ⟨some "c", none, false⟩,
        ⟨some "z", none, false⟩] := by
  intro named l ops
  have hset : (Op.set 0 (named 0 "y")).KeepsIndex (step (.insert 1 (named 9 "x")) l).2 := by
    intro y hy
    cases hy
    rfl
  have hops : KeepsIndexes ops l := ⟨trivial, hset, trivial, trivial, trivial, trivial⟩
  exact ⟨hops, (mirrors_contents _ ops (.inl rfl) hops).2.2.1.trans rfl⟩

end LocalList
end CilMetadata
