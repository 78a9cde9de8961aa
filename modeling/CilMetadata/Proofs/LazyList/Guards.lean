import CilMetadata.Proofs.LazyList.Failures

/-!
# Guards that never apply

A list guards against slots that wait without a reader, and against elements that are not there after they
were loaded.  No list that requests lead to comes to these guards: what waits has a reader, and what was
loaded is there.  So an element is reported absent past the end only, and an element that is taken out is
answered.

* `loading_load`: what loading an element comes to;
* `loadAll_eq_loadEach`: loading all elements is loading one after the other;
* `exists_failed_of_step_error`: where the error of a request comes from;
* `guarded_of_reachable`: the guards of a list, together.
-/

namespace CilMetadata.LazyList

variable {σ α : Type}

/-! ### Loading an element -/

/-- What loading an element comes to in a list whose waiting slots have a reader. -/
inductive Loading (l : LazyList σ α) (i : Nat) (s : σ) : Except Error Bool × LazyList σ α × σ → Prop
  | past (h : l.length ≤ i) : Loading l i s (.ok false, l, s)
  | there (v : α) (h : l.slots[i]? = some (.loaded v)) : Loading l i s (.ok true, l, s)
  | read {read id v s'} (hreader : l.reader = some read) (hslot : l.slots[i]? = some (.pending id))
      (hread : read id s = (.ok v, s')) :
      Loading l i s (.ok true, { l with slots := l.slots.set i (.loaded v) }, s')
  | failed {read id e s'} (hreader : l.reader = some read) (hslot : l.slots[i]? = some (.pending id))
      (hread : read id s = (.error e, s')) : Loading l i s (.error e, l, s')

theorem Reachable.exists_reader {l : LazyList σ α} (h : Reachable l) {i : Nat} {id : UInt32}
    (hslot : l.slots[i]? = some (.pending id)) : ∃ read, l.reader = some read := by
  refine Option.ne_none_iff_exists'.mp fun hnone => ?_
  exact h.not_waits hnone id (List.mem_of_getElem? hslot)

theorem isLoaded_of_load {l l' : LazyList σ α} {i : Nat} {s s' : σ} (h : l.load i s = (.ok true, l', s')) :
    l'.isLoaded i := by
  obtain ⟨k, t, ⟨e, heq⟩ | heq | ⟨v, heq, hv⟩⟩ := load_cases l i s <;> cases h.symm.trans heq
  rw [isLoaded, hv]
  rfl

/-- **Loading an element.**  It is past the end, or there, or its reader is called for it. -/
theorem loading_load {l : LazyList σ α} (h : Reachable l) (i : Nat) (s : σ) :
    Loading l i s (l.load i s) := by
  unfold load
  split
  · rename_i hslot
    exact .past (List.getElem?_eq_none_iff.mp hslot)
  · rename_i v hslot
    exact .there v hslot
  · rename_i id hslot
    obtain ⟨read, hreader⟩ := h.exists_reader hslot
    have hreadId : readId l.reader id s = read id s := by rw [hreader]; rfl
    split
    · rename_i v s' hread
      exact .read hreader hslot (hreadId.symm.trans hread)
    · rename_i e s' hread
      exact .failed hreader hslot (hreadId.symm.trans hread)

/-! ### Loading all elements -/

/-- Loads elements one after the other, up to the first that fails. -/
def loadEach (l : LazyList σ α) : List Nat → σ → Except Error Unit × LazyList σ α × σ
  | [], s => (.ok (), l, s)
  | i :: is, s =>
    match l.load i s with
    | (.ok _, l', s') => l'.loadEach is s'
    | (.error e, l', s') => (.error e, l', s')

/-- The slots behind some that are done with are loaded by their places. -/
theorem loadEach_range' (reader : Option (UInt32 → σ → Except Error α × σ)) (front slots : List (Slot α))
    (s : σ) :
    loadEach ⟨front ++ slots, reader⟩ (List.range' front.length slots.length) s =
      ((loadSlots reader slots s).1, ⟨front ++ (loadSlots reader slots s).2.1, reader⟩,
        (loadSlots reader slots s).2.2) := by
  induction slots generalizing front s with
  | nil => rfl
  | cons slot slots ih =>
    have hfirst : (front ++ slot :: slots)[front.length]? = some slot := by simp
    have hnext : ∀ v : α, ⟨front ++ .loaded v :: slots, reader⟩ =
        (⟨(front ++ [.loaded v]) ++ slots, reader⟩ : LazyList σ α) := by simp
    have hlength : ∀ v : α, front.length + 1 = (front ++ [Slot.loaded v]).length := by simp
    rw [List.length_cons, List.range'_succ, loadEach]
    cases slot with
    | loaded v =>
      simp only [load, hfirst]
      rw [hnext, hlength v, ih]
      simp [loadSlots]
    | pending id =>
      cases hread : readId reader id s with
      | mk r s' =>
        cases r with
        | error e => simp only [load, hfirst, hread, loadSlots]
        | ok v =>
          have hset : (front ++ Slot.pending id :: slots).set front.length (.loaded v) =
              front ++ .loaded v :: slots := by simp
          simp only [load, hfirst, hread, hset, loadSlots]
          rw [hnext, hlength v, ih]
          simp

/-- **Loading all elements.**  They are loaded one after the other. -/
theorem loadAll_eq_loadEach (l : LazyList σ α) (s : σ) :
    l.loadAll s = l.loadEach (List.range l.length) s := by
  rw [List.range_eq_range']
  exact (loadEach_range' l.reader [] l.slots s).symm

/-! ### Elements -/

section Requests

variable {l : LazyList σ α} {i : Nat} {s : σ}

/-- What a place holds: the element that is there, or the one that the reader has for it. -/
def HasElement (l : LazyList σ α) (i : Nat) (s : σ) (v : α) : Prop :=
  l.slots[i]? = some (.loaded v) ∨
    ∃ read id, l.reader = some read ∧ l.slots[i]? = some (.pending id) ∧ (read id s).1 = .ok v

def FailsWith (l : LazyList σ α) (i : Nat) (s : σ) (e : Error) : Prop :=
  ∃ read id, l.reader = some read ∧ l.slots[i]? = some (.pending id) ∧ (read id s).1 = .error e

/-- An element is answered exactly if its place has one. -/
theorem get_cases (h : Reachable l) (i : Nat) (s : σ) :
    (l.length ≤ i ∧ (l.get i s).1 = .ok none) ∨ (∃ v, l.HasElement i s v ∧ (l.get i s).1 = .ok (some v)) ∨
      ∃ e, l.FailsWith i s e ∧ (l.get i s).1 = .error e := by
  have hload := loading_load h i s
  unfold get
  generalize l.load i s = r at hload
  cases hload with
  | past hle => exact .inl ⟨hle, rfl⟩
  | there v hslot =>
    refine .inr (.inl ⟨v, .inl hslot, ?_⟩)
    simp only [hslot, Option.bind_some, Slot.value?]
  | @read read id v s' hreader hslot hread =>
    refine .inr (.inl ⟨v, .inr ⟨read, id, hreader, hslot, by rw [hread]⟩, ?_⟩)
    have hlt := (List.getElem?_eq_some_iff.mp hslot).1
    simp only [List.getElem?_set_self hlt, Option.bind_some, Slot.value?]
  | @failed read id e s' hreader hslot hread =>
    exact .inr (.inr ⟨e, ⟨read, id, hreader, hslot, by rw [hread]⟩, rfl⟩)

theorem step_get (l : LazyList σ α) (i : Nat) (s : σ) :
    (step (.get i) (l, s)).1 = (l.get i s).1.map .item? := rfl

theorem length_le_of_get_none (h : Reachable l) (hn : (step (.get i) (l, s)).1 = .ok (.item? none)) :
    l.length ≤ i := by
  rw [step_get] at hn
  rcases get_cases h i s with ⟨hle, -⟩ | ⟨v, -, hg⟩ | ⟨e, -, hg⟩
  · exact hle
  · rw [hg] at hn
    cases hn
  · rw [hg] at hn
    cases hn

theorem step_set_eq_get (l : LazyList σ α) (i : Nat) (v : α) (s : σ) :
    (step (.set i v) (l, s)).1 = (step (.get i) (l, s)).1 := by
  have hset : (l.set i v s).1 = (l.get i s).1 := by
    unfold set
    split <;> simp only [*]
  exact congrArg (Except.map Answer.item?) hset

theorem step_remove (l : LazyList σ α) (i : Nat) (s : σ) :
    step (.remove i) (l, s) = ((l.remove i s).1.map .item, (l.remove i s).2) := rfl

/-- **Taking an element out.**  What leaves the list is answered; if nothing is answered, nothing leaves. -/
theorem remove_cases (h : Reachable l) (i : Nat) (s : σ) :
    (l.length ≤ i ∧ (l.remove i s).1 = .error .outOfBounds ∧ (l.remove i s).2.1 = l) ∨
      (∃ v, l.HasElement i s v ∧ (l.remove i s).1 = .ok v ∧
        (l.remove i s).2.1 = { l with slots := l.slots.eraseIdx i }) ∨
      ∃ e, l.FailsWith i s e ∧ (l.remove i s).1 = .error e ∧ (l.remove i s).2.1 = l := by
  have hload := loading_load h i s
  unfold remove
  generalize l.load i s = r at hload
  cases hload with
  | past hle => exact .inl ⟨hle, rfl, rfl⟩
  | there v hslot =>
    refine .inr (.inl ⟨v, .inl hslot, ?_⟩)
    simp only [hslot, Option.bind_some, Slot.value?, and_self]
  | @read read id v s' hreader hslot hread =>
    refine .inr (.inl ⟨v, .inr ⟨read, id, hreader, hslot, by rw [hread]⟩, ?_⟩)
    have hlt := (List.getElem?_eq_some_iff.mp hslot).1
    simp only [List.getElem?_set_self hlt, Option.bind_some, Slot.value?, List.eraseIdx_set_eq, and_self]
  | @failed read id e s' hreader hslot hread =>
    exact .inr (.inr ⟨e, ⟨read, id, hreader, hslot, by rw [hread]⟩, rfl, rfl⟩)

/-! ### Errors -/

/-- Loading slots fails with what the reader answers for one that waits. -/
theorem exists_failed_of_loadSlots_error {reader : Option (UInt32 → σ → Except Error α × σ)}
    {slots : List (Slot α)} {e : Error} (h : (loadSlots reader slots s).1 = .error e) :
    ∃ id t, .pending id ∈ slots ∧ (readId reader id t).1 = .error e := by
  induction slots generalizing s with
  | nil => cases h
  | cons slot slots ih =>
    cases slot with
    | loaded v =>
      obtain ⟨id, t, hid, ht⟩ := ih h
      exact ⟨id, t, List.mem_cons_of_mem _ hid, ht⟩
    | pending id =>
      cases hread : readId reader id s with
      | mk r s' =>
        cases r with
        | error e' =>
          simp only [loadSlots, hread] at h
          cases h
          exact ⟨id, s, List.mem_cons_self, by rw [hread]⟩
        | ok v =>
          simp only [loadSlots, hread] at h
          obtain ⟨id', t, hid, ht⟩ := ih h
          exact ⟨id', t, List.mem_cons_of_mem _ hid, ht⟩

def ReadFails (l : LazyList σ α) (e : Error) : Prop :=
  ∃ read id t, l.reader = some read ∧ l.Waits id ∧ (read id t).1 = .error e

theorem FailsWith.readFails {e : Error} (h : l.FailsWith i s e) : l.ReadFails e := by
  obtain ⟨read, id, hreader, hslot, hread⟩ := h
  exact ⟨read, id, s, hreader, List.mem_of_getElem? hslot, hread⟩

/-- Whether a request is for a place past the end, in a list of so many elements. -/
def Op.Past (n : Nat) : Op α → Prop
  | .insert i _ => n < i
  | .remove i => n ≤ i
  | _ => False

theorem readFails_of_all {op : Op α} (hop : op = .loadAll ∨ op = .toList) {e : Error} (h : Reachable l)
    (he : (step op (l, s)).1 = .error e) : l.ReadFails e := by
  obtain ⟨answer, hstep⟩ := step_all hop l
  have hall : (l.loadAll s).1 = (loadSlots l.reader l.slots s).1 := rfl
  rw [hstep, hall] at he
  cases hload : (loadSlots l.reader l.slots s).1 with
  | ok u =>
    rw [hload] at he
    cases he
  | error e' =>
    rw [hload] at he
    cases he
    obtain ⟨id, t, hid, ht⟩ := exists_failed_of_loadSlots_error hload
    obtain ⟨i, hslot⟩ := List.mem_iff_getElem?.mp hid
    obtain ⟨read, hreader⟩ := h.exists_reader hslot
    rw [hreader] at ht
    exact ⟨read, id, t, hreader, hid, ht⟩

/-- **Errors.**  A request fails with what the reader answers, or past the end. -/
theorem step_error_cases {op : Op α} {e : Error} (h : Reachable l) (he : (step op (l, s)).1 = .error e) :
    l.ReadFails e ∨ e = .outOfBounds ∧ op.Past l.length := by
  have hget : ∀ i, (step (.get i) (l, s)).1 = .error e → l.ReadFails e := by
    intro i he
    rw [step_get] at he
    rcases get_cases h i s with ⟨-, hg⟩ | ⟨v, -, hg⟩ | ⟨e', hfails, hg⟩ <;> rw [hg] at he <;> cases he
    exact hfails.readFails
  cases op with
  | get i => exact .inl (hget i he)
  | set i v => exact .inl (hget i ((step_set_eq_get l i v s).symm.trans he))
  | insert i v =>
    simp only [step, insert] at he
    split at he
    · rename_i hlt
      cases he
      exact .inr ⟨rfl, hlt⟩
    · cases he
  | remove i =>
    rw [step_remove] at he
    rcases remove_cases h i s with ⟨hle, hr, -⟩ | ⟨v, -, hr, -⟩ | ⟨e', hfails, hr, -⟩ <;>
      rw [hr] at he <;> cases he
    · exact .inr ⟨rfl, hle⟩
    · exact .inl hfails.readFails
  | loadAll => exact .inl (readFails_of_all (.inl rfl) h he)
  | toList => exact .inl (readFails_of_all (.inr rfl) h he)
  | _ => cases he

/-! ### All guards -/

/-- The guards of a list never apply. -/
structure Guarded (l : LazyList σ α) : Prop where
  /-- without a reader nothing waits -/
  isLoaded_of_no_reader : l.reader = none → ∀ slot ∈ l.slots, slot.isLoaded
  /-- so no request misses a reader -/
  ne_noReader : l.reader = none → ∀ op s id, (step op (l, s)).1 ≠ .error (.malformed (.noReader id))
  /-- with a reader, the errors are its own -/
  error_cases : ∀ op s e, (step op (l, s)).1 = .error e →
    l.ReadFails e ∨ e = .outOfBounds ∧ op.Past l.length
  /-- what was loaded is there, and nothing else has moved -/
  of_load : ∀ i s l' s', l.load i s = (.ok true, l', s') → l'.isLoaded i ∧ l'.length = l.length
  /-- the loads of a request for all elements are loads of one element each -/
  loadAll_eq : ∀ s, l.loadAll s = l.loadEach (List.range l.length) s
  of_get_none : ∀ i s, (step (.get i) (l, s)).1 = .ok (.item? none) → l.length ≤ i
  of_set_none : ∀ i v s, (step (.set i v) (l, s)).1 = .ok (.item? none) → l.length ≤ i
  of_remove_outOfBounds : ∀ i s, (step (.remove i) (l, s)).1 = .error .outOfBounds →
    l.length ≤ i ∨ l.FailsWith i s .outOfBounds
  /-- an element that leaves the list is answered -/
  remove_cases : ∀ i s,
    (∃ v, l.HasElement i s v ∧ (step (.remove i) (l, s)).1 = .ok (.item v) ∧
      (step (.remove i) (l, s)).2.1 = { l with slots := l.slots.eraseIdx i }) ∨
    ∃ e, (step (.remove i) (l, s)).1 = .error e ∧ (step (.remove i) (l, s)).2.1 = l

/-- **Guards.**  In a list that requests lead to, a slot that waits has a reader, and a slot that was
loaded is loaded.  So no request misses a reader, an element is absent past the end only, and no element
leaves the list without being answered. -/
theorem guarded_of_reachable {l : LazyList σ α} (h : Reachable l) : Guarded l where
  isLoaded_of_no_reader hnone slot hslot := by
    cases slot with
    | pending id => exact absurd hslot (h.not_waits hnone id)
    | loaded v => rfl
  ne_noReader hnone op s id he := by
    rcases step_error_cases h he with ⟨read, _, _, hreader, -⟩ | ⟨he, -⟩
    · rw [hnone] at hreader
      cases hreader
    · cases he
  error_cases op s e he := step_error_cases h he
  of_load i s l' s' hl := by
    have hlength := length_load l i s
    rw [hl] at hlength
    exact ⟨isLoaded_of_load hl, hlength⟩
  loadAll_eq := l.loadAll_eq_loadEach
  of_get_none i s hn := length_le_of_get_none h hn
  of_set_none i v s hn := length_le_of_get_none h ((step_set_eq_get l i v s).symm.trans hn)
  of_remove_outOfBounds i s he := by
    rw [step_remove] at he
    rcases LazyList.remove_cases h i s with ⟨hle, -⟩ | ⟨v, -, hr, -⟩ | ⟨e, hfails, hr, -⟩
    · exact .inl hle
    · rw [hr] at he
      cases he
    · rw [hr] at he
      cases he
      exact .inr hfails
  remove_cases i s := by
    rw [step_remove]
    rcases LazyList.remove_cases h i s with ⟨-, hr, hl⟩ | ⟨v, hv, hr, hl⟩ | ⟨e, -, hr, hl⟩
    · exact .inr ⟨.outOfBounds, by rw [hr]; rfl, hl⟩
    · exact .inl ⟨v, hv, by rw [hr]; rfl, hl⟩
    · exact .inr ⟨e, by rw [hr]; rfl, hl⟩

end Requests

/-- The reader of a list with slots of both kinds fails for the last one, which stays. -/
theorem guarded_of_reachable_halfLoaded :
    let broken : Script := ⟨[(6, 1, .outOfBounds)], []⟩
    Reachable halfLoaded ∧ halfLoaded.length = 4 ∧
      (step (.remove 3) (halfLoaded, broken)).1 = .error .outOfBounds ∧
      halfLoaded.FailsWith 3 broken .outOfBounds ∧
      (step (.get 4) (halfLoaded, broken)).1 = .ok (.item? none) ∧ halfLoaded.length ≤ 4 := by
  intro broken
  have hguarded := guarded_of_reachable reachable_halfLoaded
  have hremove : (step (.remove 3) (halfLoaded, broken)).1 = .error .outOfBounds := rfl
  have hfails := (hguarded.of_remove_outOfBounds 3 broken hremove).resolve_left (by decide)
  exact ⟨reachable_halfLoaded, rfl, hremove, hfails, rfl, hguarded.of_get_none 4 broken rfl⟩

end CilMetadata.LazyList
