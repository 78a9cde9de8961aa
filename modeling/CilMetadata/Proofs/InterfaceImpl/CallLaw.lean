import CilMetadata.Proofs.InterfaceImpl.TypeField
import CilMetadata.Proofs.Source.Transcript

/-!
# The law of the calls of an entity

Which calls the entity of a row may make, told by the transcript of the calls before.  The answers
are those that the source happened to give; nothing is assumed of them.

* `Allows`: the calls that may follow a transcript;
* `Lawful.countP_asks_le_one`, `Lawful.countP_attributeRids_le_one`: what is resolved, is resolved once;
* `Lawful.row_unique`, `Lawful.fetches_le`: a raw row is fetched once, though it may take more attempts.
-/

namespace CilMetadata

open Source (Call Answer Transcript)

namespace Source.Call

def fetchesRow : Call → Bool
  | .readInterfaceImpl _ => true
  | _ => false

def asksAttributeRids : Call → Bool
  | .customAttributeRids _ => true
  | _ => false

def readsAttribute : Call → Bool
  | .readCustomAttribute _ => true
  | _ => false

/-- Whether a call is one that a request to the attributes can make. -/
def forAttributes (c : Call) : Bool := c.asksAttributeRids || c.readsAttribute

theorem fetchesRow_of_forAttributes {c : Call} (h : c.forAttributes = true) : c.fetchesRow = false := by
  cases c with
  | readInterfaceImpl rid => cases h
  | _ => rfl

end Source.Call

def Source.Answer.hasRow : Answer → Bool
  | .row (.ok _) => true
  | _ => false

def Source.Transcript.fetches (T : Transcript) : Nat := T.countP fun entry => entry.1.fetchesRow

def Source.Transcript.failedFetches (T : Transcript) : Nat :=
  T.countP fun entry => entry.1.fetchesRow && !entry.2.hasRow

theorem Source.Answer.exists_of_hasRow {a : Answer} (h : a.hasRow = true) :
    ∃ row, a = .row (.ok row) := by
  cases a with
  | row r =>
    cases r with
    | ok row => exact ⟨row, rfl⟩
    | error e => cases h
  | _ => cases h

namespace TypeField

def call : TypeField → InterfaceImplRow → Call
  | .classType, row => .resolveTypeDef row.classIndex
  | .interfaceType, row => .resolveTypeDefOrRef row.interfaceIndex

def asks : TypeField → Call → Bool
  | .classType, .resolveTypeDef _ => true
  | .interfaceType, .resolveTypeDefOrRef _ => true
  | _, _ => false

@[simp] theorem asks_call (f g : TypeField) (row : InterfaceImplRow) :
    f.asks (g.call row) = decide (f = g) := by
  cases f <;> cases g <;> rfl

/-- Whether a call is one that a read of a field can make. -/
def mayCall (f : TypeField) (c : Call) : Bool := c.fetchesRow || f.asks c

theorem asks_of_fetchesRow (f : TypeField) {c : Call} (h : c.fetchesRow = true) : f.asks c = false := by
  cases c with
  | readInterfaceImpl rid => cases f <;> rfl
  | _ => cases h

theorem asks_of_asks {f g : TypeField} (hne : f ≠ g) {c : Call} (h : g.asks c = true) :
    f.asks c = false := by
  cases f <;> cases g
  · exact absurd rfl hne
  · cases c with
    | resolveTypeDefOrRef index => rfl
    | _ => cases h
  · cases c with
    | resolveTypeDef index => rfl
    | _ => cases h
  · exact absurd rfl hne

theorem asks_of_mayCall {f g : TypeField} (hne : f ≠ g) {c : Call} (h : g.mayCall c = true) :
    f.asks c = false :=
  (Bool.or_eq_true_iff.mp h).elim f.asks_of_fetchesRow (asks_of_asks hne)

theorem forAttributes_of_mayCall {f : TypeField} {c : Call} (h : f.mayCall c = true) :
    c.forAttributes = false := by
  cases c with
  | customAttributeRids parent => cases f <;> cases h
  | readCustomAttribute rid => cases f <;> cases h
  | _ => rfl

theorem asks_of_forAttributes (f : TypeField) {c : Call} (h : c.forAttributes = true) :
    f.asks c = false := by
  cases c with
  | customAttributeRids parent => cases f <;> rfl
  | readCustomAttribute rid => cases f <;> rfl
  | _ => cases h

end TypeField

namespace RowBacked

variable {rid : UInt32} {T past : Transcript}

/-- The entry of a raw row that was fetched. -/
def fetched (rid : UInt32) (row : InterfaceImplRow) : Call × Answer :=
  (.readInterfaceImpl rid, .row (.ok row))

/-- The entry of the rows of attributes that were told. -/
def told (rid : UInt32) (ids : List UInt32) : Call × Answer :=
  (.customAttributeRids (tokenOf rid), .rids (.ok ids))

/-- The calls that may follow a transcript. -/
inductive Allows (rid : UInt32) (past : Transcript) : Call → Prop
  /-- the check of the row number comes first -/
  | rowCount (h : past = []) : Allows rid past (.rowCount .interfaceImpl)
  /-- the raw row is fetched as long as it is not there -/
  | fetch (h : ∀ row, fetched rid row ∉ past) : Allows rid past (.readInterfaceImpl rid)
  /-- a field is resolved once, by its column in the row that was fetched -/
  | type (f : TypeField) {row : InterfaceImplRow} (hrow : fetched rid row ∈ past)
    (h : past.Avoids f.asks) : Allows rid past (f.call row)
  /-- the rows of the attributes of the entity are asked for once -/
  | attributeRids (h : past.Avoids Call.asksAttributeRids) :
    Allows rid past (.customAttributeRids (tokenOf rid))
  /-- an attribute is read whose row was told -/
  | attribute {ids : List UInt32} {id : UInt32} (hids : told rid ids ∈ past) (hid : id ∈ ids) :
    Allows rid past (.readCustomAttribute id)

/-- Every call of a transcript is allowed by the calls before it. -/
def Lawful (rid : UInt32) (T : Transcript) : Prop :=
  ∀ past c a later, T = past ++ (c, a) :: later → Allows rid past c

theorem lawful_nil : Lawful rid [] := by
  intro past c a later h
  simp at h

theorem Lawful.concat (h : Lawful rid T) {c : Call} (hc : Allows rid T c) (a : Answer) :
    Lawful rid (T ++ [(c, a)]) := by
  intro past c' a' later hT
  rcases List.eq_nil_or_concat later with rfl | ⟨later, last, rfl⟩
  · obtain ⟨rfl, hlast⟩ := List.append_inj' hT rfl
    cases hlast
    exact hc
  · rw [List.concat_eq_append, ← List.cons_append, ← List.append_assoc] at hT
    exact h past c' a' later (List.append_inj' hT rfl).1

/-! ### How often calls are made -/

theorem Lawful.countP_asks_le_one (h : Lawful rid T) (f : TypeField) :
    T.countP (fun entry => f.asks entry.1) ≤ 1 := by
  refine Source.Transcript.countP_le_one ?_
  rintro past ⟨c, a⟩ later hT hasks
  cases h past c a later hT with
  | type g hrow hpast =>
    rw [TypeField.asks_call, decide_eq_true_iff] at hasks
    rw [hasks]
    exact hpast
  | _ => cases f <;> cases hasks

theorem Lawful.countP_attributeRids_le_one (h : Lawful rid T) :
    T.countP (fun entry => entry.1.asksAttributeRids) ≤ 1 := by
  refine Source.Transcript.countP_le_one ?_
  rintro past ⟨c, a⟩ later hT hasks
  cases h past c a later hT with
  | attributeRids hpast => exact hpast
  | type g hrow hpast => cases g <;> cases hasks
  | _ => cases hasks

/-- A raw row is fetched only as long as none is there. -/
theorem Lawful.fetched_not_mem (h : Lawful rid T) {past later : Transcript} {c : Call} {a : Answer}
    (hT : T = past ++ (c, a) :: later) (hc : c.fetchesRow = true) (row : InterfaceImplRow) :
    fetched rid row ∉ past := by
  cases h past c a later hT with
  | fetch hnone => exact hnone row
  | type f => cases f <;> cases hc
  | _ => cases hc

theorem Lawful.row_unique (h : Lawful rid T) {row row' : InterfaceImplRow} (hrow : fetched rid row ∈ T)
    (hrow' : fetched rid row' ∈ T) : row = row' := by
  obtain ⟨past, later, hT⟩ := List.append_of_mem hrow
  rw [hT] at hrow'
  rcases List.mem_append.mp hrow' with hmem | hmem
  · exact absurd hmem (h.fetched_not_mem hT rfl row')
  rcases List.mem_cons.mp hmem with heq | hmem
  · injection heq with _ hanswer
    injection hanswer with hok
    injection hok with hrow
    exact hrow.symm
  · -- the second fetch would have come after the first one
    obtain ⟨between, rest, rfl⟩ := List.append_of_mem hmem
    have hsplit : T = (past ++ fetched rid row :: between) ++ fetched rid row' :: rest := by
      rw [hT, List.append_assoc, List.cons_append]
    exact absurd (List.mem_append_right _ List.mem_cons_self) (h.fetched_not_mem hsplit rfl row)

/-- What the calls of an entity are like that was made from a row. -/
structure CallLaw (rid : UInt32) (T : Transcript) : Prop where
  lawful : Lawful rid T
  type_once : ∀ f : TypeField, T.countP (fun entry => f.asks entry.1) ≤ 1
  attributeRids_once : T.countP (fun entry => entry.1.asksAttributeRids) ≤ 1
  row_unique : ∀ row row', fetched rid row ∈ T → fetched rid row' ∈ T → row = row'

theorem Lawful.callLaw (h : Lawful rid T) : CallLaw rid T where
  lawful := h
  type_once := h.countP_asks_le_one
  attributeRids_once := h.countP_attributeRids_le_one
  row_unique _ _ := h.row_unique

/-- An attempt to fetch a raw row that has one is the fetch of the row of the entity. -/
theorem Lawful.exists_fetched (h : Lawful rid T) {entry : Call × Answer} (hmem : entry ∈ T)
    (hc : entry.1.fetchesRow = true) (ha : entry.2.hasRow = true) : ∃ row, entry = fetched rid row := by
  obtain ⟨past, later, hT⟩ := List.append_of_mem hmem
  obtain ⟨c, a⟩ := entry
  cases h past c a later hT with
  | fetch hnone =>
    obtain ⟨row, rfl⟩ := Answer.exists_of_hasRow ha
    exact ⟨row, rfl⟩
  | type f => cases f <;> cases hc
  | _ => cases hc

theorem Lawful.fetches_le (h : Lawful rid T) : T.fetches ≤ T.failedFetches + 1 := by
  have hgot : T.countP (fun entry => entry.1.fetchesRow && entry.2.hasRow) ≤ 1 := by
    refine Source.Transcript.countP_le_one fun past entry later hT hentry earlier hearlier => ?_
    rw [Bool.and_eq_true] at hentry
    rw [Bool.and_eq_false_imp]
    intro hc
    by_contra ha
    rw [Bool.not_eq_false] at ha
    have hmem : earlier ∈ T := hT ▸ List.mem_append_left _ hearlier
    obtain ⟨row, rfl⟩ := h.exists_fetched hmem hc ha
    exact h.fetched_not_mem hT hentry.1 row hearlier
  have hsplit := List.countP_eq_countP_filter_add T (fun entry => entry.1.fetchesRow)
    fun entry => entry.2.hasRow
  rw [List.countP_filter, List.countP_filter] at hsplit
  simp only [Source.Transcript.fetches, Source.Transcript.failedFetches]
  omega

end RowBacked

end CilMetadata
