import CilMetadata.Token

/-!
# Maps by token

Values under tokens, in token order.  A value that is put under a token takes the place of the one
that stood there.

These maps stand for the ordered map of a library: they implement its laws (`OrderedMap`, shown for
them in `CilMetadata.Proofs.TypeRegistry.LastWriter`), and registries rely on nothing else of them.

* `mem_insert`: what one more value changes;
* `get?_eq_some_iff`: values are found under the tokens that they are listed with.
-/

namespace CilMetadata

variable {α : Type}

/-- Entries in strictly ascending order of their tokens. -/
def TokenMap.Ascending (entries : List (Token × α)) : Prop :=
  entries.Pairwise fun a b => a.1 < b.1

/-- Values by token. -/
structure TokenMap (α : Type) where
  entries : List (Token × α)
  ascending : TokenMap.Ascending entries

namespace TokenMap

/-- Puts a value in the place of its token, instead of the one that stands there. -/
def place (k : Token) (v : α) : List (Token × α) → List (Token × α)
  | [] => [(k, v)]
  | e :: es =>
    if k < e.1 then (k, v) :: e :: es
    else if e.1 < k then e :: place k v es
    else (k, v) :: es

theorem mem_place {k : Token} {v : α} {e : Token × α} {es : List (Token × α)} (h : Ascending es) :
    e ∈ place k v es ↔ e = (k, v) ∨ e.1 ≠ k ∧ e ∈ es := by
  induction es with
  | nil => simp [place]
  | cons d ds ih =>
    obtain ⟨hd, hds⟩ := List.pairwise_cons.mp h
    unfold place
    split
    · rename_i hkd
      -- all entries come behind the token
      have hne : ∀ e ∈ d :: ds, e.1 ≠ k := by
        rintro e he rfl
        rcases List.mem_cons.mp he with rfl | he
        · exact Token.lt_irrefl hkd
        · exact Token.lt_irrefl (Token.lt_trans hkd (hd e he))
      rw [List.mem_cons]
      exact or_congr_right ⟨fun he => ⟨hne e he, he⟩, And.right⟩
    · split
      · rename_i hdk
        rw [List.mem_cons, ih hds, List.mem_cons]
        constructor
        · rintro (rfl | he | ⟨hne, he⟩)
          · exact .inr ⟨fun hk => Token.lt_irrefl (hk ▸ hdk), .inl rfl⟩
          · exact .inl he
          · exact .inr ⟨hne, .inr he⟩
        · rintro (he | ⟨hne, rfl | he⟩)
          · exact .inr (.inl he)
          · exact .inl rfl
          · exact .inr (.inr ⟨hne, he⟩)
      · rename_i h1 h2
        have hkd : k = d.1 := Token.eq_of_not_lt h1 h2
        have hne : ∀ e ∈ ds, e.1 ≠ k := by
          rintro e he rfl
          exact Token.lt_irrefl (hkd ▸ hd e he)
        rw [List.mem_cons, List.mem_cons]
        constructor
        · exact fun he => he.imp_right fun he => ⟨hne e he, .inr he⟩
        · rintro (he | ⟨hek, rfl | he⟩)
          · exact .inl he
          · exact absurd hkd.symm hek
          · exact .inr he

theorem ascending_place (k : Token) (v : α) {es : List (Token × α)} (h : Ascending es) :
    Ascending (place k v es) := by
  induction es with
  | nil => exact List.pairwise_singleton _ _
  | cons d ds ih =>
    obtain ⟨hd, hds⟩ := List.pairwise_cons.mp h
    unfold place
    split
    · rename_i hkd
      refine List.pairwise_cons.mpr ⟨fun e he => ?_, h⟩
      rcases List.mem_cons.mp he with rfl | he
      · exact hkd
      · exact Token.lt_trans hkd (hd e he)
    · split
      · rename_i hdk
        refine List.pairwise_cons.mpr ⟨fun e he => ?_, ih hds⟩
        rcases (mem_place hds).mp he with rfl | ⟨-, he⟩
        · exact hdk
        · exact hd e he
      · rename_i h1 h2
        have hkd : k = d.1 := Token.eq_of_not_lt h1 h2
        exact List.pairwise_cons.mpr ⟨fun e he => hkd ▸ hd e he, hds⟩

def empty : TokenMap α := ⟨[], List.Pairwise.nil⟩

def insert (m : TokenMap α) (k : Token) (v : α) : TokenMap α :=
  ⟨place k v m.entries, ascending_place k v m.ascending⟩

def get? (m : TokenMap α) (k : Token) : Option α :=
  (m.entries.find? fun e => e.1 = k).map Prod.snd

def size (m : TokenMap α) : Nat := m.entries.length

def isEmpty (m : TokenMap α) : Bool := m.entries.isEmpty

/-! ### Laws -/

/-- **One more value.**  It is listed, and so is what stood under other tokens. -/
theorem mem_insert {m : TokenMap α} {k : Token} {v : α} {e : Token × α} :
    e ∈ (m.insert k v).entries ↔ e = (k, v) ∨ e.1 ≠ k ∧ e ∈ m.entries :=
  mem_place m.ascending

theorem eq_of_mem_ascending {es : List (Token × α)} (h : Ascending es) {d e : Token × α} (hd : d ∈ es)
    (he : e ∈ es) (hk : d.1 = e.1) : d = e := by
  induction es with
  | nil => cases hd
  | cons c cs ih =>
    obtain ⟨hc, hcs⟩ := List.pairwise_cons.mp h
    rcases List.mem_cons.mp hd with rfl | hd' <;> rcases List.mem_cons.mp he with rfl | he'
    · rfl
    · exact absurd (hk ▸ hc e he') Token.lt_irrefl
    · exact absurd (hk ▸ hc d hd') Token.lt_irrefl
    · exact ih hcs hd' he'

theorem get?_eq_some_iff {m : TokenMap α} {k : Token} {v : α} :
    m.get? k = some v ↔ (k, v) ∈ m.entries := by
  have hkey : ∀ e, (m.entries.find? fun e => e.1 = k) = some e → e.1 = k ∧ e ∈ m.entries := by
    intro e hfind
    have hk := List.find?_some (p := fun e : Token × α => decide (e.1 = k)) hfind
    exact ⟨of_decide_eq_true hk, List.mem_of_find?_eq_some hfind⟩
  unfold get?
  constructor
  · intro h
    obtain ⟨e, hfind, rfl⟩ := Option.map_eq_some_iff.mp h
    obtain ⟨rfl, he⟩ := hkey e hfind
    exact he
  · intro h
    cases hfind : m.entries.find? fun e => e.1 = k with
    | none => exact absurd (List.find?_eq_none.mp hfind (k, v) h) (by simp)
    | some e =>
      obtain ⟨hk, he⟩ := hkey e hfind
      rw [eq_of_mem_ascending m.ascending he h hk]
      rfl

end TokenMap
end CilMetadata
