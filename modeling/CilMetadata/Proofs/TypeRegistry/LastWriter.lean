import CilMetadata.Proofs.Token.Packing
import CilMetadata.TypeRegistry
import Mathlib.Data.List.Dedup
import Mathlib.Data.List.Induction

/-!
# What a registry remembers

A registry keeps types in a map whose keys are ordered, each under its own token.  All that it answers is
told by the types that were registered, of which the last of each token counts; the order of the others
is forgotten.

The laws are proved for the registry over any such map, and so for the map by tokens that registries have
here.

* `OrderedMap.Lawful`: what is relied on of the map;
* `remembers_register`, `remembers_foldl`: one more type, and all of them;
* `answers_of_perm`: types of different tokens in another order;
* `last_writer_wins`: both, for the registry over any lawful map and for registries.
-/

namespace CilMetadata

/-! ### Ordered maps -/

/-- A map whose keys are ordered, by what it can be asked. -/
structure OrderedMap (κ α : Type) where
  Map : Type
  empty : Map
  insert : Map → κ → α → Map
  get? : Map → κ → Option α
  size : Map → Nat
  isEmpty : Map → Bool
  entries : Map → List (κ × α)

/-- What is relied on of an ordered map: its entries are listed in the order of their keys, a value takes
the place of the one under its key, and look-ups and counts are those of the listed entries. -/
structure OrderedMap.Lawful {κ α : Type} [LT κ] (M : OrderedMap κ α) : Prop where
  entries_empty : M.entries M.empty = []
  ascending : ∀ m, (M.entries m).Pairwise fun a b => a.1 < b.1
  mem_insert : ∀ m k v e, e ∈ M.entries (M.insert m k v) ↔ e = (k, v) ∨ e.1 ≠ k ∧ e ∈ M.entries m
  get?_eq_some_iff : ∀ m k v, M.get? m k = some v ↔ (k, v) ∈ M.entries m
  size_eq : ∀ m, M.size m = (M.entries m).length
  isEmpty_eq : ∀ m, M.isEmpty m = (M.entries m).isEmpty

def TokenMap.ordered (α : Type) : OrderedMap Token α where
  Map := TokenMap α
  empty := empty
  insert := insert
  get? := get?
  size := size
  isEmpty := isEmpty
  entries := entries

theorem TokenMap.lawful_ordered (α : Type) : (TokenMap.ordered α).Lawful where
  entries_empty := rfl
  ascending m := m.ascending
  mem_insert _ _ _ _ := TokenMap.mem_insert
  get?_eq_some_iff _ _ _ := TokenMap.get?_eq_some_iff
  size_eq _ := rfl
  isEmpty_eq _ := rfl

theorem OrderedMap.Lawful.nodup_keys {α : Type} {M : OrderedMap Token α} (hM : M.Lawful) (m : M.Map) :
    ((M.entries m).map Prod.fst).Nodup := by
  refine List.pairwise_map.mpr ((hM.ascending m).imp fun {d e} hlt heq => ?_)
  exact Token.lt_irrefl (heq ▸ hlt)

/-! ### Registries over maps -/

namespace TypeRegistry

structure Answers where
  get? : Token → Option CilType
  size : Nat
  isEmpty : Bool
  entries : List (Token × CilType)

def answers (r : TypeRegistry) : Answers := ⟨r.get?, r.size, r.isEmpty, r.entries⟩

/-- What the registry over a map answers. -/
def answersOf (M : OrderedMap Token CilType) (m : M.Map) : Answers :=
  ⟨M.get? m, M.size m, M.isEmpty m, M.entries m⟩

/-- Registers a type in the registry over a map. -/
def register (M : OrderedMap Token CilType) (m : M.Map) (t : CilType) : M.Map := M.insert m t.token t

/-- Registries are those over the map by tokens. -/
theorem map_foldl_insert (types : List CilType) (r : TypeRegistry) :
    (types.foldl insert r).map = types.foldl (register (TokenMap.ordered CilType)) r.map := by
  induction types generalizing r with
  | nil => rfl
  | cons t types ih => exact ih (r.insert t)

theorem answers_ofList (history : List CilType) : (ofList history).answers =
    answersOf (TokenMap.ordered CilType)
      (history.foldl (register (TokenMap.ordered CilType)) TokenMap.empty) := by
  show answersOf (TokenMap.ordered CilType) (ofList history).map = _
  rw [ofList, map_foldl_insert]
  rfl

/-! ### Histories -/

/-- The type that was registered last under a token. -/
def latest? (history : List CilType) (k : Token) : Option CilType :=
  history.reverse.find? fun t => t.token = k

theorem latest?_append (before later : List CilType) (k : Token) :
    latest? (before ++ later) k = (latest? later k).or (latest? before k) := by
  rw [latest?, List.reverse_append, List.find?_append]
  rfl

theorem mem_of_latest? {history : List CilType} {k : Token} {t : CilType} (h : latest? history k = some t) :
    t ∈ history ∧ t.token = k := by
  have hk := List.find?_some (p := fun t : CilType => decide (t.token = k)) h
  exact ⟨List.mem_reverse.mp (List.mem_of_find?_eq_some h), of_decide_eq_true hk⟩

theorem exists_latest?_iff {history : List CilType} {k : Token} :
    (∃ t, latest? history k = some t) ↔ k ∈ history.map CilType.token := by
  rw [List.mem_map]
  constructor
  · rintro ⟨t, h⟩
    exact ⟨t, mem_of_latest? h⟩
  · rintro ⟨t, ht, hk⟩
    refine Option.isSome_iff_exists.mp (List.find?_isSome.mpr ?_)
    exact ⟨t, List.mem_reverse.mpr ht, decide_eq_true hk⟩

/-- Where tokens differ, all types that were registered are found. -/
theorem latest?_eq_some_iff_of_nodup {history : List CilType} (h : (history.map CilType.token).Nodup)
    {k : Token} {t : CilType} : latest? history k = some t ↔ t ∈ history ∧ t.token = k := by
  refine ⟨mem_of_latest?, fun ⟨ht, hk⟩ => ?_⟩
  obtain ⟨u, hu⟩ := exists_latest?_iff.mpr (List.mem_map.mpr ⟨t, ht, hk⟩)
  obtain ⟨hmem, htoken⟩ := mem_of_latest? hu
  rw [hu, List.inj_on_of_nodup_map h hmem ht (htoken.trans hk.symm)]

theorem latest?_perm {inserts inserts' : List CilType} (h : inserts.Perm inserts')
    (hnodup : (inserts.map CilType.token).Nodup) (before after : List CilType) (k : Token) :
    latest? (before ++ inserts ++ after) k = latest? (before ++ inserts' ++ after) k := by
  have hnodup' : (inserts'.map CilType.token).Nodup := (h.map CilType.token).nodup_iff.mp hnodup
  have hlatest : latest? inserts k = latest? inserts' k := by
    apply Option.ext
    intro t
    rw [latest?_eq_some_iff_of_nodup hnodup, latest?_eq_some_iff_of_nodup hnodup', h.mem_iff]
  simp only [latest?_append, hlatest]

/-! ### What is remembered -/

section Maps

variable {M : OrderedMap Token CilType} {m m' : M.Map} {history : List CilType}

/-- A map lists the types that were registered last. -/
def Lists (M : OrderedMap Token CilType) (m : M.Map) (history : List CilType) : Prop :=
  ∀ k t, (k, t) ∈ M.entries m ↔ latest? history k = some t

/-- **One more type.**  It is listed under its token, and what was listed under others stays. -/
theorem lists_register (hM : M.Lawful) (h : Lists M m history) (t : CilType) :
    Lists M (register M m t) (history ++ [t]) := by
  intro k u
  rw [register, hM.mem_insert, latest?_append, h k u]
  by_cases hk : t.token = k
  · simp [latest?, hk, eq_comm]
  · simp [latest?, hk, Ne.symm hk]

/-- **All types.**  A map that had no entries lists what was registered. -/
theorem lists_foldl (hM : M.Lawful) {start : M.Map} (hstart : M.entries start = [])
    (history : List CilType) : Lists M (history.foldl (register M) start) history := by
  -- from the back, where the type stands that counts
  induction history using List.reverseRecOn with
  | nil =>
    intro k t
    simp [hstart, latest?]
  | append_singleton history t ih =>
    rw [List.foldl_append]
    exact lists_register hM ih t

/-- What a map answers is told by its entries, in whatever order they came. -/
theorem answersOf_congr (hM : M.Lawful) (h : ∀ e, e ∈ M.entries m ↔ e ∈ M.entries m') :
    answersOf M m = answersOf M m' := by
  have hnodup : ∀ m, (M.entries m).Nodup := fun m =>
    List.Pairwise.of_map Prod.fst (fun _ _ hne heq => hne (congrArg Prod.fst heq)) (hM.nodup_keys m)
  -- ascending entries are told by their members
  have hentries : M.entries m = M.entries m' := by
    refine List.Perm.eq_of_pairwise ?_ (hM.ascending m) (hM.ascending m')
      ((List.perm_ext_iff_of_nodup (hnodup m) (hnodup m')).mpr h)
    exact fun d e _ _ hde hed => absurd (Token.lt_trans hde hed) Token.lt_irrefl
  have hget : M.get? m = M.get? m' := by
    funext k
    apply Option.ext
    intro t
    rw [hM.get?_eq_some_iff, hM.get?_eq_some_iff, hentries]
  rw [answersOf, hget, hM.size_eq, hM.isEmpty_eq, hentries, ← hM.size_eq, ← hM.isEmpty_eq]
  rfl

end Maps

/-- What a registry answers after a history of types. -/
structure Remembers (history : List CilType) (a : Answers) : Prop where
  /-- the type registered last under a token is found, and none where none was registered -/
  get?_eq : ∀ k, a.get? k = latest? history k
  /-- every token counts once -/
  size_eq : a.size = (history.map CilType.token).dedup.length
  isEmpty_iff : a.isEmpty = true ↔ a.size = 0
  /-- the entries are listed by table and then by row -/
  ascending : a.entries.Pairwise fun d e =>
    d.1.tableByte < e.1.tableByte ∨ d.1.tableByte = e.1.tableByte ∧ d.1.row < e.1.row
  /-- each token once -/
  nodup_keys : (a.entries.map Prod.fst).Nodup
  mem_keys_iff : ∀ k, k ∈ a.entries.map Prod.fst ↔ k ∈ history.map CilType.token
  /-- each with the type that is found under it, and whose token it is -/
  paired : ∀ e ∈ a.entries, a.get? e.1 = some e.2 ∧ e.2.token = e.1

theorem remembers_of_lists {M : OrderedMap Token CilType} {m : M.Map} {history : List CilType}
    (hM : M.Lawful) (h : Lists M m history) : Remembers history (answersOf M m) := by
  have hget : ∀ k, M.get? m k = latest? history k := by
    intro k
    apply Option.ext
    intro t
    rw [hM.get?_eq_some_iff, h]
  have hnodup := hM.nodup_keys m
  have hmem : ∀ k, k ∈ (M.entries m).map Prod.fst ↔ k ∈ history.map CilType.token := by
    intro k
    rw [← exists_latest?_iff, ← exists_congr (h k)]
    simp
  refine ⟨hget, ?_, ?_, (hM.ascending m).imp Token.lt_iff.mp, hnodup, hmem, ?_⟩
  · have hperm := (List.perm_ext_iff_of_nodup hnodup (List.nodup_dedup (history.map CilType.token))).mpr
      fun k => (hmem k).trans List.mem_dedup.symm
    rw [← hperm.length_eq, List.length_map]
    exact hM.size_eq m
  · show M.isEmpty m = true ↔ M.size m = 0
    rw [hM.isEmpty_eq, hM.size_eq, List.isEmpty_iff_length_eq_zero]
  · rintro ⟨k, t⟩ he
    exact ⟨(hM.get?_eq_some_iff m k t).mpr he, (mem_of_latest? ((h k t).mp he)).2⟩

/-- A registry that keeps the last type of each token, by what it answers after each history. -/
structure KeepsLast (answersAfter : List CilType → Answers) : Prop where
  remembers : ∀ history, Remembers history (answersAfter history)
  /-- types of different tokens can be registered in any order -/
  perm : ∀ before inserts inserts' after : List CilType, inserts.Perm inserts' →
    (inserts.map CilType.token).Nodup →
      answersAfter (before ++ inserts ++ after) = answersAfter (before ++ inserts' ++ after)

theorem keepsLast_register {M : OrderedMap Token CilType} (hM : M.Lawful) {start : M.Map}
    (hstart : M.entries start = []) :
    KeepsLast fun history => answersOf M (history.foldl (register M) start) where
  remembers history := remembers_of_lists hM (lists_foldl hM hstart history)
  perm before inserts inserts' after h hnodup := by
    refine answersOf_congr hM fun ⟨k, t⟩ => ?_
    rw [lists_foldl hM hstart _ k t, lists_foldl hM hstart _ k t, latest?_perm h hnodup]

/-- **Last writer.**  The registry over a lawful map that starts without entries answers what was
registered last under each token, lists the tokens in order and counts them, whatever came in between;
the order of types of different tokens does not show.  So do registries as they are here. -/
theorem last_writer_wins :
    (∀ M : OrderedMap Token CilType, M.Lawful → ∀ start, M.entries start = [] →
      KeepsLast fun history => answersOf M (history.foldl (register M) start)) ∧
    KeepsLast fun history => (ofList history).answers := by
  refine ⟨fun M hM start hstart => keepsLast_register hM hstart, ?_⟩
  have hstart : (TokenMap.ordered CilType).entries TokenMap.empty = [] := rfl
  have h := keepsLast_register (TokenMap.lawful_ordered CilType) hstart
  have hanswers : (fun history => (ofList history).answers) = _ := funext answers_ofList
  rw [hanswers]
  exact h

/-- A type takes the place of the one under its token, and a type of another token may come before both
or between them. -/
theorem last_writer_wins_replaced :
    let widget : CilType := ⟨⟨0x02000003⟩, "", "Widget", ⟨0x1⟩⟩
    let gadget : CilType := ⟨⟨0x02000003⟩, "", "Gadget", ⟨0x1⟩⟩
    let comparable : CilType := ⟨⟨0x01000001⟩, "System", "IComparable", ⟨0x20⟩⟩
    (TokenMap.ordered CilType).Lawful ∧ (TokenMap.ordered CilType).entries TokenMap.empty = [] ∧
      [gadget, comparable].Perm [comparable, gadget] ∧
      ([gadget, comparable].map CilType.token).Nodup ∧
      answersOf (TokenMap.ordered CilType)
          ([widget, gadget, comparable].foldl (register (TokenMap.ordered CilType)) TokenMap.empty) =
        answersOf (TokenMap.ordered CilType)
          ([widget, comparable, gadget].foldl (register (TokenMap.ordered CilType)) TokenMap.empty) ∧
      (ofList [widget, comparable, gadget]).answers.get? ⟨0x02000003⟩ = some gadget ∧
      (ofList [widget, comparable, gadget]).answers.get? ⟨0x02000004⟩ = none ∧
      (ofList [widget, comparable, gadget]).answers.size = 2 := by
  intro widget gadget comparable
  have hperm : [gadget, comparable].Perm [comparable, gadget] := .swap _ _ _
  have hnodup : ([gadget, comparable].map CilType.token).Nodup := by decide
  have hmap := last_writer_wins.1 (TokenMap.ordered CilType) (TokenMap.lawful_ordered CilType)
    TokenMap.empty rfl
  have hregistry := last_writer_wins.2.remembers [widget, comparable, gadget]
  refine ⟨TokenMap.lawful_ordered CilType, rfl, hperm, hnodup, ?_, ?_, ?_, ?_⟩
  · exact hmap.perm [widget] _ _ [] hperm hnodup
  · exact (hregistry.get?_eq _).trans rfl
  · exact (hregistry.get?_eq _).trans rfl
  · exact hregistry.size_eq.trans (by decide)

end TypeRegistry
end CilMetadata
