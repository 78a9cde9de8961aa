import CilMetadata.CilType
import CilMetadata.TokenMap

/-!
# Type registries

The types of a module by token, in token order.  A type that is registered under the token of
another takes its place.

* `token_of_get?`: a type is found under its own token.
-/

namespace CilMetadata

/-- Types by token, each under its own. -/
structure TypeRegistry where
  map : TokenMap CilType
  keyed : ∀ e ∈ map.entries, e.2.token = e.1

namespace TypeRegistry

def empty : TypeRegistry := ⟨.empty, nofun⟩

theorem keyed_insert (r : TypeRegistry) (t : CilType) :
    ∀ e ∈ (r.map.insert t.token t).entries, e.2.token = e.1 := by
  intro e he
  rcases TokenMap.mem_insert.mp he with rfl | ⟨-, he⟩
  · rfl
  · exact r.keyed e he

def insert (r : TypeRegistry) (t : CilType) : TypeRegistry :=
  ⟨r.map.insert t.token t, r.keyed_insert t⟩

/-- The registry of some types, of which the last of each token counts. -/
def ofList (types : List CilType) : TypeRegistry := types.foldl insert empty

def get? (r : TypeRegistry) (k : Token) : Option CilType := r.map.get? k

def size (r : TypeRegistry) : Nat := r.map.size

def isEmpty (r : TypeRegistry) : Bool := r.map.isEmpty

def entries (r : TypeRegistry) : List (Token × CilType) := r.map.entries

def types (r : TypeRegistry) : List CilType := r.entries.map Prod.snd

/-! ### Laws -/

theorem token_of_get? {r : TypeRegistry} {k : Token} {t : CilType} (h : r.get? k = some t) : t.token = k :=
  r.keyed (k, t) (TokenMap.get?_eq_some_iff.mp h)

end TypeRegistry
end CilMetadata
