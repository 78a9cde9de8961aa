import CilMetadata.Proofs.InterfaceImpl.Alike
import CilMetadata.Proofs.InterfaceImpl.Equivalence
import CilMetadata.Proofs.Source.Transcript
import CilMetadata.Source.Scripted

/-!
# What can be observed of an entity

An entity that is made from a row of a source answers like an authored one.  All that is asked of
the source is that it answered the calls of this one run, which are in the transcript, by the
content of the row.  How it answers other calls, or the same ones at other times, is left open.

* `serves_of_agrees`: a source whose transcript agrees with the content of a row serves it;
* `answers_eq_authored`: the main result.
-/

namespace CilMetadata

variable {σ τ : Type}

theorem Source.Transcribed.alike (σ : Type) [Source σ] :
    Source.Alike fun (s : σ) (t : Source.Transcribed σ) => t.inner = s where
  rowCount _ s t h := by cases h; exact ⟨rfl, rfl⟩
  readInterfaceImpl _ s t h := by cases h; exact ⟨rfl, rfl⟩
  resolveTypeDef _ s t h := by cases h; exact ⟨rfl, rfl⟩
  resolveTypeDefOrRef _ s t h := by cases h; exact ⟨rfl, rfl⟩
  customAttributeRids _ s t h := by cases h; exact ⟨rfl, rfl⟩
  readCustomAttribute _ s t h := by cases h; exact ⟨rfl, rfl⟩

namespace RowContent

/-- What the content of a row says about the answer of a call. -/
def answer? (x : RowContent) (rid : UInt32) : Source.Call → Option Source.Answer
  | .rowCount _ => none
  | .readInterfaceImpl id => if id = rid then some (.row (.ok x.row)) else none
  | .resolveTypeDef index =>
    if index = x.row.classIndex then some (.type (.ok x.classType)) else none
  | .resolveTypeDefOrRef index =>
    if index = x.row.interfaceIndex then some (.type (.ok x.interfaceType)) else none
  | .customAttributeRids parent =>
    if parent = RowBacked.tokenOf rid then some (.rids (.ok x.attributeRids)) else none
  | .readCustomAttribute id => some (.attr (.ok (x.attributeOf id)))

/-- Every answer of a transcript is the one that the content of a row calls for. -/
def Agrees (x : RowContent) (rid : UInt32) (t : Source.Transcript) : Prop :=
  ∀ entry ∈ t, ∀ a, x.answer? rid entry.1 = some a → entry.2 = a

variable {x : RowContent} {rid : UInt32}

theorem Agrees.back [Source σ] {c : Source.Call} {s : Source.Transcribed σ}
    (h : x.Agrees rid (Source.call c s).2.entries) : x.Agrees rid s.entries := by
  intro entry hentry
  exact h entry (Source.Transcribed.entries_subset_call c s hentry)

theorem Agrees.last [Source σ] {c : Source.Call} {s : Source.Transcribed σ}
    (h : x.Agrees rid (Source.call c s).2.entries) {a : Source.Answer}
    (ha : x.answer? rid c = some a) : (Source.call c s).1 = a :=
  h _ (Source.Transcribed.mem_entries_call c s) a ha

/-- A source whose transcript agrees with the content of a row serves it. -/
theorem serves_of_agrees [Source σ] (x : RowContent) (rid : UInt32) :
    Serves (fun s : Source.Transcribed σ => x.Agrees rid s.entries) rid x where
  back _ _ h := h.back
  row _ h := Source.Answer.row.inj (Agrees.last (c := .readInterfaceImpl rid) h (if_pos rfl))
  type f s h := by
    cases f with
    | classType =>
      have ha : x.answer? rid (.resolveTypeDef x.row.classIndex) = some (.type (.ok x.classType)) :=
        if_pos rfl
      exact Source.Answer.type.inj (Agrees.last (s := s) h ha)
    | interfaceType =>
      have ha : x.answer? rid (.resolveTypeDefOrRef x.row.interfaceIndex) =
          some (.type (.ok x.interfaceType)) := if_pos rfl
      exact Source.Answer.type.inj (Agrees.last (s := s) h ha)
  attributeRids _ h :=
    Source.Answer.rids.inj
      (Agrees.last (c := .customAttributeRids (RowBacked.tokenOf rid)) h (if_pos rfl))
  attributeOf id _ h := Source.Answer.attr.inj (Agrees.last (c := .readCustomAttribute id) h rfl)

end RowContent

namespace InterfaceImpl

def entriesOf : Option (Source.Transcribed σ) → Source.Transcript
  | none => []
  | some s => s.entries

/-- The calls, with their answers, that it takes to make the entity of a row and to answer some
requests to it. -/
def transcript [Source σ] (build : Build) (mode : ValidationMode) (rid : UInt32) (ops : List Op) (s : σ) :
    Source.Transcript :=
  match ofRow build mode rid (some (⟨s, []⟩ : Source.Transcribed σ)) with
  | (.ok e, owner) => entriesOf (run step ops (e, owner)).2.2
  | (.error _, owner) => entriesOf owner

/-- **Observational equivalence.**  The entity of a row of any source answers every run of common
requests like the authored entity with the content of the row, if the source answered as the content
of the row says. -/
theorem answers_eq_authored [Source σ] {build : Build} {mode : ValidationMode} {rid : UInt32} {s : σ}
    {e : InterfaceImpl σ} {owner : Option σ} (hrow : ofRow build mode rid (some s) = (.ok e, owner))
    {ops : List Op} (hops : ∀ op ∈ ops, op.common = true) {x : RowContent}
    (hx : x.Agrees rid (transcript build mode rid ops s)) (other : Option τ) :
    (run step ops (e, owner)).1 = (run step ops (.authored (x.authored rid), other)).1 := by
  obtain ⟨rfl, -⟩ := ofRow_eq_ok hrow
  obtain ⟨e', owner', hrow', halike, howner⟩ := ofRow_alike (Source.Transcribed.alike σ)
    (.some rfl : Option.Rel _ (some s) (some ⟨s, []⟩)) hrow
  obtain ⟨rfl, hsome⟩ := ofRow_eq_ok hrow'
  rw [run_alike halike howner ops]
  refine run_eq_authored (RowContent.serves_of_agrees x rid) hops other ?_
  simp only [transcript, hrow'] at hx
  obtain ⟨t, ht⟩ := Option.isSome_iff_exists.mp (isSome_owner_run ops hsome)
  rw [ht] at hx ⊢
  exact hx

/-- The content of row 2 in front of a class, an interface and two attributes. -/
def sampleContent : RowContent where
  row := ⟨2, 0, 4, ⟨.typeRef, 1⟩⟩
  classType := some ⟨Token.ofParts .typeDef 4, "Shapes", "Circle", ⟨0x101⟩⟩
  interfaceType := some ⟨Token.ofParts .typeRef 1, "Shapes", "IShape", ⟨0xA1⟩⟩
  attributeRids := [8, 3]
  attributeOf id :=
    ⟨id, Token.ofParts .customAttribute id, 0, RowBacked.tokenOf 2, Token.ofParts .methodDef 1, [1]⟩

/-- A source of one row with this content. -/
def sampleSource : Source.Scripted where
  rowCounts := [(.interfaceImpl, 3)]
  rows := [(2, .ok ⟨4, ⟨.typeRef, 1⟩⟩)]
  typeDefs := [(4, .ok sampleContent.classType)]
  types := [(Token.ofParts .typeRef 1, .ok sampleContent.interfaceType)]
  rids := [(RowBacked.tokenOf 2, .ok [8, 3])]
  attributes := [(8, .ok (sampleContent.attributeOf 8)), (3, .ok (sampleContent.attributeOf 3))]
  numbered := false
  handedOut := 0

/-- Requests that edit the attributes before any of them is read. -/
def sampleOps : List Op :=
  [.attributes (.insert 0 (sampleContent.attributeOf 9)), .attributes (.remove 1), .classType,
    .setClassType none, .classType, .interfaceType, .attributes (.get 7), .attributes .toList]

theorem sampleContent_agrees : sampleContent.Agrees 2 (transcript .debug .strict 2 sampleOps sampleSource) := by
  have ht : transcript .debug .strict 2 sampleOps sampleSource =
      [(.rowCount .interfaceImpl, .count 3), (.customAttributeRids (RowBacked.tokenOf 2), .rids (.ok [8, 3])),
        (.readCustomAttribute 8, .attr (.ok (sampleContent.attributeOf 8))),
        (.readInterfaceImpl 2, .row (.ok sampleContent.row)),
        (.resolveTypeDef 4, .type (.ok sampleContent.classType)),
        (.resolveTypeDefOrRef ⟨.typeRef, 1⟩, .type (.ok sampleContent.interfaceType)),
        (.readCustomAttribute 3, .attr (.ok (sampleContent.attributeOf 3)))] := rfl
  rw [ht]
  intro entry hentry a ha
  simp only [List.mem_cons, List.not_mem_nil, or_false] at hentry
  rcases hentry with rfl | rfl | rfl | rfl | rfl | rfl | rfl <;> cases ha <;> rfl

theorem answers_eq_authored_sample :
    (run step sampleOps (.rowBacked (RowBacked.unread 2), some sampleSource)).1 =
      (run step sampleOps (.authored (sampleContent.authored 2), (none : Option Unit))).1 :=
  have hrow : ofRow .debug .strict 2 (some sampleSource) =
      (.ok (.rowBacked (RowBacked.unread 2)), some sampleSource) := rfl
  answers_eq_authored hrow (by decide) sampleContent_agrees none

end InterfaceImpl

end CilMetadata
